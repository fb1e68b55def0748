import Scaffold.Text.Blank
import Scaffold.Text.Dictionary
import Scaffold.Text.Word
import Scaffold.Yaml.Value

/-!
# Placeholders

A placeholder is a name between two pairs of braces, with blanks around the name as one
likes. `pieces` cuts a text into the placeholders in it and the characters between them;
`find` lists the placeholders, each once; `Value.names` collects their names from every
string of a value that is not a key.
-/

namespace Scaffold.Template

open Scaffold.Text
open Scaffold.Yaml (Value)

structure Placeholder where
  /-- the placeholder with its braces -/
  text : String
  name : String
  deriving DecidableEq, Repr

def isNameChar (c : Char) : Bool :=
  isWord c || c == '.' || c == '-' || c == '[' || c == ']' || c == '$'

def placeholderAt? : List Char → Option Placeholder
  | '\x7b' :: '\x7b' :: s =>
    let left := s.takeWhile isBlank
    let s := s.dropWhile isBlank
    let name := s.takeWhile isNameChar
    let s := s.dropWhile isNameChar
    let right := s.takeWhile isBlank
    match name, s.dropWhile isBlank with
    | _ :: _, '\x7d' :: '\x7d' :: _ =>
      let text := '\x7b' :: '\x7b' :: left ++ name ++ right ++ ['\x7d', '\x7d']
      some ⟨String.ofList text, String.ofList name⟩
    | _, _ => none
  | _ => none

/-- A part of a template: a character that stands for itself, or a placeholder. -/
inductive Piece where
  | char (c : Char)
  | hole (p : Placeholder)
  deriving DecidableEq, Repr

def Piece.hole? : Piece → Option Placeholder
  | .char _ => none
  | .hole p => some p

/-- The pieces of a text from here on, after passing over the next `skip` characters. -/
def piecesFrom : (skip : Nat) → List Char → List Piece
  | _, [] => []
  | skip + 1, _ :: s => piecesFrom skip s
  | 0, c :: s =>
    match placeholderAt? (c :: s) with
    | some p => .hole p :: piecesFrom (p.text.length - 1) s
    | none => .char c :: piecesFrom 0 s

def pieces (s : String) : List Piece :=
  piecesFrom 0 s.toList

/-- The placeholders in a text in the order in which they first occur. -/
def find (s : String) : List Placeholder :=
  ((pieces s).filterMap Piece.hole?).eraseDups

mutual

/-- The names of the placeholders in the strings of a value, its keys apart. -/
def names : Value → List String
  | .string s => (find s).map Placeholder.name
  | .sequence xs => itemNames xs
  | .mapping es => entryNames es
  | .tagged _ v => names v
  | _ => []

def itemNames : List Value → List String
  | [] => []
  | x :: xs => names x ++ itemNames xs

def entryNames : List (Value × Value) → List String
  | [] => []
  | (_, v) :: es => names v ++ entryNames es

end

/-- The names in a value in ascending order, each once. -/
def collect (v : Value) : List String :=
  (names v).foldr insertSorted []

end Scaffold.Template
