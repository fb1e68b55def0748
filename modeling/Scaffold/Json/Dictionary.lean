import Scaffold.Number.Digits
import Scaffold.Text.Dictionary

/-!
# Dictionaries as JSON

A dictionary is written as an object of strings, one member a line in ascending order of
the keys. Reading takes any object whose members are all strings, with blanks wherever the
format allows them; of two members with one key the later counts.
-/

namespace Scaffold.Json

open Scaffold.Text

/-! ## Writing -/

def hexPair (n : Nat) : List Char :=
  [Nat.digitChar (n / 16), Nat.digitChar (n % 16)]

def escaped (c : Char) : List Char :=
  match c with
  | '"' => ['\\', '"']
  | '\\' => ['\\', '\\']
  | '\x08' => ['\\', 'b']
  | '\t' => ['\\', 't']
  | '\n' => ['\\', 'n']
  | '\x0c' => ['\\', 'f']
  | '\r' => ['\\', 'r']
  | c => if c.toNat < 0x20 then '\\' :: 'u' :: '0' :: '0' :: hexPair c.toNat else [c]

def quoted (s : String) : List Char :=
  '"' :: s.toList.flatMap escaped ++ ['"']

def member (e : String × String) : List Char :=
  quoted e.1 ++ ':' :: ' ' :: quoted e.2

/-- The members of an object, each on a line of its own, a comma behind each but the last. -/
def members : List (String × String) → List Char
  | [] => []
  | [e] => ' ' :: ' ' :: member e ++ ['\n']
  | e :: es => ' ' :: ' ' :: member e ++ ',' :: '\n' :: members es

def object (es : List (String × String)) : String :=
  match es with
  | [] => "\x7b\x7d"
  | es => String.ofList ('\x7b' :: '\n' :: members es ++ ['\x7d'])

/-! ## Reading -/

inductive Token where
  | objectStart
  | objectEnd
  | colon
  | comma
  | text (s : String)
  deriving DecidableEq, Repr

def isBlank (c : Char) : Bool :=
  c == ' ' || c == '\n' || c == '\t' || c == '\r'

def punctuation? : Char → Option Token
  | '\x7b' => some .objectStart
  | '\x7d' => some .objectEnd
  | ':' => some .colon
  | ',' => some .comma
  | _ => none

def escapedChar? : Char → Option Char
  | '"' => some '"'
  | '\\' => some '\\'
  | '/' => some '/'
  | 'b' => some '\x08'
  | 'f' => some '\x0c'
  | 'n' => some '\n'
  | 'r' => some '\r'
  | 't' => some '\t'
  | _ => none

def codeUnit? : List Char → Option Nat
  | 'u' :: a :: b :: c :: d :: _ => Number.read? 16 [a, b, c, d]
  | _ => none

/-- The character that an escape behind a backslash names, and the number of characters that it
takes. A character beyond 16 bits is a pair of code units, and half a pair names nothing. -/
def escape? (s : List Char) : Option (Char × Nat) :=
  match s.head?.bind escapedChar?, codeUnit? s with
  | some c, _ => some (c, 1)
  | none, some unit =>
    if unit < 0xD800 || 0xE000 ≤ unit then some (Char.ofNat unit, 5)
    else if 0xDC00 ≤ unit then none
    else
      match s.drop 5 with
      | '\\' :: rest =>
        match codeUnit? rest with
        | some low =>
          if 0xDC00 ≤ low && low < 0xE000 then
            some (Char.ofNat (0x10000 + (unit - 0xD800) * 0x400 + (low - 0xDC00)), 11)
          else none
        | none => none
      | _ => none
  | none, none => none

/-- Reads on, after passing over `skip` characters; inside a string `acc?` holds what has been read
of it, the last character first. -/
def tokensFrom : (acc? : Option (List Char)) → (skip : Nat) → List Char → Option (List Token)
  | none, _, [] => some []
  | some _, _, [] => none
  | acc?, skip + 1, _ :: s => tokensFrom acc? skip s
  | none, 0, c :: s =>
    if isBlank c then tokensFrom none 0 s
    else if c == '"' then tokensFrom (some []) 0 s
    else
      match punctuation? c with
      | some t => (tokensFrom none 0 s).map (t :: ·)
      | none => none
  | some acc, 0, c :: s =>
    if c == '"' then (tokensFrom none 0 s).map (.text (String.ofList acc.reverse) :: ·)
    else if c == '\\' then
      match escape? s with
      | some (x, n) => tokensFrom (some (x :: acc)) n s
      | none => none
    else if c.toNat < 0x20 then none
    else tokensFrom (some (c :: acc)) 0 s

def membersOf? : List Token → Option (List (String × String))
  | [.text k, .colon, .text v, .objectEnd] => some [(k, v)]
  | .text k :: .colon :: .text v :: .comma :: ts => (membersOf? ts).map ((k, v) :: ·)
  | _ => none

def objectOf? : List Token → Option (List (String × String))
  | [.objectStart, .objectEnd] => some []
  | .objectStart :: ts => membersOf? ts
  | _ => none

end Scaffold.Json

namespace Scaffold.Text.Dictionary

def toJson (d : Dictionary) : String :=
  Json.object d.entries

def ofJson? (text : String) : Option Dictionary :=
  ((Json.tokensFrom none 0 text.toList).bind Json.objectOf?).map ofList

end Scaffold.Text.Dictionary
