import Scaffold.Source.Identifier
import Scaffold.Source.Literal

/-!
# Tokens

A source in Python is cut into words, literals and marks. Each token keeps the gap before it:
blanks, comments, breaks, and characters that belong to no token. So nothing is lost but what
stands behind the last token, and a run of tokens has the very text that is written there.
-/

namespace Scaffold.Source

inductive TokenKind where
  /-- a name, a keyword or the digits of a number -/
  | word
  | literal
  /-- a bracket, an operator or punctuation -/
  | mark
  deriving DecidableEq, Repr

structure Token where
  gap : List Char
  kind : TokenKind
  text : String
  deriving DecidableEq, Repr

/-! ## Cutting -/

/-- The marks of more than one character, no one behind another that it begins with. -/
def longMarks : List String :=
  ["**=", "//=", ">>=", "<<=", "...", "->", ":=", "==", "!=", "<=", ">=", "+=", "-=", "*=", "/=",
    "%=", "@=", "&=", "|=", "^=", "**", "//", "<<", ">>", "<>"]

def beginsMark (c : Char) : Bool :=
  "+-*/%@&|^~<>()[]\x7b\x7d:;,.=!\"'\x60".toList.contains c

def beginsWord (c : Char) : Bool :=
  beginsName c || c.isDigit

def beginsToken (c : Char) : Bool :=
  beginsWord c || beginsMark c

def gapLength : (inComment : Bool) → List Char → Nat
  | _, [] => 0
  | true, c :: s => gapLength (c != '\n') s + 1
  | false, c :: s =>
    if c = '#' then gapLength true s + 1
    else if beginsToken c then 0
    else gapLength false s + 1

/-- The kind of the token that begins with `c`, and how many of the characters behind `c`
belong to it. -/
def extent (c : Char) (s : List Char) : TokenKind × Nat :=
  match literalLength? (c :: s) with
  | some n => (.literal, n - 1)
  | none =>
    if beginsWord c then (.word, (s.takeWhile continuesName).length)
    else
      match longMarks.find? fun m => m.toList.isPrefixOf (c :: s) with
      | some m => (.mark, m.length - 1)
      | none => (.mark, 0)

def tokens (source : List Char) : List Token :=
  let n := gapLength false source
  match _h : source.drop n with
  | [] => []
  | c :: s =>
    let (kind, more) := extent c s
    ⟨source.take n, kind, String.ofList (c :: s.take more)⟩ :: tokens (s.drop more)
termination_by source.length
decreasing_by
  have := congrArg List.length _h
  simp only [List.length_drop, List.length_cons] at this ⊢
  omega

namespace Token

/-! ## Where a token stands -/

/-- The column behind `gap`, counted from its last break; `column` is the one before it. A
tab counts as eight, and a backslash takes the break behind it with it. -/
def columnFrom? : (column : Option Nat) → (inComment : Bool) → (gap : List Char) → Option Nat
  | column, _, [] => column
  | _, _, '\n' :: s => columnFrom? (some 0) false s
  | column, true, _ :: s => columnFrom? column true s
  | column, false, '\\' :: '\n' :: s => columnFrom? column false s
  | column, false, '\\' :: '\r' :: '\n' :: s => columnFrom? column false s
  | column, false, c :: s =>
    match c with
    | '#' => columnFrom? column true s
    | ' ' => columnFrom? (column.map (· + 1)) false s
    | '\t' => columnFrom? (column.map (· + 8)) false s
    | '\r' | '\x0c' => columnFrom? (column.map fun _ => 0) false s
    | _ => columnFrom? column false s

/-- The column of a token that is the first on its line. -/
def column? (t : Token) : Option Nat :=
  columnFrom? none false t.gap

/-! ## What a token is -/

def literal? (t : Token) : Option String :=
  if t.kind = .literal then some t.text else none

def single? : List Token → Option String
  | [t] => t.literal?
  | _ => none

def isName (t : Token) : Bool :=
  t.kind == .word && !(t.text.toList.head?.any Char.isDigit)

/-- What closes the group that a token opens. The parameters of a lambda are a group too. -/
def closer? (t : Token) : Option String :=
  match t.text with
  | "(" => some ")"
  | "[" => some "]"
  | "\x7b" => some "\x7d"
  | "lambda" => some ":"
  | _ => none

/-- The text of a run of tokens, as it is written. -/
def joined : List Token → String
  | [] => ""
  | t :: ts => ts.foldl (fun s u => s ++ String.ofList u.gap ++ u.text) t.text

end Token

/-! ## Groups -/

/-- The closers of the groups that are open, the innermost first. -/
abbrev Nest := List String

/-- The groups that are open behind a token. A bracket closes all groups inside its own. -/
def Nest.after (n : Nest) (t : Token) : Nest :=
  match t.closer? with
  | some c => c :: n
  | none =>
    if t.text = ":" ∧ n.head? ≠ some ":" then n
    else if n.contains t.text then (n.dropWhile (· ≠ t.text)).drop 1
    else n

/-- The tokens outside all groups; the one that opens a group is outside it. -/
def outside : Nest → List Token → List Token
  | _, [] => []
  | n, t :: ts => if n.isEmpty then t :: outside (n.after t) ts else outside (n.after t) ts

/-- The tokens before the first `separator` outside all groups, and those behind it. -/
def cutAt? (separator : String) : Nest → List Token → Option (List Token × List Token)
  | _, [] => none
  | n, t :: ts =>
    if n.isEmpty && t.text == separator then some ([], ts)
    else (cutAt? separator (n.after t) ts).map fun (before, behind) => (t :: before, behind)

/-- The last token outside all groups, with the tokens before it and those behind it. -/
def lastOutside? : Nest → List Token → Option (List Token × Token × List Token)
  | _, [] => none
  | n, t :: ts =>
    match lastOutside? (n.after t) ts with
    | some (before, u, behind) => some (t :: before, u, behind)
    | none => if n.isEmpty then some ([], t, ts) else none

/-- The pieces between the places where `separator` stands outside all groups. -/
def pieces (separator : String) : Nest → List Token → List (List Token)
  | _, [] => [[]]
  | n, t :: ts =>
    if n.isEmpty && t.text == separator then [] :: pieces separator (n.after t) ts
    else
      match pieces separator (n.after t) ts with
      | [] => [[t]]
      | p :: ps => (t :: p) :: ps

end Scaffold.Source
