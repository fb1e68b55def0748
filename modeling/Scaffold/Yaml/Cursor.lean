import Scaffold.Yaml.Character

/-!
# Cursors

A `Cursor` is a place in a document: what is left to read and how far one has come. Every
character counts as one column, and a break begins a line. Reading on never goes back, so
all that follows a place depends on its cursor alone.
-/

namespace Scaffold.Yaml

/-- How far one has come, in characters, in lines, and in columns of the line. -/
structure Position where
  index : Nat
  line : Nat
  column : Nat
  deriving DecidableEq, Repr

def Position.start : Position := ⟨0, 0, 0⟩

def Position.after (p : Position) (c : Char) : Position :=
  if isBreak c then ⟨p.index + 1, p.line + 1, 0⟩ else ⟨p.index + 1, p.line, p.column + 1⟩

structure Cursor where
  rest : List Char
  position : Position
  deriving DecidableEq, Repr

/-- The place behind the first characters of `rest` that have `p`. -/
def passFrom (p : Char → Bool) : (rest : List Char) → Position → Cursor
  | [], pos => ⟨[], pos⟩
  | c :: s, pos => if p c then passFrom p s (pos.after c) else ⟨c :: s, pos⟩

namespace Cursor

def column (c : Cursor) : Nat :=
  c.position.column

def next (c : Cursor) : Cursor :=
  match c.rest with
  | [] => c
  | x :: s => ⟨s, c.position.after x⟩

def skip : (n : Nat) → Cursor → Cursor
  | 0, c => c
  | n + 1, c => skip n c.next

def run (c : Cursor) (p : Char → Bool) : List Char :=
  c.rest.takeWhile p

def pass (c : Cursor) (p : Char → Bool) : Cursor :=
  passFrom p c.rest c.position

def lineEnd (c : Cursor) : Cursor :=
  c.pass fun x => !isBreak x

/-- The place behind blanks and a comment, if the line ends there; then the beginning of the
next line. -/
def restOfLine? (c : Cursor) : Option Cursor :=
  let c := c.pass isWhite
  let c := if c.rest.head? = some '#' then c.lineEnd else c
  if atLineEnd c.rest then some c.next else none

theorem pass_rest (c : Cursor) (p : Char → Bool) : (c.pass p).rest = c.rest.dropWhile p := by
  obtain ⟨s, pos⟩ := c
  simp only [pass]
  induction s generalizing pos with
  | nil => rfl
  | cons x s ih => by_cases h : p x <;> simp [passFrom, h, ih]

end Cursor

inductive DocumentMark where
  | start
  | finish
  deriving DecidableEq, Repr

/-- The mark that stands here; it counts at the beginning of a line only. -/
def documentMark? : List Char → Option DocumentMark
  | '-' :: '-' :: '-' :: s => if atWordEnd s then some .start else none
  | '.' :: '.' :: '.' :: s => if atWordEnd s then some .finish else none
  | _ => none

end Scaffold.Yaml
