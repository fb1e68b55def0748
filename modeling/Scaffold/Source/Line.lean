import Scaffold.Source.Token

/-!
# Lines

A line ends with the text line that its last token stands on, unless a bracket is open there
or its last token wants an operand and finds one. A decorator that follows where only an
operand can shows that a bracket was never closed, and begins a line all the same.

A line whose last token is a colon opens a block, if the next line stands further in than the
block around; a block ends before the first line that stands further out. Where no block can
begin, it does not matter how far in a line stands.
-/

namespace Scaffold.Source

structure Line where
  column : Nat
  tokens : List Token
  deriving DecidableEq, Repr

def endingMarks : List String :=
  [")", "]", "\x7d", ":", ";", ",", "*", "...", "\"", "'", "\x60"]

def Token.wantsOperand (t : Token) : Bool :=
  t.kind == .mark && !endingMarks.contains t.text

def Token.beginsOperand (t : Token) : Bool :=
  t.kind != .mark || ["(", "[", "\x7b", "+", "-", "~", "*", "..."].contains t.text

def Token.endsOperand (t : Token) : Bool :=
  t.kind != .mark || [")", "]", "\x7d", "...", "\"", "'", "\x60"].contains t.text

/-- A line may begin with `t` if it stands first on a text line; `n` is what is open before it. -/
def mayBegin (n : Nest) (previous t : Token) : Bool :=
  if t.text = "@" && !previous.endsOperand then true
  else n.all (· == ":") && !(previous.wantsOperand && t.beginsOperand)

/-- The column of `t` if a line begins with it. -/
def lineStart? (n : Nest) (previous t : Token) : Option Nat :=
  if mayBegin n previous t then t.column? else none

/-- The rest of the line that `previous` stands on, and the lines behind it. -/
def linesFrom (n : Nest) (previous : Token) : List Token → List Token × List Line
  | [] => ([], [])
  | t :: ts =>
    match lineStart? n previous t with
    | some column =>
      let (line, more) := linesFrom (Nest.after [] t) t ts
      ([], ⟨column, t :: line⟩ :: more)
    | none =>
      let (line, more) := linesFrom (n.after t) t ts
      (t :: line, more)

def lines : List Token → List Line
  | [] => []
  | t :: ts =>
    let (line, more) := linesFrom (Nest.after [] t) t ts
    ⟨t.column?.getD 0, t :: line⟩ :: more

namespace Line

def isBalanced (l : Line) : Bool :=
  (l.tokens.foldl Nest.after []).all (· == ":")

/-- The line is one that a block can follow. -/
def endsWithColon (l : Line) : Bool :=
  l.tokens.getLast?.any (·.text == ":")

/-- The lines outside all blocks, each with the first line of the block that it opens;
`blocks` are the columns of the blocks around the first line, the innermost first. -/
def outermost (blocks : List Nat) : List Line → List (Line × Option Line)
  | [] => []
  | l :: ls =>
    let inner := ls.head?.filter fun next => l.endsWithColon && blocks.headD 0 < next.column
    let rest :=
      match ls, inner with
      | [], _ => []
      | ls, some next => outermost (next.column :: blocks) ls
      | next :: ls, none => outermost (blocks.dropWhile (next.column < ·)) (next :: ls)
    if blocks.isEmpty then (l, inner) :: rest else rest

end Line

end Scaffold.Source
