import Scaffold.Source.Line

/-!
# Statements

Of the statements of a module only the definitions of functions are told apart: which
decorators a function has, what it is called, and how its body begins.
-/

namespace Scaffold.Source

structure Decorator where
  /-- what is called, or all of the expression if it is not a call -/
  target : String
  /-- the arguments of the call that have a name; the literal, if the value is a single one -/
  arguments : List (String × Option String)
  deriving DecidableEq, Repr

structure Definition where
  decorators : List Decorator
  name : String
  /-- the line that the body begins with, or what stands of it behind the colon -/
  body : List Token
  deriving DecidableEq, Repr

/-- A statement outside all blocks. -/
inductive Statement where
  | definition (d : Definition)
  | other
  deriving DecidableEq, Repr

namespace Decorator

def argument? : List Token → Option (String × Option String)
  | name :: equals :: value =>
    if name.kind = .word ∧ equals.text = "=" then some (name.text, Token.single? value) else none
  | _ => none

def ofExpression (e : List Token) : Decorator :=
  match lastOutside? [] e with
  | some (callee, t, group) =>
    if t.text = "(" then
      ⟨Token.joined callee, (pieces "," [] group.dropLast).filterMap argument?⟩
    else ⟨Token.joined e, []⟩
  | none => ⟨Token.joined e, []⟩

/-- The comment in a gap, if one is there: from its sign to the end of its line. -/
def comment? (gap : List Char) : Option String :=
  match gap.dropWhile (· != '#') with
  | [] => none
  | comment => some (String.ofList (comment.takeWhile (· != '\n')))

/-- The decorator that a line is. A comment directly behind the sign is taken for the expression. -/
def ofLine? (l : Line) : Option Decorator :=
  match l.tokens with
  | t :: e =>
    if t.text = "@" ∧ l.isBalanced then
      match e.head?.bind fun first => comment? first.gap with
      | some comment => some ⟨comment, []⟩
      | none => some (ofExpression e)
    else none
  | [] => none

end Decorator

namespace Definition

/-- What may stand between the name of a function and the colon: parameters, and before them
parameters of types, behind them the type of the result. -/
def isSignature (ts : List Token) : Bool :=
  match (outside [] ts).map Token.text with
  | ["("] | ["[", "("] => true
  | "(" :: "->" :: _ :: _ | "[" :: "(" :: "->" :: _ :: _ => true
  | _ => false

/-- The name of the function that tokens define, and the tokens behind the colon. -/
def ofTokens? : List Token → Option (String × List Token)
  | t :: name :: ts =>
    if t.text = "def" ∧ name.isName then
      match cutAt? ":" [] ts with
      | some (signature, body) => if isSignature signature then some (name.text, body) else none
      | none => none
    else none
  | _ => none

def ofLine? (l : Line) : Option (String × List Token) :=
  match l.tokens with
  | t :: ts => if t.text = "async" then ofTokens? ts else ofTokens? (t :: ts)
  | [] => none

def statementWords : List String :=
  ["assert", "break", "continue", "del", "from", "global", "import", "nonlocal", "pass", "raise",
    "return", "yield"]

/-- Words that begin such a statement if another word or a literal follows, and are names
otherwise. -/
def softStatementWords : List String :=
  ["exec", "print", "type"]

def beginsStatement : List Token → Bool
  | t :: u :: _ =>
    t.kind == .word && (statementWords.contains t.text ||
      softStatementWords.contains t.text && (u.kind != .mark || u.text == ">>"))
  | [t] => t.kind == .word && statementWords.contains t.text
  | [] => false

def assignmentMarks : List String :=
  [":", "=", "+=", "-=", "*=", "/=", "//=", "%=", "@=", "&=", "|=", "^=", ">>=", "<<=", "**="]

def isAssignment (statement : List Token) : Bool :=
  (outside [] statement).any fun t => t.kind == .mark && assignmentMarks.contains t.text

/-- The literal that documents the function with this body: the first statement is an
expression, or several with commas between them, and one of them is a single literal. -/
def docstring? (body : List Token) : Option String :=
  match pieces ";" [] body with
  | [] => none
  | statement :: _ =>
    if beginsStatement statement || isAssignment statement then none
    else (pieces "," [] statement).findSome? Token.single?

end Definition

namespace Statement

/-- The statements of lines with the first lines of their blocks; `decorators` stand before
the first. -/
def ofLines (decorators : List Decorator) : List (Line × Option Line) → List Statement
  | [] => []
  | (l, block) :: ls =>
    match Decorator.ofLine? l, Definition.ofLine? l with
    | some d, _ => ofLines (decorators ++ [d]) ls
    | none, some (name, body) =>
      let body := if body.isEmpty then (block.map Line.tokens).getD [] else body
      .definition ⟨decorators, name, body⟩ :: ofLines [] ls
    | none, none => .other :: ofLines [] ls

def ofSource (source : String) : List Statement :=
  ofLines [] (Line.outermost [] (lines (tokens source.toList)))

end Statement

end Scaffold.Source
