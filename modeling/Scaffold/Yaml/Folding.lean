import Scaffold.Number.Digits
import Scaffold.Yaml.Cursor

/-!
# Scalars over several lines

The text of a scalar as it is found in a document. In plain and quoted scalars the blanks
around a break do not count, a single break is read as a space, and of several breaks the
first is dropped. A block scalar keeps its lines, or folds those that do not begin with a
blank; what becomes of the breaks at its end is said in its header.
-/

namespace Scaffold.Yaml

/-! ## Gaps -/

/-- What stands between two words of a scalar; texts have their last character first. -/
inductive Gap where
  /-- blanks on one line -/
  | blanks (text : List Char)
  /-- at least one break; the first is missing if it was escaped -/
  | lines (first : Option Char) (more : List Char)
  deriving DecidableEq, Repr

namespace Gap

def none : Gap := .blanks []

def isBroken : Gap → Bool
  | .blanks _ => false
  | .lines _ _ => true

def isNone : Gap → Bool
  | .blanks [] => true
  | _ => false

def push (c : Char) : Gap → Gap
  | .blanks text => if isBreak c then .lines (some c) [] else .blanks (c :: text)
  | .lines first more => if isBreak c then .lines first (c :: more) else .lines first more

/-- What is read for the gap. -/
def folded : Gap → List Char
  | .blanks text => text
  | .lines (some '\n') [] => [' ']
  | .lines (some '\n') more => more
  | .lines first more => more ++ first.toList

end Gap

/-! ## Plain scalars -/

/-- A plain scalar: its text, the place behind it, and whether a break was passed on the way. -/
structure PlainScalar where
  text : String
  behind : Cursor
  brokeLine : Bool

/-- Reads on in a plain scalar. `acc` has the last character first; the text must not go on in
front of the column `indentation`. -/
def plainFrom (inFlow : Bool) (indentation : Nat) :
    (acc : List Char) → Gap → (rest : List Char) → Position → Option PlainScalar
  | acc, gap, [], pos => some ⟨String.ofList acc.reverse, ⟨[], pos⟩, gap.isBroken⟩
  | acc, gap, c :: s, pos =>
    let stop := some ⟨String.ofList acc.reverse, ⟨c :: s, pos⟩, gap.isBroken⟩
    if isWhite c || isBreak c then
      if gap.isBroken && pos.column < indentation && c == '\t' then none
      else plainFrom inFlow indentation acc (gap.push c) s (pos.after c)
    else if gap.isBroken && !inFlow && pos.column < indentation then stop
    else if pos.column == 0 && (documentMark? (c :: s)).isSome then stop
    else if c == '#' && !gap.isNone then stop
    else if inFlow && c == ':' && s.head?.any (fun d => isFlowIndicator d || d == '?') then none
    else if c == ':' && atWordEnd s then stop
    else if inFlow && isFlowIndicator c then stop
    else plainFrom inFlow indentation (c :: gap.folded ++ acc) .none s (pos.after c)

def plainScalar? (inFlow : Bool) (indentation : Nat) (c : Cursor) : Option PlainScalar :=
  plainFrom inFlow indentation [] .none c.rest c.position

/-! ## Quoted scalars -/

def escapedChar? (c : Char) : Option Char :=
  List.lookup c [('0', '\x00'), ('a', '\x07'), ('b', '\x08'), ('t', '\t'), ('\t', '\t'),
    ('n', '\n'), ('v', '\x0B'), ('f', '\x0C'), ('r', '\r'), ('e', '\x1B'), (' ', ' '), ('"', '"'),
    ('/', '/'), ('\\', '\\'), ('N', '\u0085'), ('_', '\u00A0'), ('L', '\u2028'), ('P', '\u2029')]

/-- The number of digits behind a letter that introduces a code point. -/
def codeDigits? (c : Char) : Option Nat :=
  List.lookup c [('x', 2), ('u', 4), ('U', 8)]

def codePoint? (digits : List Char) : Option Char :=
  match Number.read? 16 digits with
  | some n => if n.isValidChar then some (Char.ofNat n) else none
  | none => none

/-- Reads on in a scalar between quotes, after passing over `skip` characters: backslashes count
in double quotes only, a quote is doubled in single ones. -/
def quotedFrom (double : Bool) :
    (skip : Nat) → (acc : List Char) → Gap → (rest : List Char) → Position →
      Option (String × Cursor)
  | _, _, _, [], _ => none
  | skip + 1, acc, gap, c :: s, pos => quotedFrom double skip acc gap s (pos.after c)
  | 0, acc, gap, c :: s, pos =>
    let on (skip : Nat) (acc : List Char) (gap : Gap) :=
      quotedFrom double skip acc gap s (pos.after c)
    if isWhite c || isBreak c then on 0 acc (gap.push c)
    else if pos.column == 0 && (documentMark? (c :: s)).isSome then none
    else
      let acc := gap.folded ++ acc
      if c == (if double then '"' else '\'') then
        if !double && s.head? == some '\'' then on 1 (c :: acc) .none
        else some (String.ofList acc.reverse, ⟨s, pos.after c⟩)
      else if double && c == '\\' then
        match s with
        | [] => none
        | d :: digits =>
          if isBreak d then on 1 acc (.lines none [])
          else
            match escapedChar? d, codeDigits? d with
            | some x, _ => on 1 (x :: acc) .none
            | none, some n =>
              match codePoint? (digits.take n) with
              | some x => if (digits.take n).length = n then on (n + 1) (x :: acc) .none else none
              | none => none
            | none, none => none
      else on 0 (c :: acc) .none

def quotedScalar? (double : Bool) (c : Cursor) : Option (String × Cursor) :=
  quotedFrom double 0 [] .none c.next.rest c.next.position

/-! ## Block scalars -/

/-- What becomes of the breaks at the end of a block scalar. -/
inductive Chomping where
  | strip
  | clip
  | keep
  deriving DecidableEq, Repr

def Chomping.ofChar? : Char → Option Chomping
  | '-' => some .strip
  | '+' => some .keep
  | _ => none

/-- A digit of a block scalar's header: how much further in its lines are. -/
def indentDigit? (c : Char) : Option Nat :=
  if '1' ≤ c ∧ c ≤ '9' then some (c.toNat - 0x30) else none

/-- The header of a block scalar: the chomping, how much further in its lines are, and where the
header ends. Its two signs may come in either order. -/
def blockHeader : List Char → Chomping × Option Nat × Nat
  | [] => (.clip, none, 0)
  | c :: s =>
    match Chomping.ofChar? c, indentDigit? c with
    | some k, _ =>
      match s.head?.bind indentDigit? with
      | some n => (k, some n, 2)
      | none => (k, none, 1)
    | none, some n =>
      match s.head?.bind Chomping.ofChar? with
      | some k => (k, some n, 2)
      | none => (.clip, some n, 1)
    | none, none => (.clip, none, 0)

/-- The deepest indentation of the empty lines in front of a block scalar's text and of its first
line; nothing if a tab stands in it. -/
def deepestIndent? (deepest : Nat) : (rest : List Char) → (column : Nat) → Option Nat
  | [], column => some (max deepest column)
  | c :: s, column =>
    if c == ' ' then deepestIndent? deepest s (column + 1)
    else if c == '\t' then none
    else if isBreak c then deepestIndent? (max deepest column) s 0
    else some (max deepest column)

/-- A block scalar being read. Texts have their last character first. -/
structure BlockScalar where
  text : List Char
  /-- the break at the end of the last line -/
  lineBreak : Option Char
  /-- the breaks of the empty lines behind it -/
  emptyLines : List Char
  /-- the last line begins with a blank -/
  beganBlank : Bool

namespace BlockScalar

def empty : BlockScalar := ⟨[], none, [], false⟩

/-- The line that begins with `c` is joined to those before it. -/
def beginLine (b : BlockScalar) (folded : Bool) (c : Char) : BlockScalar :=
  let between :=
    if folded && b.lineBreak == some '\n' && !b.beganBlank && !isWhite c then
      if b.emptyLines.isEmpty then [' '] else b.emptyLines
    else b.emptyLines ++ b.lineBreak.toList
  ⟨c :: between ++ b.text, none, [], isWhite c⟩

def finish (b : BlockScalar) (chomping : Chomping) : String :=
  let ending :=
    match chomping with
    | .strip => []
    | .clip => b.lineBreak.toList
    | .keep => b.emptyLines ++ b.lineBreak.toList
  String.ofList (ending ++ b.text).reverse

end BlockScalar

/-- Reads on in a block scalar whose lines are indented by `indentation`; `inLine` says whether
the indentation of the line has been passed. -/
def blockFrom (folded : Bool) (indentation : Nat) :
    (inLine : Bool) → BlockScalar → (rest : List Char) → Position → Option (BlockScalar × Cursor)
  | _, b, [], pos => some (b, ⟨[], pos⟩)
  | true, b, c :: s, pos =>
    if isBreak c then
      blockFrom folded indentation false { b with lineBreak := some c } s (pos.after c)
    else blockFrom folded indentation true { b with text := c :: b.text } s (pos.after c)
  | false, b, c :: s, pos =>
    if isBreak c then
      blockFrom folded indentation false { b with emptyLines := c :: b.emptyLines } s (pos.after c)
    else if pos.column < indentation then
      if c == ' ' then blockFrom folded indentation false b s (pos.after c)
      else if c == '\t' then none
      else some (b, ⟨c :: s, pos⟩)
    else blockFrom folded indentation true (b.beginLine folded c) s (pos.after c)

/-- The text of the block scalar at `c` and the place behind it, in a block that begins in the
column `outer`. -/
def blockScalar? (folded : Bool) (outer : Option Nat) (c : Cursor) : Option (String × Cursor) := do
  let (chomping, increment, length) := blockHeader c.next.rest
  let body ← (c.next.skip length).restOfLine?
  let least := match outer with
    | some n => n + 1
    | none => 1
  let indentation ← match increment with
    | some n => some (outer.getD 0 + n)
    | none => (deepestIndent? 0 body.rest 0).map (max least)
  let (b, behind) ← blockFrom folded indentation false .empty body.rest body.position
  return (b.finish chomping, behind)

end Scaffold.Yaml
