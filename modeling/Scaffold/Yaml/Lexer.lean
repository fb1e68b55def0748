import Scaffold.Yaml.Folding
import Scaffold.Yaml.Token

/-!
# Reading tokens

`tokens?` cuts a document into tokens. Blocks begin where a token stands further in than
the block around it and end where one stands further out. A key is known as one only at
its colon, so every place where one might begin is remembered: the token for the key, and
for the block that it begins, are then put in before what has been read since. Such a
place is forgotten at the end of its line and after 1024 characters.

Anchors are numbered by how many names there were before them, and an alias has the number
that its name had last.
-/

namespace Scaffold.Yaml

structure KeyStart where
  position : Position
  /-- the number of tokens before it -/
  before : Nat
  /-- nothing but a key can stand there -/
  required : Bool
  deriving DecidableEq, Repr

/-- How far a document has been cut into tokens. -/
structure Lexer where
  cursor : Cursor
  /-- the columns of the blocks that are open, the innermost first -/
  blocks : List Nat
  /-- what may be a key in the block, and in each flow collection that is open, the innermost
  first -/
  keys : List (Option KeyStart)
  /-- a key may begin here -/
  keyAllowed : Bool
  /-- the names of anchors with their numbers, the latest first -/
  names : List (String × Nat)
  /-- the tokens so far, the last first -/
  tokens : List Token
  count : Nat

namespace Lexer

def start (text : List Char) : Lexer :=
  ⟨⟨text, .start⟩, [], [none], true, [], [], 0⟩

def inFlow (l : Lexer) : Bool :=
  1 < l.keys.length

def emit (l : Lexer) (t : Token) : Lexer :=
  { l with tokens := t :: l.tokens, count := l.count + 1 }

/-- Puts a token in after the first `before` tokens. -/
def insertAfter (l : Lexer) (before : Nat) (t : Token) : Lexer :=
  let since := l.count - before
  { l with tokens := l.tokens.take since ++ t :: l.tokens.drop since, count := l.count + 1 }

def emitSkip (l : Lexer) (t : Token) (n : Nat) : Lexer :=
  { l.emit t with cursor := l.cursor.skip n }

/-! ## Blocks -/

/-- The column further in than which a token must stand to begin a block. -/
def isDeeper (l : Lexer) (column : Nat) : Bool :=
  l.blocks.head?.all (· < column)

/-- Opens the block that `t` begins in `column`, if that is further in than the block around;
the token goes in after the first `before` tokens. -/
def openBlock (l : Lexer) (t : Token) (column before : Nat) : Lexer :=
  if !l.inFlow && l.isDeeper column then
    { l with blocks := column :: l.blocks }.insertAfter before t
  else l

/-- Closes the blocks `blocks` as long as they are further in than `column`. -/
def closeBlocks (l : Lexer) (column : Option Nat) : List Nat → Lexer
  | [] => { l with blocks := [] }
  | b :: blocks =>
    if column.all (· < b) then closeBlocks (l.emit .blockEnd) column blocks
    else { l with blocks := b :: blocks }

/-- Closes the blocks that are further in than `column`; all of them if there is no column. -/
def close (l : Lexer) (column : Option Nat) : Lexer :=
  if l.inFlow then l else l.closeBlocks column l.blocks

/-! ## Keys -/

/-- The key is out of reach: on an earlier line, or too far away. -/
def isStale (p : Position) (k : KeyStart) : Bool :=
  k.position.line < p.line || k.position.index + 1024 < p.index

def forgetStale? (l : Lexer) : Option Lexer :=
  let stale (k : KeyStart) := isStale l.cursor.position k
  if l.keys.any fun k => k.any fun k => stale k && k.required then none
  else some { l with keys := l.keys.map fun k => k.filter fun k => !stale k }

/-- Forgets the key that may have begun in the innermost collection. -/
def forgetKey? (l : Lexer) : Option Lexer :=
  match l.keys with
  | some k :: keys => if k.required then none else some { l with keys := none :: keys }
  | _ => some l

def saveKey? (l : Lexer) : Option Lexer :=
  if l.keyAllowed then do
    let l ← l.forgetKey?
    let required := !l.inFlow && l.blocks.head? == some l.cursor.column
    return { l with keys := some ⟨l.cursor.position, l.count, required⟩ :: l.keys.drop 1 }
  else some l

/-! ## Between tokens -/

/-- Passes over blanks, breaks and comments; `lines` is how many lines there are at most. -/
def toToken (l : Lexer) : (lines : Nat) → Lexer
  | 0 => l
  | lines + 1 =>
    let c := l.cursor
    let c := if c.column == 0 && c.rest.head? == some '\ufeff' then c.next else c
    let c := c.pass fun x => x == ' ' || (x == '\t' && (l.inFlow || !l.keyAllowed))
    let c := if c.rest.head? == some '#' then c.lineEnd else c
    if c.rest.head?.any isBreak then
      toToken { l with cursor := c.next, keyAllowed := l.keyAllowed || !l.inFlow } lines
    else { l with cursor := c }

/-! ## Directives -/

/-- The number of at most nine digits at `c`. -/
def number? (c : Cursor) : Option (Nat × Cursor) :=
  let digits := c.run Number.isDigit
  if digits.length ≤ 9 then (Number.read? 10 digits).map fun n => (n, c.pass Number.isDigit)
  else none

/-- The version at `c`: two numbers with a point between them. -/
def version? (c : Cursor) : Option (Token × Cursor) := do
  let (major, c) ← number? (c.pass isWhite)
  guard (c.rest.head? == some '.')
  let (minor, c) ← number? c.next
  return (.versionDirective major minor, c)

def octet? (a b : Char) : Option UInt8 :=
  (Number.read? 16 [a, b]).map Nat.toUInt8

/-- How many octets a character takes whose first octet is `b`. -/
def octetCount? (b : UInt8) : Option Nat :=
  if b < 0x80 then some 1
  else if 0xC0 ≤ b && b < 0xE0 then some 2
  else if 0xE0 ≤ b && b < 0xF0 then some 3
  else if 0xF0 ≤ b && b < 0xF8 then some 4
  else none

/-- The octets of a part of a tag whose characters have `p`, and where it ends. An escape is a
percent sign and two digits; `due` is how many octets the current character still lacks, and those
must be escaped as well. -/
def tagFrom (p : Char → Bool) :
    (skip due : Nat) → (acc : List UInt8) → (rest : List Char) → Position →
      Option (List UInt8 × Cursor)
  | _, due, acc, [], pos => if due = 0 then some (acc.reverse, ⟨[], pos⟩) else none
  | skip + 1, due, acc, c :: s, pos => tagFrom p skip due acc s (pos.after c)
  | 0, due, acc, c :: s, pos =>
    if c == '%' then
      match s with
      | a :: b :: _ =>
        match octet? a b with
        | some octet =>
          if due = 0 then
            match octetCount? octet with
            | some n => tagFrom p 2 (n - 1) (octet :: acc) s (pos.after c)
            | none => none
          else if 0x80 ≤ octet && octet < 0xC0 then
            tagFrom p 2 (due - 1) (octet :: acc) s (pos.after c)
          else none
        | none => none
      | _ => none
    else if due ≠ 0 then none
    else if p c then tagFrom p 0 0 (c.toNat.toUInt8 :: acc) s (pos.after c)
    else some (acc.reverse, ⟨c :: s, pos⟩)

/-- The part of a tag at `c` whose characters have `p`. An octet of zero ends it early. -/
def tagPart? (p : Char → Bool) (c : Cursor) : Option (List UInt8 × Cursor) :=
  (tagFrom p 0 0 [] c.rest c.position).map fun (octets, c) => (octets.takeWhile (· ≠ 0), c)

/-- The handle of a tag at `c`: a name between two marks, or one mark and the name that may follow
it. -/
def handle? (c : Cursor) : Option (List Char × Cursor) :=
  if c.rest.head? == some '!' then
    let name := c.next.run isNameChar
    let c := c.next.pass isNameChar
    if c.rest.head? == some '!' then some ('!' :: name ++ ['!'], c.next) else some ('!' :: name, c)
  else none

def nonemptyPart? (p : Char → Bool) (c : Cursor) : Option (List UInt8 × Cursor) := do
  let (part, behind) ← tagPart? p c
  if behind.position.index = c.position.index then none else some (part, behind)

/-- The meaning of a handle, as a directive gives it. -/
def handleMeaning? (c : Cursor) : Option (Token × Cursor) := do
  let (handle, c) ← handle? (c.pass isWhite)
  guard (handle == ['!'] || (1 < handle.length && handle.getLast? == some '!'))
  guard (c.rest.head?.any isWhite)
  let (meaning, c) ← nonemptyPart? isLongTagChar (c.pass isWhite)
  guard (atWordEnd c.rest)
  return (.tagDirective handle meaning, c)

def directive? (c : Cursor) : Option (Token × Cursor) := do
  let name := c.next.run isNameChar
  let c := c.next.pass isNameChar
  guard (atWordEnd c.rest)
  let (t, c) ←
    if name == "YAML".toList then version? c
    else if name == "TAG".toList then handleMeaning? c
    else none
  return (t, ← c.restOfLine?)

/-! ## Properties of nodes -/

def anchorName? (c : Cursor) : Option (String × Cursor) :=
  let name := c.next.run isNameChar
  let c := c.next.pass isNameChar
  if !name.isEmpty &&
      (atWordEnd c.rest || c.rest.head?.any fun x => "?:,]\x7d%@\x60".toList.contains x)
  then some (String.ofList name, c)
  else none

def octets (s : List Char) : List UInt8 :=
  s.map fun c => c.toNat.toUInt8

/-- The tag at `c`: in angle brackets, with a handle, or with a lone mark as its handle. -/
def tag? (c : Cursor) : Option (Token × Cursor) :=
  if c.next.rest.head? == some '<' then do
    let (suffix, c) ← nonemptyPart? isLongTagChar (c.skip 2)
    guard (c.rest.head? == some '>')
    return (.tag [] suffix, c.next)
  else do
    let (handle, behind) ← handle? c
    if 1 < handle.length && handle.getLast? == some '!' then
      let (suffix, c) ← nonemptyPart? isShortTagChar behind
      return (.tag handle suffix, c)
    else
      let (suffix, c) ← tagPart? isShortTagChar behind
      let suffix := octets (handle.drop 1) ++ suffix
      return (if suffix.isEmpty then .tag [] (octets ['!']) else .tag ['!'] suffix, c)

/-! ## Tokens -/

inductive Lead where
  | finish
  | directive
  | documentMark (m : DocumentMark)
  | openFlow (t : Token)
  | closeFlow (t : Token)
  | comma
  | item
  | key
  | value
  | alias
  | anchor
  | tag
  | block (folded : Bool)
  | quoted (double : Bool)
  | plain
  deriving DecidableEq, Repr

def lead? (inFlow : Bool) (column : Nat) (rest : List Char) : Option Lead :=
  match rest, documentMark? rest with
  | [], _ => some .finish
  | c :: s, mark =>
    if column == 0 && c == '%' then some .directive
    else
      match column == 0, mark with
      | true, some m => some (.documentMark m)
      | _, _ =>
        match c with
        | '[' => some (.openFlow .flowSequence)
        | '\x7b' => some (.openFlow .flowMapping)
        | ']' => some (.closeFlow .flowSequenceEnd)
        | '\x7d' => some (.closeFlow .flowMappingEnd)
        | ',' => some .comma
        | '*' => some .alias
        | '&' => some .anchor
        | '!' => some .tag
        | '\'' => some (.quoted false)
        | '"' => some (.quoted true)
        | '|' => if inFlow then none else some (.block false)
        | '>' => if inFlow then none else some (.block true)
        | '-' =>
          if atWordEnd s then some .item else some .plain
        | '?' => if inFlow || atWordEnd s then some .key else some .plain
        | ':' => if inFlow || atWordEnd s then some .value else some .plain
        | c => if isIndicator c || isWhite c then none else some .plain

/-- A token that may begin a key is read by `f`. -/
def scan? (l : Lexer) (f : Cursor → Option (Token × Cursor)) : Option Lexer := do
  let l ← l.saveKey?
  let (t, c) ← f l.cursor
  return { l.emit t with cursor := c, keyAllowed := false }

/-- The first token of a block of its own, or of an item or a key of the block around it. -/
def entry? (l : Lexer) (block t : Token) (allowNext : Bool) : Option Lexer := do
  guard (l.inFlow || l.keyAllowed)
  let l ← (l.openBlock block l.cursor.column l.count).forgetKey?
  return { l.emitSkip t 1 with keyAllowed := allowNext }

def value? (l : Lexer) : Option Lexer :=
  match l.keys with
  | some k :: keys =>
    let l := { l with keys := none :: keys }.insertAfter k.before .key
    let l := l.openBlock .blockMapping k.position.column k.before
    some { l.emitSkip .value 1 with keyAllowed := false }
  | _ =>
    if l.inFlow then some { l.emitSkip .value 1 with keyAllowed := false }
    else if l.keyAllowed then
      let l := l.openBlock .blockMapping l.cursor.column l.count
      some { l.emitSkip .value 1 with keyAllowed := true }
    else none

/-- The tokens of a document, the first first, from a lexer that has read them all. -/
def finish? (l : Lexer) : Option (List Token) := do
  let l ← (l.close none).forgetKey?
  return l.tokens.reverse

def read? (l : Lexer) : Lead → Option Lexer
  | .finish => none
  | .directive => do
    let l ← (l.close none).forgetKey?
    let (t, c) ← directive? l.cursor
    return { l.emit t with cursor := c, keyAllowed := false }
  | .documentMark m => do
    let l ← (l.close none).forgetKey?
    let t := match m with
      | .start => Token.documentStart
      | .finish => Token.documentEnd
    return { l.emitSkip t 3 with keyAllowed := false }
  | .openFlow t => do
    let l ← l.saveKey?
    return { l.emitSkip t 1 with keys := none :: l.keys, keyAllowed := true }
  | .closeFlow t => do
    let l ← l.forgetKey?
    return { l.emitSkip t 1 with
      keys := if l.inFlow then l.keys.drop 1 else l.keys, keyAllowed := false }
  | .comma => do
    let l ← l.forgetKey?
    return { l.emitSkip .comma 1 with keyAllowed := true }
  | .item => l.entry? .blockSequence .item true
  | .key => l.entry? .blockMapping .key !l.inFlow
  | .value => l.value?
  | .alias => do
    let (name, _) ← anchorName? l.cursor
    let number ← l.names.lookup name
    l.scan? fun c => (anchorName? c).map fun (_, c) => (.alias number, c)
  | .anchor => do
    let (name, _) ← anchorName? l.cursor
    let number := l.names.length
    let l := { l with names := (name, number) :: l.names.filter fun e => e.1 != name }
    l.scan? fun c => (anchorName? c).map fun (_, c) => (.anchor number, c)
  | .tag => l.scan? fun c => do
    let (t, c) ← tag? c
    guard (atWordEnd c.rest || (l.inFlow && c.rest.head? == some ','))
    return (t, c)
  | .block folded => do
    let l ← l.forgetKey?
    let (s, c) ← blockScalar? folded l.blocks.head? l.cursor
    return { l.emit (.scalar s false) with cursor := c, keyAllowed := true }
  | .quoted double => l.scan? fun c =>
    (quotedScalar? double c).map fun (s, c) => (.scalar s false, c)
  | .plain => do
    let l ← l.saveKey?
    let s ← plainScalar? l.inFlow (l.blocks.head?.elim 0 (· + 1)) l.cursor
    return { l.emit (.scalar s.text true) with cursor := s.behind, keyAllowed := s.brokeLine }

/-- Reads the next token; the tokens are complete when there is none. -/
def step? (l : Lexer) : Option (Lexer ⊕ List Token) := do
  let l ← (l.toToken (l.cursor.rest.length + 1)).forgetStale?
  let l := l.close (some l.cursor.column)
  match ← lead? l.inFlow l.cursor.column l.cursor.rest with
  | .finish => l.finish?.map .inr
  | lead => (l.read? lead).map .inl

def run? : (fuel : Nat) → Lexer → Option (List Token)
  | 0, _ => none
  | fuel + 1, l =>
    match l.step? with
    | some (.inl l) => run? fuel l
    | some (.inr ts) => some ts
    | none => none

end Lexer

/-- The text with each break of one or two characters of ASCII, or of the next-line character, as
a line feed. -/
def normalizeBreaks : List Char → List Char
  | [] => []
  | '\r' :: '\n' :: s => '\n' :: normalizeBreaks s
  | c :: s => (if c == '\r' || c == '\u0085' then '\n' else c) :: normalizeBreaks s

def tokens? (text : String) : Option (List Token) :=
  if text.toList.all isAllowed then
    (Lexer.start (normalizeBreaks text.toList)).run? (text.length + 1)
  else none

end Scaffold.Yaml
