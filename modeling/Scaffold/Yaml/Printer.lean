import Scaffold.Yaml.Spelling

/-!
# Printing

`print?` writes a value as a document in block style: one entry or item a line, a nested
block two columns further in, save that a sequence under a key stays in the columns of the
key. A key that is too long for one line, or that is itself a block, has a line of its own
after a question mark. A value under two tags has no written form.
-/

namespace Scaffold.Yaml

/-! ## Tags -/

/-- A character of a tag, percent-encoded byte by byte where it must be. -/
def tagChar (c : Char) : List Char :=
  if isTagChar c then [c]
  else (String.singleton c).toUTF8.toList.flatMap fun b => '%' :: hexText 2 b.toNat

def Tag.suffix (t : Tag) : List Char :=
  match t.name.toList with
  | '!' :: rest => rest
  | cs => cs

def Tag.written (t : Tag) : List Char :=
  if t.suffix.isEmpty then "!<%21>".toList else '!' :: t.suffix.flatMap tagChar

/-! ## What can be written -/

/-- A value that begins with its own tag or is a mapping with one entry. -/
def Value.isTagLike : Value → Bool
  | .tagged _ _ => true
  | .mapping [_] => true
  | _ => false

mutual

/-- Whether the value has a written form; `underTag` says whether it stands under a tag. A mapping
with one entry is taken for a tagged value until its key is seen. -/
def Value.isWritable (underTag : Bool) : Value → Bool
  | .tagged _ v => !underTag && v.isWritable true
  | .sequence xs => areWritable xs
  | .mapping [(k, v)] => (underTag || !k.isTagLike) && k.isWritable false && v.isWritable false
  | .mapping es => entriesWritable es
  | _ => true

def areWritable : List Value → Bool
  | [] => true
  | x :: xs => x.isWritable false && areWritable xs

def entriesWritable : List (Value × Value) → Bool
  | [] => true
  | (k, v) :: es => k.isWritable false && v.isWritable false && entriesWritable es

end

/-! ## Keys -/

def byteCount (s : List Char) : Nat :=
  s.foldr (fun c n => c.utf8Size + n) 0

/-- The text of a value that is no block, if it is one; a string's own characters only. -/
def Value.inlineText? : Value → Option (List Char)
  | .null => some "null".toList
  | .bool true => some "true".toList
  | .bool false => some "false".toList
  | .int n => some (Number.integer n)
  | .float x => some (floatText x)
  | .string s => some s.toList
  | .sequence [] => some []
  | .mapping [] => some []
  | _ => none

/-- The length in bytes of the longest key that stands before its colon. -/
def longestKey : Nat := 128

/-- Whether a value can stand as a key before its colon, after a tag of `tagLength` bytes. The
lengths are those before anything is quoted or escaped. -/
def Value.isShort (tagLength : Nat) : Value → Bool
  | .tagged t v => v.isShort (tagLength + 1 + byteCount t.suffix)
  | v =>
    match v.inlineText? with
    | some s => !s.any isLineEnd && byteCount s + tagLength ≤ longestKey
    | none => false

/-! ## Nodes -/

/-- A document being written: its characters, the last one first. -/
abbrev Page := List Char

namespace Page

def put (page : Page) (s : List Char) : Page :=
  s.reverseAux page

/-- Goes to the beginning of a line, if the page is not there. -/
def freshLine (page : Page) : Page :=
  match page with
  | [] => []
  | c :: _ => if isBreak c then page else '\n' :: page

/-- Goes to the column `indentation` of a fresh line. -/
def newLine (page : Page) (indentation : Nat) : Page :=
  page.freshLine.put (spaces indentation)

end Page

structure Place where
  /-- the indentation of the block around the node; the document has none -/
  outer : Option Nat
  /-- the node is a key or a value of a mapping -/
  inMapping : Bool
  /-- a block may begin on the line that has been begun -/
  compact : Bool
  /-- nothing on the line has to be kept apart from the node -/
  apart : Bool
  deriving DecidableEq, Repr

namespace Place

def document : Place := ⟨none, false, true, true⟩

/-- Two columns further in than the block around the place. -/
def deeper (p : Place) : Nat :=
  match p.outer with
  | none => 0
  | some n => n + 2

def sequenceIndent (p : Place) : Nat :=
  match p.outer with
  | none => 0
  | some n => if p.inMapping && !p.compact then n else n + 2

def scalarIndent (p : Place) : Nat :=
  match p.outer with
  | none => 2
  | some n => n + 2

def afterTag (p : Place) : Place :=
  { p with compact := false, apart := false }

def inline (p : Place) (s : List Char) (page : Page) : Page :=
  (if p.apart then page else page.put [' ']).put s

/-- Goes to where the first line of a block at `p` begins. -/
def openBlock (p : Place) (indentation : Nat) (page : Page) : Page :=
  if p.compact then if p.outer.isNone then page else page.put [' ']
  else page.newLine indentation

end Place

def itemPlace (indentation : Nat) : Place := ⟨some indentation, false, true, false⟩

def keyPlace (indentation : Nat) : Place := ⟨some indentation, true, false, true⟩

def valuePlace (indentation : Nat) : Place := ⟨some indentation, true, false, false⟩

/-- A key or a value with a line of its own. -/
def longPlace (indentation : Nat) : Place := ⟨some indentation, true, true, false⟩

mutual

def writeNode (p : Place) : Value → Page → Page
  | .null, page => p.inline "null".toList page
  | .bool true, page => p.inline "true".toList page
  | .bool false, page => p.inline "false".toList page
  | .int n, page => p.inline (Number.integer n) page
  | .float x, page => p.inline (floatText x) page
  | .string s, page => p.inline (stringText p.scalarIndent s) page
  | .sequence [], page => p.inline ['[', ']'] page
  | .sequence (x :: xs), page =>
    let n := p.sequenceIndent
    writeItems n xs (writeNode (itemPlace n) x ((p.openBlock n page).put ['-']))
  | .mapping [], page => p.inline ['\x7b', '\x7d'] page
  | .mapping ((k, v) :: es), page =>
    let n := p.deeper
    let page := p.openBlock n page
    let page :=
      if k.isShort 0 then
        writeNode (valuePlace n) v ((writeNode (keyPlace n) k page).put [':'])
      else
        let page := writeNode (longPlace n) k (page.put ['?'])
        writeNode (longPlace n) v ((page.newLine n).put [':'])
    writeEntries n es page
  | .tagged t v, page => writeNode p.afterTag v (p.inline t.written page)

def writeItems (n : Nat) : List Value → Page → Page
  | [], page => page
  | x :: xs, page => writeItems n xs (writeNode (itemPlace n) x ((page.newLine n).put ['-']))

def writeEntries (n : Nat) : List (Value × Value) → Page → Page
  | [], page => page
  | (k, v) :: es, page =>
    let page := page.newLine n
    let page :=
      if k.isShort 0 then
        writeNode (valuePlace n) v ((writeNode (keyPlace n) k page).put [':'])
      else
        let page := writeNode (longPlace n) k (page.put ['?'])
        writeNode (longPlace n) v ((page.newLine n).put [':'])
    writeEntries n es page

end

def Value.document (v : Value) : String :=
  String.ofList (writeNode .document v []).freshLine.reverse

/-- The document that holds `v`, if `v` has a written form. -/
def Value.print? (v : Value) : Option String :=
  if v.isWritable false then some v.document else none

end Scaffold.Yaml
