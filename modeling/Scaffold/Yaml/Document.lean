import Scaffold.Yaml.Lexer
import Scaffold.Yaml.Node
import Scaffold.Yaml.Scalar

/-!
# Documents

`Value.parse?` reads the value of a document. An alias stands for the node with its anchor.
Aliases may neither nest collections too deeply nor be followed too often, so a document
cannot grow without bound, and no key of a mapping comes twice. `Mapping.parse?` reads a
document that must be a mapping; one that says nothing is the empty mapping.
-/

namespace Scaffold.Yaml

open Scaffold.Number (Binary64)

/-! ## Tags -/

inductive TagMeaning where
  | null
  | bool
  | int
  | float
  /-- a tag of an application's own -/
  | own (tag : Tag)
  /-- a tag that an application would have, if it were text -/
  | garbled
  | other
  deriving DecidableEq, Repr

/-- The octets of one of the format's own tags. -/
def coreTag (name : String) : List UInt8 :=
  coreTagStart ++ Lexer.octets name.toList

def textOf? (octets : List UInt8) : Option String :=
  String.fromUTF8? ⟨octets.toArray⟩

def TagMeaning.ofTag (tag : List UInt8) : TagMeaning :=
  if tag = coreTag "null" then .null
  else if tag = coreTag "bool" then .bool
  else if tag = coreTag "int" then .int
  else if tag = coreTag "float" then .float
  else
    match tag with
    | 0x21 :: rest =>
      match textOf? (if rest.isEmpty then [0x21] else rest) with
      | some name => .own (.ofText name)
      | none => .garbled
    | _ => .other

/-- What the tag of a node means, if it has one. -/
def Properties.meaning? (p : Properties) : Option TagMeaning :=
  p.tag.map .ofTag

def Properties.ownTag? (p : Properties) : Option Tag :=
  match p.meaning? with
  | some (.own t) => some t
  | _ => none

/-! ## Scalars -/

def plainValue? (text : String) : Option Value :=
  match Scalar.ofPlain text with
  | .null => some .null
  | .bool b => some (.bool b)
  | .int n => some (.int n)
  | .tooLarge => none
  | .float x => some (.float x)
  | .string => some (.string text)

/-- The value of a scalar. One of the format's own tags must fit the text. -/
def scalarValue? (meaning : Option TagMeaning) (text : String) (plain : Bool) : Option Value :=
  match meaning with
  | some .null => if Scalar.isNullWord text then some .null else none
  | some .bool => (Scalar.boolWord? text).map .bool
  | some .int =>
    match (Scalar.integer? text.toList).bind Scalar.ofInteger? with
    | some (.int n) => some (.int n)
    | _ => none
  | some .float => (Scalar.float? text).map .float
  | some .other => some (.string text)
  | some (.own _) | some .garbled | none => if plain then plainValue? text else some (.string text)

/-! ## Nodes -/

/-- Reading a node: the state is how many aliases may still be followed. -/
abbrev Reading := StateT Nat Option

def deepestNesting : Nat := 128

/-- How often an alias may be followed for each step of a document. -/
def aliasesPerStep : Nat := 100

/-- The node that is meant: that with the anchor, if the node is an alias. The last node with an
anchor's number has it. -/
def follow (anchored : List (Nat × Node)) : Node → Reading Node
  | .alias n => do
    let left ← get
    guard (0 < left)
    set (left - 1)
    (anchored.reverse.lookup n : Option Node)
  | node => return node

def readEntries (read : Node → Reading Value) : Mapping → List (Node × Node) → Reading Mapping
  | m, [] => return m
  | m, (k, v) :: es => do
    let key ← read k
    guard !(Mapping.hasKey m key)
    let value ← read v
    readEntries read (m ++ [(key, value)]) es

/-- Reads a node that is no alias, its application's tag apart; `inner?` reads the nodes inside it,
if there may be any. -/
def readContent (inner? : Option (Node → Reading Value)) : Node → Reading Value
  | .alias _ => failure
  | .scalar p text plain => scalarValue? p.meaning? text plain
  | .sequence _ xs =>
    match inner? with
    | some inner => .sequence <$> xs.mapM inner
    | none => failure
  | .mapping _ es =>
    match inner? with
    | some inner => .mapping <$> readEntries inner [] es
    | none => failure

def Node.ownTag? : Node → Option Tag
  | .alias _ => none
  | .scalar p _ _ | .sequence p _ | .mapping p _ => p.ownTag?

def readTagged (inner? : Option (Node → Reading Value)) (node : Node) : Reading Value := do
  let value ← readContent inner? node
  return match node.ownTag? with
    | some t => .tagged t value
    | none => value

/-- Reads a node in which collections are nested at most `depth` deep. -/
def readNode (anchored : List (Nat × Node)) : (depth : Nat) → Node → Reading Value
  | 0, node => do readTagged none (← follow anchored node)
  | depth + 1, node => do readTagged (some (readNode anchored depth)) (← follow anchored node)

/-! ## Documents -/

/-- The root of a document; there is none if the document says nothing. -/
def root? (text : String) : Option (Option Node) :=
  (tokens? text).bind Node.ofTokens?

/-- What `reading` yields in the document with the root `root`. -/
def Reading.within? {α : Type} (reading : Reading α) (root : Node) : Option α :=
  (reading.run (aliasesPerStep * root.steps)).map Prod.fst

def Value.parse? (text : String) : Option Value :=
  match root? text with
  | none => none
  | some none => some .null
  | some (some root) => (readNode root.anchored deepestNesting root).within? root

/-- The mapping that a document is; its tag does not count. -/
def Mapping.parse? (text : String) : Option Mapping :=
  match root? text with
  | none => none
  | some none => some []
  | some (some root) =>
    match root with
    | .mapping _ es =>
      (readEntries (readNode root.anchored (deepestNesting - 1)) [] es).within? root
    | .scalar _ "" true => some []
    | _ => none

end Scaffold.Yaml
