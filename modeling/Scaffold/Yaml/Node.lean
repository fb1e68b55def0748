import Scaffold.Yaml.Token

/-!
# Nodes

The tree that the tokens of a document spell. A node has the properties that stand before
it, an anchor and a tag; a node that is left out is an empty plain scalar. `Node.ofTokens?`
reads the one document of a stream: it may have directives and marks around it, and
nothing may come after it.
-/

namespace Scaffold.Yaml

structure Properties where
  anchor : Option Nat
  /-- the tag in full -/
  tag : Option (List UInt8)
  deriving DecidableEq, Repr

def Properties.bare : Properties := ⟨none, none⟩

inductive Node where
  | alias (anchor : Nat)
  | scalar (properties : Properties) (text : String) (plain : Bool)
  | sequence (properties : Properties) (items : List Node)
  | mapping (properties : Properties) (entries : List (Node × Node))
  deriving Repr, Inhabited

/-- The node that stands where nothing is written. -/
def Node.empty : Node := .scalar .bare "" true

/-! ## Properties -/

abbrev Handles := List (List Char × List UInt8)

/-- The octets of the text that stands for the handle of two marks. -/
def coreTagStart : List UInt8 :=
  "tag:yaml.org,2002:".toList.map fun c => c.toNat.toUInt8

def standardHandles : Handles :=
  [(['!'], [0x21]), (['!', '!'], coreTagStart)]

/-- The tag that a handle and a suffix make; a tag in angle brackets has no handle. -/
def fullTag? (handles : Handles) (handle : List Char) (suffix : List UInt8) :
    Option (List UInt8) :=
  if handle.isEmpty then some suffix
  else (handles.lookup handle).map (· ++ suffix)

/-- The properties that begin the tokens, and what follows them. -/
def properties? (handles : Handles) : List Token → Option (Properties × List Token)
  | .anchor n :: .tag handle suffix :: ts | .tag handle suffix :: .anchor n :: ts =>
    (fullTag? handles handle suffix).map fun tag => (⟨some n, some tag⟩, ts)
  | .anchor n :: ts => some (⟨some n, none⟩, ts)
  | .tag handle suffix :: ts =>
    (fullTag? handles handle suffix).map fun tag => (⟨none, some tag⟩, ts)
  | ts => some (.bare, ts)

/-! ## Nodes -/

/-- A token behind which an item of a sequence is missing: it belongs to what comes next. -/
def Token.endsItem : Token → Bool
  | .item | .blockEnd => true
  | _ => false

/-- A token behind which a key or a value of a block is missing. -/
def Token.endsEntry : Token → Bool
  | .key | .value | .blockEnd => true
  | _ => false

def Token.endsFlowEntry : Token → Bool
  | .comma | .flowMappingEnd => true
  | _ => false

def Token.endsFlowItem : Token → Bool
  | .comma | .flowSequenceEnd => true
  | _ => false

def nextIs (p : Token → Bool) (ts : List Token) : Bool :=
  ts.head?.any p

inductive Context where
  | flow
  | block
  /-- a key or a value of a block: a sequence may stand in its columns -/
  | entry
  deriving DecidableEq, Repr

mutual

def node? (handles : Handles) : (fuel : Nat) → Context → List Token → Option (Node × List Token)
  | 0, _, _ => none
  | _ + 1, _, .alias n :: ts => some (.alias n, ts)
  | fuel + 1, context, ts =>
    match properties? handles ts with
    | none => none
    | some (p, ts) =>
      match context, ts with
      | .entry, .item :: _ =>
        (entryItems? handles fuel ts).map fun (xs, ts) => (.sequence p xs, ts)
      | _, .scalar text plain :: ts => some (.scalar p text plain, ts)
      | _, .flowSequence :: ts =>
        (flowItems? handles fuel true ts).map fun (xs, ts) => (.sequence p xs, ts)
      | _, .flowMapping :: ts =>
        (flowEntries? handles fuel true ts).map fun (es, ts) => (.mapping p es, ts)
      | .flow, ts => if p = .bare then none else some (.scalar p "" true, ts)
      | _, .blockSequence :: ts =>
        (blockItems? handles fuel ts).map fun (xs, ts) => (.sequence p xs, ts)
      | _, .blockMapping :: ts =>
        (blockEntries? handles fuel ts).map fun (es, ts) => (.mapping p es, ts)
      | _, ts => if p = .bare then none else some (.scalar p "" true, ts)

/-- Reads a node unless the next token says that it is missing. -/
def nodeUnless? (handles : Handles) :
    (fuel : Nat) → (Token → Bool) → Context → List Token → Option (Node × List Token)
  | 0, _, _, _ => none
  | fuel + 1, missing, context, ts =>
    if nextIs missing ts then some (.empty, ts) else node? handles fuel context ts

def blockItems? (handles : Handles) : (fuel : Nat) → List Token → Option (List Node × List Token)
  | 0, _ => none
  | fuel + 1, .item :: ts => do
    let (x, ts) ← nodeUnless? handles fuel Token.endsItem .block ts
    let (xs, ts) ← blockItems? handles fuel ts
    return (x :: xs, ts)
  | _, .blockEnd :: ts => some ([], ts)
  | _, _ => none

/-- Reads the items of a sequence in the columns of its key. It has no end of its own. -/
def entryItems? (handles : Handles) : (fuel : Nat) → List Token → Option (List Node × List Token)
  | 0, _ => none
  | fuel + 1, .item :: ts => do
    let (x, ts) ← nodeUnless? handles fuel (fun t => t.endsItem || t.endsEntry) .block ts
    let (xs, ts) ← entryItems? handles fuel ts
    return (x :: xs, ts)
  | _, ts => some ([], ts)

def blockEntries? (handles : Handles) :
    (fuel : Nat) → List Token → Option (List (Node × Node) × List Token)
  | 0, _ => none
  | fuel + 1, .key :: ts => do
    let (k, ts) ← nodeUnless? handles fuel Token.endsEntry .entry ts
    let (v, ts) ← blockValue? handles fuel ts
    let (es, ts) ← blockEntries? handles fuel ts
    return ((k, v) :: es, ts)
  | _, .blockEnd :: ts => some ([], ts)
  | _, _ => none

def blockValue? (handles : Handles) : (fuel : Nat) → List Token → Option (Node × List Token)
  | 0, _ => none
  | fuel + 1, .value :: ts => nodeUnless? handles fuel Token.endsEntry .entry ts
  | _, ts => some (.empty, ts)

/-- Reads the items between brackets and the closing one; `first` says that none has been read. An
item may be an entry, which is a mapping of its own. -/
def flowItems? (handles : Handles) :
    (fuel : Nat) → (first : Bool) → List Token → Option (List Node × List Token)
  | 0, _, _ => none
  | _, _, .flowSequenceEnd :: ts => some ([], ts)
  | fuel + 1, true, ts => flowItem? handles fuel ts
  | _, false, .comma :: .flowSequenceEnd :: ts => some ([], ts)
  | fuel + 1, false, .comma :: ts => flowItem? handles fuel ts
  | _, _, _ => none

def flowItem? (handles : Handles) : (fuel : Nat) → List Token → Option (List Node × List Token)
  | 0, _ => none
  | fuel + 1, .key :: ts => do
    let (k, ts) ← flowItemKey? handles fuel ts
    let (v, ts) ← flowValue? handles fuel Token.endsFlowItem ts
    let (xs, ts) ← flowItems? handles fuel false ts
    return (.mapping .bare [(k, v)] :: xs, ts)
  | fuel + 1, ts => do
    let (x, ts) ← node? handles fuel .flow ts
    let (xs, ts) ← flowItems? handles fuel false ts
    return (x :: xs, ts)

/-- Reads the key of an entry between brackets. One that is missing takes a token with it. -/
def flowItemKey? (handles : Handles) : (fuel : Nat) → List Token → Option (Node × List Token)
  | 0, _ => none
  | fuel + 1, ts =>
    if nextIs (fun t => t == .value || t.endsFlowItem) ts then some (.empty, ts.drop 1)
    else node? handles fuel .flow ts

def flowValue? (handles : Handles) :
    (fuel : Nat) → (Token → Bool) → List Token → Option (Node × List Token)
  | 0, _, _ => none
  | fuel + 1, missing, .value :: ts => nodeUnless? handles fuel missing .flow ts
  | _, _, ts => some (.empty, ts)

/-- Reads the entries between braces and the closing one; `first` says that none has been read. -/
def flowEntries? (handles : Handles) :
    (fuel : Nat) → (first : Bool) → List Token → Option (List (Node × Node) × List Token)
  | 0, _, _ => none
  | _, _, .flowMappingEnd :: ts => some ([], ts)
  | fuel + 1, true, ts => flowEntry? handles fuel ts
  | _, false, .comma :: .flowMappingEnd :: ts => some ([], ts)
  | fuel + 1, false, .comma :: ts => flowEntry? handles fuel ts
  | _, _, _ => none

/-- Reads an entry between braces and those behind it. A node that is no key has no value. -/
def flowEntry? (handles : Handles) :
    (fuel : Nat) → List Token → Option (List (Node × Node) × List Token)
  | 0, _ => none
  | fuel + 1, .key :: ts => do
    let (k, ts) ← nodeUnless? handles fuel (fun t => t == .value || t.endsFlowEntry) .flow ts
    let (v, ts) ← flowValue? handles fuel Token.endsFlowEntry ts
    let (es, ts) ← flowEntries? handles fuel false ts
    return ((k, v) :: es, ts)
  | fuel + 1, ts => do
    let (k, ts) ← node? handles fuel .flow ts
    let (es, ts) ← flowEntries? handles fuel false ts
    return ((k, .empty) :: es, ts)

end

/-! ## Documents -/

/-- Reads the directives that begin the tokens: one version at most, and a meaning for each handle
at most. `declared` are the handles so far. -/
def directives? (versionSeen : Bool) (declared : Handles) :
    List Token → Option (Handles × List Token)
  | .versionDirective major minor :: ts =>
    if !versionSeen && major = 1 && (minor = 1 || minor = 2) then directives? true declared ts
    else none
  | .tagDirective handle meaning :: ts =>
    if (declared.lookup handle).isSome then none
    else directives? versionSeen (declared ++ [(handle, meaning)]) ts
  | ts => some (declared ++ standardHandles, ts)

def Token.endsDocument : Token → Bool
  | .versionDirective _ _ | .tagDirective _ _ | .documentStart | .documentEnd => true
  | _ => false

/-- Only marks of the end are left. -/
def isFinished (ts : List Token) : Bool :=
  ts.all (· == .documentEnd)

/-- How many calls deep a node of `n` tokens can be read. -/
def readingDepth (n : Nat) : Nat :=
  4 * n + 4

namespace Node

/-- The root of the one document that the tokens spell; nothing if they spell no document. -/
def ofTokens? (ts : List Token) : Option (Option Node) :=
  match ts with
  | [] => some none
  | .documentEnd :: _ => none
  | _ => do
    let fuel := readingDepth ts.length
    let (handles, rest) ← directives? false [] ts
    let (root, rest) ←
      match rest with
      | .documentStart :: rest =>
        if rest.isEmpty || nextIs Token.endsDocument rest then some (.empty, rest)
        else node? handles fuel .block rest
      | rest => if rest.length < ts.length then none else node? handles fuel .block rest
    if isFinished rest then some (some root) else none

mutual

/-- The nodes that have an anchor, with its number, each before those inside it. -/
def anchored : Node → List (Nat × Node)
  | .alias _ => []
  | .scalar p text plain => p.anchor.toList.map fun n => (n, .scalar p text plain)
  | .sequence p xs => (p.anchor.toList.map fun n => (n, .sequence p xs)) ++ anchoredItems xs
  | .mapping p es => (p.anchor.toList.map fun n => (n, .mapping p es)) ++ anchoredEntries es

def anchoredItems : List Node → List (Nat × Node)
  | [] => []
  | x :: xs => anchored x ++ anchoredItems xs

def anchoredEntries : List (Node × Node) → List (Nat × Node)
  | [] => []
  | (k, v) :: es => anchored k ++ anchored v ++ anchoredEntries es

end

mutual

/-- The number of steps in which a node is read: one for a scalar or an alias, and one for each end
of a collection. -/
def steps : Node → Nat
  | .alias _ => 1
  | .scalar _ _ _ => 1
  | .sequence _ xs => 2 + stepsOfItems xs
  | .mapping _ es => 2 + stepsOfEntries es

def stepsOfItems : List Node → Nat
  | [] => 0
  | x :: xs => steps x + stepsOfItems xs

def stepsOfEntries : List (Node × Node) → Nat
  | [] => 0
  | (k, v) :: es => steps k + steps v + stepsOfEntries es

end

end Node

end Scaffold.Yaml
