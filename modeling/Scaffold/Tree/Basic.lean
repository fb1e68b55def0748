import Scaffold.Tree.Path

/-!
# Trees of files

A `Tree` holds files, directories and symbolic links at their locations. `walk` goes along
a path as the names say: a dot stays, two dots go up, a link leads on to its target. What
a step needs to be a directory is checked at the step, so only what can be reached counts.

Some things are assumed. There are no named pipes, sockets and devices. Whatever is in the tree
may be read and changed. A change is made as a whole or, where the tree does not allow it, not at
all: no disk is full, and nothing else changes the tree meanwhile.
-/

namespace Scaffold

/-- Where something is in a tree: the names that lead there, the innermost first. -/
abbrev Location := List String

def Path.ofLocation (l : Location) : Path :=
  ⟨l.reverse⟩

inductive Access where
  | everyone
  | ownerOnly
  deriving DecidableEq, Repr

inductive Entry where
  | file (content : ByteArray)
  | directory (access : Access)
  | link (target : String)

instance : DecidableEq Entry
  | .file a, .file b =>
    match ByteArray.instDecidableEq a b with
    | isTrue h => isTrue (congrArg Entry.file h)
    | isFalse h => isFalse fun e => h (Entry.file.inj e)
  | .directory a, .directory b =>
    if h : a = b then isTrue (congrArg Entry.directory h)
    else isFalse fun e => h (Entry.directory.inj e)
  | .link a, .link b =>
    if h : a = b then isTrue (congrArg Entry.link h) else isFalse fun e => h (Entry.link.inj e)
  | .file _, .directory _ | .file _, .link _ | .directory _, .file _ | .directory _, .link _
  | .link _, .file _ | .link _, .directory _ => isFalse nofun

structure Tree where
  entries : List (Location × Entry)

namespace Tree

def empty : Tree := ⟨[]⟩

/-- What is at `l`; the root is always a directory. -/
def at? (t : Tree) : (l : Location) → Option Entry
  | [] => some (.directory .everyone)
  | l => t.entries.lookup l

/-- `t` with `e` at `l`, whatever was there. -/
def put (t : Tree) (l : Location) (e : Entry) : Tree :=
  ⟨(l, e) :: t.entries.filter fun x => x.1 ≠ l⟩

/-- `t` without what is at `l` and below it. -/
def remove (t : Tree) (l : Location) : Tree :=
  ⟨t.entries.filter fun x => !l.isSuffixOf x.1⟩

def isDirectoryAt (t : Tree) (l : Location) : Bool :=
  match t.at? l with
  | some (.directory _) => true
  | _ => false

theorem at?_put (t : Tree) {l : Location} (hl : l ≠ []) (e : Entry) (m : Location) :
    (t.put l e).at? m = if m = l then some e else t.at? m := by
  cases m with
  | nil => simp [at?, Ne.symm hl]
  | cons n m =>
    simp only [at?, put]
    by_cases h : n :: m = l
    · subst h; simp
    · rw [if_neg h, List.lookup_cons]
      have hb : (n :: m == l) = false := by simpa using h
      rw [hb]
      simp only
      induction t.entries with
      | nil => rfl
      | cons x xs ih =>
        obtain ⟨k, v⟩ := x
        rw [List.filter_cons]
        by_cases hk : k = l
        · subst hk
          rw [if_neg (by simp), ih, List.lookup_cons, hb]
        · rw [if_pos (by simpa using hk), List.lookup_cons, List.lookup_cons, ih]

/-! ## Walks -/

inductive Arrival where
  | found (l : Location)
  /-- nothing has the last name of the path; `slash` says that a slash follows it -/
  | gap (directory : Location) (name : String) (slash : Bool)
  /-- nothing has a name before the last -/
  | missing
  /-- no way leads on: past a file, a name that is too long, or too many links -/
  | blocked
  deriving DecidableEq, Repr

/-- The number of bytes that a name can have. -/
def longestName : Nat := 255

def mostLinks : Nat := 40

/-- Walks from `l` along segments until it comes to a link, where it goes on as `onLink` says: from
its directory, its name, its target and the segments behind it. -/
def walkUntilLink (t : Tree) (onLink : Location → String → String → List String → Arrival) :
    Location → List String → Arrival
  | l, [] => .found l
  | l, s :: rest =>
    if !t.isDirectoryAt l then .blocked
    else if isIdle s then walkUntilLink t onLink l rest
    else if s = ".." then walkUntilLink t onLink l.tail rest
    else if longestName < s.utf8ByteSize then .blocked
    else
      match t.at? (s :: l) with
      | none => if rest.all (· == "") then .gap l s !rest.isEmpty else .missing
      | some (.link target) => onLink l s target rest
      | some _ => walkUntilLink t onLink (s :: l) rest

/-- Where a link in `directory` leads, as a start and the segments from there. -/
def linkTarget (directory : Location) (target : String) : Location × List String :=
  match segmentsOf target with
  | "" :: next :: rest => ([], next :: rest)
  | segments => (directory, segments)

/-- Walks from `l` along segments and follows at most `links` links on the way; one at the very end
only if `followLast`. -/
def walkFrom (t : Tree) (followLast : Bool) : (links : Nat) → Location → List String → Arrival
  | 0 => t.walkUntilLink fun l s _ rest =>
    if rest.isEmpty && !followLast then .found (s :: l) else .blocked
  | links + 1 => t.walkUntilLink fun l s target rest =>
    if rest.isEmpty && !followLast then .found (s :: l)
    else
      let (start, segments) := linkTarget l target
      walkFrom t followLast links start (segments ++ rest)

/-- Walks along segments from the root. No name holds the character of code point zero. -/
def walkAll (t : Tree) (followLast : Bool) (segments : List String) : Arrival :=
  if segments.any fun s => s.toList.contains '\x00' then .blocked
  else t.walkFrom followLast mostLinks [] segments

def walk (t : Tree) (p : Path) : Arrival :=
  t.walkAll true p.segments

/-- Where `p` leads, but for a link at its end. -/
def walkToLink (t : Tree) (p : Path) : Arrival :=
  t.walkAll false (p.segments.reverse.dropWhile (· == "")).reverse

/-! ## Questions -/

def locate? (t : Tree) (p : Path) : Option Location :=
  match t.walk p with
  | .found l => some l
  | _ => none

def find? (t : Tree) (p : Path) : Option Entry :=
  (t.locate? p).bind t.at?

def pathExists (t : Tree) (p : Path) : Bool :=
  (t.locate? p).isSome

def isFile (t : Tree) (p : Path) : Bool :=
  match t.find? p with
  | some (.file _) => true
  | _ => false

def isDirectory (t : Tree) (p : Path) : Bool :=
  match t.find? p with
  | some (.directory _) => true
  | _ => false

def text? (t : Tree) (p : Path) : Option String :=
  match t.find? p with
  | some (.file content) => String.fromUTF8? content
  | _ => none

/-- The path without links and segments that lead nowhere; where nothing is, only the latter are
left out. -/
def resolve (t : Tree) (p : Path) : Path :=
  match t.locate? p with
  | some l => .ofLocation l
  | none => p.tidy

/-- `resolve` of a path as it is given in the directory `cwd`. The empty one, `none` here, is no
absolute path even then. -/
def resolveGiven (t : Tree) (cwd s : String) : Option Path :=
  (Path.given? cwd s).map t.resolve

/-! ## Changes -/

/-- `t` with `content` in the file that `p` leads to, or in a new one. It is assumed that a file that
is there can be written and never ends up with a part of `content`. -/
def write? (t : Tree) (p : Path) (content : ByteArray) : Option Tree :=
  match t.walk p with
  | .found l =>
    match t.at? l with
    | some (.file _) => some (t.put l (.file content))
    | _ => none
  | .gap directory name false => some (t.put (name :: directory) (.file content))
  | _ => none

/-- `t` with `content` behind what is in the file that `p` leads to; assumed as for `write?`. -/
def append? (t : Tree) (p : Path) (content : ByteArray) : Option Tree :=
  match t.locate? p with
  | some l =>
    match t.at? l with
    | some (.file before) => some (t.put l (.file (before ++ content)))
    | _ => none
  | none => none

inductive Obstacle where
  /-- the directory that it would be in is missing -/
  | missing
  | other
  deriving DecidableEq, Repr

def makeDirectory (t : Tree) (p : Path) (access : Access) : Except Obstacle Tree :=
  match t.walkToLink p with
  | .gap directory name _ => .ok (t.put (name :: directory) (.directory access))
  | .missing => .error .missing
  | .found _ | .blocked => .error .other

/-- `t` with directories at the first path and, as far as they are missing, at those after it, each
of which is above the one before; and whether a directory is there in the end. -/
def makeDirectories (t : Tree) : List Path → Tree × Bool
  | [] => (t, false)
  | p :: above =>
    match t.makeDirectory p .everyone with
    | .ok t => (t, true)
    | .error .other => (t, t.isDirectory p)
    | .error .missing =>
      match t.makeDirectories above with
      | (t, false) => (t, false)
      | (t, true) =>
        match t.makeDirectory p .everyone with
        | .ok t => (t, true)
        | .error _ => (t, t.isDirectory p)

end Tree

end Scaffold
