/-!
# Paths

A `Path` is absolute and keeps the segments between its slashes as they were written, also
those that name nothing: the empty one and the dot. `components` are the segments that
count. `ancestors` goes up by text alone, so it never looks at a link.
-/

namespace Scaffold

/-- A segment that does not lead anywhere. -/
def isIdle (segment : String) : Bool :=
  segment == "" || segment == "."

/-- The segments of a text: what stands between its slashes. -/
def segmentsOf (s : String) : List String :=
  (s.toList.splitOn '/').map String.ofList

/-- The segments that count of a path, absolute or not, with a slash between each two. -/
def slashText (path : String) : String :=
  "/".intercalate ((segmentsOf path).filter fun s => !isIdle s)

/-- An absolute path, as the segments that follow its first slash. -/
structure Path where
  segments : List String
  deriving DecidableEq, Repr

namespace Path

/-- The path that a text spells where a relative one begins at the root, and the empty one is the
root. For paths as they are given see `given?`. -/
def ofText (s : String) : Path :=
  match segmentsOf s with
  | "" :: rest => ⟨rest⟩
  | segments => ⟨segments⟩

def text (p : Path) : String :=
  "/" ++ "/".intercalate p.segments

def components (p : Path) : List String :=
  p.segments.filter fun s => !isIdle s

/-- `p` without the empty segment that a slash at its end makes. -/
def withoutSlash (p : Path) : List String :=
  if p.segments.getLast? = some "" then p.segments.dropLast else p.segments

/-- The path that `relative` spells when one starts from `p`; an absolute text stands for itself. -/
def join (p : Path) (relative : String) : Path :=
  match segmentsOf relative with
  | "" :: next :: rest => ⟨next :: rest⟩
  | segments => ⟨p.withoutSlash ++ segments⟩

/-- The path that a text spells in the directory `cwd`. The empty text spells none: nothing is found
by it and nothing absolute can be made of it. -/
def given? (cwd s : String) : Option Path :=
  if s = "" then none else some ((ofText cwd).join s)

/-- The paths above one whose segments, the last first, are given; the nearest comes first. -/
def above : List String → List Path
  | [] => []
  | s :: rest => if isIdle s then above rest else ⟨(rest.dropWhile isIdle).reverse⟩ :: above rest

def parents (p : Path) : List Path :=
  above p.segments.reverse

/-- The path above `p`; the root has none. -/
def parent? (p : Path) : Option Path :=
  p.parents.head?

/-- `p` and the paths above it, the nearest first. -/
def ancestors (p : Path) : List Path :=
  p :: p.parents

/-- The name of what the path leads to, if its last component is a name. -/
def fileName? (p : Path) : Option String :=
  match p.components.getLast? with
  | some ".." => none
  | name? => name?

def below? (root p : Path) : Option (List String) :=
  if root.components.isPrefixOf p.components then
    some (p.components.drop root.components.length)
  else none

/-- Two slashes begin the path, and no third. -/
def beginsWithTwoSlashes (p : Path) : Bool :=
  match p.segments with
  | "" :: "" :: _ :: _ => false
  | "" :: _ :: _ => true
  | _ => false

/-- The path without the segments that lead nowhere, save for the two places where a slash may
carry a meaning: two of them at the beginning and one at the end. -/
def tidy (p : Path) : Path :=
  let start := if p.beginsWithTwoSlashes then [""] else []
  let finish := if p.segments.getLast? = some "" then [""] else []
  ⟨start ++ p.components ++ finish⟩

end Path

end Scaffold
