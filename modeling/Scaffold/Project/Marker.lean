import Scaffold.Tree.Action

/-!
# Markers

A project is a directory with a marker in it, a directory of a fixed name. `find?` takes
the nearest marker on the way up, as the path of the start says once its links are
followed.
-/

namespace Scaffold.Marker

def name : String := ".prefect"

/-- The nearest marker at or above `start`. -/
def find? (t : Tree) (start : Path) : Option Path :=
  ((t.resolve start).ancestors.map fun p => p.join name).find? t.isDirectory

def findRoot? (t : Tree) (start : Path) : Option Path :=
  (find? t start).bind Path.parent?

/-- The text of the marker that is found from `start` in the directory `cwd`. Nothing is above the
empty path, so from there it can only be the one in `cwd`, and it is a relative path. -/
def findGiven? (t : Tree) (cwd start : String) : Option String :=
  match Path.given? cwd start with
  | some p => (find? t p).map Path.text
  | none => if t.isDirectory ((Path.ofText cwd).join name) then some name else none

/-- Makes the marker of `dir` unless something has its name; says whether it was made. -/
def create (dir : Path) : Action Bool := do
  let marker := dir.join name
  if (← get).pathExists marker then return false
  else
    Action.makePrivateDirectory marker
    return true

end Scaffold.Marker
