import Scaffold.Flow.Registry
import Scaffold.Project.Entrypoint
import Scaffold.Project.Marker

/-!
# Registration

`register` records a flow in the registry of the project around a directory. The file must
lie inside the project, links followed, and the entrypoint that is recorded names it from
the project's root. Nothing is written unless all else has succeeded.
-/

namespace Scaffold

/-- A flow, as its source declares it. -/
structure Flow where
  name : String
  function : String
  path : Path
  description : Option String
  deriving DecidableEq, Repr

/-- What finds the flow that a function of a file is. -/
abbrev Loader := Path → String → Action Flow

def Flow.defaultName (function : String) : String :=
  function.map fun c => if c = '_' then '-' else c

/-- The entrypoint by which the project at `root` knows a function of `file`. -/
def Entrypoint.inside? (root file : Path) (function : String) : Option Entrypoint :=
  (Path.below? root file).map fun names => ⟨"/".intercalate names, function⟩

/-- Records the flow that `entrypoint` names, as seen from `dir`. -/
def register (dir : Path) (entrypoint : String) (force : Bool) (load : Loader) : Action Flow := do
  let e ← Action.ofExcept (Entrypoint.parse entrypoint)
  let t ← get
  let file := t.resolve (dir.join e.path)
  match Marker.find? t dir with
  | none => throw .noMarker
  | some marker =>
    match marker.parent? with
    | none => throw .noMarker
    | some root =>
      match Entrypoint.inside? root file e.function with
      | none => throw (.outsideProject file.text root.text)
      | some inside =>
        let flow ← load file e.function
        let registry ← Registry.load marker
        let registry ← Action.ofExcept (registry.insert flow.name inside.text force)
        registry.save
        return flow

/-! ## The empty path -/

/-- A loader of paths as they are given; `none` is the empty one. -/
abbrev GivenLoader := Option Path → String → Action Flow

/-- The loader that reads the file at a path. By the empty one none is found. -/
def Loader.given (load : Loader) : GivenLoader
  | some file, function => load file function
  | none, _ => throw (.other "Failed to read file: ")

/-- Records the flow that `entrypoint` names, as seen from the empty path. It is recorded in the
directory `cwd`, but the root of the project is the empty path again: nothing is taken off the
path of the file, save for the slash at its beginning. (An error about the registry's file names
that by a relative path then, here by the absolute one.) -/
def registerHere (cwd entrypoint : String) (force : Bool) (load : GivenLoader) : Action Flow := do
  let e ← Action.ofExcept (Entrypoint.parse entrypoint)
  let t ← get
  let file := t.resolveGiven cwd e.path
  let marker := (Path.ofText cwd).join Marker.name
  if t.isDirectory marker then
    let inside : Entrypoint := ⟨slashText ((file.map Path.text).getD ""), e.function⟩
    let flow ← load file e.function
    let registry ← Registry.load marker
    let registry ← Action.ofExcept (registry.insert flow.name inside.text force)
    registry.save
    return flow
  else throw .noMarker

/-- `register` from a path as it is given in the directory `cwd`. -/
def registerGiven (cwd dir entrypoint : String) (force : Bool) (load : GivenLoader) :
    Action Flow :=
  match Path.given? cwd dir with
  | some start => register start entrypoint force fun file => load (some file)
  | none => registerHere cwd entrypoint force load

end Scaffold
