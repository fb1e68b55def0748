import Scaffold.Project.Config
import Scaffold.Project.Skeleton
import Scaffold.Tree.Action
import Scaffold.Yaml.Document

/-!
# The configuration file

Where the configuration of a project is kept, and how it is read and first written. A file
that is there is never written again.
-/

namespace Scaffold.Config

open Scaffold.Yaml (Mapping)

def fileName : String := "prefect.yaml"

/-- The configuration in `dir`, if there is a file with its name. -/
def load (dir : Path) : Action (Option Mapping) := do
  let path := dir.join fileName
  if (← get).isFile path then
    match Mapping.parse? (← Action.readText path) with
    | some m => return some m
    | none => throw (.yaml "the file is not a mapping")
  else return none

/-- Writes the configuration of a project unless something has the file's name; says whether it was
written. Without contents every section is empty. -/
def create (dir : Path) (name : String) (contents : Option Mapping) : Action Bool := do
  let path := dir.join fileName
  if (← get).pathExists path then return false
  else
    let contents := stamp (contents.getD Skeleton.config) name
    Action.writeText path (← Action.ofExcept (render contents))
    return true

end Scaffold.Config
