import Scaffold.Project.ConfigFile
import Scaffold.Text.Blank

/-!
# Migration

Older projects keep their deployments in a file of their own. `migrate` adds them to the
configuration, behind what is there: a file that says nothing becomes an empty section, a
file that already is a section is taken as it stands, and any other becomes the one
deployment of a section.
-/

namespace Scaffold

open Scaffold.Yaml (Value Mapping)

namespace Migration

def fileName : String := "deployment.yaml"

def describe : Value → String
  | .null => "null"
  | .bool _ => "a boolean"
  | .int _ | .float _ => "a number"
  | .string _ => "a string"
  | .sequence _ => "a list"
  | .mapping _ => "a mapping"
  | .tagged _ _ => "a tagged value"

def deploymentsSection (deployments : List Value) : Except Error String :=
  Config.print (.mapping [(.string "deployments", .sequence deployments)])

/-- What the file with the text `raw` adds to the configuration. -/
def addition (raw : String) : Except Error String :=
  match if (Text.trim raw.toList).isEmpty then some .null else Value.parse? raw with
  | none => .error (.yaml "not a document")
  | some .null => deploymentsSection []
  | some (.mapping []) => deploymentsSection []
  | some (.mapping m) =>
    if (Mapping.get? "deployments" m).isSome then .ok raw else deploymentsSection [.mapping m]
  | some v => .error (.deploymentNotMapping (describe v))

/-- Adds the deployments in `dir` to its configuration. Both files must be there. -/
def migrate (dir : Path) : Action Unit := do
  let config := dir.join Config.fileName
  let deployments := dir.join fileName
  let t ← get
  if t.isFile config && t.isFile deployments then
    let text ← Action.ofExcept (addition (← Action.readText deployments))
    Action.appendText config ("\n" ++ text)
  else throw .nothingToMigrate

end Migration

end Scaffold
