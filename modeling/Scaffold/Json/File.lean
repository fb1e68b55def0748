import Scaffold.Json.Dictionary
import Scaffold.Tree.Action

/-!
# Files of JSON

Dictionaries that are kept in files.
-/

namespace Scaffold.Json

open Scaffold.Text (Dictionary)

def read (p : Path) : Action Dictionary := do
  let text ← Action.require ("Failed to read JSON file: " ++ p.text) ((← get).text? p)
  Action.require ("Failed to parse JSON file: " ++ p.text) (Dictionary.ofJson? text)

/-- The dictionary in a file; the empty one if nothing is there. -/
def readIfExists (p : Path) : Action Dictionary := do
  if (← get).pathExists p then read p else return .empty

def write (p : Path) (d : Dictionary) : Action Unit :=
  tryCatch (Action.writeText p d.toJson) fun _ =>
    throw (.other ("Failed to write JSON file: " ++ p.text))

end Scaffold.Json
