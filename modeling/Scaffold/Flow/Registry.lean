import Scaffold.Json.File

/-!
# Registries

A registry says for each flow's name which entrypoint it has. It is kept in a file beside
the marker of its project and always read and written as a whole.
-/

namespace Scaffold

open Scaffold.Text (Dictionary)

/-- The entrypoints of flows, and the file that they are kept in. -/
structure Registry where
  path : Path
  flows : Dictionary

namespace Registry

def fileName : String := "flows.json"

/-- The registry in the marker directory `marker`; without a file it is empty. -/
def load (marker : Path) : Action Registry := do
  let path := marker.join fileName
  return ⟨path, ← Json.readIfExists path⟩

/-- The registry with `entrypoint` under `name`. Another entrypoint is replaced only by force. -/
def insert (r : Registry) (name entrypoint : String) (force : Bool) : Except Error Registry :=
  match r.flows.get? name with
  | some existing =>
    if existing ≠ entrypoint && !force then .error (.conflictingFlow name existing entrypoint)
    else .ok { r with flows := r.flows.insert name entrypoint }
  | none => .ok { r with flows := r.flows.insert name entrypoint }

def save (r : Registry) : Action Unit :=
  Json.write r.path r.flows

end Registry

end Scaffold
