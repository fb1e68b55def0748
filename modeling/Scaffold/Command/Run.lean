import Scaffold.Command.Invocation
import Scaffold.Flow.Registration
import Scaffold.Project.Field
import Scaffold.Project.Init
import Scaffold.Project.Migration

/-!
# Running a command

A command works in a directory and ends with a `Report`: what it prints and the code that
it leaves. An error is printed instead of the result.
-/

namespace Scaffold

structure Report where
  code : Nat
  out : String
  err : String
  deriving DecidableEq, Repr

namespace Report

def success (out : String) : Report := ⟨0, out, ""⟩

def failure (err : String) : Report := ⟨1, "", err ++ "\n"⟩

/-- A command line that asks for nothing that there is. -/
def misuse (err : String) : Report := ⟨2, "", err⟩

end Report

namespace Command

def lines (ls : List String) : String :=
  ls.foldl (fun text l => text ++ l ++ "\n") ""

def initText (created : List String) : String :=
  if created.isEmpty then lines ["Project already initialized - nothing to create"]
  else
    lines (["✅ Project initialized!"] ++ created.map (fun name => "   Created " ++ name) ++
      ["", "💡 Tip: Register a flow with prefect-project register path/to/flows.py:my_flow"])

def registerText (flow : Flow) : String :=
  lines (["✓ Registered flow '" ++ flow.name ++ "'"] ++
    flow.description.toList.map fun d => "   " ++ d)

def flowsText (registry : Registry) : String :=
  match registry.flows.entries with
  | [] => lines ["No flows registered."]
  | es =>
    lines (["📦 Registered flows:", ""] ++ es.map fun e => "  • " ++ e.1 ++ " → " ++ e.2)

def padded (width : Nat) (s : String) : String :=
  s ++ String.ofList (List.replicate (width - s.length) ' ')

def recipeLines (r : Recipe) : List String :=
  ("  • " ++ padded 12 r.name ++ " " ++ r.description) ::
    if r.placeholders.isEmpty then [] else ["    inputs: " ++ ", ".intercalate r.placeholders]

def recipesText : String :=
  lines (["📦 Available recipes:", ""] ++ Recipe.all.flatMap recipeLines)

def run (dir : Path) (load : Loader) : Command → Action Report
  | .init name recipe fields => do
    let inputs ← Action.ofExcept (parseFields fields)
    let created ← initProject dir ⟨name, recipe, inputs⟩
    return .success (initText created)
  | .register entrypoint force => do
    let flow ← Scaffold.register dir entrypoint force load
    return .success (registerText flow)
  | .flows => do
    match Marker.find? (← get) dir with
    | none => throw (.other "No .prefect directory found. Run 'prefect-project init' first.")
    | some marker => return .success (flowsText (← Registry.load marker))
  | .recipes => return .success recipesText
  | .root => do
    match Marker.findRoot? (← get) dir with
    | some p => return .success (lines [p.text])
    | none => return .failure "No .prefect directory found"
  | .migrate => do
    Migration.migrate dir
    return .success (lines ["✅ Copied deployments into prefect.yaml"])

end Command

namespace Invocation

def usage : String :=
  Command.lines ["Usage: prefect-project [OPTIONS] <COMMAND>", "",
    "Commands: init, register, flows, recipes, root, migrate"]

def perform (dir : Path) (load : Loader) : Invocation → StateM Tree Report
  | .run c => do
    match ← ExceptT.run (c.run dir load) with
    | .ok report => return report
    | .error e => return .failure ("Error: " ++ e.message)
  | .help => return .success usage
  | .version => return .success (Command.lines ["prefect-project " ++ Config.version])
  | .misuse => return .misuse usage

end Invocation

end Scaffold
