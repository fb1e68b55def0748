/-!
# Errors

Why an operation on a project fails, and what is said about it.
-/

namespace Scaffold

inductive Error where
  | unknownRecipe (recipe : String)
  | malformedRecipe (recipe message : String)
  /-- an entrypoint without the name of a function -/
  | missingFunction (entrypoint : String)
  /-- no directory on the way up has a marker -/
  | noMarker
  | outsideProject (path root : String)
  /-- the flow's name is taken by another entrypoint -/
  | conflictingFlow (name existing new : String)
  | functionNotFound (path function : String)
  | notAFlow (path function : String)
  | nothingToMigrate
  /-- a deployment file that holds something else than a mapping -/
  | deploymentNotMapping (found : String)
  | invalidField (field : String)
  /-- the loader broke down -/
  | loaderFailed (message : String)
  | io (message : String)
  | json (message : String)
  | yaml (message : String)
  | other (message : String)
  deriving DecidableEq, Repr

namespace Error

def message : Error → String
  | .unknownRecipe recipe => "Unknown recipe '" ++ recipe ++ "' provided."
  | .malformedRecipe recipe message => "Recipe '" ++ recipe ++ "' is malformed: " ++ message
  | .missingFunction entrypoint =>
    "Your flow entrypoint must include the name of the function that is the entrypoint to your " ++
      "flow.\nTry " ++ entrypoint ++ ":<flow_name>"
  | .noMarker =>
    "No .prefect directory could be found - run `prefect-project init` to create one."
  | .outsideProject path root =>
    "Entrypoint " ++ path ++ " is not inside the project at " ++ root
  | .conflictingFlow name existing new =>
    "Conflicting entry found for flow with name '" ++ name ++ "':\n" ++ name ++ ": " ++ existing ++
      "\nnew entrypoint: " ++ new
  | .functionNotFound path function =>
    "Function '" ++ function ++ "' not found in " ++ path
  | .notAFlow path function =>
    "Function '" ++ function ++ "' in " ++ path ++ " is not decorated with @flow"
  | .nothingToMigrate => "Could not find `prefect.yaml` or `deployment.yaml` files."
  | .deploymentNotMapping found => "deployment.yaml must contain a mapping, found " ++ found
  | .invalidField field => "Invalid field '" ++ field ++ "', expected KEY=VALUE"
  | .loaderFailed message => "Flow loader task failed: " ++ message
  | .io message => "IO error: " ++ message
  | .json message => "JSON error: " ++ message
  | .yaml message => "YAML error: " ++ message
  | .other message => message

/-- The error says that something an operation starts from is missing. -/
def isNotFound : Error → Bool
  | .noMarker | .nothingToMigrate | .functionNotFound _ _ => true
  | _ => false

end Error

end Scaffold
