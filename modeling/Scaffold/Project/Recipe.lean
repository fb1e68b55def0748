import Scaffold.Error
import Scaffold.Template.Substitution

/-!
# Recipes

A recipe is a ready-made configuration for one way of storing a project's code. What differs
from project to project is left to placeholders. `configure` finds a recipe by its name and
fills in what is known; the rest stays visible.
-/

namespace Scaffold

open Scaffold.Yaml (Value Mapping)
open Scaffold.Template
open Scaffold.Text (Dictionary)

/-- The ways of storing a project's code. -/
inductive Recipe where
  | azureContainer
  | docker
  | dockerGit
  | gcsBucket
  | git
  | localDirectory
  | s3Bucket
  deriving DecidableEq, Repr

namespace Recipe

def name : Recipe → String
  | .azureContainer => "azure"
  | .docker => "docker"
  | .dockerGit => "docker-git"
  | .gcsBucket => "gcs"
  | .git => "git"
  | .localDirectory => "local"
  | .s3Bucket => "s3"

/-- All recipes in ascending order of their names. -/
def all : List Recipe :=
  [.azureContainer, .docker, .dockerGit, .gcsBucket, .git, .localDirectory, .s3Bucket]

def ofName? (name : String) : Option Recipe :=
  all.find? fun r => r.name == name

theorem ofName?_name (r : Recipe) : ofName? r.name = some r := by
  cases r <;> decide

def description : Recipe → String
  | .azureContainer => "Store code within an Azure Blob Storage container"
  | .docker => "Store code within a custom docker image alongside its runtime environment"
  | .dockerGit => "Store code within git and build a docker image for the runtime environment"
  | .gcsBucket => "Store code within a GCS bucket"
  | .git => "Store code within a git repository and clone it at runtime"
  | .localDirectory => "Store code within a local directory and run flows from it"
  | .s3Bucket => "Store code within an S3 bucket"

/-! ## Steps -/

def hole (name : String) : Value :=
  .string ("\x7b\x7b " ++ name ++ " \x7d\x7d")

def step (name : String) (arguments : List (String × Value)) : Value :=
  .sequence [.mapping [(.string name, .mapping (arguments.map fun a => (.string a.1, a.2)))]]

def buildImage : Value :=
  step "prefect_docker.deployments.steps.build_docker_image"
    [("id", .string "build-image"), ("requires", .string "prefect-docker>=0.3.0"),
      ("image_name", hole "image_name"), ("tag", hole "tag"), ("dockerfile", hole "dockerfile")]

def pushImage : Value :=
  step "prefect_docker.deployments.steps.push_docker_image"
    [("requires", .string "prefect-docker>=0.3.0"), ("image_name", hole "build-image.image_name"),
      ("tag", hole "build-image.tag")]

def cloneRepository : Value :=
  step "prefect.deployments.steps.git_clone"
    [("repository", hole "repository"), ("branch", hole "branch"), ("access_token", .null)]

def workIn (directory : Value) : Value :=
  step "prefect.deployments.steps.set_working_directory" [("directory", directory)]

def build : Recipe → Value
  | .docker | .dockerGit => buildImage
  | _ => .null

def push : Recipe → Value
  | .azureContainer =>
    step "prefect_azure.deployments.steps.push_to_azure_blob_storage"
      [("id", .string "push-code"), ("requires", .string "prefect-azure>=0.2.8"),
        ("container", hole "container"), ("folder", hole "name"),
        ("credentials", hole "credentials")]
  | .docker | .dockerGit => pushImage
  | .gcsBucket =>
    step "prefect_gcp.deployments.steps.push_to_gcs"
      [("id", .string "push-code"), ("requires", .string "prefect-gcp>=0.4.0"),
        ("bucket", hole "bucket"), ("folder", hole "name"), ("project", hole "project"),
        ("credentials", hole "credentials")]
  | .git | .localDirectory => .null
  | .s3Bucket =>
    step "prefect_aws.deployments.steps.push_to_s3"
      [("id", .string "push-code"), ("requires", .string "prefect-aws>=0.3.0"),
        ("bucket", hole "bucket"), ("folder", hole "name"), ("credentials", hole "credentials")]

def pull : Recipe → Value
  | .azureContainer =>
    step "prefect_azure.deployments.steps.pull_from_azure_blob_storage"
      [("requires", .string "prefect-azure>=0.2.8"), ("container", hole "push-code.container"),
        ("folder", hole "push-code.folder"), ("credentials", hole "credentials")]
  | .docker => workIn (.string ("/opt/prefect/" ++ "\x7b\x7b name \x7d\x7d"))
  | .dockerGit | .git => cloneRepository
  | .gcsBucket =>
    step "prefect_gcp.deployments.steps.pull_from_gcs"
      [("requires", .string "prefect-gcp>=0.4.0"), ("bucket", hole "push-code.bucket"),
        ("folder", hole "push-code.folder"), ("project", hole "project"),
        ("credentials", hole "credentials")]
  | .localDirectory => workIn (hole "directory")
  | .s3Bucket =>
    step "prefect_aws.deployments.steps.pull_from_s3"
      [("requires", .string "prefect-aws>=0.3.0"), ("bucket", hole "push-code.bucket"),
        ("folder", hole "push-code.folder"), ("credentials", hole "credentials")]

/-- The configuration with nothing filled in. -/
def config (r : Recipe) : Mapping :=
  [(.string "description", .string r.description), (.string "name", .null),
    (.string "prefect-version", .null), (.string "build", r.build), (.string "push", r.push),
    (.string "pull", r.pull), (.string "deployments", .sequence [])]

/-- The names of the placeholders that a recipe leaves to the project. -/
def placeholders (r : Recipe) : List String :=
  collect (.mapping r.config)

def load (name : String) : Except Error Mapping :=
  match ofName? name with
  | some r => .ok r.config
  | none => .error (.unknownRecipe name)

/-- The configuration of the recipe that goes by `name` with `values` filled in. A placeholder
without a value stays. -/
def configure (name : String) (values : Dictionary) : Except Error Mapping :=
  (load name).map (fillEntries values .keep)

theorem configure_of_ofName? {name : String} {r : Recipe} (h : ofName? name = some r)
    (values : Dictionary) : configure name values = .ok (fillEntries values .keep r.config) := by
  unfold configure load
  rw [h]
  rfl

end Recipe

end Scaffold
