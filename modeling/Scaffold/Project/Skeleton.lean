import Scaffold.Yaml.Value

/-!
# Skeleton files

What a new project starts from: the list of files that are never uploaded, and a
configuration in which every section is empty.
-/

namespace Scaffold.Skeleton

open Scaffold.Yaml (Value Mapping)

/-- The patterns of files that are not uploaded, in groups with a title. -/
def ignoredFiles : List (String × List String) := [
  ("prefect artifacts", [".prefectignore"]),
  ("python artifacts", ["__pycache__/", "*.py[cod]", "*$py.class", "*.egg-info/", "*.egg"]),
  ("Type checking artifacts", [".mypy_cache/", ".dmypy.json", "dmypy.json", ".pyre/"]),
  ("IPython", ["profile_default/", "ipython_config.py", "*.ipynb_checkpoints/*"]),
  ("Environments", [".python-version", ".env", ".venv", "env/", "venv/"]),
  ("MacOS", [".DS_Store"]),
  ("Dask", ["dask-worker-space/"]),
  ("Editors", [".idea/", ".vscode/"]),
  ("VCS", [".git/", ".hg/"])]

def ignoredGroup (title : String) (patterns : List String) : String :=
  patterns.foldl (fun text pattern => text ++ pattern ++ "\n") ("# " ++ title ++ "\n")

def ignoreFile : String :=
  "\n".intercalate (ignoredFiles.map fun g => ignoredGroup g.1 g.2)

def config : Mapping :=
  [(.string "name", .null), (.string "prefect-version", .null), (.string "build", .null),
    (.string "push", .null), (.string "pull", .null), (.string "deployments", .sequence [])]

def configFile : String :=
  "name: null\nprefect-version: null\n\nbuild: null\n\npush: null\n\npull: null\n\n" ++
    "deployments: []\n"

def names : List String :=
  ["prefect.yaml", "prefectignore"]

end Scaffold.Skeleton
