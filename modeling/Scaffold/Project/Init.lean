import Scaffold.Project.ConfigFile
import Scaffold.Project.Git
import Scaffold.Project.Marker
import Scaffold.Project.Recipe

/-!
# Making a project

`initProject` turns a directory into a project: a list of files that are not uploaded, a
configuration made from a recipe, and the marker. What is there already is left alone. The
recipe is inferred from the surroundings unless it is given, and so are the values of its
placeholders.
-/

namespace Scaffold

open Scaffold.Text (Dictionary)

/-- The recipe that suits a project: whether its code has a remote, and whether it is built into
an image. -/
def Recipe.infer (hasRemote hasDockerfile : Bool) : Recipe :=
  match hasRemote, hasDockerfile with
  | true, true => .dockerGit
  | true, false => .git
  | false, true => .docker
  | false, false => .localDirectory

namespace Init

def ignoreFileName : String := ".prefectignore"

def defaultBranch : String := "main"

def dockerfile : String := "Dockerfile"

structure Options where
  /-- the directory's name if it is missing -/
  name : Option String
  /-- the recipe that suits if it is missing -/
  recipe : Option String
  /-- values of placeholders, which count more than what is inferred -/
  inputs : Dictionary

structure Surroundings where
  /-- the directory, links followed -/
  directory : Path
  git : Git.Facts
  hasDockerfile : Bool

namespace Surroundings

def name (s : Surroundings) : String :=
  s.directory.fileName?.getD ""

/-- What is known of the repository. A branch is of interest only beside a remote. -/
def repositoryEntries (s : Surroundings) : List (String × String) :=
  match s.git.remote with
  | some url => [("repository", url), ("branch", s.git.branch.getD defaultBranch)]
  | none => []

def callsForImage (recipe : Option String) : Bool :=
  recipe.any fun r => Text.occursIn "docker".toList r.toList

def dockerfileEntries (s : Surroundings) (recipe : Option String) : List (String × String) :=
  if s.hasDockerfile then [("dockerfile", dockerfile)]
  else if callsForImage recipe then [("dockerfile", "auto")] else []

/-- The values of placeholders: what is inferred, and the inputs. -/
def values (s : Surroundings) (o : Options) : Dictionary :=
  let inferred := [("directory", s.directory.text)] ++ s.repositoryEntries ++
    [("name", s.name)] ++ s.dockerfileEntries o.recipe
  (Dictionary.ofList inferred).insertAll o.inputs.entries

def recipe (s : Surroundings) (o : Options) : String :=
  o.recipe.getD (Recipe.infer s.git.remote.isSome s.hasDockerfile).name

end Surroundings

def survey (t : Tree) (git : Git.Facts) (dir : Path) : Surroundings :=
  let directory := t.resolve dir
  ⟨directory, git, t.pathExists (directory.join dockerfile)⟩

def createIgnoreFile (dir : Path) : Action Bool :=
  Action.writeTextIfMissing (dir.join ignoreFileName) Skeleton.ignoreFile

/-- Makes a project in surroundings; the result names what has been created. -/
def create (s : Surroundings) (o : Options) : Action (List String) := do
  let config ← Action.ofExcept (Recipe.configure (s.recipe o) (s.values o))
  let ignored ← createIgnoreFile s.directory
  let configured ← Config.create s.directory (o.name.getD s.name) (some config)
  let marked ← Marker.create s.directory
  return (if ignored then [ignoreFileName] else []) ++
    (if configured then [Config.fileName] else []) ++ (if marked then [Marker.name ++ "/"] else [])

def createIn (git : Git.Facts) (dir : Path) (o : Options) : Action (List String) := do
  create (survey (← get) git dir) o

end Init

def initProject (dir : Path) (o : Init.Options) : Action (List String) := do
  let t ← get
  Init.createIn (Git.facts t (t.resolve dir)) dir o

/-- `initProject` of a path as it is given in the directory `cwd`. The empty one is no directory's
path: it is written where a path or a name is inferred, and git finds no repository by it. -/
def initGiven (cwd dir : String) (o : Init.Options) : Action (List String) :=
  match Path.given? cwd dir with
  | some p => initProject p o
  | none => do
    let here := Path.ofText cwd
    let hasDockerfile := (← get).pathExists (here.join Init.dockerfile)
    let inferred := Dictionary.ofList [("directory", dir), ("name", dir)]
    Init.create ⟨here, ⟨none, none⟩, hasDockerfile⟩
      { o with name := o.name.getD dir, inputs := inferred.insertAll o.inputs.entries }

end Scaffold
