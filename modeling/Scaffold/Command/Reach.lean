import Scaffold.Command.Run

/-!
# What a command can reach

The paths that a command may look at when it works in a directory. Whatever else a tree
holds has no influence on it, so a tree with these paths in it is enough to run a command.
-/

namespace Scaffold

/-- The file with the last commit of the branch that is checked out in a repository. -/
def Git.branchFile? (t : Tree) (git : Path) : Option Path :=
  (branchOf? ((t.text? (git.join "HEAD")).getD "")).map fun name =>
    git.join ("refs/heads/" ++ name)

namespace Command

/-- The paths in a directory that belong to a project or to a repository. -/
def pathsIn (dir : Path) : List Path :=
  let marker := dir.join Marker.name
  let git := dir.join ".git"
  [marker, marker.join Registry.fileName, git, git.join "HEAD", git.join "objects",
    git.join "refs", git.join "config", git.join Git.packedName]

/-- The paths in a directory that are of interest only if a command works there. -/
def pathsAt (dir : Path) : List Path :=
  [Init.ignoreFileName, Init.dockerfile, Config.fileName, Migration.fileName].map dir.join

/-- The file that a command reads the source of a flow from. -/
def sourceFile? (dir : Path) : Command → Option Path
  | .register entrypoint _ =>
    match Entrypoint.parse entrypoint with
    | .ok e => some (dir.join e.path)
    | .error _ => none
  | _ => none

/-- The paths that a command may look at in `dir`; which branch is checked out decides on one
more. -/
def reach (dir : Path) (c : Command) : List Path :=
  dir.ancestors.flatMap pathsIn ++ pathsAt dir ++ (c.sourceFile? dir).toList

end Command

end Scaffold
