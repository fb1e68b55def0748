import Scaffold.Command.Reach
import Scaffold.Source.Declaration

/-!
# The command line

What a command can reach is read into a tree, the command runs on the tree, and what it has
changed is written back.
-/

namespace Scaffold.Disk

def realPath? (path : String) : IO (Option String) := do
  match ← (IO.FS.realPath path).toBaseIO with
  | .ok real => return some real.toString
  | .error _ => return none

def content? (path : String) : IO (Option ByteArray) := do
  match ← (IO.FS.readBinFile path).toBaseIO with
  | .ok content => return some content
  | .error _ => return none

/-- What is at the real path of something. -/
def entry? (path : String) : IO (Option Entry) := do
  if ← (← IO.FS.realPath path).isDir then return some (.directory .everyone)
  else return (← content? path).map .file

/-- Adds to `t` what is met on the way from `l` along segments. At a link it is what the link leads
to that is added next. -/
def readFrom (links : Nat) (l : Location) (segments : List String) (t : Tree) : IO Tree := do
  match segments with
  | [] => return t
  | s :: rest =>
    if isIdle s then readFrom links l rest t
    else if s = ".." then readFrom links l.tail rest t
    else
      let path := (Path.ofLocation (s :: l)).text
      match ← realPath? path with
      | none => return t
      | some real =>
        if real = path then
          match ← entry? path with
          | some e => readFrom links (s :: l) rest (t.put (s :: l) e)
          | none => return t
        else
          match links with
          | 0 => return t
          | links + 1 =>
            readFrom links [] ((Path.ofText real).segments ++ rest) (t.put (s :: l) (.link real))
termination_by (links, segments.length)

/-- Adds to `t` what is met on the way along a path. -/
def read (t : Tree) (p : Path) : IO Tree :=
  readFrom Tree.mostLinks [] p.segments t

/-- The rights of an owner who shares a directory with nobody. -/
def ownerOnlyRights : IO.FileRight :=
  ⟨⟨true, true, true⟩, ⟨false, false, false⟩, ⟨false, false, false⟩⟩

def write (l : Location) : Entry → IO Unit
  | .file content => IO.FS.writeBinFile (Path.ofLocation l).text content
  | .directory access => do
    let path := (Path.ofLocation l).text
    IO.FS.createDir path
    match access with
    | .everyone => return
    | .ownerOnly => IO.setAccessRights path ownerOnlyRights
  | .link _ => return

/-- Writes what a tree has that another had not, directories before what is in them. -/
def writeChanges (before after : Tree) : IO Unit := do
  let changed := after.entries.filter fun (l, e) => before.at? l ≠ some e
  for (l, e) in changed.mergeSort fun a b => a.1.length ≤ b.1.length do
    write l e

/-- The tree with all that an invocation can reach from `dir`. -/
def treeFor (dir : Path) : Invocation → IO Tree
  | .run c => do
    let t ← (c.reach dir).foldlM read .empty
    match (Git.repository? t dir).bind (Git.branchFile? t) with
    | some branch => read t branch
    | none => return t
  | _ => return .empty

end Scaffold.Disk

/-- Does what the command line asks for in the current directory. -/
def main (arguments : List String) : IO UInt32 := do
  let dir := Scaffold.Path.ofText (← IO.FS.realPath (← IO.currentDir)).toString
  let invocation := Scaffold.Invocation.parse arguments
  let before ← Scaffold.Disk.treeFor dir invocation
  let (report, after) := (invocation.perform dir Scaffold.Source.load).run before
  Scaffold.Disk.writeChanges before after
  IO.print report.out
  IO.eprint report.err
  return report.code.toUInt32
