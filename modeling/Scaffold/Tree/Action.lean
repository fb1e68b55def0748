import Scaffold.Error
import Scaffold.Tree.Basic

/-!
# Actions

An `Action` works on a tree and may fail; a failure keeps what has been changed before it.
The actions here read and write whole files of text.
-/

namespace Scaffold

abbrev Action := ExceptT Error (StateM Tree)

namespace Action

/-- The result of an action on `t`, and the tree it leaves behind. -/
def perform {α : Type} (a : Action α) (t : Tree) : Except Error α × Tree :=
  StateT.run (ExceptT.run a) t

def ofExcept {α : Type} : Except Error α → Action α
  | .ok a => return a
  | .error e => throw e

def require {α : Type} (message : String) : Option α → Action α
  | some a => return a
  | none => throw (.other message)

def replace (message : String) (change : Tree → Option Tree) : Action Unit := do
  set (← require message (change (← get)))

def readText (p : Path) : Action String := do
  require ("Failed to read file: " ++ p.text) ((← get).text? p)

def makeDirectories (p : Path) : Action Unit := do
  let (t, made) := (← get).makeDirectories p.ancestors
  set t
  if made then return else throw (.other ("Failed to create directory: " ++ p.text))

/-- Makes `text` the content of a file and makes the directories that it lacks. -/
def writeText (p : Path) (text : String) : Action Unit := do
  match p.parent? with
  | some parent => makeDirectories parent
  | none => pure ()
  replace ("Failed to write file: " ++ p.text) fun t => t.write? p text.toUTF8

def writeTextIfMissing (p : Path) (text : String) : Action Bool := do
  if (← get).pathExists p then return false
  else
    writeText p text
    return true

def appendText (p : Path) (text : String) : Action Unit :=
  replace ("Failed to open file for append: " ++ p.text) fun t => t.append? p text.toUTF8

/-- Makes a directory for its owner alone; the one that it is in must be there. -/
def makePrivateDirectory (p : Path) : Action Unit :=
  replace ("Failed to create directory: " ++ p.text) fun t =>
    (t.makeDirectory p .ownerOnly).toOption

end Action

end Scaffold
