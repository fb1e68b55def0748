import Scaffold.Text.Blank
import Scaffold.Text.Replace
import Scaffold.Tree.Action

/-!
# Git repositories

What a project wants to know of the repository that it is in: where its remote is, and
which branch is checked out. A repository is the nearest directory on the way up that has
a `.git` directory with a head, objects and references in it.
-/

namespace Scaffold.Git

open Scaffold.Text (cutFirst? trim trimmed)

/-! ## Settings -/

/-- A key and its value. The key's parts are the section, what the section is of, and the name. -/
abbrev Setting := List String × String

def lower (s : List Char) : String :=
  String.ofList (s.map Char.toLower)

/-- The section of a heading, as the first parts of its keys. -/
def section? (line : List Char) : Option (List String) :=
  match line with
  | '[' :: s =>
    let name := s.takeWhile (· ≠ ']')
    match cutFirst? '"' name with
    | some (kind, rest) => some [lower (trim kind), String.ofList (rest.takeWhile (· ≠ '"'))]
    | none => some [lower (trim name)]
  | _ => none

/-- The value of a setting: blanks at its ends and a comment do not count, save between quotes.
`held` are blanks that count if something follows, the last first. -/
def valueFrom (quoted : Bool) (held : List Char) : List Char → List Char
  | [] => []
  | '\\' :: 'n' :: s => held.reverse ++ '\n' :: valueFrom quoted [] s
  | '\\' :: 't' :: s => held.reverse ++ '\t' :: valueFrom quoted [] s
  | '\\' :: 'b' :: s => held.reverse ++ '\x08' :: valueFrom quoted [] s
  | '\\' :: c :: s => held.reverse ++ c :: valueFrom quoted [] s
  | '"' :: s => held.reverse ++ valueFrom (!quoted) [] s
  | c :: s =>
    if quoted then c :: valueFrom quoted [] s
    else if c = '#' ∨ c = ';' then []
    else if c = ' ' ∨ c = '\t' then valueFrom quoted (c :: held) s
    else held.reverse ++ c :: valueFrom quoted [] s

/-- The settings of the lines of a file, from a section on. -/
def settingsFrom : (heading : List String) → List (List Char) → List Setting
  | _, [] => []
  | heading, line :: lines =>
    let line := line.dropWhile fun c => c = ' ' || c = '\t'
    match section? line, cutFirst? '=' line with
    | some heading, _ => settingsFrom heading lines
    | none, some (name, value) =>
      let value := valueFrom false [] (value.dropWhile fun c => c = ' ' || c = '\t')
      (heading ++ [lower (trim name)], String.ofList value) :: settingsFrom heading lines
    | none, none => settingsFrom heading lines

def settings (text : String) : List Setting :=
  settingsFrom [] (text.toList.splitOn '\n')

/-- The last value that a key was given. -/
def lookup? (key : List String) (settings : List Setting) : Option String :=
  settings.reverse.lookup key

/-! ## Repositories -/

def isRepository (t : Tree) (git : Path) : Bool :=
  t.isFile (git.join "HEAD") && t.isDirectory (git.join "objects") &&
    t.isDirectory (git.join "refs")

def repository? (t : Tree) (dir : Path) : Option Path :=
  ((t.resolve dir).ancestors.map fun p => p.join ".git").find? (isRepository t)

inductive Head where
  | branch (name : String)
  /-- a branch without commits -/
  | unborn
  | detached
  deriving DecidableEq, Repr

def branchOf? (head : String) : Option String :=
  let start := "ref: refs/heads/".toList
  let head := head.toList
  if start.isPrefixOf head then some (trimmed (String.ofList (head.drop start.length))) else none

/-- The name of the file that lists branches which have no file of their own. -/
def packedName : String := "packed-refs"

def isPacked (name text : String) : Bool :=
  (text.toList.splitOn '\n').any fun line => (" refs/heads/" ++ name).toList.isSuffixOf line

def hasCommit (t : Tree) (git : Path) (name : String) : Bool :=
  t.isFile (git.join ("refs/heads/" ++ name)) ||
    isPacked name ((t.text? (git.join packedName)).getD "")

def head (t : Tree) (git : Path) : Head :=
  match branchOf? ((t.text? (git.join "HEAD")).getD "") with
  | some name => if hasCommit t git name then .branch name else .unborn
  | none => .detached

def settingsAt (t : Tree) (dir : Path) : List Setting :=
  match (repository? t dir).bind fun git => t.text? (git.join "config") with
  | some text => settings text
  | none => []

/-- A text without blanks at its ends, if anything is left of it. -/
def meaningful? (s : String) : Option String :=
  if trimmed s = "" then none else some (trimmed s)

def remote? (t : Tree) (dir : Path) : Option String :=
  if t.isDirectory dir then
    (lookup? ["remote", "origin", "url"] (settingsAt t dir)).bind meaningful?
  else none

def branch? (t : Tree) (dir : Path) : Option String :=
  if t.isDirectory dir then
    match (repository? t dir).map (head t) with
    | some (.branch name) => meaningful? name
    | some .detached => some "HEAD"
    | _ => none
  else none

structure Facts where
  remote : Option String
  branch : Option String
  deriving DecidableEq, Repr

def facts (t : Tree) (dir : Path) : Facts :=
  ⟨remote? t dir, branch? t dir⟩

/-! ## Commands -/

/-- The parts of a key, which dots divide: those in the middle belong together. -/
def keyParts (key : String) : List String :=
  let parts := key.toList.splitOn '.'
  match parts with
  | [] | [_] => [key]
  | [a, b] => [lower a, lower b]
  | a :: rest =>
    [lower a, String.ofList (['.'].intercalate rest.dropLast), lower (rest.getLast?.getD [])]

def sectionText (key : List String) (value : String) : String :=
  let escaped := value.toList.flatMap fun c =>
    match c with
    | '"' => ['\\', '"']
    | '\\' => ['\\', '\\']
    | '\n' => ['\\', 'n']
    | '\t' => ['\\', 't']
    | c => [c]
  let heading :=
    match key.dropLast with
    | [a, b] => a ++ " \"" ++ b ++ "\""
    | parts => "".intercalate parts
  "[" ++ heading ++ "]\n\t" ++ key.getLast?.getD "" ++ " = \"" ++ String.ofList escaped ++ "\"\n"

/-- The words with which a command fails outside a repository. -/
def outside : String :=
  "fatal: not a git repository (or any of the parent directories): .git"

/-- The words with which a command fails that needs a commit. -/
def unbornHead : String :=
  "fatal: ambiguous argument 'HEAD': unknown revision or path not in the working tree.\n" ++
    "Use '--' to separate paths from revisions, like this:\n" ++
    "'git <command> [<revision>...] -- [<file>...]'"

/-- What a command prints in `dir` and what becomes of the tree, or the words with which it fails.
Known are the questions for a setting, for the repository and for its head, and a new setting. -/
def command (t : Tree) (dir : Path) (arguments : List String) : Except String (String × Tree) :=
  let git? := repository? t dir
  match arguments with
  | ["config", "--get", key] =>
    match lookup? (keyParts key) (settingsAt t dir) with
    | some value => .ok (trimmed value, t)
    | none => .error ""
  | ["config", key, value] =>
    match git? with
    | some git =>
      match t.append? (git.join "config") (sectionText (keyParts key) value).toUTF8 with
      | some t => .ok ("", t)
      | none => .error ""
    | none => .error "fatal: not in a git directory"
  | ["rev-parse", "--git-dir"] =>
    match git? with
    | some git =>
      let here := (t.resolve dir).join ".git"
      .ok (if git = here then ".git" else git.text, t)
    | none => .error outside
  | ["rev-parse", "--abbrev-ref", "HEAD"] =>
    match git?.map (head t) with
    | some (.branch name) => .ok (name, t)
    | some .detached => .ok ("HEAD", t)
    | some .unborn => .error unbornHead
    | none => .error outside
  | _ => .error ""

def run (dir : Path) (arguments : List String) : Action String := do
  let t ← get
  if t.isDirectory dir then
    match command t dir arguments with
    | .ok (text, t) =>
      set t
      return text
    | .error words => throw (.other ("Git command failed: " ++ words))
  else throw (.other "Failed to execute git command")

end Scaffold.Git
