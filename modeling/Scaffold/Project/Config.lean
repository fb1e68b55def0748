import Scaffold.Error
import Scaffold.Yaml.Printer

/-!
# The configuration of a project

`render` writes a configuration as the text of its file: a title, the project's name and
the version, then each section under a comment that explains it. The sections always come
in the same order; one that is missing is written empty, and keys of no section are left
out.
-/

namespace Scaffold.Config

open Scaffold.Yaml (Value Mapping)

def version : String := "0.1.0"

structure Section where
  key : String
  comment : String
  /-- what is written when the section is missing -/
  absent : Value

def header : String :=
  "# File for configuring project / deployment build, push and pull steps\n\n" ++
    "# Generic metadata about this project\n"

def sections : List Section := [
  ⟨"build", "# build section allows you to manage and build docker images", .null⟩,
  ⟨"push", "# push section allows you to manage if and how this project is uploaded to remote " ++
    "locations", .null⟩,
  ⟨"pull", "# pull section allows you to provide instructions for cloning this project in remote " ++
    "locations", .null⟩,
  ⟨"deployments", "# the deployments section allows you to provide configuration for deploying " ++
    "flows", .sequence []⟩]

/-- A value as a document, or the error that it has no written form. -/
def print (v : Value) : Except Error String :=
  match v.print? with
  | some text => .ok text
  | none => .error (.yaml "serializing nested enums in YAML is not supported yet")

def renderEntry (contents : Mapping) (key : String) (absent : Value) : Except Error String :=
  print (.mapping [(.string key, (contents.get? key).getD absent)])

def renderSections (contents : Mapping) : List Section → Except Error String
  | [] => .ok ""
  | s :: rest => do
    let entry ← renderEntry contents s.key s.absent
    let others ← renderSections contents rest
    return "\n" ++ s.comment ++ "\n" ++ entry ++ others

def render (contents : Mapping) : Except Error String := do
  let name ← renderEntry contents "name" .null
  let version ← renderEntry contents "prefect-version" .null
  let rest ← renderSections contents sections
  return header ++ name ++ version ++ rest

/-- `contents` with the name and the version that a new project has. -/
def stamp (contents : Mapping) (name : String) : Mapping :=
  (contents.set "prefect-version" (.string version)).set "name" (.string name)

end Scaffold.Config
