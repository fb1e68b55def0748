import Scaffold.Flow.Registration
import Scaffold.Source.Statement
import Scaffold.Text.Blank

/-!
# Flows in a source

A function is a flow if it is decorated as one. Its name and description are given to the
decorator; the name is made from the function's otherwise, and the description is taken from
its documentation. Only the first definition of a name counts, and nothing is run.
-/

namespace Scaffold.Source

def withoutBlanks (s : String) : String :=
  String.ofList (s.toList.filter fun c => !Text.isBlank c)

namespace Decorator

def flowTargets : List String :=
  ["flow", "prefect.flow"]

def isFlow (d : Decorator) : Bool :=
  flowTargets.contains (withoutBlanks d.target)

/-- The text of the first literal that is given under `key`. -/
def text? (d : Decorator) (key : String) : Option String :=
  d.arguments.findSome? fun (name, value) => if name = key then value.map unquote else none

end Decorator

namespace Definition

/-- What documents a function; a blank text does not. -/
def documentation? (d : Definition) : Option String :=
  (docstring? d.body).bind fun literal =>
    let text := Text.trimmed (unquote literal)
    if text.isEmpty then none else some text

end Definition

structure Declaration where
  name : String
  description : Option String
  deriving DecidableEq, Repr

namespace Declaration

def ofDefinition (d : Definition) (decorator : Decorator) : Declaration where
  name := (decorator.text? "name").getD (Flow.defaultName d.name)
  description := (decorator.text? "description").or d.documentation?

def definition? (function : String) (statements : List Statement) : Option Definition :=
  statements.findSome? fun
    | .definition d => if d.name = function then some d else none
    | .other => none

def find (path function : String) (statements : List Statement) : Except Error Declaration :=
  match definition? function statements with
  | none => .error (.functionNotFound path function)
  | some d =>
    match d.decorators.find? Decorator.isFlow with
    | none => .error (.notAFlow path function)
    | some decorator => .ok (ofDefinition d decorator)

/-- What the source of the file `path` says about the flow `function`. -/
def ofSource (source path function : String) : Except Error Declaration :=
  find path function (Statement.ofSource source)

end Declaration

/-- Finds flows by reading their source. -/
def load : Loader := fun path function => do
  let source ← Action.readText path
  let d ← Action.ofExcept (Declaration.ofSource source path.text function)
  return ⟨d.name, function, path, d.description⟩

end Scaffold.Source
