import Scaffold.Error
import Scaffold.Text.Replace

/-!
# Entrypoints

An entrypoint names a function in a file: the file's path, a colon and the function. Only
the last colon divides, so a path may hold colons and a function may not.
-/

namespace Scaffold

open Scaffold.Text

structure Entrypoint where
  path : String
  function : String
  deriving DecidableEq, Repr

namespace Entrypoint

def text (e : Entrypoint) : String :=
  e.path ++ ":" ++ e.function

def parse (s : String) : Except Error Entrypoint :=
  match cutLast? ':' s.toList with
  | some (path, function) => .ok ⟨String.ofList path, String.ofList function⟩
  | none => .error (.missingFunction s)

end Entrypoint

end Scaffold
