import Scaffold.Error
import Scaffold.Text.Blank
import Scaffold.Text.Dictionary
import Scaffold.Text.Replace

/-!
# Fields

A field gives a text to a placeholder: the name, an equals sign, and the text as it
stands. Blanks around the name do not count, and the name must not be blank.
-/

namespace Scaffold

open Scaffold.Text

def parseField (field : String) : Except Error (String × String) :=
  match cutFirst? '=' field.toList with
  | some (key, value) =>
    let key := trim key
    if key.isEmpty then .error (.invalidField field)
    else .ok (String.ofList key, String.ofList value)
  | none => .error (.invalidField field)

/-- What a list of fields gives, a later one instead of an earlier one with its name; or the
error of the first that is not a field. -/
def parseFields (fields : List String) : Except Error Dictionary := do
  let entries ← fields.mapM parseField
  return Dictionary.ofList entries

end Scaffold
