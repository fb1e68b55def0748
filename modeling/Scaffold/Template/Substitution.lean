import Scaffold.Template.Placeholder
import Scaffold.Text.Replace

/-!
# Substitution

`fill` puts values in the place of the placeholders of a template. A placeholder without a
value stays as it is, or is removed: from the text around it, or, if it is a whole string,
together with the node that the string is. Placeholders are replaced one after another, so
one that a value brings in is replaced too if its turn is still to come.
-/

namespace Scaffold.Template

open Scaffold.Text
open Scaffold.Yaml (Value Mapping)

inductive Unset where
  | keep
  | remove
  deriving DecidableEq, Repr

def replaceText (s old new : String) : String :=
  String.ofList (replaceAll old.toList new.toList s.toList)

def replacePlaceholder (values : Dictionary) (unset : Unset) (s : String) (p : Placeholder) :
    String :=
  match values.get? p.name with
  | some value => replaceText s p.text value
  | none =>
    match unset with
    | .keep => s
    | .remove => replaceText s p.text ""

/-- The placeholder that `s` is as a whole. -/
def whole? (s : String) : Option Placeholder :=
  match find s with
  | [p] => if p.text = s then some p else none
  | _ => none

/-- `s` with its placeholders replaced; nothing if `s` is one that is to be removed. -/
def fillString (values : Dictionary) (unset : Unset) (s : String) : Option String :=
  match whole? s with
  | some p =>
    match values.get? p.name, unset with
    | some value, _ => some value
    | none, .keep => some s
    | none, .remove => none
  | none => some ((find s).foldl (replacePlaceholder values unset) s)

mutual

/-- The value with the placeholders in its strings replaced; nothing if it is to be removed. -/
def fill (values : Dictionary) (unset : Unset) : Value → Option Value
  | .string s => (fillString values unset s).map .string
  | .sequence xs => some (.sequence (fillItems values unset xs))
  | .mapping es => some (.mapping (fillEntries values unset es))
  | .tagged t v => (fill values unset v).map (.tagged t)
  | v => some v

def fillItems (values : Dictionary) (unset : Unset) : List Value → List Value
  | [] => []
  | x :: xs =>
    match fill values unset x with
    | some y => y :: fillItems values unset xs
    | none => fillItems values unset xs

def fillEntries (values : Dictionary) (unset : Unset) : List (Value × Value) → List (Value × Value)
  | [] => []
  | (k, v) :: es =>
    match fill values unset v with
    | some w => (k, w) :: fillEntries values unset es
    | none => fillEntries values unset es

end

end Scaffold.Template
