import Scaffold.Proofs.Template.Report

/-!
# What a substitution depends on

`fill` asks for the values of those names alone that `collect` lists (`fill_congr`): a value may
bring in the text of another placeholder, but what is replaced was found in the template. Where none
of the names has a value and placeholders are kept, the template stays as it is (`fill_eq_self`).
What the keys of its mappings are plays no part (`fill_mapKeys`).
-/

namespace Scaffold.Template

open Scaffold.Text
open Scaffold.Yaml (Value Mapping)

variable {values values' : Dictionary} {unset : Unset} {s : String}

/-! ## Strings -/

theorem replacePlaceholder_congr {p : Placeholder} (h : values.get? p.name = values'.get? p.name)
    (t : String) : replacePlaceholder values unset t p = replacePlaceholder values' unset t p := by
  unfold replacePlaceholder
  rw [h]

/-- Each round, the later ones too, asks for a name that was found in the template. -/
theorem fillString_congr (h : ∀ p ∈ find s, values.get? p.name = values'.get? p.name) :
    fillString values unset s = fillString values' unset s := by
  unfold fillString
  cases hwhole : whole? s with
  | some p =>
    have hp : p ∈ find s := by
      rw [(whole?_eq_some hwhole).1]
      exact List.mem_singleton_self p
    dsimp only
    rw [h p hp]
  | none =>
    exact congrArg some (List.foldl_ext _ _ _ fun t p hp => replacePlaceholder_congr (h p hp) t)

theorem fillString_empty (s : String) : fillString .empty .keep s = some s := by
  have hround (p : Placeholder) : replacePlaceholder .empty .keep s p = s := rfl
  unfold fillString
  cases whole? s with
  | some p => rfl
  | none => exact congrArg some (List.foldl_fixed' hround (find s))

/-! ## Values -/

mutual

theorem fill_congr {v : Value} (h : ∀ n ∈ names v, values.get? n = values'.get? n) :
    fill values unset v = fill values' unset v := by
  cases v with
  | string s =>
    rw [fill, fill, fillString_congr fun p hp => h p.name (List.mem_map_of_mem hp)]
  | sequence xs => rw [fill, fill, fillItems_congr h]
  | mapping es => rw [fill, fill, fillEntries_congr h]
  | tagged t v => rw [fill, fill, fill_congr (v := v) h]
  | _ => rfl

theorem fillItems_congr {xs : List Value} (h : ∀ n ∈ itemNames xs, values.get? n = values'.get? n) :
    fillItems values unset xs = fillItems values' unset xs := by
  cases xs with
  | nil => rfl
  | cons x xs =>
    rw [fillItems, fillItems, fill_congr fun n hn => h n (List.mem_append_left _ hn),
      fillItems_congr fun n hn => h n (List.mem_append_right _ hn)]

theorem fillEntries_congr {es : Mapping} (h : ∀ n ∈ entryNames es, values.get? n = values'.get? n) :
    fillEntries values unset es = fillEntries values' unset es := by
  match es with
  | [] => rfl
  | (k, v) :: es =>
    rw [fillEntries, fillEntries, fill_congr fun n hn => h n (List.mem_append_left _ hn),
      fillEntries_congr fun n hn => h n (List.mem_append_right _ hn)]

end

mutual

theorem fill_empty (v : Value) : fill .empty .keep v = some v := by
  cases v with
  | string s => rw [fill, fillString_empty, Option.map_some]
  | sequence xs => rw [fill, fillItems_empty xs]
  | mapping es => rw [fill, fillEntries_empty es]
  | tagged t v => rw [fill, fill_empty v, Option.map_some]
  | _ => rfl

theorem fillItems_empty (xs : List Value) : fillItems .empty .keep xs = xs := by
  cases xs with
  | nil => rfl
  | cons x xs => rw [fillItems, fill_empty x, fillItems_empty xs]

theorem fillEntries_empty (es : Mapping) : fillEntries .empty .keep es = es := by
  match es with
  | [] => rfl
  | (k, v) :: es => rw [fillEntries, fill_empty v, fillEntries_empty es]

end

theorem fill_eq_self {v : Value} (h : ∀ n ∈ names v, values.get? n = none) :
    fill values .keep v = some v := by
  have hempty : ∀ n ∈ names v, values.get? n = Dictionary.empty.get? n := h
  rw [fill_congr hempty, fill_empty]

/-! ## Keys -/

mutual

/-- The value with another key in the place of each key of its mappings, at every depth. -/
def mapKeys (rename : Value → Value) : Value → Value
  | .sequence xs => .sequence (mapItemKeys rename xs)
  | .mapping es => .mapping (mapEntryKeys rename es)
  | .tagged t v => .tagged t (mapKeys rename v)
  | v => v

def mapItemKeys (rename : Value → Value) : List Value → List Value
  | [] => []
  | x :: xs => mapKeys rename x :: mapItemKeys rename xs

def mapEntryKeys (rename : Value → Value) : List (Value × Value) → List (Value × Value)
  | [] => []
  | (k, v) :: es => (rename k, mapKeys rename v) :: mapEntryKeys rename es

end

section Keys

variable (rename : Value → Value)

mutual

theorem names_mapKeys (v : Value) : names (mapKeys rename v) = names v := by
  cases v with
  | sequence xs => exact itemNames_mapItemKeys xs
  | mapping es => exact entryNames_mapEntryKeys es
  | tagged t v => exact names_mapKeys v
  | _ => rfl

theorem itemNames_mapItemKeys (xs : List Value) :
    itemNames (mapItemKeys rename xs) = itemNames xs := by
  cases xs with
  | nil => rfl
  | cons x xs =>
    rw [mapItemKeys, itemNames, itemNames, names_mapKeys x, itemNames_mapItemKeys xs]

theorem entryNames_mapEntryKeys (es : Mapping) :
    entryNames (mapEntryKeys rename es) = entryNames es := by
  match es with
  | [] => rfl
  | (k, v) :: es =>
    rw [mapEntryKeys, entryNames, entryNames, names_mapKeys v, entryNames_mapEntryKeys es]

end

mutual

/-- To rename the keys and to fill the template can be done in either order. -/
theorem fill_mapKeys (v : Value) :
    fill values unset (mapKeys rename v) = (fill values unset v).map (mapKeys rename) := by
  cases v with
  | string s =>
    have hself : mapKeys rename (.string s) = .string s := rfl
    rw [hself, fill]
    cases fillString values unset s <;> rfl
  | sequence xs =>
    rw [mapKeys, fill, fill, fillItems_mapItemKeys xs, Option.map_some, mapKeys]
  | mapping es =>
    rw [mapKeys, fill, fill, fillEntries_mapEntryKeys es, Option.map_some, mapKeys]
  | tagged t v =>
    rw [mapKeys, fill, fill, fill_mapKeys v]
    cases fill values unset v <;> rfl
  | _ => rfl

theorem fillItems_mapItemKeys (xs : List Value) :
    fillItems values unset (mapItemKeys rename xs) =
      mapItemKeys rename (fillItems values unset xs) := by
  cases xs with
  | nil => rfl
  | cons x xs =>
    rw [mapItemKeys, fillItems, fillItems, fill_mapKeys x, fillItems_mapItemKeys xs]
    cases fill values unset x <;> rfl

theorem fillEntries_mapEntryKeys (es : Mapping) :
    fillEntries values unset (mapEntryKeys rename es) =
      mapEntryKeys rename (fillEntries values unset es) := by
  match es with
  | [] => rfl
  | (k, v) :: es =>
    rw [mapEntryKeys, fillEntries, fillEntries, fill_mapKeys v, fillEntries_mapEntryKeys es]
    cases fill values unset v <;> rfl

end

theorem collect_mapKeys (v : Value) : collect (mapKeys rename v) = collect v := by
  unfold collect
  rw [names_mapKeys]

end Keys

/-! ## Both together -/

/-- The names that `collect` lists bound what a substitution can depend on. Values that agree on
them give the same outcome; where none of them has a value, the template stays as it is; and what
stands in the keys of a mapping is neither listed nor looked at. -/
theorem collect_bounds_fill (v : Value) :
    (∀ unset (values values' : Dictionary),
      (∀ n ∈ collect v, values.get? n = values'.get? n) →
        fill values unset v = fill values' unset v) ∧
    (∀ values : Dictionary,
      (∀ n ∈ collect v, values.get? n = none) → fill values .keep v = some v) ∧
    ∀ rename : Value → Value,
      collect (mapKeys rename v) = collect v ∧
        ∀ values unset,
          fill values unset (mapKeys rename v) = (fill values unset v).map (mapKeys rename) := by
  refine ⟨fun unset values values' h => ?_, fun values h => ?_,
    fun rename => ⟨collect_mapKeys rename v, fun values unset => fill_mapKeys rename v⟩⟩
  · exact fill_congr fun n hn => h n (mem_collect.2 hn)
  · exact fill_eq_self fun n hn => h n (mem_collect.2 hn)

/-- A template with a placeholder in a key that stands nowhere else. -/
def endpoint : Value :=
  .mapping
    [(.string "\x7b\x7b key \x7d\x7d",
        .tagged ⟨"secret"⟩ (.string "\x7b\x7bhost\x7d\x7d:\x7b\x7b user \x7d\x7d")),
      (.string "ports", .sequence [.int 5432])]

/-- Values one of which brings in a placeholder that the template has, and one that it has not. -/
def endpointValues : Dictionary :=
  .ofList [("host", "\x7b\x7b user \x7d\x7d.local\x7b\x7b key \x7d\x7d"), ("user", "etl")]

/-- The name in the key has no part in the outcome, even where a value brings in its placeholder. -/
theorem collect_bounds_fill_endpoint :
    collect endpoint = ["host", "user"] ∧
      (∀ n ∈ collect endpoint,
        (endpointValues.insert "key" "primary").get? n = endpointValues.get? n) ∧
      fill (endpointValues.insert "key" "primary") .remove endpoint =
        some (.mapping
          [(.string "\x7b\x7b key \x7d\x7d",
              .tagged ⟨"secret"⟩ (.string "etl.local\x7b\x7b key \x7d\x7d:etl")),
            (.string "ports", .sequence [.int 5432])]) ∧
      (∀ n ∈ collect endpoint, (Dictionary.empty.insert "key" "primary").get? n = none) ∧
      fill (Dictionary.empty.insert "key" "primary") .keep endpoint = some endpoint := by
  have hcollect : collect endpoint = ["host", "user"] := by decide +kernel
  have hagree : ∀ n ∈ collect endpoint,
      (endpointValues.insert "key" "primary").get? n = endpointValues.get? n := by
    rw [hcollect]
    decide +kernel
  have hnone : ∀ n ∈ collect endpoint,
      (Dictionary.empty.insert "key" "primary").get? n = none := by
    rw [hcollect]
    decide +kernel
  obtain ⟨hbound, hself, -⟩ := collect_bounds_fill endpoint
  refine ⟨hcollect, hagree, ?_, hnone, hself _ hnone⟩
  rw [hbound .remove _ _ hagree]
  decide +kernel

end Scaffold.Template
