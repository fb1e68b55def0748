import Scaffold.Proofs.Template.Rounds
import Scaffold.Proofs.Text.Dictionary
import Scaffold.Proofs.Yaml.Value

/-!
# Filling a template twice

Values that come in two lots can be filled in one after the other or together, as long as they have
no braces and those of the template lie in placeholders (`fill_fill`). In between a string may have
become one of another kind: some of its placeholders are gone, or all of them, or it is no longer
one placeholder as a whole. `fillString_of_covered` is about all kinds alike.
-/

namespace Scaffold.Template

open Scaffold.Text
open Scaffold.Yaml (Value Mapping)

variable {values values' : Dictionary} {s : String}

/-! ## Strings -/

theorem replacement?_keep (values : Dictionary) (p : Placeholder) :
    replacement? values .keep p = values.get? p.name := by
  unfold replacement?
  cases values.get? p.name <;> rfl

theorem fillString_of_covered (hvalues : BraceFreeValues values) (hs : Covered s) :
    fillString values .keep s = some (expand values.get? s) := by
  cases hwhole : whole? s with
  | some p =>
    have huniform : Uniform s := by
      unfold Uniform
      rw [(whole?_eq_some hwhole).1]
      exact Nat.le_refl 1
    exact fillString_eq_expand values huniform
  | none =>
    rw [fillString_of_undisturbed hwhole (undisturbed_of_covered hvalues hs), expand_eq_render]
    exact congrArg some (render_congr fun p _ => replacement?_keep values p)

theorem Covered.expand (hvalues : BraceFreeValues values) (hs : Covered s) :
    Covered (expand values.get? s) := by
  rw [expand_eq_render]
  exact hs.render fun p v hv => hvalues.get? hv

theorem expand_expand (hvalues : BraceFreeValues values) (hs : Covered s)
    (value? : String → Option String) :
    expand value? (expand values.get? s) =
      expand (fun n => (values.get? n).or (value? n)) s := by
  simp only [expand_eq_render]
  exact render_render (fun p v hv => hvalues.get? hv) hs fun p => value? p.name

/-! ## Values -/

section Values

variable (f : String → Option String)

mutual

theorem strings_expandValue (v : Value) :
    strings (expandValue f v) = (strings v).map (expand f) := by
  cases v with
  | string s => rfl
  | sequence xs => exact strings_expandItems xs
  | mapping es => exact strings_expandEntries es
  | tagged t v => exact strings_expandValue v
  | _ => rfl

theorem strings_expandItems (xs : List Value) :
    itemStrings (expandItems f xs) = (itemStrings xs).map (expand f) := by
  cases xs with
  | nil => rfl
  | cons x xs =>
    rw [expandItems, itemStrings, itemStrings, strings_expandValue x, strings_expandItems xs,
      List.map_append]

theorem strings_expandEntries (es : Mapping) :
    entryStrings (expandEntries f es) = (entryStrings es).map (expand f) := by
  match es with
  | [] => rfl
  | (k, v) :: es =>
    rw [expandEntries, entryStrings, entryStrings, strings_expandValue v,
      strings_expandEntries es, List.map_append]

end

variable {f} {g k : String → Option String}

mutual

theorem expandValue_expandValue {v : Value}
    (h : ∀ s ∈ strings v, expand g (expand f s) = expand k s) :
    expandValue g (expandValue f v) = expandValue k v := by
  cases v with
  | string s => exact congrArg Value.string (h s List.mem_cons_self)
  | sequence xs => exact congrArg Value.sequence (expandItems_expandItems h)
  | mapping es => exact congrArg Value.mapping (expandEntries_expandEntries h)
  | tagged t v => exact congrArg (Value.tagged t) (expandValue_expandValue (v := v) h)
  | _ => rfl

theorem expandItems_expandItems {xs : List Value}
    (h : ∀ s ∈ itemStrings xs, expand g (expand f s) = expand k s) :
    expandItems g (expandItems f xs) = expandItems k xs := by
  cases xs with
  | nil => rfl
  | cons x xs =>
    rw [expandItems, expandItems, expandItems,
      expandValue_expandValue fun s hs => h s (List.mem_append_left _ hs),
      expandItems_expandItems fun s hs => h s (List.mem_append_right _ hs)]

theorem expandEntries_expandEntries {es : Mapping}
    (h : ∀ s ∈ entryStrings es, expand g (expand f s) = expand k s) :
    expandEntries g (expandEntries f es) = expandEntries k es := by
  match es with
  | [] => rfl
  | (key, v) :: es =>
    rw [expandEntries, expandEntries, expandEntries,
      expandValue_expandValue fun s hs => h s (List.mem_append_left _ hs),
      expandEntries_expandEntries fun s hs => h s (List.mem_append_right _ hs)]

end

end Values

/-! ## Two lots of values -/

theorem BraceFreeValues.of_get?
    (h : ∀ name value, values.get? name = some value → BraceFree value) :
    BraceFreeValues values := fun e he =>
  h e.1 e.2 ((Dictionary.lookup_eq_some_iff values.ascending).2 he)

theorem BraceFreeValues.union (h : BraceFreeValues values) (h' : BraceFreeValues values') :
    BraceFreeValues (values.union values') := by
  refine .of_get? fun name value hget => ?_
  rw [Dictionary.get?_union, Option.or_eq_some_iff] at hget
  rcases hget with hget | ⟨-, hget⟩
  · exact h.get? hget
  · exact h'.get? hget

theorem fill_of_covered (hvalues : BraceFreeValues values) {v : Value}
    (hv : ∀ s ∈ strings v, Covered s) :
    fill values .keep v = some (expandValue values.get? v) :=
  fill_eq_expand values fun s hs => fillString_of_covered hvalues (hv s hs)

theorem fill_expandValue (h : BraceFreeValues values) (h' : BraceFreeValues values') {v : Value}
    (hv : ∀ s ∈ strings v, Covered s) :
    fill values' .keep (expandValue values.get? v) = fill (values.union values') .keep v := by
  have hleft : ∀ s ∈ strings (expandValue values.get? v), Covered s := by
    intro s hs
    rw [strings_expandValue] at hs
    obtain ⟨r, hr, rfl⟩ := List.mem_map.1 hs
    exact (hv r hr).expand h
  have hunion : (values.union values').get? = fun n => (values.get? n).or (values'.get? n) :=
    funext (values.get?_union values')
  rw [fill_of_covered h' hleft, fill_of_covered (h.union h') hv, hunion,
    expandValue_expandValue fun s hs => expand_expand h (hv s hs) values'.get?]

/-- To fill a template with two lots of values one after the other is to fill it with both at once,
where the first counts for the names that they share; to fill it again with the same values changes
nothing. No value has a brace, and every brace of the template lies in a placeholder. -/
theorem fill_fill {values values' : Dictionary} (h : BraceFreeValues values)
    (h' : BraceFreeValues values') {v : Value} (hv : ∀ s ∈ strings v, Covered s) :
    (∀ n, (values.union values').get? n = (values.get? n).or (values'.get? n)) ∧
      ∃ w u, fill values .keep v = some w ∧ fill values' .keep w = some u ∧
        fill (values.union values') .keep v = some u ∧ fill values .keep w = some w := by
  have hfirst := fill_of_covered h hv
  have htwice := fill_expandValue h h hv
  rw [Dictionary.union_self, hfirst] at htwice
  have hboth := fill_of_covered (h.union h') hv
  refine ⟨values.get?_union values', _, _, hfirst, ?_, hboth, htwice⟩
  rw [fill_expandValue h h' hv, hboth]

def projectValues : Dictionary :=
  .ofList [("branch", "main"), ("repo", "etl")]

/-- What is known when it is deployed; its `branch` comes too late. -/
def deploymentValues : Dictionary :=
  .ofList [("branch", "dev"), ("token", "s3cret")]

/-- A pull step with a string that is one placeholder, one with two spellings of a placeholder, and
one that gets its last values in two lots. -/
def pullStep : Value :=
  .mapping
    [(.string "branch", .string "\x7b\x7b branch \x7d\x7d"),
      (.string "refs", .sequence
        [.string "\x7b\x7bbranch\x7d\x7d/\x7b\x7b branch \x7d\x7d",
          .tagged (.ofText "!env") (.string "\x7b\x7btag\x7d\x7d")]),
      (.string "url", .string "\x7b\x7btoken\x7d\x7d@\x7b\x7b repo \x7d\x7d.git")]

/-- The first lot leaves the token and the tag, the second only the tag. -/
theorem fill_fill_pullStep :
    ∃ w, fill projectValues .keep pullStep = some w ∧
      fill deploymentValues .keep w = some (.mapping
        [(.string "branch", .string "main"),
          (.string "refs", .sequence
            [.string "main/main", .tagged (.ofText "!env") (.string "\x7b\x7btag\x7d\x7d")]),
          (.string "url", .string "s3cret@etl.git")]) ∧
      fill projectValues .keep w = some w := by
  have hfilled : fill (projectValues.union deploymentValues) .keep pullStep = some (.mapping
      [(.string "branch", .string "main"),
        (.string "refs", .sequence
          [.string "main/main", .tagged (.ofText "!env") (.string "\x7b\x7btag\x7d\x7d")]),
        (.string "url", .string "s3cret@etl.git")]) := by decide +kernel
  have hproject : BraceFreeValues projectValues := by decide
  have hdeployment : BraceFreeValues deploymentValues := by decide
  have hcovered : ∀ s ∈ strings pullStep, Covered s := by decide +kernel
  obtain ⟨-, w, u, hfirst, hsecond, hboth, hagain⟩ := fill_fill hproject hdeployment hcovered
  obtain rfl := Option.some.inj (hboth.symm.trans hfilled)
  exact ⟨w, hfirst, hsecond, hagain⟩

end Scaffold.Template
