import Mathlib.Data.List.Sort
import Scaffold.Project.Recipe
import Scaffold.Proofs.Template.Removal

/-!
# The report of what is missing

What `collect` lists after `fill` is what it listed before less the names that had values, and
nothing at all where placeholders without a value are removed (`collect_fill`): in every template
whose braces all lie in placeholders, as those of the recipes do (`Recipe.covered`).
-/

namespace Scaffold.Template

open Scaffold.Text
open Scaffold.Yaml (Value Mapping)

/-! ## Lists of names -/

theorem mem_insertSorted {name n : String} {ns : List String} :
    n ∈ insertSorted name ns ↔ n = name ∨ n ∈ ns := by
  induction ns with
  | nil => simp [insertSorted]
  | cons m ns ih =>
    rw [insertSorted]
    split
    · simp
    · split
      · rename_i heq
        simp [heq]
      · rw [List.mem_cons, ih, List.mem_cons]
        exact or_left_comm

theorem pairwise_insertSorted {ns : List String} (h : ns.Pairwise (· < ·)) (name : String) :
    (insertSorted name ns).Pairwise (· < ·) := by
  induction ns with
  | nil => exact List.pairwise_singleton _ _
  | cons m ns ih =>
    obtain ⟨hm, hns⟩ := List.pairwise_cons.1 h
    rw [insertSorted]
    split
    · rename_i hlt
      refine List.pairwise_cons.2 ⟨fun n hn => ?_, h⟩
      rcases List.mem_cons.1 hn with rfl | hn
      · exact hlt
      · exact String.lt_trans hlt (hm n hn)
    · rename_i hnot
      split
      · exact h
      · rename_i hne
        refine List.pairwise_cons.2 ⟨fun n hn => ?_, ih hns⟩
        rcases mem_insertSorted.1 hn with rfl | hn
        · rcases Std.lt_trichotomy m n with hlt | heq | hlt
          · exact hlt
          · exact absurd heq.symm hne
          · exact absurd hlt hnot
        · exact hm n hn

theorem mem_collect {v : Value} {n : String} : n ∈ collect v ↔ n ∈ names v := by
  unfold collect
  induction names v with
  | nil => rfl
  | cons m ns ih => rw [List.foldr_cons, mem_insertSorted, ih, List.mem_cons]

theorem pairwise_collect (v : Value) : (collect v).Pairwise (· < ·) := by
  unfold collect
  induction names v with
  | nil => exact .nil
  | cons m ns ih => exact pairwise_insertSorted ih m

theorem eq_collect_iff {v : Value} {ns : List String} (h : ns.Pairwise (· < ·)) :
    collect v = ns ↔ ∀ n, n ∈ names v ↔ n ∈ ns := by
  constructor
  · rintro rfl n
    exact mem_collect.symm
  · intro hmem
    refine (pairwise_collect v).eq_of_mem_iff h fun n => ?_
    rw [mem_collect, hmem]

/-! ## What stays -/

variable {values : Dictionary} {unset : Unset}

theorem not_stays_of_fill_eq_none {v : Value} (h : fill values unset v = none) (n : String) :
    ¬ Stays values unset n := by
  obtain ⟨rfl, -⟩ := fill_eq_none_iff.1 h
  exact fun hstays => nomatch hstays.2

mutual

theorem mem_names_fill (hvalues : BraceFreeValues values) {v w : Value}
    (hv : ∀ s ∈ strings v, Covered s) (h : fill values unset v = some w) {n : String} :
    n ∈ names w ↔ n ∈ names v ∧ Stays values unset n := by
  cases v with
  | string s =>
    obtain ⟨t, ht, rfl⟩ := Option.map_eq_some_iff.1 h
    have hfind := fun q => mem_find_fillString hvalues unset (hv s List.mem_cons_self) ht (q := q)
    simp only [names, List.mem_map, hfind]
    constructor
    · rintro ⟨p, ⟨hp, hstays⟩, rfl⟩
      exact ⟨⟨p, hp, rfl⟩, hstays⟩
    · rintro ⟨⟨p, hp, rfl⟩, hstays⟩
      exact ⟨p, ⟨hp, hstays⟩, rfl⟩
  | sequence xs => cases h; exact mem_itemNames_fillItems hvalues hv
  | mapping es => cases h; exact mem_entryNames_fillEntries hvalues hv
  | tagged t v =>
    obtain ⟨w, hw, rfl⟩ := Option.map_eq_some_iff.1 h
    exact mem_names_fill hvalues (v := v) hv hw
  | _ => cases h; simp [names]

theorem mem_itemNames_fillItems (hvalues : BraceFreeValues values) {xs : List Value}
    (hxs : ∀ s ∈ itemStrings xs, Covered s) {n : String} :
    n ∈ itemNames (fillItems values unset xs) ↔
      n ∈ itemNames xs ∧ Stays values unset n := by
  cases xs with
  | nil => simp [fillItems, itemNames]
  | cons x xs =>
    have hx := fun s hs => hxs s (List.mem_append_left _ hs)
    have hxs := mem_itemNames_fillItems hvalues (n := n)
      fun s hs => hxs s (List.mem_append_right _ hs)
    rw [fillItems, itemNames]
    cases hfill : fill values unset x with
    | some y =>
      simp only [itemNames, List.mem_append, hxs, mem_names_fill hvalues hx hfill,
        or_and_right]
    | none =>
      have hnot := not_stays_of_fill_eq_none hfill n
      simp only [hxs, hnot, and_false]

theorem mem_entryNames_fillEntries (hvalues : BraceFreeValues values) {es : Mapping}
    (hes : ∀ s ∈ entryStrings es, Covered s) {n : String} :
    n ∈ entryNames (fillEntries values unset es) ↔
      n ∈ entryNames es ∧ Stays values unset n := by
  match es with
  | [] => simp [fillEntries, entryNames]
  | (k, v) :: es =>
    have hv := fun s hs => hes s (List.mem_append_left _ hs)
    have hes := mem_entryNames_fillEntries hvalues (n := n)
      fun s hs => hes s (List.mem_append_right _ hs)
    rw [fillEntries, entryNames]
    cases hfill : fill values unset v with
    | some w =>
      simp only [entryNames, List.mem_append, hes, mem_names_fill hvalues hv hfill,
        or_and_right]
    | none =>
      have hnot := not_stays_of_fill_eq_none hfill n
      simp only [hes, hnot, and_false]

end

theorem fill_mapping (m : Mapping) :
    fill values unset (.mapping m) = some (.mapping (fillEntries values unset m)) := by
  rw [fill]

/-! ## The report -/

theorem collect_fill_keep (hvalues : BraceFreeValues values) {v w : Value}
    (hv : ∀ s ∈ strings v, Covered s) (h : fill values .keep v = some w) :
    collect w = (collect v).filter fun n => (values.get? n).isNone := by
  refine (eq_collect_iff ((pairwise_collect v).filter _)).2 fun n => ?_
  rw [mem_names_fill hvalues hv h, List.mem_filter, mem_collect]
  simp [Stays]

theorem collect_fill_remove (hvalues : BraceFreeValues values) {v w : Value}
    (hv : ∀ s ∈ strings v, Covered s) (h : fill values .remove v = some w) : collect w = [] := by
  refine (eq_collect_iff .nil).2 fun n => ?_
  rw [mem_names_fill hvalues hv h]
  simp [Stays]

/-- In none of the recipes does a brace stand outside a placeholder. -/
theorem covered_of_recipe (r : Recipe) : ∀ s ∈ strings (.mapping r.config), Covered s := by
  cases r <;> decide +kernel

theorem configure_name (r : Recipe) (values : Dictionary) :
    Recipe.configure r.name values = .ok (fillEntries values .keep r.config) :=
  Recipe.configure_of_ofName? r.ofName?_name values

/-- The report is exact. With values that have no braces, filling a template whose braces all lie
in placeholders leaves those of its names that have no value, and none if these are removed; a
recipe with a value for each of its placeholders has nothing left to fill in. -/
theorem collect_fill {values : Dictionary} (hvalues : BraceFreeValues values) :
    (∀ v, (∀ s ∈ strings v, Covered s) →
      (∃ w, fill values .keep v = some w ∧
        collect w = (collect v).filter fun n => (values.get? n).isNone) ∧
      ∀ w, fill values .remove v = some w → collect w = []) ∧
    ∀ r : Recipe, (∀ s ∈ strings (.mapping r.config), Covered s) ∧
      ((∀ n ∈ r.placeholders, (values.get? n).isSome) →
        ∃ m, Recipe.configure r.name values = .ok m ∧ collect (.mapping m) = []) := by
  constructor
  · intro v hv
    obtain ⟨w, hw⟩ := exists_fill_keep values v
    exact ⟨⟨w, hw, collect_fill_keep hvalues hv hw⟩,
      fun w hw => collect_fill_remove hvalues hv hw⟩
  · intro r
    refine ⟨covered_of_recipe r, fun hall => ⟨_, configure_name r values, ?_⟩⟩
    rw [collect_fill_keep hvalues (covered_of_recipe r) (fill_mapping r.config)]
    refine List.filter_eq_nil_iff.2 fun n hn => ?_
    obtain ⟨value, hvalue⟩ := Option.isSome_iff_exists.1 (hall n hn)
    simp [hvalue]

/-- A template in which two spellings of one name stand side by side, with another name behind
them, and one placeholder is all of a string below a tag. -/
def sample : Mapping :=
  [ (.string "\x7b\x7b key \x7d\x7d",
      .string "\x7b\x7bbranch\x7d\x7d\x7b\x7b branch \x7d\x7d/\x7b\x7btag\x7d\x7d"),
    (.string "steps", .sequence [.tagged ⟨"secret"⟩ (.string "\x7b\x7b token \x7d\x7d"), .null]) ]

def repositoryValues : Dictionary :=
  .ofList [("branch", "main"), ("repository", "https://example.com/etl.git")]

theorem collect_fill_sample :
    BraceFreeValues repositoryValues ∧ (∀ s ∈ strings (.mapping sample), Covered s) ∧
      collect (.mapping sample) = ["branch", "tag", "token"] ∧
      (∃ w, fill repositoryValues .keep (.mapping sample) = some w ∧ collect w = ["tag", "token"]) ∧
      (∃ w, fill repositoryValues .remove (.mapping sample) = some w ∧ collect w = []) ∧
      Recipe.git.placeholders = ["branch", "repository"] ∧
      ∃ m, Recipe.configure Recipe.git.name repositoryValues = .ok m ∧
        collect (.mapping m) = [] := by
  have hvalues : BraceFreeValues repositoryValues := by decide +kernel
  have hsample : ∀ s ∈ strings (.mapping sample), Covered s := by decide +kernel
  have hgit : Recipe.git.placeholders = ["branch", "repository"] := by decide +kernel
  obtain ⟨htemplates, hrecipes⟩ := collect_fill hvalues
  obtain ⟨⟨w, hw, hleft⟩, hnone⟩ := htemplates _ hsample
  have hkept : collect w = ["tag", "token"] := by
    rw [hleft]
    decide +kernel
  have hall : ∀ n ∈ Recipe.git.placeholders, (repositoryValues.get? n).isSome = true := by
    rw [hgit]
    decide +kernel
  have hremoved := hnone _ (fill_mapping sample)
  exact ⟨hvalues, hsample, by decide +kernel, ⟨w, hw, hkept⟩, ⟨_, fill_mapping sample, hremoved⟩,
    hgit, (hrecipes .git).2 hall⟩

end Scaffold.Template
