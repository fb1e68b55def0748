import Mathlib.Data.List.Infix
import Scaffold.Proofs.Tree.Walk

/-!
# Paths of locations

What the operations on paths do to the path of a straight location, whose segments are all
names, and to one that was resolved.
-/

namespace Scaffold

namespace Path

theorem components_ofLocation {l : Location} (h : ∀ s ∈ l, IsName s) :
    (ofLocation l).components = l.reverse := by
  refine List.filter_eq_self.2 fun s hs => ?_
  have hs : s ∈ l := List.mem_reverse.1 hs
  simp [(h s hs).not_idle]

theorem getLast?_ne_empty {l : Location} (h : ∀ s ∈ l, IsName s) :
    l.reverse.getLast? ≠ some "" := by
  cases l with
  | nil => simp
  | cons s l =>
    intro he
    have hs := (h s List.mem_cons_self).not_idle
    rw [List.reverse_cons, List.getLast?_append] at he
    cases he
    simp [isIdle] at hs

theorem withoutSlash_ofLocation {l : Location} (h : ∀ s ∈ l, IsName s) :
    (ofLocation l).withoutSlash = l.reverse :=
  if_neg (getLast?_ne_empty h)

theorem above_of_names {l : Location} (h : ∀ s ∈ l, IsName s) :
    above l = l.tails.tail.map ofLocation := by
  induction l with
  | nil => rfl
  | cons s l ih =>
    have hl : ∀ x ∈ l, IsName x := fun x hx => h x (List.mem_cons_of_mem _ hx)
    have hdrop : l.dropWhile isIdle = l := by
      cases l with
      | nil => rfl
      | cons x l => simp [(hl x List.mem_cons_self).not_idle]
    rw [above, (h s List.mem_cons_self).not_idle, ih hl, hdrop]
    cases l <;> simp [List.tails, ofLocation]

theorem ancestors_ofLocation {l : Location} (h : ∀ s ∈ l, IsName s) :
    (ofLocation l).ancestors = l.tails.map ofLocation := by
  have hrev : (ofLocation l).segments.reverse = l := List.reverse_reverse l
  unfold ancestors parents
  rw [hrev, above_of_names h]
  cases l <;> simp [List.tails]

theorem parent?_ofLocation_cons {s : String} {l : Location} (h : ∀ x ∈ s :: l, IsName x) :
    (ofLocation (s :: l)).parent? = some (ofLocation l) := by
  have hrev : (ofLocation (s :: l)).segments.reverse = s :: l := List.reverse_reverse _
  unfold parent? parents
  rw [hrev, above_of_names h]
  cases l <;> simp [List.tails]

theorem join_ofLocation {s : String} {l : Location} (h : ∀ x ∈ l, IsName x)
    (hs : segmentsOf s = [s]) : (ofLocation l).join s = ofLocation (s :: l) := by
  unfold join
  rw [hs, withoutSlash_ofLocation h]
  simp [ofLocation]

theorem below?_eq_some_iff {root p : Path} {names : List String} :
    below? root p = some names ↔ p.components = root.components ++ names := by
  unfold below?
  rw [Option.ite_none_right_eq_some]
  constructor
  · rintro ⟨h, he⟩
    obtain ⟨rest, hrest⟩ := List.isPrefixOf_iff_prefix.1 h
    rw [← hrest] at he ⊢
    simpa using he
  · intro h
    rw [h]
    simp

theorem components_tidy (p : Path) : p.tidy.components = p.components := by
  have hidle : (p.components.filter fun s => !isIdle s) = p.components :=
    List.filter_eq_self.2 fun s hs => (List.mem_filter.1 hs).2
  have hempty : (["" ].filter fun s => !isIdle s) = [] := by decide
  unfold Path.tidy
  simp only [Path.components, List.filter_append] at hidle ⊢
  rw [hidle]
  split <;> split <;> simp [hempty]

theorem tidy_ofLocation {l : Location} (h : ∀ s ∈ l, IsName s) :
    (ofLocation l).tidy = ofLocation l := by
  have hlast : (ofLocation l).segments.getLast? ≠ some "" := getLast?_ne_empty h
  have hfirst : (ofLocation l).beginsWithTwoSlashes = false := by
    unfold beginsWithTwoSlashes
    split
    · rfl
    · rename_i hsegments
      have hmem : "" ∈ (ofLocation l).segments := by simp [hsegments]
      exact absurd (h _ (List.mem_reverse.1 hmem)).not_idle (by decide)
    · rfl
  unfold tidy
  rw [hfirst, if_neg hlast, components_ofLocation h]
  simp [ofLocation]

/-- A path without the segments that lead nowhere, but for those at its beginning. -/
theorem withoutSlash_tidy (p : Path) : ∃ start, (∀ s ∈ start, isIdle s = true) ∧
    p.tidy.withoutSlash = start ++ p.components := by
  have hidle : isIdle "" = true := by decide
  have hlast : ∀ s ∈ p.components.getLast?, s ≠ "" := by
    rintro s hs rfl
    have hmem := (List.mem_filter.1 (List.mem_of_getLast? hs)).2
    simp [hidle] at hmem
  unfold tidy withoutSlash
  by_cases h2 : p.segments.getLast? = some ""
  · refine ⟨if p.beginsWithTwoSlashes then [""] else [], ?_, ?_⟩
    · intro s hs
      split at hs
      · rw [List.mem_singleton.1 hs]; exact hidle
      · cases hs
    · simp [h2]
  · cases hc : p.components.getLast? with
    | none =>
      rw [List.getLast?_eq_none_iff] at hc
      refine ⟨[], nofun, ?_⟩
      simp only [h2, if_false, hc, List.append_nil]
      split <;> simp
    | some s =>
      refine ⟨if p.beginsWithTwoSlashes then [""] else [], ?_, ?_⟩
      · intro x hx
        split at hx
        · rw [List.mem_singleton.1 hx]; exact hidle
        · cases hx
      · have hne : s ≠ "" := hlast s hc
        simp [h2, hc, hne, List.getLast?_append]

theorem withoutSlash_resolve {t : Tree} {p : Path} (hp : Slashless p.segments) :
    ∃ start, (∀ s ∈ start, isIdle s = true) ∧
      (t.resolve p).withoutSlash = start ++ (t.resolve p).components := by
  unfold Tree.resolve
  split
  · rename_i l hl
    have hnames := (Tree.straight_of_locate? hp hl).isName
    exact ⟨[], nofun, by rw [withoutSlash_ofLocation hnames, components_ofLocation hnames]; rfl⟩
  · rw [components_tidy]
    exact withoutSlash_tidy p

end Path

end Scaffold
