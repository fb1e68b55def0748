import Scaffold.Proofs.Text.Scan
import Scaffold.Text.Blank

/-!
# What is trimmed off

`trim` leaves the stretch of a text that neither begins nor ends with a blank and has nothing but
blanks around it (`trim_eq_iff`).
-/

namespace Scaffold.Text

variable {s t right : List Char}

/-- `t` is `s` without the blanks around it. -/
structure Trims (s t : List Char) : Prop where
  around : ∃ left right, s = left ++ t ++ right ∧ (∀ c ∈ left, isBlank c = true) ∧
    ∀ c ∈ right, isBlank c = true
  begins : Stops isBlank t
  ends : Stops isBlank t.reverse

theorem trim_eq_nil_iff : trim s = [] ↔ ∀ c ∈ s, isBlank c = true := by
  unfold trim
  rw [trimEnd_eq_nil_iff]
  constructor
  · intro h c hc
    rw [← List.takeWhile_append_dropWhile (p := isBlank) (l := s)] at hc
    rcases List.mem_append.1 hc with hc | hc
    · exact List.mem_takeWhile_imp hc
    · exact h c hc
  · exact fun h c hc => h c ((List.dropWhile_sublist _).subset hc)

theorem trimEnd_append_blanks (s : List Char) (hright : ∀ c ∈ right, isBlank c = true) :
    trimEnd (s ++ right) = trimEnd s := by
  induction s with
  | nil => exact trimEnd_eq_nil_iff.2 hright
  | cons c s ih => rw [List.cons_append, trimEnd, trimEnd, ih]

theorem trimEnd_of_stops (h : Stops isBlank t.reverse) : trimEnd t = t := by
  induction t with
  | nil => rfl
  | cons c t ih =>
    rw [trimEnd]
    cases t with
    | nil =>
      have hc : isBlank c = false := h c rfl
      simp [hc]
    | cons d t =>
      rw [ih fun x hx => h x (by simpa using hx)]

/-- Behind what is left there are blanks, and what is left does not end with one. -/
theorem trimEnd_spec (s : List Char) :
    Stops isBlank (trimEnd s).reverse ∧
      ∃ right, s = trimEnd s ++ right ∧ ∀ c ∈ right, isBlank c = true := by
  induction s with
  | nil => exact ⟨stops_nil _, [], rfl, List.forall_mem_nil _⟩
  | cons c s ih =>
    obtain ⟨hends, right, hs, hright⟩ := ih
    rw [trimEnd]
    split
    · rename_i hnil
      rw [hnil, List.nil_append] at hs
      cases hc : isBlank c with
      | true => exact ⟨stops_nil _, c :: s, rfl, List.forall_mem_cons.2 ⟨hc, hs ▸ hright⟩⟩
      | false => exact ⟨stops_cons hc [], s, rfl, hs ▸ hright⟩
    · rename_i hne
      refine ⟨?_, right, congrArg (c :: ·) hs, hright⟩
      cases hrest : (trimEnd s).reverse with
      | nil => exact absurd (List.reverse_eq_nil_iff.1 hrest) hne
      | cons d rest =>
        rw [List.reverse_cons, hrest]
        exact stops_cons (hends d (by rw [hrest]; rfl)) _

theorem trim_eq_iff : trim s = t ↔ Trims s t := by
  constructor
  · rintro rfl
    obtain ⟨hends, right, hrest, hright⟩ := trimEnd_spec (s.dropWhile isBlank)
    refine ⟨⟨s.takeWhile isBlank, right, ?_, fun c hc => List.mem_takeWhile_imp hc, hright⟩, ?_,
      hends⟩
    · rw [List.append_assoc, trim, ← hrest, List.takeWhile_append_dropWhile]
    · intro c hc
      refine stops_dropWhile isBlank s c ?_
      rw [trim] at hc
      rw [hrest, List.head?_append, Option.mem_def.1 hc]
      rfl
  · rintro ⟨⟨left, right, rfl, hleft, hright⟩, hbegins, hends⟩
    cases t with
    | nil =>
      rw [trim_eq_nil_iff]
      intro c hc
      rw [List.append_nil] at hc
      exact (List.mem_append.1 hc).elim (hleft c) (hright c)
    | cons c t =>
      have hdrop : (left ++ (c :: t) ++ right).dropWhile isBlank = c :: t ++ right := by
        rw [List.append_assoc]
        exact dropWhile_append_stop hleft (stops_cons (hbegins c rfl) _)
      rw [trim, hdrop, trimEnd_append_blanks _ hright, trimEnd_of_stops hends]

end Scaffold.Text
