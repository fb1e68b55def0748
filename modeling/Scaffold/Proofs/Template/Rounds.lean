import Mathlib.Data.List.Dedup
import Mathlib.Logic.Function.Basic
import Mathlib.Tactic.Linarith
import Mathlib.Tactic.Zify
import Scaffold.Proofs.Template.Occurrence
import Scaffold.Proofs.Template.Rendering

/-!
# Rounds of a substitution

A text is filled in rounds, one for each of its placeholders, and each round replaces a placeholder
wherever its text stands by then. `render` replaces them all at one go. The two agree as long as no
round finds its placeholder elsewhere than in the template (`Undisturbed`): a value that brings in a
placeholder, or completes one, disturbs the rounds to come.
-/

namespace Scaffold.Template

open Scaffold.Text
open Scaffold.Yaml (Value)

/-! ## Replacements -/

/-- What replaces a placeholder, unless it stays. -/
def replacement? (values : Dictionary) (unset : Unset) (p : Placeholder) : Option String :=
  match values.get? p.name, unset with
  | some value, _ => some value
  | none, .remove => some ""
  | none, .keep => none

/-- The replacements of the placeholders in `ps` alone. -/
def only (ps : List Placeholder) (value? : Placeholder → Option String) (p : Placeholder) :
    Option String :=
  if p ∈ ps then value? p else none

variable {value? : Placeholder → Option String} {p : Placeholder} {v : String}

theorem only_nil : only [] value? = fun _ => none := by
  funext p
  simp [only]

theorem only_concat {done : List Placeholder} :
    only (done ++ [p]) value? = Function.update (only done value?) p (value? p) := by
  funext q
  by_cases hq : q = p
  · subst hq
    simp [only]
  · simp [only, hq]

theorem only_of_not_mem {done : List Placeholder} (h : p ∉ done) : only done value? p = none :=
  if_neg h

/-! ## One round -/

theorem holes_induction (p : Placeholder) {motive : List Piece → Prop}
    (none : ∀ ps, .hole p ∉ ps → motive ps)
    (split : ∀ before after, .hole p ∉ before → motive after →
      motive (before ++ .hole p :: after)) (ps : List Piece) : motive ps := by
  induction hn : ps.length using Nat.strong_induction_on generalizing ps with
  | _ n ih =>
    by_cases h : .hole p ∈ ps
    · obtain ⟨before, after, rfl, hbefore⟩ := List.eq_append_cons_of_mem h
      have hlt : after.length < n := by
        rw [← hn, List.length_append, List.length_cons]
        omega
      exact split before after hbefore (ih after.length hlt after rfl)
    · exact none ps h

section Round

variable {f : Placeholder → Option String} {ps before after : List Piece}

theorem rendered_update_of_not_mem (h : .hole p ∉ ps) (r : Option String) :
    ps.flatMap (Piece.rendered (Function.update f p r)) = ps.flatMap (Piece.rendered f) := by
  refine rendered_congr fun q hq => ?_
  have hne : q ≠ p := by
    rintro rfl
    exact h hq
  rw [Function.update_of_ne hne]

theorem rendered_split (hf : f p = none) (before after : List Piece) :
    (before ++ .hole p :: after).flatMap (Piece.rendered f) =
      before.flatMap (Piece.rendered f) ++
        (p.text.toList ++ after.flatMap (Piece.rendered f)) := by
  simp [Piece.rendered, hf]

theorem rendered_update_split (h : .hole p ∉ before) (after : List Piece) :
    (before ++ .hole p :: after).flatMap (Piece.rendered (Function.update f p (some v))) =
      before.flatMap (Piece.rendered f) ++
        (v.toList ++ after.flatMap (Piece.rendered (Function.update f p (some v)))) := by
  rw [List.flatMap_append, rendered_update_of_not_mem h, List.flatMap_cons]
  simp [Piece.rendered]

theorem count_split (h : .hole p ∉ before) (after : List Piece) :
    (before ++ .hole p :: after).count (.hole p) = 1 + after.count (.hole p) := by
  rw [List.count_append, List.count_eq_zero_of_not_mem h, List.count_cons_self]
  omega

theorem length_rendered_update (hf : f p = none) (ps : List Piece) :
    (ps.flatMap (Piece.rendered (Function.update f p (some v)))).length +
        ps.count (.hole p) * p.text.toList.length =
      (ps.flatMap (Piece.rendered f)).length + ps.count (.hole p) * v.toList.length := by
  induction ps using holes_induction p with
  | none ps h => rw [List.count_eq_zero_of_not_mem h, rendered_update_of_not_mem h]; omega
  | split before after h ih =>
    rw [count_split h, rendered_split hf, rendered_update_split h]
    simp only [List.length_append, Nat.add_mul, Nat.one_mul]
    omega

theorem rendered_update_text (hf : f p = none) (ps : List Piece) :
    ps.flatMap (Piece.rendered (Function.update f p (some p.text))) =
      ps.flatMap (Piece.rendered f) := by
  refine List.flatMap_congr fun x _ => ?_
  cases x with
  | char c => rfl
  | hole q =>
    by_cases hq : q = p
    · subst hq
      simp [Piece.rendered, hf]
    · simp [Piece.rendered, hq]

variable (hp : placeholderAt? p.text.toList = some p) (hf : f p = none)

include hp hf

/-- A placeholder that was not replaced still stands where it stood in the template. -/
theorem count_le_occurrences (ps : List Piece) :
    ps.count (.hole p) ≤ occurrences p.text.toList (ps.flatMap (Piece.rendered f)) := by
  induction ps using holes_induction p with
  | none ps h =>
    rw [List.count_eq_zero_of_not_mem h]
    exact Nat.zero_le _
  | split before after h ih =>
    rw [count_split h, rendered_split hf, (unbordered_text hp).occurrences_append]
    omega

theorem replaceAll_rendered_of_count
    (h : occurrences p.text.toList (ps.flatMap (Piece.rendered f)) = ps.count (.hole p)) :
    replaceAll p.text.toList v.toList (ps.flatMap (Piece.rendered f)) =
      ps.flatMap (Piece.rendered (Function.update f p (some v))) := by
  have hborder := unbordered_text hp
  induction ps using holes_induction p with
  | none ps hnot =>
    rw [List.count_eq_zero_of_not_mem hnot] at h
    rw [rendered_update_of_not_mem hnot, hborder.replaceAll_of_occurrences_eq_zero h]
  | split before after hnot ih =>
    have hle := count_le_occurrences hp hf after
    rw [rendered_split hf, hborder.occurrences_append, count_split hnot] at h
    rw [rendered_split hf, hborder.replaceAll_append, rendered_update_split hnot,
      hborder.replaceAll_of_occurrences_eq_zero (by omega), ih (by omega)]

/-- A value as long as the placeholder shows at every other place where that stands. -/
theorem count_of_replaceAll_rendered (hlen : v.toList.length = p.text.toList.length)
    (hne : v.toList ≠ p.text.toList)
    (h : replaceAll p.text.toList v.toList (ps.flatMap (Piece.rendered f)) =
      ps.flatMap (Piece.rendered (Function.update f p (some v)))) :
    occurrences p.text.toList (ps.flatMap (Piece.rendered f)) = ps.count (.hole p) := by
  have hborder := unbordered_text hp
  induction ps using holes_induction p with
  | none ps hnot =>
    rw [rendered_update_of_not_mem hnot] at h
    rw [List.count_eq_zero_of_not_mem hnot]
    exact hborder.occurrences_eq_zero_of_replaceAll hlen hne h
  | split before after hnot ih =>
    rw [rendered_split hf, hborder.replaceAll_append, rendered_update_split hnot] at h
    have hkept := hborder.length_replaceAll v.toList (before.flatMap (Piece.rendered f))
    rw [hlen] at hkept
    obtain ⟨hbefore, hrest⟩ := List.append_inj h (by omega)
    have hafter := ih (List.append_cancel_left hrest)
    have hzero := hborder.occurrences_eq_zero_of_replaceAll hlen hne hbefore
    rw [rendered_split hf, hborder.occurrences_append, count_split hnot, hzero, hafter]
    omega

/-- A round agrees with what is done at one go exactly if it finds its placeholder nowhere but in
the template, or makes no difference anywhere. -/
theorem replaceAll_rendered_iff (ps : List Piece) :
    replaceAll p.text.toList v.toList (ps.flatMap (Piece.rendered f)) =
        ps.flatMap (Piece.rendered (Function.update f p (some v))) ↔
      v = p.text ∨
        occurrences p.text.toList (ps.flatMap (Piece.rendered f)) = ps.count (.hole p) := by
  constructor
  · intro h
    by_cases hsame : v = p.text
    · exact .inl hsame
    refine .inr ?_
    by_cases hlen : v.toList.length = p.text.toList.length
    · have hne : v.toList ≠ p.text.toList := fun heq => hsame (String.toList_injective heq)
      exact count_of_replaceAll_rendered hp hf hlen hne h
    · -- every place that is replaced makes the text longer or shorter by the same amount
      have hall := (unbordered_text hp).length_replaceAll v.toList (ps.flatMap (Piece.rendered f))
      have hholes := length_rendered_update (v := v) hf ps
      rw [h] at hall
      generalize occurrences p.text.toList (ps.flatMap (Piece.rendered f)) = n at hall ⊢
      generalize ps.count (.hole p) = m at hholes ⊢
      have hmul : (n - m : Int) * (v.toList.length - p.text.toList.length) = 0 := by
        zify at hall hholes
        linarith
      rcases mul_eq_zero.1 hmul with hzero | hzero
      · omega
      · omega
  · rintro (rfl | h)
    · rw [(unbordered_text hp).replaceAll_self, rendered_update_text hf]
    · exact replaceAll_rendered_of_count hp hf h

end Round

/-! ## All rounds -/

theorem nodup_eraseDups (ps : List Placeholder) : ps.eraseDups.Nodup := by
  induction hn : ps.length using Nat.strong_induction_on generalizing ps with
  | _ n ih =>
    subst hn
    cases ps with
    | nil => exact List.nodup_nil
    | cons p ps =>
      rw [List.eraseDups_cons, List.nodup_cons, List.mem_eraseDups]
      refine ⟨by simp, ih _ ?_ _ rfl⟩
      have hle := List.length_filter_le (fun q => !q == p) ps
      rw [List.length_cons]
      omega

variable (values : Dictionary) (unset : Unset) (s : String)

/-- The text after the first `n` rounds. -/
def afterRounds (n : Nat) : String :=
  ((find s).take n).foldl (replacePlaceholder values unset) s

/-- The text in which the placeholders of the first `n` rounds are replaced at one go. -/
def renderFirst (n : Nat) : String :=
  render (only ((find s).take n) (replacement? values unset)) s

/-- No round finds its placeholder elsewhere than in the template, but for one that is to be
replaced by itself. -/
def Undisturbed : Prop :=
  ∀ n (h : n < (find s).length), ∀ v ∈ replacement? values unset (find s)[n],
    v = (find s)[n].text ∨
      occurrences (find s)[n].text.toList (renderFirst values unset s n).toList =
        (pieces s).count (.hole (find s)[n])

instance : Decidable (Undisturbed values unset s) :=
  inferInstanceAs (Decidable (∀ n (h : n < (find s).length),
    ∀ v ∈ replacement? values unset (find s)[n],
      v = (find s)[n].text ∨
        occurrences (find s)[n].text.toList (renderFirst values unset s n).toList =
          (pieces s).count (.hole (find s)[n])))

variable {values unset s}

theorem replacePlaceholder_of_some (h : replacement? values unset p = some v) (t : String) :
    replacePlaceholder values unset t p = replaceText t p.text v := by
  unfold replacement? at h
  unfold replacePlaceholder
  cases hvalue : values.get? p.name with
  | some value => rw [hvalue] at h; cases h; rfl
  | none =>
    rw [hvalue] at h
    cases unset with
    | keep => cases h
    | remove => cases h; rfl

theorem replacePlaceholder_of_none (h : replacement? values unset p = none) (t : String) :
    replacePlaceholder values unset t p = t := by
  unfold replacement? at h
  unfold replacePlaceholder
  cases hvalue : values.get? p.name with
  | some value => rw [hvalue] at h; cases h
  | none =>
    rw [hvalue] at h
    cases unset with
    | keep => rfl
    | remove => cases h

theorem replaceText_render_iff {f : Placeholder → Option String} (hp : p ∈ find s)
    (hf : f p = none) :
    replaceText (render f s) p.text v = render (Function.update f p (some v)) s ↔
      v = p.text ∨
        occurrences p.text.toList (render f s).toList = (pieces s).count (.hole p) := by
  have hat := (spells_of_mem (mem_find_iff.1 hp)).placeholderAt?_text
  unfold replaceText render
  rw [String.ofList_inj, String.toList_ofList]
  exact replaceAll_rendered_iff hat hf (pieces s)

theorem not_mem_take {n : Nat} (h : n < (find s).length) : (find s)[n] ∉ (find s).take n := by
  have hnodup : ((find s).take n ++ [(find s)[n]]).Nodup := by
    rw [← List.take_succ_eq_append_getElem h]
    exact (nodup_eraseDups _).sublist (List.take_sublist _ _)
  exact fun hmem => (List.nodup_append.1 hnodup).2.2 _ hmem _ List.mem_cons_self rfl

theorem afterRounds_succ {n : Nat} (h : n < (find s).length) :
    afterRounds values unset s (n + 1) =
      replacePlaceholder values unset (afterRounds values unset s n) (find s)[n] := by
  unfold afterRounds
  rw [List.take_succ_eq_append_getElem h, List.foldl_concat]

theorem renderFirst_succ {n : Nat} (h : n < (find s).length) :
    renderFirst values unset s (n + 1) =
      render (Function.update (only ((find s).take n) (replacement? values unset)) (find s)[n]
        (replacement? values unset (find s)[n])) s := by
  unfold renderFirst
  rw [List.take_succ_eq_append_getElem h, only_concat]

theorem round_iff {n : Nat} (h : n < (find s).length) :
    replacePlaceholder values unset (renderFirst values unset s n) (find s)[n] =
        renderFirst values unset s (n + 1) ↔
      ∀ v ∈ replacement? values unset (find s)[n],
        v = (find s)[n].text ∨
          occurrences (find s)[n].text.toList (renderFirst values unset s n).toList =
            (pieces s).count (.hole (find s)[n]) := by
  have hnone : only ((find s).take n) (replacement? values unset) (find s)[n] = none :=
    only_of_not_mem (not_mem_take h)
  rw [renderFirst_succ h]
  cases hr : replacement? values unset (find s)[n] with
  | none =>
    have hsame := Function.update_eq_self (find s)[n]
      (only ((find s).take n) (replacement? values unset))
    rw [hnone] at hsame
    rw [replacePlaceholder_of_none hr, hsame]
    simp [renderFirst]
  | some v =>
    rw [replacePlaceholder_of_some hr]
    simpa [renderFirst] using replaceText_render_iff (List.getElem_mem h) hnone

theorem afterRounds_zero : afterRounds values unset s 0 = renderFirst values unset s 0 := by
  unfold afterRounds renderFirst
  rw [List.take_zero, only_nil, render_none]
  rfl

theorem afterRounds_eq (h : Undisturbed values unset s) {n : Nat} (hn : n ≤ (find s).length) :
    afterRounds values unset s n = renderFirst values unset s n := by
  induction n with
  | zero => exact afterRounds_zero
  | succ n ih => rw [afterRounds_succ hn, ih (Nat.le_of_succ_le hn), (round_iff hn).2 (h n hn)]

theorem undisturbed_of_afterRounds
    (h : ∀ n ≤ (find s).length, afterRounds values unset s n = renderFirst values unset s n) :
    Undisturbed values unset s := by
  intro n hn
  rw [← round_iff hn, ← h n (Nat.le_of_lt hn), ← afterRounds_succ hn, h (n + 1) hn]

theorem fillString_of_undisturbed (hs : whole? s = none) (h : Undisturbed values unset s) :
    fillString values unset s = some (render (replacement? values unset) s) := by
  have hall := afterRounds_eq h (Nat.le_refl _)
  unfold afterRounds renderFirst at hall
  rw [List.take_length] at hall
  unfold fillString
  rw [hs]
  dsimp only
  rw [hall]
  exact congrArg some (render_congr fun p hp => if_pos hp)

theorem BraceFreeValues.replacement? (hvalues : BraceFreeValues values)
    (h : replacement? values unset p = some v) : BraceFree v := by
  unfold Template.replacement? at h
  cases hvalue : values.get? p.name with
  | some value =>
    rw [hvalue] at h
    cases h
    exact hvalues.get? hvalue
  | none =>
    rw [hvalue] at h
    cases unset with
    | keep => cases h
    | remove =>
      cases h
      exact nofun

theorem undisturbed_of_covered (hvalues : BraceFreeValues values) (hs : Covered s) :
    Undisturbed values unset s := by
  intro n hn v _
  have hat := (spells_of_mem (mem_find_iff.1 (List.getElem_mem hn))).placeholderAt?_text
  have hfree : ∀ p v, only ((find s).take n) (replacement? values unset) p = some v →
      BraceFree v := by
    intro p v hv
    unfold only at hv
    split at hv
    · exact hvalues.replacement? hv
    · cases hv
  have hpieces := pieces_render hfree hs
  refine .inr ?_
  unfold renderFirst
  rw [occurrences_eq_count hat, ← pieces, hpieces, count_given (only_of_not_mem (not_mem_take hn))]

/-- A text that is no placeholder as a whole is filled round by round. The rounds keep to what is
done at one go exactly if they are not disturbed, and then the outcome is the text rendered at one
go; values without braces disturb no template whose braces all lie in placeholders. -/
theorem fill_simultaneous_iff (values : Dictionary) (unset : Unset) {s : String}
    (h : whole? s = none) :
    fill values unset (.string s) =
        some (.string (afterRounds values unset s (find s).length)) ∧
      ((∀ n ≤ (find s).length, afterRounds values unset s n = renderFirst values unset s n) ↔
        Undisturbed values unset s) ∧
      (Undisturbed values unset s →
        fill values unset (.string s) =
          some (.string (render (replacement? values unset) s))) ∧
      (BraceFreeValues values → Covered s → Undisturbed values unset s) := by
  refine ⟨?_, ⟨undisturbed_of_afterRounds, fun hrounds n hn => afterRounds_eq hrounds hn⟩,
    fun hrounds => ?_, undisturbed_of_covered⟩
  · rw [fill, fillString, h, afterRounds, List.take_length]
    rfl
  · rw [fill, fillString_of_undisturbed h hrounds]
    rfl

def hostValues : Dictionary :=
  .ofList [("host", "\x7b\x7b user \x7d\x7d.local"), ("user", "etl")]

def userAtHost : String :=
  "\x7b\x7b user \x7d\x7d@\x7b\x7bhost\x7d\x7d"

def hostForUser : String :=
  "\x7b\x7bhost\x7d\x7d:\x7b\x7b user \x7d\x7d"

theorem fill_simultaneous_user :
    whole? userAtHost = none ∧ Undisturbed hostValues .keep userAtHost ∧
      fill hostValues .keep (.string userAtHost) =
        some (.string "etl@\x7b\x7b user \x7d\x7d.local") := by
  have hwhole : whole? userAtHost = none := by decide +kernel
  have hrounds : Undisturbed hostValues .keep userAtHost := by decide +kernel
  have hrender : render (replacement? hostValues .keep) userAtHost =
      "etl@\x7b\x7b user \x7d\x7d.local" := by decide +kernel
  have hfill := (fill_simultaneous_iff hostValues .keep hwhole).2.2.1 hrounds
  rw [hrender] at hfill
  exact ⟨hwhole, hrounds, hfill⟩

/-- Here what the value brings in is replaced as well. -/
theorem fill_replaces_again :
    whole? hostForUser = none ∧
      fill hostValues .keep (.string hostForUser) = some (.string "etl.local:etl") ∧
      render (replacement? hostValues .keep) hostForUser =
        "\x7b\x7b user \x7d\x7d.local:etl" := by
  have hfill : fillString hostValues .keep hostForUser = some "etl.local:etl" := by decide +kernel
  refine ⟨by decide +kernel, ?_, by decide +kernel⟩
  rw [fill, hfill]
  rfl

end Scaffold.Template
