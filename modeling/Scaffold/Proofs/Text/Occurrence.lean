import Mathlib.Data.List.Infix
import Scaffold.Text.Replace

/-!
# Where a text stands in another

A text none of whose ends is a beginning of it never overlaps itself (`Unbordered`). So each place
where it stands cuts a longer text in two that have nothing to do with each other, neither when its
occurrences are counted (`Unbordered.occurrences_append`) nor when they are replaced
(`Unbordered.replaceAll_append`). The first of these places is `firstPosition`.
-/

namespace Scaffold.Text

variable {old new a b s : List Char}

def occurrences (old : List Char) : List Char → Nat
  | [] => 0
  | c :: s => (if old.isPrefixOf (c :: s) then 1 else 0) + occurrences old s

/-- The number of characters before the first place where `old` stands; all, if there is none. -/
def firstPosition (old : List Char) : List Char → Nat
  | [] => 0
  | c :: s => if old.isPrefixOf (c :: s) then 0 else firstPosition old s + 1

/-- What ends a text and begins it too is nothing or the text itself. -/
structure Unbordered (old : List Char) : Prop where
  ne_nil : old ≠ []
  eq_nil : ∀ {a b c : List Char}, old = a ++ b → old = b ++ c → a ≠ [] → b = []

/-! ## Replacing -/

@[simp] theorem replaceAll_nil (old new : List Char) : replaceAll old new [] = [] := rfl

theorem replaceFrom_length_append (old new a s : List Char) :
    replaceFrom old new a.length (a ++ s) = replaceFrom old new 0 s := by
  induction a with
  | nil => rfl
  | cons c a ih => exact ih

theorem replaceAll_old_append (hne : old ≠ []) (new s : List Char) :
    replaceAll old new (old ++ s) = new ++ replaceAll old new s := by
  cases old with
  | nil => exact absurd rfl hne
  | cons c old =>
    have hpre : (c :: old).isPrefixOf (c :: (old ++ s)) = true :=
      List.isPrefixOf_iff_prefix.2 (List.prefix_append (c :: old) s)
    rw [replaceAll, List.cons_append, replaceFrom, if_pos hpre, List.length_cons,
      Nat.add_sub_cancel, replaceFrom_length_append, replaceAll]

theorem replaceAll_cons {c : Char} (hc : old.isPrefixOf (c :: s) = false) (new : List Char) :
    replaceAll old new (c :: s) = c :: replaceAll old new s := by
  rw [replaceAll, replaceFrom, hc, if_neg Bool.false_ne_true, replaceAll]

theorem replaceAll_append_of_not (new : List Char)
    (h : ∀ x y, a = x ++ y → y ≠ [] → old.isPrefixOf (y ++ s) = false) :
    replaceAll old new (a ++ s) = a ++ replaceAll old new s := by
  induction a with
  | nil => rfl
  | cons c a ih =>
    have hc := h [] (c :: a) rfl (List.cons_ne_nil c a)
    rw [List.cons_append] at hc ⊢
    rw [replaceAll_cons hc, List.cons_append,
      ih fun x y hxy hy => h (c :: x) y (congrArg (c :: ·) hxy) hy]

/-- A text is read from the left as `replaceAll` reads it: past an occurrence as a whole, or else
past one character. -/
theorem cut_induction {motive : List Char → Prop} (hne : old ≠ []) (nil : motive [])
    (old_append : ∀ s, motive s → motive (old ++ s))
    (cons : ∀ c s, old.isPrefixOf (c :: s) = false → motive s → motive (c :: s))
    (s : List Char) : motive s := by
  induction hn : s.length using Nat.strong_induction_on generalizing s with
  | _ n ih =>
    subst hn
    cases s with
    | nil => exact nil
    | cons c s =>
      cases hc : old.isPrefixOf (c :: s) with
      | false => exact cons c s hc (ih s.length (by simp) s rfl)
      | true =>
        obtain ⟨t, ht⟩ := List.isPrefixOf_iff_prefix.1 hc
        have hpos := List.length_pos_of_ne_nil hne
        have hlt : t.length < (c :: s).length := by
          rw [← ht, List.length_append]
          omega
        rw [← ht]
        exact old_append t (ih t.length hlt t rfl)

/-! ## Counting -/

theorem occurrences_cons_of_not {c : Char} (hc : old.isPrefixOf (c :: s) = false) :
    occurrences old (c :: s) = occurrences old s := by
  rw [occurrences, hc, if_neg Bool.false_ne_true, Nat.zero_add]

theorem occurrences_append_of_not
    (h : ∀ x y, a = x ++ y → y ≠ [] → old.isPrefixOf (y ++ s) = false) :
    occurrences old (a ++ s) = occurrences old s := by
  induction a with
  | nil => rfl
  | cons c a ih =>
    have hc := h [] (c :: a) rfl (List.cons_ne_nil c a)
    rw [List.cons_append] at hc ⊢
    rw [occurrences_cons_of_not hc]
    exact ih fun x y hxy hy => h (c :: x) y (congrArg (c :: ·) hxy) hy

theorem occurrences_pos_iff (hne : old ≠ []) : 0 < occurrences old s ↔ old <:+: s := by
  induction s with
  | nil => simp [occurrences, hne]
  | cons c s ih =>
    rw [occurrences, List.infix_cons_iff, ← ih, ← List.isPrefixOf_iff_prefix]
    cases old.isPrefixOf (c :: s) with
    | true => exact iff_of_true (by rw [if_pos rfl]; omega) (.inl rfl)
    | false => simp

/-! ## The first place -/

theorem firstPosition_cons_of_not {c : Char} (hc : old.isPrefixOf (c :: s) = false) :
    firstPosition old (c :: s) = 1 + firstPosition old s := by
  rw [firstPosition, hc, if_neg Bool.false_ne_true, Nat.add_comm]

theorem firstPosition_old_append (old s : List Char) : firstPosition old (old ++ s) = 0 := by
  have hpre : old.isPrefixOf (old ++ s) = true :=
    List.isPrefixOf_iff_prefix.2 (List.prefix_append old s)
  cases hwhole : old ++ s with
  | nil => rfl
  | cons c rest => rw [firstPosition, ← hwhole, if_pos hpre]

theorem firstPosition_append_of_not
    (h : ∀ x y, a = x ++ y → y ≠ [] → old.isPrefixOf (y ++ s) = false) :
    firstPosition old (a ++ s) = a.length + firstPosition old s := by
  induction a with
  | nil => exact (Nat.zero_add _).symm
  | cons c a ih =>
    have hc := h [] (c :: a) rfl (List.cons_ne_nil c a)
    rw [List.cons_append] at hc ⊢
    rw [firstPosition_cons_of_not hc,
      ih fun x y hxy hy => h (c :: x) y (congrArg (c :: ·) hxy) hy, List.length_cons]
    omega

namespace Unbordered

variable (h : Unbordered old)

include h

/-- Where `old` stands, no occurrence from further left reaches. -/
theorem isPrefixOf_append (ha : a ≠ []) (b : List Char) :
    old.isPrefixOf (a ++ (old ++ b)) = old.isPrefixOf a := by
  rw [Bool.eq_iff_iff, List.isPrefixOf_iff_prefix, List.isPrefixOf_iff_prefix]
  refine ⟨fun hpre => ?_, fun hpre => hpre.trans (List.prefix_append a _)⟩
  rcases Nat.le_total old.length a.length with hle | hle
  · exact List.prefix_of_prefix_length_le hpre (List.prefix_append a _) hle
  · -- what sticks out of `a` would end `old` and begin it
    obtain ⟨x, hx⟩ := List.prefix_of_prefix_length_le (List.prefix_append a _) hpre hle
    obtain ⟨t, ht⟩ := hpre
    have hxt : x ++ t = old ++ b := by
      rw [← List.append_cancel_left_eq a, ← ht, ← List.append_assoc, hx]
    have hlen : x.length ≤ old.length := by
      rw [← hx, List.length_append]
      omega
    obtain ⟨c, hc⟩ := List.prefix_of_prefix_length_le ⟨t, hxt⟩ (List.prefix_append old b) hlen
    obtain rfl := h.eq_nil hx.symm hc.symm ha
    rw [List.append_nil] at hx
    rw [hx]

theorem replaceAll_append (new a b : List Char) :
    replaceAll old new (a ++ (old ++ b)) =
      replaceAll old new a ++ (new ++ replaceAll old new b) := by
  induction a using cut_induction h.ne_nil with
  | nil => exact replaceAll_old_append h.ne_nil new b
  | old_append a ih =>
    rw [List.append_assoc, replaceAll_old_append h.ne_nil, replaceAll_old_append h.ne_nil, ih,
      List.append_assoc]
  | cons c a hc ih =>
    have hwhole := h.isPrefixOf_append (List.cons_ne_nil c a) b
    rw [hc, List.cons_append] at hwhole
    rw [List.cons_append, replaceAll_cons hwhole, replaceAll_cons hc, ih, List.cons_append]

theorem occurrences_old_append (s : List Char) :
    occurrences old (old ++ s) = 1 + occurrences old s := by
  have hpre : old.isPrefixOf (old ++ s) = true :=
    List.isPrefixOf_iff_prefix.2 (List.prefix_append old s)
  cases old with
  | nil => exact absurd rfl h.ne_nil
  | cons c rest =>
    rw [List.cons_append] at hpre ⊢
    rw [occurrences, hpre, if_pos rfl, occurrences_append_of_not]
    intro x y hxy hy
    refine Bool.eq_false_iff.2 fun hstart => hy ?_
    have hlen : y.length ≤ (c :: rest).length := by
      rw [hxy, List.length_cons, List.length_append]
      omega
    obtain ⟨z, hz⟩ := List.prefix_of_prefix_length_le (List.prefix_append y s)
      (List.isPrefixOf_iff_prefix.1 hstart) hlen
    rw [hxy] at h hz
    exact h.eq_nil (a := c :: x) rfl hz.symm (List.cons_ne_nil c x)

theorem occurrences_append (a b : List Char) :
    occurrences old (a ++ (old ++ b)) = occurrences old a + (1 + occurrences old b) := by
  induction a with
  | nil => rw [List.nil_append, h.occurrences_old_append, occurrences, Nat.zero_add]
  | cons c a ih =>
    have hstart := h.isPrefixOf_append (List.cons_ne_nil c a) b
    rw [List.cons_append] at hstart ⊢
    rw [occurrences, hstart, ih, occurrences, Nat.add_assoc]

theorem length_replaceAll (new s : List Char) :
    (replaceAll old new s).length + occurrences old s * old.length =
      s.length + occurrences old s * new.length := by
  induction s using cut_induction h.ne_nil with
  | nil => simp [occurrences]
  | old_append s ih =>
    rw [replaceAll_old_append h.ne_nil, h.occurrences_old_append, List.length_append,
      List.length_append, Nat.add_mul, Nat.add_mul]
    omega
  | cons c s hc ih =>
    rw [replaceAll_cons hc, occurrences_cons_of_not hc, List.length_cons, List.length_cons]
    omega

theorem replaceAll_of_occurrences_eq_zero (hs : occurrences old s = 0) (new : List Char) :
    replaceAll old new s = s := by
  induction s using cut_induction h.ne_nil with
  | nil => rfl
  | old_append s ih =>
    rw [h.occurrences_old_append] at hs
    omega
  | cons c s hc ih =>
    rw [occurrences_cons_of_not hc] at hs
    rw [replaceAll_cons hc, ih hs]

theorem replaceAll_self (s : List Char) : replaceAll old old s = s := by
  induction s using cut_induction h.ne_nil with
  | nil => rfl
  | old_append s ih => rw [replaceAll_old_append h.ne_nil, ih]
  | cons c s hc ih => rw [replaceAll_cons hc, ih]

/-- Another text of the same length makes a difference at every occurrence. -/
theorem occurrences_eq_zero_of_replaceAll (hlen : new.length = old.length) (hne : new ≠ old)
    (hs : replaceAll old new s = s) : occurrences old s = 0 := by
  induction s using cut_induction h.ne_nil with
  | nil => rfl
  | old_append s ih =>
    rw [replaceAll_old_append h.ne_nil] at hs
    exact absurd (List.append_inj hs hlen).1 hne
  | cons c s hc ih =>
    rw [replaceAll_cons hc] at hs
    rw [occurrences_cons_of_not hc]
    exact ih (List.cons.inj hs).2

end Unbordered

end Scaffold.Text
