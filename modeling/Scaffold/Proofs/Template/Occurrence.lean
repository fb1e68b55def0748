import Scaffold.Proofs.Template.Replacement

/-!
# Where a placeholder stands

The text of a placeholder overlaps neither itself nor another placeholder. So it stands in a text
just where the pieces of the text have it (`occurrences_eq_count`). What is said of a text can be
proved piece by piece (`pieces_induction`).
-/

namespace Scaffold.Template

open Scaffold.Text

variable {p : Placeholder}

/-- The text of a placeholder begins with two braces and has no other of their kind. -/
theorem unbordered_text {s : List Char} (hp : placeholderAt? s = some p) :
    Unbordered p.text.toList := by
  obtain ⟨inner, htext, hinner⟩ := text_eq_of_placeholderAt? hp
  have hno := not_mem_of_braceFree hinner
  have hlong : inner ++ ['\x7d', '\x7d'] ≠ [] := by simp
  rw [htext]
  generalize inner ++ ['\x7d', '\x7d'] = rest at hno hlong
  obtain ⟨d, rest, rfl⟩ := List.exists_cons_of_ne_nil hlong
  refine ⟨List.cons_ne_nil _ _, fun {a b c} hleft hright ha => ?_⟩
  by_contra hb
  obtain ⟨x, a, rfl⟩ := List.exists_cons_of_ne_nil ha
  obtain ⟨y, b, rfl⟩ := List.exists_cons_of_ne_nil hb
  obtain rfl := (List.cons.inj hright).1
  have hleft := (List.cons.inj hleft).2
  refine hno ?_
  cases a with
  | nil =>
    -- the end would begin with the second brace, and the text with three
    obtain rfl := (List.cons.inj hleft).2
    exact (List.cons.inj (List.cons.inj hright).2).1 ▸ List.mem_cons_self
  | cons x a =>
    rw [(List.cons.inj hleft).2]
    simp

/-! ## Reading a text -/

theorem piecesFrom_char {c : Char} {s : List Char} (h : placeholderAt? (c :: s) = none) :
    piecesFrom 0 (c :: s) = .char c :: piecesFrom 0 s := by
  rw [piecesFrom, h]

theorem isPrefixOf_of_placeholderAt?_eq_none {s : List Char}
    (hp : placeholderAt? p.text.toList = some p) (h : placeholderAt? s = none) :
    p.text.toList.isPrefixOf s = false := by
  refine Bool.eq_false_iff.2 fun hpre => ?_
  obtain ⟨after, rfl⟩ := List.isPrefixOf_iff_prefix.1 hpre
  rw [(placeholderAt?_eq_some hp).2 after] at h
  cases h

/-- A text is read from the left as `pieces` reads it: past a placeholder as a whole, or else past
one character. -/
theorem pieces_induction {motive : List Char → Prop} (nil : motive [])
    (hole : ∀ p s, placeholderAt? p.text.toList = some p → motive s →
      motive (p.text.toList ++ s))
    (char : ∀ c s, placeholderAt? (c :: s) = none → motive s → motive (c :: s))
    (s : List Char) : motive s := by
  induction hn : s.length using Nat.strong_induction_on generalizing s with
  | _ n ih =>
    subst hn
    cases s with
    | nil => exact nil
    | cons c s =>
      cases hat : placeholderAt? (c :: s) with
      | none => exact char c s hat (ih s.length (by simp) s rfl)
      | some p =>
        obtain ⟨⟨after, hafter⟩, hspells⟩ := spells_of_placeholderAt? hat
        have hp := hspells.placeholderAt?_text
        have hpos := List.length_pos_of_ne_nil (text_ne_nil hp)
        have hlt : after.length < (c :: s).length := by
          rw [← hafter, List.length_append]
          omega
        rw [← hafter]
        exact hole p after hp (ih after.length hlt after rfl)

/-- In a text a placeholder stands nowhere but where it is found. -/
theorem occurrences_eq_count (hp : placeholderAt? p.text.toList = some p) (s : List Char) :
    occurrences p.text.toList s = (piecesFrom 0 s).count (.hole p) := by
  induction s using pieces_induction with
  | nil => rfl
  | hole q s hq ih =>
    rw [piecesFrom_text hq]
    by_cases hqp : q = p
    · subst hqp
      rw [(unbordered_text hq).occurrences_old_append, ih, List.count_cons_self, Nat.add_comm]
    · have hne : (Piece.hole q == .hole p) = false := by simpa using hqp
      rw [List.count_cons, hne, if_neg Bool.false_ne_true, Nat.add_zero, ← ih,
        occurrences_append_of_not]
      exact fun x y hxy hy => isPrefixOf_within hp hq hqp hxy hy s
  | char c s hat ih =>
    rw [piecesFrom_char hat,
      occurrences_cons_of_not (isPrefixOf_of_placeholderAt?_eq_none hp hat), ih]
    simp

end Scaffold.Template
