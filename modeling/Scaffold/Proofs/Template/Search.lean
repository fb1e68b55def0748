import Scaffold.Proofs.Template.Occurrence

/-!
# What is found in a text

The placeholders that `find` lists are those that stand somewhere in the text, wherever that is and
whatever stands around them (`mem_find_iff_spells`), and they are listed in the order of the places
where they first stand (`pairwise_find`).
-/

namespace Scaffold.Template

open Scaffold.Text

variable {p q : Placeholder}

theorem mem_find_iff_spells {s : String} :
    p ∈ find s ↔ p.text.toList <:+: s.toList ∧ Spells p.text p.name := by
  have hcount (hp : placeholderAt? p.text.toList = some p) :
      p.text.toList <:+: s.toList ↔ .hole p ∈ pieces s := by
    rw [← occurrences_pos_iff (text_ne_nil hp), occurrences_eq_count hp, List.count_pos_iff, pieces]
  rw [mem_find_iff]
  constructor
  · intro h
    have hspells := spells_of_mem h
    exact ⟨(hcount hspells.placeholderAt?_text).2 h, hspells⟩
  · rintro ⟨hstands, hspells⟩
    exact (hcount hspells.placeholderAt?_text).1 hstands

/-! ## In order -/

/-- `p` first stands in `s` before `q` does. -/
def StandsBefore (s : List Char) (p q : Placeholder) : Prop :=
  firstPosition p.text.toList s < firstPosition q.text.toList s

theorem StandsBefore.shift {s t : List Char} {n : Nat}
    (hp : firstPosition p.text.toList t = n + firstPosition p.text.toList s)
    (hq : firstPosition q.text.toList t = n + firstPosition q.text.toList s)
    (h : StandsBefore s p q) : StandsBefore t p q := by
  unfold StandsBefore at h ⊢
  omega

theorem firstPosition_text_append (hp : placeholderAt? p.text.toList = some p)
    (hq : placeholderAt? q.text.toList = some q) (hne : q ≠ p) (s : List Char) :
    firstPosition p.text.toList (q.text.toList ++ s) =
      q.text.toList.length + firstPosition p.text.toList s :=
  firstPosition_append_of_not fun _ _ hxy hy => isPrefixOf_within hp hq hne hxy hy s

/-- The placeholders from here on of which `keep` holds, in the order in which they first occur. -/
def kept (keep : Placeholder → Bool) (s : List Char) : List Placeholder :=
  (((piecesFrom 0 s).filterMap Piece.hole?).filter keep).eraseDups

theorem mem_kept {keep : Placeholder → Bool} {s : List Char} (h : p ∈ kept keep s) :
    placeholderAt? p.text.toList = some p ∧ keep p = true := by
  unfold kept at h
  rw [List.mem_eraseDups, List.mem_filter, List.mem_filterMap] at h
  obtain ⟨⟨x, hx, hxp⟩, hkeep⟩ := h
  cases x with
  | char c => cases hxp
  | hole q =>
    cases hxp
    exact ⟨(spells_of_mem hx).placeholderAt?_text, hkeep⟩

theorem kept_text (hq : placeholderAt? q.text.toList = some q) (keep : Placeholder → Bool)
    (s : List Char) :
    kept keep (q.text.toList ++ s) =
      if keep q then q :: kept (fun p => !p == q && keep p) s else kept keep s := by
  unfold kept
  rw [piecesFrom_text hq, List.filterMap_cons_some (f := Piece.hole?) (b := q) rfl]
  split
  · rename_i hkeep
    rw [List.filter_cons_of_pos hkeep, List.eraseDups_cons, List.filter_filter]
  · rename_i hkeep
    rw [List.filter_cons_of_neg hkeep]

/-- The order is that of first places, also when some placeholders are left out. -/
theorem pairwise_kept (keep : Placeholder → Bool) (s : List Char) :
    (kept keep s).Pairwise (StandsBefore s) := by
  induction s using pieces_induction generalizing keep with
  | nil => exact .nil
  | hole q s hq ih =>
    -- what is listed behind `q`, or without it, stands behind this place of `q`
    have hlater {keep : Placeholder → Bool} (hkeep : keep q = false) :
        ∀ p ∈ kept keep s, firstPosition p.text.toList (q.text.toList ++ s) =
          q.text.toList.length + firstPosition p.text.toList s := by
      intro p hp
      obtain ⟨hat, hkept⟩ := mem_kept hp
      refine firstPosition_text_append hat hq ?_ s
      rintro rfl
      exact Bool.false_ne_true (hkeep.symm.trans hkept)
    have hshift {keep : Placeholder → Bool} (hkeep : keep q = false) :
        (kept keep s).Pairwise (StandsBefore (q.text.toList ++ s)) :=
      (ih keep).imp_of_mem fun ha hb => (·.shift (hlater hkeep _ ha) (hlater hkeep _ hb))
    rw [kept_text hq]
    split
    · have hnot : (!q == q && keep q) = false := by simp
      refine List.pairwise_cons.2 ⟨fun p hp => ?_, hshift hnot⟩
      have hpos := List.length_pos_of_ne_nil (text_ne_nil hq)
      unfold StandsBefore
      rw [firstPosition_old_append, hlater hnot p hp]
      omega
    · rename_i hkeep
      exact hshift (Bool.eq_false_iff.2 hkeep)
  | char c s hat ih =>
    have hsame : kept keep (c :: s) = kept keep s := by
      unfold kept
      rw [piecesFrom_char hat, List.filterMap_cons_none (f := Piece.hole?) rfl]
    rw [hsame]
    have hnext : ∀ p ∈ kept keep s, firstPosition p.text.toList (c :: s) =
        1 + firstPosition p.text.toList s := fun p hp =>
      firstPosition_cons_of_not (isPrefixOf_of_placeholderAt?_eq_none (mem_kept hp).1 hat)
    exact (ih keep).imp_of_mem fun ha hb => (·.shift (hnext _ ha) (hnext _ hb))

theorem pairwise_find (s : String) : (find s).Pairwise (StandsBefore s.toList) := by
  have hall : find s = kept (fun _ => true) s.toList := by
    unfold find kept pieces
    rw [List.filter_true]
  rw [hall]
  exact pairwise_kept _ _

/-- What is found in a text is exact: the placeholders that stand anywhere in it, none twice, in
the order of their first places. -/
theorem find_exact (s : String) :
    (∀ p : Placeholder,
      p ∈ find s ↔ p.text.toList <:+: s.toList ∧ Spells p.text p.name) ∧
    (find s).Nodup ∧
    (find s).Pairwise fun p q =>
      firstPosition p.text.toList s.toList < firstPosition q.text.toList s.toList := by
  refine ⟨fun p => mem_find_iff_spells, (pairwise_find s).imp ?_, pairwise_find s⟩
  rintro p q hbefore rfl
  exact Nat.lt_irrefl _ hbefore

/-- A third brace belongs to no placeholder, and blanks tell two spellings of a name apart. -/
example : find "\x7b\x7b\x7b a \x7d\x7d\x7d\x7b\x7b \x7b\x7ba\x7d\x7d\x7b\x7b a \x7d\x7d" =
    [⟨"\x7b\x7b a \x7d\x7d", "a"⟩, ⟨"\x7b\x7ba\x7d\x7d", "a"⟩] := by
  decide +kernel

end Scaffold.Template
