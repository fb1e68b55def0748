import Mathlib.Data.Option.Basic
import Scaffold.Proofs.Yaml.Folding
import Scaffold.Yaml.Lexer

/-!
# Tags in a longer document

A tag ends in front of the end of its line, so what is behind the line does not count.
-/

namespace Scaffold.Yaml.Lexer

variable {d : Offset} {after : List Char}

theorem isBreak_of_octet? {a b : Char} {octet : UInt8} (h : octet? a b = some octet) :
    isBreak b = false := by
  by_contra hb
  rw [Bool.not_eq_false] at hb
  have hdigit : Number.digitValue? b = none := by
    rcases break_cases hb with rfl | rfl | rfl <;> decide
  have hnone : octet? a b = none := by
    unfold octet? Number.read?
    simp only [List.isEmpty_cons, Bool.false_eq_true, if_false, Number.readFrom?, hdigit]
    split
    · split <;> rfl
    · rfl
  rw [hnone] at h
  cases h

/-- A part of a tag ends at a character, fails there or takes it with its escape, whatever comes
behind the text. An escape ends in front of the text's end. -/
theorem tagFrom_cons_append {f : Char → Bool} (hf : StopsAtBreaks f) {due : Nat} {acc : List UInt8}
    {c : Char} {s : List Char} {pos : Position} (he : Ended (c :: s)) (d : Offset)
    (after : List Char) :
    (tagFrom f 0 due acc (c :: s) pos = some (acc.reverse, ⟨c :: s, pos⟩) ∧
      tagFrom f 0 due acc (c :: (s ++ after)) (pos.moved d) =
        some (acc.reverse, ⟨c :: (s ++ after), pos.moved d⟩)) ∨
      tagFrom f 0 due acc (c :: s) pos = none ∨
      ∃ skip due' acc', skip < s.length ∧
        tagFrom f 0 due acc (c :: s) pos = tagFrom f skip due' acc' s (pos.after c) ∧
        tagFrom f 0 due acc (c :: (s ++ after)) (pos.moved d) =
          tagFrom f skip due' acc' (s ++ after) ((pos.after c).moved d) := by
  rw [tagFrom.eq_def f 0 due acc (c :: s), tagFrom.eq_def f 0 due acc (c :: (s ++ after))]
  dsimp only
  rw [Position.after_moved]
  split
  · match s with
    | [] => exact .inr (.inl rfl)
    | [x] => exact .inr (.inl rfl)
    | a :: b :: rest =>
      dsimp only [List.cons_append]
      split
      · rename_i octet hoctet
        have hlast := List.length_pos_iff.2 (he.tail.tail.ne_nil (isBreak_of_octet? hoctet))
        have hlength : 2 < (a :: b :: rest).length := by simpa using hlast
        split
        · split
          · exact .inr (.inr ⟨2, _, _, hlength, rfl, rfl⟩)
          · exact .inr (.inl rfl)
        · split
          · exact .inr (.inr ⟨2, _, _, hlength, rfl, rfl⟩)
          · exact .inr (.inl rfl)
      · exact .inr (.inl rfl)
  split
  · exact .inr (.inl rfl)
  split
  · rename_i hc
    have hbreak : isBreak c = false := by
      by_contra hb
      rw [Bool.not_eq_false] at hb
      rw [hf c hb] at hc
      cases hc
    exact .inr (.inr ⟨0, _, _, List.length_pos_iff.2 (he.ne_nil hbreak), rfl, rfl⟩)
  · exact .inl ⟨rfl, rfl⟩

theorem tagFrom_amid {f : Char → Bool} (hf : StopsAtBreaks f) {skip due : Nat} {acc : List UInt8}
    {s : List Char} {pos : Position} {octets : List UInt8} {c' : Cursor}
    (h : tagFrom f skip due acc s pos = some (octets, c')) (he : Ended s)
    (hskip : skip < s.length) :
    tagFrom f skip due acc (s ++ after) (pos.moved d) = some (octets, c'.amid d after) ∧
      Ended c'.rest ∧ c'.rest ≠ [] := by
  induction s generalizing skip due acc pos with
  | nil => simp at hskip
  | cons c s ih =>
    rw [List.cons_append]
    cases skip with
    | succ skip =>
      rw [tagFrom] at h
      rw [tagFrom, Position.after_moved]
      exact ih h he.tail (by simpa using hskip)
    | zero =>
      obtain ⟨hends, hends'⟩ | hfail | ⟨skip, due', acc', hlength, htake, htake'⟩ :=
        tagFrom_cons_append hf he d after
      · rw [hends] at h
        cases h
        exact ⟨hends', he, List.cons_ne_nil c s⟩
      · rw [hfail] at h
        cases h
      · rw [htake] at h
        rw [htake']
        exact ih h he.tail hlength

theorem tagPart?_amid (d : Offset) (after : List Char) {f : Char → Bool} (hf : StopsAtBreaks f)
    {c c' : Cursor} {octets : List UInt8} (h : tagPart? f c = some (octets, c')) (he : Ended c.rest)
    (hc : c.rest ≠ []) :
    tagPart? f (c.amid d after) = some (octets, c'.amid d after) ∧ Ended c'.rest ∧
      c'.rest ≠ [] := by
  obtain ⟨⟨part, behind⟩, hpart, heq⟩ := Option.map_eq_some_iff.1 h
  cases heq
  obtain ⟨hmoved, hrest⟩ := tagFrom_amid hf hpart he (List.length_pos_iff.2 hc)
  exact ⟨Option.map_eq_some_iff.2 ⟨_, hmoved, rfl⟩, hrest⟩

theorem nonemptyPart?_amid (d : Offset) (after : List Char) {f : Char → Bool}
    (hf : StopsAtBreaks f) {c c' : Cursor} {octets : List UInt8}
    (h : nonemptyPart? f c = some (octets, c')) (he : Ended c.rest)
    (hc : c.rest ≠ []) :
    nonemptyPart? f (c.amid d after) = some (octets, c'.amid d after) ∧ Ended c'.rest ∧
      c'.rest ≠ [] := by
  obtain ⟨⟨part, behind⟩, hpart, h₁⟩ := Option.bind_eq_some_iff.1 h
  obtain ⟨hmoved, hrest⟩ := tagPart?_amid d after hf hpart he hc
  dsimp only at h₁
  split at h₁
  · cases h₁
  rename_i hindex
  cases h₁
  refine ⟨Option.bind_eq_some_iff.2 ⟨_, hmoved, ?_⟩, hrest⟩
  simpa [Position.moved] using hindex

theorem isNameChar_break : StopsAtBreaks isNameChar := by
  intro c hc
  rcases break_cases hc with rfl | rfl | rfl <;> decide

theorem handle?_amid (d : Offset) (after : List Char) {c c' : Cursor} {handle : List Char}
    (h : handle? c = some (handle, c')) (he : Ended c.rest) :
    handle? (c.amid d after) = some (handle, c'.amid d after) ∧ Ended c'.rest ∧
      c'.rest ≠ [] := by
  unfold handle? at h ⊢
  split at h
  · rename_i hmark
    rw [beq_iff_eq] at hmark
    have hne : c.rest ≠ [] := by
      intro hnil
      rw [hnil] at hmark
      cases hmark
    have hnext : c.next.rest ≠ [] := Cursor.next_ne_nil_of_head hmark (by decide) he
    have hname : (c.next.pass isNameChar).rest ≠ [] :=
      Cursor.pass_rest_ne_nil isNameChar_break (Cursor.ended_next he) hnext
    have hended : Ended (c.next.pass isNameChar).rest :=
      Cursor.ended_pass isNameChar (Cursor.ended_next he)
    rw [Cursor.rest_amid, head?_append hne, hmark, if_pos (by simp), Cursor.next_amid hne,
      Cursor.run_amid hname, Cursor.pass_amid hname]
    dsimp only at h ⊢
    rw [Cursor.rest_amid, head?_append hname]
    split at h
    · rename_i hsecond
      cases h
      rw [if_pos hsecond, Cursor.next_amid hname]
      exact ⟨rfl, Cursor.ended_next hended,
        Cursor.next_ne_nil_of_head (beq_iff_eq.1 hsecond) (by decide) hended⟩
    · rename_i hsecond
      cases h
      rw [if_neg hsecond]
      exact ⟨rfl, hended, hname⟩
  · cases h

theorem isShortTagChar_break : StopsAtBreaks isShortTagChar := by
  intro c hc
  rcases break_cases hc with rfl | rfl | rfl <;> decide

theorem isLongTagChar_break : StopsAtBreaks isLongTagChar := by
  intro c hc
  rcases break_cases hc with rfl | rfl | rfl <;> decide

theorem tag?_amid (d : Offset) (after : List Char) {c c' : Cursor} {t : Token}
    (h : tag? c = some (t, c')) (he : Ended c.rest) (hc : 1 < c.rest.length) :
    tag? (c.amid d after) = some (t, c'.amid d after) ∧ Ended c'.rest ∧ c'.rest ≠ [] := by
  have hne : c.rest ≠ [] := List.length_pos_iff.1 (by omega)
  have hdrop : c.next.rest = c.rest.drop 1 := by
    rw [← Cursor.rest_skip]
    rfl
  have hnext : c.next.rest ≠ [] := by
    rw [hdrop, ne_eq, List.drop_eq_nil_iff]
    omega
  unfold tag? at h ⊢
  rw [Cursor.next_amid hne, Cursor.rest_amid, head?_append hnext]
  split at h
  · rename_i hangle
    rw [if_pos hangle, Cursor.skip_amid (by omega)]
    have hended : Ended (c.skip 2).rest := by
      rw [Cursor.rest_skip]
      exact he.drop 2
    have hrest : (c.skip 2).rest ≠ [] :=
      Cursor.next_ne_nil_of_head (c := c.next) (beq_iff_eq.1 hangle) (by decide)
        (Cursor.ended_next he)
    obtain ⟨⟨suffix, behind⟩, hpart, h₁⟩ := Option.bind_eq_some_iff.1 h
    obtain ⟨hmoved, he', hne'⟩ :=
      nonemptyPart?_amid d after isLongTagChar_break hpart hended hrest
    obtain ⟨⟨⟩, hguard, h₂⟩ := Option.bind_eq_some_iff.1 h₁
    cases h₂
    have hclose : behind.rest.head? = some '>' := by
      by_contra hno
      simp [guard, hno] at hguard
    refine ⟨Option.bind_eq_some_iff.2 ⟨_, hmoved, ?_⟩, Cursor.ended_next he',
      Cursor.next_ne_nil_of_head hclose (by decide) he'⟩
    simp [head?_append hne', hclose, Cursor.next_amid hne', guard]
  · rename_i hangle
    rw [if_neg hangle]
    obtain ⟨⟨handle, behind⟩, hhandle, h₁⟩ := Option.bind_eq_some_iff.1 h
    obtain ⟨hmoved, he', hne'⟩ := handle?_amid d after hhandle he
    have hshort := isShortTagChar_break
    rw [hmoved]
    dsimp only [Option.bind_eq_bind, Option.bind_some] at h₁ ⊢
    split at h₁
    · rename_i htwo
      rw [if_pos htwo]
      obtain ⟨⟨suffix, end'⟩, hpart, h₂⟩ := Option.bind_eq_some_iff.1 h₁
      cases h₂
      obtain ⟨hmoved', hrest⟩ := nonemptyPart?_amid d after hshort hpart he' hne'
      exact ⟨Option.bind_eq_some_iff.2 ⟨_, hmoved', rfl⟩, hrest⟩
    · rename_i htwo
      rw [if_neg htwo]
      obtain ⟨⟨suffix, end'⟩, hpart, h₂⟩ := Option.bind_eq_some_iff.1 h₁
      cases h₂
      obtain ⟨hmoved', hrest⟩ := tagPart?_amid d after hshort hpart he' hne'
      exact ⟨Option.bind_eq_some_iff.2 ⟨_, hmoved', rfl⟩, hrest⟩

end Scaffold.Yaml.Lexer
