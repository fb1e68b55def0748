import Scaffold.Proofs.Text.Scan
import Scaffold.Template.Placeholder

/-!
# How a placeholder is spelled

`Spells` says which texts are placeholders, and of which names, without reading them: two braces,
blanks, a name, blanks, two braces. No character is of two of these kinds, so such a text can be
read in one way only, and `placeholderAt?` finds a placeholder just where one is spelled
(`placeholderAt?_iff`).
-/

namespace Scaffold.Template

open Scaffold.Text

/-- `text` is a placeholder whose name is `name`. -/
def Spells (text name : String) : Prop :=
  ∃ left right : List Char,
    text.toList = '\x7b' :: '\x7b' :: (left ++ (name.toList ++ (right ++ ['\x7d', '\x7d']))) ∧
      (∀ c ∈ left, isBlank c = true) ∧ (∀ c ∈ right, isBlank c = true) ∧
      name ≠ "" ∧ ∀ c ∈ name.toList, isNameChar c = true

/-! ## Kinds of characters -/

theorem isNameChar_of_isBlank {c : Char} (h : isBlank c = true) : isNameChar c = false := by
  have hblanks : ∀ n ∈ [0x20, 0x85, 0xA0, 0x1680, 0x2028, 0x2029, 0x202F, 0x205F, 0x3000] ++
      List.range' 0x09 5 ++ List.range' 0x2000 11, isNameChar (Char.ofNat n) = false := by
    decide +kernel
  rw [← Char.ofNat_toNat c]
  refine hblanks _ ?_
  simp only [isBlank, Bool.or_eq_true, Bool.and_eq_true, beq_iff_eq, decide_eq_true_eq] at h
  simp only [List.mem_append, List.mem_cons, List.not_mem_nil, List.mem_range'_1]
  omega

theorem isBlank_of_isNameChar {c : Char} (h : isNameChar c = true) : isBlank c = false :=
  Bool.eq_false_iff.2 fun hblank => Bool.false_ne_true ((isNameChar_of_isBlank hblank).symm.trans h)

/-! ## Reading -/

variable {p : Placeholder} {s : List Char}

theorem Spells.placeholderAt? (h : Spells p.text p.name) (after : List Char) :
    placeholderAt? (p.text.toList ++ after) = some p := by
  obtain ⟨text, name⟩ := p
  obtain ⟨left, right, htext, hleft, hright, hne, hname⟩ := h
  dsimp only at htext hne hname ⊢
  obtain ⟨first, others, hcons⟩ : ∃ first others, name.toList = first :: others :=
    List.exists_cons_of_ne_nil fun hnil => hne (String.toList_eq_nil_iff.1 hnil)
  have hend : Stops isBlank ('\x7d' :: '\x7d' :: after) := stops_cons (by decide) _
  have hstop : Stops isNameChar (right ++ '\x7d' :: '\x7d' :: after) :=
    (stops_cons (by decide) _).append_left fun c hc => isNameChar_of_isBlank (hright c hc)
  have hfirst : Stops isBlank (name.toList ++ (right ++ '\x7d' :: '\x7d' :: after)) := by
    rw [hcons]
    exact stops_cons (isBlank_of_isNameChar (hname first (hcons ▸ List.mem_cons_self))) _
  have hwhole : text.toList ++ after = '\x7b' :: '\x7b' :: (left ++ (name.toList ++
      (right ++ '\x7d' :: '\x7d' :: after))) := by
    rw [htext]
    simp
  have hspelled : String.ofList ('\x7b' :: '\x7b' :: left ++ first :: others ++ right ++
      ['\x7d', '\x7d']) = text := by
    rw [← String.toList_inj, String.toList_ofList, htext, hcons]
    simp
  have hnamed : String.ofList (first :: others) = name := by
    rw [← hcons, String.ofList_toList]
  rw [hwhole, Template.placeholderAt?]
  simp only [takeWhile_append_stop hleft hfirst, dropWhile_append_stop hleft hfirst,
    takeWhile_append_stop hname hstop, dropWhile_append_stop hname hstop,
    takeWhile_append_stop hright hend, dropWhile_append_stop hright hend]
  rw [hcons]
  exact congrArg some (congrArg₂ Placeholder.mk hspelled hnamed)

theorem Spells.placeholderAt?_text (h : Spells p.text p.name) :
    Template.placeholderAt? p.text.toList = some p := by
  simpa using h.placeholderAt? []

theorem spells_of_placeholderAt? (h : placeholderAt? s = some p) :
    p.text.toList <+: s ∧ Spells p.text p.name := by
  unfold Template.placeholderAt? at h
  split at h
  case h_2 => cases h
  rename_i s
  dsimp only at h
  split at h
  case h_2 => cases h
  rename_i first others after hname hafter
  have hs := List.takeWhile_append_dropWhile (p := isBlank) (l := s)
  have hs' := List.takeWhile_append_dropWhile (p := isNameChar) (l := s.dropWhile isBlank)
  have hs'' := List.takeWhile_append_dropWhile (p := isBlank)
    (l := (s.dropWhile isBlank).dropWhile isNameChar)
  have hwhole : s.takeWhile isBlank ++ ((s.dropWhile isBlank).takeWhile isNameChar ++
      (((s.dropWhile isBlank).dropWhile isNameChar).takeWhile isBlank ++
        '\x7d' :: '\x7d' :: after)) = s := by
    rw [← hafter, hs'', hs', hs]
  cases h
  constructor
  · exact ⟨after, by simpa using hwhole⟩
  · refine ⟨s.takeWhile isBlank,
      ((s.dropWhile isBlank).dropWhile isNameChar).takeWhile isBlank, by simp,
      fun c hc => List.mem_takeWhile_imp hc, fun c hc => List.mem_takeWhile_imp hc, ?_,
      fun c hc => ?_⟩
    · rw [hname]
      simp
    · rw [String.toList_ofList] at hc
      exact List.mem_takeWhile_imp hc

/-- A placeholder is found just where one is spelled. -/
theorem placeholderAt?_iff :
    placeholderAt? s = some p ↔ p.text.toList <+: s ∧ Spells p.text p.name := by
  refine ⟨spells_of_placeholderAt?, ?_⟩
  rintro ⟨⟨after, rfl⟩, h⟩
  exact h.placeholderAt? after

theorem placeholderAt?_eq_some (h : placeholderAt? s = some p) :
    p.text.toList <+: s ∧ ∀ after, placeholderAt? (p.text.toList ++ after) = some p :=
  ⟨(spells_of_placeholderAt? h).1, (spells_of_placeholderAt? h).2.placeholderAt?⟩

end Scaffold.Template
