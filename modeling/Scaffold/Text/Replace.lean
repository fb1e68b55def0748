/-!
# Splitting and replacing

Cuts of a text at its first or last separator, and the replacement of every
occurrence of one text by another. Occurrences are taken from the left and do not
overlap; what replaces one is not looked at again.
-/

namespace Scaffold.Text

/-- The text before the first `sep` and the text after it. -/
def cutFirst? (sep : Char) : List Char → Option (List Char × List Char)
  | [] => none
  | c :: s =>
    if c = sep then some ([], s)
    else (cutFirst? sep s).map fun (before, after) => (c :: before, after)

/-- The text before the last `sep` and the text after it. -/
def cutLast? (sep : Char) : List Char → Option (List Char × List Char)
  | [] => none
  | c :: s =>
    match cutLast? sep s with
    | some (before, after) => some (c :: before, after)
    | none => if c = sep then some ([], s) else none

def occursIn (part : List Char) : List Char → Bool
  | [] => part.isEmpty
  | c :: s => part.isPrefixOf (c :: s) || occursIn part s

/-- Replaces from here on, after passing over the next `skip` characters. -/
def replaceFrom (old new : List Char) : (skip : Nat) → List Char → List Char
  | _, [] => []
  | skip + 1, _ :: s => replaceFrom old new skip s
  | 0, c :: s =>
    if old.isPrefixOf (c :: s) then new ++ replaceFrom old new (old.length - 1) s
    else c :: replaceFrom old new 0 s

/-- `s` with every occurrence of `old`, which is not empty, replaced by `new`. -/
def replaceAll (old new s : List Char) : List Char :=
  replaceFrom old new 0 s

/-- A cut loses nothing but the separator, and the separator found is the first. -/
theorem cutFirst?_eq_some_iff {sep : Char} {s before after : List Char} :
    cutFirst? sep s = some (before, after) ↔ s = before ++ sep :: after ∧ sep ∉ before := by
  induction s generalizing before with
  | nil => simp [cutFirst?]
  | cons c s ih =>
    by_cases h : c = sep
    · subst h
      cases before with
      | nil => simp [cutFirst?, eq_comm]
      | cons b bs => simp [cutFirst?]; rintro rfl; simp
    · cases before with
      | nil => simp [cutFirst?, h]
      | cons b bs =>
        simp only [cutFirst?, h, if_false, Option.map_eq_some_iff, Prod.exists, Prod.mk.injEq,
          List.cons.injEq]
        constructor
        · rintro ⟨x, y, hxy, ⟨rfl, rfl⟩, rfl⟩
          obtain ⟨rfl, hx⟩ := ih.1 hxy
          exact ⟨by simp, by simp [hx, Ne.symm h]⟩
        · rintro ⟨⟨rfl, rfl⟩, hb⟩
          exact ⟨bs, after, ih.2 ⟨rfl, fun hm => hb (List.mem_cons_of_mem _ hm)⟩, ⟨rfl, rfl⟩, rfl⟩

theorem cutFirst?_eq_none_iff {sep : Char} {s : List Char} : cutFirst? sep s = none ↔ sep ∉ s := by
  induction s with
  | nil => simp [cutFirst?]
  | cons c s ih =>
    by_cases h : c = sep
    · simp [cutFirst?, h]
    · simp [cutFirst?, h, ih, Ne.symm h]

end Scaffold.Text
