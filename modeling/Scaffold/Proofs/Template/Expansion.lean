import Scaffold.Proofs.Template.Spelling
import Scaffold.Template.Substitution

/-!
# Substitution at one go

`expand` gives every placeholder of a text its value at the same time, so what a value brings in
stays as it is. `fill` works through the placeholders one after another instead; as long as no
text holds two different placeholders, the two agree (`fill_eq_expand`).
-/

namespace Scaffold.Template

open Scaffold.Text
open Scaffold.Yaml (Value Mapping)

/-! ## Placeholders -/

theorem text_ne_nil {s : List Char} {p : Placeholder} (h : placeholderAt? s = some p) :
    p.text.toList ≠ [] := by
  intro hnil
  have hat := (placeholderAt?_eq_some h).2 []
  rw [hnil] at hat
  cases hat

/-! ## All at once -/

def Piece.expanded (value? : String → Option String) : Piece → List Char
  | .char c => [c]
  | .hole p => ((value? p.name).getD p.text).toList

/-- `s` with every placeholder that has a value replaced by it; the others stay. -/
def expand (value? : String → Option String) (s : String) : String :=
  String.ofList ((pieces s).flatMap (Piece.expanded value?))

mutual

def expandValue (value? : String → Option String) : Value → Value
  | .string s => .string (expand value? s)
  | .sequence xs => .sequence (expandItems value? xs)
  | .mapping es => .mapping (expandEntries value? es)
  | .tagged t v => .tagged t (expandValue value? v)
  | v => v

def expandItems (value? : String → Option String) : List Value → List Value
  | [] => []
  | x :: xs => expandValue value? x :: expandItems value? xs

def expandEntries (value? : String → Option String) : List (Value × Value) → List (Value × Value)
  | [] => []
  | (k, v) :: es => (k, expandValue value? v) :: expandEntries value? es

end

mutual

/-- The strings in a value, its keys apart. -/
def strings : Value → List String
  | .string s => [s]
  | .sequence xs => itemStrings xs
  | .mapping es => entryStrings es
  | .tagged _ v => strings v
  | _ => []

def itemStrings : List Value → List String
  | [] => []
  | x :: xs => strings x ++ itemStrings xs

def entryStrings : List (Value × Value) → List String
  | [] => []
  | (_, v) :: es => strings v ++ entryStrings es

end

/-- The placeholders of `s` are all the same, however many there are. -/
def Uniform (s : String) : Prop :=
  (find s).length ≤ 1

instance (s : String) : Decidable (Uniform s) :=
  inferInstanceAs (Decidable (_ ≤ _))

/-! ## Pieces -/

theorem piecesFrom_of_length_le {skip : Nat} {s : List Char} (h : s.length ≤ skip) :
    piecesFrom skip s = [] := by
  induction s generalizing skip with
  | nil => cases skip <;> rfl
  | cons c s ih =>
    cases skip with
    | zero => simp at h
    | succ skip => exact ih (by simpa using h)

theorem flatMap_piecesFrom (skip : Nat) (s : List Char) :
    (piecesFrom skip s).flatMap (Piece.expanded fun _ => none) = s.drop skip := by
  induction s generalizing skip with
  | nil => cases skip <;> rfl
  | cons c s ih =>
    cases skip with
    | succ skip => exact ih skip
    | zero =>
      rw [piecesFrom]
      split
      · rename_i p hp
        obtain ⟨⟨after, hafter⟩, -⟩ := placeholderAt?_eq_some hp
        have hne := text_ne_nil hp
        cases htext : p.text.toList with
        | nil => exact absurd htext hne
        | cons d text =>
          rw [htext, List.cons_append] at hafter
          obtain ⟨rfl, rfl⟩ := List.cons.inj hafter
          have hlength : p.text.length - 1 = text.length := by
            rw [← String.length_toList, htext]
            simp
          rw [List.flatMap_cons, ih, hlength]
          simp [Piece.expanded, htext]
      · rw [List.flatMap_cons, ih]
        simp [Piece.expanded]

/-- Where there is but one placeholder, to replace its text is to give it a value. -/
theorem replaceFrom_eq_flatMap {p : Placeholder}
    (hp : ∀ after, placeholderAt? (p.text.toList ++ after) = some p)
    {value? : String → Option String} {value : String} (hvalue : value? p.name = some value)
    (skip : Nat) (s : List Char) (h : ∀ q, .hole q ∈ piecesFrom skip s → q = p) :
    replaceFrom p.text.toList value.toList skip s =
      (piecesFrom skip s).flatMap (Piece.expanded value?) := by
  induction s generalizing skip with
  | nil => cases skip <;> rfl
  | cons c s ih =>
    cases skip with
    | succ skip => exact ih skip h
    | zero =>
      rw [piecesFrom] at h ⊢
      rw [replaceFrom]
      cases hat : placeholderAt? (c :: s) with
      | some q =>
        rw [hat] at h
        obtain rfl : q = p := h q List.mem_cons_self
        have hpre := (placeholderAt?_eq_some hat).1
        rw [if_pos (List.isPrefixOf_iff_prefix.2 hpre), String.length_toList,
          ih _ fun r hr => h r (List.mem_cons_of_mem _ hr)]
        simp [Piece.expanded, hvalue]
      | none =>
        rw [hat] at h
        have hpre : p.text.toList.isPrefixOf (c :: s) = false := by
          refine Bool.eq_false_iff.2 fun htrue => ?_
          obtain ⟨after, hafter⟩ := List.isPrefixOf_iff_prefix.1 htrue
          rw [← hafter, hp after] at hat
          cases hat
        rw [hpre, if_neg Bool.false_ne_true, ih _ fun r hr => h r (List.mem_cons_of_mem _ hr)]
        simp [Piece.expanded]

theorem mem_find_iff {s : String} {p : Placeholder} : p ∈ find s ↔ .hole p ∈ pieces s := by
  unfold find
  rw [List.mem_eraseDups, List.mem_filterMap]
  constructor
  · rintro ⟨x, hx, hp⟩
    cases x with
    | char c => cases hp
    | hole q => cases hp; exact hx
  · intro h
    exact ⟨.hole p, h, rfl⟩

theorem spells_of_mem {p : Placeholder} {skip : Nat} {s : List Char}
    (h : .hole p ∈ piecesFrom skip s) : Spells p.text p.name := by
  induction s generalizing skip with
  | nil => cases skip <;> cases h
  | cons c s ih =>
    cases skip with
    | succ skip => exact ih h
    | zero =>
      rw [piecesFrom] at h
      split at h
      · rename_i q hq
        rcases List.mem_cons.1 h with heq | h
        · cases heq
          exact (spells_of_placeholderAt? hq).2
        · exact ih h
      · rcases List.mem_cons.1 h with heq | h
        · cases heq
        · exact ih h

theorem expand_congr {f g : String → Option String} {s : String}
    (h : ∀ p ∈ find s, f p.name = g p.name) : expand f s = expand g s := by
  have heq : ∀ x ∈ pieces s, Piece.expanded f x = Piece.expanded g x := by
    intro x hx
    cases x with
    | char c => rfl
    | hole p => simp only [Piece.expanded, h p (mem_find_iff.2 hx)]
  unfold expand
  rw [List.flatMap_def, List.map_congr_left heq, ← List.flatMap_def]

theorem expand_none {f : String → Option String} {s : String} (h : ∀ p ∈ find s, f p.name = none) :
    expand f s = s := by
  rw [expand_congr (g := fun _ => none) h]
  unfold expand pieces
  rw [flatMap_piecesFrom]
  simp

theorem whole?_eq_some {s : String} {p : Placeholder} (h : whole? s = some p) :
    find s = [p] ∧ p.text = s := by
  unfold whole? at h
  split at h
  · rename_i q hq
    split at h
    · rename_i htext
      cases h
      exact ⟨hq, htext⟩
    · cases h
  · cases h

theorem expand_of_whole {f : String → Option String} {p : Placeholder} {value : String}
    (hp : placeholderAt? p.text.toList = some p) (hf : f p.name = some value) :
    expand f p.text = value := by
  have hpieces : pieces p.text = [.hole p] := by
    unfold pieces
    cases htext : p.text.toList with
    | nil => exact absurd htext (text_ne_nil hp)
    | cons c s =>
      have hlength : s.length ≤ p.text.length - 1 := by
        rw [← String.length_toList, htext]
        simp
      rw [htext] at hp
      rw [piecesFrom, hp]
      dsimp only
      rw [piecesFrom_of_length_le hlength]
  unfold expand
  rw [hpieces]
  simp [Piece.expanded, hf]

/-! ## One after another -/

variable (values : Dictionary)

/-- A text whose placeholders are all the same is filled as if at one go. -/
theorem fillString_eq_expand {s : String} (h : Uniform s) :
    fillString values .keep s = some (expand values.get? s) := by
  unfold fillString
  cases hwhole : whole? s with
  | some p =>
    obtain ⟨hfind, rfl⟩ := whole?_eq_some hwhole
    have hmem : p ∈ find p.text := by rw [hfind]; exact List.mem_singleton_self p
    have hat := (spells_of_mem (mem_find_iff.1 hmem)).placeholderAt?_text
    cases hvalue : values.get? p.name with
    | some value => simp [hvalue, expand_of_whole hat hvalue]
    | none =>
      simp [hvalue, expand_none (s := p.text) (f := values.get?) (by simpa [hfind] using hvalue)]
  | none =>
    unfold Uniform at h
    match hfind : find s with
    | [] => simp [expand_none (s := s) (f := values.get?) (by simp [hfind])]
    | [p] =>
      have hmem : .hole p ∈ pieces s := by
        rw [← mem_find_iff, hfind]
        exact List.mem_singleton_self p
      cases hvalue : values.get? p.name with
      | none =>
        simp [replacePlaceholder, hvalue,
          expand_none (s := s) (f := values.get?) (by simpa [hfind] using hvalue)]
      | some value =>
        have honly : ∀ q, .hole q ∈ pieces s → q = p := by
          intro q hq
          rw [← mem_find_iff, hfind] at hq
          exact List.mem_singleton.1 hq
        have heq := replaceFrom_eq_flatMap (spells_of_mem hmem).placeholderAt? hvalue 0 s.toList honly
        simp only [List.foldl_cons, List.foldl_nil, replacePlaceholder, hvalue, replaceText,
          replaceAll, heq]
        rfl
    | p :: q :: rest => rw [hfind] at h; simp at h

mutual

theorem fill_eq_expand {v : Value}
    (h : ∀ s ∈ strings v, fillString values .keep s = some (expand values.get? s)) :
    fill values .keep v = some (expandValue values.get? v) := by
  cases v with
  | string s => rw [fill, h s List.mem_cons_self, expandValue]; rfl
  | sequence xs => rw [fill, fillItems_eq_expand h, expandValue]
  | mapping es => rw [fill, fillEntries_eq_expand h, expandValue]
  | tagged t v => rw [fill, fill_eq_expand (v := v) h, expandValue]; rfl
  | _ => rfl

theorem fillItems_eq_expand {xs : List Value}
    (h : ∀ s ∈ itemStrings xs, fillString values .keep s = some (expand values.get? s)) :
    fillItems values .keep xs = expandItems values.get? xs := by
  cases xs with
  | nil => rfl
  | cons x xs =>
    rw [fillItems, expandItems, fill_eq_expand fun s hs => h s (List.mem_append_left _ hs),
      fillItems_eq_expand fun s hs => h s (List.mem_append_right _ hs)]

theorem fillEntries_eq_expand {es : Mapping}
    (h : ∀ s ∈ entryStrings es, fillString values .keep s = some (expand values.get? s)) :
    fillEntries values .keep es = expandEntries values.get? es := by
  match es with
  | [] => rfl
  | (k, v) :: es =>
    rw [fillEntries, expandEntries, fill_eq_expand fun s hs => h s (List.mem_append_left _ hs),
      fillEntries_eq_expand fun s hs => h s (List.mem_append_right _ hs)]

end

end Scaffold.Template
