import Scaffold.Proofs.Template.Search
import Scaffold.Proofs.Yaml.Value

/-!
# What is removed from a value

A node of a value vanishes when it is, below its tags, one placeholder as a whole that has no value
and is to be removed (`Vanishes`). What `fill` makes of a value is the value without the items and
entries that vanish, at every depth, and otherwise of the same shape (`Pruned`): a sequence or a
mapping stays even if nothing stays in it.
-/

namespace Scaffold.Template

open Scaffold.Text
open Scaffold.Yaml (Value Mapping)

def untagged : Value → Value
  | .tagged _ v => untagged v
  | v => v

/-- `v` is, below its tags, a placeholder as a whole, and one that is to be removed. -/
def Vanishes (values : Dictionary) (unset : Unset) (v : Value) : Prop :=
  unset = .remove ∧
    ∃ s name, untagged v = .string s ∧ Spells s name ∧ values.get? name = none

mutual

/-- The second value is the first without the items and entries that are `gone`, with strings that
`text` relates in the place of its strings. -/
inductive Pruned (gone : Value → Prop) (text : String → String → Prop) : Value → Value → Prop
  | null : Pruned gone text .null .null
  | bool (b : Bool) : Pruned gone text (.bool b) (.bool b)
  | int (n : Int) : Pruned gone text (.int n) (.int n)
  | float (x : Number.Binary64) : Pruned gone text (.float x) (.float x)
  | string {s t : String} : text s t → Pruned gone text (.string s) (.string t)
  | sequence {xs ys : List Value} : PrunedItems gone text xs ys →
      Pruned gone text (.sequence xs) (.sequence ys)
  | mapping {es fs : List (Value × Value)} : PrunedEntries gone text es fs →
      Pruned gone text (.mapping es) (.mapping fs)
  | tagged {v w : Value} (t : Yaml.Tag) : Pruned gone text v w →
      Pruned gone text (.tagged t v) (.tagged t w)

/-- The items that are not gone, in their order. -/
inductive PrunedItems (gone : Value → Prop) (text : String → String → Prop) :
    List Value → List Value → Prop
  | nil : PrunedItems gone text [] []
  | drop {x : Value} {xs ys : List Value} : gone x → PrunedItems gone text xs ys →
      PrunedItems gone text (x :: xs) ys
  | keep {x y : Value} {xs ys : List Value} : ¬ gone x → Pruned gone text x y →
      PrunedItems gone text xs ys → PrunedItems gone text (x :: xs) (y :: ys)

/-- The entries whose values are not gone, in their order and under their keys. -/
inductive PrunedEntries (gone : Value → Prop) (text : String → String → Prop) :
    List (Value × Value) → List (Value × Value) → Prop
  | nil : PrunedEntries gone text [] []
  | drop {k v : Value} {es fs : List (Value × Value)} : gone v → PrunedEntries gone text es fs →
      PrunedEntries gone text ((k, v) :: es) fs
  | keep {k v w : Value} {es fs : List (Value × Value)} : ¬ gone v → Pruned gone text v w →
      PrunedEntries gone text es fs → PrunedEntries gone text ((k, v) :: es) ((k, w) :: fs)

end

/-! ## Strings -/

variable {values : Dictionary} {unset : Unset} {s : String} {p : Placeholder}

theorem whole?_eq_some_iff : whole? s = some p ↔ p.text = s ∧ Spells s p.name := by
  constructor
  · intro h
    obtain ⟨hfind, rfl⟩ := whole?_eq_some h
    have hmem : p ∈ find p.text := hfind ▸ List.mem_cons_self
    exact ⟨rfl, (mem_find_iff_spells.1 hmem).2⟩
  · rintro ⟨rfl, hspells⟩
    have hp := hspells.placeholderAt?_text
    have hpieces : pieces p.text = [.hole p] := by
      have htext := piecesFrom_text hp []
      rwa [List.append_nil] at htext
    have hfind : find p.text = [p] := by
      unfold find
      rw [hpieces]
      rfl
    unfold whole?
    rw [hfind]
    exact if_pos rfl

theorem Spells.whole? {name : String} (h : Spells s name) : Template.whole? s = some ⟨s, name⟩ :=
  whole?_eq_some_iff.2 ⟨rfl, h⟩

theorem fillString_eq_none_iff : fillString values unset s = none ↔
    unset = .remove ∧ ∃ name, Spells s name ∧ values.get? name = none := by
  unfold fillString
  cases hwhole : whole? s with
  | none =>
    refine iff_of_false nofun ?_
    rintro ⟨-, name, hspells, -⟩
    rw [hspells.whole?] at hwhole
    cases hwhole
  | some p =>
    obtain ⟨rfl, hspells⟩ := whole?_eq_some_iff.1 hwhole
    have hname {name : String} (h : Spells p.text name) : p.name = name := by
      rw [h.whole?] at hwhole
      exact (congrArg Placeholder.name (Option.some.inj hwhole)).symm
    dsimp only
    cases hvalue : values.get? p.name with
    | some value =>
      refine iff_of_false nofun ?_
      rintro ⟨-, name, h, hnone⟩
      rw [← hname h, hvalue] at hnone
      cases hnone
    | none =>
      cases unset with
      | keep => exact iff_of_false nofun fun h => nomatch h.1
      | remove => exact iff_of_true rfl ⟨rfl, p.name, hspells, hvalue⟩

/-! ## Values -/

theorem fill_eq_none_iff {v : Value} : fill values unset v = none ↔ Vanishes values unset v := by
  cases v with
  | string s =>
    rw [fill, Option.map_eq_none_iff, fillString_eq_none_iff, Vanishes]
    simp [untagged]
  | tagged t v =>
    rw [fill, Option.map_eq_none_iff, fill_eq_none_iff (v := v)]
    rfl
  | _ => simp [fill, Vanishes, untagged]

mutual

/-- A value that is filled in is pruned, and what is pruned in this way is what it becomes. -/
theorem fill_eq_some_iff {v w : Value} : fill values unset v = some w ↔
    Pruned (Vanishes values unset) (fun s t => fillString values unset s = some t) v w := by
  cases v with
  | null | bool | int | float =>
    constructor
    · rintro ⟨⟩
      constructor
    · rintro ⟨⟩
      rfl
  | string s =>
    rw [fill, Option.map_eq_some_iff]
    constructor
    · rintro ⟨t, ht, rfl⟩
      exact .string ht
    · rintro ⟨⟩
      exact ⟨_, ‹_›, rfl⟩
  | sequence xs =>
    rw [fill, Option.some.injEq]
    constructor
    · rintro rfl
      exact .sequence (fillItems_eq_iff.1 rfl)
    · rintro (_ | _ | _ | _ | _ | hys)
      rw [fillItems_eq_iff.2 hys]
  | mapping es =>
    rw [fill, Option.some.injEq]
    constructor
    · rintro rfl
      exact .mapping (fillEntries_eq_iff.1 rfl)
    · rintro (_ | _ | _ | _ | _ | _ | hfs)
      rw [fillEntries_eq_iff.2 hfs]
  | tagged t v =>
    rw [fill, Option.map_eq_some_iff]
    constructor
    · rintro ⟨w, hw, rfl⟩
      exact .tagged t (fill_eq_some_iff.1 hw)
    · rintro (_ | _ | _ | _ | _ | _ | _ | ⟨-, hw⟩)
      exact ⟨_, fill_eq_some_iff.2 hw, rfl⟩

theorem fillItems_eq_iff {xs ys : List Value} : fillItems values unset xs = ys ↔
    PrunedItems (Vanishes values unset) (fun s t => fillString values unset s = some t) xs ys := by
  cases xs with
  | nil =>
    constructor
    · rintro rfl
      exact .nil
    · rintro ⟨⟩
      rfl
  | cons x xs =>
    rw [fillItems]
    cases hfill : fill values unset x with
    | none =>
      have hgone := fill_eq_none_iff.1 hfill
      dsimp only
      constructor
      · exact fun h => .drop hgone (fillItems_eq_iff.1 h)
      · intro h
        cases h with
        | drop _ hys => exact fillItems_eq_iff.2 hys
        | keep hstays => exact absurd hgone hstays
    | some y =>
      have hstays : ¬ Vanishes values unset x := by
        rw [← fill_eq_none_iff, hfill]
        nofun
      dsimp only
      constructor
      · rintro rfl
        exact .keep hstays (fill_eq_some_iff.1 hfill) (fillItems_eq_iff.1 rfl)
      · intro h
        cases h with
        | drop hgone => exact absurd hgone hstays
        | keep _ hy hys =>
          obtain rfl := Option.some.inj (hfill.symm.trans (fill_eq_some_iff.2 hy))
          rw [fillItems_eq_iff.2 hys]

theorem fillEntries_eq_iff {es fs : Mapping} : fillEntries values unset es = fs ↔
    PrunedEntries (Vanishes values unset) (fun s t => fillString values unset s = some t) es fs := by
  match es with
  | [] =>
    constructor
    · rintro rfl
      exact .nil
    · rintro ⟨⟩
      rfl
  | (k, v) :: es =>
    rw [fillEntries]
    cases hfill : fill values unset v with
    | none =>
      have hgone := fill_eq_none_iff.1 hfill
      dsimp only
      constructor
      · exact fun h => .drop hgone (fillEntries_eq_iff.1 h)
      · intro h
        cases h with
        | drop _ hfs => exact fillEntries_eq_iff.2 hfs
        | keep hstays => exact absurd hgone hstays
    | some w =>
      have hstays : ¬ Vanishes values unset v := by
        rw [← fill_eq_none_iff, hfill]
        nofun
      dsimp only
      constructor
      · rintro rfl
        exact .keep hstays (fill_eq_some_iff.1 hfill) (fillEntries_eq_iff.1 rfl)
      · intro h
        cases h with
        | drop hgone => exact absurd hgone hstays
        | keep _ hw hfs =>
          obtain rfl := Option.some.inj (hfill.symm.trans (fill_eq_some_iff.2 hw))
          rw [fillEntries_eq_iff.2 hfs]

end

theorem vanishes_keep (values : Dictionary) : Vanishes values .keep = fun _ => False := by
  funext v
  simp [Vanishes]

theorem exists_fill_keep (values : Dictionary) (v : Value) : ∃ w, fill values .keep v = some w := by
  cases hfill : fill values .keep v with
  | some w => exact ⟨w, rfl⟩
  | none => exact nomatch (fill_eq_none_iff.1 hfill).1

/-- A value is removed just when it vanishes. Otherwise it becomes the one that is the same but for
the items and entries that vanish, at whatever depth, and for the texts of its strings, each of
which is filled in by itself. Where placeholders are kept, nothing is left out. -/
theorem fill_prunes (values : Dictionary) (v : Value) :
    (∀ unset, (fill values unset v = none ↔ Vanishes values unset v) ∧
      ∀ w, fill values unset v = some w ↔
        Pruned (Vanishes values unset) (fun s t => fillString values unset s = some t) v w) ∧
    ∃ w, fill values .keep v = some w ∧
      Pruned (fun _ => False) (fun s t => fillString values .keep s = some t) v w := by
  obtain ⟨w, hw⟩ := exists_fill_keep values v
  refine ⟨fun unset => ⟨fill_eq_none_iff, fun w => fill_eq_some_iff⟩, w, hw, ?_⟩
  have hpruned := fill_eq_some_iff.1 hw
  rwa [vanishes_keep] at hpruned

/-- A tag does not save its placeholder; a placeholder twice in a row is none as a whole, and the
sequence that is left empty stays. -/
example :
    fill .empty .remove (.mapping
      [(.string "env", .sequence [.tagged ⟨"secret"⟩ (.string "\x7b\x7b a \x7d\x7d")]),
        (.string "twice", .string "\x7b\x7ba\x7d\x7d\x7b\x7ba\x7d\x7d"),
        (.string "once", .string "\x7b\x7ba\x7d\x7d")]) =
      some (.mapping [(.string "env", .sequence []), (.string "twice", .string "")]) := by
  decide +kernel

end Scaffold.Template
