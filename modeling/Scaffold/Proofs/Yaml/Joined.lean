import Scaffold.Proofs.Yaml.Parts
import Scaffold.Proofs.Yaml.Reading

/-!
# Mappings one behind the other

A document in parts is the mapping of all their entries, as long as no key comes twice in it
(`parse?_parts`).
-/

namespace Scaffold.Yaml

theorem mapM_flatMap {α β γ : Type} (f : α → List β) (g : β → Option γ) (xs : List α) :
    (xs.flatMap f).mapM g = (xs.mapM fun x => (f x).mapM g).map List.flatten := by
  induction xs with
  | nil => rfl
  | cons x xs ih =>
    rw [List.flatMap_cons, List.mapM_append, List.mapM_cons, ih]
    cases (f x).mapM g with
    | none => rfl
    | some ys => cases (xs.mapM fun x => (f x).mapM g) <;> rfl

/-- Entries may be joined in groups: a key that comes twice in a group comes twice in all. -/
theorem join?_groups {α : Type} (f : α → Option Mapping) (xs : List α) (m : Mapping) :
    ((xs.mapM f).bind fun ms => m.join? ms.flatten) =
      (xs.mapM fun x => (f x).bind (Mapping.join? [])).bind fun ms => m.join? ms.flatten := by
  induction xs generalizing m with
  | nil => rfl
  | cons x xs ih =>
    rw [List.mapM_cons, List.mapM_cons]
    cases f x with
    | none => rfl
    | some a =>
      simp only [Option.bind_eq_bind, Option.bind_some, Option.pure_def, Option.bind_assoc,
        List.flatten_cons, join?_append]
      cases ha : Mapping.join? [] a with
      | none =>
        have hm : m.join? a = none := by
          by_contra hsome
          obtain ⟨r, hr⟩ := Option.ne_none_iff_exists'.1 hsome
          rw [join?_nil hr] at ha
          cases ha
        simp [hm]
      | some a' =>
        have hsame : a' = a := join?_some ha
        subst hsame
        simp only [Option.bind_some]
        cases hm : m.join? a' with
        | none => simp
        | some m' => exact ih m'

theorem mapM_singles {α β : Type} {f : α → Option (List β)} {xs : List α} {ys : List β}
    (hone : ∀ x ∈ xs, ∀ m, f x = some m → m.length = 1) :
    (∃ ms, xs.mapM f = some ms ∧ ms.flatten = ys) ↔
      List.Forall₂ (fun x y => f x = some [y]) xs ys := by
  simp only [mapM_some_iff]
  induction xs generalizing ys with
  | nil => simp [eq_comm]
  | cons x xs ih =>
    have ih := @ih ys.tail fun y hy => hone y (List.mem_cons_of_mem x hy)
    rw [List.forall₂_cons_left_iff]
    constructor
    · rintro ⟨ms, hms, rfl⟩
      obtain ⟨m, ms, hm, hrest, rfl⟩ := List.forall₂_cons_left_iff.1 hms
      obtain ⟨y, rfl⟩ := List.length_eq_one_iff.1 (hone x (List.mem_cons_self ..) m hm)
      exact ⟨y, ms.flatten, hm, ih.1 ⟨ms, hrest, rfl⟩, rfl⟩
    · rintro ⟨y, ys, hy, hrest, rfl⟩
      obtain ⟨ms, hms, hflat⟩ := ih.2 hrest
      exact ⟨[y] :: ms, .cons hy hms, by rw [List.flatten_cons, hflat]; rfl⟩

namespace Part

theorem parse?_part (p : Part) :
    Mapping.parse? p.source =
      (p.entries.mapM (entryValue? (Node.value? (deepestNesting - 1)))).bind
        (Mapping.join? []) := by
  have hroot : root? p.source = some (some (.mapping .bare ([p].flatMap (·.entries)))) :=
    root?_parts p [] (by simp) nofun
  rw [List.flatMap_singleton] at hroot
  exact parse?_mapping hroot p.areFree

/-- A document in parts has the entries of them all, and no mapping if a key comes twice. -/
theorem parse?_parts (p : Part) (ps : List Part) {text : String}
    (htext : text.toList = (p :: ps).flatMap (·.source.toList))
    (hsolid : ∀ q ∈ ps, Solid q.text) :
    Mapping.parse? text =
      ((p :: ps).mapM fun q => Mapping.parse? q.source).bind fun ms =>
        Mapping.join? [] ms.flatten := by
  have hfree : Node.areFreeEntries ((p :: ps).flatMap (·.entries)) = true := by
    rw [areFreeEntries_iff]
    intro e he
    obtain ⟨q, -, hmem⟩ := List.mem_flatMap.1 he
    exact areFreeEntries_iff.1 q.areFree e hmem
  rw [parse?_mapping (root?_parts p ps htext hsolid) hfree, mapM_flatMap, Option.bind_map]
  simp only [parse?_part]
  exact join?_groups _ (p :: ps) []

theorem length_of_parse? {p : Part} {m : Mapping} (h : Mapping.parse? p.source = some m) :
    m.length = p.entries.length := by
  rw [parse?_part] at h
  obtain ⟨es, hes, hjoin⟩ := Option.bind_eq_some_iff.1 h
  rw [join?_some hjoin]
  exact (mapM_some_iff.1 hes).length_eq.symm

theorem join?_of_parse? {p : Part} {m : Mapping} (h : Mapping.parse? p.source = some m) :
    Mapping.join? [] m = some m := by
  rw [p.parse?_part] at h
  obtain ⟨es, -, hes⟩ := Option.bind_eq_some_iff.1 h
  have hsame : m = es := join?_some hes
  rwa [← hsame] at hes

end Part

/-! ## Two documents -/

theorem root_of_parse? {text : String} {m : Mapping} (h : Mapping.parse? text = some m) :
    ∃ root, root? text = some root := by
  unfold Mapping.parse? at h
  split at h
  · cases h
  · exact ⟨none, ‹_›⟩
  · exact ⟨_, ‹_›⟩

theorem Joinable.part_of_parse? {text : String} {m : Mapping} (h : Joinable text)
    (hparse : Mapping.parse? text = some m) : ∃ p : Part, p.source = text := by
  obtain ⟨root, hroot⟩ := root_of_parse? hparse
  obtain ⟨p, hsource, -⟩ := h.part hroot
  exact ⟨p, hsource⟩

/-- What is read as a mapping is the value of the document. -/
theorem Joinable.value_of_parse? {text : String} {m : Mapping} (h : Joinable text)
    (hparse : Mapping.parse? text = some m) : Value.parse? text = some (.mapping m) := by
  obtain ⟨root, hroot⟩ := root_of_parse? hparse
  obtain ⟨p, -, rfl⟩ := h.part hroot
  rw [parse?_value hroot, hparse]
  rfl

theorem Joinable.root_of_value {text : String} {v : Value} (h : Joinable text)
    (hparse : Value.parse? text = some v) :
    ∃ es, root? text = some (some (.mapping .bare es)) := by
  obtain ⟨root, hroot⟩ : ∃ root, root? text = some root := by
    unfold Value.parse? at hparse
    split at hparse
    · cases hparse
    · exact ⟨none, ‹_›⟩
    · exact ⟨_, ‹_›⟩
  obtain ⟨p, -, rfl⟩ := h.part hroot
  exact ⟨p.entries, hroot⟩

/-- Two documents one behind the other; in the second no key comes twice. -/
theorem parse?_append {a b : String} {m n : Mapping} (ha : Joinable a) (hb : Joinable b)
    (hsolid : Solid (normalizeBreaks b.toList)) (hm : Mapping.parse? a = some m)
    (hn : Mapping.parse? b = some n) :
    Mapping.parse? (a ++ b) = m.join? n ∧ Mapping.join? [] n = some n := by
  obtain ⟨p, rfl⟩ := ha.part_of_parse? hm
  obtain ⟨q, rfl⟩ := hb.part_of_parse? hn
  have hself := Part.join?_of_parse? hm
  refine ⟨?_, Part.join?_of_parse? hn⟩
  rw [p.parse?_parts [q] (by simp) (by simpa [← q.chars] using hsolid)]
  simp [hm, hn, join?_append, hself]

theorem hasKey_append (m n : Mapping) (key : Value) :
    Mapping.hasKey (m ++ n) key = (m.hasKey key || n.hasKey key) :=
  List.any_append

theorem hasKey_of_join? {m n r : Mapping} (h : m.join? n = some r) :
    ∀ e ∈ n, m.hasKey e.1 = false := by
  induction n generalizing m with
  | nil => exact nofun
  | cons e n ih =>
    rw [Mapping.join?] at h
    split at h
    · cases h
    rename_i hkey
    intro x hx
    rcases List.mem_cons.1 hx with rfl | hx
    · simpa using hkey
    · have hmore := ih h x hx
      rw [hasKey_append, Bool.or_eq_false_iff] at hmore
      exact hmore.1

theorem join?_of_hasKey {m k n r : Mapping} (h : k.join? n = some r)
    (hm : ∀ e ∈ n, m.hasKey e.1 = false) : Mapping.join? (m ++ k) n = some (m ++ k ++ n) := by
  induction n generalizing k with
  | nil => rw [Mapping.join?, List.append_nil]
  | cons e n ih =>
    rw [Mapping.join?] at h
    split at h
    · cases h
    rename_i hkey
    have hnone : Mapping.hasKey (m ++ k) e.1 = false := by
      rw [hasKey_append, hm e (List.mem_cons_self ..)]
      simpa using hkey
    have hrest := ih h fun x hx => hm x (List.mem_cons_of_mem e hx)
    rw [← List.append_assoc] at hrest
    rw [Mapping.join?, hnone, if_neg Bool.false_ne_true, hrest, List.append_assoc]
    rfl

end Scaffold.Yaml
