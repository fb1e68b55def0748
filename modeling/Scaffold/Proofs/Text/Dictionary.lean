import Mathlib.Data.List.Sort
import Scaffold.Text.Dictionary

/-!
# Dictionaries and the order of insertion

A dictionary is what it answers (`Dictionary.ext_get?`). So entries under different keys can be
inserted in any order (`Dictionary.insertAll_perm`).
-/

namespace Scaffold.Text

theorem insertEntry_append {es : List (String × String)} {key : String}
    (h : ∀ e ∈ es, e.1 < key) (value : String) :
    insertEntry key value es = es ++ [(key, value)] := by
  induction es with
  | nil => rfl
  | cons e es ih =>
    obtain ⟨k, v⟩ := e
    have hk : k < key := h (k, v) List.mem_cons_self
    have hless : ¬ key < k := fun hlt => String.lt_irrefl k (String.lt_trans hk hlt)
    have hne : key ≠ k := fun heq => String.lt_irrefl k (heq ▸ hk)
    rw [insertEntry, if_neg hless, if_neg hne, ih fun f hf => h f (List.mem_cons_of_mem _ hf)]
    rfl

namespace Dictionary

/-! ## Entries -/

theorem entries_insertAll (d : Dictionary) {es : List (String × String)}
    (h : Ascending (d.entries ++ es)) : (d.insertAll es).entries = d.entries ++ es := by
  unfold insertAll
  induction es generalizing d with
  | nil => simp
  | cons e es ih =>
    have hlast : ∀ f ∈ d.entries, f.1 < e.1 := fun f hf =>
      (List.pairwise_append.1 h).2.2 f hf e List.mem_cons_self
    have hinsert : (d.insert e.1 e.2).entries = d.entries ++ [e] := insertEntry_append hlast e.2
    have hrest := ih (d.insert e.1 e.2) (by rw [hinsert, List.append_assoc]; exact h)
    rw [List.foldl_cons, hrest, hinsert, List.append_assoc]
    rfl

theorem ext_entries {d d' : Dictionary} (h : d.entries = d'.entries) : d = d' := by
  cases d
  cases d'
  cases h
  rfl

instance : DecidableEq Dictionary := fun d d' =>
  decidable_of_iff (d.entries = d'.entries) ⟨ext_entries, congrArg entries⟩

theorem insertEntry_insertEntry (key value : String) (es : List (String × String)) :
    insertEntry key value (insertEntry key value es) = insertEntry key value es := by
  induction es with
  | nil => simp [insertEntry]
  | cons e es ih =>
    obtain ⟨k, v⟩ := e
    rw [insertEntry]
    split
    · simp [insertEntry]
    · rename_i hlt
      split
      · simp [insertEntry]
      · rename_i hne
        rw [insertEntry, if_neg hlt, if_neg hne, ih]

theorem insert_insert (d : Dictionary) (key value : String) :
    (d.insert key value).insert key value = d.insert key value :=
  ext_entries (insertEntry_insertEntry key value d.entries)

theorem ofList_entries (d : Dictionary) : ofList d.entries = d :=
  ext_entries (entries_insertAll empty d.ascending)

theorem insertAll_append (d : Dictionary) (es es' : List (String × String)) :
    d.insertAll (es ++ es') = (d.insertAll es).insertAll es' :=
  List.foldl_append

/-! ## Answers -/

theorem lookup_eq_some_iff {es : List (String × String)} (hes : Ascending es) {key value : String} :
    es.lookup key = some value ↔ (key, value) ∈ es := by
  induction es with
  | nil => simp
  | cons e es ih =>
    obtain ⟨k, v⟩ := e
    obtain ⟨hk, hes⟩ := List.pairwise_cons.1 hes
    rw [lookup_cons_eq, List.mem_cons, Prod.mk.injEq]
    split
    · rename_i h
      subst h
      have hno : (k, value) ∉ es := fun hmem => String.lt_irrefl k (hk _ hmem)
      simp [hno, eq_comm]
    · rename_i h
      rw [ih hes]
      simp [Ne.symm h]

theorem ext_get? {d d' : Dictionary} (h : ∀ key, d.get? key = d'.get? key) : d = d' := by
  have hasymm : Std.Asymm fun e f : String × String => e.1 < f.1 :=
    ⟨fun e f hef hfe => String.lt_irrefl e.1 (String.lt_trans hef hfe)⟩
  refine ext_entries (d.ascending.eq_of_mem_iff d'.ascending fun e => ?_)
  rw [← lookup_eq_some_iff d.ascending, ← lookup_eq_some_iff d'.ascending]
  exact Eq.congr_left (h e.1)

/-- Inserting entries in ascending order is looking them up first. -/
theorem get?_insertAll (d : Dictionary) {es : List (String × String)}
    (hes : Ascending es) (key : String) :
    (d.insertAll es).get? key = (es.lookup key).or (d.get? key) := by
  unfold insertAll
  induction es generalizing d with
  | nil => rfl
  | cons e es ih =>
    obtain ⟨k, v⟩ := e
    obtain ⟨hk, hes⟩ := List.pairwise_cons.1 hes
    rw [List.foldl_cons, ih (d.insert k v) hes, get?_insert, lookup_cons_eq]
    by_cases h : k = key
    · have hnone : es.lookup key = none := by
        refine List.lookup_eq_none_iff.2 fun e he => ?_
        have hlt : k < e.1 := hk e he
        rw [← h, bne_iff_ne]
        exact fun heq => String.lt_irrefl e.1 (heq ▸ hlt)
      simp [h, hnone]
    · simp [h]

theorem get?_insertAll_of_not_mem (d : Dictionary) {es : List (String × String)} {key : String}
    (h : key ∉ es.map Prod.fst) : (d.insertAll es).get? key = d.get? key := by
  unfold insertAll
  induction es generalizing d with
  | nil => rfl
  | cons e es ih =>
    rw [List.map_cons, List.mem_cons, not_or] at h
    rw [List.foldl_cons, ih _ h.2, get?_insert, if_neg (Ne.symm h.1)]

/-- The entries of both, those of the first where they share a key. -/
def union (d d' : Dictionary) : Dictionary :=
  d'.insertAll d.entries

theorem get?_union (d d' : Dictionary) (key : String) :
    (d.union d').get? key = (d.get? key).or (d'.get? key) :=
  get?_insertAll d' d.ascending key

theorem union_self (d : Dictionary) : d.union d = d :=
  ext_get? fun key => by rw [get?_union, Option.or_self]

/-! ## Orders -/

theorem insert_comm (d : Dictionary) {key key' : String} (h : key ≠ key') (value value' : String) :
    (d.insert key value).insert key' value' = (d.insert key' value').insert key value := by
  refine ext_get? fun other => ?_
  simp only [get?_insert]
  by_cases hkey : key = other
  · subst hkey
    simp [Ne.symm h]
  · simp [hkey]

theorem insertAll_perm (d : Dictionary) {es es' : List (String × String)} (h : es.Perm es')
    (hkeys : (es.map Prod.fst).Nodup) : d.insertAll es = d.insertAll es' := by
  refine h.foldl_eq' (fun e he f hf z => ?_) d
  by_cases hef : e.1 = f.1
  · rw [List.inj_on_of_nodup_map hkeys he hf hef]
  · exact z.insert_comm hef e.2 f.2

end Dictionary

end Scaffold.Text
