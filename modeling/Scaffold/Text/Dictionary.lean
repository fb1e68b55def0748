/-!
# Dictionaries

A `Dictionary` gives texts to some keys. Its entries are kept in ascending order of the keys,
code point by code point, so two dictionaries that answer every look-up alike are the same.
`insertSorted` keeps a list of names in that order in the same way.
-/

namespace Scaffold.Text

/-- The entries with `value` under `key`, in order if they were. -/
def insertEntry (key value : String) : List (String × String) → List (String × String)
  | [] => [(key, value)]
  | (k, v) :: es =>
    if key < k then (key, value) :: (k, v) :: es
    else if key = k then (key, value) :: es
    else (k, v) :: insertEntry key value es

/-- The names with `name` among them, in order if they were. -/
def insertSorted (name : String) : List String → List String
  | [] => [name]
  | n :: ns =>
    if name < n then name :: n :: ns
    else if name = n then n :: ns
    else n :: insertSorted name ns

theorem mem_insertEntry {key value : String} {e : String × String} {es : List (String × String)}
    (h : e ∈ insertEntry key value es) : e = (key, value) ∨ e ∈ es := by
  induction es with
  | nil => simp_all [insertEntry]
  | cons f es ih =>
    obtain ⟨k, v⟩ := f
    rw [insertEntry] at h
    split at h
    · simp_all
    · split at h
      · simp only [List.mem_cons] at h ⊢
        rcases h with h | h <;> simp [h]
      · simp only [List.mem_cons] at h ⊢
        rcases h with h | h
        · simp [h]
        · rcases ih h with h | h <;> simp [h]

/-- Entries in ascending order of their keys, no key twice. -/
def Ascending (es : List (String × String)) : Prop :=
  es.Pairwise fun e f => e.1 < f.1

theorem Ascending.insertEntry {es : List (String × String)} (h : Ascending es)
    (key value : String) : Ascending (insertEntry key value es) := by
  induction es with
  | nil => simp [Scaffold.Text.insertEntry, Ascending]
  | cons f es ih =>
    obtain ⟨k, v⟩ := f
    obtain ⟨hf, hes⟩ := List.pairwise_cons.1 h
    rw [Scaffold.Text.insertEntry]
    split
    · rename_i hk
      refine List.pairwise_cons.2 ⟨fun e he => ?_, h⟩
      rcases List.mem_cons.1 he with rfl | he
      · exact hk
      · exact String.lt_trans hk (hf e he)
    · split
      · rename_i hk
        subst hk
        exact List.pairwise_cons.2 ⟨hf, hes⟩
      · rename_i h1 h2
        refine List.pairwise_cons.2 ⟨fun e he => ?_, ih hes⟩
        rcases mem_insertEntry he with rfl | he
        · rcases Std.lt_trichotomy k key with h | h | h
          · exact h
          · exact absurd h.symm h2
          · exact absurd h h1
        · exact hf e he

theorem lookup_cons_eq (k v other : String) (es : List (String × String)) :
    ((k, v) :: es).lookup other = if k = other then some v else es.lookup other := by
  by_cases h : k = other
  · subst h; simp
  · simp [List.lookup_cons, h, beq_false_of_ne (Ne.symm h)]

theorem lookup_insertEntry (es : List (String × String)) (key value other : String) :
    (insertEntry key value es).lookup other =
      if key = other then some value else es.lookup other := by
  induction es with
  | nil => exact lookup_cons_eq key value other []
  | cons f es ih =>
    obtain ⟨k, v⟩ := f
    rw [insertEntry]
    split
    · rw [lookup_cons_eq]
    · split
      · rename_i hk
        subst hk
        by_cases h : key = other <;> simp [lookup_cons_eq, h]
      · rename_i hk
        rw [lookup_cons_eq, lookup_cons_eq, ih]
        by_cases h : key = other
        · subst h; simp [Ne.symm hk]
        · simp [h]

structure Dictionary where
  entries : List (String × String)
  ascending : Ascending entries

namespace Dictionary

def empty : Dictionary := ⟨[], .nil⟩

def get? (d : Dictionary) (key : String) : Option String :=
  d.entries.lookup key

def insert (d : Dictionary) (key value : String) : Dictionary :=
  ⟨insertEntry key value d.entries, d.ascending.insertEntry key value⟩

def insertAll (d : Dictionary) (es : List (String × String)) : Dictionary :=
  es.foldl (fun d e => d.insert e.1 e.2) d

/-- The entries `es`; of two with one key the later. -/
def ofList (es : List (String × String)) : Dictionary :=
  empty.insertAll es

@[simp] theorem get?_empty (key : String) : empty.get? key = none := rfl

@[simp] theorem get?_insert (d : Dictionary) (key value other : String) :
    (d.insert key value).get? other = if key = other then some value else d.get? other :=
  lookup_insertEntry d.entries key value other

end Dictionary

end Scaffold.Text
