import Scaffold.Number.Binary64

/-!
# Values

What a YAML document says once its spelling is forgotten. A mapping keeps its entries in
the order in which their keys came first. `Value.same` is the equality of keys: it
looks at neither the order of a mapping's entries nor the sign of a zero.
-/

namespace Scaffold.Yaml

open Scaffold.Number (Binary64)

/-- An application's own tag, without the exclamation mark that introduces it. -/
structure Tag where
  name : String
  deriving DecidableEq, Repr

/-- The tag that `s` spells with or without its mark. The mark alone is a tag too. -/
def Tag.ofText (s : String) : Tag :=
  match s.toList with
  | '!' :: c :: rest => ⟨String.ofList (c :: rest)⟩
  | _ => ⟨s⟩

def Tag.text (t : Tag) : String :=
  "!" ++ t.name

inductive Value where
  | null
  | bool (b : Bool)
  | int (n : Int)
  | float (x : Binary64)
  | string (s : String)
  | sequence (items : List Value)
  | mapping (entries : List (Value × Value))
  | tagged (tag : Tag) (value : Value)
  deriving Repr, Inhabited

abbrev Mapping := List (Value × Value)

/-- Equality of floats as keys: all zeros are one, and so is `nan`. -/
def sameFloat : Binary64 → Binary64 → Bool
  | .finite _ 0 _, .finite _ 0 _ => true
  | x, y => x == y

mutual

def Value.same : Value → Value → Bool
  | .null, .null => true
  | .bool a, .bool b => a == b
  | .int m, .int n => m == n
  | .float x, .float y => sameFloat x y
  | .string s, .string t => s == t
  | .sequence xs, .sequence ys => sameItems xs ys
  | .mapping es, .mapping fs => es.length == fs.length && sameEntries es fs
  | .tagged t v, .tagged u w => t == u && v.same w
  | _, _ => false

def sameItems : List Value → List Value → Bool
  | [], [] => true
  | x :: xs, y :: ys => x.same y && sameItems xs ys
  | _, _ => false

/-- Every entry of the first list has its like in the second. -/
def sameEntries : List (Value × Value) → List (Value × Value) → Bool
  | [], _ => true
  | (k, v) :: es, fs => fs.any (fun e => k.same e.1 && v.same e.2) && sameEntries es fs

end

namespace Mapping

def get? (key : String) : Mapping → Option Value
  | [] => none
  | (.string k, v) :: m => if k = key then some v else get? key m
  | _ :: m => get? key m

def hasKey (m : Mapping) (key : Value) : Bool :=
  m.any fun e => e.1.same key

/-- `m` with `value` under `key`: in the place of the entry that is there, else at the end. -/
def insert (key value : Value) : Mapping → Mapping
  | [] => [(key, value)]
  | (k, v) :: m => if k.same key then (k, value) :: m else (k, v) :: insert key value m

def set (m : Mapping) (key : String) (value : Value) : Mapping :=
  insert (.string key) value m

/-- The mapping that results when the entries are inserted one after another. -/
def ofEntries (entries : List (Value × Value)) : Mapping :=
  entries.foldl (fun m e => insert e.1 e.2 m) []

theorem get?_set (m : Mapping) (key other : String) (value : Value) :
    get? other (set m key value) = if key = other then some value else get? other m := by
  unfold set
  induction m with
  | nil => simp [insert, get?]
  | cons e m ih =>
    obtain ⟨k, v⟩ := e
    rw [insert]
    cases k with
    | string k =>
      by_cases h : k = key
      · subst h
        by_cases ho : k = other <;> simp [Value.same, get?, ho]
      · by_cases ho : k = other
        · subst ho
          simp [Value.same, get?, h, Ne.symm h]
        · simp [Value.same, get?, h, ho, ih]
    | _ => simp [Value.same, get?, ih]

end Mapping

end Scaffold.Yaml
