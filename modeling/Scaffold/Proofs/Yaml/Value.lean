import Scaffold.Yaml.Value

/-!
# Equal values

Equality of values can be decided: unlike equality as keys it looks at the order of a mapping's
entries and at the sign of a zero.
-/

namespace Scaffold.Yaml

mutual

def Value.isEqual : Value → Value → Bool
  | .null, .null => true
  | .bool a, .bool b => a == b
  | .int m, .int n => m == n
  | .float x, .float y => x == y
  | .string s, .string t => s == t
  | .sequence xs, .sequence ys => areEqual xs ys
  | .mapping es, .mapping fs => entriesEqual es fs
  | .tagged t v, .tagged u w => t == u && v.isEqual w
  | _, _ => false

def areEqual : List Value → List Value → Bool
  | [], [] => true
  | x :: xs, y :: ys => x.isEqual y && areEqual xs ys
  | _, _ => false

def entriesEqual : List (Value × Value) → List (Value × Value) → Bool
  | [], [] => true
  | (k, v) :: es, (l, w) :: fs => k.isEqual l && v.isEqual w && entriesEqual es fs
  | _, _ => false

end

mutual

theorem isEqual_iff (v w : Value) : v.isEqual w = true ↔ v = w := by
  match v with
  | .null | .bool _ | .int _ | .float _ | .string _ => cases w <;> simp [Value.isEqual]
  | .sequence xs =>
    cases w with
    | sequence ys => simp [Value.isEqual, areEqual_iff xs ys]
    | _ => simp [Value.isEqual]
  | .mapping es =>
    cases w with
    | mapping fs => simp [Value.isEqual, entriesEqual_iff es fs]
    | _ => simp [Value.isEqual]
  | .tagged t v =>
    cases w with
    | tagged u w => simp [Value.isEqual, isEqual_iff v w]
    | _ => simp [Value.isEqual]

theorem areEqual_iff (xs ys : List Value) : areEqual xs ys = true ↔ xs = ys := by
  match xs, ys with
  | [], [] | [], _ :: _ | _ :: _, [] => simp [areEqual]
  | x :: xs, y :: ys => simp [areEqual, isEqual_iff x y, areEqual_iff xs ys]

theorem entriesEqual_iff (es fs : List (Value × Value)) : entriesEqual es fs = true ↔ es = fs := by
  match es, fs with
  | [], [] | [], _ :: _ | _ :: _, [] => simp [entriesEqual]
  | (k, v) :: es, (l, w) :: fs =>
    simp [entriesEqual, isEqual_iff k l, isEqual_iff v w, entriesEqual_iff es fs]

end

instance : DecidableEq Value := fun v w => decidable_of_iff _ (isEqual_iff v w)

end Scaffold.Yaml
