/-!
# White space

`isBlank` is Unicode's White_Space property. `trim` removes blanks from both ends
of a text and leaves what lies between them alone.
-/

namespace Scaffold.Text

/-- A character with Unicode's White_Space property: 25 of them. -/
def isBlank (c : Char) : Bool :=
  let n := c.toNat
  n == 0x20 || (0x09 ≤ n && n ≤ 0x0D) || n == 0x85 || n == 0xA0 || n == 0x1680 ||
    (0x2000 ≤ n && n ≤ 0x200A) || n == 0x2028 || n == 0x2029 || n == 0x202F ||
    n == 0x205F || n == 0x3000

def trimEnd : List Char → List Char
  | [] => []
  | c :: s =>
    match trimEnd s with
    | [] => if isBlank c then [] else [c]
    | t => c :: t

def trim (s : List Char) : List Char :=
  trimEnd (s.dropWhile isBlank)

def trimmed (s : String) : String :=
  String.ofList (trim s.toList)

@[simp] theorem trimEnd_nil : trimEnd [] = [] := rfl

theorem trimEnd_eq_nil_iff {s : List Char} : trimEnd s = [] ↔ ∀ c ∈ s, isBlank c := by
  induction s with
  | nil => simp
  | cons c s ih =>
    rw [trimEnd]
    split
    · rename_i h
      by_cases hc : isBlank c <;> simp_all
    · rename_i h
      simp_all

end Scaffold.Text
