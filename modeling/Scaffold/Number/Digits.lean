/-!
# Digits

Numerals in a base up to sixteen: reading a run of digits and writing a number in
base ten.
-/

namespace Scaffold.Number

def power (base n : Nat) : Nat :=
  Nat.pow base n

def digitValue? (c : Char) : Option Nat :=
  if '0' ≤ c ∧ c ≤ '9' then some (c.toNat - 0x30)
  else if 'a' ≤ c ∧ c ≤ 'f' then some (c.toNat - 0x57)
  else if 'A' ≤ c ∧ c ≤ 'F' then some (c.toNat - 0x37)
  else none

/-- Reads on from `value`: each further digit multiplies by the base and adds itself. -/
def readFrom? (base value : Nat) : List Char → Option Nat
  | [] => some value
  | c :: s =>
    match digitValue? c with
    | some d => if d < base then readFrom? base (value * base + d) s else none
    | none => none

def read? (base : Nat) (s : List Char) : Option Nat :=
  if s.isEmpty then none else readFrom? base 0 s

def isDigit (c : Char) : Bool :=
  '0' ≤ c && c ≤ '9'

def natural (n : Nat) : List Char :=
  Nat.toDigits 10 n

def integer : Int → List Char
  | .ofNat n => natural n
  | .negSucc n => '-' :: natural (n + 1)

end Scaffold.Number
