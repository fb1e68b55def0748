import Scaffold.Number.Digits

/-!
# Binary floating-point numbers

`Binary64` has the values of the 64-bit binary format: `nan`, the two infinities and
`significand * 2 ^ exponent` with a sign. `ofDecimal` rounds a decimal to the nearest of
them, a tie to the one with the even significand. `shortest` is the converse: the decimal
with the fewest digits that rounds back, and of those the nearest.
-/

namespace Scaffold.Number

/-- A 64-bit binary floating-point number. A finite one has a significand of at most 53 bits,
which uses all of them unless the exponent is the least one. -/
inductive Binary64 where
  | nan
  | infinite (negative : Bool)
  | finite (negative : Bool) (significand : Nat) (exponent : Int)
  deriving DecidableEq, Repr

namespace Binary64

def leastExponent : Int := -1074

def greatestExponent : Int := 971

/-- `num / den` to the nearest whole number, a tie to the even one. -/
def roundDiv (num den : Nat) : Nat :=
  let q := num / den
  let r := num % den
  if 2 * r < den then q
  else if den < 2 * r then q + 1
  else if q % 2 = 0 then q else q + 1

/-- The numerator and denominator of `num / den` in units of `2 ^ e`. -/
def inUnits (num den : Nat) (e : Int) : Nat × Nat :=
  (num * power 2 (-e).toNat, den * power 2 e.toNat)

def ofRatio (negative : Bool) (num den : Nat) : Binary64 :=
  if num = 0 then .finite negative 0 leastExponent
  else
    let guess : Int := (num.log2 : Int) - den.log2 - 53
    let (n, d) := inUnits num den guess
    let e := max (if power 2 53 ≤ n / d then guess + 1 else guess) leastExponent
    let (n, d) := inUnits num den e
    let m := roundDiv n d
    let (m, e) := if m = power 2 53 then (power 2 52, e + 1) else (m, e)
    if greatestExponent < e then .infinite negative else .finite negative m e

/-- The number nearest to `digits * 10 ^ exponent`. Far beyond the range of the format the
power of ten is not computed. -/
def ofDecimal (negative : Bool) (digits : Nat) (exponent : Int) : Binary64 :=
  if digits = 0 then .finite negative 0 leastExponent
  else if 400 < exponent then .infinite negative
  else if exponent + digits.log2 / 3 + 1 < -400 then .finite negative 0 leastExponent
  else ofRatio negative (digits * power 10 exponent.toNat) (power 10 (-exponent).toNat)

/-- The two ends, in units of `2 ^ (e - 2)`, of the reals that round to `m * 2 ^ e`. Below a
power of two the gap to the neighbour is half as wide. -/
def roundingEnds (m : Nat) (e : Int) : Nat × Nat :=
  (if m = power 2 52 ∧ leastExponent < e then 4 * m - 1 else 4 * m - 2, 4 * m + 2)

/-- The factors that bring `d * 10 ^ k` and `x * 2 ^ (e - 2)` to a common unit. -/
def commonUnit (k e : Int) : Nat × Nat :=
  (power 10 k.toNat * power 2 (2 - e).toNat, power 2 (e - 2).toNat * power 10 (-k).toNat)

/-- Whether `d * 10 ^ k` rounds to `m * 2 ^ e`. -/
def readsBack (m : Nat) (e : Int) (d : Nat) (k : Int) : Bool :=
  let (a, b) := commonUnit k e
  let (low, high) := roundingEnds m e
  if m % 2 = 0 then low * b ≤ d * a && d * a ≤ high * b
  else low * b < d * a && d * a < high * b

/-- The multiple of `10 ^ k` nearest to `m * 2 ^ e` among those that round to it. Only the two
neighbours of the value on that grid can be; of two equally near the even one is taken. -/
def onGrid? (m : Nat) (e k : Int) (value : Nat) (unit : Nat) : Option Nat :=
  let below := value / unit
  let above := below + 1
  match readsBack m e below k, readsBack m e above k with
  | true, true =>
    let down := value - below * unit
    let up := above * unit - value
    if down < up ∨ (down = up ∧ below % 2 = 0) then some below else some above
  | true, false => some below
  | false, true => some above
  | false, false => none

/-- Looks on ever finer grids, the first of them that of `10 ^ k`. -/
def searchFrom (m : Nat) (e : Int) (k : Int) : (grids : Nat) → Nat × Int
  | 0 => (0, k)
  | grids + 1 =>
    let (a, b) := commonUnit k e
    match onGrid? m e k (4 * m * b) a with
    | some d => (d, k)
    | none => searchFrom m e (k - 1) grids

/-- The digits and the exponent of ten of the shortest decimal that rounds to `m * 2 ^ e`, which
is not zero. The first grid is coarser than the value is large. -/
def shortest (m : Nat) (e : Int) : Nat × Int :=
  searchFrom m e (((m.log2 : Int) + e) * 30103 / 100000 + 2) 24

end Binary64

end Scaffold.Number
