import Scaffold.Yaml.Value

/-!
# Plain scalars

What a scalar without quotes means. The words for null and the booleans come in three
cases each; an integer may be written in base two, eight, ten or sixteen; a float needs a
digit; all else is a string. A run of digits that begins with a zero is a string as well.
-/

namespace Scaffold.Yaml

open Scaffold.Number

inductive Scalar where
  | null
  | bool (b : Bool)
  | int (n : Int)
  /-- an integer of more than 64 and at most 128 bits, which no value holds -/
  | tooLarge
  | float (x : Binary64)
  | string
  deriving DecidableEq, Repr

namespace Scalar

def isNullWord (s : String) : Bool :=
  s == "null" || s == "Null" || s == "NULL" || s == "~"

def boolWord? (s : String) : Option Bool :=
  if s == "true" || s == "True" || s == "TRUE" then some true
  else if s == "false" || s == "False" || s == "FALSE" then some false
  else none

/-- A sign taken off: whether it was a minus, and what follows it. -/
def splitSign : List Char → Option Bool × List Char
  | '-' :: s => (some true, s)
  | '+' :: s => (some false, s)
  | s => (none, s)

/-- Two or more digits of which the first is a zero, after at most one sign. -/
def isPaddedNumeral (s : List Char) : Bool :=
  match (splitSign s).2 with
  | '0' :: c :: rest => (c :: rest).all isDigit
  | _ => false

/-- The number that a numeral without a sign writes. -/
def magnitude? : List Char → Option Nat
  | '0' :: 'x' :: s => read? 16 s
  | '0' :: 'o' :: s => read? 8 s
  | '0' :: 'b' :: s => read? 2 s
  | s => read? 10 s

def integer? (s : List Char) : Option Int :=
  if isPaddedNumeral s then none
  else
    match splitSign s with
    | (some true, s) => (magnitude? s).map fun n => -(n : Int)
    | (_, s) => (magnitude? s).map fun n => (n : Int)

/-- The words for the infinities and for what is not a number. -/
def floatWord? (s : String) : Option Binary64 :=
  if s == ".inf" || s == ".Inf" || s == ".INF" then some (.infinite false)
  else if s == "+.inf" || s == "+.Inf" || s == "+.INF" then some (.infinite false)
  else if s == "-.inf" || s == "-.Inf" || s == "-.INF" then some (.infinite true)
  else if s == ".nan" || s == ".NaN" || s == ".NAN" then some .nan
  else none

/-- The exponent of a decimal, from the letter that introduces it; nothing is the exponent 0. -/
def exponent? : List Char → Option Int
  | [] => some 0
  | c :: s =>
    if c = 'e' ∨ c = 'E' then
      match splitSign s with
      | (some true, s) => (read? 10 s).map fun n => -(n : Int)
      | (_, s) => (read? 10 s).map fun n => (n : Int)
    else none

/-- The digits and the exponent of ten of a decimal without a sign. -/
def decimal? (s : List Char) : Option (Nat × Int) :=
  let whole := s.takeWhile isDigit
  let rest := s.dropWhile isDigit
  let (part, rest) : List Char × List Char :=
    match rest with
    | '.' :: rest => (rest.takeWhile isDigit, rest.dropWhile isDigit)
    | rest => ([], rest)
  match read? 10 (whole ++ part), exponent? rest with
  | some digits, some e => some (digits, e - part.length)
  | _, _ => none

def finite? (s : List Char) : Option Binary64 :=
  let (sign, s) := splitSign s
  match decimal? s with
  | some (digits, e) =>
    match Binary64.ofDecimal (sign == some true) digits e with
    | .finite n m q => some (.finite n m q)
    | _ => none
  | none => none

def float? (s : String) : Option Binary64 :=
  match floatWord? s with
  | some x => some x
  | none => finite? s.toList

/-- What an integer of this size is read as, if it is read as an integer. -/
def ofInteger? (n : Int) : Option Scalar :=
  if -(power 2 63 : Int) ≤ n ∧ n < power 2 64 then some (.int n)
  else if -(power 2 127 : Int) ≤ n ∧ n < power 2 128 then some .tooLarge
  else none

/-- The number that `s` writes, an integer if it can be one. -/
def number? (s : String) : Option Scalar :=
  match (integer? s.toList).bind ofInteger? with
  | some r => some r
  | none => if isPaddedNumeral s.toList then none else (float? s).map .float

def ofPlain (s : String) : Scalar :=
  if s.isEmpty || isNullWord s then .null
  else
    match boolWord? s with
    | some b => .bool b
    | none => (number? s).getD .string

/-- Whether `s` written plainly would be taken for something else than the string `s`, or looks
enough like a number that a reader might. -/
def needsQuotes (s : String) : Bool :=
  ofPlain s != .string || isPaddedNumeral s.toList

end Scalar

end Scaffold.Yaml
