import Scaffold.Yaml.Character
import Scaffold.Yaml.Scalar

/-!
# Spelling of scalars

How a scalar is written: the digits of a float, and the four styles of a string. A string
with a line feed is written literally, one that reads back plainly is written plainly, and
any other is quoted. `Style.ofString` takes the first style that fits; every string fits
double quotes.
-/

namespace Scaffold.Yaml

open Scaffold.Number

/-! ## Floats -/

/-- A float between these exponents of ten is written without one. -/
def isPositional (magnitude : Int) : Bool :=
  -5 < magnitude && magnitude ≤ 16

/-- The decimal `digits * 10 ^ exponent` as a text with a point or an exponent. -/
def decimalText (digits : List Char) (exponent : Int) : List Char :=
  let magnitude := digits.length + exponent
  if isPositional magnitude then
    if 0 ≤ exponent then digits ++ List.replicate exponent.toNat '0' ++ ['.', '0']
    else if 0 < magnitude then
      digits.take magnitude.toNat ++ '.' :: digits.drop magnitude.toNat
    else '0' :: '.' :: List.replicate (-magnitude).toNat '0' ++ digits
  else
    let mantissa :=
      match digits with
      | d :: e :: rest => d :: '.' :: e :: rest
      | ds => ds
    mantissa ++ 'e' :: integer (magnitude - 1)

/-- The text of a float: the fewest digits that read back. -/
def floatText : Binary64 → List Char
  | .nan => ".nan".toList
  | .infinite false => ".inf".toList
  | .infinite true => "-.inf".toList
  | .finite negative m e =>
    let text :=
      if m = 0 then ['0', '.', '0']
      else
        let (digits, exponent) := Binary64.shortest m e
        decimalText (natural digits) exponent
    if negative then '-' :: text else text

/-! ## What a style can hold -/

/-- Some character with `p` has a neighbour with `q` on its right. -/
def hasPair (p q : Char → Bool) : List Char → Bool
  | a :: b :: s => (p a && q b) || hasPair p q (b :: s)
  | _ => false

/-- The text begins like a block entry, a key, a document marker or with an indicator. -/
def beginsSpecially : List Char → Bool
  | '-' :: '-' :: '-' :: _ => true
  | '.' :: '.' :: '.' :: _ => true
  | [c] => isIndicator c || c == '-' || c == '?'
  | c :: d :: _ => isIndicator c || ((c == '-' || c == '?') && d == ' ')
  | [] => false

/-- The text holds the end of a key or the beginning of a comment. -/
def holdsMark (s : List Char) : Bool :=
  hasPair (· == ':') (· == ' ') s || s.getLast? == some ':' || hasPair (· == ' ') (· == '#') s

def fitsPlain (s : List Char) : Bool :=
  s.head? != some ' ' && s.getLast? != some ' ' && s.all isPrintable && !s.any isBreak &&
    !beginsSpecially s && !holdsMark s

def fitsSingle (s : List Char) : Bool :=
  s.all isPrintable && !hasPair isBreak (· == ' ') s && !hasPair (· == ' ') isBreak s

def fitsLiteral (s : List Char) : Bool :=
  s.all isPrintable && s.getLast? != some ' ' && !hasPair (· == ' ') isBreak s

inductive Style where
  | plain
  | single
  | double
  | literal
  deriving DecidableEq, Repr

def Style.ofString (s : String) : Style :=
  let cs := s.toList
  if cs.contains '\n' then if fitsLiteral cs then .literal else .double
  else if !Scalar.needsQuotes s && fitsPlain cs then .plain
  else if fitsSingle cs then .single
  else .double

/-! ## Texts in their styles -/

def spaces (n : Nat) : List Char :=
  List.replicate n ' '

/-- The lines of a text in single quotes: a quote is doubled, and a line that follows a break
begins with the indentation. -/
def singleBody (indentation : Nat) : (afterBreak : Bool) → List Char → List Char
  | afterBreak, [] => if afterBreak then spaces indentation else []
  | afterBreak, c :: s =>
    if isBreak c then c :: singleBody indentation true s
    else
      let text := (if c = '\'' then ['\'', '\''] else [c]) ++ singleBody indentation false s
      if afterBreak then spaces indentation ++ text else text

/-- The `width` last digits of `n` in base sixteen. -/
def hexText : (width : Nat) → (n : Nat) → List Char
  | 0, _ => []
  | width + 1, n => hexText width (n / 16) ++ [("0123456789ABCDEF".toList)[n % 16]?.getD '0']

def escapeLetter? (c : Char) : Option Char :=
  List.lookup c.toNat [(0x00, '0'), (0x07, 'a'), (0x08, 'b'), (0x09, 't'), (0x0A, 'n'), (0x0B, 'v'),
    (0x0C, 'f'), (0x0D, 'r'), (0x1B, 'e'), (0x22, '"'), (0x5C, '\\'), (0x85, 'N'), (0x2028, 'L'),
    (0x2029, 'P')]

def escaped (c : Char) : List Char :=
  match escapeLetter? c with
  | some letter => ['\\', letter]
  | none =>
    if isPrintable c then [c]
    else if c.toNat ≤ 0xFF then '\\' :: 'x' :: hexText 2 c.toNat
    else if c.toNat ≤ 0xFFFF then '\\' :: 'u' :: hexText 4 c.toNat
    else '\\' :: 'U' :: hexText 8 c.toNat

/-- The header of a literal block: an indentation where the text's own would be mistaken for it,
and what becomes of the breaks at the end. -/
def literalHeader (s : List Char) : List Char :=
  let depth := if s.head?.any fun c => c == ' ' || isBreak c then ['2'] else []
  let ending :=
    match s.reverse with
    | c :: rest =>
      if !isBreak c then ['-']
      else if rest.head?.all isBreak then ['+'] else []
    | [] => ['-']
  '|' :: depth ++ ending

/-- The lines of a literal block, each that is not empty indented. -/
def literalBody (indentation : Nat) : (afterBreak : Bool) → List Char → List Char
  | _, [] => []
  | afterBreak, c :: s =>
    if isBreak c then c :: literalBody indentation true s
    else if afterBreak then spaces indentation ++ c :: literalBody indentation false s
    else c :: literalBody indentation false s

/-- The string `s` where further lines are indented by `indentation`. -/
def stringText (indentation : Nat) (s : String) : List Char :=
  let cs := s.toList
  match Style.ofString s with
  | .plain => cs
  | .single => '\'' :: singleBody indentation false cs ++ ['\'']
  | .double => '"' :: cs.flatMap escaped ++ ['"']
  | .literal => literalHeader cs ++ '\n' :: literalBody indentation true cs

end Scaffold.Yaml
