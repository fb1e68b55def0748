/-!
# String literals

How far a literal reaches, and the text between its quotes, exactly as it is written: escapes
stay.

A literal begins with letters that say how it is read and an opening quote, and reaches to
the next such quote that no backslash stands before. A literal with an `f` among its letters
has fields in braces, and a quote inside a field does not end it.
-/

namespace Scaffold.Source

def mayPrecedeQuotes (c : Char) : Bool :=
  "rRbBuUfF".toList.contains c

/-- The quotes that a literal can be enclosed in; those of three characters come first. -/
def quotes : List (List Char) :=
  [['"', '"', '"'], ['\'', '\'', '\''], ['"'], ['\'']]

/-! ## How far a literal reaches -/

/-- The quotes that open a literal; a backquote opens one too, though it is not taken off. -/
def openingQuotes : List (List Char) :=
  quotes ++ [['\x60']]

def quoteAt? (s : List Char) : Option (List Char) :=
  openingQuotes.find? fun q => q.isPrefixOf s

/-- What has to be closed before a literal is at its end. -/
inductive Pending where
  | text (quote : List Char) (hasFields : Bool)
  | field (closer : Char)
  deriving DecidableEq, Repr

def closingBracket? : (c : Char) → Option Char
  | '(' => some ')'
  | '[' => some ']'
  | '\x7b' => some '\x7d'
  | _ => none

/-- How many characters there are until nothing is pending, the first `skip` of them counted
unseen. A literal with quotes of one character ends only on its line, but a break directly
behind its beginning, an escape or a field belongs to it: that is what `fresh` says. -/
def lengthFrom? : (skip : Nat) → (fresh : Bool) → List Pending → List Char → Option Nat
  | 0, _, [], _ => some 0
  | _, _, _, [] => none
  | skip + 1, fresh, pending, _ :: s => (lengthFrom? skip fresh pending s).map (· + 1)
  | 0, fresh, .text quote hasFields :: outer, c :: s =>
    Option.map (· + 1) <|
      if c = '\\' then lengthFrom? 1 true (.text quote hasFields :: outer) s
      else if quote.isPrefixOf (c :: s) then lengthFrom? (quote.length - 1) true outer s
      else if hasFields && c == '\x7b' then
        if s.head? = some '\x7b' then lengthFrom? 1 true (.text quote hasFields :: outer) s
        else lengthFrom? 0 true (.field '\x7d' :: .text quote hasFields :: outer) s
      else if c == '\n' && quote.length == 1 && !fresh then none
      else lengthFrom? 0 false (.text quote hasFields :: outer) s
  | 0, _, .field closer :: outer, c :: s =>
    Option.map (· + 1) <|
      if c = closer then lengthFrom? 0 true outer s
      else
        match closingBracket? c, quoteAt? (c :: s) with
        | some inner, _ => lengthFrom? 0 true (.field inner :: .field closer :: outer) s
        | none, some quote =>
          lengthFrom? (quote.length - 1) true (.text quote false :: .field closer :: outer) s
        | none, none => lengthFrom? 0 true (.field closer :: outer) s

def literalLength? (s : List Char) : Option Nat :=
  let letters := s.takeWhile mayPrecedeQuotes
  let body := s.drop letters.length
  match quoteAt? body with
  | none => none
  | some quote =>
    let hasFields := letters.any fun c => c == 'f' || c == 'F'
    (lengthFrom? quote.length true [.text quote hasFields] body).map (letters.length + ·)

/-! ## What stands between the quotes -/

/-- What stands between `quote` at the beginning and `quote` at the end. -/
def between? (quote s : List Char) : Option (List Char) :=
  if quote.isPrefixOf s then
    let rest := s.drop quote.length
    if quote.isSuffixOf rest then some (rest.take (rest.length - quote.length)) else none
  else none

/-- What stands between the quotes of a literal; all of it after the letters in front if it is
not enclosed in quotes. -/
def unquote (literal : String) : String :=
  let body := literal.toList.dropWhile mayPrecedeQuotes
  String.ofList ((quotes.findSome? fun q => between? q body).getD body)

end Scaffold.Source
