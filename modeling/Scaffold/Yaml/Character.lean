/-!
# Characters

The classes of characters that the format tells apart.
-/

namespace Scaffold.Yaml

/-- A line break that a text may hold unescaped. -/
def isBreak (c : Char) : Bool :=
  c == '\n' || c == '\u2028' || c == '\u2029'

/-- A line break of any kind, also one that is only written escaped. -/
def isLineEnd (c : Char) : Bool :=
  isBreak c || c == '\r' || c == '\u0085'

def isPrintable (c : Char) : Bool :=
  let n := c.toNat
  n == 0x0A || (0x20 ≤ n && n ≤ 0x7E) ||
    (0xA0 ≤ n && n != 0xFEFF && n != 0xFFFE && n != 0xFFFF)

def isAllowed (c : Char) : Bool :=
  let n := c.toNat
  n == 0x09 || n == 0x0A || n == 0x0D || (0x20 ≤ n && n ≤ 0x7E) || n == 0x85 ||
    (0xA0 ≤ n && n != 0xFFFE && n != 0xFFFF)

def isWhite (c : Char) : Bool :=
  c == ' ' || c == '\t'

/-- A character of an anchor's name, of a tag's handle or of a directive's name. -/
def isNameChar (c : Char) : Bool :=
  c.isAlphanum || c == '-' || c == '_'

/-- A character that stands for itself in a written tag. -/
def isTagChar (c : Char) : Bool :=
  isNameChar c || ";/?:@&=+$,.~*'()[]".toList.contains c

def isShortTagChar (c : Char) : Bool :=
  isNameChar c || ";/?:@&=+$.%!~*'()".toList.contains c

def isLongTagChar (c : Char) : Bool :=
  isShortTagChar c || ",[]".toList.contains c

def isFlowIndicator (c : Char) : Bool :=
  ",[]\x7b\x7d".toList.contains c

/-- A character that marks something else than a plain scalar where one may begin. -/
def isIndicator (c : Char) : Bool :=
  isFlowIndicator c || "#&*!|>'\"%@\x60".toList.contains c

/-- The text is at its end, at a break or at a blank: a word would end here. -/
def atWordEnd : List Char → Bool
  | [] => true
  | c :: _ => isWhite c || isBreak c

def atLineEnd : List Char → Bool
  | [] => true
  | c :: _ => isBreak c

end Scaffold.Yaml
