/-!
# Tokens

The tokens of a document. Blocks are delimited by indentation alone in the text; among
tokens they have a beginning and an end of their own.
-/

namespace Scaffold.Yaml

inductive Token where
  | versionDirective (major minor : Nat)
  /-- what a tag's handle stands for -/
  | tagDirective (handle : List Char) (meaning : List UInt8)
  | documentStart
  | documentEnd
  | blockSequence
  | blockMapping
  | blockEnd
  | flowSequence
  | flowSequenceEnd
  | flowMapping
  | flowMappingEnd
  | item
  | comma
  | key
  | value
  | alias (anchor : Nat)
  | anchor (number : Nat)
  | tag (handle : List Char) (suffix : List UInt8)
  | scalar (text : String) (plain : Bool)
  deriving DecidableEq, Repr

end Scaffold.Yaml
