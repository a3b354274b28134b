import Hosting.Text.Utf8

/-!
The tokens of a stream.
-/

namespace Hosting
namespace Yaml

/-- How a scalar is written. -/
inductive Style where
  | plain | single | double | literal | folded
  deriving DecidableEq, Repr

/-- The words of a stream.  Collections in block form are bracketed by tokens that
indentation implies.  What follows the handle of a tag is octets, which need not be text. -/
inductive Token where
  | versionDirective (major minor : Nat)
  | tagDirective (handle : List Char) (target : Bytes)
  | documentStart
  | documentEnd
  | blockSequenceStart
  | blockMappingStart
  | blockEnd
  | flowSequenceStart
  | flowSequenceEnd
  | flowMappingStart
  | flowMappingEnd
  | blockEntry
  | flowEntry
  | key
  | value
  | alias (name : List Char)
  | anchor (name : List Char)
  | tag (handle : List Char) (rest : Bytes)
  | scalar (style : Style) (text : List Char)
  deriving DecidableEq, Repr

end Yaml
end Hosting
