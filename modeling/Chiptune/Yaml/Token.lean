import Chiptune.Text.Point

/-!
# Tokens of a configuration text

What is left of a text when layout has been turned into marks: the start and end of every block,
and a mark in front of every key.
-/

namespace Chiptune
namespace Yaml

/-- What a directive in front of a document says. -/
inductive Directive where
  | version (major : Int)
  | tag (handle start : String)
  | unknown
  deriving DecidableEq, Repr

/-- A token. -/
inductive Token where
  | streamEnd
  | directive (content : Directive)
  | documentStart
  | documentEnd
  | blockSequenceStart
  | blockMappingStart
  | blockEnd
  | flowSequenceStart
  | flowSequenceEnd
  | flowMappingStart
  | flowMappingEnd
  | blockEntry
  | flowEntry
  | key
  | value
  | alias (name : String)
  | anchor (name : String)
  | tag (handle? : Option String) (suffix : String)
  | scalar (text : List Text.Point) (plain : Bool)
  deriving DecidableEq, Repr

end Yaml
end Chiptune
