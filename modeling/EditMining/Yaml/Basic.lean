/-!
# YAML values

A `Yaml` is a document in the YAML format. A scalar keeps its text and whether
it was written plainly, without quotes and not as a block: only plain scalars
can be numbers, truth values or null. Keys of mappings are values themselves,
and may repeat.
-/

namespace EditMining

inductive Yaml where
  | scalar (text : String) (isPlain : Bool)
  | sequence (items : List Yaml)
  | mapping (members : List (Yaml × Yaml))
  deriving Inhabited

namespace Yaml

/-- What stands where nothing is written. -/
def blank : Yaml := .scalar "" true

/-- A unit of YAML text. Where blocks begin and end follows from the
indentation. -/
inductive Lexeme where
  | directive
  | documentStart
  | documentEnd
  | streamEnd
  | blockSequenceStart
  | blockMappingStart
  | blockEnd
  | flowSequenceStart
  | flowSequenceEnd
  | flowMappingStart
  | flowMappingEnd
  | blockEntry
  | flowEntry
  | key
  | value
  | alias (name : String)
  | anchor (name : String)
  | tag
  | scalar (text : String) (isPlain : Bool)
  deriving DecidableEq, Inhabited, Repr

end Yaml

end EditMining
