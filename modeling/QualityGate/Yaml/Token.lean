import QualityGate.Yaml.Tag

/-! # YAML tokens

A YAML text is first cut into tokens. Indentation becomes tokens too: a block collection has a token
at its start and one at its end. A key that is written without `?` is only known by the colon behind
it; its two tokens are put in front of it then. -/

namespace QualityGate.Yaml

inductive ScalarStyle where
  | plain
  | singleQuoted
  | doubleQuoted
  | literal
  | folded
  deriving DecidableEq, Repr

inductive Token where
  | directive (d : Directive)
  | documentStart
  | documentEnd
  | blockSequenceStart
  | blockMappingStart
  | blockEnd
  | flowSequenceStart
  | flowSequenceEnd
  | flowMappingStart
  | flowMappingEnd
  | blockEntry
  | flowEntry
  | key
  | value
  | alias (name : List Char)
  | anchor (name : List Char)
  | tag (handle suffix : List Char)
  | scalar (text : List Char) (style : ScalarStyle)
  | streamEnd
  deriving DecidableEq, Repr

/-- A token with the places of its start and of its end. -/
structure Lexeme where
  token : Token
  start : Mark
  stop : Mark
  deriving DecidableEq, Repr

end QualityGate.Yaml
