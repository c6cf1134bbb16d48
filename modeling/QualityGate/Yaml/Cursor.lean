/-! # Places in a YAML text

A mark counts lines and columns from zero, in characters; a cursor is a mark with the text from there
on. A carriage return with a line feed behind it is one line break, and so is either of them alone,
the next-line character, and the two separators of lines and paragraphs. -/

namespace QualityGate.Yaml

structure Mark where
  index : Nat
  line : Nat
  column : Nat
  deriving DecidableEq, Repr

def Mark.describe (m : Mark) : String :=
  s!"line {m.line + 1} column {m.column + 1}"

/-! ### Faults -/

/-- What makes a text no YAML. -/
inductive Problem where
  | controlCharacter
  | noKeyColon
  | misplacedEntry
  | misplacedKey
  | misplacedValue
  | strangeStart
  | badAnchor
  | badTag
  | badTagEscape
  | badDirective
  | badVersion
  | repeatedVersion
  | repeatedHandle
  | unknownHandle
  | unknownAnchor
  | trailingText
  | zeroIndentation
  | tabIndentation
  | documentInScalar
  | unclosedScalar
  | badEscape
  | colonInFlow
  | noContent
  | noDash
  | noKey
  | noSequenceComma
  | noMappingComma
  | noDocumentStart
  | severalDocuments
  deriving DecidableEq, Repr

def Problem.message : Problem → String
  | .controlCharacter => "control characters are not allowed"
  | .noKeyColon => "could not find expected ':'"
  | .misplacedEntry => "block sequence entries are not allowed in this context"
  | .misplacedKey => "mapping keys are not allowed in this context"
  | .misplacedValue => "mapping values are not allowed in this context"
  | .strangeStart => "found character that cannot start any token"
  | .badAnchor => "did not find expected alphabetic or numeric character"
  | .badTag => "did not find expected tag URI"
  | .badTagEscape => "found an invalid escape in a tag"
  | .badDirective => "found unknown directive name"
  | .badVersion => "found incompatible YAML document"
  | .repeatedVersion => "found duplicate %YAML directive"
  | .repeatedHandle => "found duplicate %TAG directive"
  | .unknownHandle => "found undefined tag handle"
  | .unknownAnchor => "unknown anchor"
  | .trailingText => "did not find expected comment or line break"
  | .zeroIndentation => "found an indentation indicator equal to 0"
  | .tabIndentation => "found a tab character where an indentation space is expected"
  | .documentInScalar => "found unexpected document indicator"
  | .unclosedScalar => "found unexpected end of stream"
  | .badEscape => "found unknown escape character"
  | .colonInFlow => "found unexpected ':'"
  | .noContent => "did not find expected node content"
  | .noDash => "did not find expected '-' indicator"
  | .noKey => "did not find expected key"
  | .noSequenceComma => "did not find expected ',' or ']'"
  | .noMappingComma => "did not find expected ',' or '\x7d'"
  | .noDocumentStart => "did not find expected <document start>"
  | .severalDocuments => "deserializing from YAML containing more than one document is not supported"

structure Fault where
  problem : Problem
  mark : Mark
  deriving DecidableEq, Repr

def Fault.message (f : Fault) : String :=
  s!"{f.problem.message} at {f.mark.describe}"

/-! ### Characters -/

def isBreak (c : Char) : Bool :=
  c = '\n' || c = '\r' || c = '\x85' || c = '\u2028' || c = '\u2029'

def isGap (c : Char) : Bool :=
  c = ' ' || c = '\t'

/-- Whether a line ends here: at a line break or at the end of the text. -/
def endsLine (c : Option Char) : Bool :=
  c.all isBreak

/-- Whether a word ends here: at a gap, at a line break or at the end of the text. -/
def endsWord (c : Option Char) : Bool :=
  c.all fun c => isGap c || isBreak c

def isWordChar (c : Char) : Bool :=
  c.isAlphanum || c = '_' || c = '-'

/-- A character that may stand in a YAML text at all. -/
def isAllowed (c : Char) : Bool :=
  let n := c.toNat
  n = 0x09 || n = 0x0A || n = 0x0D || (0x20 ≤ n && n ≤ 0x7E) || n = 0x85 ||
  (0xA0 ≤ n && n ≤ 0xD7FF) || (0xE000 ≤ n && n ≤ 0xFFFD) || 0x10000 ≤ n

/-! ### Cursors -/

structure Cursor where
  rest : List Char
  mark : Mark
  deriving Repr

namespace Cursor

def start (s : List Char) : Cursor := ⟨s, ⟨0, 0, 0⟩⟩

def peek (c : Cursor) : Option Char := c.rest.head?

/-- The character `n` places on. -/
def peekAt (c : Cursor) (n : Nat) : Option Char := c.rest[n]?

def skip (n : Nat) (c : Cursor) : Cursor :=
  let k := min n c.rest.length
  ⟨c.rest.drop n, ⟨c.mark.index + k, c.mark.line, c.mark.column + k⟩⟩

/-- Passes a line break, and tells what it counts for in a scalar: a line feed, except that the two
separators stand for themselves. -/
def readBreak (c : Cursor) : List Char × Cursor :=
  let next (n : Nat) (rest : List Char) : Cursor := ⟨rest, ⟨c.mark.index + n, c.mark.line + 1, 0⟩⟩
  match c.rest with
  | '\r' :: '\n' :: rest => (['\n'], next 2 rest)
  | '\u2028' :: rest => (['\u2028'], next 1 rest)
  | '\u2029' :: rest => (['\u2029'], next 1 rest)
  | d :: rest => if isBreak d then (['\n'], next 1 rest) else ([], c)
  | [] => ([], c)

/-- The characters of this line from here on that satisfy `p`, and the place behind them. -/
def span (p : Char → Bool) (c : Cursor) : List Char × Cursor :=
  let word := c.rest.takeWhile p
  (word, c.skip word.length)

def skipWhile (p : Char → Bool) (c : Cursor) : Cursor :=
  (c.span p).2

def skipGaps (c : Cursor) : Cursor := c.skipWhile isGap

def skipComment (c : Cursor) : Cursor :=
  if c.peek = some '#' then c.skipWhile (! isBreak ·) else c

/-- Whether three of the given characters stand alone at the start of a line here. -/
def atIndicator (d : Char) (c : Cursor) : Bool :=
  c.mark.column = 0 && [d, d, d].isPrefixOf c.rest && endsWord (c.peekAt 3)

/-- Whether a document starts or ends here. -/
def atDocumentIndicator (c : Cursor) : Bool :=
  c.atIndicator '-' || c.atIndicator '.'

def fail {α : Type} (c : Cursor) (p : Problem) : Except Fault α :=
  .error ⟨p, c.mark⟩

end Cursor

end QualityGate.Yaml
