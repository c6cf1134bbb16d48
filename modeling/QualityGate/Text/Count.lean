import QualityGate.Text.Blank
import QualityGate.Text.Digit

/-! # Counted nouns

A tool's summary says how many there are of something: digits, blanks, then the noun, as in
`12 errors`. The count is the leftmost such run of digits, taken whole. -/

namespace QualityGate.Text

/-- The digits at the start of a text, when blanks and then the noun follow them. -/
def countAt? (noun s : List Char) : Option (List Char) :=
  let digits := s.takeWhile isDecimalDigit
  let rest := s.dropWhile isDecimalDigit
  let tail := rest.dropWhile isBlank
  if digits ≠ [] ∧ rest.head?.any isBlank ∧ noun.isPrefixOf tail then some digits else none

/-- The digits of the leftmost count of the noun in a text. -/
def leftmostCount? (noun : List Char) : List Char → Option (List Char)
  | [] => none
  | c :: s =>
    match countAt? noun (c :: s) with
    | some digits => some digits
    | none => leftmostCount? noun s

/-- The number of the leftmost count of the noun: zero when there is none, when it is written with
digits outside ASCII, or when it does not fit 64 bits. -/
def countOf (noun s : List Char) : Nat :=
  ((leftmostCount? noun s).bind wordValue?).getD 0

end QualityGate.Text
