import QualityGate.Text.Blank

/-! # Lines and excerpts

A text is cut into lines at each line feed. A carriage return right before a line feed belongs to the
line's end; one anywhere else is part of the line, also at the end of a last line without a line
feed. The empty text has no line.

An excerpt of a line is its first characters. Characters are code points, so an excerpt never cuts
one in two. -/

namespace QualityGate.Text

def lines : List Char → List (List Char)
  | [] => []
  | '\n' :: s => [] :: lines s
  | '\r' :: '\n' :: s => [] :: lines s
  | c :: s =>
    match lines s with
    | [] => [[c]]
    | l :: ls => (c :: l) :: ls

/-- The text without the blanks at its start and at its end. -/
def trim (s : List Char) : List Char :=
  ((s.dropWhile isBlank).reverse.dropWhile isBlank).reverse

def excerpt (n : Nat) (l : List Char) : String := String.ofList (l.take n)

/-! ### Cutting a text at one character -/

/-- The parts between the occurrences of `sep`; always one more than there are occurrences. -/
def segments (sep : Char) : List Char → List (List Char)
  | [] => [[]]
  | c :: s =>
    if c = sep then
      [] :: segments sep s
    else
      match segments sep s with
      | [] => [[c]]
      | l :: ls => (c :: l) :: ls

theorem segments_ne_nil (sep : Char) (s : List Char) : segments sep s ≠ [] := by
  cases s with
  | nil => simp [segments]
  | cons c s => unfold segments; split <;> (try split) <;> simp

end QualityGate.Text
