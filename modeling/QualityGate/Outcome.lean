import QualityGate.Text.Line
import QualityGate.Text.Search
import QualityGate.Text.Utf8

/-! # Outcomes of commands

All that a check ever sees of a command: whether it succeeded, and what it printed. -/

namespace QualityGate

/-- What came of one command. The output is standard output followed by standard error. -/
structure Outcome where
  succeeded : Bool
  output : String
  deriving DecidableEq, Repr

namespace Outcome

/-- The outcome of a command that failed before it could print, with the reason as its output. -/
def failed (reason : String) : Outcome := ⟨false, reason⟩

def timedOut : Outcome := failed "Timed out"

/-- The outcome of a command that ended by itself. Its two outputs are decoded apart from each other. -/
def ofStreams (succeeded : Bool) (stdout stderr : Bytes) : Outcome :=
  ⟨succeeded, stdout.toStringLossy ++ stderr.toStringLossy⟩

def lines (o : Outcome) : List (List Char) := Text.lines o.output.toList

/-- Whether the output mentions an ASCII word, in any letter case. The word is in lower case. -/
def mentions (o : Outcome) (word : String) : Bool :=
  Text.occursIn word.toList (Text.fold o.output.toList)

/-- How often the output mentions an ASCII word, in any letter case. -/
def mentionCount (o : Outcome) (word : String) : Nat :=
  Text.occurrences word.toList (Text.fold o.output.toList)

end Outcome

end QualityGate
