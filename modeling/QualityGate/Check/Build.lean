import QualityGate.Finding
import QualityGate.Outcome

/-! # Compiler and test runner output

A compile run fails for the report only when it failed and also mentions an error; the first line
that does is the excerpt. A failed test run is a warning. -/

namespace QualityGate.Build

def excerptLength : Nat := 120

/-- The first line that mentions an error, in any letter case. -/
def errorLine? (o : Outcome) : Option (List Char) :=
  o.lines.find? fun l => Text.occursIn "error".toList (Text.fold l)

/-- A compile run for a language. -/
def compile (language : String) (o : Outcome) : List Finding :=
  if ¬ o.succeeded ∧ o.mentions "error" then
    [{ Finding.error .compile s!"{language} compile FAILED" with
       detail := (errorLine? o).map fun l => Text.excerpt excerptLength (Text.trim l) }]
  else
    [.info .compile s!"{language} compiles"]

def tests (language : String) (o : Outcome) : List Finding :=
  if o.succeeded then [.info .tests s!"{language} tests pass"]
  else [.warning .tests s!"{language} tests failed"]

end QualityGate.Build
