import QualityGate.Finding
import QualityGate.Outcome
import QualityGate.Text.Count

/-! # Linter output

Three readings. The summary of a quiet run over the whole project ends with a count of errors. After
a fixing run over one file, every mention of an error that is left counts. The fast linter marks each
diagnostic line with an exclamation mark. -/

namespace QualityGate.Lint

/-- The summary of a run over the whole project: one error with the count, if the count is positive.
An output that mentions `0 errors` anywhere is taken as clean. -/
def summary (o : Outcome) : List Finding :=
  if o.mentions "error" ∧ ¬ o.mentions "0 errors" then
    let n := Text.countOf "error".toList o.output.toList
    if n = 0 then [] else [.error .lint s!"Lint: {n} error(s)"]
  else
    []

/-- What a fixing run over one file left behind. -/
def remaining (o : Outcome) : List Finding :=
  let n := o.mentionCount "error"
  if 0 < n then [.error .lint s!"Lint: {n} error(s) remain"] else [.info .lint "Lint passed/fixed"]

def diagnosticLimit : Nat := 3

def diagnosticLength : Nat := 100

/-- The diagnostics of the fast linter: the output lines that start with `!` once they are trimmed. -/
def diagnosticLines (o : Outcome) : List (List Char) :=
  (o.lines.map Text.trim).filter (·.head? = some '!')

/-- The first few diagnostics, each an error under the tool's name. -/
def diagnostics (tool : String) (o : Outcome) : List Finding :=
  ((diagnosticLines o).take diagnosticLimit).map fun l =>
    .error .lint (tool ++ ": " ++ Text.excerpt diagnosticLength l)

end QualityGate.Lint
