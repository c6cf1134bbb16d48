import QualityGate.Finding
import QualityGate.Outcome
import QualityGate.Text.Count

/-! # Duplicate scanner output

A silent scan ends with a count of exact clones, and any clone blocks. The console reporter prints
one line per clone, and clones counted that way are only a warning. -/

namespace QualityGate.Duplicates

/-- The summary of a silent scan. -/
def exactClones (o : Outcome) : List Finding :=
  if o.mentions "duplicated lines" then
    let n := Text.countOf "exact clones".toList o.output.toList
    if n = 0 then [] else [.error .duplicates s!"Duplicates: {n} clones found"]
  else
    []

/-- What the console reporter prints for each clone. -/
def marker : String := "Clone found"

/-- The number of clones that the console reporter shows. -/
def cloneCount (o : Outcome) : Nat :=
  Text.occurrences marker.toList o.output.toList

/-- The clones that the console reporter shows in `scope`. A clean scan is noted if asked for. -/
def clones (scope : String) (reportClean : Bool) (o : Outcome) : List Finding :=
  let n := cloneCount o
  if 0 < n then [.warning .duplicates s!"{n} duplicate block(s) in {scope}"]
  else if reportClean then [.info .duplicates s!"No duplicates in {scope}"]
  else []

end QualityGate.Duplicates
