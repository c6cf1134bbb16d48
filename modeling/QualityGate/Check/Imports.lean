import QualityGate.Finding
import QualityGate.Outcome

/-! # Module graph output

Circular imports and unused exports. Both only warn. -/

namespace QualityGate.Imports

def circular (o : Outcome) : List Finding :=
  if o.mentions "error" ∨ o.mentions "circular" then
    [.warning .circular "Circular dependencies detected"]
  else
    [.info .circular "No circular deps"]

/-- Up to this many mentions, unused exports are taken as noise. -/
def noiseLimit : Nat := 5

def unusedExports (o : Outcome) : List Finding :=
  let n := o.mentionCount "unused"
  if noiseLimit < n then [.warning .unusedExports s!"~{n} unused exports detected"] else []

end QualityGate.Imports
