import QualityGate.Command
import QualityGate.Outcome

/-! # Runners

A runner answers calls, each a shell line with its time budget. It may remember what it was asked
before: its state goes in with a call and comes out with the outcome. All else in the gate is a
function of the outcomes, so a run is known by its trace: the calls made, the findings, and the state
in which the runner is left. -/

namespace QualityGate

structure Call where
  line : String
  timeoutSecs : Nat
  deriving DecidableEq, Repr

def Command.call (c : Command) (file : Option String) : Call :=
  ⟨c.render file, c.timeoutSecs⟩

/-- Answers one call after another. -/
abbrev Runner (σ : Type) := σ → Call → Outcome × σ

/-- The runner that gives every line the same answer each time. -/
def Runner.ofAnswers (answer : String → Outcome) : Runner Unit :=
  fun _ c => (answer c.line, ())

end QualityGate
