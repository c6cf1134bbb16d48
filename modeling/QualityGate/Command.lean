import QualityGate.Shell.Quote
import QualityGate.Text.Search

/-! # Commands

A shell line with a time budget. The line may hold the placeholder for the edited file, which is
filled with the quoted path when there is one and stays as it is when there is none. -/

namespace QualityGate

structure Command where
  run : String
  timeoutSecs : Nat
  deriving DecidableEq, Repr

namespace Command

/-- Stands for the edited file in a command. -/
def placeholder : String := "\x7bfile\x7d"

def render (c : Command) : Option String → String
  | some file =>
    String.ofList
      (Text.substitute placeholder.toList (Shell.quote file.toList) c.run.toList)
  | none => c.run

@[simp]
theorem render_none (c : Command) : c.render none = c.run := rfl

end Command

end QualityGate
