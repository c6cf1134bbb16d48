import QualityGate.Runner
import QualityGate.Text.Search

/-! # Replayed answers

A runner that starts no process: it answers from a list of replies. A call takes the first reply whose
pattern occurs in its line and that is not used up; a call that no reply fits succeeds silently. -/

namespace QualityGate

/-- An answer to the calls whose line contains the pattern, for so many calls or for any number. -/
structure Reply where
  pattern : String
  outcome : Outcome
  uses : Option Nat
  deriving DecidableEq, Repr

namespace Reply

def fits (r : Reply) (line : String) : Bool :=
  r.uses ≠ some 0 && Text.occursIn r.pattern.toList line.toList

def used (r : Reply) : Reply :=
  { r with uses := r.uses.map (· - 1) }

/-- The answer to a line, and the replies that are left. -/
def answer (line : String) : List Reply → Outcome × List Reply
  | [] => (⟨true, ""⟩, [])
  | r :: rs =>
    if r.fits line then
      (r.outcome, r.used :: rs)
    else
      let (o, rest) := answer line rs
      (o, r :: rest)

end Reply

def Runner.replay : Runner (List Reply) :=
  fun replies c => Reply.answer c.line replies

end QualityGate
