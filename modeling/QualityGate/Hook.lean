import QualityGate.Arguments
import QualityGate.Path
import QualityGate.Report

/-! # Hooks

What the host sees of a hook: an exit code and two streams. The fast hook and the completion hook are
silent unless something blocks; then they report on the error stream and exit with 2. The full hook
comments on the output stream, and its exit code only tells whether there were errors. -/

namespace QualityGate

/-- What a program leaves behind when it ends. -/
structure Ending where
  exit : Nat
  stdout : String
  stderr : String
  deriving DecidableEq, Repr

namespace Ending

def silent : Ending := ⟨0, "", ""⟩

def blocked (report : String) : Ending := ⟨2, "", report⟩

def failed (message : String) : Ending := ⟨1, "", s!"Error: {message}\n"⟩

end Ending

namespace Hook

/-- How the fast hook ends for the edited path; without a verdict the edit was out of scope. -/
def endFast (color : Bool) (path : String) : Option Verdict → Ending
  | some v =>
    if v.isBlocking then
      .blocked (Report.blocking color (Report.editHeader (Path.displayName path)) v)
    else
      .silent
  | none => .silent

/-- How the full hook ends for the edited path; without a verdict the edit was out of scope. -/
def endFull (color : Bool) (path : String) : Option Verdict → Ending
  | some v =>
    ⟨if 0 < v.count .error then 1 else 0,
      Report.commentary color (Path.displayName path) v, ""⟩
  | none => .silent

def endComplete (color : Bool) (v : Verdict) : Ending :=
  if v.isBlocking then .blocked (Report.blocking color Report.completionHeader v) else .silent

/-- How a command line ends that asks for no hook, with what is to be said about it. Help and the
version are what was asked for, and go to the output stream. -/
def endUsage (text : String) (e : UsageError) : Ending :=
  match e with
  | .help | .version => ⟨e.exit, text, ""⟩
  | _ => ⟨e.exit, "", text⟩

end Hook

end QualityGate
