import QualityGate.Shell.State

/-! # Signals -/

namespace QualityGate.Shell.Signal

/-- The names of the signals, from the first one on. -/
def names : List String :=
  ["HUP", "INT", "QUIT", "ILL", "TRAP", "ABRT", "BUS", "FPE", "KILL", "USR1", "SEGV", "USR2", "PIPE",
   "ALRM", "TERM", "STKFLT", "CHLD", "CONT", "STOP", "TSTP", "TTIN", "TTOU", "URG", "XCPU", "XFSZ",
   "VTALRM", "PROF", "WINCH", "IO", "PWR", "SYS"]

def number (name : String) : Nat := names.idxOf name + 1

def message? (name : String) : Option String :=
  [("HUP", "Hangup"), ("QUIT", "Quit"), ("ABRT", "Aborted"), ("KILL", "Killed"),
   ("SEGV", "Segmentation fault"), ("ALRM", "Alarm clock"), ("TERM", "Terminated"),
   ("USR1", "User defined signal 1"), ("USR2", "User defined signal 2")].lookup name

/-- The name of the end of a shell among the conditions of traps. -/
def exit : String := "EXIT"

def condition? (s : String) : Option String :=
  let name := if s.startsWith "SIG" then (s.drop 3).toString else s
  if name = "0" ∨ name = exit then some exit
  else if names.contains name then some name
  else
    match s.toNat? with
    | some (n + 1) => names[n]?
    | _ => none

inductive Effect where
  | ignored
  | stops
  | kills
  deriving DecidableEq, Repr

def effect (name : String) : Effect :=
  if ["CHLD", "CONT", "URG", "WINCH"].contains name then .ignored
  else if ["STOP", "TSTP", "TTIN", "TTOU"].contains name then .stops
  else .kills

end QualityGate.Shell.Signal
