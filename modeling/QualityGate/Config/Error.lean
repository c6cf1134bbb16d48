import QualityGate.Config.Settings
import QualityGate.FileTree

/-! # Configuration errors

Why there is no configuration. An error about a file has a cause of its own behind its message. -/

namespace QualityGate

inductive CommandFlaw where
  | blank
  | noTime
  deriving DecidableEq, Repr

def CommandFlaw.message : CommandFlaw → String
  | blank => "command is empty"
  | noTime => "timeout_secs must be positive"

/-- Why a configuration cannot be had. -/
inductive ConfigError where
  | unreadable (path : String) (reason : FileError)
  | malformed (path : String) (flaw : Settings.Flaw)
  | invalid (role : Role) (flaw : CommandFlaw)
  | unknownCommand (name : String)
  deriving DecidableEq, Repr

namespace ConfigError

def message : ConfigError → String
  | unreadable path _ => s!"reading {path}"
  | malformed path _ => s!"parsing {path}"
  | invalid role flaw => s!"invalid command {Text.quoted role.name}: {flaw.message}"
  | unknownCommand name => s!"unknown command {Text.quoted name}"

def cause? : ConfigError → Option String
  | unreadable _ reason => some reason.message
  | malformed _ flaw => some flaw.message
  | invalid _ _ | unknownCommand _ => none

/-- The error with its cause. -/
def fullMessage (e : ConfigError) : String :=
  match e.cause? with
  | some c => s!"{e.message}: {c}"
  | none => e.message

end ConfigError

end QualityGate
