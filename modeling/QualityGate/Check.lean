import QualityGate.Check.Build
import QualityGate.Check.Duplicates
import QualityGate.Check.Imports
import QualityGate.Check.Lint
import QualityGate.Check.Types
import QualityGate.Command
import QualityGate.Path

/-! # Checks

How one run of a command turns into findings. -/

namespace QualityGate

/-- The ways to read a command's outcome. -/
inductive Check where
  | fastLint (tool : String)
  | lintSummary
  | lintFix
  /-- `narrowWith` lists the modified files, and narrows the errors to them. A clean run is noted if
  `reportClean` is set. -/
  | typeCheck (narrowWith : Option Command) (reportClean : Bool)
  | exactClones
  | cloneCount (scope : String) (reportClean : Bool)
  | compile (language : String)
  | tests (language : String)
  | circular
  | unusedExports
  deriving DecidableEq, Repr

namespace Check

/-- The findings of one run. The names of the modified files matter to the type check alone. -/
def findings (modified : Option (List String)) (o : Outcome) : Check → List Finding
  | fastLint tool => Lint.diagnostics tool o
  | lintSummary => Lint.summary o
  | lintFix => Lint.remaining o
  | typeCheck _ reportClean =>
    if o.succeeded ∧ reportClean then [.info .types "TypeScript compiles"]
    else Types.errors modified o
  | exactClones => Duplicates.exactClones o
  | cloneCount scope reportClean => Duplicates.clones scope reportClean o
  | compile language => Build.compile language o
  | tests language => Build.tests language o
  | circular => Imports.circular o
  | unusedExports => Imports.unusedExports o

/-- The command that lists the modified files for a check. -/
def lookup? : Check → Option Command
  | typeCheck narrowWith _ => narrowWith
  | _ => none

end Check

/-- The names of the files that a successful lookup lists, one path a line, each name once. A lookup
that failed or lists nothing says nothing about which files are modified. -/
def modifiedNames (o : Outcome) : Option (List String) :=
  if o.succeeded then
    match (o.lines.map Text.trim).filter (· ≠ []) with
    | [] => none
    | paths => some (paths.map fun p => Path.displayName (String.ofList p)).eraseDups
  else
    none

end QualityGate
