import QualityGate.Check
import QualityGate.Config

/-! # Pipelines

A pipeline is a list of steps, and a step is a command, what to do with its outcome, and a gate on the
edited path. The kind of the file and the mode of the hook choose the pipeline; the configuration fills
in the commands. -/

namespace QualityGate

/-- Whether a step applies to the edited file. -/
inductive Gate where
  | always
  /-- Only where the path contains one of the needles. -/
  | pathContains (needles : List String)
  deriving DecidableEq, Repr

/-- Without a file, only a gate that is always open is open. -/
def Gate.allows (file : Option String) : Gate → Bool
  | always => true
  | pathContains needles => file.any (isGenerated needles)

inductive Action where
  /-- Rewrites files in place. Only success matters, and is noted if there is a note. -/
  | format (note : Option String)
  | check (check : Check)
  deriving DecidableEq, Repr

/-- One entry of a pipeline. -/
structure Step where
  label : String
  command : Command
  action : Action
  gate : Gate
  deriving DecidableEq, Repr

/-- The same step, only where the path contains one of the needles. -/
def Step.gated (s : Step) (needles : List String) : Step :=
  { s with gate := .pathContains needles }

/-- The two ways to check an edit: silent and quick, or every tool with a commentary. -/
inductive Mode where
  | fast
  | full
  deriving DecidableEq, Repr

/-- Whether an edit of a file of some kind gets any check. -/
def Mode.handles : Mode → FileKind → Bool
  | fast, .script | fast, .json => true
  | full, .script | full, .solidity | full, .cairo => true
  | _, _ => false

namespace Config

def checkStep (c : Config) (label : String) (r : Role) (check : Check) : Step :=
  ⟨label, c.command r, .check check, .always⟩

def formatStep (c : Config) (r : Role) (note : Option String) : Step :=
  ⟨"format", c.command r, .format note, .always⟩

/-- The steps for one edited file. A JSON file has none: no command checks it. -/
def editPipeline (c : Config) : Mode → FileKind → List Step
  | .fast, .script =>
    [c.checkStep "fast lint" .fastLint (.fastLint c.fastLintTool),
     c.formatStep .fastFormat none]
  | .full, .solidity =>
    [c.formatStep .format (some "Formatted Solidity"),
     c.checkStep "compile" .solidityCompile (.compile "Solidity"),
     c.checkStep "duplicates" .contractClones (.cloneCount "contracts" false)]
  | .full, .script =>
    [c.checkStep "lint" .lintFix .lintFix,
     c.formatStep .format (some "Formatted with Prettier"),
     c.checkStep "type check" .typeCheckFull (.typeCheck none true),
     (c.checkStep "duplicates" .componentClones (.cloneCount "components" true)).gated
       ["components"],
     c.checkStep "circular deps" .circular .circular,
     (c.checkStep "unused exports" .unusedExports .unusedExports).gated ["/hooks/", "/utils/"]]
  | .full, .cairo =>
    [c.formatStep .cairoFormat (some "Formatted Cairo"),
     c.checkStep "compile" .cairoCompile (.compile "Cairo"),
     c.checkStep "tests" .cairoTest (.tests "Cairo")]
  | _, _ => []

def completionPipeline (c : Config) : List Step :=
  [c.checkStep "lint" .lint .lintSummary,
   c.checkStep "type check" .typeCheck (.typeCheck (some (c.command .modifiedFiles)) false),
   c.checkStep "duplicates" .duplicates .exactClones]

end Config

end QualityGate
