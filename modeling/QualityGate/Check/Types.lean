import QualityGate.Finding
import QualityGate.Outcome

/-! # Type checker output

A failed run prints one line per diagnostic, with the mark `error TS`. When the names of the modified
files are known, only the lines that contain one of them count. -/

namespace QualityGate.Types

def marker : String := "error TS"

def diagnosticLines (o : Outcome) : List (List Char) :=
  o.lines.filter (Text.occursIn marker.toList)

def narrowed (names : List String) (o : Outcome) : List (List Char) :=
  (diagnosticLines o).filter fun l => names.any fun n => Text.occursIn n.toList l

/-- Length of the excerpt when the report is narrowed to modified files. -/
def narrowedLength : Nat := 100

def fullLength : Nat := 120

/-- One error for all of the lines, with an excerpt of the first. -/
def report (noun : String) (length : Nat) : List (List Char) → List Finding
  | [] => []
  | l :: ls =>
    [{ Finding.error .types s!"TypeScript: {ls.length + 1} {noun}" with
       detail := some (Text.excerpt length l) }]

/-- The errors of a run, narrowed to the modified files when they are known. -/
def errors (modified : Option (List String)) (o : Outcome) : List Finding :=
  if o.succeeded then
    []
  else
    match modified with
    | none => report "error(s)" fullLength (diagnosticLines o)
    | some names => report "error(s) in modified files" narrowedLength (narrowed names o)

end QualityGate.Types
