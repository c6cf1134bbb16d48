import QualityGate.Finding
import QualityGate.Json.Reading
import QualityGate.Path

/-! # Checking JSON files

A JSON file is checked without any command: its bytes are read, and a fault blocks. A file that cannot
be read at all is left alone. -/

namespace QualityGate.Json

/-- The findings for the content of a file under its name. -/
def findings (name : String) (content : Bytes) : List Finding :=
  match read content with
  | .ok _ => []
  | .error f =>
    [.error .json s!"{name}: invalid JSON - {f.reason.message} at line {f.line content}"]

/-- The findings for the file at a path, whose content is given if it can be read. -/
def fileFindings (path : String) (content : Option Bytes) : List Finding :=
  match content with
  | some bytes => findings (Path.displayName path) bytes
  | none => []

end QualityGate.Json
