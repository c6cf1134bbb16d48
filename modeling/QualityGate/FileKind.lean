import QualityGate.Path
import QualityGate.Text.Search

/-! # Kinds of files

The kind of an edited file decides which checks it gets, and only the extension decides the kind. -/

namespace QualityGate

inductive FileKind where
  /-- Scripts, with or without markup in them. -/
  | script
  | solidity
  | cairo
  /-- Only checked for well-formedness. -/
  | json
  /-- Never checked. -/
  | other
  deriving DecidableEq, Repr

namespace FileKind

/-- The kind that an extension stands for, in any letter case. -/
def ofExtension (e : List Char) : FileKind :=
  match String.ofList (Text.fold e) with
  | "ts" | "tsx" | "js" | "jsx" => .script
  | "sol" => .solidity
  | "cairo" => .cairo
  | "json" => .json
  | _ => .other

def ofPath (path : String) : FileKind :=
  match Path.extension? path with
  | some e => ofExtension e.toList
  | none => .other

end FileKind

/-- Whether a path lies under a generated or vendored location: it contains one of the patterns. -/
def isGenerated (patterns : List String) (path : String) : Bool :=
  patterns.any fun p => Text.occursIn p.toList path.toList

end QualityGate
