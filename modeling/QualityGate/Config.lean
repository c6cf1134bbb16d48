import QualityGate.FileKind
import QualityGate.Role

/-! # Configurations

Which paths are never checked, the name that a fast lint finding carries, and the command of each
role. -/

namespace QualityGate

/-- What a repository wants of the gate. -/
structure Config where
  skipPaths : List String
  fastLintTool : String
  command : Role → Command

namespace Config

def default : Config where
  skipPaths := ["node_modules", ".next", "typechain-types", "artifacts", "cache"]
  fastLintTool := "oxlint"
  command := Role.defaultCommand

def skips (c : Config) (path : String) : Bool :=
  isGenerated c.skipPaths path

end Config

end QualityGate
