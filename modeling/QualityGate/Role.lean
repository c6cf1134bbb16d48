import QualityGate.Command

/-! # Roles

Each command of the gate plays one role, and each role has a name in the configuration and a default
command. The order of the roles is the order in which they are checked. -/

namespace QualityGate

/-- The parts that commands play. -/
inductive Role where
  | fastLint
  | fastFormat
  | lint
  | lintFix
  | format
  | typeCheck
  | typeCheckFull
  | duplicates
  | componentClones
  | contractClones
  | circular
  | unusedExports
  | solidityCompile
  | cairoFormat
  | cairoCompile
  | cairoTest
  | modifiedFiles
  deriving DecidableEq, Repr

namespace Role

def all : List Role :=
  [.fastLint, .fastFormat, .lint, .lintFix, .format, .typeCheck, .typeCheckFull, .duplicates,
   .componentClones, .contractClones, .circular, .unusedExports, .solidityCompile, .cairoFormat,
   .cairoCompile, .cairoTest, .modifiedFiles]

theorem mem_all (r : Role) : r ∈ all := by cases r <;> decide

def name : Role → String
  | .fastLint => "fast_lint"
  | .fastFormat => "fast_format"
  | .lint => "lint"
  | .lintFix => "lint_fix"
  | .format => "format"
  | .typeCheck => "type_check"
  | .typeCheckFull => "type_check_full"
  | .duplicates => "duplicates"
  | .componentClones => "component_clones"
  | .contractClones => "contract_clones"
  | .circular => "circular"
  | .unusedExports => "unused_exports"
  | .solidityCompile => "solidity_compile"
  | .cairoFormat => "cairo_format"
  | .cairoCompile => "cairo_compile"
  | .cairoTest => "cairo_test"
  | .modifiedFiles => "modified_files"

def ofName? (n : String) : Option Role :=
  all.find? (·.name = n)

def defaultCommand : Role → Command
  | .fastLint => ⟨"./node_modules/.bin/oxlint " ++ Command.placeholder ++ " 2>&1", 5⟩
  | .fastFormat => ⟨"npx prettier --write " ++ Command.placeholder ++ " 2>/dev/null", 5⟩
  | .lint => ⟨"yarn next:lint --quiet 2>&1", 60⟩
  | .lintFix => ⟨"npx eslint --fix " ++ Command.placeholder ++ " 2>&1", 120⟩
  | .format => ⟨"npx prettier --write " ++ Command.placeholder, 120⟩
  | .typeCheck => ⟨"yarn next:check-types 2>&1", 90⟩
  | .typeCheckFull => ⟨"yarn next:check-types 2>&1", 120⟩
  | .duplicates =>
    ⟨"npx jscpd packages/nextjs/components --min-tokens 50 --silent 2>&1", 60⟩
  | .componentClones =>
    ⟨"npx jscpd packages/nextjs/components --reporters console --min-tokens 50 2>&1", 60⟩
  | .contractClones =>
    ⟨"npx jscpd packages/hardhat/contracts --reporters console --min-tokens 50 2>&1", 60⟩
  | .circular => ⟨"yarn quality:circular 2>&1", 60⟩
  | .unusedExports => ⟨"npx knip --include exports --no-exit-code 2>&1", 90⟩
  | .solidityCompile => ⟨"yarn hardhat:compile --quiet 2>&1", 120⟩
  | .cairoFormat => ⟨"cd packages/snfoundry/contracts && scarb fmt", 120⟩
  | .cairoCompile => ⟨"yarn sncompile 2>&1", 120⟩
  | .cairoTest => ⟨"yarn sntest 2>&1", 180⟩
  | .modifiedFiles => ⟨"git diff --name-only HEAD 2>/dev/null", 5⟩

end Role

end QualityGate
