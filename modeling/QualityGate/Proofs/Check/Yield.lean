import Mathlib.Data.List.Basic
import QualityGate.Check
import QualityGate.Check.Json

/-! # What checks yield

Whatever a tool prints, a check finds things of one category, of a few severities and at most so
many of them. `Check.yield` is the table of that, and every check keeps to it
(`Check.allows_findings`). The check of a JSON file keeps to a bound of its own
(`Json.allows_fileFindings`). -/

namespace QualityGate

/-- A bound on findings: their category, the severities that they may have, and how many. -/
structure Yield where
  category : Category
  severities : List Severity
  limit : Nat
  deriving DecidableEq, Repr

namespace Yield

/-- The findings keep to the bound. -/
structure Allows (y : Yield) (fs : List Finding) : Prop where
  length_le : fs.length ≤ y.limit
  category_eq : ∀ f ∈ fs, f.category = y.category
  severity_mem : ∀ f ∈ fs, f.severity ∈ y.severities

namespace Allows

variable {y : Yield} {c : Category} {vs ws : List Severity} {n : Nat} {fs : List Finding}

theorem nil : y.Allows [] :=
  ⟨Nat.zero_le _, fun _ h => absurd h List.not_mem_nil, fun _ h => absurd h List.not_mem_nil⟩

theorem singleton {f : Finding} (v : Severity) (hcategory : f.category = c) (hseverity : f.severity = v)
    (hv : v ∈ vs) : Allows ⟨c, vs, n + 1⟩ [f] := by
  refine ⟨Nat.le_add_left 1 n, ?_, ?_⟩
  · intro g hg
    rwa [List.mem_singleton.mp hg]
  · intro g hg
    rw [List.mem_singleton.mp hg, hseverity]
    exact hv

theorem mono (h : Allows ⟨c, vs, n⟩ fs) (hsub : vs ⊆ ws) : Allows ⟨c, ws, n⟩ fs :=
  ⟨h.length_le, h.category_eq, fun f hf => hsub (h.severity_mem f hf)⟩

/-- The categories of the findings are the one category, at most as often as the limit says. -/
theorem categories_sublist (h : y.Allows fs) :
    (fs.map Finding.category).Sublist (List.replicate y.limit y.category) := by
  rw [List.sublist_replicate_iff]
  refine ⟨fs.length, h.length_le, List.eq_replicate_iff.mpr ⟨List.length_map _, ?_⟩⟩
  intro c hc
  obtain ⟨f, hf, rfl⟩ := List.mem_map.mp hc
  exact h.category_eq f hf

end Allows

end Yield

/-! ### The readings of an output -/

theorem Lint.allows_summary (o : Outcome) : Yield.Allows ⟨.lint, [.error], 1⟩ (summary o) := by
  unfold summary
  split
  · dsimp only
    split
    · exact .nil
    · exact .singleton .error rfl rfl (by decide)
  · exact .nil

theorem Lint.allows_remaining (o : Outcome) :
    Yield.Allows ⟨.lint, [.error, .info], 1⟩ (remaining o) := by
  unfold remaining
  dsimp only
  split
  · exact .singleton .error rfl rfl (by decide)
  · exact .singleton .info rfl rfl (by decide)

/-- The fast linter has as many errors as it has diagnostics, up to the limit. -/
theorem Lint.allows_diagnostics (tool : String) (o : Outcome) :
    Yield.Allows ⟨.lint, [.error], diagnosticLimit⟩ (diagnostics tool o) := by
  refine ⟨?_, ?_, ?_⟩
  · rw [diagnostics, List.length_map]
    exact List.length_take_le _ _
  · intro f hf
    obtain ⟨l, -, rfl⟩ := List.mem_map.mp hf
    rfl
  · intro f hf
    obtain ⟨l, -, rfl⟩ := List.mem_map.mp hf
    exact List.mem_singleton.mpr rfl

theorem Types.allows_report (noun : String) (length : Nat) (ls : List (List Char)) :
    Yield.Allows ⟨.types, [.error], 1⟩ (report noun length ls) := by
  cases ls with
  | nil => exact .nil
  | cons l ls => exact .singleton .error rfl rfl (by decide)

theorem Types.allows_errors (modified : Option (List String)) (o : Outcome) :
    Yield.Allows ⟨.types, [.error], 1⟩ (errors modified o) := by
  unfold errors
  split
  · exact .nil
  · split
    · exact allows_report _ _ _
    · exact allows_report _ _ _

theorem Duplicates.allows_exactClones (o : Outcome) :
    Yield.Allows ⟨.duplicates, [.error], 1⟩ (exactClones o) := by
  unfold exactClones
  split
  · dsimp only
    split
    · exact .nil
    · exact .singleton .error rfl rfl (by decide)
  · exact .nil

theorem Duplicates.allows_clones (scope : String) (reportClean : Bool) (o : Outcome) :
    Yield.Allows ⟨.duplicates, [.warning, .info], 1⟩ (clones scope reportClean o) := by
  unfold clones
  dsimp only
  split
  · exact .singleton .warning rfl rfl (by decide)
  · split
    · exact .singleton .info rfl rfl (by decide)
    · exact .nil

theorem Build.allows_compile (language : String) (o : Outcome) :
    Yield.Allows ⟨.compile, [.error, .info], 1⟩ (compile language o) := by
  unfold compile
  split
  · exact .singleton .error rfl rfl (by decide)
  · exact .singleton .info rfl rfl (by decide)

theorem Build.allows_tests (language : String) (o : Outcome) :
    Yield.Allows ⟨.tests, [.warning, .info], 1⟩ (tests language o) := by
  unfold tests
  split
  · exact .singleton .info rfl rfl (by decide)
  · exact .singleton .warning rfl rfl (by decide)

theorem Imports.allows_circular (o : Outcome) :
    Yield.Allows ⟨.circular, [.warning, .info], 1⟩ (circular o) := by
  unfold circular
  split
  · exact .singleton .warning rfl rfl (by decide)
  · exact .singleton .info rfl rfl (by decide)

theorem Imports.allows_unusedExports (o : Outcome) :
    Yield.Allows ⟨.unusedExports, [.warning], 1⟩ (unusedExports o) := by
  unfold unusedExports
  dsimp only
  split
  · exact .singleton .warning rfl rfl (by decide)
  · exact .nil

/-- A JSON file has at most one fault, which is an error. -/
theorem Json.allows_fileFindings (path : String) (content : Option Bytes) :
    Yield.Allows ⟨.json, [.error], 1⟩ (fileFindings path content) := by
  cases content with
  | none => exact .nil
  | some bytes =>
    rw [fileFindings, findings]
    split
    · exact .nil
    · exact .singleton .error rfl rfl (by decide)

/-! ### All checks -/

namespace Check

/-- What a check yields. A type check that notes a clean run may also inform. -/
def yield : Check → Yield
  | fastLint _ => ⟨.lint, [.error], Lint.diagnosticLimit⟩
  | lintSummary => ⟨.lint, [.error], 1⟩
  | lintFix => ⟨.lint, [.error, .info], 1⟩
  | typeCheck _ false => ⟨.types, [.error], 1⟩
  | typeCheck _ true => ⟨.types, [.error, .info], 1⟩
  | exactClones => ⟨.duplicates, [.error], 1⟩
  | cloneCount _ _ => ⟨.duplicates, [.warning, .info], 1⟩
  | compile _ => ⟨.compile, [.error, .info], 1⟩
  | tests _ => ⟨.tests, [.warning, .info], 1⟩
  | circular => ⟨.circular, [.warning, .info], 1⟩
  | unusedExports => ⟨.unusedExports, [.warning], 1⟩

/-- **A check keeps to its bound, whatever the tool prints.** -/
theorem allows_findings (k : Check) (modified : Option (List String)) (o : Outcome) :
    k.yield.Allows (k.findings modified o) := by
  cases k with
  | fastLint tool => exact Lint.allows_diagnostics tool o
  | lintSummary => exact Lint.allows_summary o
  | lintFix => exact Lint.allows_remaining o
  | typeCheck lookup reportClean =>
    have herrors := Types.allows_errors modified o
    rw [findings]
    cases reportClean with
    | false =>
      rw [if_neg (by simp)]
      exact herrors
    | true =>
      split
      · exact .singleton .info rfl rfl (by decide)
      · exact herrors.mono (by decide)
  | exactClones => exact Duplicates.allows_exactClones o
  | cloneCount scope reportClean => exact Duplicates.allows_clones scope reportClean o
  | compile language => exact Build.allows_compile language o
  | tests language => exact Build.allows_tests language o
  | circular => exact Imports.allows_circular o
  | unusedExports => exact Imports.allows_unusedExports o

end Check

end QualityGate
