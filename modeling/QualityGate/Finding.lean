/-! # Findings

What a check reports: one issue, or one step that went well. Only an error blocks. -/

namespace QualityGate

inductive Severity where
  | error
  | warning
  | info
  deriving DecidableEq, Repr

/-- An error must be fixed before the agent may go on; the other two only inform. -/
def Severity.isBlocking : Severity → Bool
  | .error => true
  | .warning | .info => false

/-- The glyph in front of a finding. -/
def Severity.marker : Severity → String
  | .error => "❌"
  | .warning => "⚠️"
  | .info => "✓"

inductive Category where
  | lint
  | types
  | duplicates
  | compile
  | tests
  | format
  | circular
  | unusedExports
  | json
  deriving DecidableEq, Repr

/-- One issue, or the note that a step passed. The detail is an excerpt of the tool's own output. -/
structure Finding where
  category : Category
  severity : Severity
  message : String
  detail : Option String
  deriving DecidableEq, Repr

namespace Finding

def error (category : Category) (message : String) : Finding :=
  ⟨category, .error, message, none⟩

def warning (category : Category) (message : String) : Finding :=
  ⟨category, .warning, message, none⟩

def info (category : Category) (message : String) : Finding :=
  ⟨category, .info, message, none⟩

end Finding

/-! ### Verdicts -/

/-- The findings of one run, in report order. -/
structure Verdict where
  findings : List Finding
  deriving DecidableEq, Repr

namespace Verdict

def count (v : Verdict) (s : Severity) : Nat :=
  v.findings.countP (·.severity = s)

/-- Whether the agent must stop and fix something. -/
def isBlocking (v : Verdict) : Bool :=
  v.findings.any (·.severity.isBlocking)

def append (v w : Verdict) : Verdict :=
  ⟨v.findings ++ w.findings⟩

instance : EmptyCollection Verdict := ⟨⟨[]⟩⟩

instance : Append Verdict := ⟨append⟩

@[simp]
theorem findings_append (v w : Verdict) : (v ++ w).findings = v.findings ++ w.findings := rfl

theorem count_append (v w : Verdict) (s : Severity) :
    (v ++ w).count s = v.count s + w.count s := by
  simp [count]

theorem isBlocking_iff (v : Verdict) : v.isBlocking = true ↔ 0 < v.count .error := by
  simp only [isBlocking, List.any_eq_true, count, List.countP_pos_iff, decide_eq_true_eq]
  refine exists_congr fun f => and_congr_right fun _ => ?_
  cases f.severity <;> simp [Severity.isBlocking]

end Verdict

end QualityGate
