import QualityGate.Proofs.Check.Kept
import QualityGate.Proofs.Check.Yield
import QualityGate.Proofs.Text.Excerpt
import QualityGate.Proofs.Text.LowerCase
import QualityGate.Proofs.Text.Seam

/-! # Excerpts of an output

An excerpt is the start of a line of the output: of the first line that is kept, if types are
checked, and of the first line that mentions an error, if a compile failed. No other finding has one
(`Finding.Excerpted`).

A compile has failed if its whole output mentions an error, and then one of its lines does, as no
word reaches over the end of a line (`Build.exists_errorLine`). So a failed compile always has an
excerpt, and the excerpt is not empty: what is trimmed off the line is not the mention. -/

namespace QualityGate

open Text (IsExcerpt IsFirst LowerCase)

variable {modified : Option (List String)} {o : Outcome}

/-- The excerpt of a finding is the one that its kind has, taken from the output. -/
inductive Finding.Excerpted (modified : Option (List String)) (o : Outcome) : Finding → Prop
  | none {f : Finding} (hdetail : f.detail = none)
      (hkind : ¬ (f.category = .compile ∧ f.severity = .error)) : Excerpted modified o f
  | types {message d : String} {l : List Char}
      (hline : IsFirst (Types.Keeps (modified.map List.toFinset)) o.lines l)
      (hexcerpt : IsExcerpt (modified.elim 120 fun _ => 100) l d) :
      Excerpted modified o ⟨.types, .error, message, some d⟩
  | compile {message d : String} {l : List Char}
      (hline : IsFirst (Text.Mentions "error".toList) o.lines l)
      (hexcerpt : IsExcerpt 120 (Text.trim l) d) (hne : d ≠ "") :
      Excerpted modified o ⟨.compile, .error, message, some d⟩

/-! ### The two kinds -/

namespace Types

theorem excerpted_errors {f : Finding} (hf : f ∈ errors modified o) : f.Excerpted modified o := by
  by_cases ho : o.succeeded = true
  · rw [errors_of_succeeded ho] at hf
    exact absurd hf List.not_mem_nil
  · have htells := tellsKept_errors (Bool.eq_false_iff.mpr ho) modified
    rcases Nat.eq_zero_or_pos (keptCount (modified.map List.toFinset) o) with hzero | hpos
    · rw [htells.silent hzero] at hf
      exact absurd hf List.not_mem_nil
    · obtain ⟨l, hl, hfs⟩ := htells.tells hpos
      rw [hfs, Option.elim_map] at hf
      rw [List.mem_singleton.mp hf]
      exact .types (Text.isFirst_of_find? (fun k => decide_eq_true_iff) hl) (Text.isExcerpt_take _ l)

end Types

namespace Build

/-- If an output mentions an error, then one of its lines does. -/
theorem exists_errorLine (h : o.mentions "error" = true) : ∃ l, errorLine? o = some l := by
  rw [Outcome.mentions, Text.occursIn_iff_lines (by decide) (by decide), Text.lines_fold] at h
  obtain ⟨k, hk, hmentions⟩ := h
  obtain ⟨l, hl, rfl⟩ := List.mem_map.mp hk
  exact Option.isSome_iff_exists.mp (List.find?_isSome.mpr ⟨l, hl, hmentions⟩)

theorem excerpted_compile {language : String} {f : Finding} (hf : f ∈ compile language o) :
    f.Excerpted modified o := by
  rw [compile] at hf
  split at hf
  · rename_i hfailed
    -- a failed compile without an excerpt cannot be
    obtain ⟨l, hl⟩ := exists_errorLine hfailed.2
    have hfirst : IsFirst (Text.Mentions "error".toList) o.lines l :=
      Text.isFirst_of_find? (fun k => Text.mentions_iff.symm) hl
    have hne : Text.trim l ≠ [] := by
      obtain ⟨-, -, -, hmentions, -⟩ := hfirst
      exact Text.trim_ne_nil_of_mentions (a := 'e') (by decide) hmentions
    rw [hl] at hf
    rw [List.mem_singleton.mp hf]
    refine .compile hfirst (Text.isExcerpt_take _ _) fun hempty => hne ?_
    have hnil : (Text.trim l).take 120 = [] :=
      String.toList_ofList.symm.trans (congrArg String.toList hempty)
    exact (List.take_eq_nil_iff.mp hnil).resolve_left (by decide)
  · rw [List.mem_singleton.mp hf]
    exact .none rfl fun h => Severity.noConfusion h.2

end Build

/-! ### All checks -/

namespace Finding

/-- No finding in the list has an excerpt. -/
def AllBare (fs : List Finding) : Prop := ∀ f ∈ fs, f.detail = none

variable {fs gs : List Finding}

theorem AllBare.nil : AllBare [] :=
  List.forall_mem_nil _

theorem AllBare.singleton {f : Finding} (h : f.detail = none) : AllBare [f] :=
  List.forall_mem_singleton.mpr h

theorem AllBare.ite {p : Prop} [Decidable p] (hf : AllBare fs) (hg : AllBare gs) :
    AllBare (if p then fs else gs) := by
  split
  · exact hf
  · exact hg

end Finding

open Finding (AllBare)

namespace Check

/-- Only a type check and a compile give excerpts. -/
theorem allBare_findings {k : Check} (htypes : ∀ lookup clean, k ≠ .typeCheck lookup clean)
    (hcompile : ∀ language, k ≠ .compile language) (modified : Option (List String))
    (o : Outcome) : AllBare (k.findings modified o) := by
  cases k with
  | typeCheck lookup clean => exact absurd rfl (htypes lookup clean)
  | compile language => exact absurd rfl (hcompile language)
  | fastLint tool =>
    intro f hf
    obtain ⟨l, -, rfl⟩ := List.mem_map.mp hf
    rfl
  | lintSummary => exact .ite (.ite .nil (.singleton rfl)) .nil
  | lintFix => exact .ite (.singleton rfl) (.singleton rfl)
  | exactClones => exact .ite (.ite .nil (.singleton rfl)) .nil
  | cloneCount scope reportClean => exact .ite (.singleton rfl) (.ite (.singleton rfl) .nil)
  | tests language => exact .ite (.singleton rfl) (.singleton rfl)
  | circular => exact .ite (.singleton rfl) (.singleton rfl)
  | unusedExports => exact .ite (.singleton rfl) .nil

/-- **Whatever a check finds has the excerpt of its kind.** -/
theorem excerpted_findings (k : Check) {f : Finding} (hf : f ∈ k.findings modified o) :
    f.Excerpted modified o := by
  have hallows := k.allows_findings modified o
  cases k with
  | typeCheck lookup clean =>
    rw [findings] at hf
    split at hf
    · rw [List.mem_singleton.mp hf]
      exact .none rfl fun h => Severity.noConfusion h.2
    · exact Types.excerpted_errors hf
  | compile language => exact Build.excerpted_compile hf
  | _ =>
    have hcategory := hallows.category_eq f hf
    refine .none (allBare_findings (by simp) (by simp) modified o f hf) fun h => ?_
    exact Category.noConfusion (hcategory.symm.trans h.1)

end Check

/-- The fast linter's messages are the starts of its diagnostic lines, in their order. -/
theorem Lint.forall₂_diagnostics (tool : String) (o : Outcome) :
    List.Forall₂ (fun f l => ∃ d, IsExcerpt 100 l d ∧ f.message = tool ++ ": " ++ d)
      (diagnostics tool o) ((diagnosticLines o).take 3) := by
  rw [diagnostics, List.forall₂_map_left_iff]
  exact List.forall₂_same.mpr fun l _ => ⟨_, Text.isExcerpt_take 100 l, rfl⟩

/-- **Excerpts are real, and a failed compile always has one.** A finding of a check has an excerpt
only if it is an error of a type check or a compile, and then it is the start of the first line that
is kept, or of the first line that mentions an error, in whatever letter case; an error of a compile
has one that is not empty. The messages of the fast linter are the starts of the lines that begin
with its mark once they are trimmed. No character is cut in two. -/
theorem Check.excerpts_real (k : Check) (modified : Option (List String)) (o : Outcome) :
    (∀ f ∈ k.findings modified o, f.Excerpted modified o ∧
      (f.category = .compile → f.severity = .error → ∃ d, f.detail = some d ∧ d ≠ "")) ∧
    (∀ tool : String,
      List.Forall₂ (fun f l => ∃ d, IsExcerpt 100 l d ∧ f.message = tool ++ ": " ++ d)
        ((Check.fastLint tool).findings modified o)
        (((o.lines.map Text.trim).filter (·.head? = some '!')).take 3)) ∧
    ∀ l low, LowerCase l low →
      (Text.Mentions "error".toList l ↔ "error".toList <:+: low) := by
  refine ⟨fun f hf => ?_, fun tool => Lint.forall₂_diagnostics tool o, fun l low hlow => ?_⟩
  · have hexcerpted := k.excerpted_findings hf
    refine ⟨hexcerpted, fun hcategory hseverity => ?_⟩
    cases hexcerpted with
    | none _ hkind => exact absurd ⟨hcategory, hseverity⟩ hkind
    | types _ _ => exact Category.noConfusion hcategory
    | compile _ _ hne => exact ⟨_, rfl, hne⟩
  · rw [Text.mentions_iff, ← Text.occursIn_lowerCase hlow (by decide) (by decide),
      Text.occursIn_iff]

theorem Check.excerpts_real_cairo :
    (⟨.compile, .error, "Cairo compile FAILED", some "ERROR: é"⟩ : Finding) ∈
        (Check.compile "Cairo").findings none ⟨false, "Compiling\n  ERROR: é\n"⟩ ∧
      (⟨.compile, .error, "Cairo compile FAILED", some "ERROR: é"⟩ : Finding).Excerpted none
        ⟨false, "Compiling\n  ERROR: é\n"⟩ := by
  have hf : (⟨.compile, .error, "Cairo compile FAILED", some "ERROR: é"⟩ : Finding) ∈
      (Check.compile "Cairo").findings none ⟨false, "Compiling\n  ERROR: é\n"⟩ := by
    decide
  exact ⟨hf, ((Check.excerpts_real (.compile "Cairo") none _).1 _ hf).1⟩

end QualityGate
