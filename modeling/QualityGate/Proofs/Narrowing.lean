import Mathlib.Data.Finset.Insert
import QualityGate.Proofs.Check.Kept
import QualityGate.Proofs.Completion

/-! # The type check at the end of a session

The type check at the end of a session is narrowed to the modified files by their names. What it
tells is known from its output and the set of the names that the lookup lists
(`Execution.narrowing_filters`): how the lookup came to list a name is not seen any more, so neither
the order of its lines nor a directory in front of a name can matter. A lookup that fails, or lists
nothing, narrows nothing. -/

namespace QualityGate

/-- A lookup whose lines are all blank lists nothing. -/
theorem Outcome.not_lists_of_blank {o : Outcome} (h : ∀ l ∈ o.lines, Text.trim l = []) (n : String) :
    ¬ o.Lists n := by
  rintro ⟨l, hl, hne, -⟩
  exact hne (h l hl)

theorem modifiedNames_of_failed {o : Outcome} (ho : o.succeeded = false) : modifiedNames o = none := by
  rw [modifiedNames, ho]
  exact if_neg Bool.false_ne_true

/-- Names that are listed are the modified ones. -/
theorem modifiedNames_of_lists {o : Outcome} (ho : o.succeeded = true) (h : ∃ n, o.Lists n) :
    ∃ names, modifiedNames o = some names ∧ ∀ n, n ∈ names ↔ o.Lists n := by
  obtain ⟨names, hnames⟩ := Option.ne_none_iff_exists'.mp fun hnone =>
    h.elim ((modifiedNames_eq_none_iff ho).mp hnone)
  exact ⟨names, hnames, mem_of_modifiedNames hnames⟩

namespace Types

/-- **Lookups that list the same names narrow alike.** -/
theorem errors_of_lists_iff {listed other : Outcome} (hl : listed.succeeded = true)
    (ho : other.succeeded = true) (h : ∀ n, listed.Lists n ↔ other.Lists n) (checked : Outcome) :
    errors (modifiedNames listed) checked = errors (modifiedNames other) checked := by
  by_cases hlists : ∃ n, listed.Lists n
  · have hothers : ∃ n, other.Lists n := hlists.imp fun n => (h n).mp
    obtain ⟨names, hnames, hmem⟩ := modifiedNames_of_lists hl hlists
    obtain ⟨others, hother, hmem'⟩ := modifiedNames_of_lists ho hothers
    rw [hnames, hother]
    exact errors_congr (fun n => (hmem n).trans ((h n).trans (hmem' n).symm)) checked
  · have hnone := not_exists.mp hlists
    rw [(modifiedNames_eq_none_iff hl).mpr hnone,
      (modifiedNames_eq_none_iff ho).mpr fun n hn => hnone n ((h n).mpr hn)]

end Types

/-- A failed type check finds the same whether or not it notes clean runs. -/
theorem Check.findings_typeCheck_of_failed (lookup : Option Command) (clean : Bool)
    (modified : Option (List String)) {o : Outcome} (ho : o.succeeded = false) :
    (Check.typeCheck lookup clean).findings modified o = Types.errors modified o := by
  rw [findings, ho]
  exact if_neg fun h => Bool.false_ne_true h.1

namespace Execution

open QualityGate.Types (TellsKept keptCount)

variable {σ : Type}

/-- **Narrowing is a filter over the set of the listed names.** The more names, the more lines are
kept, but what is kept for two sets of names is kept for one of them, and nothing is kept that would
not be told without narrowing. The step tells the lines that are kept for the set of the listed
names, and all diagnostic lines if the lookup fails or lists nothing. Lookups that list the same
names let the step tell the same, by whatever runner. -/
theorem narrowing_filters (e : Execution σ) {c : Config} {p : Step} (hp : p ∈ c.completionPipeline)
    (hlabel : p.label = "type check") (s : σ) (hc : (e.checked c s).1.succeeded = false) :
    (∀ S T : Finset String,
      keptCount (some S) (e.checked c s).1 ≤ keptCount none (e.checked c s).1 ∧
      (S ⊆ T → keptCount (some S) (e.checked c s).1 ≤ keptCount (some T) (e.checked c s).1) ∧
      keptCount (some (S ∪ T)) (e.checked c s).1 ≤
        keptCount (some S) (e.checked c s).1 + keptCount (some T) (e.checked c s).1) ∧
    (∀ (lookup : Option Command) (clean : Bool) (modified : Option (List String)),
      TellsKept (modified.map List.toFinset) (e.checked c s).1
        ((Check.typeCheck lookup clean).findings modified (e.checked c s).1)) ∧
    (∀ S : Finset String, S.Nonempty → (e.listed c s).1.succeeded = true →
      (∀ n, n ∈ S ↔ (e.listed c s).1.Lists n) →
      TellsKept (some S) (e.checked c s).1 (e.step p s).findings) ∧
    ((e.listed c s).1.succeeded = false ∨ (∀ l ∈ (e.listed c s).1.lines, Text.trim l = []) →
      TellsKept none (e.checked c s).1 (e.step p s).findings) ∧
    ∀ {τ : Type} (d : Execution τ) (c' : Config) (q : Step) (t : τ), q ∈ c'.completionPipeline →
      q.label = "type check" → (d.checked c' t).1 = (e.checked c s).1 →
      (e.listed c s).1.succeeded = true → (d.listed c' t).1.succeeded = true →
      (∀ n, (e.listed c s).1.Lists n ↔ (d.listed c' t).1.Lists n) →
      (d.step q t).findings = (e.step p s).findings := by
  rw [e.typeCheck_findings hp hlabel]
  refine ⟨fun S T => ⟨Types.keptCount_le S _, fun h => Types.keptCount_mono h _,
    Types.keptCount_union_le S T _⟩, fun lookup clean modified => ?_, fun S hS hl hlists => ?_,
    fun h => ?_, ?_⟩
  · rw [Check.findings_typeCheck_of_failed lookup clean modified hc]
    exact Types.tellsKept_errors hc modified
  · obtain ⟨n, hn⟩ := hS
    obtain ⟨names, hnames, hmem⟩ := modifiedNames_of_lists hl ⟨n, (hlists n).mp hn⟩
    have hset : names.toFinset = S := by
      ext n
      rw [List.mem_toFinset, hmem, hlists]
    rw [hnames, ← hset]
    exact Types.tellsKept_errors hc (some names)
  · have hnone : modifiedNames (e.listed c s).1 = none := by
      by_cases hl : (e.listed c s).1.succeeded = true
      · have hblank := h.resolve_left (by rw [hl]; exact Bool.false_ne_true ∘ Eq.symm)
        exact (modifiedNames_eq_none_iff hl).mpr (Outcome.not_lists_of_blank hblank)
      · exact modifiedNames_of_failed (Bool.eq_false_iff.mpr hl)
    rw [hnone]
    exact Types.tellsKept_errors hc none
  · intro τ d c' q t hq hlabel' hchecked hl hl' hlists
    rw [d.typeCheck_findings hq hlabel', hchecked]
    exact (Types.errors_of_lists_iff hl hl' hlists _).symm

/-- The place of a file and how often it is listed do not matter. -/
theorem narrowing_filters_page :
    let checked : Outcome := ⟨false, "page.tsx(3,1): error TS2304\nuseX.ts(1,1): error TS2322"⟩
    let e : Execution Unit := ⟨.ofLookup ⟨true, "app/page.tsx\n"⟩ checked, true, none⟩
    let d : Execution Unit := ⟨.ofLookup ⟨true, "page.tsx\nlib/page.tsx\n"⟩ checked, true, none⟩
    let p := Config.default.checkStep "type check" .typeCheck
      (.typeCheck (some (Config.default.command .modifiedFiles)) false)
    TellsKept (some {"page.tsx"}) checked (e.step p ()).findings ∧
      keptCount (some {"page.tsx"}) checked = 1 ∧
      (d.step p ()).findings = (e.step p ()).findings := by
  intro checked e d p
  have hp : p ∈ Config.default.completionPipeline := by decide
  have hlisted : modifiedNames (e.listed .default ()).1 = some ["page.tsx"] := by decide
  have hother : modifiedNames (d.listed .default ()).1 = some ["page.tsx"] := by decide +kernel
  have hset : ∀ n, n ∈ ({"page.tsx"} : Finset String) ↔ (e.listed .default ()).1.Lists n := by
    intro n
    rw [← mem_of_modifiedNames hlisted, Finset.mem_singleton, List.mem_singleton]
  have hsame : ∀ n, (e.listed .default ()).1.Lists n ↔ (d.listed .default ()).1.Lists n := by
    intro n
    rw [← mem_of_modifiedNames hlisted, ← mem_of_modifiedNames hother]
  obtain ⟨-, -, htells, -, hruns⟩ := narrowing_filters e hp rfl () rfl
  exact ⟨htells _ ⟨"page.tsx", Finset.mem_singleton_self _⟩ rfl hset, by decide,
    hruns d .default p () hp rfl rfl rfl rfl hsame⟩

end Execution

end QualityGate
