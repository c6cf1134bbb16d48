import QualityGate.Hook
import QualityGate.Proofs.Check.Yield
import QualityGate.Proofs.Dispatch

/-! # What verdicts hold

The findings of a run are those of its steps, one step after the other (`Execution.findings_run`),
and each step keeps to its bound (`Execution.allows_found`). So the pipelines can be read off as
tables of bounds: the fast hook and the completion hook, which say nothing unless something blocks,
find errors only, and the full hook has errors and warnings of different kinds
(`Session.severity_contract`). -/

namespace QualityGate

variable {σ : Type}

/-! ### Steps -/

/-- What a step yields. A formatter without a note yields nothing. -/
def Action.yield : Action → Yield
  | format none => ⟨.format, [], 0⟩
  | format (some _) => ⟨.format, [.info], 1⟩
  | check k => k.yield

namespace Execution

theorem Does.allows {e : Execution σ} {p : Step} {s : σ} {t : Trace σ} (h : e.Does p s t) :
    p.action.yield.Allows t.findings := by
  cases h with
  | closed _ => exact .nil
  | unformatted _ _ => exact .nil
  | @formatted note o _ _ haction _ _ =>
    rw [haction]
    dsimp only
    split
    · cases note with
      | none => exact .nil
      | some n => exact .singleton .info rfl rfl (by decide)
    · exact .nil
  | checked _ haction _ _ =>
    rw [haction]
    exact Check.allows_findings _ _ _
  | narrowed _ haction _ _ =>
    rw [haction]
    exact Check.allows_findings _ _ _

/-- A step that makes no call finds nothing. -/
theorem Does.findings_of_no_calls {e : Execution σ} {p : Step} {s : σ} {t : Trace σ}
    (h : e.Does p s t) (hcalls : t.calls = []) : t.findings = [] := by
  cases h with
  | closed _ => rfl
  | unformatted _ _ => rfl
  | formatted _ _ _ _ => exact absurd hcalls (List.cons_ne_nil _ _)
  | checked _ _ _ _ => exact absurd hcalls (List.cons_ne_nil _ _)
  | narrowed _ _ _ _ => exact absurd hcalls (List.cons_ne_nil _ _)

/-! ### Runs -/

/-- What each of the steps finds, from the state that the steps in front of it leave. -/
def found (e : Execution σ) : List Step → σ → List (Step × List Finding)
  | [], _ => []
  | p :: ps, s => (p, (e.step p s).findings) :: e.found ps (e.step p s).state

theorem found_fst (e : Execution σ) (ps : List Step) (s : σ) :
    (e.found ps s).map Prod.fst = ps := by
  induction ps generalizing s with
  | nil => rfl
  | cons p ps ih => rw [found, List.map_cons, ih]

/-- The findings of a run are those of its steps, in order. -/
theorem findings_run (e : Execution σ) (ps : List Step) (s : σ) :
    (e.run ps s).findings = (e.found ps s).flatMap Prod.snd := by
  induction ps generalizing s with
  | nil => rfl
  | cons p ps ih => rw [run_cons, Trace.findings_andThen, ih, found, List.flatMap_cons]

/-- Each step keeps to its bound, and one that makes no call has no part in the findings. -/
theorem allows_found (e : Execution σ) {ps : List Step} {s : σ} {q : Step × List Finding}
    (h : q ∈ e.found ps s) :
    q.1 ∈ ps ∧ q.1.action.yield.Allows q.2 ∧ (q.1.calls e.formatting e.file = [] → q.2 = []) := by
  induction ps generalizing s with
  | nil => exact absurd h List.not_mem_nil
  | cons p ps ih =>
    rw [found, List.mem_cons] at h
    rcases h with rfl | h
    · have hdoes := e.does_step p s
      refine ⟨List.mem_cons_self, hdoes.allows, fun hcalls => hdoes.findings_of_no_calls ?_⟩
      rw [hdoes.calls_eq]
      exact hcalls
    · obtain ⟨hmem, hallows⟩ := ih h
      exact ⟨List.mem_cons_of_mem p hmem, hallows⟩

/-- Each finding of a run comes of a step that yields such findings. -/
theorem yield_of_mem_run {e : Execution σ} {ps : List Step} {s : σ} {f : Finding}
    (h : f ∈ (e.run ps s).findings) :
    ∃ p ∈ ps, f.category = p.action.yield.category ∧ f.severity ∈ p.action.yield.severities := by
  rw [findings_run, List.mem_flatMap] at h
  obtain ⟨q, hq, hf⟩ := h
  obtain ⟨hmem, hallows, -⟩ := e.allows_found hq
  exact ⟨q.1, hmem, hallows.category_eq f hf, hallows.severity_mem f hf⟩

/-- The categories of a run's findings are those of its steps, in order, each at most as often as
the step may find something. -/
theorem categories_run (e : Execution σ) (ps : List Step) (s : σ) :
    ((e.run ps s).findings.map Finding.category).Sublist
      (ps.flatMap fun p => List.replicate p.action.yield.limit p.action.yield.category) := by
  induction ps generalizing s with
  | nil => exact List.Sublist.refl _
  | cons p ps ih =>
    rw [run_cons, Trace.findings_andThen, List.map_append, List.flatMap_cons]
    exact (e.does_step p s).allows.categories_sublist.append (ih _)

end Execution

/-! ### Pipelines -/

namespace Config

/-- Nothing but errors comes of an edit in the fast hook. -/
theorem yield_fast (c : Config) {path : String} {p : Step} (h : p ∈ c.pathSteps .fast path) :
    ∀ v ∈ p.action.yield.severities, v = .error := by
  revert p
  unfold pathSteps
  cases FileKind.ofPath path <;>
    simp [editPipeline, checkStep, formatStep, Action.yield, Check.yield]

/-- The fast linter alone finds more than one thing, and the formatter beside it finds nothing. -/
theorem length_categories_fast (c : Config) (path : String) :
    ((c.pathSteps .fast path).flatMap fun p =>
      List.replicate p.action.yield.limit p.action.yield.category).length ≤ 3 := by
  unfold pathSteps
  cases FileKind.ofPath path <;>
    simp [editPipeline, checkStep, formatStep, Action.yield, Check.yield, Lint.diagnosticLimit]

/-- In the full hook no step finds two things, and errors and warnings differ in their categories. -/
theorem yield_full (c : Config) {path : String} {p : Step} (h : p ∈ c.pathSteps .full path) :
    p.action.yield.limit ≤ 1 ∧
    (.error ∈ p.action.yield.severities → p.action.yield.category ∈ [.lint, .types, .compile]) ∧
    (.warning ∈ p.action.yield.severities →
      p.action.yield.category ∈ [.tests, .duplicates, .circular, .unusedExports]) := by
  revert p
  unfold pathSteps
  cases FileKind.ofPath path <;>
    simp [editPipeline, checkStep, formatStep, Step.gated, Action.yield, Check.yield]

/-- Nothing but errors comes of the end of a session. -/
theorem yield_completion (c : Config) {p : Step} (h : p ∈ c.completionPipeline) :
    ∀ v ∈ p.action.yield.severities, v = .error := by
  revert p
  simp [completionPipeline, checkStep, Action.yield, Check.yield]

end Config

/-! ### Verdicts of the hooks -/

/-- Nothing in the verdict is a mere warning or note. -/
def Verdict.OnlyErrors (v : Verdict) : Prop :=
  ∀ f ∈ v.findings, f.severity = .error

/-- A verdict of errors that does not block is empty. -/
theorem Verdict.OnlyErrors.isBlocking_eq_false_iff {v : Verdict} (h : v.OnlyErrors) :
    v.isBlocking = false ↔ v = ∅ := by
  constructor
  · intro hno
    have hnil : v.findings = [] := by
      refine List.eq_nil_iff_forall_not_mem.mpr fun f hf => ?_
      have hf' := List.any_eq_false.mp hno f hf
      rw [h f hf] at hf'
      exact hf' rfl
    obtain ⟨fs⟩ := v
    simp only at hnil
    subst hnil
    rfl
  · rintro rfl
    rfl

theorem Hook.endFast_exit_eq_zero_iff {v : Verdict} (h : v.OnlyErrors) (color : Bool)
    (path : String) : (Hook.endFast color path (some v)).exit = 0 ↔ v = ∅ := by
  rw [← h.isBlocking_eq_false_iff, Hook.endFast]
  cases v.isBlocking <;> simp [Ending.blocked, Ending.silent]

theorem Hook.endComplete_exit_eq_zero_iff {v : Verdict} (h : v.OnlyErrors) (color : Bool) :
    (Hook.endComplete color v).exit = 0 ↔ v = ∅ := by
  rw [← h.isBlocking_eq_false_iff, Hook.endComplete]
  cases v.isBlocking <;> simp [Ending.blocked, Ending.silent]

namespace Session

/-- An answer comes of the session's own check of a JSON file, or of the steps for the path. -/
theorem edit_eq_some {x : Session σ} {mode : Mode} {event : Event} {s : σ} {t : Trace σ}
    (h : x.edit mode event s = some t) :
    ∃ path, event.filePath = some path ∧
      (mode = .fast ∧ FileKind.ofPath path = .json ∧ t = x.checkJson path s ∨
        t = (x.execution (some path)).run (x.config.pathSteps mode path) s) := by
  rw [edit_eq] at h
  cases hpath : event.filePath with
  | none =>
    rw [hpath] at h
    exact absurd h (by simp)
  | some path =>
    rw [hpath] at h
    refine ⟨path, rfl, ?_⟩
    dsimp only at h
    split at h
    · exact absurd h (by simp)
    · rw [checkPath_eq] at h
      split at h
      · rename_i hjson
        exact .inl ⟨hjson.1, hjson.2, (Option.some.inj h).symm⟩
      · split at h
        · exact absurd h (by simp)
        · exact .inr (Option.some.inj h).symm

/-- Whether it checks a JSON file or runs commands, the fast hook has at most three errors. -/
theorem fast_allows {x : Session σ} {event : Event} {s : σ} {t : Trace σ}
    (h : x.edit .fast event s = some t) : t.verdict.OnlyErrors ∧ t.findings.length ≤ 3 := by
  obtain ⟨path, -, ⟨-, -, rfl⟩ | rfl⟩ := edit_eq_some h
  · have hallows := Json.allows_fileFindings (Path.join x.root path)
      (x.content s (Path.join x.root path))
    refine ⟨fun f hf => List.mem_singleton.mp (hallows.severity_mem f hf), ?_⟩
    exact Nat.le_trans hallows.length_le (by decide)
  · refine ⟨fun f hf => ?_, ?_⟩
    · obtain ⟨p, hp, -, hseverity⟩ := Execution.yield_of_mem_run hf
      exact x.config.yield_fast hp _ hseverity
    · have hlength := ((x.execution (some path)).categories_run
        (x.config.pathSteps .fast path) s).length_le
      rw [List.length_map] at hlength
      exact Nat.le_trans hlength (x.config.length_categories_fast path)

theorem complete_onlyErrors (x : Session σ) (s : σ) : (x.complete s).verdict.OnlyErrors := by
  intro f hf
  obtain ⟨p, hp, -, hseverity⟩ := Execution.yield_of_mem_run hf
  exact x.config.yield_completion hp _ hseverity

/-- The completion hook looks at the lint, at the types and at the duplicates, in this order. -/
theorem complete_categories (x : Session σ) (s : σ) :
    ((x.complete s).findings.map Finding.category).Sublist [.lint, .types, .duplicates] :=
  (x.execution none).categories_run x.config.completionPipeline s

/-- In the full hook the severity tells the category, as far as it is one that counts. -/
theorem full_allows {x : Session σ} {event : Event} {s : σ} {t : Trace σ}
    (h : x.edit .full event s = some t) {f : Finding} (hf : f ∈ t.findings) :
    (f.severity = .error → f.category ∈ [.lint, .types, .compile]) ∧
    (f.severity = .warning →
      f.category ∈ [.tests, .duplicates, .circular, .unusedExports]) := by
  obtain ⟨path, -, ⟨hmode, -, -⟩ | rfl⟩ := edit_eq_some h
  · exact absurd hmode (by decide)
  · obtain ⟨p, hp, hcategory, hseverity⟩ := Execution.yield_of_mem_run hf
    obtain ⟨-, herror, hwarning⟩ := x.config.yield_full hp
    rw [hcategory]
    exact ⟨fun hf => herror (hf ▸ hseverity), fun hf => hwarning (hf ▸ hseverity)⟩

/-- The findings of the full hook, step by step. -/
theorem full_found {x : Session σ} {event : Event} {s : σ} {t : Trace σ}
    (h : x.edit .full event s = some t) :
    ∃ path, event.filePath = some path ∧
      let found := (x.execution (some path)).found (x.config.pathSteps .full path) s
      found.map Prod.fst = x.config.pathSteps .full path ∧
      t.findings = found.flatMap Prod.snd ∧
      ∀ q ∈ found, q.2.length ≤ 1 ∧ (q.1.calls x.formatting (some path) = [] → q.2 = []) := by
  obtain ⟨path, hpath, ⟨hmode, -, -⟩ | rfl⟩ := edit_eq_some h
  · exact absurd hmode (by decide)
  · refine ⟨path, hpath, Execution.found_fst _ _ _, Execution.findings_run _ _ _, ?_⟩
    intro q hq
    obtain ⟨hmem, hallows, hnone⟩ := Execution.allows_found _ hq
    exact ⟨Nat.le_trans hallows.length_le (x.config.yield_full hmem).1, hnone⟩

/-- **The severity contract of the hooks.** The fast hook and the completion hook only have errors,
so that nothing is lost where they are silent. The full hook has errors and warnings of different
categories, at most one finding of each step, in the order of the steps. -/
theorem severity_contract (x : Session σ) (event : Event) (s : σ) :
    (∀ t, x.edit .fast event s = some t →
      t.verdict.OnlyErrors ∧ t.findings.length ≤ 3 ∧
      ∀ color path, (Hook.endFast color path (some t.verdict)).exit = 0 ↔ t.verdict = ∅) ∧
    ((x.complete s).verdict.OnlyErrors ∧
      ((x.complete s).findings.map Finding.category).Sublist [.lint, .types, .duplicates] ∧
      ∀ color, (Hook.endComplete color (x.complete s).verdict).exit = 0 ↔
        (x.complete s).verdict = ∅) ∧
    ∀ t, x.edit .full event s = some t →
      (∀ f ∈ t.findings, f.severity = .error → f.category ∈ [.lint, .types, .compile]) ∧
      (∀ f ∈ t.findings, f.severity = .warning →
        f.category ∈ [.tests, .duplicates, .circular, .unusedExports]) ∧
      ∃ path, event.filePath = some path ∧
        let found := (x.execution (some path)).found (x.config.pathSteps .full path) s
        found.map Prod.fst = x.config.pathSteps .full path ∧
        t.findings = found.flatMap Prod.snd ∧
        ∀ q ∈ found, q.2.length ≤ 1 ∧ (q.1.calls x.formatting (some path) = [] → q.2 = []) := by
  refine ⟨fun t ht => ?_, ?_, fun t ht => ?_⟩
  · obtain ⟨honly, hlength⟩ := fast_allows ht
    exact ⟨honly, hlength, fun color path => Hook.endFast_exit_eq_zero_iff honly color path⟩
  · have honly := x.complete_onlyErrors s
    exact ⟨honly, x.complete_categories s, Hook.endComplete_exit_eq_zero_iff honly⟩
  · exact ⟨fun f hf => (full_allows ht hf).1, fun f hf => (full_allows ht hf).2, full_found ht⟩

/-- Four diagnostics of the fast linter are three errors. -/
theorem severity_contract_fast :
    ∃ t, (Session.mk "/repo" .default (.ofAnswers fun _ => ⟨false, "! a\n! b\n! c\n! d\n"⟩) true
        fun _ _ => none : Session Unit).edit .fast (.forFile "a.ts") () = some t ∧
      t.findings.length = 3 ∧ t.verdict.OnlyErrors := by
  let x : Session Unit :=
    ⟨"/repo", .default, .ofAnswers fun _ => ⟨false, "! a\n! b\n! c\n! d\n"⟩, true, fun _ _ => none⟩
  have hfast := (severity_contract x (.forFile "a.ts") ()).1
  exact ⟨_, rfl, by decide, (hfast _ rfl).1⟩

end Session

end QualityGate
