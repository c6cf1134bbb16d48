import Mathlib.Data.Set.Defs
import QualityGate.Proofs.Answers

/-! # Commands that run out of time

A command that runs out of its time fails, and all that it has printed is lost. A check then has a
fixed answer, whatever it looks for (`Check.findings_timedOut`), and there is no error in it. So the
gate fails open: where some lines run out of their time, each step has the errors that it has
anyway, or none (`Step.errors_sublist`). The one command that must not run out of its time is the
lookup of the modified files. If it fails, the type check is no longer narrowed, and errors may come
up.

`Session.timeouts_only_remove` says this of whole answers. -/

namespace QualityGate

variable {σ τ : Type}

/-! ### Checks -/

/-- What a check finds when its command runs out of time. -/
def Check.timedOut : Check → List Finding
  | lintFix => [.info .lint "Lint passed/fixed"]
  | cloneCount scope true => [.info .duplicates s!"No duplicates in {scope}"]
  | compile language => [.info .compile s!"{language} compiles"]
  | tests language => [.warning .tests s!"{language} tests failed"]
  | circular => [.info .circular "No circular deps"]
  | _ => []

theorem Types.errors_timedOut (modified : Option (List String)) :
    errors modified .timedOut = [] := by
  have hlines : diagnosticLines .timedOut = [] := by decide
  cases modified with
  | none =>
    show report "error(s)" fullLength (diagnosticLines .timedOut) = []
    rw [hlines]
    rfl
  | some names =>
    show report "error(s) in modified files" narrowedLength (narrowed names .timedOut) = []
    rw [narrowed, hlines]
    rfl

/-- No check finds anything in the text that stands for a timeout. -/
theorem Check.findings_timedOut (k : Check) (modified : Option (List String)) :
    k.findings modified .timedOut = k.timedOut := by
  cases k with
  | fastLint tool =>
    have hlines : Lint.diagnosticLines .timedOut = [] := by decide
    rw [findings, Lint.diagnostics, hlines]
    rfl
  | lintSummary =>
    show Lint.summary .timedOut = []
    decide
  | lintFix =>
    show Lint.remaining .timedOut = _
    decide
  | typeCheck lookup reportClean =>
    have hfailed : ¬ (Outcome.timedOut.succeeded = true ∧ reportClean = true) :=
      fun h => Bool.false_ne_true h.1
    rw [findings, if_neg hfailed]
    exact Types.errors_timedOut modified
  | exactClones =>
    show Duplicates.exactClones .timedOut = []
    decide
  | cloneCount scope reportClean =>
    have hcount : Duplicates.cloneCount .timedOut = 0 := by decide
    rw [findings, Duplicates.clones, hcount]
    cases reportClean <;> rfl
  | compile language =>
    have hmentions : Outcome.timedOut.mentions "error" = false := by decide
    rw [findings, Build.compile, hmentions, if_neg (by simp)]
    rfl
  | tests language => rfl
  | circular =>
    show Imports.circular .timedOut = _
    decide
  | unusedExports =>
    show Imports.unusedExports .timedOut = []
    decide

theorem Check.severity_timedOut {k : Check} {f : Finding} (hf : f ∈ k.timedOut) :
    f.severity ≠ .error := by
  revert f
  cases k with
  | cloneCount scope reportClean => cases reportClean <;> simp [timedOut, Finding.info]
  | _ => simp [timedOut, Finding.info, Finding.warning]

/-! ### Errors -/

def errorsOf (fs : List Finding) : List Finding := fs.filter (·.severity = .error)

theorem errorsOf_append (fs gs : List Finding) :
    errorsOf (fs ++ gs) = errorsOf fs ++ errorsOf gs :=
  List.filter_append ..

theorem errorsOf_eq_nil {fs : List Finding} (h : ∀ f ∈ fs, f.severity ≠ .error) :
    errorsOf fs = [] :=
  List.filter_eq_nil_iff.mpr fun f hf => by simpa using h f hf

theorem Verdict.isBlocking_eq_false_iff {v : Verdict} :
    v.isBlocking = false ↔ errorsOf v.findings = [] := by
  rw [← Bool.not_eq_true, isBlocking_iff, count, List.countP_eq_length_filter, Nat.not_lt_eq,
    Nat.le_zero_eq, List.length_eq_zero_iff]
  rfl

/-- A verdict without further errors does not block where the other one does not. -/
theorem Verdict.isBlocking_eq_false_of_sublist {v w : Verdict}
    (h : (errorsOf w.findings).Sublist (errorsOf v.findings)) (hv : v.isBlocking = false) :
    w.isBlocking = false := by
  rw [isBlocking_eq_false_iff] at hv ⊢
  rw [hv] at h
  exact List.sublist_nil.mp h

/-! ### Steps -/

/-- The answers are the same, but some lines run out of their time. -/
structure RunsLate (answer late : Call → Outcome) (lines : Set String) : Prop where
  timedOut : ∀ c, c.line ∈ lines → late c = .timedOut
  same : ∀ c, c.line ∉ lines → late c = answer c

/-- The command that a step runs before its own one. -/
def Action.lookup? : Action → Option Command
  | format _ => none
  | check k => k.lookup?

variable {answer late : Call → Outcome} {lines : Set String}

/-- A step whose line runs out of time has no error. -/
theorem Step.errors_of_late (hlate : RunsLate answer late lines) (formatting : Bool)
    {file : Option String} {p : Step} (hline : (p.command.call file).line ∈ lines) :
    errorsOf (p.findings late formatting file) = [] := by
  refine errorsOf_eq_nil fun f hf => ?_
  rw [findings] at hf
  split at hf
  · split at hf
    · split at hf
      · obtain ⟨n, -, rfl⟩ := List.mem_map.mp hf
        exact (by decide : Severity.info ≠ .error)
      · exact absurd hf List.not_mem_nil
    · rw [hlate.timedOut _ hline, Check.findings_timedOut] at hf
      exact Check.severity_timedOut hf
  · exact absurd hf List.not_mem_nil

/-- A step whose line and whose lookup are answered in time finds what it found. -/
theorem Step.findings_of_onTime (hlate : RunsLate answer late lines) (formatting : Bool)
    {file : Option String} {p : Step} (hline : (p.command.call file).line ∉ lines)
    (hlookup : ∀ c, p.action.lookup? = some c → c.run ∉ lines) :
    p.findings late formatting file = p.findings answer formatting file := by
  have hlisted : ∀ k, p.action = .check k →
      (k.lookup?.bind fun c => modifiedNames (late (c.call none))) =
        k.lookup?.bind fun c => modifiedNames (answer (c.call none)) := by
    intro k haction
    cases hk : k.lookup? with
    | none => rfl
    | some c =>
      have hc : p.action.lookup? = some c := by rw [haction, Action.lookup?, hk]
      rw [Option.bind_some, Option.bind_some, hlate.same _ (hlookup c hc)]
  rw [findings, findings, hlate.same _ hline]
  cases haction : p.action with
  | format note => rfl
  | check k =>
    dsimp only
    rw [hlisted k haction]

/-- **Each step has the errors that it had, or none.** -/
theorem Step.errors_sublist (hlate : RunsLate answer late lines) (formatting : Bool)
    (file : Option String) {p : Step} (hlookup : ∀ c, p.action.lookup? = some c → c.run ∉ lines) :
    (errorsOf (p.findings late formatting file)).Sublist
      (errorsOf (p.findings answer formatting file)) := by
  by_cases hline : (p.command.call file).line ∈ lines
  · rw [errors_of_late hlate formatting hline]
    exact List.nil_sublist _
  · rw [findings_of_onTime hlate formatting hline hlookup]

theorem errorsOf_flatMap_sublist {α : Type} {f g : α → List Finding} {l : List α}
    (h : ∀ a ∈ l, (errorsOf (f a)).Sublist (errorsOf (g a))) :
    (errorsOf (l.flatMap f)).Sublist (errorsOf (l.flatMap g)) := by
  induction l with
  | nil => exact List.Sublist.refl _
  | cons a l ih =>
    rw [List.flatMap_cons, List.flatMap_cons, errorsOf_append, errorsOf_append]
    exact (h a List.mem_cons_self).append (ih fun b hb => h b (List.mem_cons_of_mem a hb))

/-- A run whose lookups are answered in time has no other errors than it had, and these in order. -/
theorem Execution.errors_run_sublist {e : Execution σ} {d : Execution τ}
    (hfile : e.file = d.file) (hformatting : e.formatting = d.formatting)
    (he : e.runner.Answers answer) (hd : d.runner.Answers late)
    (hlate : RunsLate answer late lines) {ps : List Step}
    (hlookups : ∀ p ∈ ps, ∀ c, p.action.lookup? = some c → c.run ∉ lines) (s : σ) (t : τ) :
    (errorsOf (d.run ps t).findings).Sublist (errorsOf (e.run ps s).findings) := by
  rw [e.findings_run_of_answers he, d.findings_run_of_answers hd, hfile, hformatting]
  exact errorsOf_flatMap_sublist fun p hp => Step.errors_sublist hlate _ _ (hlookups p hp)

/-! ### Answers -/

namespace Config

variable {c : Config}

/-- No step for an edit has a lookup. -/
theorem lookup?_pathSteps {mode : Mode} {path : String} {p : Step}
    (hp : p ∈ c.pathSteps mode path) : p.action.lookup? = none := by
  revert p
  unfold pathSteps
  cases mode <;> cases FileKind.ofPath path <;>
    simp [editPipeline, checkStep, formatStep, Step.gated, Action.lookup?, Check.lookup?]

/-- At the end of a session the modified files are looked up, and nothing else is. -/
theorem lookup?_completionPipeline {p : Step} (hp : p ∈ c.completionPipeline) {d : Command}
    (hd : p.action.lookup? = some d) : d = c.command .modifiedFiles := by
  revert p
  simp [completionPipeline, checkStep, Action.lookup?, Check.lookup?, eq_comm]

end Config

/-- **Timeouts only remove errors.** Two runners without a memory answer alike, but for the second
one some lines run out of their time, and the lookup of the modified files is not among them. Then
under one configuration and for the same files both sessions answer an event, or neither does; the
errors of the second verdict are some of those of the first, in order; and where the first verdict
does not block, neither does the second one. -/
theorem Session.timeouts_only_remove (x : Session σ) (y : Session τ) (hroot : x.root = y.root)
    (hconfig : x.config = y.config) (hformatting : x.formatting = y.formatting) {s : σ} {t : τ}
    (hcontent : x.content s = y.content t) (hx : x.runner.Answers answer)
    (hy : y.runner.Answers late) (hlate : RunsLate answer late lines)
    (hlookup : (x.config.command .modifiedFiles).run ∉ lines) (hook : HookName) (event : Event) :
    (x.answer hook event s = none ↔ y.answer hook event t = none) ∧
    ∀ u v, x.answer hook event s = some u → y.answer hook event t = some v →
      (errorsOf v.verdict.findings).Sublist (errorsOf u.verdict.findings) ∧
      (u.verdict.isBlocking = false → v.verdict.isBlocking = false) := by
  have hrel : Option.Rel (fun u v => (errorsOf v.findings).Sublist (errorsOf u.findings))
      (x.answer hook event s) (y.answer hook event t) := by
    refine rel_answer (R := fun fs gs => (errorsOf gs).Sublist (errorsOf fs)) hroot hconfig
      hcontent (fun fs => List.Sublist.refl _) (fun mode path => ?_) ?_ hook event
    · rw [← hconfig]
      refine Execution.errors_run_sublist (e := x.execution (some path))
        (d := y.execution (some path)) rfl hformatting hx hy hlate (fun p hp c hc => ?_) s t
      exact absurd (hc.symm.trans (Config.lookup?_pathSteps hp)) (Option.some_ne_none c)
    · rw [complete, complete, ← hconfig]
      refine Execution.errors_run_sublist (e := x.execution none) (d := y.execution none) rfl
        hformatting hx hy hlate (fun p hp c hc => ?_) s t
      rw [Config.lookup?_completionPipeline hp hc]
      exact hlookup
  obtain ⟨hnone, herrors⟩ := optionRel_iff.mp hrel
  exact ⟨hnone, fun u v hu hv =>
    ⟨herrors u v hu hv, Verdict.isBlocking_eq_false_of_sublist (herrors u v hu hv)⟩⟩

/-- The answers of a repository in which the lint and the types fail, but no modified file has a
part in that. Some lines run out of their time. -/
def failing (isLate : String → Bool) (line : String) : Outcome :=
  if isLate line then .timedOut
  else if line = Role.lint.defaultCommand.run then ⟨false, "2 errors"⟩
  else if line = Role.typeCheck.defaultCommand.run then ⟨false, "a.ts(1,1): error TS1: no"⟩
  else ⟨true, "b.ts"⟩

def failingSession (isLate : String → Bool) : Session Unit :=
  ⟨"/repo", .default, .ofAnswers (failing isLate), true, fun _ _ => none⟩

/-- When the lint runs out of time its errors are gone, and no others come up. -/
theorem Session.timeouts_only_remove_lint :
    let x := failingSession fun _ => false
    let y := failingSession fun line => line = Role.lint.defaultCommand.run
    (errorsOf (y.complete ()).verdict.findings).Sublist
        (errorsOf (x.complete ()).verdict.findings) ∧
      (x.complete ()).verdict.isBlocking = true ∧ (y.complete ()).verdict.isBlocking = false := by
  intro x y
  have hx := Runner.answers_ofAnswers (failing fun _ => false)
  have hy := Runner.answers_ofAnswers (failing fun line => line = Role.lint.defaultCommand.run)
  have hlate : RunsLate (fun c => failing (fun _ => false) c.line)
      (fun c => failing (fun line => line = Role.lint.defaultCommand.run) c.line)
      {line | line = Role.lint.defaultCommand.run} := by
    refine ⟨fun c (hc : c.line = _) => ?_, fun c (hc : ¬ c.line = _) => ?_⟩
    · exact if_pos (decide_eq_true hc)
    · exact if_neg (by simpa using hc)
  have hlookup : ¬ Role.modifiedFiles.defaultCommand.run = Role.lint.defaultCommand.run := by
    decide
  have hremove := (timeouts_only_remove x y rfl rfl rfl (s := ()) (t := ()) rfl hx hy hlate hlookup
    .complete (.forFile "a.ts")).2
  exact ⟨(hremove _ _ rfl rfl).1, by decide +kernel, by decide +kernel⟩

/-- The lookup is the exception: when it runs out of time the type check is not narrowed. -/
example :
    ((failingSession fun _ => false).complete ()).verdict.count .error = 1 ∧
      ((failingSession fun line => line = Role.modifiedFiles.defaultCommand.run).complete
        ()).verdict.count .error = 2 := by
  decide +kernel

end QualityGate
