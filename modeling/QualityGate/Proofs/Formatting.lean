import QualityGate.Proofs.Answers
import QualityGate.Proofs.Scope

/-! # Formatting switched off

The switch for formatting takes the steps that format out of every list of steps, and does nothing
else: `Execution.run_withFormatting_false` says so of whole runs, with their calls, their findings
and the state in which they leave a runner of any kind.

A runner with a memory may answer a check in another way once a formatter has run. Without a memory
it cannot, and then all that is lost are the notes on files that were formatted
(`Findings.DropsNotes`). A note neither blocks nor shows in the summary, so the hooks end as they do
with formatting on. `Surroundings.formatting_only_formats` says all of this. -/

namespace QualityGate

variable {σ : Type} {answer : Call → Outcome}

/-- Whether the command of a step is there to check. The others format. -/
def Action.checks : Action → Bool
  | format _ => false
  | check _ => true

/-! ### Runs -/

namespace Execution

def withFormatting (e : Execution σ) (on : Bool) : Execution σ := { e with formatting := on }

/-- A step that checks does not see the switch. -/
theorem step_withFormatting_of_checks (e : Execution σ) {p : Step} (hp : p.action.checks = true)
    (a b : Bool) (s : σ) : (e.withFormatting a).step p s = (e.withFormatting b).step p s := by
  rw [step, step]
  cases haction : p.action with
  | format note =>
    rw [haction] at hp
    exact absurd hp Bool.false_ne_true
  | check k => rfl

/-- A step that formats does nothing when the switch is off. -/
theorem step_withFormatting_false (e : Execution σ) {p : Step} (hp : p.action.checks = false)
    (s : σ) : (e.withFormatting false).step p s = .idle s := by
  rw [step]
  cases haction : p.action with
  | format note => exact ite_self _
  | check k =>
    rw [haction] at hp
    exact absurd hp.symm Bool.false_ne_true

/-- **With formatting off the steps that format might as well not be there.** -/
theorem run_withFormatting_false (e : Execution σ) (ps : List Step) (s : σ) :
    (e.withFormatting false).run ps s =
      (e.withFormatting true).run (ps.filter (·.action.checks)) s := by
  induction ps generalizing s with
  | nil => rfl
  | cons p ps ih =>
    rw [run_cons]
    cases hp : p.action.checks with
    | true =>
      rw [List.filter_cons_of_pos (p := fun q : Step => q.action.checks) hp, run_cons,
        e.step_withFormatting_of_checks hp false true, funext ih]
    | false =>
      rw [List.filter_cons_of_neg (p := fun q : Step => q.action.checks) (by simp [hp]),
        e.step_withFormatting_false hp, Trace.idle_andThen, ih]

end Execution

/-! ### Findings -/

/-- The second findings are the first ones without those on formatting, which are notes. -/
structure Findings.DropsNotes (fs gs : List Finding) : Prop where
  eq_filter : gs = fs.filter (·.category ≠ .format)
  isNote : ∀ f ∈ fs, f.category = .format → f.severity = .info

namespace Findings.DropsNotes

variable {fs gs : List Finding}

/-- Nothing is dropped where nothing is about formatting. -/
theorem refl_of_ne (h : ∀ f ∈ fs, f.category ≠ .format) : DropsNotes fs fs := by
  refine ⟨(List.filter_eq_self.mpr fun f hf => ?_).symm, fun f hf hformat => ?_⟩
  · exact decide_eq_true (h f hf)
  · exact absurd hformat (h f hf)

/-- All is dropped where there are notes on formatting only. -/
theorem nil_of_notes (h : ∀ f ∈ fs, f.category = .format ∧ f.severity = .info) :
    DropsNotes fs [] := by
  refine ⟨(List.filter_eq_nil_iff.mpr fun f hf => ?_).symm, fun f hf _ => (h f hf).2⟩
  rw [decide_eq_true_eq]
  exact fun hne => hne (h f hf).1

theorem flatMap {α : Type} {l : List α} {f g : α → List Finding}
    (h : ∀ a ∈ l, DropsNotes (f a) (g a)) : DropsNotes (l.flatMap f) (l.flatMap g) := by
  refine ⟨?_, fun v hv hformat => ?_⟩
  · rw [List.filter_flatMap]
    exact List.flatMap_congr fun a ha => (h a ha).eq_filter
  · obtain ⟨a, ha, hva⟩ := List.mem_flatMap.mp hv
    exact (h a ha).isNote v hva hformat

/-- Errors and warnings are counted alike. -/
theorem count_eq (h : DropsNotes fs gs) {v : Severity} (hv : v ≠ .info) :
    (Verdict.mk gs).count v = (Verdict.mk fs).count v := by
  rw [Verdict.count, Verdict.count, h.eq_filter, List.countP_filter]
  refine List.countP_congr fun f hf => ?_
  rw [Bool.and_eq_true, decide_eq_true_eq, decide_eq_true_eq]
  refine and_iff_left_of_imp fun hseverity hformat => hv ?_
  rw [← hseverity, h.isNote f hf hformat]

end Findings.DropsNotes

/-- No check is about formatting. -/
theorem Check.category_ne_format (k : Check) {modified : Option (List String)} {o : Outcome}
    {f : Finding} (hf : f ∈ k.findings modified o) : f.category ≠ .format := by
  have hyield : k.yield.category ≠ .format := by
    cases k with
    | typeCheck lookup reportClean => cases reportClean <;> simp [yield]
    | _ => simp [yield]
  rw [(k.allows_findings modified o).category_eq f hf]
  exact hyield

theorem Json.category_ne_format {path : String} {content : Option Bytes} {f : Finding}
    (hf : f ∈ Json.fileFindings path content) : f.category ≠ .format := by
  rw [(Json.allows_fileFindings path content).category_eq f hf]
  exact Category.noConfusion

/-- The answers being given, a step loses its note at most. -/
theorem Step.dropsNotes (answer : Call → Outcome) (file : Option String) (p : Step) :
    Findings.DropsNotes (p.findings answer true file) (p.findings answer false file) := by
  rw [findings, findings]
  split
  · cases p.action with
    | format note =>
      dsimp only
      rw [if_neg (c := false = true ∧ _) fun h => Bool.false_ne_true h.1]
      refine .nil_of_notes fun f hf => ?_
      split at hf
      · obtain ⟨n, -, rfl⟩ := List.mem_map.mp hf
        exact ⟨rfl, rfl⟩
      · exact absurd hf List.not_mem_nil
    | check k => exact .refl_of_ne fun f hf => k.category_ne_format hf
  · exact .refl_of_ne fun f hf => absurd hf List.not_mem_nil

/-- So does a run whose runner has no memory. -/
theorem Execution.run_dropsNotes (e : Execution σ) (hanswers : e.runner.Answers answer)
    (ps : List Step) (s : σ) :
    Findings.DropsNotes ((e.withFormatting true).run ps s).findings
      ((e.withFormatting false).run ps s).findings := by
  rw [findings_run_of_answers (e := e.withFormatting true) hanswers,
    findings_run_of_answers (e := e.withFormatting false) hanswers]
  exact .flatMap fun p _ => p.dropsNotes answer e.file

/-! ### Verdicts and endings -/

namespace Verdict

/-- The verdict without what it says about formatting. -/
def withoutFormat (v : Verdict) : Verdict := ⟨v.findings.filter (·.category ≠ .format)⟩

/-- Two verdicts under which each hook ends with the same code, and the full hook with the same
summary. -/
structure EndsAlike (v w : Verdict) : Prop where
  summary : Report.summary w = Report.summary v
  fast : ∀ color path,
    (Hook.endFast color path (some w)).exit = (Hook.endFast color path (some v)).exit
  full : ∀ color path,
    (Hook.endFull color path (some w)).exit = (Hook.endFull color path (some v)).exit
  complete : ∀ color, (Hook.endComplete color w).exit = (Hook.endComplete color v).exit

/-- The errors and the warnings are all that an ending depends on. -/
theorem endsAlike_of_count {v w : Verdict} (herror : w.count .error = v.count .error)
    (hwarning : w.count .warning = v.count .warning) : v.EndsAlike w := by
  have hblocking : w.isBlocking = v.isBlocking := by
    rw [Bool.eq_iff_iff, isBlocking_iff, isBlocking_iff, herror]
  have hexit : ∀ r₁ r₂ : String,
      (if w.isBlocking then Ending.blocked r₁ else .silent).exit =
        (if v.isBlocking then Ending.blocked r₂ else .silent).exit := by
    intro r₁ r₂
    rw [hblocking]
    split <;> rfl
  refine ⟨?_, fun color path => hexit _ _, fun color path => ?_, fun color => hexit _ _⟩
  · rw [Report.summary, Report.summary, herror, hwarning]
  · rw [Hook.endFull, Hook.endFull, herror]

end Verdict

/-! ### Answers -/

namespace Session

def withFormatting (x : Session σ) (on : Bool) : Session σ := { x with formatting := on }

/-- With formatting off an answer loses its notes on formatting. -/
theorem answer_dropsNotes (x : Session σ) (hanswers : x.runner.Answers answer) (hook : HookName)
    (event : Event) (s : σ) :
    Option.Rel (fun u v => Findings.DropsNotes u.findings v.findings)
      ((x.withFormatting true).answer hook event s)
      ((x.withFormatting false).answer hook event s) := by
  refine rel_answer_of_json (R := Findings.DropsNotes) (x := x.withFormatting true)
    (y := x.withFormatting false) rfl rfl rfl (fun path content => ?_) (fun mode path => ?_) ?_
    hook event
  · exact .refl_of_ne fun f hf => Json.category_ne_format hf
  · exact (x.execution (some path)).run_dropsNotes hanswers (x.config.pathSteps mode path) s
  · exact (x.execution none).run_dropsNotes hanswers x.config.completionPipeline s

end Session

theorem Findings.DropsNotes.endsAlike {t u : Trace σ} (h : DropsNotes t.findings u.findings) :
    t.verdict.EndsAlike u.verdict :=
  Verdict.endsAlike_of_count (h.count_eq (by decide)) (h.count_eq (by decide))

/-! ### Runs of the program -/

namespace Surroundings

/-- The option sets the switch of the session. -/
theorem session_noFormat (x : Surroundings σ) (i : Invocation) (off : Bool) :
    x.session { i with noFormat := off } = (x.session i).map (·.withFormatting (! off)) := by
  rw [session, session]
  cases x.root i.root with
  | error e => rfl
  | ok root =>
    dsimp only
    cases x.config root i.config with
    | error e => rfl
    | ok c => rfl

/-- Where no session is to be had there is nothing to switch. -/
theorem runHook_noFormat_of_error {x : Surroundings σ} {i : Invocation} {e : LoadError}
    (h : x.session i = .error e) (off : Bool) (s : σ) :
    x.runHook { i with noFormat := off } s = x.runHook i s := by
  have hoff : x.session { i with noFormat := off } = .error e := by
    rw [session_noFormat, h]
    rfl
  have hedit : ∀ mode, x.runEdit { i with noFormat := off } mode s = x.runEdit i mode s := by
    intro mode
    rw [runEdit, runEdit, hoff, h]
  rw [runHook, runHook, hedit, hedit, runComplete, runComplete, hoff, h]

/-- The runner of a session is one that the surroundings have. -/
theorem exists_runner_of_session {x : Surroundings σ} {i : Invocation} {session : Session σ}
    (h : x.session i = .ok session) : ∃ root, session.runner = x.runner root := by
  rw [Surroundings.session] at h
  cases hroot : x.root i.root with
  | error e =>
    rw [hroot] at h
    exact absurd h (by simp)
  | ok root =>
    rw [hroot] at h
    dsimp only at h
    split at h
    · exact absurd h (by simp)
    · rw [← Except.ok.inj h]
      exact ⟨root, rfl⟩

/-- With a session, the exit code of a hook does not see the option. -/
theorem exit_noFormat_of_session {x : Surroundings σ} {i : Invocation} {session : Session σ}
    (h : x.session i = .ok session) (hanswers : session.runner.Answers answer) (s : σ) :
    (x.runHook { i with noFormat := true } s).ending.exit =
      (x.runHook { i with noFormat := false } s).ending.exit := by
  have hsession : ∀ off, x.session { i with noFormat := off } =
      .ok (session.withFormatting (! off)) := by
    intro off
    rw [session_noFormat, h]
    rfl
  have hedit : ∀ mode, (x.runEdit { i with noFormat := true } mode s).ending.exit =
      (x.runEdit { i with noFormat := false } mode s).ending.exit := by
    intro mode
    have hrel := session.answer_dropsNotes hanswers mode.hook (Event.ofBytes x.stdin) s
    rw [Session.answer_hook, Session.answer_hook] at hrel
    rw [runEdit_ending (hsession true), runEdit_ending (hsession false)]
    show (finish _ _ _ (((session.withFormatting false).edit _ _ _).map _)).exit =
      (finish _ _ _ (((session.withFormatting true).edit _ _ _).map _)).exit
    generalize (session.withFormatting true).edit mode (Event.ofBytes x.stdin) s = on at hrel ⊢
    generalize (session.withFormatting false).edit mode (Event.ofBytes x.stdin) s = off at hrel ⊢
    cases hrel with
    | none => rw [Option.map_none, finish_none, finish_none]
    | some hnotes =>
      cases mode with
      | fast => exact hnotes.endsAlike.fast _ _
      | full => exact hnotes.endsAlike.full _ _
  have hcomplete : (x.runComplete { i with noFormat := true } s).ending.exit =
      (x.runComplete { i with noFormat := false } s).ending.exit := by
    have hrel := session.answer_dropsNotes hanswers .complete (Event.ofBytes x.stdin) s
    rw [runComplete, runComplete, hsession, hsession]
    exact (Option.rel_some_some.mp hrel).endsAlike.complete _
  rw [runHook, runHook]
  cases i.hook with
  | fast => exact hedit .fast
  | full => exact hedit .full
  | complete => exact hcomplete

/-- **Formatting only formats.** Any execution with formatting off is the one with formatting on of
the steps that check, down to its calls and to the state that it leaves. Where the runner has no
memory, a session's verdict with formatting off is the one with formatting on without its findings
about formatting, in the same order. These decide about no ending: the hooks end with the same exit
codes, the full hook with the same summary, and so do runs of the program with and without the
option. -/
theorem formatting_only_formats (x : Surroundings σ) :
    (∀ (e : Execution σ) (ps : List Step) (s : σ),
      (e.withFormatting false).run ps s =
        (e.withFormatting true).run (ps.filter (·.action.checks)) s) ∧
    (∀ (y : Session σ) (answer : Call → Outcome), y.runner.Answers answer →
      ∀ (hook : HookName) (event : Event) (s : σ),
        ((y.withFormatting false).answer hook event s).map Trace.verdict =
          ((y.withFormatting true).answer hook event s).map (·.verdict.withoutFormat) ∧
        ∀ t u, (y.withFormatting true).answer hook event s = some t →
          (y.withFormatting false).answer hook event s = some u →
          t.verdict.EndsAlike u.verdict) ∧
    ((∀ root, ∃ answer, (x.runner root).Answers answer) → ∀ (i : Invocation) (s : σ),
      (x.runHook { i with noFormat := true } s).ending.exit =
        (x.runHook { i with noFormat := false } s).ending.exit) := by
  refine ⟨fun e => e.run_withFormatting_false, fun y answer hanswers hook event s => ?_,
    fun hanswers i s => ?_⟩
  · have hrel := y.answer_dropsNotes hanswers hook event s
    generalize (y.withFormatting true).answer hook event s = on at hrel ⊢
    generalize (y.withFormatting false).answer hook event s = off at hrel ⊢
    refine ⟨?_, fun t u ht hu => ((optionRel_iff.mp hrel).2 t u ht hu).endsAlike⟩
    cases hrel with
    | none => rfl
    | some hnotes => exact congrArg (fun fs => some (Verdict.mk fs)) hnotes.eq_filter
  · cases hsession : x.session i with
    | error e =>
      rw [runHook_noFormat_of_error hsession true, runHook_noFormat_of_error hsession false]
    | ok session =>
      obtain ⟨root, hrunner⟩ := exists_runner_of_session hsession
      obtain ⟨answer, hanswer⟩ := hanswers root
      exact exit_noFormat_of_session hsession (hrunner ▸ hanswer) s

/-- A repository in which every command succeeds loses the note on its formatted file, and no
more. -/
theorem formatting_only_formats_cairo :
    let x : Session Unit := ⟨"/repo", .default, fine.runner "/repo", true, fine.content⟩
    let edit : Surroundings Unit := { fine with
      stdin := Bytes.ofString "\x7b\"tool_input\":\x7b\"file_path\":\"src/lib.cairo\"\x7d\x7d" }
    ((x.withFormatting true).answer .full (.forFile "src/lib.cairo") ()).map Trace.verdict =
        some ⟨[.info .format "Formatted Cairo", .info .compile "Cairo compiles",
          .info .tests "Cairo tests pass"]⟩ ∧
      ((x.withFormatting false).answer .full (.forFile "src/lib.cairo") ()).map Trace.verdict =
        some ⟨[.info .compile "Cairo compiles", .info .tests "Cairo tests pass"]⟩ ∧
      (edit.runHook ⟨.full, none, none, true, false⟩ ()).ending.exit =
        (edit.runHook ⟨.full, none, none, false, false⟩ ()).ending.exit := by
  intro x edit
  have hanswers : ∀ root, (fine.runner root).Answers fun _ => ⟨true, ""⟩ :=
    fun _ => Runner.answers_ofAnswers _
  have hon : ((x.withFormatting true).answer .full (.forFile "src/lib.cairo") ()).map
      Trace.verdict = some ⟨[.info .format "Formatted Cairo", .info .compile "Cairo compiles",
        .info .tests "Cairo tests pass"]⟩ := by
    decide +kernel
  have hmap : ((x.withFormatting true).answer .full (.forFile "src/lib.cairo") ()).map
      (·.verdict.withoutFormat) =
        some ⟨[.info .compile "Cairo compiles", .info .tests "Cairo tests pass"]⟩ := by
    decide +kernel
  have hexit : ∀ e : Surroundings Unit, (∀ root, ∃ answer, (e.runner root).Answers answer) →
      (e.runHook ⟨.full, none, none, true, false⟩ ()).ending.exit =
        (e.runHook ⟨.full, none, none, false, false⟩ ()).ending.exit :=
    fun e he => (formatting_only_formats e).2.2 he ⟨.full, none, none, true, false⟩ ()
  refine ⟨hon, ?_, hexit edit fun root => ⟨_, hanswers root⟩⟩
  have hverdict := (formatting_only_formats fine).2.1 x _ (hanswers "/repo")
  rw [(hverdict .full (.forFile "src/lib.cairo") ()).1]
  exact hmap

end Surroundings

end QualityGate
