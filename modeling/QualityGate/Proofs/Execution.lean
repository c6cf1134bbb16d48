import QualityGate.Execution

/-! # What an execution does

A step does one of five things (`Execution.Does`): nothing, because its gate is closed; nothing,
because it formats and formatting is off; one call that formats; one call that checks; or two calls,
the first of which lists the files that the second is narrowed to. `Execution.does_iff` says that
this is all that a step does, so what follows about steps goes by these cases.

* `Execution.run_append`: a list of steps laid behind another one is executed from the state that
  the other one leaves.
* `Execution.calls_run`: the calls of a run are those of its steps, one step after the other. Those
  of a step (`Step.calls`) are known before it runs, so no outcome adds, drops or moves a call.
* `Execution.run_recording`: the calls of a run are those that the runner sees. A runner that writes
  down what it is asked ends with exactly these behind what it wrote before. -/

namespace QualityGate

/-! ### Runners that record -/

variable {σ : Type}

/-- A runner that writes down what it is asked. -/
def Runner.recording (r : Runner σ) : Runner (σ × List Call) :=
  fun s c => ((r s.1 c).1, (r s.1 c).2, s.2 ++ [c])

/-- The run whose runner has written its calls behind a log. -/
def Trace.recorded (t : Trace σ) (log : List Call) : Trace (σ × List Call) :=
  ⟨t.calls, t.findings, t.state, log ++ t.calls⟩

theorem Trace.recorded_andThen (t : Trace σ) (f : σ → Trace σ)
    {g : σ × List Call → Trace (σ × List Call)} (h : ∀ s log, g (s, log) = (f s).recorded log)
    (log : List Call) : (t.recorded log).andThen g = (t.andThen f).recorded log := by
  have hnext : g (t.recorded log).state = (f t.state).recorded (log ++ t.calls) := h _ _
  rw [andThen, hnext]
  simp [recorded]

/-! ### The calls of a step -/

/-- The calls that a step makes, whatever comes of them. -/
def Step.calls (formatting : Bool) (file : Option String) (p : Step) : List Call :=
  if p.gate.allows file then
    match p.action with
    | .format _ => if formatting then [p.command.call file] else []
    | .check k => (k.lookup?.map (·.call none)).toList ++ [p.command.call file]
  else
    []

/-- Only a narrowed type check has a lookup. -/
theorem Check.lookup?_eq_some_iff {k : Check} {c : Command} :
    k.lookup? = some c ↔ ∃ clean, k = .typeCheck (some c) clean := by
  constructor
  · intro h
    cases k with
    | typeCheck lookup clean =>
      rw [lookup?] at h
      exact ⟨clean, by rw [h]⟩
    | _ => simp [lookup?] at h
  · rintro ⟨clean, rfl⟩
    rfl

theorem Check.lookup?_eq_none_iff {k : Check} :
    k.lookup? = none ↔ ∀ c clean, k ≠ .typeCheck (some c) clean := by
  rw [Option.eq_none_iff_forall_ne_some]
  constructor
  · intro h c clean hk
    exact h c (lookup?_eq_some_iff.mpr ⟨clean, hk⟩)
  · intro h c hc
    obtain ⟨clean, hk⟩ := lookup?_eq_some_iff.mp hc
    exact h c clean hk

namespace Execution

/-! ### One step -/

/-- What a step does from a state of the runner. -/
inductive Does (e : Execution σ) (p : Step) (s : σ) : Trace σ → Prop
  /-- The gate is closed. -/
  | closed (hgate : p.gate.allows e.file = false) : Does e p s ⟨[], [], s⟩
  /-- The step formats, and formatting is off. -/
  | unformatted {note : Option String} (haction : p.action = .format note)
      (hoff : e.formatting = false) : Does e p s ⟨[], [], s⟩
  /-- The step formats. Success is noted if there is a note. -/
  | formatted {note : Option String} {o : Outcome} {t : σ} (hgate : p.gate.allows e.file = true)
      (haction : p.action = .format note) (hon : e.formatting = true)
      (hrun : e.runner s ⟨p.command.render e.file, p.command.timeoutSecs⟩ = (o, t)) :
      Does e p s ⟨[⟨p.command.render e.file, p.command.timeoutSecs⟩],
        if o.succeeded then note.toList.map (Finding.info .format) else [], t⟩
  /-- The step checks, and nothing has to be looked up for that. -/
  | checked {k : Check} {o : Outcome} {t : σ} (hgate : p.gate.allows e.file = true)
      (haction : p.action = .check k) (hlookup : ∀ c clean, k ≠ .typeCheck (some c) clean)
      (hrun : e.runner s ⟨p.command.render e.file, p.command.timeoutSecs⟩ = (o, t)) :
      Does e p s ⟨[⟨p.command.render e.file, p.command.timeoutSecs⟩], k.findings none o, t⟩
  /-- The step checks types and looks up the modified files first, for no file. -/
  | narrowed {c : Command} {clean : Bool} {listed o : Outcome} {t u : σ}
      (hgate : p.gate.allows e.file = true) (haction : p.action = .check (.typeCheck (some c) clean))
      (hlisted : e.runner s ⟨c.run, c.timeoutSecs⟩ = (listed, t))
      (hrun : e.runner t ⟨p.command.render e.file, p.command.timeoutSecs⟩ = (o, u)) :
      Does e p s ⟨[⟨c.run, c.timeoutSecs⟩, ⟨p.command.render e.file, p.command.timeoutSecs⟩],
        (Check.typeCheck (some c) clean).findings (modifiedNames listed) o, u⟩

theorem step_of_closed (e : Execution σ) {p : Step} (h : p.gate.allows e.file = false) (s : σ) :
    e.step p s = .idle s := by
  simp [step, h]

theorem step_format (e : Execution σ) {p : Step} {note : Option String}
    (hgate : p.gate.allows e.file = true) (haction : p.action = .format note) (s : σ) :
    e.step p s = if e.formatting then e.format p.command note s else .idle s := by
  simp [step, hgate, haction]

theorem step_check (e : Execution σ) {p : Step} {k : Check}
    (hgate : p.gate.allows e.file = true) (haction : p.action = .check k) (s : σ) :
    e.step p s = e.check p.command k s := by
  simp [step, hgate, haction]

/-- Executing a step is one of the five. -/
theorem does_step (e : Execution σ) (p : Step) (s : σ) : e.Does p s (e.step p s) := by
  by_cases hgate : p.gate.allows e.file = true
  · cases haction : p.action with
    | format note =>
      rw [e.step_format hgate haction]
      by_cases hon : e.formatting = true
      · rw [if_pos hon]
        exact .formatted hgate haction hon rfl
      · rw [if_neg hon]
        exact .unformatted haction (by simpa using hon)
    | check k =>
      rw [e.step_check hgate haction]
      cases hlookup : k.lookup? with
      | none =>
        simp only [check, hlookup]
        exact .checked hgate haction (Check.lookup?_eq_none_iff.mp hlookup) rfl
      | some c =>
        obtain ⟨clean, rfl⟩ := Check.lookup?_eq_some_iff.mp hlookup
        exact .narrowed hgate haction rfl rfl
  · rw [e.step_of_closed (by simpa using hgate)]
    exact .closed (by simpa using hgate)

/-- **Executing a step does the one thing that there is for it to do.** -/
theorem does_iff {e : Execution σ} {p : Step} {s : σ} {t : Trace σ} :
    e.Does p s t ↔ t = e.step p s := by
  constructor
  · intro h
    cases h with
    | closed hgate => exact (e.step_of_closed hgate s).symm
    | unformatted haction hoff =>
      by_cases hgate : p.gate.allows e.file = true
      · rw [e.step_format hgate haction, hoff]
        rfl
      · exact (e.step_of_closed (by simpa using hgate) s).symm
    | formatted hgate haction hon hrun =>
      rw [e.step_format hgate haction, if_pos hon]
      simp [format, call, Command.call, hrun]
    | @checked k _ _ hgate haction hno hrun =>
      have hlookup : k.lookup? = none := Check.lookup?_eq_none_iff.mpr hno
      rw [e.step_check hgate haction]
      simp [check, hlookup, call, Command.call, hrun]
    | narrowed hgate haction hlisted hrun =>
      rw [e.step_check hgate haction]
      simp [check, Check.lookup?, Trace.andThen, call, Command.call, hlisted, hrun]
  · rintro rfl
    exact e.does_step p s

/-- The calls of a step are known before it runs. -/
theorem Does.calls_eq {e : Execution σ} {p : Step} {s : σ} {t : Trace σ} (h : e.Does p s t) :
    t.calls = p.calls e.formatting e.file := by
  cases h with
  | closed hgate => simp [Step.calls, hgate]
  | unformatted haction hoff => simp [Step.calls, haction, hoff]
  | formatted hgate haction hon _ =>
    simp only [Step.calls, hgate, haction, hon, if_true]
    rfl
  | @checked k _ _ hgate haction hno _ =>
    have hlookup : k.lookup? = none := Check.lookup?_eq_none_iff.mpr hno
    simp only [Step.calls, hgate, haction, hlookup, if_true]
    rfl
  | narrowed hgate haction _ _ =>
    simp only [Step.calls, hgate, haction, if_true]
    rfl

def recording (e : Execution σ) : Execution (σ × List Call) :=
  ⟨e.runner.recording, e.formatting, e.file⟩

/-- A recording runner lets a step do the same, and writes the calls of the step. -/
theorem Does.recording {e : Execution σ} {p : Step} {s : σ} {t : Trace σ} (h : e.Does p s t)
    (log : List Call) : e.recording.Does p (s, log) (t.recorded log) := by
  have hrecord : ∀ {s : σ} {c : Call} {o : Outcome} {t : σ} (log : List Call),
      e.runner s c = (o, t) → e.recording.runner (s, log) c = (o, t, log ++ [c]) := by
    intro s c o t log hrun
    simp [Execution.recording, Runner.recording, hrun]
  cases h with
  | closed hgate =>
    rw [Trace.recorded, List.append_nil]
    exact .closed hgate
  | unformatted haction hoff =>
    rw [Trace.recorded, List.append_nil]
    exact .unformatted haction hoff
  | formatted hgate haction hon hrun => exact .formatted hgate haction hon (hrecord log hrun)
  | checked hgate haction hno hrun => exact .checked hgate haction hno (hrecord log hrun)
  | @narrowed c _ _ _ _ _ hgate haction hlisted hrun =>
    have hlater := hrecord (log ++ [⟨c.run, c.timeoutSecs⟩]) hrun
    rw [List.append_assoc] at hlater
    exact .narrowed hgate haction (hrecord log hlisted) hlater

/-! ### All steps -/

@[simp]
theorem run_nil (e : Execution σ) (s : σ) : e.run [] s = .idle s := rfl

@[simp]
theorem run_cons (e : Execution σ) (p : Step) (ps : List Step) (s : σ) :
    e.run (p :: ps) s = (e.step p s).andThen (e.run ps) := rfl

/-- Steps behind others run from the state that these leave. -/
theorem run_append (e : Execution σ) (ps qs : List Step) (s : σ) :
    e.run (ps ++ qs) s = (e.run ps s).andThen (e.run qs) := by
  induction ps generalizing s with
  | nil => rfl
  | cons p ps ih =>
    have hrest : e.run (ps ++ qs) = fun s => (e.run ps s).andThen (e.run qs) := funext ih
    rw [List.cons_append, run_cons, run_cons, hrest, Trace.andThen_assoc]

theorem run_singleton (e : Execution σ) (p : Step) (s : σ) : e.run [p] s = e.step p s := by
  simp [Trace.andThen, Trace.idle]

/-- So are the calls of a run: no outcome adds, drops or moves one. -/
theorem calls_run (e : Execution σ) (ps : List Step) (s : σ) :
    (e.run ps s).calls = ps.flatMap (Step.calls e.formatting e.file) := by
  induction ps generalizing s with
  | nil => rfl
  | cons p ps ih =>
    rw [run_cons, Trace.calls_andThen, ih, (e.does_step p s).calls_eq, List.flatMap_cons]

/-- A runner that records its calls ends with those of the run. -/
theorem run_recording (e : Execution σ) (ps : List Step) (s : σ) (log : List Call) :
    e.recording.run ps (s, log) = (e.run ps s).recorded log := by
  induction ps generalizing s log with
  | nil => simp [Trace.recorded, Trace.idle]
  | cons p ps ih =>
    rw [run_cons, run_cons, ← does_iff.mp ((e.does_step p s).recording log)]
    exact (e.step p s).recorded_andThen (e.run ps) ih log

/-- **Executing steps is a homomorphism.** The steps behind others run from the state that these
leave, each step does one of five things, no call of a run is made twice, moved or left out because
of an outcome, and the calls of a run are what the runner sees of it. -/
theorem run_homomorphic (e : Execution σ) :
    (∀ ps qs s, (e.run (ps ++ qs) s).calls =
        (e.run ps s).calls ++ (e.run qs (e.run ps s).state).calls ∧
      (e.run (ps ++ qs) s).findings =
        (e.run ps s).findings ++ (e.run qs (e.run ps s).state).findings ∧
      (e.run (ps ++ qs) s).state = (e.run qs (e.run ps s).state).state) ∧
    (∀ p s t, e.Does p s t ↔ t = e.run [p] s) ∧
    (∀ ps s, (e.run ps s).calls = ps.flatMap (Step.calls e.formatting e.file)) ∧
    ∀ ps s log, (e.recording.run ps (s, log)).state =
      ((e.run ps s).state, log ++ (e.run ps s).calls) := by
  refine ⟨fun ps qs s => ?_, fun p s t => ?_, e.calls_run, fun ps s log => ?_⟩
  · rw [run_append]
    exact ⟨rfl, rfl, rfl⟩
  · rw [run_singleton]
    exact does_iff
  · rw [run_recording]
    rfl

end Execution

end QualityGate
