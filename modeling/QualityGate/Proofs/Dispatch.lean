import QualityGate.Arguments
import QualityGate.Proofs.Execution
import QualityGate.Session

/-! # What a session asks

A session answers an edit in one of three ways (`Session.checkPath_cases`): it checks a JSON file
itself, it executes the steps for the path, or it does nothing because there are none. Neither the
choice nor what is asked on the way depends on an outcome. So the calls of a hook are a function of
the configuration, the edited path and the switch for formatting (`Config.calls`,
`Session.asked_eq`), and any two runners are asked the same (`Session.asked_alike`). -/

namespace QualityGate

variable {σ τ : Type}

/-! ### The calls of a hook -/

namespace Config

/-- The steps for an edit of a path that is not skipped. -/
def pathSteps (c : Config) (mode : Mode) (path : String) : List Step :=
  c.editPipeline mode (FileKind.ofPath path)

def editCalls (c : Config) (formatting : Bool) (mode : Mode) : (path : Option String) → List Call
  | none => []
  | some path =>
    if c.skips path then []
    else (c.pathSteps mode path).flatMap (Step.calls formatting (some path))

def calls (c : Config) (formatting : Bool) (path : Option String) : HookName → List Call
  | .fast => c.editCalls formatting .fast path
  | .full => c.editCalls formatting .full path
  | .complete => c.completionPipeline.flatMap (Step.calls formatting none)

/-- No command checks a JSON file. -/
theorem pathSteps_json (c : Config) {path : String} (h : FileKind.ofPath path = .json)
    (mode : Mode) : c.pathSteps mode path = [] := by
  rw [pathSteps, h]
  cases mode <;> rfl

end Config

namespace Session

/-! ### The answer to an edit -/

/-- A JSON file is checked by the session itself, any other file by its steps. -/
theorem checkPath_eq (x : Session σ) (mode : Mode) (path : String) (s : σ) :
    x.checkPath mode path s =
      if mode = .fast ∧ FileKind.ofPath path = .json then some (x.checkJson path s)
      else if x.config.pathSteps mode path = [] then none
      else some ((x.execution (some path)).run (x.config.pathSteps mode path) s) := by
  unfold checkPath Config.pathSteps
  cases mode <;> cases FileKind.ofPath path <;> rfl

/-- An edit is answered for its path, unless that is skipped. -/
theorem edit_eq (x : Session σ) (mode : Mode) (event : Event) (s : σ) :
    x.edit mode event s =
      match event.filePath with
      | none => none
      | some path => if x.config.skips path then none else x.checkPath mode path s := by
  rw [edit, Config.editedPath?]
  cases event.filePath with
  | none => rfl
  | some path =>
    rw [Option.filter_some]
    by_cases hskip : x.config.skips path = true <;> simp [hskip]

/-- The fast hook answers the edit of a JSON file by checking it, unless its path is skipped. -/
theorem edit_json (x : Session σ) {event : Event} {path : String}
    (hpath : event.filePath = some path) (hkind : FileKind.ofPath path = .json) (s : σ) :
    x.edit .fast event s = if x.config.skips path then none else some (x.checkJson path s) := by
  rw [x.edit_eq, hpath]
  dsimp only
  rw [x.checkPath_eq, if_pos (And.intro rfl hkind)]

def answer (x : Session σ) (hook : HookName) (event : Event) (s : σ) : Option (Trace σ) :=
  match hook with
  | .fast => x.edit .fast event s
  | .full => x.edit .full event s
  | .complete => some (x.complete s)

/-- The calls of an answer. -/
theorem calls_checkPath (x : Session σ) (mode : Mode) (path : String) (s : σ) :
    (x.checkPath mode path s).elim [] Trace.calls =
      (x.config.pathSteps mode path).flatMap (Step.calls x.formatting (some path)) := by
  rw [checkPath_eq]
  split
  · rename_i hjson
    rw [x.config.pathSteps_json hjson.2]
    rfl
  · split
    · rename_i hnil
      rw [hnil]
      rfl
    · exact (x.execution (some path)).calls_run _ s

theorem calls_edit (x : Session σ) (mode : Mode) (event : Event) (s : σ) :
    (x.edit mode event s).elim [] Trace.calls =
      x.config.editCalls x.formatting mode event.filePath := by
  rw [edit_eq]
  cases event.filePath with
  | none => rfl
  | some path =>
    simp only [Config.editCalls]
    by_cases hskip : x.config.skips path = true
    · rw [if_pos hskip, if_pos hskip]
      rfl
    · rw [if_neg hskip, if_neg hskip]
      exact x.calls_checkPath mode path s

theorem calls_answer (x : Session σ) (hook : HookName) (event : Event) (s : σ) :
    (x.answer hook event s).elim [] Trace.calls =
      x.config.calls x.formatting event.filePath hook := by
  cases hook with
  | fast => exact x.calls_edit .fast event s
  | full => exact x.calls_edit .full event s
  | complete => exact (x.execution none).calls_run _ s

/-! ### What the runner sees -/

/-- The session whose runner writes down what it is asked. -/
def recording (x : Session σ) : Session (σ × List Call) :=
  ⟨x.root, x.config, x.runner.recording, x.formatting, fun s => x.content s.1⟩

theorem checkPath_recording (x : Session σ) (mode : Mode) (path : String) (s : σ)
    (log : List Call) :
    x.recording.checkPath mode path (s, log) = (x.checkPath mode path s).map (·.recorded log) := by
  have hjson : x.recording.checkJson path (s, log) = (x.checkJson path s).recorded log := by
    simp [checkJson, recording, Trace.recorded]
  have hrun := (x.execution (some path)).run_recording (x.config.pathSteps mode path) s log
  rw [checkPath_eq, checkPath_eq]
  split
  · rw [hjson]
    rfl
  · split
    · rw [if_pos ‹_›]
      rfl
    · rw [if_neg ‹_›]
      exact congrArg some hrun

theorem edit_recording (x : Session σ) (mode : Mode) (event : Event) (s : σ) (log : List Call) :
    x.recording.edit mode event (s, log) = (x.edit mode event s).map (·.recorded log) := by
  rw [edit_eq, edit_eq]
  cases event.filePath with
  | none => rfl
  | some path =>
    have hskips : x.recording.config.skips path = x.config.skips path := rfl
    dsimp only
    rw [hskips]
    split
    · rfl
    · exact x.checkPath_recording mode path s log

theorem answer_recording (x : Session σ) (hook : HookName) (event : Event) (s : σ)
    (log : List Call) :
    x.recording.answer hook event (s, log) = (x.answer hook event s).map (·.recorded log) := by
  cases hook with
  | fast => exact x.edit_recording .fast event s log
  | full => exact x.edit_recording .full event s log
  | complete => exact congrArg some ((x.execution none).run_recording _ s log)

/-- What the runner is asked in answer to a hook. -/
def asked (x : Session σ) (hook : HookName) (event : Event) (s : σ) : List Call :=
  (x.recording.answer hook event (s, [])).elim [] fun t => t.state.2

/-- The runner is asked the calls of the answer. -/
theorem asked_eq_calls (x : Session σ) (hook : HookName) (event : Event) (s : σ) :
    x.asked hook event s = (x.answer hook event s).elim [] Trace.calls := by
  rw [asked, answer_recording]
  cases x.answer hook event s <;> rfl

/-- What the runner is asked is known without it. -/
theorem asked_eq (x : Session σ) (hook : HookName) (event : Event) (s : σ) :
    x.asked hook event s = x.config.calls x.formatting event.filePath hook := by
  rw [asked_eq_calls, calls_answer]

/-- **What is asked never depends on what is answered.** Two sessions with one configuration and one
switch for formatting ask the same of any two runners for events about one path: the calls that
these give rise to. -/
theorem asked_alike (x : Session σ) (y : Session τ) (hconfig : x.config = y.config)
    (hformatting : x.formatting = y.formatting) {event event' : Event}
    (hpath : event.filePath = event'.filePath) (hook : HookName) (s : σ) (t : τ) :
    x.asked hook event s = y.asked hook event' t ∧
      x.asked hook event s = x.config.calls x.formatting event.filePath hook ∧
      (x.answer hook event s).elim [] Trace.calls =
        (y.answer hook event' t).elim [] Trace.calls := by
  have hcalls : x.config.calls x.formatting event.filePath hook =
      y.config.calls y.formatting event'.filePath hook := by
    rw [hconfig, hformatting, hpath]
  refine ⟨?_, x.asked_eq hook event s, ?_⟩
  · rw [asked_eq, asked_eq, hcalls]
  · rw [calls_answer, calls_answer, hcalls]

/-- A runner for which all goes well is asked what one is asked that answers another thing each
time. -/
theorem asked_alike_page :
    (Session.mk "/repo" .default (.ofAnswers fun _ => ⟨true, ""⟩) true fun _ _ => none).asked
        .full (.forFile "hooks/a.ts") () =
      (Session.mk "/work" .default (fun n _ => (⟨false, s!"{n} errors"⟩, n + 1)) true
        fun _ _ => none : Session Nat).asked .full (.forFile "hooks/a.ts") 7 := by
  let x : Session Unit :=
    ⟨"/repo", .default, .ofAnswers fun _ => ⟨true, ""⟩, true, fun _ _ => none⟩
  let y : Session Nat :=
    ⟨"/work", .default, fun n _ => (⟨false, s!"{n} errors"⟩, n + 1), true, fun _ _ => none⟩
  exact (asked_alike x y rfl rfl rfl .full () 7).1

end Session

end QualityGate
