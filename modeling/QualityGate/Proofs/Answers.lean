import QualityGate.Proofs.Verdict

/-! # Runners without a memory

A runner may give a call the same outcome each time, whatever it was asked before. It may have a
state all the same; but its outcomes are a function of the calls (`Runner.Answers`), and then so are
the findings of a step (`Step.findings`) and those of a run, step by step
(`Execution.findings_run_of_answers`).

Two sessions that see one root, one configuration and the same files treat an event alike: both have
nothing to do, or both check the same JSON file, or both execute the same steps. So what relates the
findings of these steps relates the findings of the answers (`Session.rel_answer_of_json`). -/

namespace QualityGate

variable {σ τ : Type} {answer : Call → Outcome}

/-- The runner gives each call the same outcome, whatever its state is. -/
def Runner.Answers (r : Runner σ) (answer : Call → Outcome) : Prop :=
  ∀ s c, (r s c).1 = answer c

theorem Runner.answers_ofAnswers (f : String → Outcome) :
    (Runner.ofAnswers f).Answers fun c => f c.line :=
  fun _ _ => rfl

/-! ### Steps -/

def Step.findings (answer : Call → Outcome) (formatting : Bool) (file : Option String) (p : Step) :
    List Finding :=
  if p.gate.allows file then
    match p.action with
    | .format note =>
      if formatting ∧ (answer (p.command.call file)).succeeded then
        note.toList.map (Finding.info .format)
      else []
    | .check k =>
      k.findings (k.lookup?.bind fun c => modifiedNames (answer (c.call none)))
        (answer (p.command.call file))
  else []

namespace Execution

variable {e : Execution σ}

/-- A step finds what its calls' answers say, from any state of the runner. -/
theorem Does.findings_eq {p : Step} {s : σ} {t : Trace σ} (h : e.Does p s t)
    (hanswers : e.runner.Answers answer) : t.findings = p.findings answer e.formatting e.file := by
  have hanswer {s t : σ} {c : Call} {o : Outcome} (hrun : e.runner s c = (o, t)) :
      o = answer c := by
    rw [← hanswers s c, hrun]
  rw [Step.findings]
  cases h with
  | closed hgate => rw [hgate, if_neg Bool.false_ne_true]
  | unformatted haction hoff =>
    rw [haction, hoff]
    simp
  | formatted hgate haction hon hrun =>
    rw [hgate, if_pos rfl, haction, hon]
    simp only [hanswer hrun, true_and]
    rfl
  | checked hgate haction hno hrun =>
    rw [hgate, if_pos rfl, haction]
    dsimp only
    rw [Check.lookup?_eq_none_iff.mpr hno, hanswer hrun]
    rfl
  | narrowed hgate haction hlisted hrun =>
    rw [hgate, if_pos rfl, haction, hanswer hlisted, hanswer hrun]
    rfl

/-- The findings of a run are those of its steps. -/
theorem findings_run_of_answers (hanswers : e.runner.Answers answer) (ps : List Step) (s : σ) :
    (e.run ps s).findings = ps.flatMap (Step.findings answer e.formatting e.file) := by
  induction ps generalizing s with
  | nil => rfl
  | cons p ps ih =>
    rw [run_cons, Trace.findings_andThen, (e.does_step p s).findings_eq hanswers, ih,
      List.flatMap_cons]

end Execution

/-! ### Two sessions -/

/-- Answers that are related are given or not given together. -/
theorem optionRel_iff {α β : Type} {R : α → β → Prop} {a : Option α} {b : Option β} :
    Option.Rel R a b ↔ (a = none ↔ b = none) ∧ ∀ u v, a = some u → b = some v → R u v := by
  cases a with
  | none => cases b <;> simp
  | some u => cases b <;> simp

namespace Session

variable {x : Session σ} {y : Session τ} {s : σ} {t : τ} {R : List Finding → List Finding → Prop}

/-- The findings of two answers to an edit are related if those of the steps for each path are, and
if those in a JSON file are related to themselves. -/
theorem rel_edit (hroot : x.root = y.root) (hconfig : x.config = y.config)
    (hcontent : x.content s = y.content t)
    (hjson : ∀ path content, R (Json.fileFindings path content) (Json.fileFindings path content))
    {mode : Mode}
    (hsteps : ∀ path, R
      ((x.execution (some path)).run (x.config.pathSteps mode path) s).findings
      ((y.execution (some path)).run (y.config.pathSteps mode path) t).findings) (event : Event) :
    Option.Rel (fun u v => R u.findings v.findings) (x.edit mode event s)
      (y.edit mode event t) := by
  rw [edit_eq, edit_eq, ← hconfig]
  cases event.filePath with
  | none => exact .none
  | some path =>
    dsimp only
    split
    · exact .none
    · rw [checkPath_eq, checkPath_eq, ← hconfig]
      split
      · refine .some ?_
        rw [checkJson, checkJson, hroot, hcontent]
        exact hjson _ _
      · split
        · exact .none
        · have hpath := hsteps path
          rw [← hconfig] at hpath
          exact .some hpath

/-- So are the findings of two answers to a hook. -/
theorem rel_answer_of_json (hroot : x.root = y.root) (hconfig : x.config = y.config)
    (hcontent : x.content s = y.content t)
    (hjson : ∀ path content, R (Json.fileFindings path content) (Json.fileFindings path content))
    (hsteps : ∀ mode path, R
      ((x.execution (some path)).run (x.config.pathSteps mode path) s).findings
      ((y.execution (some path)).run (y.config.pathSteps mode path) t).findings)
    (hcompletion : R (x.complete s).findings (y.complete t).findings) (hook : HookName)
    (event : Event) :
    Option.Rel (fun u v => R u.findings v.findings) (x.answer hook event s)
      (y.answer hook event t) := by
  cases hook with
  | fast => exact rel_edit hroot hconfig hcontent hjson (hsteps .fast) event
  | full => exact rel_edit hroot hconfig hcontent hjson (hsteps .full) event
  | complete => exact .some hcompletion

/-- A relation in which all findings stand to themselves does not see the JSON files. -/
theorem rel_answer (hroot : x.root = y.root) (hconfig : x.config = y.config)
    (hcontent : x.content s = y.content t) (hrefl : ∀ fs, R fs fs)
    (hsteps : ∀ mode path, R
      ((x.execution (some path)).run (x.config.pathSteps mode path) s).findings
      ((y.execution (some path)).run (y.config.pathSteps mode path) t).findings)
    (hcompletion : R (x.complete s).findings (y.complete t).findings) (hook : HookName)
    (event : Event) :
    Option.Rel (fun u v => R u.findings v.findings) (x.answer hook event s)
      (y.answer hook event t) :=
  rel_answer_of_json hroot hconfig hcontent (fun _ _ => hrefl _) hsteps hcompletion hook event

end Session

end QualityGate
