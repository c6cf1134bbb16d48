import QualityGate.Proofs.Answers
import QualityGate.Proofs.Text.LineEnding

/-! # Tools that end their lines in another way

An output may come with a carriage return in front of each line feed. The gate reads it alike
(`Outcome.readAlike_crlf`): each check finds the same in it, down to the excerpts, and a lookup
lists the same names.

A run depends on the outcomes by what is read in them and by nothing else (`Execution.run_alike`).
So a runner, with a memory or without, may answer with other line endings at each call, and every
verdict stays as it is (`Session.line_endings_alike`). -/

namespace QualityGate

variable {σ τ : Type}

/-! ### Outcomes -/

/-- Whatever reads the outcomes, finds the same in both. -/
structure Outcome.ReadAlike (o p : Outcome) : Prop where
  succeeded : p.succeeded = o.succeeded
  findings : ∀ (k : Check) (modified : Option (List String)),
    k.findings modified p = k.findings modified o
  names : modifiedNames p = modifiedNames o

/-- The outcome with a carriage return in front of each line feed of its output. -/
def Outcome.crlf (o : Outcome) : Outcome :=
  ⟨o.succeeded, String.ofList (Text.crlf o.output.toList)⟩

namespace Outcome

theorem toList_output_crlf (o : Outcome) : o.crlf.output.toList = Text.crlf o.output.toList :=
  String.toList_ofList

theorem lines_crlf {o : Outcome} (h : '\r' ∉ o.output.toList) : o.crlf.lines = o.lines := by
  rw [lines, lines, toList_output_crlf, Text.lines_crlf h]

variable {word : String}

theorem mentions_crlf (hw : Text.InLine word.toList) (hne : word.toList ≠ []) (o : Outcome) :
    o.crlf.mentions word = o.mentions word := by
  rw [mentions, mentions, toList_output_crlf, Text.fold_crlf, Text.occursIn_crlf hw hne]

theorem mentionCount_crlf (hw : Text.InLine word.toList) (hne : word.toList ≠ []) (o : Outcome) :
    o.crlf.mentionCount word = o.mentionCount word := by
  rw [mentionCount, mentionCount, toList_output_crlf, Text.fold_crlf, Text.occurrences_crlf hw hne]

end Outcome

/-! ### Readings of an output -/

variable {o : Outcome}

theorem Lint.diagnostics_crlf (tool : String) (h : '\r' ∉ o.output.toList) :
    diagnostics tool o.crlf = diagnostics tool o := by
  rw [diagnostics, diagnostics, diagnosticLines, diagnosticLines, Outcome.lines_crlf h]

theorem Lint.summary_crlf (o : Outcome) : summary o.crlf = summary o := by
  rw [summary, summary, Outcome.mentions_crlf (by decide) (by decide),
    Outcome.mentions_crlf (by decide) (by decide), Outcome.toList_output_crlf,
    Text.countOf_crlf (by decide)]

theorem Lint.remaining_crlf (o : Outcome) : remaining o.crlf = remaining o := by
  rw [remaining, remaining, Outcome.mentionCount_crlf (by decide) (by decide)]

theorem Types.errors_crlf (modified : Option (List String)) (h : '\r' ∉ o.output.toList) :
    errors modified o.crlf = errors modified o := by
  have hlines : diagnosticLines o.crlf = diagnosticLines o := by
    rw [diagnosticLines, diagnosticLines, Outcome.lines_crlf h]
  have hnarrowed : ∀ names, narrowed names o.crlf = narrowed names o := by
    intro names
    rw [narrowed, narrowed, hlines]
  have hsucceeded : o.crlf.succeeded = o.succeeded := rfl
  simp only [errors, hsucceeded, hlines, hnarrowed]

theorem Duplicates.exactClones_crlf (o : Outcome) : exactClones o.crlf = exactClones o := by
  rw [exactClones, exactClones, Outcome.mentions_crlf (by decide) (by decide),
    Outcome.toList_output_crlf, Text.countOf_crlf (by decide)]

theorem Duplicates.clones_crlf (scope : String) (reportClean : Bool) (o : Outcome) :
    clones scope reportClean o.crlf = clones scope reportClean o := by
  rw [clones, clones, cloneCount, cloneCount, Outcome.toList_output_crlf,
    Text.occurrences_crlf (by decide) (by decide)]

theorem Build.compile_crlf (language : String) (h : '\r' ∉ o.output.toList) :
    compile language o.crlf = compile language o := by
  have hsucceeded : o.crlf.succeeded = o.succeeded := rfl
  rw [compile, compile, hsucceeded, Outcome.mentions_crlf (by decide) (by decide), errorLine?,
    errorLine?, Outcome.lines_crlf h]

theorem Imports.circular_crlf (o : Outcome) : circular o.crlf = circular o := by
  rw [circular, circular, Outcome.mentions_crlf (by decide) (by decide),
    Outcome.mentions_crlf (by decide) (by decide)]

theorem Imports.unusedExports_crlf (o : Outcome) : unusedExports o.crlf = unusedExports o := by
  rw [unusedExports, unusedExports, Outcome.mentionCount_crlf (by decide) (by decide)]

/-- No check sees how lines end. -/
theorem Check.findings_crlf (k : Check) (modified : Option (List String))
    (h : '\r' ∉ o.output.toList) : k.findings modified o.crlf = k.findings modified o := by
  cases k with
  | fastLint tool => exact Lint.diagnostics_crlf tool h
  | lintSummary => exact Lint.summary_crlf o
  | lintFix => exact Lint.remaining_crlf o
  | typeCheck lookup reportClean =>
    rw [findings, findings, Types.errors_crlf modified h]
    rfl
  | exactClones => exact Duplicates.exactClones_crlf o
  | cloneCount scope reportClean => exact Duplicates.clones_crlf scope reportClean o
  | compile language => exact Build.compile_crlf language h
  | tests language => rfl
  | circular => exact Imports.circular_crlf o
  | unusedExports => exact Imports.unusedExports_crlf o

/-- **Line endings are not read.** -/
theorem Outcome.readAlike_crlf (h : '\r' ∉ o.output.toList) : o.ReadAlike o.crlf where
  succeeded := rfl
  findings k modified := k.findings_crlf modified h
  names := by
    rw [modifiedNames, modifiedNames, lines_crlf h]
    rfl

/-! ### Runs -/

/-- From related states the runners answer in outcomes that read alike, and are left in related
states. -/
def Runner.AnswersAlike (r : Runner σ) (q : Runner τ) (R : σ → τ → Prop) : Prop :=
  ∀ s t c, R s t → (r s c).1.ReadAlike (q t c).1 ∧ R (r s c).2 (q t c).2

/-- The traces have the same findings, and end in related states. -/
structure Trace.Alike (R : σ → τ → Prop) (t : Trace σ) (u : Trace τ) : Prop where
  findings : t.findings = u.findings
  state : R t.state u.state

theorem Trace.Alike.andThen {R : σ → τ → Prop} {t : Trace σ} {u : Trace τ} (h : Alike R t u)
    {f : σ → Trace σ} {g : τ → Trace τ} (hnext : ∀ s t, R s t → Alike R (f s) (g t)) :
    Alike R (t.andThen f) (u.andThen g) := by
  have hlast := hnext _ _ h.state
  exact ⟨by rw [findings_andThen, findings_andThen, h.findings, hlast.findings], hlast.state⟩

namespace Execution

variable {e : Execution σ} {d : Execution τ} {R : σ → τ → Prop}

/-- One call whose outcome is looked at by readers only. -/
theorem call_alike (hrunner : e.runner.AnswersAlike d.runner R) {s : σ} {t : τ} (hst : R s t)
    (c : Call) {f g : Outcome → List Finding} (hread : ∀ o p, o.ReadAlike p → f o = g p) :
    Trace.Alike R (e.call c f s) (d.call c g t) := by
  obtain ⟨houtcome, hnext⟩ := hrunner s t c hst
  exact ⟨hread _ _ houtcome, hnext⟩

theorem check_alike (hrunner : e.runner.AnswersAlike d.runner R) (hfile : e.file = d.file)
    {s : σ} {t : τ} (hst : R s t) (c : Command) (k : Check) :
    Trace.Alike R (e.check c k s) (d.check c k t) := by
  rw [check, check, ← hfile]
  cases k.lookup? with
  | none => exact call_alike hrunner hst _ fun o p h => (h.findings k none).symm
  | some lookup =>
    obtain ⟨hlisted, hnext⟩ := hrunner s t (lookup.call none) hst
    have hlookup : Trace.Alike R ⟨[lookup.call none], [], (e.runner s (lookup.call none)).2⟩
        ⟨[lookup.call none], [], (d.runner t (lookup.call none)).2⟩ := ⟨rfl, hnext⟩
    dsimp only
    rw [hlisted.names]
    exact hlookup.andThen fun s t hst =>
      call_alike hrunner hst _ fun o p h => (h.findings k _).symm

theorem step_alike (hrunner : e.runner.AnswersAlike d.runner R) (hfile : e.file = d.file)
    (hformatting : e.formatting = d.formatting) {s : σ} {t : τ} (hst : R s t) (p : Step) :
    Trace.Alike R (e.step p s) (d.step p t) := by
  rw [step, step, ← hfile, ← hformatting]
  split
  · cases p.action with
    | format note =>
      dsimp only
      split
      · rw [format, format, ← hfile]
        exact call_alike hrunner hst _ fun o p h => by rw [h.succeeded]
      · exact ⟨rfl, hst⟩
    | check k => exact check_alike hrunner hfile hst p.command k
  · exact ⟨rfl, hst⟩

/-- Runs depend on the outcomes by what is read in them. -/
theorem run_alike (hrunner : e.runner.AnswersAlike d.runner R) (hfile : e.file = d.file)
    (hformatting : e.formatting = d.formatting) {s : σ} {t : τ} (hst : R s t) (ps : List Step) :
    Trace.Alike R (e.run ps s) (d.run ps t) := by
  induction ps generalizing s t with
  | nil => exact ⟨rfl, hst⟩
  | cons p ps ih => exact (step_alike hrunner hfile hformatting hst p).andThen fun s t hst => ih hst

end Execution

/-! ### Verdicts -/

/-- From related states the second runner answers as the first one does, which prints no carriage
return, but with one in front of each line feed. -/
structure Runner.RepliesInCrlf (r : Runner σ) (q : Runner τ) (R : σ → τ → Prop) : Prop where
  notMem : ∀ s t c, R s t → '\r' ∉ (r s c).1.output.toList
  crlf : ∀ s t c, R s t → (q t c).1 = (r s c).1.crlf
  next : ∀ s t c, R s t → R (r s c).2 (q t c).2

theorem Runner.RepliesInCrlf.answersAlike {r : Runner σ} {q : Runner τ} {R : σ → τ → Prop}
    (h : r.RepliesInCrlf q R) : r.AnswersAlike q R := by
  intro s t c hst
  rw [h.crlf s t c hst]
  exact ⟨Outcome.readAlike_crlf (h.notMem s t c hst), h.next s t c hst⟩

namespace Session

/-- **Line endings do not matter.** An output without a carriage return gives rise to the same
findings as it does with one in front of each line feed, and so does a lookup of the modified files.
Two sessions with one configuration and the same files, whose runners differ in this alone, have the
same verdicts. -/
theorem line_endings_alike (x : Session σ) (y : Session τ) :
    (∀ (k : Check) (listed o : Outcome), '\r' ∉ listed.output.toList → '\r' ∉ o.output.toList →
      (∀ modified, k.findings modified o.crlf = k.findings modified o) ∧
      modifiedNames listed.crlf = modifiedNames listed ∧
      k.findings (modifiedNames listed.crlf) o.crlf = k.findings (modifiedNames listed) o) ∧
    (x.root = y.root → x.config = y.config → x.formatting = y.formatting →
      ∀ (R : σ → τ → Prop), x.runner.RepliesInCrlf y.runner R → ∀ s t, R s t →
        x.content s = y.content t → ∀ (hook : HookName) (event : Event),
          (y.answer hook event t).map Trace.verdict =
            (x.answer hook event s).map Trace.verdict) := by
  refine ⟨fun k listed o hlisted ho => ?_,
    fun hroot hconfig hformatting R hreplies s t hst hcontent hook event => ?_⟩
  · have hnames := (Outcome.readAlike_crlf hlisted).names
    refine ⟨fun modified => k.findings_crlf modified ho, hnames, ?_⟩
    rw [hnames, k.findings_crlf _ ho]
  · have hrun : ∀ (file : Option String) (ps : List Step),
        ((x.execution file).run ps s).findings = ((y.execution file).run ps t).findings :=
      fun file ps => (Execution.run_alike (e := x.execution file) (d := y.execution file)
        hreplies.answersAlike rfl hformatting hst ps).findings
    have hrel : Option.Rel (fun u v => u.findings = v.findings) (x.answer hook event s)
        (y.answer hook event t) := by
      refine rel_answer (R := Eq) hroot hconfig hcontent (fun _ => rfl) (fun mode path => ?_) ?_
        hook event
      · rw [← hconfig]
        exact hrun _ _
      · rw [complete, complete, ← hconfig]
        exact hrun _ _
    generalize x.answer hook event s = u at hrel ⊢
    generalize y.answer hook event t = v at hrel ⊢
    cases hrel with
    | none => rfl
    | some h => exact congrArg (fun fs => some (Verdict.mk fs)) h.symm

end Session

/-- The answers of a repository whose linter has the count in one line and the noun in the next. -/
def brokenCount (line : String) : Outcome :=
  if line = Role.lint.defaultCommand.run then ⟨false, "2\nerrors\n"⟩ else ⟨true, "a.ts\n"⟩

/-- The count reaches over the end of a line, whatever that is made of. -/
theorem Session.line_endings_alike_count :
    let x : Session Unit := ⟨"/repo", .default, .ofAnswers brokenCount, true, fun _ _ => none⟩
    let y : Session Unit :=
      ⟨"/repo", .default, .ofAnswers fun line => (brokenCount line).crlf, true, fun _ _ => none⟩
    (x.complete ()).verdict = ⟨[.error .lint "Lint: 2 error(s)"]⟩ ∧
      (y.complete ()).verdict = ⟨[.error .lint "Lint: 2 error(s)"]⟩ := by
  intro x y
  have hreplies : x.runner.RepliesInCrlf y.runner fun _ _ => True := by
    refine ⟨fun s t c _ => ?_, fun s t c _ => rfl, fun s t c _ => trivial⟩
    show '\r' ∉ (brokenCount c.line).output.toList
    rw [brokenCount]
    split <;> decide
  have hx : (x.complete ()).verdict = ⟨[.error .lint "Lint: 2 error(s)"]⟩ := by decide +kernel
  have halike := (line_endings_alike x y).2 rfl rfl rfl _ hreplies () () trivial rfl .complete
    (.forFile "a.ts")
  exact ⟨hx, (Option.some.inj halike).trans hx⟩

end QualityGate
