import Mathlib.Tactic.ByContra
import QualityGate.Program

/-! # How a hook ends

The exit code and the streams of a hook follow the verdict of its run. Three places decide on their
own whether there is an error: the verdict counts its errors, the hooks ask whether it blocks, and
the summary of the commentary tells how many errors are left. They agree (`Verdict.isBlocking_iff`,
`Report.summary_eq_iff`), so a hook either blocks with a reason or does not block.

An edit is looked at before anything is loaded, and a kind of file without checks is left alone
then. The session would leave it alone too (`Session.edit_of_not_handles`), so nothing is lost. -/

namespace QualityGate

/-! ### The summary -/

theorem toString_nat_injective {m n : Nat} (h : toString m = toString n) : m = n := by
  have hdigits := congrArg String.toList h
  rw [Nat.toString_eq_repr, Nat.toString_eq_repr, Nat.toList_repr, Nat.toList_repr] at hdigits
  have hvalue := congrArg (Nat.ofDigitChars 10 · 0) hdigits
  simpa using hvalue

namespace Report

/-- The summary of a run with errors. -/
def needsFixing (n : Nat) : String := s!"🚨 {n} error(s) need manual fixing"

theorem needsFixing_injective {m n : Nat} (h : needsFixing m = needsFixing n) : m = n := by
  have hlist := congrArg String.toList h
  simp only [needsFixing, String.toList_append] at hlist
  have hdigits := List.append_cancel_left (List.append_cancel_right hlist)
  exact toString_nat_injective (String.toList_inj.mp hdigits)

/-- **The summary tells of errors exactly where there are some, and then of all of them.** -/
theorem summary_eq_iff (v : Verdict) (n : Nat) :
    summary v = needsFixing n ↔ 0 < v.count .error ∧ n = v.count .error := by
  have hsiren : (needsFixing n).toList.head? = some '🚨' := by
    rw [needsFixing, String.toList_append, String.toList_append]
    rfl
  by_cases herror : 0 < v.count .error
  · have hsummary : summary v = needsFixing (v.count .error) := if_pos herror
    rw [hsummary, and_iff_right herror]
    exact ⟨fun h => (needsFixing_injective h).symm, fun h => by rw [h]⟩
  · refine iff_of_false (fun h => ?_) fun h => herror h.1
    rw [← h, summary, if_neg herror] at hsiren
    split at hsiren
    · have hbolt : (s!"⚡ All good, {v.count .warning} warning(s) to consider").toList.head? =
          some '⚡' := by
        rw [String.toList_append, String.toList_append]
        rfl
      exact absurd (hbolt.symm.trans hsiren) (by decide)
    · exact absurd hsiren (by decide)

/-- The commentary closes with the summary. -/
theorem commentary_eq (color : Bool) (name : String) (v : Verdict) :
    ∃ log, commentary color name v =
      log ++ (summaryStyle v).paint color (summary v) ++ "\n" := by
  refine ⟨s!"🔧 Running full pipeline for {name}...\n" ++ findings color "" v ++ "\n", ?_⟩
  unfold commentary
  rfl

theorem commentary_ne_empty (color : Bool) (name : String) (v : Verdict) :
    commentary color name v ≠ "" := by
  intro h
  obtain ⟨log, hlog⟩ := commentary_eq color name v
  have hend := congrArg (·.toList.getLast?) (hlog.symm.trans h)
  simp at hend

end Report

/-! ### Edits out of scope -/

variable {σ : Type}

theorem Config.editPipeline_of_not_handles (c : Config) {mode : Mode} {kind : FileKind}
    (h : mode.handles kind = false) : c.editPipeline mode kind = [] := by
  cases mode <;> cases kind <;> first | rfl | exact absurd h Bool.noConfusion

namespace Session

theorem edit_of_no_path (x : Session σ) (mode : Mode) {e : Event} (he : e.filePath = none) (s : σ) :
    x.edit mode e s = none := by
  rw [edit, Config.editedPath?, he]
  rfl

/-- A kind of file without checks is answered with no run. -/
theorem edit_of_not_handles (x : Session σ) {mode : Mode} {e : Event} {path : String}
    (he : e.filePath = some path) (h : mode.handles (FileKind.ofPath path) = false) (s : σ) :
    x.edit mode e s = none := by
  have hcheck : x.checkPath mode path s = none := by
    have hjson : mode = .fast → FileKind.ofPath path = .json → False := by
      intro hm hk
      rw [hm, hk] at h
      exact absurd h (by decide)
    rw [checkPath, x.config.editPipeline_of_not_handles h]
    exact hjson
  rw [edit, Config.editedPath?, he]
  cases hskip : (some path).filter (! x.config.skips ·) with
  | none => rfl
  | some p =>
    have hp : p = path := (Option.some.inj (Option.filter_eq_some_iff.mp hskip).1).symm
    rw [Option.bind_some, hp, hcheck]

end Session

/-! ### Runs of the program -/

/-- An ending that is silent unless the verdict has an error; then it blocks with the report, which
is the header and under it every finding in its order. -/
structure Ending.BlocksOn (e : Ending) (verdict : Option Verdict) (color : Bool) (header : String) :
    Prop where
  exit : e.exit = 2 ↔ ∃ v, verdict = some v ∧ 0 < v.count .error
  reported : ∀ v, verdict = some v → 0 < v.count .error →
    e.stderr = Report.blocking color header v ∧ e.stdout = ""
  lines : ∀ v, verdict = some v → 0 < v.count .error →
    e.stderr = Style.bold.paint color header ++ "\n" ++
      String.join (v.findings.map (Report.finding color "  "))
  silent : e.exit ≠ 2 → e.exit = 0 ∧ e.stdout = "" ∧ e.stderr = ""

/-- An ending that comments on the verdict and fails on an error. The commentary closes with a
summary that tells of errors, and of how many, exactly where there are some. -/
structure Ending.CommentsOn (e : Ending) (verdict : Option Verdict) (color : Bool) (name : String) :
    Prop where
  exit : e.exit = 1 ↔ ∃ v, verdict = some v ∧ 0 < v.count .error
  passed : e.exit ≠ 1 → e.exit = 0
  notBlocked : e.exit ≠ 2
  stderr : e.stderr = ""
  stdout : e.stdout ≠ "" ↔ ∃ v, verdict = some v
  commentary : ∀ v, verdict = some v → e.stdout = Report.commentary color name v ∧
    (∃ log, e.stdout = log ++ (Report.summaryStyle v).paint color (Report.summary v) ++ "\n") ∧
    ∀ n, Report.summary v = Report.needsFixing n ↔ 0 < v.count .error ∧ n = v.count .error

theorem Ending.blocksOn_of_isBlocking (color : Bool) (header : String) (v : Verdict) :
    (if v.isBlocking then Ending.blocked (Report.blocking color header v) else .silent).BlocksOn
      (some v) color header := by
  have hiff := v.isBlocking_iff
  by_cases hv : v.isBlocking = true
  · rw [if_pos hv]
    refine ⟨⟨fun _ => ⟨v, rfl, hiff.mp hv⟩, fun _ => rfl⟩, fun w hw _ => ?_, fun w hw _ => ?_,
      fun h => absurd rfl h⟩
    · rw [← Option.some.inj hw]
      exact ⟨rfl, rfl⟩
    · rw [← Option.some.inj hw]
      rfl
  · rw [if_neg hv]
    have hno : ∀ w, some v = some w → ¬ 0 < w.count .error := by
      rintro w hw herror
      rw [← Option.some.inj hw, ← hiff] at herror
      exact hv herror
    refine ⟨⟨fun h => absurd h (by decide), fun ⟨w, hw, herror⟩ => absurd herror (hno w hw)⟩,
      fun w hw herror => absurd herror (hno w hw), fun w hw herror => absurd herror (hno w hw),
      fun _ => ⟨rfl, rfl, rfl⟩⟩

theorem Ending.silent_blocksOn (color : Bool) (header : String) :
    Ending.silent.BlocksOn none color header where
  exit := ⟨fun h => absurd h (by decide), fun ⟨_, h, _⟩ => absurd h.symm (Option.some_ne_none _)⟩
  reported _ h := absurd h.symm (Option.some_ne_none _)
  lines _ h := absurd h.symm (Option.some_ne_none _)
  silent _ := ⟨rfl, rfl, rfl⟩

theorem Hook.endFast_blocksOn (color : Bool) (path : String) (verdict : Option Verdict) :
    (Hook.endFast color path verdict).BlocksOn verdict color
      (Report.editHeader (Path.displayName path)) := by
  cases verdict with
  | none => exact Ending.silent_blocksOn _ _
  | some v => exact Ending.blocksOn_of_isBlocking _ _ v

theorem Hook.endComplete_blocksOn (color : Bool) (v : Verdict) :
    (Hook.endComplete color v).BlocksOn (some v) color Report.completionHeader :=
  Ending.blocksOn_of_isBlocking _ _ v

theorem Hook.endFull_commentsOn (color : Bool) (path : String) (verdict : Option Verdict) :
    (Hook.endFull color path verdict).CommentsOn verdict color (Path.displayName path) := by
  cases verdict with
  | none =>
    have hno : ∀ v : Verdict, none ≠ some v := fun v h => absurd h.symm (Option.some_ne_none v)
    refine ⟨⟨fun h => absurd h Nat.zero_ne_one, fun ⟨v, h, _⟩ => absurd h (hno v)⟩,
      fun _ => rfl, Nat.zero_ne_add_one 1, rfl,
      ⟨fun h => absurd rfl h, fun ⟨v, h⟩ => absurd h (hno v)⟩, fun v h => absurd h (hno v)⟩
  | some v =>
    have hexit : (Hook.endFull color path (some v)).exit =
        if 0 < v.count .error then 1 else 0 := rfl
    have hstdout : (Hook.endFull color path (some v)).stdout =
        Report.commentary color (Path.displayName path) v := rfl
    refine ⟨?_, ?_, ?_, rfl, ?_, ?_⟩
    · rw [hexit]
      constructor
      · intro h
        refine ⟨v, rfl, ?_⟩
        by_contra hno
        rw [if_neg hno] at h
        exact absurd h (by decide)
      · rintro ⟨w, hw, herror⟩
        rw [if_pos (by rwa [Option.some.inj hw])]
    · intro h
      rw [hexit] at h ⊢
      split at h
      · exact absurd rfl h
      · rename_i hno
        rw [if_neg hno]
    · rw [hexit]
      split
      · decide
      · decide
    · rw [hstdout]
      exact ⟨fun _ => ⟨v, rfl⟩, fun _ => Report.commentary_ne_empty _ _ _⟩
    · intro w hw
      rw [hstdout, ← Option.some.inj hw]
      exact ⟨rfl, Report.commentary_eq _ _ _, Report.summary_eq_iff v⟩

namespace Surroundings

variable {x : Surroundings σ} {args : List String} {i : Invocation} {session : Session σ}

/-- With a session at hand, the end of an edit follows the session's answer. -/
theorem runEdit_ending (hx : x.session i = .ok session) (mode : Mode) (s : σ) :
    (x.runEdit i mode s).ending =
      finish i mode ((Event.ofBytes x.stdin).filePath.getD "")
        ((session.edit mode (Event.ofBytes x.stdin) s).map Trace.verdict) := by
  have hnone : ∀ path, finish i mode path none = .silent := by
    intro path
    cases mode <;> rfl
  rw [runEdit]
  cases he : (Event.ofBytes x.stdin).filePath with
  | none =>
    rw [session.edit_of_no_path mode he, Option.map_none, hnone]
    rfl
  | some path =>
    dsimp only
    rw [hx, Option.getD_some]
    by_cases hk : mode.handles (FileKind.ofPath path) = true
    · rw [if_pos hk]
      dsimp only
      cases session.edit mode (Event.ofBytes x.stdin) s with
      | none => rw [Option.map_none]; rfl
      | some t => rw [Option.map_some]
    · rw [if_neg hk]
      rw [Bool.not_eq_true] at hk
      rw [session.edit_of_not_handles he hk, Option.map_none, hnone]
      rfl

/-- **The exit code and the streams follow the verdict.** -/
theorem run_follows_verdict (hi : Arguments.read args = .ok i) (hx : x.session i = .ok session)
    (s : σ) :
    (i.hook = .fast →
      (x.run args s).ending.BlocksOn
        ((session.edit .fast (Event.ofBytes x.stdin) s).map Trace.verdict) i.color
        (Report.editHeader (Path.displayName ((Event.ofBytes x.stdin).filePath.getD "")))) ∧
    (i.hook = .complete →
      (x.run args s).ending.BlocksOn (some (session.complete s).verdict) i.color
        Report.completionHeader ∧
      ∀ stdin, ({ x with stdin := stdin } : Surroundings σ).run args s = x.run args s) ∧
    (i.hook = .full →
      (x.run args s).ending.CommentsOn
        ((session.edit .full (Event.ofBytes x.stdin) s).map Trace.verdict) i.color
        (Path.displayName ((Event.ofBytes x.stdin).filePath.getD ""))) := by
  have hrun : ∀ y : Surroundings σ, y.run args s = y.runHook i s := by
    intro y
    rw [run, hi]
  refine ⟨fun h => ?_, fun h => ⟨?_, fun stdin => ?_⟩, fun h => ?_⟩
  · rw [hrun, runHook, h]
    dsimp only
    rw [runEdit_ending hx]
    exact Hook.endFast_blocksOn _ _ _
  · rw [hrun, runHook, h]
    dsimp only
    rw [runComplete, hx]
    exact Hook.endComplete_blocksOn _ _
  · rw [hrun, hrun, runHook, runHook, h]
    rfl
  · rw [hrun, runHook, h]
    dsimp only
    rw [runEdit_ending hx]
    exact Hook.endFull_commentsOn _ _ _

/-- Surroundings in which a page is edited and every command fails with the same complaints. -/
def complaining : Surroundings Unit where
  stdin := Bytes.ofString "\x7b\"tool_input\":\x7b\"file_path\":\"app/page.tsx\"\x7d\x7d"
  usage _ := ""
  root _ := .ok "/repo"
  config _ _ := .ok .default
  runner _ := .ofAnswers fun _ => ⟨false, "! no-debugger\n1 error\n"⟩
  content _ _ := none

/-- The fast hook reports what the linter complains about, and the completion hook counts it. -/
theorem run_follows_verdict_lint :
    (complaining.run ["fast"] ()).ending =
        ⟨2, "", "⚠️ page.tsx:\n  ❌ oxlint: ! no-debugger\n"⟩ ∧
      (complaining.run ["complete"] ()).ending.exit = 2 := by
  have hfast : Arguments.read ["fast"] = .ok ⟨.fast, none, none, false, false⟩ := rfl
  have hcomplete : Arguments.read ["complete"] = .ok ⟨.complete, none, none, false, false⟩ := rfl
  let session : Session Unit :=
    ⟨"/repo", .default, complaining.runner "/repo", true, complaining.content⟩
  have hsession : complaining.session ⟨.fast, none, none, false, false⟩ = .ok session := rfl
  have hblocks := (run_follows_verdict hfast hsession ()).1 rfl
  have hverdict : (session.edit .fast (Event.ofBytes complaining.stdin) ()).map Trace.verdict =
      some ⟨[.error .lint "oxlint: ! no-debugger"]⟩ := by
    decide +kernel
  have hexit := hblocks.exit.mpr ⟨_, hverdict, by decide⟩
  obtain ⟨hstderr, hstdout⟩ := hblocks.reported _ hverdict (by decide)
  refine ⟨?_, ((run_follows_verdict hcomplete rfl ()).2.1 rfl).1.exit.mpr ⟨_, rfl, by decide⟩⟩
  generalize (complaining.run ["fast"] ()).ending = e at *
  obtain ⟨exit, stdout, stderr⟩ := e
  obtain rfl : exit = 2 := hexit
  obtain rfl : stdout = "" := hstdout
  rw [show stderr = _ from hstderr]
  decide +kernel

end Surroundings

end QualityGate
