import QualityGate.Proofs.Dispatch
import QualityGate.Proofs.ExitCode

/-! # What is in scope

An edit is out of scope for one of three reasons (`Config.OutOfScope`): it names no file, its path
contains a pattern that the configuration skips, or no check is there for the kind of its file.
`Session.edit_eq_none_iff` says that a session leaves an edit alone for these reasons and no other,
whatever its runner and its files are.

The program asks for the kind alone, and asks before it loads anything.
`Surroundings.scope_agrees` says that nothing comes of that: wherever there is a session it runs as
if it had loaded that first and had left the rest to it. -/

namespace QualityGate

variable {σ τ : Type}

/-! ### Patterns in paths -/

theorem isGenerated_iff {patterns : List String} {path : String} :
    isGenerated patterns path = true ↔ ∃ p ∈ patterns, p.toList <:+: path.toList := by
  rw [isGenerated, List.any_eq_true]
  exact exists_congr fun p => and_congr_right fun _ => Text.occursIn_iff

theorem Config.skips_iff {c : Config} {path : String} :
    c.skips path = true ↔ ∃ p ∈ c.skipPaths, p.toList <:+: path.toList :=
  isGenerated_iff

/-! ### Kinds with checks -/

/-- The hook that works in a mode. -/
def Mode.hook : Mode → HookName
  | fast => .fast
  | full => .full

/-- A kind has no check in a mode if it has no steps there and the session does not check it by
itself either. -/
theorem Mode.handles_eq_false_iff (c : Config) (mode : Mode) (kind : FileKind) :
    mode.handles kind = false ↔ ¬ (mode = .fast ∧ kind = .json) ∧ c.editPipeline mode kind = [] := by
  cases mode <;> cases kind <;> simp [Mode.handles, Config.editPipeline]

/-! ### Edits out of scope -/

/-- Why an edit is left alone. -/
inductive Config.OutOfScope (c : Config) (mode : Mode) : (path : Option String) → Prop
  | noPath : OutOfScope c mode none
  | skipped {path pattern : String} (hpattern : pattern ∈ c.skipPaths)
      (hoccurs : pattern.toList <:+: path.toList) : OutOfScope c mode (some path)
  | unhandled {path : String} (hkind : mode.handles (FileKind.ofPath path) = false) :
      OutOfScope c mode (some path)

theorem Config.outOfScope_some_iff {c : Config} {mode : Mode} {path : String} :
    c.OutOfScope mode (some path) ↔
      c.skips path = true ∨ mode.handles (FileKind.ofPath path) = false := by
  constructor
  · intro h
    cases h with
    | skipped hpattern hoccurs => exact .inl (Config.skips_iff.mpr ⟨_, hpattern, hoccurs⟩)
    | unhandled hkind => exact .inr hkind
  · rintro (hskip | hkind)
    · obtain ⟨pattern, hpattern, hoccurs⟩ := Config.skips_iff.mp hskip
      exact .skipped hpattern hoccurs
    · exact .unhandled hkind

namespace Session

theorem checkPath_eq_none_iff (x : Session σ) (mode : Mode) (path : String) (s : σ) :
    x.checkPath mode path s = none ↔ mode.handles (FileKind.ofPath path) = false := by
  rw [checkPath_eq, Mode.handles_eq_false_iff x.config]
  by_cases hjson : mode = .fast ∧ FileKind.ofPath path = .json
  · rw [if_pos hjson]
    exact iff_of_false (by simp) fun h => h.1 hjson
  · rw [if_neg hjson, Config.pathSteps]
    by_cases hnil : x.config.editPipeline mode (FileKind.ofPath path) = []
    · rw [if_pos hnil]
      exact iff_of_true rfl ⟨hjson, hnil⟩
    · rw [if_neg hnil]
      exact iff_of_false (by simp) fun h => hnil h.2

/-- **A session leaves an edit alone exactly where it is out of scope.** -/
theorem edit_eq_none_iff (x : Session σ) (mode : Mode) (event : Event) (s : σ) :
    x.edit mode event s = none ↔ x.config.OutOfScope mode event.filePath := by
  rw [edit_eq]
  cases event.filePath with
  | none => exact iff_of_true rfl .noPath
  | some path =>
    rw [Config.outOfScope_some_iff]
    dsimp only
    by_cases hskip : x.config.skips path = true
    · rw [if_pos hskip]
      exact iff_of_true rfl (.inl hskip)
    · rw [if_neg hskip, checkPath_eq_none_iff]
      exact (or_iff_right hskip).symm

/-- No other session with the configuration would look at the edit either. -/
theorem edit_eq_none_of_config {x : Session σ} {y : Session τ} (hconfig : y.config = x.config)
    {mode : Mode} {event : Event} {s : σ} (h : x.edit mode event s = none) (t : τ) :
    y.edit mode event t = none := by
  rw [edit_eq_none_iff, hconfig]
  exact (x.edit_eq_none_iff mode event s).mp h

theorem answer_hook (x : Session σ) (mode : Mode) (event : Event) (s : σ) :
    x.answer mode.hook event s = x.edit mode event s := by
  cases mode <;> rfl

/-- The runner is asked nothing about an edit out of scope. -/
theorem asked_of_outOfScope {x : Session σ} {mode : Mode} {event : Event}
    (h : x.config.OutOfScope mode event.filePath) (s : σ) : x.asked mode.hook event s = [] := by
  rw [asked_eq_calls, answer_hook, (x.edit_eq_none_iff mode event s).mpr h]
  rfl

/-- The fast hook asks the runner nothing about a JSON file, and leaves it as it is. -/
theorem edit_fast_json {x : Session σ} {event : Event} {path : String}
    (hpath : event.filePath = some path) (hkind : FileKind.ofPath path = .json) (s : σ) :
    x.asked .fast event s = [] ∧
      ∀ t, x.edit .fast event s = some t → t.calls = [] ∧ t.state = s := by
  have hedit : ∀ t, x.edit .fast event s = some t → t.calls = [] ∧ t.state = s := by
    intro t ht
    rw [x.edit_json hpath hkind] at ht
    split at ht
    · exact absurd ht (by simp)
    · rw [← Option.some.inj ht]
      exact ⟨rfl, rfl⟩
  refine ⟨?_, hedit⟩
  rw [asked_eq_calls]
  show (x.edit .fast event s).elim [] Trace.calls = []
  cases ht : x.edit .fast event s with
  | none => rfl
  | some t => exact (hedit t ht).1

end Session

/-! ### Runs -/

namespace Surroundings

variable {x : Surroundings σ} {args : List String} {i : Invocation} {session : Session σ}

/-- The run on an edit that loads everything first and then leaves it to the session what to do. -/
def runLoaded (x : Surroundings σ) (i : Invocation) (mode : Mode) (s : σ) : Run σ :=
  match x.session i with
  | .error e => stop (.failed e.message) s
  | .ok session =>
    let event := Event.ofBytes x.stdin
    let path := event.filePath.getD ""
    match session.edit mode event s with
    | some t => ⟨finish i mode path (some t.verdict), t.calls, t.state⟩
    | none => stop (finish i mode path none) s

theorem finish_none (i : Invocation) (mode : Mode) (path : String) :
    finish i mode path none = .silent := by
  cases mode <;> rfl

/-- Nothing comes of looking at the kind before anything is loaded. -/
theorem runEdit_eq_runLoaded (hsession : x.session i = .ok session) (mode : Mode) (s : σ) :
    x.runEdit i mode s = x.runLoaded i mode s := by
  rw [runEdit, runLoaded, hsession]
  dsimp only
  cases hpath : (Event.ofBytes x.stdin).filePath with
  | none =>
    rw [session.edit_of_no_path mode hpath]
    dsimp only
    rw [finish_none]
  | some path =>
    dsimp only
    rw [Option.getD_some]
    by_cases hkind : mode.handles (FileKind.ofPath path) = true
    · exact if_pos hkind
    · rw [if_neg hkind]
      rw [Bool.not_eq_true] at hkind
      rw [session.edit_of_not_handles hpath hkind]
      dsimp only
      rw [finish_none]

theorem run_edit (hread : Arguments.read args = .ok i) {mode : Mode} (hhook : i.hook = mode.hook)
    (s : σ) : x.run args s = x.runEdit i mode s := by
  rw [run_of_read hread, runHook, hhook]
  cases mode <;> rfl

/-- The run for an edit out of scope does nothing. -/
theorem run_of_outOfScope (hread : Arguments.read args = .ok i) {mode : Mode}
    (hhook : i.hook = mode.hook) (hsession : x.session i = .ok session)
    (hscope : session.config.OutOfScope mode (Event.ofBytes x.stdin).filePath) (s : σ) :
    x.run args s = stop .silent s := by
  rw [run_edit hread hhook, runEdit_eq_runLoaded hsession, runLoaded, hsession]
  dsimp only
  rw [(session.edit_eq_none_iff mode _ s).mpr hscope]
  dsimp only
  rw [finish_none]

/-- **The early exit agrees with the session.** A session leaves an edit alone exactly where it is
out of scope; then its runner is asked nothing, and neither the runner nor the files have a say in
it. For a JSON file the fast hook asks the runner nothing at all. So the program, which asks for the
kind before it loads anything, runs as if it had loaded everything first. -/
theorem scope_agrees (x : Surroundings σ) :
    (∀ (y : Session σ) (mode : Mode) (event : Event) (s : σ),
      (y.edit mode event s = none ↔ y.config.OutOfScope mode event.filePath) ∧
      (y.config.OutOfScope mode event.filePath → y.asked mode.hook event s = [] ∧
        ∀ {τ : Type} (z : Session τ) (t : τ), z.config = y.config →
          z.edit mode event t = none)) ∧
    (∀ (y : Session σ) (event : Event) (path : String) (s : σ), event.filePath = some path →
      FileKind.ofPath path = .json → y.asked .fast event s = [] ∧
        ∀ t, y.edit .fast event s = some t → t.calls = [] ∧ t.state = s) ∧
    ∀ (args : List String) (i : Invocation) (mode : Mode) (session : Session σ) (s : σ),
      Arguments.read args = .ok i → i.hook = mode.hook → x.session i = .ok session →
      x.run args s = x.runLoaded i mode s ∧
      (session.config.OutOfScope mode (Event.ofBytes x.stdin).filePath →
        x.run args s = stop .silent s ∧
        ∀ content, ({ x with content := content } : Surroundings σ).run args s = x.run args s) := by
  refine ⟨fun y mode event s => ⟨y.edit_eq_none_iff mode event s, fun hscope => ?_⟩,
    fun y event path s => Session.edit_fast_json (s := s),
    fun args i mode session s hread hhook hsession => ⟨?_, fun hscope => ?_⟩⟩
  · have hnone := (y.edit_eq_none_iff mode event s).mpr hscope
    exact ⟨Session.asked_of_outOfScope hscope s,
      fun z t hconfig => Session.edit_eq_none_of_config hconfig hnone t⟩
  · rw [run_edit hread hhook, runEdit_eq_runLoaded hsession]
  · have hsilent := run_of_outOfScope hread hhook hsession hscope s
    refine ⟨hsilent, fun content => ?_⟩
    -- with other files the session is another one, with the configuration that it had
    have hother : ({ x with content := content } : Surroundings σ).session i =
        .ok { session with content := content } := by
      revert hsession
      simp only [Surroundings.session]
      cases x.root i.root with
      | error e => exact fun h => absurd h (by simp)
      | ok root =>
        dsimp only
        cases x.config root i.config with
        | error e => exact fun h => absurd h (by simp)
        | ok c =>
          intro h
          rw [← Except.ok.inj h]
    rw [hsilent]
    exact run_of_outOfScope hread hhook hother hscope s

/-- A page of text is left alone by the program, a vendored script by a session, and a JSON file is
handed to no tool. -/
theorem scope_agrees_page :
    let page : Surroundings Unit := { fine with
      stdin := Bytes.ofString "\x7b\"tool_input\":\x7b\"file_path\":\"README.md\"\x7d\x7d" }
    let session : Session Unit := ⟨"/repo", .default, fine.runner "/repo", true, fine.content⟩
    page.run ["fast"] () = stop .silent () ∧
      session.edit .full (.forFile "web/node_modules/a.ts") () = none ∧
      session.asked .fast (.forFile "package.json") () = [] := by
  intro page session
  obtain ⟨hedit, hjson, hrun⟩ := scope_agrees page
  refine ⟨?_, ?_, ?_⟩
  · have hpath : (Event.ofBytes page.stdin).filePath = some "README.md" := by decide +kernel
    have hkind : Mode.fast.handles (FileKind.ofPath "README.md") = false := by decide
    refine ((hrun ["fast"] _ .fast session () rfl rfl rfl).2 ?_).1
    rw [hpath]
    exact .unhandled hkind
  · refine (hedit session .full (.forFile "web/node_modules/a.ts") ()).1.mpr ?_
    have hpattern : "node_modules" ∈ Config.default.skipPaths := by decide
    exact .skipped hpattern ⟨"web/".toList, "/a.ts".toList, by decide⟩
  · exact (hjson session (.forFile "package.json") "package.json" () rfl (by decide)).1

end Surroundings

end QualityGate
