import QualityGate.Proofs.Hook

/-! # The blocking exit code

The exit code 2 tells the host that the agent has findings to fix. A run that reaches a hook keeps
to that: it ends with 2 exactly where a fast or a completion verdict with an error is reported, and
a root or a configuration that cannot be had ends it with another code. But a command line that asks
for no hook ends with 2 as well, and nothing is found. `Surroundings.run_blocks_iff` says that there
is no third way. -/

namespace QualityGate

variable {σ : Type}

/-! ### Rejected command lines -/

/-- The command line asks for no hook, nor for help or the version. -/
def Arguments.Rejects (args : List String) : Prop :=
  ∃ e, read args = .error e ∧ e ≠ .help ∧ e ≠ .version

theorem UsageError.exit_eq_two_iff (e : UsageError) : e.exit = 2 ↔ e ≠ .help ∧ e ≠ .version := by
  cases e <;> simp [exit]

theorem Hook.endUsage_exit (text : String) (e : UsageError) :
    (Hook.endUsage text e).exit = e.exit := by
  cases e <;> rfl

theorem Hook.endUsage_stdout (text : String) {e : UsageError} (h : e ≠ .help ∧ e ≠ .version) :
    (Hook.endUsage text e).stdout = "" := by
  cases e with
  | help => exact absurd rfl h.1
  | version => exact absurd rfl h.2
  | _ => rfl

namespace Surroundings

variable {x : Surroundings σ} {args : List String} {i : Invocation} {session : Session σ} {s : σ}

theorem run_of_read (hread : Arguments.read args = .ok i) : x.run args s = x.runHook i s := by
  rw [run, hread]

theorem run_of_rejected {e : UsageError} (hread : Arguments.read args = .error e) :
    x.run args s = stop (Hook.endUsage (x.usage args) e) s := by
  rw [run, hread]

/-! ### Runs without a session -/

/-- Where the session cannot be had, no call is made, and the run is silent or fails. -/
theorem runHook_of_error {e : LoadError} (h : x.session i = .error e) :
    (x.runHook i s).calls = [] ∧
      ((x.runHook i s).ending = .silent ∨ (x.runHook i s).ending = .failed e.message) := by
  have hedit : ∀ mode, (x.runEdit i mode s).calls = [] ∧
      ((x.runEdit i mode s).ending = .silent ∨ (x.runEdit i mode s).ending = .failed e.message) := by
    intro mode
    rw [runEdit]
    cases (Event.ofBytes x.stdin).filePath with
    | none => exact ⟨rfl, .inl rfl⟩
    | some path =>
      dsimp only
      split
      · rw [h]
        dsimp only
        split
        · exact ⟨rfl, .inl rfl⟩
        · exact ⟨rfl, .inr rfl⟩
      · exact ⟨rfl, .inl rfl⟩
  rw [runHook]
  cases i.hook with
  | fast => exact hedit .fast
  | full => exact hedit .full
  | complete =>
    dsimp only
    rw [runComplete, h]
    exact ⟨rfl, .inr rfl⟩

/-! ### Runs of a session -/

/-- A verdict with an error is on the error stream: that of the fast hook for the edited path, or
that of the completion hook. -/
inductive ReportsError (x : Surroundings σ) (args : List String) (s : σ) : Prop
  | fast {i : Invocation} {session : Session σ} {path : String} {t : Trace σ}
      (hread : Arguments.read args = .ok i) (hhook : i.hook = .fast)
      (hsession : x.session i = .ok session) (hpath : (Event.ofBytes x.stdin).filePath = some path)
      (hedit : session.edit .fast (Event.ofBytes x.stdin) s = some t)
      (herror : 0 < t.verdict.count .error)
      (hstderr : (x.run args s).ending.stderr =
        Report.blocking i.color (Report.editHeader (Path.displayName path)) t.verdict)
  | complete {i : Invocation} {session : Session σ} (hread : Arguments.read args = .ok i)
      (hhook : i.hook = .complete) (hsession : x.session i = .ok session)
      (herror : 0 < (session.complete s).verdict.count .error)
      (hstderr : (x.run args s).ending.stderr =
        Report.blocking i.color Report.completionHeader (session.complete s).verdict)

theorem ReportsError.has_session (h : x.ReportsError args s) :
    ∃ i session, Arguments.read args = .ok i ∧ x.session i = .ok session := by
  cases h with
  | fast hread _ hsession => exact ⟨_, _, hread, hsession⟩
  | complete hread _ hsession => exact ⟨_, _, hread, hsession⟩

theorem fast_blocksOn (hread : Arguments.read args = .ok i) (hhook : i.hook = .fast)
    (hsession : x.session i = .ok session) :
    (x.run args s).ending.BlocksOn
      ((session.edit .fast (Event.ofBytes x.stdin) s).map Trace.verdict) i.color
      (Report.editHeader (Path.displayName ((Event.ofBytes x.stdin).filePath.getD ""))) := by
  rw [run_of_read hread, runHook, hhook]
  dsimp only
  rw [runEdit_ending hsession]
  exact Hook.endFast_blocksOn _ _ _

theorem complete_blocksOn (hread : Arguments.read args = .ok i) (hhook : i.hook = .complete)
    (hsession : x.session i = .ok session) :
    (x.run args s).ending.BlocksOn (some (session.complete s).verdict) i.color
      Report.completionHeader := by
  rw [run_of_read hread, runHook, hhook]
  dsimp only
  rw [runComplete, hsession]
  exact Hook.endComplete_blocksOn _ _

/-- The full hook never blocks. -/
theorem full_exit_ne_two (hread : Arguments.read args = .ok i) (hhook : i.hook = .full)
    (hsession : x.session i = .ok session) : (x.run args s).ending.exit ≠ 2 := by
  rw [run_of_read hread, runHook, hhook]
  dsimp only
  rw [runEdit_ending hsession]
  exact (Hook.endFull_commentsOn _ _ _).notBlocked

/-- A run with a session blocks exactly where it reports an error. -/
theorem exit_eq_two_iff_of_session (hread : Arguments.read args = .ok i)
    (hsession : x.session i = .ok session) :
    (x.run args s).ending.exit = 2 ↔ x.ReportsError args s := by
  constructor
  · intro hexit
    cases hhook : i.hook with
    | fast =>
      have hblocks := fast_blocksOn (s := s) hread hhook hsession
      obtain ⟨v, hv, herror⟩ := hblocks.exit.mp hexit
      have hstderr := (hblocks.reported v hv herror).1
      obtain ⟨t, hedit, rfl⟩ := Option.map_eq_some_iff.mp hv
      cases hpath : (Event.ofBytes x.stdin).filePath with
      | none =>
        rw [session.edit_of_no_path .fast hpath] at hedit
        exact absurd hedit (by simp)
      | some path =>
        rw [hpath, Option.getD_some] at hstderr
        exact .fast hread hhook hsession hpath hedit herror hstderr
    | full => exact absurd hexit (full_exit_ne_two hread hhook hsession)
    | complete =>
      have hblocks := complete_blocksOn (s := s) hread hhook hsession
      obtain ⟨v, hv, herror⟩ := hblocks.exit.mp hexit
      have hstderr := (hblocks.reported v hv herror).1
      obtain rfl := Option.some.inj hv
      exact .complete hread hhook hsession herror hstderr
  · intro h
    cases h with
    | fast hread hhook hsession _ hedit herror _ =>
      exact (fast_blocksOn hread hhook hsession).exit.mpr ⟨_, by rw [hedit]; rfl, herror⟩
    | complete hread hhook hsession herror _ =>
      exact (complete_blocksOn hread hhook hsession).exit.mpr ⟨_, rfl, herror⟩

/-! ### All runs -/

/-- **The program blocks where it reports an error, or where it rejects its command line.** A root
or a configuration that cannot be had ends it with another code. A rejected command line has no
verdict behind it: no call is made, and nothing is on the output stream. -/
theorem run_blocks_iff (x : Surroundings σ) (args : List String) (s : σ) :
    ((x.run args s).ending.exit = 2 ↔ Arguments.Rejects args ∨ x.ReportsError args s) ∧
    (∀ i e, Arguments.read args = .ok i → x.session i = .error e →
      (x.run args s).ending.exit ≠ 2 ∧ (x.run args s).calls = []) ∧
    (Arguments.Rejects args → ¬ x.ReportsError args s ∧ (x.run args s).calls = [] ∧
      (x.run args s).ending.exit = 2 ∧ (x.run args s).ending.stdout = "") := by
  have hfails : ∀ i e, Arguments.read args = .ok i → x.session i = .error e →
      (x.run args s).ending.exit ≠ 2 ∧ (x.run args s).calls = [] := by
    intro i e hread hsession
    obtain ⟨hcalls, hsilent | hfailed⟩ := runHook_of_error (s := s) hsession
    · rw [run_of_read hread, hsilent]
      exact ⟨by decide, hcalls⟩
    · rw [run_of_read hread, hfailed]
      exact ⟨by simp [Ending.failed], hcalls⟩
  have hrejects : Arguments.Rejects args → ¬ x.ReportsError args s ∧ (x.run args s).calls = [] ∧
      (x.run args s).ending.exit = 2 ∧ (x.run args s).ending.stdout = "" := by
    rintro ⟨e, hread, he⟩
    refine ⟨fun h => ?_, ?_, ?_, ?_⟩
    · obtain ⟨i, session, hread', -⟩ := h.has_session
      rw [hread] at hread'
      exact absurd hread' (by simp)
    · rw [run_of_rejected hread]
      rfl
    · rw [run_of_rejected hread]
      exact (Hook.endUsage_exit _ e).trans (e.exit_eq_two_iff.mpr he)
    · rw [run_of_rejected hread]
      exact Hook.endUsage_stdout _ he
  refine ⟨⟨fun hexit => ?_, ?_⟩, hfails, hrejects⟩
  · cases hread : Arguments.read args with
    | error e =>
      rw [run_of_rejected hread] at hexit
      have hcode : e.exit = 2 := (Hook.endUsage_exit _ e).symm.trans hexit
      exact .inl ⟨e, hread, e.exit_eq_two_iff.mp hcode⟩
    | ok i =>
      cases hsession : x.session i with
      | error e => exact absurd hexit (hfails i e hread hsession).1
      | ok session => exact .inr ((exit_eq_two_iff_of_session hread hsession).mp hexit)
  · rintro (h | h)
    · exact (hrejects h).2.2.1
    · obtain ⟨i, session, hread, hsession⟩ := h.has_session
      exact (exit_eq_two_iff_of_session hread hsession).mpr h

/-- Surroundings in which everything can be had and every command succeeds. -/
def fine : Surroundings Unit where
  stdin := []
  usage _ := ""
  root _ := .ok "/repo"
  config _ _ := .ok .default
  runner _ := .ofAnswers fun _ => ⟨true, ""⟩
  content _ _ := none

/-- A hook that is misspelt blocks the agent, and nothing is found. -/
theorem run_blocks_misspelt :
    (fine.run ["fats"] ()).ending.exit = 2 ∧ ¬ fine.ReportsError ["fats"] () := by
  have hrejects : Arguments.Rejects ["fats"] := ⟨.unknownHook, rfl, by decide, by decide⟩
  obtain ⟨hiff, -, hnothing⟩ := run_blocks_iff fine ["fats"] ()
  exact ⟨hiff.mpr (.inl hrejects), (hnothing hrejects).1⟩

end Surroundings

end QualityGate
