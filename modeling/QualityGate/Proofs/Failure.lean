import QualityGate.Proofs.Config.Loading
import QualityGate.Proofs.Scope
import QualityGate.Start

/-! # Failures to load

A hook on an edit needs a root and a configuration. `Start.fails_iff` lists why a started program
does not get them: the given root is not there, or no repository is found above the program, or the
configuration cannot be read, has the wrong shape, or names a command that is unknown or cannot be
run.

Without a configuration the defaults decide what is in scope. A failure is told where the edit is in
scope under them, and nothing is said where it is not
(`Surroundings.failure_surfaces_in_scope`). Either way nothing is run. -/

namespace QualityGate

variable {σ : Type}

/-! ### The failures -/

inductive Start.Fails (x : Start) (i : Invocation) : LoadError → Prop
  /-- The given root is not there. -/
  | inaccessible {root : String} {reason : FileError} (hroot : i.root = some root)
      (hreason : x.files.canonical x.directory root = .error reason) :
      Fails x i (.root (.inaccessible root reason))
  /-- No root is given, and no directory above the program holds a repository. -/
  | noRepository (hroot : i.root = none)
      (hnone : ∀ d ∈ enclosing x.program.length x.program, x.files.get? (d ++ [".git"]) = none) :
      Fails x i (.root (.noRepository (FileTree.absolutePath x.program)))
  /-- The root is there, and its configuration is not to be had. -/
  | config {root : String} {e : ConfigError} (hroot : x.surroundings.root i.root = .ok root)
      (hconfig : Config.Loads x.files x.directory root i.config (.error e)) :
      Fails x i (.config e)

theorem FileTree.rootAbove_eq_error_iff {files : FileTree} {program : List String} {e : RootError} :
    files.rootAbove program = .error e ↔
      e = .noRepository (absolutePath program) ∧
        ∀ d ∈ enclosing program.length program, files.get? (d ++ [".git"]) = none := by
  rw [rootAbove]
  cases hfind : (enclosing program.length program).find? fun d =>
      (files.get? (d ++ [".git"])).isSome with
  | none =>
    have hnone : ∀ d ∈ enclosing program.length program, files.get? (d ++ [".git"]) = none := by
      simpa using List.find?_eq_none.mp hfind
    constructor
    · intro h
      exact ⟨(Except.error.inj h).symm, hnone⟩
    · rintro ⟨rfl, -⟩
      rfl
  | some d =>
    refine iff_of_false (by simp) fun ⟨_, hnone⟩ => ?_
    have hsome := List.find?_some hfind
    rw [hnone d (List.mem_of_find?_eq_some hfind)] at hsome
    exact absurd hsome (by decide)

theorem FileTree.givenRoot_eq_error_iff {files : FileTree} {base : List String} {root : String}
    {e : RootError} :
    files.givenRoot base root = .error e ↔
      ∃ reason, files.canonical base root = .error reason ∧ e = .inaccessible root reason := by
  rw [givenRoot]
  cases files.canonical base root with
  | ok path => simp
  | error reason =>
    constructor
    · intro h
      exact ⟨reason, rfl, (Except.error.inj h).symm⟩
    · rintro ⟨_, hreason, rfl⟩
      rw [Except.error.inj hreason]

theorem Surroundings.session_eq_error_iff {x : Surroundings σ} {i : Invocation} {e : LoadError} :
    x.session i = .error e ↔
      (∃ r, x.root i.root = .error r ∧ e = .root r) ∨
        ∃ root c, x.root i.root = .ok root ∧ x.config root i.config = .error c ∧ e = .config c := by
  rw [session]
  cases hroot : x.root i.root with
  | error r => simp [eq_comm]
  | ok root =>
    dsimp only
    cases hconfig : x.config root i.config with
    | error c => simp [hconfig, eq_comm]
    | ok c => simp [hconfig]

/-- **A started program fails to load in one of these ways.** -/
theorem Start.fails_iff {x : Start} {i : Invocation} {e : LoadError} :
    x.Fails i e ↔ x.surroundings.session i = .error e := by
  rw [Surroundings.session_eq_error_iff]
  constructor
  · intro h
    cases h with
    | inaccessible hroot hreason =>
      refine .inl ⟨_, ?_, rfl⟩
      rw [hroot]
      exact FileTree.givenRoot_eq_error_iff.mpr ⟨_, hreason, rfl⟩
    | noRepository hroot hnone =>
      refine .inl ⟨_, ?_, rfl⟩
      rw [hroot]
      exact FileTree.rootAbove_eq_error_iff.mpr ⟨rfl, hnone⟩
    | config hroot hconfig => exact .inr ⟨_, _, hroot, (Config.loads_iff.mp hconfig).symm, rfl⟩
  · rintro (⟨r, hr, rfl⟩ | ⟨root, c, hroot, hconfig, rfl⟩)
    · cases hroot : i.root with
      | none =>
        rw [hroot] at hr
        obtain ⟨rfl, hnone⟩ := FileTree.rootAbove_eq_error_iff.mp hr
        exact .noRepository hroot hnone
      | some root =>
        rw [hroot] at hr
        obtain ⟨reason, hreason, rfl⟩ := FileTree.givenRoot_eq_error_iff.mp hr
        exact .inaccessible hroot hreason
    · exact .config hroot (Config.loads_iff.mpr hconfig.symm)

/-! ### The runs -/

namespace Surroundings

variable {x : Surroundings σ} {args : List String} {i : Invocation} {mode : Mode} {e : LoadError}
  {s : σ}

/-- Nothing is said about an edit that names no file, whatever can be loaded. -/
theorem runEdit_of_no_path (hpath : (Event.ofBytes x.stdin).filePath = none) :
    x.runEdit i mode s = stop .silent s := by
  rw [runEdit, hpath]

theorem runEdit_of_error_outOfScope (hsession : x.session i = .error e)
    (hscope : Config.default.OutOfScope mode (Event.ofBytes x.stdin).filePath) :
    x.runEdit i mode s = stop .silent s := by
  cases hpath : (Event.ofBytes x.stdin).filePath with
  | none => exact runEdit_of_no_path hpath
  | some path =>
    rw [hpath, Config.outOfScope_some_iff] at hscope
    rw [runEdit, hpath]
    dsimp only
    by_cases hkind : mode.handles (FileKind.ofPath path) = true
    · have hskip : Config.default.skips path = true :=
        hscope.resolve_right (by rw [hkind]; exact Bool.noConfusion)
      rw [if_pos hkind, hsession]
      exact if_pos hskip
    · exact if_neg hkind

theorem runEdit_of_error_inScope (hsession : x.session i = .error e)
    (hscope : ¬ Config.default.OutOfScope mode (Event.ofBytes x.stdin).filePath) :
    x.runEdit i mode s = stop (.failed e.message) s := by
  cases hpath : (Event.ofBytes x.stdin).filePath with
  | none =>
    rw [hpath] at hscope
    exact absurd .noPath hscope
  | some path =>
    rw [hpath, Config.outOfScope_some_iff, not_or, Bool.not_eq_false] at hscope
    obtain ⟨hskip, hkind⟩ := hscope
    rw [runEdit, hpath]
    dsimp only
    rw [if_pos hkind, hsession]
    exact if_neg hskip

/-- An edit is in scope under the defaults if its kind has checks and its path has none of the five
patterns in it. -/
theorem not_outOfScope_default_iff {path : String} :
    ¬ Config.default.OutOfScope mode (some path) ↔
      mode.handles (FileKind.ofPath path) = true ∧
        ∀ p ∈ ["node_modules", ".next", "typechain-types", "artifacts", "cache"],
          ¬ p.toList <:+: path.toList := by
  rw [Config.outOfScope_some_iff, not_or, Bool.not_eq_false, and_comm, Config.skips_iff]
  refine and_congr_right fun _ => ?_
  simp only [not_exists, not_and]
  rfl

/-- **A failure to load is told only about edits in scope.** The run ends with 1 and the error where
the defaults have the edit in scope, and in silence where they do not. It makes no call, writes
nothing to the output stream and does not block. An event without a path is met with silence
whatever can be loaded. What can fail is listed for a started program. -/
theorem failure_surfaces_in_scope (x : Surroundings σ) (hread : Arguments.read args = .ok i)
    (hhook : i.hook = mode.hook) (s : σ) :
    (∀ e path, x.session i = .error e → (Event.ofBytes x.stdin).filePath = some path →
      let run := x.run args s
      let inScope := mode.handles (FileKind.ofPath path) = true ∧
        ∀ p ∈ ["node_modules", ".next", "typechain-types", "artifacts", "cache"],
          ¬ p.toList <:+: path.toList
      (run.ending = ⟨1, "", "Error: " ++ e.message ++ "\n"⟩ ↔ inScope) ∧
      (¬ inScope → run.ending = ⟨0, "", ""⟩) ∧
      run.calls = [] ∧ run.state = s ∧ run.ending.stdout = "" ∧ run.ending.exit ≠ 2) ∧
    ((Event.ofBytes x.stdin).filePath = none → x.run args s = ⟨⟨0, "", ""⟩, [], s⟩) ∧
    ∀ (y : Start) e, y.surroundings.session i = .error e ↔ y.Fails i e := by
  refine ⟨fun e path hsession hpath => ?_, fun hpath => ?_, fun y e => Start.fails_iff.symm⟩
  · dsimp only
    rw [← not_outOfScope_default_iff, ← hpath, run_edit hread hhook]
    by_cases hscope : Config.default.OutOfScope mode (Event.ofBytes x.stdin).filePath
    · rw [runEdit_of_error_outOfScope hsession hscope]
      have hexit : (stop .silent s).ending.exit = 0 := rfl
      refine ⟨iff_of_false (fun h => ?_) (fun h => h hscope), fun _ => rfl, rfl, rfl, rfl, ?_⟩
      · exact absurd (hexit.symm.trans (congrArg Ending.exit h)) Nat.zero_ne_one
      · exact ne_of_eq_of_ne hexit (by decide)
    · rw [runEdit_of_error_inScope hsession hscope]
      have hexit : (stop (.failed e.message) s).ending.exit = 1 := rfl
      refine ⟨iff_of_true rfl hscope, fun h => absurd hscope h, rfl, rfl, rfl, ?_⟩
      exact ne_of_eq_of_ne hexit (by decide)
  · rw [run_edit hread hhook, runEdit_of_no_path hpath]
    rfl

end Surroundings

/-- A program that lies in no repository. -/
def stray (stdin : String) : Start where
  files := .directory [("bin", .directory [("gate", .file [])])]
  directory := []
  program := ["bin", "gate"]
  stdin := Bytes.ofString stdin
  usage _ := ""

/-- Outside a repository an edited page gets an error, and a vendored one and an empty payload do
not. -/
theorem failure_surfaces_in_scope_stray :
    let page := stray "\x7b\"tool_input\":\x7b\"file_path\":\"app/page.tsx\"\x7d\x7d"
    let vendored := stray "\x7b\"tool_input\":\x7b\"file_path\":\"node_modules/a.tsx\"\x7d\x7d"
    let e : LoadError := .root (.noRepository "/bin/gate")
    (page.run ["full"]).ending = ⟨1, "", "Error: " ++ e.message ++ "\n"⟩ ∧
      (vendored.run ["full"]).ending = ⟨0, "", ""⟩ ∧
      ((stray "\x7b\x7d").run ["full"]).ending = ⟨0, "", ""⟩ := by
  intro page vendored e
  have hread : Arguments.read ["full"] = .ok ⟨.full, none, none, false, false⟩ := by decide
  have hnone : ∀ d ∈ enclosing 2 (stray "").program,
      (stray "").files.get? (d ++ [".git"]) = none := by decide
  have hfails (stdin : String) :
      (stray stdin).surroundings.session ⟨.full, none, none, false, false⟩ = .error e :=
    Start.fails_iff.mp (.noRepository rfl hnone)
  have hhook : HookName.full = Mode.full.hook := rfl
  have h (y : Start) := Surroundings.failure_surfaces_in_scope y.surroundings hread hhook y.files
  refine ⟨?_, ?_, ?_⟩
  · have hpath : (Event.ofBytes page.stdin).filePath = some "app/page.tsx" := by decide +kernel
    exact ((h page).1 e _ (hfails _) hpath).1.mpr (by decide +kernel)
  · have hpath : (Event.ofBytes vendored.stdin).filePath = some "node_modules/a.tsx" := by
      decide +kernel
    exact ((h vendored).1 e _ (hfails _) hpath).2.1 (by decide +kernel)
  · have hpath : (Event.ofBytes (stray "\x7b\x7d").stdin).filePath = none := by decide +kernel
    exact congrArg Run.ending ((h (stray "\x7b\x7d")).2.1 hpath)

end QualityGate
