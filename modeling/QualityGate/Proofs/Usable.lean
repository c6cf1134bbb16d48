import QualityGate.Proofs.Config.Loading
import QualityGate.Proofs.Scope
import QualityGate.Proofs.Text.Template
import QualityGate.Start

/-! # Commands that reach the runner

A configuration is only had if each of its commands can be run: its line is not blank, and it has
some time. That is said of the lines as they are written. `Command.usable_call` says that it holds
of the calls too. What is put in for the edited file is never blank, so no path takes the only word
of a line away.

`Config.roles` lists the roles that a hook has played, in order, and does not look at a command.
`Config.calls_eq_roles` says that the calls of a hook are those of the commands of these roles. So
all that a runner is ever asked can be run, with the time of the role that asks for it
(`Config.calls_usable`), and a program that is started asks for nothing else
(`Start.usable_of_mem_calls`). -/

namespace QualityGate

variable {σ : Type}

/-! ### Calls that can be run -/

/-- The line is not blank, and there is a second for it at least. -/
structure Call.Usable (c : Call) : Prop where
  line : ∃ ch ∈ c.line.toList, Text.isBlank ch = false
  time : 1 ≤ c.timeoutSecs

theorem Shell.isBlank_eq_false_of_isPlain {c : Char} (h : isPlain c = true) :
    Text.isBlank c = false := by
  -- the plain characters are printable, and there is no blank among the printable ones
  have hrange : 33 ≤ c.toNat ∧ c.toNat ≤ 126 := by
    rw [isPlain, Bool.or_eq_true] at h
    obtain h | h := h
    · have hletter : (decide (65 ≤ c.val ∧ c.val ≤ 90) ||
          decide (97 ≤ c.val) && decide (c.val ≤ 122) ||
          decide (48 ≤ c.val) && decide (c.val ≤ 57)) = true := h
      simp only [Bool.or_eq_true, Bool.and_eq_true, decide_eq_true_eq, UInt32.le_iff_toNat_le,
        UInt32.reduceToNat, Char.toNat_val] at hletter
      omega
    · have hmarks : "/._-+@%:,=".toList.all (fun c => 33 ≤ c.toNat ∧ c.toNat ≤ 126) = true := by
        decide
      simpa using List.all_eq_true.mp hmarks c (List.contains_iff_mem.mp h)
  simp only [Text.isBlank, Bool.or_eq_false_iff, Bool.and_eq_false_iff, decide_eq_false_iff_not,
    beq_eq_false_iff_ne]
  omega

/-- A word of a command is never blank, not even for the empty text. -/
theorem Shell.exists_not_blank_quote (s : List Char) :
    ∃ ch ∈ quote s, Text.isBlank ch = false := by
  rw [quote]
  split
  · rename_i h
    obtain ⟨hne, hplain⟩ := h
    have hhead : s.head hne ∈ s := List.head_mem hne
    exact ⟨_, hhead, isBlank_eq_false_of_isPlain (List.all_eq_true.mp hplain _ hhead)⟩
  · exact ⟨_, List.mem_cons_self, by decide⟩

namespace Command

/-- Whatever the file is, a line that is not blank does not become blank. -/
theorem exists_not_blank_render {c : Command} (h : ∃ ch ∈ c.run.toList, Text.isBlank ch = false)
    (file : Option String) : ∃ ch ∈ (c.render file).toList, Text.isBlank ch = false := by
  cases file with
  | none => exact h
  | some path =>
    obtain ⟨ch, hch, hblank⟩ := h
    have hline : (c.render (some path)).toList =
        Text.Template.fill (Shell.quote path.toList)
          (Text.Template.ofText placeholder.toList c.run.toList) := by
      rw [render, String.toList_ofList, Text.Template.substitute_eq_fill]
    rw [hline]
    -- the line itself is its template with the placeholder in the holes
    have hrun : Text.Template.fill placeholder.toList
        (Text.Template.ofText placeholder.toList c.run.toList) = c.run.toList :=
      Text.Template.fill_ofText (by decide) c.run.toList
    rw [← hrun, Text.Template.mem_fill_iff] at hch
    obtain hch | ⟨hhole, -⟩ := hch
    · exact ⟨ch, Text.Template.mem_fill_iff.mpr (.inl hch), hblank⟩
    · obtain ⟨d, hd, hblank⟩ := Shell.exists_not_blank_quote path.toList
      exact ⟨d, Text.Template.mem_fill_iff.mpr (.inr ⟨hhole, hd⟩), hblank⟩

theorem usable_call {c : Command} (h : c.flaw? = none) (file : Option String) :
    (c.call file).Usable := by
  obtain ⟨hline, htime⟩ := flaw?_eq_none_iff.mp h
  exact ⟨exists_not_blank_render hline file, htime⟩

end Command

/-! ### The roles of a hook -/

/-- Whether a role is played in an edit of a path. -/
def Role.isPlayed : Role → (formatting : Bool) → (path : String) → Bool
  | .fastFormat | .format | .cairoFormat => fun formatting _ => formatting
  | .componentClones => fun _ path => isGenerated ["components"] path
  | .unusedExports => fun _ path => isGenerated ["/hooks/", "/utils/"] path
  | _ => fun _ _ => true

def Mode.roles : Mode → FileKind → List Role
  | .fast, .script => [.fastLint, .fastFormat]
  | .full, .solidity => [.format, .solidityCompile, .contractClones]
  | .full, .script =>
    [.lintFix, .format, .typeCheckFull, .componentClones, .circular, .unusedExports]
  | .full, .cairo => [.cairoFormat, .cairoCompile, .cairoTest]
  | _, _ => []

namespace Config

/-- The roles that are played in an edit, if it names a path. -/
def editRoles (c : Config) (formatting : Bool) (mode : Mode) : (path : Option String) → List Role
  | none => []
  | some path =>
    if c.skips path then []
    else (mode.roles (FileKind.ofPath path)).filter (Role.isPlayed · formatting path)

def roles (c : Config) (formatting : Bool) (path : Option String) : HookName → List Role
  | .fast => c.editRoles formatting .fast path
  | .full => c.editRoles formatting .full path
  | .complete => [.lint, .modifiedFiles, .typeCheck, .duplicates]

def fileOf (path : Option String) : HookName → Option String
  | .complete => none
  | _ => path

/-- In an edit the step makes the call of the role where that is played, and no other call. -/
def Plays (c : Config) (p : Step) (r : Role) : Prop :=
  ∀ formatting path, p.calls formatting (some path) =
    if r.isPlayed formatting path then [(c.command r).call (some path)] else []

variable {c : Config} {label : String} {r : Role} {k : Check}

theorem plays_checkStep (hlookup : k.lookup? = none) (hplayed : r.isPlayed = fun _ _ => true) :
    c.Plays (c.checkStep label r k) r := by
  intro formatting path
  simp [hplayed, Step.calls, checkStep, Gate.allows, hlookup]

theorem plays_gated (hlookup : k.lookup? = none) {needles : List String}
    (hplayed : r.isPlayed = fun _ path => isGenerated needles path) :
    c.Plays ((c.checkStep label r k).gated needles) r := by
  intro formatting path
  simp [hplayed, Step.calls, checkStep, Step.gated, Gate.allows, hlookup]

theorem plays_formatStep {note : Option String}
    (hplayed : r.isPlayed = fun formatting _ => formatting) : c.Plays (c.formatStep r note) r := by
  intro formatting path
  simp [hplayed, Step.calls, formatStep, Gate.allows]

/-- The steps of a pipeline play its roles one by one. -/
theorem plays_editPipeline (c : Config) (mode : Mode) (kind : FileKind) :
    List.Forall₂ c.Plays (c.editPipeline mode kind) (mode.roles kind) := by
  cases mode with
  | fast =>
    cases kind with
    | script => exact .cons (plays_checkStep rfl rfl) (.cons (plays_formatStep rfl) .nil)
    | _ => exact .nil
  | full =>
    cases kind with
    | solidity | cairo =>
      exact .cons (plays_formatStep rfl) (.cons (plays_checkStep rfl rfl)
        (.cons (plays_checkStep rfl rfl) .nil))
    | script =>
      refine .cons (plays_checkStep rfl rfl) (.cons (plays_formatStep rfl) ?_)
      refine .cons (plays_checkStep rfl rfl) (.cons (plays_gated rfl rfl) ?_)
      exact .cons (plays_checkStep rfl rfl) (.cons (plays_gated rfl rfl) .nil)
    | _ => exact .nil

/-- Steps that play roles make the calls of those that are played. -/
theorem calls_of_plays {ps : List Step} {rs : List Role} (h : List.Forall₂ c.Plays ps rs)
    (formatting : Bool) (path : String) :
    ps.flatMap (Step.calls formatting (some path)) =
      (rs.filter (Role.isPlayed · formatting path)).map fun r =>
        (c.command r).call (some path) := by
  induction h with
  | nil => rfl
  | @cons p r ps rs hp _ ih =>
    rw [List.flatMap_cons, hp, ih, List.filter_cons]
    split
    · rfl
    · rfl

theorem calls_eq_roles (c : Config) (formatting : Bool) (path : Option String) (hook : HookName) :
    c.calls formatting path hook =
      (c.roles formatting path hook).map fun r => (c.command r).call (fileOf path hook) := by
  have hedit (mode : Mode) : c.editCalls formatting mode path =
      (c.editRoles formatting mode path).map fun r => (c.command r).call path := by
    cases path with
    | none => rfl
    | some path =>
      rw [editCalls, editRoles]
      split
      · rfl
      · exact calls_of_plays (c.plays_editPipeline mode _) formatting path
  cases hook with
  | fast => exact hedit .fast
  | full => exact hedit .full
  | complete => rfl

/-- **All that reaches the runner can be run, with the time of its role.** Whatever the runner, the
files, the event and the switch for formatting are, a hook under a configuration that was loaded
asks for the commands of its roles, the lookup of the modified files among them. None of the lines
is blank, and each has a second at least. -/
theorem calls_usable {files : FileTree} {base : List String} {root : String}
    {explicit : Option String} (h : load files base root explicit = .ok c) (x : Session σ)
    (hconfig : x.config = c) (hook : HookName) (event : Event) (s : σ) :
    (x.asked hook event s = (c.roles x.formatting event.filePath hook).map fun r =>
      (c.command r).call (fileOf event.filePath hook)) ∧
    ∀ call ∈ x.asked hook event s, call.Usable ∧
      ∃ r ∈ c.roles x.formatting event.filePath hook,
        call.line = (c.command r).render (fileOf event.filePath hook) ∧
        call.timeoutSecs = (c.command r).timeoutSecs := by
  have hasked := x.asked_eq hook event s
  rw [hconfig, calls_eq_roles] at hasked
  refine ⟨hasked, fun call hcall => ?_⟩
  rw [hasked, List.mem_map] at hcall
  obtain ⟨r, hr, rfl⟩ := hcall
  exact ⟨Command.usable_call (flaw?_eq_none_of_load h r) _, r, hr, rfl, rfl⟩

/-- Settings with a linter of their own, which gets less time. -/
def tunedLint : Settings := ⟨none, none, [("lint", ⟨some "npm run lint", some 7⟩)]⟩

/-- A repository with these settings. -/
def tunedFiles : FileTree :=
  .directory [("repo", .directory [("editgate.yaml", .file (Bytes.ofString
    "commands:\n  lint:\n    run: npm run lint\n    timeout_secs: 7\n"))])]

theorem eq_ok_of_toOption {ε α : Type} {x : Except ε α} {a : α} (h : x.toOption = some a) :
    x = .ok a := by
  cases x with
  | error e => exact absurd h.symm (Option.some_ne_none a)
  | ok b => exact congrArg Except.ok (Option.some.inj h)

theorem load_tunedFiles : load tunedFiles [] "/repo" none = .ok (tunedLint.onto default) := by
  let text := "commands:\n  lint:\n    run: npm run lint\n    timeout_secs: 7\n"
  have hsource : source? tunedFiles [] "/repo" none = some "/repo/editgate.yaml" := by
    decide +kernel
  have htext : (tunedFiles.textAt [] "/repo/editgate.yaml").toOption = some text := by
    decide +kernel
  have hsettings : (Settings.ofText text).toOption = some tunedLint := by decide +kernel
  have hflaw : (tunedLint.onto default).flaw? = none := by decide +kernel
  rw [load_eq, hsource]
  simp only [ofFile, eq_ok_of_toOption htext, eq_ok_of_toOption hsettings]
  exact ofSettings_of_no_flaw (by decide) hflaw

/-- Under settings of a file the end of a session runs the file's linter for as long as the file says,
and the lookup, the type check and the duplicates as before; and all that a hook with a blank in its
path gives rise to can be run. -/
theorem calls_usable_tuned :
    let session : Session Unit :=
      ⟨"/repo", tunedLint.onto default, .ofAnswers fun _ => ⟨true, ""⟩, true, fun _ _ => none⟩
    load tunedFiles [] "/repo" none = .ok session.config ∧
      ((session.asked .complete (.forFile "a.ts") ()).head?.map Call.line = some "npm run lint") ∧
      (session.asked .complete (.forFile "a.ts") ()).map Call.timeoutSecs = [7, 5, 90, 60] ∧
      ∀ call ∈ session.asked .full (.forFile "app/hooks/a b.tsx") (), call.Usable := by
  intro session
  have hload := load_tunedFiles
  have hasked := (calls_usable hload session rfl .complete (.forFile "a.ts") ()).1
  refine ⟨hload, ?_, ?_, fun call hcall => ?_⟩
  · rw [hasked]
    decide
  · rw [hasked]
    decide
  · exact ((calls_usable hload session rfl .full _ ()).2 call hcall).1

end Config

/-! ### The program -/

/-- The calls of a run are asked of the runner of its session. -/
theorem Surroundings.asked_of_mem_calls {x : Surroundings σ} {args : List String} {s : σ}
    {call : Call} (h : call ∈ (x.run args s).calls) :
    ∃ i session, x.session i = .ok session ∧
      call ∈ session.asked i.hook (Event.ofBytes x.stdin) s := by
  cases hread : Arguments.read args with
  | error e =>
    rw [run_of_rejected hread] at h
    exact absurd h List.not_mem_nil
  | ok i =>
    cases hsession : x.session i with
    | error e =>
      rw [run_of_read hread, (runHook_of_error hsession).1] at h
      exact absurd h List.not_mem_nil
    | ok session =>
      refine ⟨i, session, hsession, ?_⟩
      rw [Session.asked_eq_calls]
      have hedit (mode : Mode) (hhook : i.hook = mode.hook) :
          call ∈ (session.answer i.hook (Event.ofBytes x.stdin) s).elim [] Trace.calls := by
        rw [run_edit hread hhook, runEdit_eq_runLoaded hsession, runLoaded, hsession] at h
        rw [hhook, session.answer_hook]
        cases hanswer : session.edit mode (Event.ofBytes x.stdin) s with
        | none =>
          simp only [hanswer] at h
          exact absurd h List.not_mem_nil
        | some t =>
          simp only [hanswer] at h
          exact h
      cases hhook : i.hook with
      | fast => exact hhook ▸ hedit .fast hhook
      | full => exact hhook ▸ hedit .full hhook
      | complete =>
        rw [run_of_read hread, runHook, hhook] at h
        dsimp only at h
        rw [runComplete, hsession] at h
        exact h

/-- **However the program is started, all that it asks of the shell can be run.** -/
theorem Start.usable_of_mem_calls {x : Start} {args : List String} {call : Call}
    (h : call ∈ (x.run args).calls) : call.Usable := by
  obtain ⟨i, session, hsession, hcall⟩ := Surroundings.asked_of_mem_calls h
  obtain ⟨root, hload⟩ : ∃ root, Config.load x.files x.directory root i.config =
      .ok session.config := by
    rw [Surroundings.session] at hsession
    split at hsession
    · exact absurd hsession (by simp)
    · rename_i root _
      split at hsession
      · exact absurd hsession (by simp)
      · rename_i c hconfig
        rw [← Except.ok.inj hsession]
        exact ⟨root, hconfig⟩
  rw [Session.asked_eq, Config.calls_eq_roles, List.mem_map] at hcall
  obtain ⟨r, -, rfl⟩ := hcall
  exact Command.usable_call (Config.flaw?_eq_none_of_load hload r) _

end QualityGate
