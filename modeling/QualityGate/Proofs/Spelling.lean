import QualityGate.Proofs.FileName
import QualityGate.Proofs.Scope

/-! # How a path is spelled

One file has two spellings: its path in the repository, and that path behind the root. Whether an
edit is in scope and which steps are executed for it (`Session.performed`) is found by looking for
words in the path as it is spelled, so the directories above the repository and the slash before
the path are looked at as well.

`Session.performed_join` says when that makes a difference: where a word is found that is not in the
path by itself (`Config.Parted`). It never takes a step away from an edit in scope. A JSON file
is read where the root puts it, so both spellings have it checked alike. -/

namespace QualityGate

variable {σ : Type}

/-! ### Kinds and joined paths -/

theorem FileKind.ofPath_of_components_nil {s : String} (h : Path.components s.toList = []) :
    FileKind.ofPath s = .other := by
  have hname : Path.fileName? s = none := by rw [Path.fileName?, h]; rfl
  rw [FileKind.ofPath, Path.extension?, hname]
  rfl

/-- The kind of a file in a directory is that of its own path, if there is anything to that. -/
theorem FileKind.ofPath_join {base s : String} (hbase : Path.isAbsolute base = true)
    (hs : Path.isAbsolute s = false) :
    FileKind.ofPath (Path.join base s) =
      if Path.components s.toList = [] then FileKind.ofPath base else FileKind.ofPath s := by
  have hcongr : ∀ {t : String}, (Path.components (Path.join base s).toList).getLast? =
        (Path.components t.toList).getLast? →
      FileKind.ofPath (Path.join base s) = FileKind.ofPath t :=
    fun h => FileKind.ofPath_congr (Path.fileName?_congr h)
  rw [Path.components_join hbase hs] at hcongr
  split
  · rename_i hnil
    apply hcongr
    rw [hnil, List.append_nil]
  · rename_i hne
    apply hcongr
    exact List.getLast?_append_of_ne_nil _ hne

/-! ### The steps that are executed -/

/-- Whether a step makes a call. -/
def Step.performs (formatting : Bool) (file : Option String) (p : Step) : Bool :=
  p.gate.allows file && match p.action with
    | .format _ => formatting
    | .check _ => true

theorem Step.calls_eq_nil_iff {formatting : Bool} {file : Option String} {p : Step} :
    p.calls formatting file = [] ↔ p.performs formatting file = false := by
  rw [Step.calls, Step.performs]
  cases p.gate.allows file <;> cases p.action <;> cases formatting <;> simp

/-- The labels of the steps that make a call, along a run. -/
def Execution.performed (e : Execution σ) : List Step → σ → List String
  | [], _ => []
  | p :: ps, s =>
    let t := e.step p s
    let later := e.performed ps t.state
    if t.calls = [] then later else p.label :: later

/-- They are known before the run. -/
theorem Execution.performed_eq (e : Execution σ) (ps : List Step) (s : σ) :
    e.performed ps s = (ps.filter (Step.performs e.formatting e.file)).map Step.label := by
  induction ps generalizing s with
  | nil => rfl
  | cons p ps ih =>
    have hcalls : (e.step p s).calls = [] ↔ p.performs e.formatting e.file = false := by
      rw [(e.does_step p s).calls_eq, Step.calls_eq_nil_iff]
    simp only [performed]
    rw [ih]
    by_cases hp : p.performs e.formatting e.file = true
    · rw [if_neg (by simp [hcalls, hp]), List.filter_cons_of_pos hp, List.map_cons]
    · rw [if_pos (by simpa [hcalls] using hp), List.filter_cons_of_neg hp]

/-! ### Gates -/

theorem Gate.allows_pathContains_iff {needles : List String} {path : String} :
    (Gate.pathContains needles).allows (some path) = true ↔
      ∃ n ∈ needles, n.toList <:+: path.toList := by
  rw [Gate.allows, Option.any_some]
  exact isGenerated_iff

abbrev Gate.components : Gate := .pathContains ["components"]

abbrev Gate.graph : Gate := .pathContains ["/hooks/", "/utils/"]

/-- A gate that is open for a path is open for it in any directory. -/
theorem Gate.allows_join {gate : Gate} {path : String} (h : gate.allows (some path) = true)
    (root : String) : gate.allows (some (Path.join root path)) = true := by
  cases gate with
  | always => rfl
  | pathContains needles =>
    rw [Gate.allows_pathContains_iff] at h ⊢
    obtain ⟨n, hn, hoccurs⟩ := h
    exact ⟨n, hn, hoccurs.trans (Path.suffix_join root path).isInfix⟩

namespace Config

/-- Only the full check of a script has steps with gates. -/
theorem gate_of_mem_editPipeline (c : Config) {mode : Mode} {kind : FileKind}
    (h : ¬ (mode = .full ∧ kind = .script)) {p : Step} (hp : p ∈ c.editPipeline mode kind) :
    p.gate = .always := by
  cases mode <;> cases kind <;> simp [editPipeline, checkStep, formatStep] at h hp
  all_goals rcases hp with rfl | rfl | rfl <;> rfl

theorem pathSteps_congr (c : Config) {mode : Mode} {path path' : String}
    (hkind : FileKind.ofPath path' = FileKind.ofPath path) :
    c.pathSteps mode path' = c.pathSteps mode path := by
  rw [pathSteps, hkind, pathSteps]

/-- The labels of the steps that are executed for an edit in scope. -/
def labels (c : Config) (formatting : Bool) (mode : Mode) (path : String) : List String :=
  ((c.pathSteps mode path).filter (Step.performs formatting (some path))).map Step.label

/-- Without gates the labels are the kind's. -/
theorem labels_of_ungated (c : Config) (formatting : Bool) {mode : Mode} {path path' : String}
    (hkind : FileKind.ofPath path' = FileKind.ofPath path)
    (h : ¬ (mode = .full ∧ FileKind.ofPath path = .script)) :
    c.labels formatting mode path' = c.labels formatting mode path := by
  rw [labels, labels, c.pathSteps_congr hkind]
  refine congrArg (List.map Step.label) (List.filter_congr fun p hp => ?_)
  rw [Step.performs, Step.performs, c.gate_of_mem_editPipeline h hp]
  rfl

/-- For a script two of the labels are there only where the gates are open. -/
theorem labels_script (c : Config) (formatting : Bool) {path : String}
    (hkind : FileKind.ofPath path = .script) :
    c.labels formatting .full path =
      "lint" :: ((if formatting then ["format"] else []) ++ "type check" ::
        ((if Gate.components.allows (some path) then ["duplicates"] else []) ++
          "circular deps" ::
            if Gate.graph.allows (some path) then ["unused exports"] else [])) := by
  rw [labels, pathSteps, hkind]
  cases hcomponents : Gate.components.allows (some path) <;>
    cases hgraph : Gate.graph.allows (some path) <;>
    cases formatting <;>
    simp [editPipeline, Step.performs, checkStep, formatStep, Step.gated, hcomponents, hgraph,
      Gate.allows.eq_1]

/-- Two scripts have the same labels only if the gates do not tell them apart. -/
theorem labels_script_inj (c : Config) (formatting : Bool) {path path' : String}
    (hkind : FileKind.ofPath path = .script) (hkind' : FileKind.ofPath path' = .script) :
    c.labels formatting .full path' = c.labels formatting .full path ↔
      Gate.components.allows (some path') = Gate.components.allows (some path) ∧
        Gate.graph.allows (some path') = Gate.graph.allows (some path) := by
  rw [c.labels_script formatting hkind, c.labels_script formatting hkind']
  cases Gate.components.allows (some path') <;>
    cases Gate.components.allows (some path) <;>
    cases Gate.graph.allows (some path') <;>
    cases Gate.graph.allows (some path) <;> simp

/-- A directory in front of a path takes no label away, as long as the kind stays. -/
theorem labels_sublist_join (c : Config) (formatting : Bool) (mode : Mode) {root path : String}
    (hkind : FileKind.ofPath (Path.join root path) = FileKind.ofPath path) :
    (c.labels formatting mode path).Sublist
      (c.labels formatting mode (Path.join root path)) := by
  rw [labels, labels, c.pathSteps_congr hkind]
  refine (List.monotone_filter_right _ fun p hp => ?_).map Step.label
  rw [Step.performs, Bool.and_eq_true] at hp ⊢
  exact ⟨Gate.allows_join hp.1 root, hp.2⟩

end Config

namespace Session

/-- The labels of the steps that a session executes for an edit, in order, and `none` where the edit
is out of scope. -/
def performed (x : Session σ) (mode : Mode) (event : Event) (s : σ) : Option (List String) :=
  event.filePath.bind fun path => (x.edit mode event s).map fun _ =>
    (x.execution (some path)).performed (x.config.pathSteps mode path) s

theorem performed_eq_none_iff (x : Session σ) (mode : Mode) (event : Event) (s : σ) :
    x.performed mode event s = none ↔ x.config.OutOfScope mode event.filePath := by
  rw [← x.edit_eq_none_iff mode event s, performed]
  cases hpath : event.filePath with
  | none => exact iff_of_true rfl (by rw [edit_eq, hpath])
  | some path => simp

theorem performed_eq_some {x : Session σ} {mode : Mode} {event : Event} {path : String}
    (hpath : event.filePath = some path) (hscope : ¬ x.config.OutOfScope mode (some path)) (s : σ) :
    x.performed mode event s = some (x.config.labels x.formatting mode path) := by
  rw [performed, hpath]
  cases hedit : x.edit mode event s with
  | none =>
    rw [edit_eq_none_iff, hpath] at hedit
    exact absurd hedit hscope
  | some t =>
    rw [Option.bind_some, Option.map_some, Execution.performed_eq]
    rfl

end Session

/-! ### Two spellings -/

/-- Why an edit is not treated alike under both spellings of its path. -/
inductive Config.Parted (mode : Mode) (root path : String) : Prop
  /-- The path names no file but the root, and a file of that name has checks. -/
  | itself (hnames : Path.components path.toList = [])
      (hscope : ¬ Config.default.OutOfScope mode (some root)) : Parted mode root path
  /-- The root lies where everything is skipped. -/
  | skipped {pattern : String} (hscope : ¬ Config.default.OutOfScope mode (some path))
      (hpattern : pattern ∈ Config.default.skipPaths)
      (hroot : pattern.toList <:+: root.toList) : Parted mode root path
  /-- The script is a component for where the root lies. -/
  | component (hscope : ¬ Config.default.OutOfScope mode (some path)) (hmode : mode = .full)
      (hkind : FileKind.ofPath path = .script)
      (hclosed : Gate.components.allows (some path) = false)
      (hroot : "components".toList <:+: root.toList) : Parted mode root path
  /-- The script is for hooks or utilities for where the root lies, or once a slash stands before
  its path. -/
  | graph {needle : String} (hscope : ¬ Config.default.OutOfScope mode (some path))
      (hmode : mode = .full) (hkind : FileKind.ofPath path = .script)
      (hclosed : Gate.graph.allows (some path) = false)
      (hneedle : needle ∈ ["/hooks/", "/utils/"])
      (hfound : needle.toList <:+: (Path.join root "").toList ∨
        needle.toList <+: '/' :: path.toList) : Parted mode root path

namespace Config

section Join

variable {root path : String}

theorem slash_notMem_skipPaths {pattern : String} (h : pattern ∈ Config.default.skipPaths) :
    '/' ∉ pattern.toList := by
  revert pattern
  decide

theorem skips_join (hroot : Path.isAbsolute root = true) (hpath : Path.isAbsolute path = false) :
    Config.default.skips (Path.join root path) = true ↔
      Config.default.skips root = true ∨ Config.default.skips path = true := by
  simp only [skips_iff]
  constructor
  · rintro ⟨pattern, hpattern, hoccurs⟩
    rw [Path.infix_join_iff hroot hpath (slash_notMem_skipPaths hpattern)] at hoccurs
    exact hoccurs.imp (fun h => ⟨pattern, hpattern, h⟩) fun h => ⟨pattern, hpattern, h⟩
  · rintro (⟨pattern, hpattern, hoccurs⟩ | ⟨pattern, hpattern, hoccurs⟩) <;>
      refine ⟨pattern, hpattern, ?_⟩ <;>
      rw [Path.infix_join_iff hroot hpath (slash_notMem_skipPaths hpattern)]
    · exact .inl hoccurs
    · exact .inr hoccurs

/-- A path without parts contains no pattern. -/
theorem skips_of_components_nil (h : Path.components path.toList = []) :
    Config.default.skips path = false := by
  have hletter : Config.default.skipPaths.all (fun p => p.toList.any (· ∉ ['/', '.'])) = true := by
    decide
  rw [← Bool.not_eq_true, skips_iff]
  rintro ⟨pattern, hpattern, hoccurs⟩
  obtain ⟨c, hc, hother⟩ := List.any_eq_true.mp (List.all_eq_true.mp hletter pattern hpattern)
  have hmem := List.mem_pair.mpr (Path.eq_of_mem_of_components_eq_nil h (hoccurs.subset hc))
  exact absurd hmem (of_decide_eq_true hother)

/-- Behind the root the gate for components opens if the root contains the word. -/
theorem component_join (hroot : Path.isAbsolute root = true)
    (hpath : Path.isAbsolute path = false) :
    Gate.components.allows (some (Path.join root path)) = true ↔
      "components".toList <:+: root.toList ∨
        Gate.components.allows (some path) = true := by
  simp only [Gate.allows_pathContains_iff, List.mem_singleton, exists_eq_left]
  exact Path.infix_join_iff hroot hpath (by decide)

/-- Behind the root the gate for hooks and utilities opens if a needle is found in the root, or once
a slash is put before the path. -/
theorem graph_join (hroot : Path.isAbsolute root = true) (hpath : Path.isAbsolute path = false) :
    Gate.graph.allows (some (Path.join root path)) = true ↔
      (∃ n ∈ ["/hooks/", "/utils/"],
        n.toList <:+: (Path.join root "").toList ∨ n.toList <+: '/' :: path.toList) ∨
      Gate.graph.allows (some path) = true := by
  have hneedle : ∀ n ∈ ["/hooks/", "/utils/"],
      n.toList <:+: (Path.join root path).toList ↔
        (n.toList <:+: (Path.join root "").toList ∨ n.toList <+: '/' :: path.toList) ∨
          n.toList <:+: path.toList := by
    intro n hn
    obtain ⟨w, hw, hslash⟩ : ∃ w : List Char, n.toList = '/' :: (w ++ ['/']) ∧ '/' ∉ w := by
      rcases List.mem_pair.mp hn with rfl | rfl
      · exact ⟨"hooks".toList, by decide, by decide⟩
      · exact ⟨"utils".toList, by decide, by decide⟩
    rw [hw, Path.enclosed_infix_join_iff hroot hpath hslash, List.infix_cons_iff, or_assoc]
  rw [Gate.allows_pathContains_iff, Gate.allows_pathContains_iff, ← exists_or]
  refine exists_congr fun n => ?_
  rw [← and_or_left]
  exact and_congr_right fun hn => hneedle n hn

/-- A path without parts is out of scope. -/
theorem outOfScope_of_components_nil (c : Config) (mode : Mode)
    (h : Path.components path.toList = []) : c.OutOfScope mode (some path) := by
  refine outOfScope_some_iff.mpr (.inr ?_)
  rw [FileKind.ofPath_of_components_nil h]
  cases mode <;> rfl

/-- A path in scope is of its own kind in any directory. -/
theorem ofPath_join_of_inScope {c : Config} {mode : Mode} (hroot : Path.isAbsolute root = true)
    (hpath : Path.isAbsolute path = false) (hscope : ¬ c.OutOfScope mode (some path)) :
    FileKind.ofPath (Path.join root path) = FileKind.ofPath path := by
  have hne : Path.components path.toList ≠ [] := fun hnil =>
    hscope (outOfScope_of_components_nil c mode hnil)
  rw [FileKind.ofPath_join hroot hpath, if_neg hne]

/-- Behind the root an edit in scope goes out of it only where the root is skipped. -/
theorem outOfScope_join_iff {mode : Mode} (hroot : Path.isAbsolute root = true)
    (hpath : Path.isAbsolute path = false)
    (hscope : ¬ Config.default.OutOfScope mode (some path)) :
    Config.default.OutOfScope mode (some (Path.join root path)) ↔
      Config.default.skips root = true := by
  have hkind := ofPath_join_of_inScope hroot hpath hscope
  rw [outOfScope_some_iff, not_or] at hscope
  rw [outOfScope_some_iff, hkind, skips_join hroot hpath, or_iff_left hscope.2,
    or_iff_left hscope.1]

/-- Behind the root an edit comes into scope only if its path names the root itself. -/
theorem components_nil_of_inScope_join {mode : Mode} (hroot : Path.isAbsolute root = true)
    (hpath : Path.isAbsolute path = false) (hout : Config.default.OutOfScope mode (some path))
    (hscope : ¬ Config.default.OutOfScope mode (some (Path.join root path))) :
    Path.components path.toList = [] ∧ ¬ Config.default.OutOfScope mode (some root) := by
  rw [outOfScope_some_iff, not_or, skips_join hroot hpath, not_or,
    FileKind.ofPath_join hroot hpath] at hscope
  obtain ⟨⟨hrootSkip, hpathSkip⟩, hhandled⟩ := hscope
  have hkind := (outOfScope_some_iff.mp hout).resolve_left hpathSkip
  split at hhandled
  · rename_i hnil
    refine ⟨hnil, fun h => ?_⟩
    exact (outOfScope_some_iff.mp h).elim hrootSkip hhandled
  · exact absurd hkind hhandled

theorem inScope_join_itself {mode : Mode} (hroot : Path.isAbsolute root = true)
    (hpath : Path.isAbsolute path = false) (hnames : Path.components path.toList = [])
    (hscope : ¬ Config.default.OutOfScope mode (some root)) :
    ¬ Config.default.OutOfScope mode (some (Path.join root path)) := by
  rw [outOfScope_some_iff] at hscope ⊢
  rw [skips_join hroot hpath, skips_of_components_nil hnames, FileKind.ofPath_join hroot hpath,
    if_pos hnames]
  simpa using hscope

/-- **Behind the root the labels change only where a gate opens.** -/
theorem labels_join_ne_iff {mode : Mode} (formatting : Bool) (hroot : Path.isAbsolute root = true)
    (hpath : Path.isAbsolute path = false)
    (hscope : ¬ Config.default.OutOfScope mode (some path))
    (hscope' : ¬ Config.default.OutOfScope mode (some (Path.join root path))) :
    Config.default.labels formatting mode (Path.join root path) ≠
      Config.default.labels formatting mode path ↔ Parted mode root path := by
  have hkind := ofPath_join_of_inScope hroot hpath hscope
  have hroot' : Config.default.skips root ≠ true :=
    mt (outOfScope_join_iff hroot hpath hscope).mpr hscope'
  have hcomponent := component_join hroot hpath
  have hgraph := graph_join hroot hpath
  constructor
  · intro hne
    have hscript : mode = .full ∧ FileKind.ofPath path = .script := by
      by_contra h
      exact hne (Config.default.labels_of_ungated formatting hkind h)
    obtain ⟨rfl, hscript⟩ := hscript
    rw [ne_eq, Config.default.labels_script_inj formatting hscript (hkind.trans hscript),
      not_and_or] at hne
    rcases hne with hne | hne
    · cases hclosed : Gate.components.allows (some path) with
      | true => exact absurd (Gate.allows_join hclosed root) (by simpa [hclosed] using hne)
      | false =>
        rw [hclosed, Bool.not_eq_false, hcomponent] at hne
        exact .component hscope rfl hscript hclosed (hne.resolve_right (by simp [hclosed]))
    · cases hclosed : Gate.graph.allows (some path) with
      | true => exact absurd (Gate.allows_join hclosed root) (by simpa [hclosed] using hne)
      | false =>
        rw [hclosed, Bool.not_eq_false, hgraph] at hne
        obtain ⟨n, hn, hfound⟩ := hne.resolve_right (by simp [hclosed])
        exact .graph hscope rfl hscript hclosed hn hfound
  · intro hparted heq
    cases hparted with
    | itself hnames _ => exact hscope (outOfScope_of_components_nil _ mode hnames)
    | skipped _ hpattern hoccurs => exact hroot' (skips_iff.mpr ⟨_, hpattern, hoccurs⟩)
    | component _ hmode hscript hclosed hoccurs =>
      subst hmode
      rw [Config.default.labels_script_inj formatting hscript (hkind.trans hscript)] at heq
      rw [← heq.1, hcomponent.mpr (.inl hoccurs)] at hclosed
      exact absurd hclosed (by simp)
    | graph _ hmode hscript hclosed hneedle hfound =>
      subst hmode
      rw [Config.default.labels_script_inj formatting hscript (hkind.trans hscript)] at heq
      rw [← heq.2, hgraph.mpr (.inl ⟨_, hneedle, hfound⟩)] at hclosed
      exact absurd hclosed (by simp)

end Join

end Config

namespace Session

/-- The session finds both spellings of a JSON file in one place. -/
theorem checkJson_join {x : Session σ} (hroot : Path.isAbsolute x.root = true) (path : String)
    (s : σ) : x.checkJson (Path.join x.root path) s = x.checkJson path s := by
  rw [checkJson, checkJson, Path.join_join hroot]

section Join

variable {x : Session σ} {path : String} {event event' : Event} {mode : Mode}

theorem performed_default_eq_none_iff (hconfig : x.config = .default)
    (hevent : event.filePath = some path) (mode : Mode) (s : σ) :
    x.performed mode event s = none ↔ Config.default.OutOfScope mode (some path) := by
  rw [performed_eq_none_iff, hconfig, hevent]

theorem performed_default (hconfig : x.config = .default) (hevent : event.filePath = some path)
    (hscope : ¬ Config.default.OutOfScope mode (some path)) (s : σ) :
    x.performed mode event s = some (Config.default.labels x.formatting mode path) := by
  rw [performed_eq_some hevent (by rwa [hconfig]), hconfig]

/-- The reasons to treat the spellings in another way are all there are. -/
theorem performed_join_ne_iff (hconfig : x.config = .default)
    (hroot : Path.isAbsolute x.root = true) (hpath : Path.isAbsolute path = false)
    (hevent : event.filePath = some (Path.join x.root path))
    (hevent' : event'.filePath = some path) (s t : σ) :
    x.performed mode event s ≠ x.performed mode event' t ↔ Config.Parted mode x.root path := by
  have hnone := performed_default_eq_none_iff hconfig hevent mode s
  have hnone' := performed_default_eq_none_iff hconfig hevent' mode t
  by_cases hscope' : Config.default.OutOfScope mode (some path)
  · rw [hnone'.mpr hscope', ne_eq, hnone]
    constructor
    · intro hscope
      obtain ⟨hnames, hitself⟩ :=
        Config.components_nil_of_inScope_join hroot hpath hscope' hscope
      exact .itself hnames hitself
    · intro hparted
      cases hparted with
      | itself hnames hscope => exact Config.inScope_join_itself hroot hpath hnames hscope
      | skipped hscope => exact absurd hscope' hscope
      | component hscope => exact absurd hscope' hscope
      | graph hscope => exact absurd hscope' hscope
  · rw [performed_default hconfig hevent' hscope']
    by_cases hscope : Config.default.OutOfScope mode (some (Path.join x.root path))
    · rw [hnone.mpr hscope]
      rw [Config.outOfScope_join_iff hroot hpath hscope', Config.skips_iff] at hscope
      obtain ⟨pattern, hpattern, hoccurs⟩ := hscope
      exact iff_of_true (by simp) (.skipped hscope' hpattern hoccurs)
    · rw [performed_default hconfig hevent hscope, ne_eq, Option.some_inj]
      exact Config.labels_join_ne_iff x.formatting hroot hpath hscope' hscope

/-- Behind the root no step is left out. -/
theorem performed_sublist_join (hconfig : x.config = .default)
    (hroot : Path.isAbsolute x.root = true) (hpath : Path.isAbsolute path = false)
    (hevent : event.filePath = some (Path.join x.root path))
    (hevent' : event'.filePath = some path) {s t : σ} {labels labels' : List String}
    (h : x.performed mode event s = some labels)
    (h' : x.performed mode event' t = some labels') : labels'.Sublist labels := by
  have hscope : ¬ Config.default.OutOfScope mode (some (Path.join x.root path)) := by
    rw [← performed_default_eq_none_iff hconfig hevent mode s, h]
    exact Option.some_ne_none labels
  have hscope' : ¬ Config.default.OutOfScope mode (some path) := by
    rw [← performed_default_eq_none_iff hconfig hevent' mode t, h']
    exact Option.some_ne_none labels'
  rw [performed_default hconfig hevent hscope, Option.some_inj] at h
  rw [performed_default hconfig hevent' hscope', Option.some_inj] at h'
  rw [← h, ← h']
  exact Config.default.labels_sublist_join x.formatting mode
    (Config.ofPath_join_of_inScope hroot hpath hscope')

/-- A JSON file that is checked behind the root is checked alike. -/
theorem edit_json_join (hconfig : x.config = .default) (hroot : Path.isAbsolute x.root = true)
    (hpath : Path.isAbsolute path = false)
    (hevent : event.filePath = some (Path.join x.root path))
    (hevent' : event'.filePath = some path) (hjson : FileKind.ofPath path = .json) {s : σ}
    {t : Trace σ} (h : x.edit .fast event s = some t) : x.edit .fast event' s = some t := by
  have hkind : FileKind.ofPath (Path.join x.root path) = .json := by
    rw [FileKind.ofPath_join hroot hpath, if_neg, hjson]
    intro hnil
    rw [FileKind.ofPath_of_components_nil hnil] at hjson
    cases hjson
  rw [x.edit_json hevent hkind, checkJson_join hroot, hconfig] at h
  rw [x.edit_json hevent' hjson, hconfig]
  by_cases hskip : Config.default.skips path = true
  · rw [if_pos ((Config.skips_join hroot hpath).mpr (.inr hskip))] at h
    exact absurd h.symm (Option.some_ne_none t)
  · rw [if_neg hskip]
    split at h
    · exact absurd h.symm (Option.some_ne_none t)
    · exact h

end Join

/-- **The two spellings of a path.** Where nothing is configured the two are not treated alike for
the reasons given and no other: the path names the root itself, the root is skipped, or a gate of
the full check finds its word in the root or once a slash stands before the path. Where both are in
scope, each step that is executed for the path alone is executed behind the root, in that order. A
JSON file is checked alike. -/
theorem performed_join (x : Session σ) (hconfig : x.config = .default)
    (hroot : Path.isAbsolute x.root = true) {path : String} (hpath : Path.isAbsolute path = false)
    {event event' : Event} (hevent : event.filePath = some (Path.join x.root path))
    (hevent' : event'.filePath = some path) :
    (∀ mode s t, x.performed mode event s ≠ x.performed mode event' t ↔
      Config.Parted mode x.root path) ∧
    (∀ mode s t labels labels', x.performed mode event s = some labels →
      x.performed mode event' t = some labels' → labels'.Sublist labels) ∧
    ∀ s t, FileKind.ofPath path = .json → x.edit .fast event s = some t →
      x.edit .fast event' s = some t := by
  refine ⟨fun mode s t => performed_join_ne_iff hconfig hroot hpath hevent hevent' s t,
    fun mode s t labels labels' h h' => ?_, fun s t hjson h => ?_⟩
  · exact performed_sublist_join hconfig hroot hpath hevent hevent' h h'
  · exact edit_json_join hconfig hroot hpath hevent hevent' hjson h

/-- A script in the directory `hooks` has its unused exports looked for behind the root only, one in
`src/hooks` has them looked for in either spelling. -/
theorem performed_join_hooks :
    let x : Session Unit :=
      ⟨"/repo", .default, .ofAnswers fun _ => ⟨true, ""⟩, true, fun _ _ => none⟩
    x.performed .full (.forFile "/repo/hooks/a.ts") () ≠
        x.performed .full (.forFile "hooks/a.ts") () ∧
      x.performed .full (.forFile "/repo/src/hooks/a.ts") () =
        x.performed .full (.forFile "src/hooks/a.ts") () := by
  intro x
  have hooks := performed_join x rfl (by decide) (by decide)
    (show (Event.forFile "/repo/hooks/a.ts").filePath =
      some (Path.join x.root "hooks/a.ts") by decide)
    (show (Event.forFile "hooks/a.ts").filePath = some "hooks/a.ts" from rfl)
  have srcHooks := performed_join x rfl (by decide) (by decide)
    (show (Event.forFile "/repo/src/hooks/a.ts").filePath =
      some (Path.join x.root "src/hooks/a.ts") by decide)
    (show (Event.forFile "src/hooks/a.ts").filePath = some "src/hooks/a.ts" from rfl)
  constructor
  · refine (hooks.1 .full () ()).mpr ?_
    have hscope : ¬ Config.default.OutOfScope .full (some "hooks/a.ts") := by
      rw [Config.outOfScope_some_iff]
      decide
    exact .graph hscope rfl (by decide) (by decide) (List.mem_cons_self) (.inr (by decide))
  · by_contra hne
    cases (srcHooks.1 .full () ()).mp hne with
    | itself hnames => exact absurd hnames (by decide)
    | skipped _ hpattern hoccurs =>
      revert hoccurs
      exact (by decide : ∀ p ∈ Config.default.skipPaths, ¬ p.toList <:+: "/repo".toList) _ hpattern
    | component _ _ _ _ hoccurs => exact absurd hoccurs (by decide)
    | graph _ _ _ hclosed => exact absurd hclosed (by decide)

/-- So it is not so that the spelling has no say. -/
theorem spelling_matters :
    ¬ ∀ (x : Session Unit) (mode : Mode) (path : String) (event event' : Event),
      x.config = .default → Path.isAbsolute x.root = true → Path.isAbsolute path = false →
      event.filePath = some (Path.join x.root path) → event'.filePath = some path →
      x.performed mode event () = x.performed mode event' () := by
  intro h
  let x : Session Unit := ⟨"/repo", .default, .ofAnswers fun _ => ⟨true, ""⟩, true, fun _ _ => none⟩
  have hooks : x.performed .full (.forFile "/repo/hooks/a.ts") () =
      x.performed .full (.forFile "hooks/a.ts") () :=
    h x .full "hooks/a.ts" _ _ rfl (by decide) (by decide) (by decide) rfl
  have habsolute : x.performed .full (.forFile "/repo/hooks/a.ts") () =
      some ["lint", "format", "type check", "circular deps", "unused exports"] := by decide
  have hrelative : x.performed .full (.forFile "hooks/a.ts") () =
      some ["lint", "format", "type check", "circular deps"] := by decide
  rw [habsolute, hrelative] at hooks
  exact absurd hooks (by decide)

end Session

end QualityGate
