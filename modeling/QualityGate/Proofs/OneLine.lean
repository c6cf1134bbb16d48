import QualityGate.Proofs.FileName
import QualityGate.Proofs.Text.Seam
import QualityGate.Proofs.Verdict

/-! # Findings of one line

A finding is told in one line, and an excerpt in another one. So no line feed may get into either.
What a tool prints is cut into lines before anything of it is taken (`Text.oneLine_of_mem_lines`),
and all else in a message is a fixed text, a number, or a name that the check was given
(`Check.names`). The one name that a configuration gives is that of the fast linter, and the one
that an event gives is that of the edited file. Where these are of one line, so is every finding of
every verdict (`Session.oneLine_of_answer`). -/

namespace QualityGate

variable {σ : Type}

/-! ### Texts of one line -/

namespace Text

def OneLine (s : String) : Prop := '\n' ∉ s.toList

theorem OneLine.append {s t : String} (hs : OneLine s) (ht : OneLine t) : OneLine (s ++ t) := by
  rw [OneLine, String.toList_append, List.mem_append, not_or]
  exact ⟨hs, ht⟩

theorem OneLine.of_infix {s t : String} (ht : OneLine t) (h : s.toList <:+: t.toList) :
    OneLine s :=
  fun hmem => ht (h.subset hmem)

/-- A fixed text is shown to be of one line through its characters, without being decoded. -/
theorem OneLine.ofList {l : List Char} (h : '\n' ∉ l) : OneLine (String.ofList l) := by
  rwa [OneLine, String.toList_ofList]

theorem oneLine_toString (n : Nat) : OneLine (toString n) := by
  intro hmem
  exact absurd (isDigit_of_mem_toString hmem) (by decide)

/-- A text between two others. -/
theorem OneLine.between {s t u : String} (hs : OneLine s) (ht : OneLine t) (hu : OneLine u) :
    OneLine (s ++ t ++ u) :=
  (hs.append ht).append hu

/-- A number between two fixed texts. -/
theorem oneLine_counted {a b : List Char} (ha : '\n' ∉ a) (n : Nat) (hb : '\n' ∉ b) :
    OneLine (String.ofList a ++ toString n ++ String.ofList b) :=
  .between (.ofList ha) (oneLine_toString n) (.ofList hb)

/-- A line is trimmed and cut to a piece of it. -/
theorem infix_of_take_trim (n : Nat) (l : List Char) : (trim l).take n <:+: l := by
  have hpiece : trim l <:+: l := trim_infix l
  exact (List.take_prefix n (trim l)).isInfix.trans hpiece

/-- **No piece of a line has a line feed.** -/
theorem oneLine_of_infix_line {s l p : List Char} (hl : l ∈ lines s) (hp : p <:+: l) :
    OneLine (String.ofList p) :=
  .ofList fun hmem => notMem_of_mem_lines hl (hp.subset hmem)

end Text

/-! ### Findings -/

open Text (OneLine)

namespace Finding

/-- Neither the message nor the detail has a line feed. -/
structure OneLine (f : Finding) : Prop where
  message : Text.OneLine f.message
  detail : ∀ d, f.detail = some d → Text.OneLine d

def AllOneLine (fs : List Finding) : Prop := ∀ f ∈ fs, f.OneLine

variable {category : Category} {severity : Severity} {message : String} {fs gs : List Finding}

theorem OneLine.plain (h : Text.OneLine message) : OneLine ⟨category, severity, message, none⟩ :=
  ⟨h, fun _ hd => absurd hd.symm (Option.some_ne_none _)⟩

theorem AllOneLine.nil : AllOneLine [] :=
  fun _ h => absurd h List.not_mem_nil

theorem AllOneLine.singleton {f : Finding} (h : f.OneLine) : AllOneLine [f] :=
  fun _ hg => List.mem_singleton.mp hg ▸ h

theorem AllOneLine.append (hf : AllOneLine fs) (hg : AllOneLine gs) : AllOneLine (fs ++ gs) :=
  fun f h => (List.mem_append.mp h).elim (hf f) (hg f)

end Finding

open Finding (AllOneLine)

/-! ### The readings of an output -/

theorem Lint.oneLine_diagnostics {tool : String} (htool : OneLine tool) (o : Outcome) :
    AllOneLine (diagnostics tool o) := by
  intro f hf
  obtain ⟨l, hl, rfl⟩ := List.mem_map.mp hf
  obtain ⟨hl, -⟩ := List.mem_filter.mp (List.mem_of_mem_take hl)
  obtain ⟨line, hline, rfl⟩ := List.mem_map.mp hl
  have hexcerpt := Text.oneLine_of_infix_line hline (Text.infix_of_take_trim diagnosticLength line)
  exact .plain (htool.between (.ofList (by decide)) hexcerpt)

theorem Lint.oneLine_summary (o : Outcome) : AllOneLine (summary o) := by
  unfold summary
  split
  · dsimp only
    split
    · exact .nil
    · exact .singleton (.plain (Text.oneLine_counted (by decide) _ (by decide)))
  · exact .nil

theorem Lint.oneLine_remaining (o : Outcome) : AllOneLine (remaining o) := by
  unfold remaining
  dsimp only
  split
  · exact .singleton (.plain (Text.oneLine_counted (by decide) _ (by decide)))
  · exact .singleton (.plain (.ofList (by decide)))

theorem Types.oneLine_report {noun : String} (hnoun : OneLine noun) (length : Nat) {o : Outcome}
    {ls : List (List Char)} (hls : ∀ l ∈ ls, l ∈ o.lines) :
    AllOneLine (report noun length ls) := by
  cases ls with
  | nil => exact .nil
  | cons l ls =>
    have hcount : OneLine (s!"TypeScript: {ls.length + 1} ") :=
      Text.oneLine_counted (by decide) _ (by decide)
    have hdetail : OneLine (String.ofList (l.take length)) :=
      Text.oneLine_of_infix_line (hls l List.mem_cons_self) (List.take_prefix _ _).isInfix
    refine .singleton ⟨hcount.append hnoun, fun d hd => ?_⟩
    rw [← Option.some.inj hd]
    exact hdetail

theorem Types.oneLine_errors (modified : Option (List String)) (o : Outcome) :
    AllOneLine (errors modified o) := by
  have hlines : ∀ l ∈ diagnosticLines o, l ∈ o.lines := fun l hl => List.mem_of_mem_filter hl
  unfold errors
  split
  · exact .nil
  · split
    · exact oneLine_report (.ofList (by decide)) _ hlines
    · exact oneLine_report (.ofList (by decide)) _ fun l hl => hlines l (List.mem_of_mem_filter hl)

theorem Duplicates.oneLine_exactClones (o : Outcome) : AllOneLine (exactClones o) := by
  unfold exactClones
  split
  · dsimp only
    split
    · exact .nil
    · exact .singleton (.plain (Text.oneLine_counted (by decide) _ (by decide)))
  · exact .nil

theorem Duplicates.oneLine_clones {scope : String} (hscope : OneLine scope) (reportClean : Bool)
    (o : Outcome) : AllOneLine (clones scope reportClean o) := by
  unfold clones
  dsimp only
  split
  · refine .singleton (.plain ?_)
    exact .between (Text.oneLine_toString _) (.ofList (by decide)) hscope
  · split
    · exact .singleton (.plain (.append (.ofList (by decide)) hscope))
    · exact .nil

theorem Build.oneLine_compile {language : String} (hlanguage : OneLine language) (o : Outcome) :
    AllOneLine (compile language o) := by
  unfold compile
  split
  · refine .singleton ⟨hlanguage.append (.ofList (by decide)), fun d hd => ?_⟩
    obtain ⟨l, hl, rfl⟩ := Option.map_eq_some_iff.mp hd
    exact Text.oneLine_of_infix_line (List.mem_of_find?_eq_some hl)
      (Text.infix_of_take_trim excerptLength l)
  · exact .singleton (.plain (hlanguage.append (.ofList (by decide))))

theorem Build.oneLine_tests {language : String} (hlanguage : OneLine language) (o : Outcome) :
    AllOneLine (tests language o) := by
  unfold tests
  split
  · exact .singleton (.plain (hlanguage.append (.ofList (by decide))))
  · exact .singleton (.plain (hlanguage.append (.ofList (by decide))))

theorem Imports.oneLine_circular (o : Outcome) : AllOneLine (circular o) := by
  unfold circular
  split
  · exact .singleton (.plain (.ofList (by decide)))
  · exact .singleton (.plain (.ofList (by decide)))

theorem Imports.oneLine_unusedExports (o : Outcome) : AllOneLine (unusedExports o) := by
  unfold unusedExports
  dsimp only
  split
  · exact .singleton (.plain (Text.oneLine_counted (by decide) _ (by decide)))
  · exact .nil

/-! ### The check of a JSON file -/

theorem Json.oneLine_message (r : Json.Reason) : OneLine r.message := by
  cases r <;> exact .ofList (by decide)

theorem Json.oneLine_findings {name : String} (hname : OneLine name) (content : Bytes) :
    AllOneLine (findings name content) := by
  unfold findings
  split
  · exact .nil
  · rename_i fault _
    have hreason := oneLine_message fault.reason
    have hline := Text.oneLine_toString (fault.line content)
    refine .singleton (.plain ?_)
    exact .between (hname.between (.ofList (by decide)) hreason) (.ofList (by decide)) hline

/-- A JSON file is told by its name, which is a piece of the edited path, whatever the root is. -/
theorem Json.oneLine_fileFindings {root path : String} (hpath : OneLine path)
    (hkind : FileKind.ofPath path = .json) (content : Option Bytes) :
    AllOneLine (fileFindings (Path.join root path) content) := by
  cases content with
  | none => exact .nil
  | some bytes =>
    rw [fileFindings_join hkind]
    exact oneLine_findings (hpath.of_infix (Path.displayName_infix path)) bytes

/-! ### Checks and steps -/

/-- The names that a check puts into its messages as they are. -/
def Check.names : Check → List String
  | fastLint tool => [tool]
  | cloneCount scope _ => [scope]
  | compile language => [language]
  | tests language => [language]
  | _ => []

/-- **What a check finds is of one line if its names are**, whatever the tool prints. -/
theorem Check.oneLine_findings {k : Check} (h : ∀ n ∈ k.names, OneLine n)
    (modified : Option (List String)) (o : Outcome) : AllOneLine (k.findings modified o) := by
  cases k with
  | fastLint tool => exact Lint.oneLine_diagnostics (h tool List.mem_cons_self) o
  | lintSummary => exact Lint.oneLine_summary o
  | lintFix => exact Lint.oneLine_remaining o
  | typeCheck lookup reportClean =>
    rw [findings]
    split
    · exact .singleton (.plain (.ofList (by decide)))
    · exact Types.oneLine_errors modified o
  | exactClones => exact Duplicates.oneLine_exactClones o
  | cloneCount scope reportClean =>
    exact Duplicates.oneLine_clones (h scope List.mem_cons_self) reportClean o
  | compile language => exact Build.oneLine_compile (h language List.mem_cons_self) o
  | tests language => exact Build.oneLine_tests (h language List.mem_cons_self) o
  | circular => exact Imports.oneLine_circular o
  | unusedExports => exact Imports.oneLine_unusedExports o

/-- The texts that a step puts into its messages as they are. -/
def Action.names : Action → List String
  | format note => note.toList
  | check k => k.names

namespace Execution

variable {e : Execution σ}

theorem Does.oneLine {p : Step} {s : σ} {t : Trace σ} (h : e.Does p s t)
    (hnames : ∀ n ∈ p.action.names, OneLine n) : AllOneLine t.findings := by
  cases h with
  | closed _ => exact .nil
  | unformatted _ _ => exact .nil
  | @formatted note o _ _ haction _ _ =>
    rw [haction] at hnames
    dsimp only
    split
    · intro f hf
      obtain ⟨n, hn, rfl⟩ := List.mem_map.mp hf
      exact .plain (hnames n hn)
    · exact .nil
  | checked _ haction _ _ =>
    rw [haction] at hnames
    exact Check.oneLine_findings hnames _ _
  | @narrowed c clean _ _ _ _ _ haction _ _ =>
    rw [haction] at hnames
    exact Check.oneLine_findings (k := .typeCheck c clean) hnames _ _

/-- So is what a run finds. -/
theorem oneLine_run {ps : List Step} (h : ∀ p ∈ ps, ∀ n ∈ p.action.names, OneLine n) (s : σ) :
    AllOneLine (e.run ps s).findings := by
  induction ps generalizing s with
  | nil => exact .nil
  | cons p ps ih =>
    have hhead := (e.does_step p s).oneLine (h p List.mem_cons_self)
    exact hhead.append (ih (fun q hq => h q (List.mem_cons_of_mem p hq)) _)

end Execution

/-! ### Verdicts of the hooks -/

namespace Config

variable {c : Config}

/-- Of the names in a pipeline only that of the fast linter is not fixed. -/
theorem oneLine_of_mem_pathSteps (htool : OneLine c.fastLintTool) {mode : Mode} {path : String}
    {p : Step} (hp : p ∈ c.pathSteps mode path) : ∀ n ∈ p.action.names, OneLine n := by
  have hnotes : OneLine "Formatted with Prettier" ∧ OneLine "Formatted Solidity" ∧
      OneLine "Formatted Cairo" :=
    ⟨.ofList (by decide), .ofList (by decide), .ofList (by decide)⟩
  have hscopes : OneLine "components" ∧ OneLine "contracts" :=
    ⟨.ofList (by decide), .ofList (by decide)⟩
  have hlanguages : OneLine "Solidity" ∧ OneLine "Cairo" :=
    ⟨.ofList (by decide), .ofList (by decide)⟩
  revert p
  unfold pathSteps
  cases mode <;> cases FileKind.ofPath path <;>
    simp [editPipeline, checkStep, formatStep, Step.gated, Action.names, Check.names, htool,
      hnotes, hscopes, hlanguages]

theorem oneLine_of_mem_completionPipeline {p : Step} (hp : p ∈ c.completionPipeline) :
    ∀ n ∈ p.action.names, OneLine n := by
  revert p
  simp [completionPipeline, checkStep, Action.names, Check.names]

end Config

namespace Session

theorem oneLine_edit {x : Session σ} (htool : OneLine x.config.fastLintTool) {mode : Mode}
    {event : Event} (hpath : ∀ path, event.filePath = some path → OneLine path) {s : σ}
    {t : Trace σ} (h : x.edit mode event s = some t) : AllOneLine t.findings := by
  obtain ⟨path, hevent, ⟨-, hkind, rfl⟩ | rfl⟩ := edit_eq_some h
  · exact Json.oneLine_fileFindings (hpath path hevent) hkind _
  · exact Execution.oneLine_run (fun p hp => x.config.oneLine_of_mem_pathSteps htool hp) s

/-- **Every finding of every verdict is of one line** if the edited path and the name of the fast
linter are, whatever the runner says and the files hold. -/
theorem oneLine_of_answer {x : Session σ} (htool : OneLine x.config.fastLintTool)
    {hook : HookName} {event : Event} (hpath : ∀ path, event.filePath = some path → OneLine path)
    {s : σ} {t : Trace σ} (h : x.answer hook event s = some t) : AllOneLine t.findings := by
  cases hook with
  | fast => exact oneLine_edit htool hpath h
  | full => exact oneLine_edit htool hpath h
  | complete =>
    obtain rfl := Option.some.inj h
    exact Execution.oneLine_run (fun p hp => x.config.oneLine_of_mem_completionPipeline hp) s

end Session

end QualityGate
