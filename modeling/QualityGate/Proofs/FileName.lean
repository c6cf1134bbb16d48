import QualityGate.Hook
import QualityGate.Proofs.Check.Narrowing
import QualityGate.Proofs.Dispatch

/-! # File names

The file name of a path is the last part of it that names something. Said without cutting the path
up (`Path.IsFileName`), it is neither empty nor one of the two dotted names and has no slash in it,
it stands at the start of the path or behind a slash, and behind it stand only slashes and single
dots (`Path.Idle`). `Path.fileName?_eq_some_iff` says that this is the name that is found.

The name heads a report, decides the kind of the file, is told of a JSON file with a fault, and
narrows the type check. It is taken from the path as it was edited, from the path behind the root, or
from the line of a lookup. `Path.displayName_agrees` says that it is the same name everywhere. That
rests on two facts: what is shown for a path has the path's own file name
(`Path.fileName?_displayName`), and a file keeps its name in any directory (`Path.fileName?_join`). -/

namespace QualityGate

namespace Path

/-! ### Parts that name nothing -/

theorem components_of_notMem {s : List Char} (h : '/' ∉ s) :
    components s = if s = [] ∨ s = ['.'] then [] else [s] := by
  rw [components, Text.segments_of_notMem h]
  split
  · rename_i hidle
    rcases hidle with rfl | rfl <;> rfl
  · rename_i hnames
    rw [not_or] at hnames
    rw [List.filter_cons_of_pos (by simpa using hnames), List.filter_nil]

theorem named_of_mem_components {s p : List Char} (h : p ∈ components s) :
    p ≠ [] ∧ p ≠ ['.'] ∧ '/' ∉ p := by
  rw [components, List.mem_filter, decide_eq_true_eq] at h
  exact ⟨h.2.1, h.2.2, Text.notMem_of_mem_segments h.1⟩

/-- What may stand behind the last name of a path: slashes, each with at most a dot behind it. -/
inductive Idle : List Char → Prop
  | nil : Idle []
  | slash {s : List Char} (h : Idle s) : Idle ('/' :: s)
  | dot {s : List Char} (h : Idle s) : Idle ('/' :: '.' :: s)

theorem Idle.components_append {b : List Char} (h : Idle b) (s : List Char) :
    components (s ++ b) = components s := by
  induction h generalizing s with
  | nil => rw [List.append_nil]
  | @slash b _ ih =>
    have hb : components b = [] := ih []
    rw [components_append_cons, hb, List.append_nil]
  | @dot b _ ih =>
    have hdot : components ('.' :: b) = [] := ih ['.']
    rw [components_append_cons, hdot, List.append_nil]

/-- A part that names nothing may stand between a slash and what is idle. -/
theorem Idle.part {p b : List Char} (hp : '/' ∉ p) (hnil : components p = []) (hb : Idle b) :
    Idle ('/' :: (p ++ b)) := by
  rw [components_of_notMem hp, ite_eq_left_iff] at hnil
  by_cases hidle : p = [] ∨ p = ['.']
  · rcases hidle with rfl | rfl
    · exact hb.slash
    · exact hb.dot
  · exact absurd (hnil hidle) (List.cons_ne_nil p [])

theorem idle_of_components_eq_nil {s : List Char} (h : components s = []) : Idle ('/' :: s) := by
  induction s using Text.cut_induction '/' with
  | part p hp =>
    rw [← List.append_nil p]
    exact .part hp h .nil
  | cut p s hp ih =>
    rw [components_append_cons, List.append_eq_nil_iff] at h
    exact .part hp h.1 (ih h.2)

/-! ### The last name of a path -/

/-- Nothing or a slash stands before the part, and nothing that names anything behind it. -/
def StandsLast (p s : List Char) : Prop :=
  ∃ a b, s = a ++ (p ++ b) ∧ (a = [] ∨ ∃ d, a = d ++ ['/']) ∧ Idle b

theorem standsLast_append {b : List Char} (hb : Idle b) (p : List Char) : StandsLast p (p ++ b) :=
  ⟨[], b, rfl, .inl rfl, hb⟩

theorem standsLast_self (p : List Char) : StandsLast p p :=
  ⟨[], [], (List.append_nil p).symm, .inl rfl, .nil⟩

/-- What stands last does so behind any directory. -/
theorem StandsLast.behind {p s : List Char} (h : StandsLast p s) (d : List Char) :
    StandsLast p (d ++ '/' :: s) := by
  obtain ⟨a, b, rfl, ha, hb⟩ := h
  refine ⟨d ++ '/' :: a, b, by simp, .inr ?_, hb⟩
  rcases ha with rfl | ⟨e, rfl⟩
  · exact ⟨d, rfl⟩
  · exact ⟨d ++ '/' :: e, by simp⟩

theorem standsLast_of_getLast? {s p : List Char} (h : (components s).getLast? = some p) :
    StandsLast p s := by
  have hpart : ∀ {d : List Char}, '/' ∉ d → (components d).getLast? = some p → d = p := by
    intro d hd hlast
    rw [components_of_notMem hd] at hlast
    split at hlast
    · exact absurd hlast.symm (Option.some_ne_none p)
    · simpa using hlast
  induction s using Text.cut_induction '/' with
  | part d hd =>
    rw [hpart hd h]
    exact standsLast_self p
  | cut d s hd ih =>
    rw [components_append_cons] at h
    -- `d` is the last part only if all behind it is idle
    by_cases hs : components s = []
    · rw [hs, List.append_nil] at h
      rw [hpart hd h]
      exact standsLast_append (idle_of_components_eq_nil hs) p
    · rw [List.getLast?_append_of_ne_nil _ hs] at h
      exact (ih h).behind d

/-- A text that can name a file. -/
structure IsName (n : List Char) : Prop where
  ne_nil : n ≠ []
  ne_dot : n ≠ ['.']
  ne_dots : n ≠ ['.', '.']
  notMem : '/' ∉ n

theorem IsName.components_eq {n : List Char} (h : IsName n) : components n = [n] := by
  rw [components_of_notMem h.notMem, if_neg (not_or.mpr ⟨h.ne_nil, h.ne_dot⟩)]

structure IsFileName (n s : List Char) : Prop where
  name : IsName n
  last : StandsLast n s

theorem IsFileName.getLast?_components {n s : List Char} (h : IsFileName n s) :
    (components s).getLast? = some n := by
  obtain ⟨hn, a, b, rfl, ha, hb⟩ := h
  have hlast : components (n ++ b) = [n] := by
    rw [hb.components_append, hn.components_eq]
  rcases ha with rfl | ⟨d, rfl⟩
  · rw [List.nil_append, hlast, List.getLast?_singleton]
  · rw [List.append_assoc, List.singleton_append, components_append_cons, hlast,
      List.getLast?_concat]

/-- **The name that is found is the one that stands last.** -/
theorem fileName?_eq_some_iff {s n : String} :
    fileName? s = some n ↔ IsFileName n.toList s.toList := by
  constructor
  · intro h
    rw [fileName?] at h
    split at h
    · rename_i p hp
      split at h
      · exact absurd h.symm (Option.some_ne_none n)
      · rename_i hdots
        obtain ⟨hne, hdot, hslash⟩ := named_of_mem_components (List.mem_of_getLast? hp)
        rw [← Option.some.inj h, String.toList_ofList]
        exact ⟨⟨hne, hdot, hdots, hslash⟩, standsLast_of_getLast? hp⟩
    · exact absurd h.symm (Option.some_ne_none n)
  · intro h
    rw [fileName?, h.getLast?_components]
    dsimp only
    rw [if_neg h.name.ne_dots, String.ofList_toList]

example : fileName? "a//b.json/./" = some "b.json" := by decide

theorem fileName?_eq_none_iff {s : String} :
    fileName? s = none ↔ ∀ n, ¬ IsFileName n s.toList := by
  rw [Option.eq_none_iff_forall_ne_some]
  constructor
  · intro h n hn
    rw [← String.toList_ofList (l := n)] at hn
    exact h _ (fileName?_eq_some_iff.mpr hn)
  · intro h n hn
    exact h _ (fileName?_eq_some_iff.mp hn)

/-! ### The name that is shown -/

theorem displayName_of_fileName? {s n : String} (h : fileName? s = some n) : displayName s = n := by
  rw [displayName, h, Option.getD_some]

theorem displayName_of_no_fileName {s : String} (h : fileName? s = none) : displayName s = s := by
  rw [displayName, h, Option.getD_none]

/-- The file name is shown, or the whole path where there is none. -/
theorem displayName_cases (s : String) :
    IsFileName (displayName s).toList s.toList ∨
      displayName s = s ∧ ∀ n, ¬ IsFileName n s.toList := by
  cases h : fileName? s with
  | none => exact .inr ⟨displayName_of_no_fileName h, fileName?_eq_none_iff.mp h⟩
  | some n =>
    rw [displayName_of_fileName? h]
    exact .inl (fileName?_eq_some_iff.mp h)

theorem displayName_ne_empty {s : String} (h : s ≠ "") : displayName s ≠ "" := by
  rcases displayName_cases s with hname | ⟨hself, -⟩
  · intro hempty
    rw [hempty] at hname
    exact hname.name.ne_nil rfl
  · rwa [hself]

/-- **What is shown for a path has the path's own file name.** -/
theorem fileName?_displayName (s : String) : fileName? (displayName s) = fileName? s := by
  cases h : fileName? s with
  | none => rw [displayName_of_no_fileName h, h]
  | some n =>
    have hname : IsName n.toList := (fileName?_eq_some_iff.mp h).name
    rw [displayName_of_fileName? h]
    exact fileName?_eq_some_iff.mpr ⟨hname, standsLast_self n.toList⟩

theorem displayName_displayName (s : String) : displayName (displayName s) = displayName s := by
  cases h : fileName? s with
  | none => rw [displayName_of_no_fileName h, displayName_of_no_fileName h]
  | some n =>
    have hshown := displayName_of_fileName? h
    rw [← fileName?_displayName, hshown] at h
    rw [hshown, displayName_of_fileName? h]

end Path

/-! ### What the name decides -/

theorem FileKind.ofPath_congr {s t : String} (h : Path.fileName? s = Path.fileName? t) :
    ofPath s = ofPath t := by
  rw [ofPath, ofPath, Path.extension?, Path.extension?, h]

/-- A file that gets any check has a name. -/
theorem FileKind.exists_fileName {s : String} (h : ofPath s ≠ .other) :
    ∃ n, Path.fileName? s = some n := by
  rw [← Option.ne_none_iff_exists']
  intro hnone
  rw [ofPath, Path.extension?, hnone] at h
  exact h rfl

/-- A JSON file is told by the name that is shown for the edited path, whatever the root is. -/
theorem Json.fileFindings_join {path : String} (h : FileKind.ofPath path = .json) (root : String)
    (bytes : Bytes) :
    fileFindings (Path.join root path) (some bytes) = findings (Path.displayName path) bytes := by
  obtain ⟨n, hn⟩ := FileKind.exists_fileName (s := path) (by rw [h]; decide)
  rw [fileFindings, Path.displayName_of_fileName? hn,
    Path.displayName_of_fileName? (Path.fileName?_join hn root)]

/-- No lookup lists the empty name, which would stand in every line. -/
theorem Outcome.Lists.ne_empty {o : Outcome} {n : String} (h : o.Lists n) : n ≠ "" := by
  obtain ⟨l, -, hne, rfl⟩ := h
  refine Path.displayName_ne_empty ?_
  rwa [Ne, String.ofList_eq_empty_iff]

namespace Path

/-- **A file has one name wherever it is taken.** What is shown for a path is a piece of it that is
shown for itself and is not empty: the file name, or the whole path where there is none. The kind of
the file is that of the name, in any directory. The report on a JSON file with a fault has the same
name in its header and in its finding, whatever the root is. A name that a lookup lists is shown for
one of its lines. -/
theorem displayName_agrees :
    (∀ path : String, path ≠ "" →
      displayName path ≠ "" ∧
      (displayName path).toList <:+: path.toList ∧
      (IsFileName (displayName path).toList path.toList ∨
        displayName path = path ∧ ∀ n, ¬ IsFileName n path.toList) ∧
      displayName (displayName path) = displayName path ∧
      FileKind.ofPath path = FileKind.ofPath (displayName path) ∧
      (∀ dir n, fileName? path = some n →
        FileKind.ofPath (join dir path) = FileKind.ofPath path) ∧
      (FileKind.ofPath path = .json →
        (∀ root bytes, Json.fileFindings (join root path) (some bytes) =
          Json.findings (displayName path) bytes) ∧
        ∀ {σ : Type} (x : Session σ) (event : Event) (s : σ) {bytes : Bytes} {f : Json.Fault},
          event.filePath = some path → x.config.skips path = false →
          x.content s (join x.root path) = some bytes → Json.read bytes = .error f →
          ∀ color, Hook.endFast color path ((x.edit .fast event s).map Trace.verdict) =
            .blocked (Report.blocking color (Report.editHeader (displayName path)) ⟨[.error .json
              s!"{displayName path}: invalid JSON - {f.reason.message} at line {f.line bytes}"]⟩))) ∧
    ∀ (listed : Outcome) (names : List String), modifiedNames listed = some names →
      ∀ n ∈ names, n ≠ "" ∧ displayName n = n ∧
        ∃ l ∈ listed.lines, Text.trim l ≠ [] ∧
          n = displayName (String.ofList (Text.trim l)) := by
  refine ⟨fun path hne => ⟨displayName_ne_empty hne, displayName_infix path,
    displayName_cases path, displayName_displayName path,
    FileKind.ofPath_congr (fileName?_displayName path).symm, fun dir n hn => ?_,
    fun hkind => ⟨Json.fileFindings_join hkind, ?_⟩⟩, fun listed names hnames n hn => ?_⟩
  · refine FileKind.ofPath_congr ?_
    rw [hn, fileName?_join hn]
  · intro σ x event s bytes f hevent hskip hcontent hread color
    have hedit : x.edit .fast event s = some (x.checkJson path s) := by
      rw [x.edit_json hevent hkind, hskip, if_neg Bool.false_ne_true]
    rw [hedit, Option.map_some, Trace.verdict, Session.checkJson]
    dsimp only
    rw [hcontent, Json.fileFindings_join hkind, Json.findings, hread]
    rfl
  · have hlists : listed.Lists n := (mem_of_modifiedNames hnames n).mp hn
    refine ⟨hlists.ne_empty, ?_, hlists⟩
    obtain ⟨l, -, -, rfl⟩ := hlists
    exact displayName_displayName _

/-- A dot in front of the name starts no extension, and the directory's own is none of the file. -/
theorem displayName_agrees_hidden :
    let path := "./web.ts//.eslintrc.json"
    let x : Session Unit := ⟨"/repo", .default, .ofAnswers fun _ => ⟨true, ""⟩, true,
      fun _ _ => some (Bytes.ofString "\x7b\n")⟩
    let listed : Outcome := ⟨true, "web//Header.tsx/.\n\n..\n"⟩
    displayName path = ".eslintrc.json" ∧
      FileKind.ofPath ".eslintrc.json" = FileKind.ofPath path ∧
      Hook.endFast false path ((x.edit .fast (.forFile path) ()).map Trace.verdict) =
        .blocked (Report.blocking false (Report.editHeader ".eslintrc.json") ⟨[.error .json
          ".eslintrc.json: invalid JSON - EOF while parsing an object at line 2"]⟩) ∧
      modifiedNames listed = some ["Header.tsx", ".."] ∧ displayName ".." = ".." := by
  intro path x listed
  have hshown : displayName path = ".eslintrc.json" := by decide +kernel
  have hkind : FileKind.ofPath path = .json := by decide +kernel
  have hskip : x.config.skips path = false := by decide +kernel
  have hread : Json.read (Bytes.ofString "\x7b\n") = .error ⟨.endInObject, []⟩ := rfl
  have hnames : modifiedNames listed = some ["Header.tsx", ".."] := by decide +kernel
  obtain ⟨hpaths, hlisted⟩ := displayName_agrees
  obtain ⟨-, -, -, -, hofPath, -, hjson⟩ := hpaths path (by decide)
  have hreport := (hjson hkind).2 x (.forFile path) () rfl hskip rfl hread false
  rw [hshown] at hofPath hreport
  refine ⟨hshown, hofPath.symm, ?_, hnames, (hlisted listed _ hnames ".." (by simp)).2.1⟩
  rw [hreport]
  decide +kernel

end Path

end QualityGate
