import QualityGate.Proofs.OneLine
import QualityGate.Report

/-! # Reading a report back

Without color a report is made of lines: one that begins a finding, and one for its excerpt. The
first kind goes on with a marker where the second one goes on with a blank, so each line tells which
kind it is (`Line.read?_text`), whatever the message or the excerpt is. An excerpt belongs to the
line before it, so the lines tell the findings one by one (`readRows?_lines`).

`Report.loses_nothing` puts this together. As long as nothing that is reported has a line feed in
it, which holds of every verdict, all of a report but the categories can be read back. -/

namespace QualityGate.Report

open Text (OneLine)
open Finding (AllOneLine)

/-! ### Texts of several lines -/

/-- The lines, each with its line feed. -/
def unlines (ls : List (List Char)) : List Char := ls.flatMap (· ++ ['\n'])

@[simp]
theorem unlines_nil : unlines [] = [] := rfl

@[simp]
theorem unlines_cons (l : List Char) (ls : List (List Char)) :
    unlines (l :: ls) = l ++ '\n' :: unlines ls := by
  simp [unlines]

@[simp]
theorem unlines_append (ls ks : List (List Char)) :
    unlines (ls ++ ks) = unlines ls ++ unlines ks :=
  List.flatMap_append

/-- What stands in front of the line feeds of a text, one by one. -/
def readLines (s : List Char) : List (List Char) := (Text.segments '\n' s).dropLast

theorem readLines_unlines {ls : List (List Char)} (h : ∀ l ∈ ls, '\n' ∉ l) :
    readLines (unlines ls) = ls := by
  have hsegments : Text.segments '\n' (unlines ls) = ls ++ [[]] := by
    induction ls with
    | nil => rfl
    | cons l ls ih =>
      rw [unlines_cons, Text.segments_cut (h l List.mem_cons_self),
        ih fun k hk => h k (List.mem_cons_of_mem l hk)]
      rfl
  rw [readLines, hsegments, List.dropLast_concat]

/-- There are as many line feeds as there are lines. -/
theorem count_unlines {ls : List (List Char)} (h : ∀ l ∈ ls, '\n' ∉ l) :
    (unlines ls).count '\n' = ls.length := by
  induction ls with
  | nil => rfl
  | cons l ls ih =>
    rw [unlines_cons, List.count_append, List.count_eq_zero.mpr (h l List.mem_cons_self),
      List.count_cons_self, ih fun k hk => h k (List.mem_cons_of_mem l hk), List.length_cons]
    omega

/-! ### Lines -/

/-- What one line tells. -/
inductive Line where
  | first (severity : Severity) (message : String)
  | excerpt (detail : String)
  deriving DecidableEq, Repr

namespace Line

def text (indent : List Char) : Line → List Char
  | first v m => indent ++ (v.marker.toList ++ ' ' :: m.toList)
  | excerpt d => indent ++ ([' ', ' ', ' '] ++ d.toList)

def read? (indent s : List Char) : Option Line :=
  (s.dropPrefix? indent).bind fun s =>
    match s.dropPrefix? [' ', ' ', ' '] with
    | some d => some (excerpt (String.ofList d))
    | none => [Severity.error, .warning, .info].findSome? fun v =>
        (s.dropPrefix? (v.marker.toList ++ [' '])).map fun m => first v (String.ofList m)

theorem read?_text (indent : List Char) (l : Line) : read? indent (text indent l) = some l := by
  have hdrop (s : List Char) : (indent ++ s).dropPrefix? indent = some s :=
    List.dropPrefix?_append_of_beq s BEq.rfl
  cases l with
  | first v m =>
    rw [read?, text, hdrop, Option.bind_some]
    -- no marker starts with a blank, or like another marker
    cases v <;> simp [Severity.marker, List.dropPrefix?]
  | excerpt d =>
    rw [read?, text, hdrop, Option.bind_some, List.dropPrefix?_append_of_beq _ BEq.rfl]
    dsimp only
    rw [String.ofList_toList]

theorem mapM_read?_text (indent : List Char) (ls : List Line) :
    (ls.map (text indent)).mapM (read? indent) = some ls := by
  induction ls with
  | nil => rfl
  | cons l ls ih => simp [List.mapM_cons, read?_text, ih]

end Line

/-! ### Findings -/

/-- What a report tells of a finding: all but its category. -/
structure Row where
  severity : Severity
  message : String
  detail : Option String
  deriving DecidableEq, Repr

def row (f : Finding) : Row := ⟨f.severity, f.message, f.detail⟩

def Row.lines (r : Row) : List Line :=
  .first r.severity r.message :: r.detail.toList.map .excerpt

/-- The rows that lines tell. An excerpt without a line before it tells none. -/
def readRows? : List Line → Option (List Row)
  | [] => some []
  | .first v m :: .excerpt d :: ls => (readRows? ls).map (⟨v, m, some d⟩ :: ·)
  | .first v m :: ls => (readRows? ls).map (⟨v, m, none⟩ :: ·)
  | .excerpt _ :: _ => none

theorem readRows?_lines (rs : List Row) : readRows? (rs.flatMap Row.lines) = some rs := by
  induction rs with
  | nil => rfl
  | cons r rs ih =>
    obtain ⟨v, m, detail⟩ := r
    cases detail with
    | some d =>
      have hread : readRows? (.first v m :: .excerpt d :: rs.flatMap Row.lines) =
          (readRows? (rs.flatMap Row.lines)).map (⟨v, m, some d⟩ :: ·) := rfl
      rw [ih] at hread
      exact hread
    | none =>
      have hread : readRows? (.first v m :: rs.flatMap Row.lines) =
          (readRows? (rs.flatMap Row.lines)).map (⟨v, m, none⟩ :: ·) := by
        -- the next line is not an excerpt: it begins a finding, or there is none
        cases rs with
        | nil => rfl
        | cons r rs => rfl
      rw [ih] at hread
      exact hread

def rows (v : Verdict) : List Row := v.findings.map row

def lines (rs : List Row) : List Line := rs.flatMap Row.lines

/-- A finding takes a line, and its excerpt another one. -/
theorem length_lines_rows (v : Verdict) :
    (lines (rows v)).length = v.findings.length + (v.findings.filterMap Finding.detail).length := by
  obtain ⟨fs⟩ := v
  induction fs with
  | nil => rfl
  | cons f fs ih =>
    simp only [lines, rows, List.map_cons, List.flatMap_cons, List.length_append] at ih ⊢
    rw [ih]
    cases hdetail : f.detail with
    | none =>
      simp [row, Row.lines, hdetail]
      omega
    | some d =>
      simp [row, Row.lines, hdetail]
      omega

theorem toList_finding (indent : String) (f : Finding) :
    (finding false indent f).toList =
      unlines ((row f).lines.map (Line.text indent.toList)) := by
  rw [finding]
  cases hdetail : f.detail with
  | none => simp [row, Row.lines, hdetail, unlines, Line.text, Style.paint]
  | some d => simp [row, Row.lines, hdetail, unlines, Line.text, Style.paint]

theorem toList_findings (indent : String) (v : Verdict) :
    (findings false indent v).toList =
      unlines ((lines (rows v)).map (Line.text indent.toList)) := by
  obtain ⟨fs⟩ := v
  simp only [findings, String.toList_join, rows, lines]
  induction fs with
  | nil => rfl
  | cons f fs ih =>
    rw [List.map_cons, List.flatMap_cons, ih, toList_finding, List.map_cons, List.flatMap_cons,
      List.map_append, unlines_append]

theorem notMem_marker (v : Severity) : '\n' ∉ v.marker.toList := by
  cases v <;> decide

/-- No line of findings of one line has a line feed. -/
theorem notMem_of_mem_lines {indent : List Char} (hindent : '\n' ∉ indent) {v : Verdict}
    (hv : AllOneLine v.findings) {l : List Char}
    (hl : l ∈ (lines (rows v)).map (Line.text indent)) : '\n' ∉ l := by
  obtain ⟨k, hk, rfl⟩ := List.mem_map.mp hl
  obtain ⟨r, hr, hk⟩ := List.mem_flatMap.mp hk
  obtain ⟨f, hf, rfl⟩ := List.mem_map.mp hr
  obtain ⟨hmessage, hdetail⟩ := hv f hf
  rw [Row.lines, List.mem_cons, List.mem_map] at hk
  rcases hk with rfl | ⟨d, hd, rfl⟩
  · have hmarker := notMem_marker f.severity
    rw [OneLine] at hmessage
    simp [Line.text, row, hindent, hmarker, hmessage]
  · have hexcerpt : '\n' ∉ d.toList := hdetail d (by simpa [row] using hd)
    simp [Line.text, hindent, hexcerpt]

/-! ### The two layouts -/

variable {v : Verdict}

def blockingLines (header : String) (v : Verdict) : List (List Char) :=
  header.toList :: (lines (rows v)).map (Line.text [' ', ' '])

theorem toList_blocking (header : String) (v : Verdict) :
    (blocking false header v).toList = unlines (blockingLines header v) := by
  rw [blocking, String.toList_append, String.toList_append, toList_findings, blockingLines,
    unlines_cons, List.append_assoc]
  rfl

theorem notMem_of_mem_blockingLines {header : String} (hheader : OneLine header)
    (hv : AllOneLine v.findings) {l : List Char} (hl : l ∈ blockingLines header v) : '\n' ∉ l := by
  rcases List.mem_cons.mp hl with rfl | hl
  · exact hheader
  · exact notMem_of_mem_lines (by decide) hv hl

def readBlocking? (text : String) : Option (String × List Row) :=
  match readLines text.toList with
  | [] => none
  | h :: ls =>
    ((ls.mapM (Line.read? [' ', ' '])).bind readRows?).map fun rs => (String.ofList h, rs)

theorem readBlocking?_blocking {header : String} (hheader : OneLine header)
    (hv : AllOneLine v.findings) :
    readBlocking? (blocking false header v) = some (header, rows v) := by
  rw [readBlocking?, toList_blocking, readLines_unlines fun l hl =>
    notMem_of_mem_blockingLines hheader hv hl, blockingLines]
  dsimp only
  rw [Line.mapM_read?_text, Option.bind_some, lines, readRows?_lines, Option.map_some,
    String.ofList_toList]

/-- What stands before the name in a commentary. -/
def opening : List Char := "🔧 Running full pipeline for ".toList

def commentaryLines (name : String) (v : Verdict) : List (List Char) :=
  (opening ++ name.toList ++ ['.', '.', '.']) ::
    ((lines (rows v)).map (Line.text []) ++ [[], (summary v).toList])

theorem toList_commentary (name : String) (v : Verdict) :
    (commentary false name v).toList = unlines (commentaryLines name v) := by
  have htext : commentary false name v = "🔧 Running full pipeline for " ++ name ++ "...\n" ++
      findings false "" v ++ "\n" ++ summary v ++ "\n" := rfl
  have hopening : "🔧 Running full pipeline for ".toList = opening := rfl
  have hdots : "...\n".toList = ['.', '.', '.'] ++ ['\n'] := rfl
  have hfeed : "\n".toList = ['\n'] := rfl
  have hempty : "".toList = [] := rfl
  rw [htext]
  iterate 6 rw [String.toList_append]
  rw [hopening, hdots, hfeed, toList_findings, hempty, commentaryLines, unlines_cons,
    unlines_append, unlines_cons, unlines_cons, unlines_nil]
  simp only [List.append_assoc, List.cons_append, List.nil_append]

theorem oneLine_summary (v : Verdict) : OneLine (summary v) := by
  unfold summary
  split
  · exact Text.oneLine_counted (by decide) _ (by decide)
  · split
    · exact Text.oneLine_counted (by decide) _ (by decide)
    · exact .ofList (by decide)

theorem notMem_of_mem_commentaryLines {name : String} (hname : OneLine name)
    (hv : AllOneLine v.findings) {l : List Char} (hl : l ∈ commentaryLines name v) :
    '\n' ∉ l := by
  rw [commentaryLines, List.mem_cons, List.mem_append] at hl
  rcases hl with rfl | hl | hl
  · have hopening : '\n' ∉ opening := by decide +kernel
    rw [List.mem_append, List.mem_append, not_or, not_or]
    exact ⟨⟨hopening, hname⟩, by decide⟩
  · exact notMem_of_mem_lines List.not_mem_nil hv hl
  · rcases List.mem_cons.mp hl with rfl | hl
    · exact List.not_mem_nil
    · rw [List.mem_singleton.mp hl]
      exact oneLine_summary v

/-- The name in the first line of a commentary. -/
def readOpening? (l : List Char) : Option String :=
  (l.dropPrefix? opening).bind fun l =>
    (l.dropSuffix? ['.', '.', '.']).map String.ofList

theorem readOpening?_eq (name : String) :
    readOpening? (opening ++ name.toList ++ ['.', '.', '.']) = some name := by
  rw [readOpening?, List.append_assoc, List.dropPrefix?_append_of_beq _ BEq.rfl, Option.bind_some,
    List.dropSuffix?_eq_some_iff.mpr ⟨_, rfl, BEq.rfl⟩, Option.map_some, String.ofList_toList]

def readCommentary? (text : String) : Option (String × List Row × String) :=
  match readLines text.toList with
  | [] => none
  | h :: ls =>
    match ls.reverse with
    | summary :: [] :: back =>
      (readOpening? h).bind fun name =>
        ((back.reverse.mapM (Line.read? [])).bind readRows?).map fun rs =>
          (name, rs, String.ofList summary)
    | _ => none

theorem readCommentary?_commentary {name : String} (hname : OneLine name)
    (hv : AllOneLine v.findings) :
    readCommentary? (commentary false name v) = some (name, rows v, summary v) := by
  rw [readCommentary?, toList_commentary, readLines_unlines fun l hl =>
    notMem_of_mem_commentaryLines hname hv hl, commentaryLines]
  dsimp only
  have hreverse : ((lines (rows v)).map (Line.text []) ++ [[], (summary v).toList]).reverse =
      (summary v).toList :: [] :: ((lines (rows v)).map (Line.text [])).reverse := by
    rw [List.reverse_append]
    rfl
  rw [hreverse]
  dsimp only
  rw [readOpening?_eq, Option.bind_some, List.reverse_reverse, Line.mapM_read?_text,
    Option.bind_some, lines, readRows?_lines, Option.map_some, String.ofList_toList]

/-! ### What a report tells -/

/-- **A report without color loses nothing.** Where the edited path and the name of the fast linter
are of one line, so is every finding of every verdict. And where the findings and the header, or the
name, are of one line, the report tells the header, or the name and the summary, and each finding in
order, with its severity, its message and its excerpt. So two reports that differ in any of these
differ, and the findings and the excerpts alone decide how many lines there are. -/
theorem loses_nothing :
    (∀ {σ : Type} (x : Session σ) (hook : HookName) (event : Event) (s : σ) (t : Trace σ),
      (∀ path, event.filePath = some path → '\n' ∉ path.toList) →
      '\n' ∉ x.config.fastLintTool.toList → x.answer hook event s = some t →
      ∀ f ∈ t.verdict.findings, '\n' ∉ f.message.toList ∧
        ∀ d, f.detail = some d → '\n' ∉ d.toList) ∧
    (∀ (header : String) (v : Verdict), '\n' ∉ header.toList → AllOneLine v.findings →
      readBlocking? (blocking false header v) = some (header, rows v) ∧
      (blocking false header v).toList.count '\n' =
        1 + (v.findings.length + (v.findings.filterMap Finding.detail).length) ∧
      ∀ (header' : String) (w : Verdict), '\n' ∉ header'.toList → AllOneLine w.findings →
        blocking false header v = blocking false header' w → header = header' ∧ rows v = rows w) ∧
    ∀ (name : String) (v : Verdict), '\n' ∉ name.toList → AllOneLine v.findings →
      readCommentary? (commentary false name v) = some (name, rows v, summary v) ∧
      (commentary false name v).toList.count '\n' =
        3 + (v.findings.length + (v.findings.filterMap Finding.detail).length) ∧
      ∀ (name' : String) (w : Verdict), '\n' ∉ name'.toList → AllOneLine w.findings →
        commentary false name v = commentary false name' w →
          name = name' ∧ rows v = rows w ∧ summary v = summary w := by
  refine ⟨fun x hook event s t hpath htool h f hf => ?_, fun header v hheader hv => ⟨?_, ?_, ?_⟩,
    fun name v hname hv => ⟨?_, ?_, ?_⟩⟩
  · obtain ⟨hmessage, hdetail⟩ := Session.oneLine_of_answer htool hpath h f hf
    exact ⟨hmessage, hdetail⟩
  · exact readBlocking?_blocking hheader hv
  · rw [toList_blocking, count_unlines fun l hl => notMem_of_mem_blockingLines hheader hv hl,
      blockingLines, List.length_cons, List.length_map, length_lines_rows, Nat.add_comm]
  · intro header' w hheader' hw heq
    have hread := readBlocking?_blocking hheader hv
    rw [heq, readBlocking?_blocking hheader' hw, Option.some.injEq, Prod.mk.injEq] at hread
    exact ⟨hread.1.symm, hread.2.symm⟩
  · exact readCommentary?_commentary hname hv
  · rw [toList_commentary, count_unlines fun l hl => notMem_of_mem_commentaryLines hname hv hl,
      commentaryLines, List.length_cons, List.length_append, List.length_map, length_lines_rows]
    simp only [List.length_cons, List.length_nil]
    omega
  · intro name' w hname' hw heq
    have hread := readCommentary?_commentary hname hv
    rw [heq, readCommentary?_commentary hname' hw, Option.some.injEq, Prod.mk.injEq,
      Prod.mk.injEq] at hread
    exact ⟨hread.1.symm, hread.2.1.symm, hread.2.2.symm⟩

/-- An excerpt that looks like a finding is not read as one, and the linter's line of a page is told
as it is. -/
theorem loses_nothing_alike :
    let v : Verdict := ⟨[⟨.types, .error, "a", some "❌ b"⟩]⟩
    let w : Verdict := ⟨[⟨.types, .error, "a", none⟩, ⟨.types, .error, "b", none⟩]⟩
    let session : Session Unit :=
      ⟨"/repo", .default, .ofAnswers fun _ => ⟨false, "! a\r\n! b"⟩, true, fun _ _ => none⟩
    readBlocking? (blocking false "⚠️ page.tsx:" v) =
        some ("⚠️ page.tsx:", [⟨.error, "a", some "❌ b"⟩]) ∧
      blocking false "⚠️ page.tsx:" v ≠ blocking false "⚠️ page.tsx:" w ∧
      commentary false "page.tsx" v ≠ commentary false "page.tsx" w ∧
      ∀ t, session.answer .fast (.forFile "page.tsx") () = some t →
        ∀ f ∈ t.verdict.findings, '\n' ∉ f.message.toList := by
  intro v w session
  have hv : AllOneLine v.findings := by
    intro f hf
    obtain rfl := List.mem_singleton.mp hf
    exact ⟨.ofList (by decide), fun d hd => Option.some.inj hd ▸ .ofList (by decide)⟩
  have hw : AllOneLine w.findings := by
    intro f hf
    rcases List.mem_cons.mp hf with rfl | hf
    · exact .plain (.ofList (by decide))
    · obtain rfl := List.mem_singleton.mp hf
      exact .plain (.ofList (by decide))
  have hheader : OneLine "⚠️ page.tsx:" := .ofList (by decide)
  have hname : OneLine "page.tsx" := .ofList (by decide)
  have htool : OneLine session.config.fastLintTool := .ofList (by decide)
  have hrows : rows v ≠ rows w := by decide
  obtain ⟨hverdict, hblocking, hcommentary⟩ := loses_nothing
  obtain ⟨hread, -, hunique⟩ := hblocking _ v hheader hv
  refine ⟨hread, fun heq => ?_, fun heq => ?_, fun t ht f hf => ?_⟩
  · exact hrows (hunique _ w hheader hw heq).2
  · exact hrows ((hcommentary _ v hname hv).2.2 _ w hname hw heq).2.1
  · have hpath : ∀ path, (Event.forFile "page.tsx").filePath = some path → OneLine path := by
      intro path hpath
      exact Option.some.inj hpath ▸ hname
    exact (hverdict session .fast _ () t hpath htool ht f hf).1

end QualityGate.Report
