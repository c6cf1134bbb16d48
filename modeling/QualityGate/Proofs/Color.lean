import QualityGate.Program
import QualityGate.Proofs.Report

/-! # Color is decoration

A styled text stands between a sequence that selects its style and one that turns all styles off.
A report is made of texts that are styled and texts that are not, the same ones with color and
without (`Report.blocking_eq_render`, `Report.commentary_eq_render`). So what holds of all texts
that are laid out like this holds of reports. Read piece by piece, the colored text is that of its
parts (`Report.pieces_render`). Without its sequences it is the plain one (`Report.strip_render`),
and where no styled text has a line feed in it, every style is reset in the line that it is opened
in (`Report.resetsInLine_render`).

`Report.color_is_decoration` says this of the reports and of the ends of the hooks. A styled header
of two lines is the exception to the second part (`Report.style_crosses_lines`). -/

namespace QualityGate

namespace Style

/-! ### Sequences in a text -/

/-- A piece of a text: a character, or a sequence that selects a style by a number. -/
inductive Piece where
  | char (c : Char)
  | select (digits : List Char)
  deriving DecidableEq, Repr

/-- The digits of the sequence that a text begins with: escape, `[`, digits, `m`. -/
def selectAt? : List Char → Option (List Char)
  | '\x1b' :: '[' :: s =>
    let digits := s.takeWhile Char.isDigit
    if digits ≠ [] ∧ (s.drop digits.length).head? = some 'm' then some digits else none
  | _ => none

/-- The pieces of a text; the first `skip` characters belong to a sequence that is already read. -/
def piecesFrom : (skip : Nat) → List Char → List Piece
  | _, [] => []
  | skip + 1, _ :: s => piecesFrom skip s
  | 0, c :: s =>
    match selectAt? (c :: s) with
    | some digits => .select digits :: piecesFrom (digits.length + 2) s
    | none => .char c :: piecesFrom 0 s

def pieces (s : List Char) : List Piece := piecesFrom 0 s

/-- The characters of a text without those of its sequences. -/
def chars : List Piece → List Char
  | [] => []
  | .char c :: ps => c :: chars ps
  | .select _ :: ps => chars ps

/-- The text without its sequences. -/
def strip (s : String) : String := String.ofList (chars (pieces s.toList))

/-- The next sequence turns all styles off, and stands in this line. -/
def resetAhead : List Piece → Bool
  | [] => false
  | .char c :: ps => c ≠ '\n' && resetAhead ps
  | .select digits :: _ => digits = ['0']

/-- Each style that is selected by these pieces is reset before the end of its line. -/
def areReset : List Piece → Bool
  | [] => true
  | .char _ :: ps => areReset ps
  | .select digits :: ps => (digits = ['0'] || resetAhead ps) && areReset ps

/-- Each style that is selected in the text is reset before the end of its line. -/
def ResetsInLine (s : String) : Prop := areReset (pieces s.toList) = true

instance : DecidablePred ResetsInLine := fun s =>
  inferInstanceAs (Decidable (areReset (pieces s.toList) = true))

/-- There is no escape character in the text. -/
def Unescaped (s : String) : Prop := '\x1b' ∉ s.toList

instance : DecidablePred Unescaped := fun s => inferInstanceAs (Decidable ('\x1b' ∉ s.toList))

/-! ### Pieces of styled texts -/

theorem selectAt?_of_ne {c : Char} (hc : c ≠ '\x1b') (s : List Char) :
    selectAt? (c :: s) = none := by
  unfold selectAt?
  split
  · rename_i heq
    exact absurd (List.cons.inj heq).1 hc
  · rfl

/-- A text without escape characters is read one by one. -/
theorem pieces_append {s : List Char} (h : '\x1b' ∉ s) (t : List Char) :
    pieces (s ++ t) = s.map .char ++ pieces t := by
  induction s with
  | nil => rfl
  | cons c s ih =>
    have hc : selectAt? (c :: (s ++ t)) = none :=
      selectAt?_of_ne (List.ne_of_not_mem_cons h).symm _
    rw [List.cons_append, pieces, piecesFrom, hc]
    show Piece.char c :: pieces (s ++ t) = _
    rw [ih (List.not_mem_of_not_mem_cons h)]
    rfl

theorem pieces_opening (style : Style) (t : List Char) :
    pieces (style.opening ++ t) = .select style.code :: pieces t := by
  cases style <;> rfl

theorem pieces_reset (t : List Char) : pieces (reset ++ t) = .select ['0'] :: pieces t := rfl

/-- Where no style is reset inside, none is opened again. -/
theorem reopen_of_notMem (style : Style) {s : List Char} (h : '\x1b' ∉ s) :
    style.reopen 0 s = s := by
  induction s with
  | nil => rfl
  | cons c s ih =>
    have hc : reset.isPrefixOf (c :: s) = false := by
      have hne : ('\x1b' == c) = false := beq_false_of_ne (List.ne_of_not_mem_cons h)
      rw [reset, List.isPrefixOf_cons_cons, hne]
      rfl
    rw [reopen, hc, if_neg Bool.false_ne_true, ih (List.not_mem_of_not_mem_cons h)]

theorem pieces_paint (style : Style) {text : String} (h : Unescaped text) (t : List Char) :
    pieces ((style.paint true text).toList ++ t) =
      .select style.code :: (text.toList.map .char ++ .select ['0'] :: pieces t) := by
  rw [paint, if_pos rfl, String.toList_ofList, reopen_of_notMem style h, List.append_assoc,
    List.append_assoc, pieces_opening, pieces_append h, pieces_reset]

theorem chars_append (s : List Char) (ps : List Piece) :
    chars (s.map .char ++ ps) = s ++ chars ps := by
  induction s with
  | nil => rfl
  | cons c s ih => exact congrArg (c :: ·) ih

/-! ### Styles that are reset -/

theorem areReset_char (s : List Char) (ps : List Piece) :
    areReset (s.map .char ++ ps) = areReset ps := by
  induction s with
  | nil => rfl
  | cons c s ih => exact ih

theorem resetAhead_char {s : List Char} (h : '\n' ∉ s) (ps : List Piece) :
    resetAhead (s.map .char ++ .select ['0'] :: ps) = true := by
  induction s with
  | nil => rfl
  | cons c s ih =>
    have hc : c ≠ '\n' := (List.ne_of_not_mem_cons h).symm
    show (decide (c ≠ '\n') && resetAhead (s.map .char ++ .select ['0'] :: ps)) = true
    rw [ih (List.not_mem_of_not_mem_cons h), decide_eq_true hc]
    rfl

end Style

namespace Report

open Style (ResetsInLine Unescaped strip)

/-! ### Layouts -/

/-- A text, with its style if it has one. -/
structure Segment where
  style : Option Style
  text : String
  deriving DecidableEq, Repr

def Segment.render (color : Bool) (g : Segment) : String :=
  match g.style with
  | none => g.text
  | some style => style.paint color g.text

def render (color : Bool) (gs : List Segment) : String :=
  String.join (gs.map (Segment.render color))

theorem toList_render (color : Bool) (gs : List Segment) :
    (render color gs).toList = gs.flatMap fun g => (g.render color).toList := by
  rw [render, String.toList_join, List.flatMap_map]

theorem Segment.render_false (g : Segment) : g.render false = g.text := by
  obtain ⟨style, text⟩ := g
  cases style <;> rfl

/-- The pieces of the segment with color. -/
def Segment.pieces (g : Segment) : List Style.Piece :=
  match g.style with
  | none => g.text.toList.map .char
  | some style => .select style.code :: (g.text.toList.map .char ++ [.select ['0']])

/-- If the segment is styled, it has no line feed. -/
def Segment.StyledInLine (g : Segment) : Prop := g.style ≠ none → '\n' ∉ g.text.toList

theorem Segment.pieces_render {g : Segment} (h : Unescaped g.text) (t : List Char) :
    Style.pieces ((g.render true).toList ++ t) = g.pieces ++ Style.pieces t := by
  obtain ⟨style, text⟩ := g
  cases style with
  | none => exact Style.pieces_append h t
  | some style =>
    show Style.pieces ((style.paint true text).toList ++ t) = _
    rw [Style.pieces_paint style h, pieces, List.cons_append, List.append_assoc]
    rfl

theorem Segment.chars_pieces (g : Segment) (ps : List Style.Piece) :
    Style.chars (g.pieces ++ ps) = g.text.toList ++ Style.chars ps := by
  obtain ⟨style, text⟩ := g
  cases style with
  | none => exact Style.chars_append text.toList ps
  | some style =>
    rw [pieces, List.cons_append, List.append_assoc, Style.chars, Style.chars_append]
    rfl

theorem Segment.areReset_pieces {g : Segment} (h : g.StyledInLine) (ps : List Style.Piece) :
    Style.areReset (g.pieces ++ ps) = Style.areReset ps := by
  obtain ⟨style, text⟩ := g
  cases style with
  | none => exact Style.areReset_char text.toList ps
  | some style =>
    have hahead := Style.resetAhead_char (h (Option.some_ne_none style)) ps
    rw [pieces, List.cons_append, List.append_assoc, List.singleton_append, Style.areReset,
      hahead, Bool.or_true, Bool.true_and, Style.areReset_char]
    rfl

variable {gs : List Segment}

/-- A layout without escape characters has the pieces of its segments. -/
theorem pieces_render (h : ∀ g ∈ gs, Unescaped g.text) :
    Style.pieces (render true gs).toList = gs.flatMap Segment.pieces := by
  rw [toList_render]
  induction gs with
  | nil => rfl
  | cons g gs ih =>
    have hrest := ih fun k hk => h k (List.mem_cons_of_mem g hk)
    rw [List.flatMap_cons, List.flatMap_cons, Segment.pieces_render (h g List.mem_cons_self), hrest]

theorem chars_flatMap_pieces (gs : List Segment) :
    Style.chars (gs.flatMap Segment.pieces) = (render false gs).toList := by
  rw [toList_render]
  induction gs with
  | nil => rfl
  | cons g gs ih =>
    rw [List.flatMap_cons, List.flatMap_cons, g.chars_pieces, ih, g.render_false]

theorem areReset_flatMap_pieces (h : ∀ g ∈ gs, g.StyledInLine) :
    Style.areReset (gs.flatMap Segment.pieces) = true := by
  induction gs with
  | nil => rfl
  | cons g gs ih =>
    rw [List.flatMap_cons, Segment.areReset_pieces (h g List.mem_cons_self)]
    exact ih fun k hk => h k (List.mem_cons_of_mem g hk)

/-- **Without its sequences, a colored text is the plain one.** -/
theorem strip_render (h : ∀ g ∈ gs, Unescaped g.text) :
    strip (render true gs) = render false gs := by
  rw [strip, pieces_render h, chars_flatMap_pieces, String.ofList_toList]

/-- **A style is reset in its line,** as long as no styled text has a line feed. -/
theorem resetsInLine_render (h : ∀ g ∈ gs, Unescaped g.text)
    (hlines : ∀ g ∈ gs, g.StyledInLine) : ResetsInLine (render true gs) := by
  rw [ResetsInLine, pieces_render h]
  exact areReset_flatMap_pieces hlines

@[simp]
theorem render_nil (color : Bool) : render color [] = "" := rfl

@[simp]
theorem render_cons (color : Bool) (g : Segment) (gs : List Segment) :
    render color (g :: gs) = g.render color ++ render color gs :=
  String.join_cons

@[simp]
theorem render_append (color : Bool) (gs hs : List Segment) :
    render color (gs ++ hs) = render color gs ++ render color hs := by
  rw [render, List.map_append, String.join_append]
  rfl

/-! ### The two layouts -/

def findingSegments (indent : String) (f : Finding) : List Segment :=
  let first : List Segment :=
    [⟨none, indent⟩, ⟨some f.severity.style, f.severity.marker⟩, ⟨none, " "⟩, ⟨none, f.message⟩,
      ⟨none, "\n"⟩]
  match f.detail with
  | none => first
  | some detail =>
    first ++ [⟨none, indent⟩, ⟨none, "   "⟩, ⟨some .dimmed, detail⟩, ⟨none, "\n"⟩]

def blockingSegments (header : String) (v : Verdict) : List Segment :=
  [⟨some .bold, header⟩, ⟨none, "\n"⟩] ++ v.findings.flatMap (findingSegments "  ")

def commentarySegments (name : String) (v : Verdict) : List Segment :=
  [⟨none, "🔧 Running full pipeline for "⟩, ⟨none, name⟩, ⟨none, "...\n"⟩] ++
    v.findings.flatMap (findingSegments "") ++
    [⟨none, "\n"⟩, ⟨some (summaryStyle v), summary v⟩, ⟨none, "\n"⟩]

theorem finding_eq_render (color : Bool) (indent : String) (f : Finding) :
    finding color indent f = render color (findingSegments indent f) := by
  rw [finding, findingSegments]
  cases f.detail with
  | none => simp [Segment.render, String.append_assoc]
  | some detail => simp [Segment.render, String.append_assoc]

theorem findings_eq_render (color : Bool) (indent : String) (v : Verdict) :
    findings color indent v = render color (v.findings.flatMap (findingSegments indent)) := by
  obtain ⟨fs⟩ := v
  rw [findings]
  induction fs with
  | nil => rfl
  | cons f fs ih =>
    rw [List.map_cons, String.join_cons, ih, finding_eq_render, List.flatMap_cons, render_append]

/-- With color or without, a blocking report is the same segments. -/
theorem blocking_eq_render (color : Bool) (header : String) (v : Verdict) :
    blocking color header v = render color (blockingSegments header v) := by
  rw [blocking, findings_eq_render, blockingSegments]
  simp [Segment.render, String.append_assoc]

/-- With color or without, a commentary is the same segments. -/
theorem commentary_eq_render (color : Bool) (name : String) (v : Verdict) :
    commentary color name v = render color (commentarySegments name v) := by
  have htext : commentary color name v = "🔧 Running full pipeline for " ++ name ++ "...\n" ++
      findings color "" v ++ "\n" ++ (summaryStyle v).paint color (summary v) ++ "\n" := rfl
  rw [htext, findings_eq_render, commentarySegments]
  simp only [render_append, render_cons, render_nil, Segment.render, String.append_assoc,
    String.append_empty]

end Report

/-! ### Texts without escape characters -/

open Style (ResetsInLine Unescaped strip)
open Finding (AllOneLine)

structure Finding.Unescaped (f : Finding) : Prop where
  message : Style.Unescaped f.message
  detail : ∀ d, f.detail = some d → Style.Unescaped d

def Verdict.Unescaped (v : Verdict) : Prop := ∀ f ∈ v.findings, f.Unescaped

def Verdict.DetailsInLine (v : Verdict) : Prop :=
  ∀ f ∈ v.findings, ∀ d, f.detail = some d → '\n' ∉ d.toList

namespace Style

theorem Unescaped.append {s t : String} (hs : Unescaped s) (ht : Unescaped t) :
    Unescaped (s ++ t) := by
  rw [Unescaped, String.toList_append, List.mem_append, not_or]
  exact ⟨hs, ht⟩

/-- A fixed text is told by its characters, without being decoded. -/
theorem Unescaped.ofList {l : List Char} (h : '\x1b' ∉ l) : Unescaped (String.ofList l) := by
  rwa [Unescaped, String.toList_ofList]

theorem unescaped_toString (n : Nat) : Unescaped (toString n) := by
  intro hmem
  exact absurd (Text.isDigit_of_mem_toString hmem) (by decide)

theorem unescaped_marker (v : Severity) : Unescaped v.marker := by
  cases v <;> decide

end Style

namespace Report

theorem unescaped_summary (v : Verdict) : Unescaped (summary v) := by
  have hcounted : ∀ {a b : List Char}, '\x1b' ∉ a → '\x1b' ∉ b → ∀ n : Nat,
      Unescaped (String.ofList a ++ toString n ++ String.ofList b) := fun ha hb n =>
    (Style.Unescaped.append (.ofList ha) (Style.unescaped_toString n)).append (.ofList hb)
  unfold summary
  split
  · exact hcounted (by decide) (by decide) _
  · split
    · exact hcounted (by decide) (by decide) _
    · exact .ofList (by decide)

/-- What holds of the texts of a finding holds of its segments. -/
theorem forall_mem_findingSegments {p : Segment → Prop} {indent : String} {f : Finding}
    (hplain : ∀ t ∈ [indent, " ", f.message, "\n", "   "], p ⟨none, t⟩)
    (hmarker : p ⟨some f.severity.style, f.severity.marker⟩)
    (hdetail : ∀ d, f.detail = some d → p ⟨some .dimmed, d⟩) :
    ∀ g ∈ findingSegments indent f, p g := by
  simp only [List.forall_mem_cons] at hplain
  obtain ⟨hindent, hblank, hmessage, hfeed, hblanks, -⟩ := hplain
  have hfirst : ∀ g ∈ [Segment.mk none indent, ⟨some f.severity.style, f.severity.marker⟩,
      ⟨none, " "⟩, ⟨none, f.message⟩, ⟨none, "\n"⟩], p g := by
    simp only [List.forall_mem_cons]
    exact ⟨hindent, hmarker, hblank, hmessage, hfeed, List.forall_mem_nil _⟩
  rw [findingSegments]
  cases hd : f.detail with
  | none => exact hfirst
  | some detail =>
    refine List.forall_mem_append.mpr ⟨hfirst, ?_⟩
    simp only [List.forall_mem_cons]
    exact ⟨hindent, hblanks, hdetail detail hd, hfeed, List.forall_mem_nil _⟩

theorem unescaped_findings {indent : String} (hindent : Unescaped indent) {v : Verdict}
    (hv : v.Unescaped) :
    ∀ g ∈ v.findings.flatMap (findingSegments indent), Unescaped g.text := by
  intro g hg
  obtain ⟨f, hf, hg⟩ := List.mem_flatMap.mp hg
  refine forall_mem_findingSegments (p := fun g => Unescaped g.text) ?_
    (Style.unescaped_marker _) (hv f hf).detail g hg
  simp only [List.forall_mem_cons]
  exact ⟨hindent, by decide, (hv f hf).message, by decide, by decide, List.forall_mem_nil _⟩

theorem unescaped_blockingSegments {header : String} (hheader : Unescaped header) {v : Verdict}
    (hv : v.Unescaped) : ∀ g ∈ blockingSegments header v, Unescaped g.text := by
  refine List.forall_mem_append.mpr ⟨?_, unescaped_findings (by decide) hv⟩
  simp only [List.forall_mem_cons]
  exact ⟨hheader, by decide, List.forall_mem_nil _⟩

theorem unescaped_commentarySegments {name : String} (hname : Unescaped name) {v : Verdict}
    (hv : v.Unescaped) : ∀ g ∈ commentarySegments name v, Unescaped g.text := by
  refine List.forall_mem_append.mpr
    ⟨List.forall_mem_append.mpr ⟨?_, unescaped_findings (by decide) hv⟩, ?_⟩
  · simp only [List.forall_mem_cons]
    exact ⟨.ofList (by decide), hname, by decide, List.forall_mem_nil _⟩
  · simp only [List.forall_mem_cons]
    exact ⟨by decide, unescaped_summary v, by decide, List.forall_mem_nil _⟩

/-! ### Styled texts of one line -/

theorem Segment.styledInLine_none (text : String) : StyledInLine ⟨none, text⟩ :=
  fun h => absurd rfl h

theorem styledInLine_findings {indent : String} {v : Verdict} (hv : v.DetailsInLine) :
    ∀ g ∈ v.findings.flatMap (findingSegments indent), g.StyledInLine := by
  intro g hg
  obtain ⟨f, hf, hg⟩ := List.mem_flatMap.mp hg
  exact forall_mem_findingSegments (fun t _ => Segment.styledInLine_none t)
    (fun _ => notMem_marker _) (fun d hd _ => hv f hf d hd) g hg

theorem styledInLine_blockingSegments {header : String} (hheader : '\n' ∉ header.toList)
    {v : Verdict} (hv : v.DetailsInLine) : ∀ g ∈ blockingSegments header v, g.StyledInLine := by
  refine List.forall_mem_append.mpr ⟨?_, styledInLine_findings hv⟩
  simp only [List.forall_mem_cons]
  exact ⟨fun _ => hheader, Segment.styledInLine_none _, List.forall_mem_nil _⟩

theorem styledInLine_commentarySegments (name : String) {v : Verdict} (hv : v.DetailsInLine) :
    ∀ g ∈ commentarySegments name v, g.StyledInLine := by
  refine List.forall_mem_append.mpr ⟨List.forall_mem_append.mpr ⟨?_, styledInLine_findings hv⟩, ?_⟩
  · simp only [List.forall_mem_cons]
    exact ⟨Segment.styledInLine_none _, Segment.styledInLine_none _, Segment.styledInLine_none _,
      List.forall_mem_nil _⟩
  · simp only [List.forall_mem_cons]
    exact ⟨Segment.styledInLine_none _, fun _ => oneLine_summary v, Segment.styledInLine_none _,
      List.forall_mem_nil _⟩

theorem decorated_blocking {header : String} (hheader : Unescaped header) {v : Verdict}
    (hv : v.Unescaped) :
    strip (blocking true header v) = blocking false header v ∧
      ('\n' ∉ header.toList → v.DetailsInLine → ResetsInLine (blocking true header v)) := by
  rw [blocking_eq_render, blocking_eq_render]
  have hsegments := unescaped_blockingSegments hheader hv
  exact ⟨strip_render hsegments, fun hline hdetails =>
    resetsInLine_render hsegments (styledInLine_blockingSegments hline hdetails)⟩

theorem decorated_commentary {name : String} (hname : Unescaped name) {v : Verdict}
    (hv : v.Unescaped) :
    strip (commentary true name v) = commentary false name v ∧
      (v.DetailsInLine → ResetsInLine (commentary true name v)) := by
  rw [commentary_eq_render, commentary_eq_render]
  have hsegments := unescaped_commentarySegments hname hv
  exact ⟨strip_render hsegments, fun hdetails =>
    resetsInLine_render hsegments (styledInLine_commentarySegments name hdetails)⟩

end Report

/-! ### The ends of the hooks -/

namespace Ending

/-- The ending with the sequences taken out of both streams. -/
def strip (e : Ending) : Ending := ⟨e.exit, Style.strip e.stdout, Style.strip e.stderr⟩

/-- In both streams each style is reset in its line. -/
structure ResetsInLine (e : Ending) : Prop where
  stdout : Style.ResetsInLine e.stdout
  stderr : Style.ResetsInLine e.stderr

/-- The colored ending differs from the plain one by sequences only, and under a condition its
styles are reset in their lines. -/
structure Decorates (colored plain : Ending) (condition : Prop) : Prop where
  strip_eq : colored.strip = plain
  resetsInLine : condition → colored.ResetsInLine

variable {condition : Prop}

theorem decorates_silent : silent.Decorates silent condition :=
  ⟨rfl, fun _ => ⟨rfl, rfl⟩⟩

theorem decorates_blocked {colored plain : String} (hstrip : Style.strip colored = plain)
    (hlines : condition → Style.ResetsInLine colored) :
    (blocked colored).Decorates (blocked plain) condition where
  strip_eq := congrArg blocked hstrip
  resetsInLine h := ⟨rfl, hlines h⟩

end Ending

namespace Hook

theorem unescaped_displayName {path : String} (h : Unescaped path) :
    Unescaped (Path.displayName path) :=
  fun hmem => h ((Path.displayName_infix path).subset hmem)

theorem decorates_endFast {path : String} (hpath : Unescaped path) {v : Option Verdict}
    (hv : ∀ w ∈ v, w.Unescaped) :
    (endFast true path v).Decorates (endFast false path v)
      ('\n' ∉ (Path.displayName path).toList ∧ ∀ w ∈ v, w.DetailsInLine) := by
  cases v with
  | none => exact Ending.decorates_silent
  | some v =>
    have hheader : Unescaped (Report.editHeader (Path.displayName path)) :=
      (Style.Unescaped.append (by decide) (unescaped_displayName hpath)).append (by decide)
    have hreport := Report.decorated_blocking hheader (hv v rfl)
    rw [endFast, endFast]
    split
    · refine Ending.decorates_blocked hreport.1 fun h => hreport.2 ?_ (h.2 v rfl)
      exact (Text.OneLine.ofList (by decide)).between h.1 (.ofList (by decide))
    · exact Ending.decorates_silent

theorem decorates_endFull {path : String} (hpath : Unescaped path) {v : Option Verdict}
    (hv : ∀ w ∈ v, w.Unescaped) :
    (endFull true path v).Decorates (endFull false path v) (∀ w ∈ v, w.DetailsInLine) := by
  cases v with
  | none => exact Ending.decorates_silent
  | some v =>
    obtain ⟨hstrip, hlines⟩ := Report.decorated_commentary (unescaped_displayName hpath) (hv v rfl)
    refine ⟨?_, fun h => ⟨hlines (h v rfl), rfl⟩⟩
    rw [endFull, Ending.strip, hstrip]
    rfl

theorem decorates_endComplete {v : Verdict} (hv : v.Unescaped) :
    (endComplete true v).Decorates (endComplete false v) v.DetailsInLine := by
  have hheader : Unescaped Report.completionHeader := .ofList (by decide)
  have hline : Text.OneLine Report.completionHeader := .ofList (by decide)
  have hreport := Report.decorated_blocking hheader hv
  rw [endComplete, endComplete]
  split
  · exact Ending.decorates_blocked hreport.1 (hreport.2 hline)
  · exact Ending.decorates_silent

end Hook

/-! ### Runs -/

variable {σ : Type}

/-- The two runs took the same course; only what they printed may differ. -/
structure Run.SameCourse (r r' : Run σ) : Prop where
  exit : r.ending.exit = r'.ending.exit
  calls : r.calls = r'.calls
  state : r.state = r'.state

namespace Surroundings

theorem exit_finish (i : Invocation) (color : Bool) (mode : Mode) (path : String)
    (v : Option Verdict) :
    (finish { i with color } mode path v).exit = (finish i mode path v).exit := by
  cases mode with
  | fast =>
    cases v with
    | none => rfl
    | some v =>
      show (Hook.endFast color path (some v)).exit = (Hook.endFast i.color path (some v)).exit
      rw [Hook.endFast, Hook.endFast]
      split <;> rfl
  | full => cases v <;> rfl

theorem runEdit_color (x : Surroundings σ) (i : Invocation) (color : Bool) (mode : Mode) (s : σ) :
    (x.runEdit { i with color } mode s).SameCourse (x.runEdit i mode s) := by
  have hsession : x.session { i with color } = x.session i := rfl
  rw [runEdit, runEdit, hsession]
  cases (Event.ofBytes x.stdin).filePath with
  | none => exact ⟨rfl, rfl, rfl⟩
  | some path =>
    dsimp only
    split
    · split
      · exact ⟨rfl, rfl, rfl⟩
      · split
        · exact ⟨exit_finish i color mode path _, rfl, rfl⟩
        · exact ⟨exit_finish i color mode path _, rfl, rfl⟩
    · exact ⟨rfl, rfl, rfl⟩

theorem runComplete_color (x : Surroundings σ) (i : Invocation) (color : Bool) (s : σ) :
    (x.runComplete { i with color } s).SameCourse (x.runComplete i s) := by
  have hsession : x.session { i with color } = x.session i := rfl
  have hexit : ∀ v, (Hook.endComplete color v).exit = (Hook.endComplete i.color v).exit := by
    intro v
    rw [Hook.endComplete, Hook.endComplete]
    split <;> rfl
  rw [runComplete, runComplete, hsession]
  cases x.session i with
  | error e => exact ⟨rfl, rfl, rfl⟩
  | ok session => exact ⟨hexit _, rfl, rfl⟩

/-- The flag for color reaches neither the exit code nor the calls nor the state. -/
theorem runHook_color (x : Surroundings σ) (i : Invocation) (color : Bool) (s : σ) :
    (x.runHook { i with color } s).SameCourse (x.runHook i s) := by
  rw [runHook, runHook]
  dsimp only
  split
  · exact x.runEdit_color i color .fast s
  · exact x.runEdit_color i color .full s
  · exact x.runComplete_color i color s

end Surroundings

namespace Report

/-- **Color is decoration.** Where no escape character is in what is reported, the colored report is
the plain one with sequences in it that select styles, and each style is reset before its line ends
if no detail has a line feed, nor the header, or the name that makes the header. So it is with the
ends of the hooks, which have the same exit code. Whatever is reported, a run with color makes the
calls that it makes without, and ends in the same state with the same exit code. -/
theorem color_is_decoration :
    (∀ (header : String) (v : Verdict), Unescaped header → v.Unescaped →
      strip (blocking true header v) = blocking false header v ∧
        ('\n' ∉ header.toList → v.DetailsInLine → ResetsInLine (blocking true header v))) ∧
    (∀ (name : String) (v : Verdict), Unescaped name → v.Unescaped →
      strip (commentary true name v) = commentary false name v ∧
        (v.DetailsInLine → ResetsInLine (commentary true name v))) ∧
    (∀ (path : String) (v : Option Verdict), Unescaped path → (∀ w ∈ v, w.Unescaped) →
      (Hook.endFast true path v).Decorates (Hook.endFast false path v)
        ('\n' ∉ (Path.displayName path).toList ∧ ∀ w ∈ v, w.DetailsInLine) ∧
      (Hook.endFull true path v).Decorates (Hook.endFull false path v)
        (∀ w ∈ v, w.DetailsInLine)) ∧
    (∀ v : Verdict, v.Unescaped →
      (Hook.endComplete true v).Decorates (Hook.endComplete false v) v.DetailsInLine) ∧
    ∀ {σ : Type} (x : Surroundings σ) (i : Invocation) (color : Bool) (s : σ),
      (x.runHook { i with color } s).SameCourse (x.runHook i s) := by
  refine ⟨?_, ?_, ?_, ?_, ?_⟩
  · intro header v hheader hv
    exact decorated_blocking hheader hv
  · intro name v hname hv
    exact decorated_commentary hname hv
  · intro path v hpath hv
    exact ⟨Hook.decorates_endFast hpath hv, Hook.decorates_endFull hpath hv⟩
  · intro v hv
    exact Hook.decorates_endComplete hv
  · intro σ x i color s
    exact x.runHook_color i color s

def oneError : Verdict := ⟨[⟨.types, .error, "TypeScript: 1 error(s)", some "a.ts(1,1): error"⟩]⟩

theorem unescaped_oneError : oneError.Unescaped := by
  intro f hf
  obtain rfl := List.mem_singleton.mp hf
  exact ⟨by decide, fun d hd => Option.some.inj hd ▸ by decide⟩

theorem allOneLine_oneError : AllOneLine oneError.findings := by
  intro f hf
  obtain rfl := List.mem_singleton.mp hf
  exact ⟨.ofList (by decide), fun d hd => Option.some.inj hd ▸ .ofList (by decide)⟩

theorem color_is_decoration_error :
    Unescaped "a.ts" ∧ oneError.Unescaped ∧ oneError.DetailsInLine ∧
      Hook.endFast true "a.ts" (some oneError) ≠ Hook.endFast false "a.ts" (some oneError) ∧
      (Hook.endFast true "a.ts" (some oneError)).strip =
        Hook.endFast false "a.ts" (some oneError) ∧
      (Hook.endFast true "a.ts" (some oneError)).ResetsInLine := by
  have hpath : Unescaped "a.ts" := by decide
  have hdetails : oneError.DetailsInLine := fun f hf => (allOneLine_oneError f hf).detail
  have hname : '\n' ∉ (Path.displayName "a.ts").toList := by decide +kernel
  have hv : ∀ w ∈ some oneError, w.Unescaped := fun w hw =>
    Option.some.inj hw ▸ unescaped_oneError
  obtain ⟨hstrip, hlines⟩ := (color_is_decoration.2.2.1 "a.ts" (some oneError) hpath hv).1
  exact ⟨hpath, unescaped_oneError, hdetails, by decide +kernel, hstrip,
    hlines ⟨hname, fun w hw => Option.some.inj hw ▸ hdetails⟩⟩

/-- The header is styled as a whole, so a file name of two lines takes the style across them. -/
theorem style_crosses_lines :
    ¬ ∀ (path : String) (v : Verdict), Unescaped path → v.Unescaped → AllOneLine v.findings →
      ResetsInLine (Hook.endFast true path (some v)).stderr := by
  intro h
  have hpath : Unescaped "a\nb.ts" := by decide
  have hlines := h "a\nb.ts" oneError hpath unescaped_oneError allOneLine_oneError
  exact absurd hlines (by decide +kernel)

end Report

end QualityGate
