import QualityGate.Finding

/-! # Reports

Two layouts. The blocking report is a header and every finding under it. The commentary is the log of
a full run, one marked line per finding, closed by a summary. With color, markers, details, headers
and the summary are styled; without, the text is the same but for the styles. -/

namespace QualityGate

/-! ### Styles -/

inductive Style where
  | bold
  | dimmed
  | red
  | green
  | yellow
  deriving DecidableEq, Repr

namespace Style

def code : Style → List Char
  | .bold => ['1']
  | .dimmed => ['2']
  | .red => ['3', '1']
  | .green => ['3', '2']
  | .yellow => ['3', '3']

def opening (s : Style) : List Char := '\x1b' :: '[' :: (s.code ++ ['m'])

/-- The sequence that turns every style off. -/
def reset : List Char := ['\x1b', '[', '0', 'm']

/-- The text with the opening sequence after each reset in it, so that the style goes on; the first
`skip` characters belong to a reset that is already seen. -/
def reopen (s : Style) : (skip : Nat) → List Char → List Char
  | _, [] => []
  | 0, c :: t => if reset.isPrefixOf (c :: t) then c :: reopen s 3 t else c :: reopen s 0 t
  | 1, c :: t => c :: (s.opening ++ reopen s 0 t)
  | skip + 2, c :: t => c :: reopen s (skip + 1) t

/-- The styled text; without color, the text. -/
def paint (s : Style) (color : Bool) (text : String) : String :=
  if color then String.ofList (s.opening ++ (reopen s 0 text.toList ++ reset)) else text

end Style

def Severity.style : Severity → Style
  | .error => .red
  | .warning => .yellow
  | .info => .green

/-! ### Layouts -/

namespace Report

def editHeader (name : String) : String := s!"⚠️ {name}:"

def completionHeader : String := "🔎 Quality check found issues (fix before completing):"

/-- The lines of one finding, each ended by a line feed. -/
def finding (color : Bool) (indent : String) (f : Finding) : String :=
  let first := indent ++ f.severity.style.paint color f.severity.marker ++ " " ++ f.message ++ "\n"
  match f.detail with
  | none => first
  | some detail => first ++ (indent ++ "   " ++ Style.dimmed.paint color detail ++ "\n")

def findings (color : Bool) (indent : String) (v : Verdict) : String :=
  String.join (v.findings.map (finding color indent))

/-- The blocking report: the header, then every finding indented. -/
def blocking (color : Bool) (header : String) (v : Verdict) : String :=
  Style.bold.paint color header ++ "\n" ++ findings color "  " v

def summary (v : Verdict) : String :=
  if 0 < v.count .error then s!"🚨 {v.count .error} error(s) need manual fixing"
  else if 0 < v.count .warning then s!"⚡ All good, {v.count .warning} warning(s) to consider"
  else "✅ All checks passed!"

def summaryStyle (v : Verdict) : Style :=
  if 0 < v.count .error then .red else if 0 < v.count .warning then .yellow else .green

def commentary (color : Bool) (name : String) (v : Verdict) : String :=
  s!"🔧 Running full pipeline for {name}...\n" ++ findings color "" v ++ "\n" ++
    (summaryStyle v).paint color (summary v) ++ "\n"

end Report

end QualityGate
