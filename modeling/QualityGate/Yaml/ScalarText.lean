import QualityGate.Yaml.Token

/-! # The text of YAML scalars

Reading the five styles of scalars. In the flow styles a line break is folded: alone it counts as a
space, and of several the first is dropped. In the block styles the indentation is taken off, and the
folded style joins neighbouring lines that are not indented further. -/

namespace QualityGate.Yaml

/-! ### Folded gaps -/

/-- The gap between two words of a flow scalar, as far as it is read. -/
structure Gap where
  blanks : List Char
  broken : Bool
  firstBreak : List Char
  laterBreaks : List Char

namespace Gap

def none : Gap := ⟨[], false, [], []⟩

/-- A gap that starts behind an escaped line break. -/
def escaped : Gap := ⟨[], true, [], []⟩

/-- What the gap counts for. -/
def text (g : Gap) : List Char :=
  if g.broken then
    if g.firstBreak = ['\n'] then
      if g.laterBreaks = [] then [' '] else g.laterBreaks
    else
      g.firstBreak ++ g.laterBreaks
  else
    g.blanks

/-- Reads on while gaps and line breaks follow. With an indentation given, a tab before it on a new
line is refused. -/
def read (indent : Option Int) : (fuel : Nat) → Gap → Cursor → Except Fault (Gap × Cursor)
  | 0, g, c => .ok (g, c)
  | fuel + 1, g, c =>
    match c.peek with
    | some d =>
      if isGap d then
        if g.broken ∧ d = '\t' ∧ indent.any (fun i => (c.mark.column : Int) < i) then
          c.fail .tabIndentation
        else
          read indent fuel (if g.broken then g else { g with blanks := g.blanks ++ [d] }) (c.skip 1)
      else if isBreak d then
        let (b, next) := c.readBreak
        if g.broken then
          read indent fuel { g with laterBreaks := g.laterBreaks ++ b } next
        else
          read indent fuel ⟨[], true, b, []⟩ next
      else
        .ok (g, c)
    | Option.none => .ok (g, c)

end Gap

/-! ### Plain scalars -/

/-- The number of characters of a plain word here. A colon right before an indicator of a flow
collection is refused inside one. -/
def plainWord? (flow : Bool) : List Char → Option Nat
  | [] => some 0
  | c :: s =>
    if isGap c || isBreak c then
      some 0
    else if flow && c = ':' && s.head?.any (",?[]\x7b\x7d".toList.contains ·) then
      none
    else if (c = ':' && endsWord s.head?) || (flow && ",[]\x7b\x7d".toList.contains c) then
      some 0
    else
      (plainWord? flow s).map (· + 1)

/-- A plain scalar as read: its text, its end, whether a line break follows it, and the place behind
the gap after it. -/
structure PlainScalar where
  text : List Char
  stop : Mark
  broken : Bool
  next : Cursor

/-- Reads on a plain scalar whose words have to stand at `indent` or further in. -/
def readPlain (flow : Bool) (indent : Int) :
    (fuel : Nat) → List Char → Mark → Gap → Cursor → Except Fault PlainScalar
  | 0, text, stop, g, c => .ok ⟨text, stop, g.broken, c⟩
  | fuel + 1, text, stop, g, c =>
    if c.atDocumentIndicator || c.peek = some '#' then
      .ok ⟨text, stop, g.broken, c⟩
    else
      match plainWord? flow c.rest with
      | none => c.fail .colonInFlow
      | some n => do
        let word := c.rest.take n
        let next := c.skip n
        let text := if n = 0 then text else text ++ g.text ++ word
        let stop := if n = 0 then stop else next.mark
        let g := if n = 0 then g else .none
        if next.peek.any (fun d => isGap d || isBreak d) then
          let (g, next) ← g.read (some indent) (next.rest.length + 1) next
          if !flow && (next.mark.column : Int) < indent then
            .ok ⟨text, stop, g.broken, next⟩
          else
            readPlain flow indent fuel text stop g next
        else
          .ok ⟨text, stop, g.broken, next⟩

/-! ### Quoted scalars -/

def hexValue? (digits : List Char) : Option Nat :=
  digits.foldl (fun n d => do
    let n ← n
    if d.isDigit then some (16 * n + (d.toNat - '0'.toNat))
    else if 'a' ≤ d ∧ d ≤ 'f' then some (16 * n + (d.toNat - 'a'.toNat + 10))
    else if 'A' ≤ d ∧ d ≤ 'F' then some (16 * n + (d.toNat - 'A'.toNat + 10))
    else none) (some 0)

def shortEscape? : Char → Option Char
  | '0' => some '\x00'
  | 'a' => some '\x07'
  | 'b' => some '\x08'
  | 't' | '\t' => some '\t'
  | 'n' => some '\n'
  | 'v' => some '\x0b'
  | 'f' => some '\x0c'
  | 'r' => some '\r'
  | 'e' => some '\x1b'
  | ' ' => some ' '
  | '"' => some '"'
  | '/' => some '/'
  | '\\' => some '\\'
  | 'N' => some '\x85'
  | '_' => some '\xa0'
  | 'L' => some '\u2028'
  | 'P' => some '\u2029'
  | _ => none

/-- The escape behind a backslash: its character and its length without the backslash. -/
def escape? : List Char → Option (Char × Nat)
  | [] => none
  | e :: s =>
    match shortEscape? e with
    | some c => some (c, 1)
    | none => do
      let n ← match e with
        | 'x' => some 2
        | 'u' => some 4
        | 'U' => some 8
        | _ => none
      let digits := s.take n
      if digits.length = n then
        let v ← hexValue? digits
        if v.isValidChar then some (Char.ofNat v, n + 1) else none
      else
        none

/-- Reads the characters of a quoted scalar up to the next gap, line break or closing quote. The gap
is the one to go on with, open already when an escaped line break ended the word. -/
def readQuotedWord (single : Bool) :
    (fuel : Nat) → List Char → Cursor → Except Fault (List Char × Gap × Cursor)
  | 0, text, c => .ok (text, .none, c)
  | fuel + 1, text, c =>
    match c.rest with
    | [] => .ok (text, .none, c)
    | d :: s =>
      if isGap d || isBreak d then
        .ok (text, .none, c)
      else if single then
        if d = '\'' then
          if s.head? = some '\'' then readQuotedWord single fuel (text ++ ['\'']) (c.skip 2)
          else .ok (text, .none, c)
        else
          readQuotedWord single fuel (text ++ [d]) (c.skip 1)
      else if d = '"' then
        .ok (text, .none, c)
      else if d = '\\' then
        if s.head?.any isBreak then
          .ok (text, .escaped, (c.skip 1).readBreak.2)
        else
          match escape? s with
          | some (e, n) => readQuotedWord single fuel (text ++ [e]) (c.skip (n + 1))
          | none => c.fail .badEscape
      else
        readQuotedWord single fuel (text ++ [d]) (c.skip 1)

/-- Reads a quoted scalar from behind its opening quote to behind its closing one. -/
def readQuoted (single : Bool) :
    (fuel : Nat) → List Char → Cursor → Except Fault (List Char × Cursor)
  | 0, _, c => c.fail .unclosedScalar
  | fuel + 1, text, c =>
    if c.atDocumentIndicator then
      c.fail .documentInScalar
    else if c.rest = [] then
      c.fail .unclosedScalar
    else do
      let (text, g, c) ← readQuotedWord single (c.rest.length + 1) text c
      if c.peek = some (if single then '\'' else '"') then
        .ok (text, c.skip 1)
      else
        let (g, c) ← g.read none (c.rest.length + 1) c
        readQuoted single fuel (text ++ g.text) c

/-! ### Block scalars -/

/-- What happens to the line breaks at the end of a block scalar. -/
inductive Chomp where
  | strip
  | clip
  | keep
  deriving DecidableEq, Repr

/-- Reads the indicators behind the sign of a block scalar, in either order: the chomping, and the
indentation, which is never zero. -/
def readBlockHeader (c : Cursor) : Except Fault (Chomp × Option Nat × Cursor) :=
  let chomp? : Option Char → Option Chomp
    | some '+' => some .keep
    | some '-' => some .strip
    | _ => none
  let digit (c : Cursor) : Except Fault (Option Nat × Cursor) :=
    match c.peek with
    | some d =>
      if d = '0' then c.fail .zeroIndentation
      else if d.isDigit then .ok (some (d.toNat - '0'.toNat), c.skip 1)
      else .ok (none, c)
    | none => .ok (none, c)
  match chomp? c.peek with
  | some chomp => do
    let (n, c) ← digit (c.skip 1)
    .ok (chomp, n, c)
  | none => do
    let (n, c) ← digit c
    match n, chomp? c.peek with
    | some _, some chomp => .ok (chomp, n, c.skip 1)
    | _, _ => .ok (.clip, n, c)

/-- Passes indentation and empty lines in front of a line of a block scalar. Without a known
indentation every space belongs to it. The result holds the line breaks, the furthest column, the
place of the last break, and the place reached. -/
def readBlockBreaks (indent : Nat) :
    (fuel : Nat) → List Char → Nat → Mark → Cursor → Except Fault (List Char × Nat × Mark × Cursor)
  | 0, breaks, furthest, stop, c => .ok (breaks, furthest, stop, c)
  | fuel + 1, breaks, furthest, stop, c =>
    let spaces := (c.rest.takeWhile (· = ' ')).length
    let n := if indent = 0 then spaces else min spaces (indent - c.mark.column)
    let c := c.skip n
    let furthest := max furthest c.mark.column
    if (indent = 0 || c.mark.column < indent) && c.peek = some '\t' then
      c.fail .tabIndentation
    else if c.peek.any isBreak then
      let (b, next) := c.readBreak
      readBlockBreaks indent fuel (breaks ++ b) furthest next.mark next
    else
      .ok (breaks, furthest, stop, c)

/-- What is read of a block scalar so far: its text, the break behind its last line, the breaks behind
that, whether the last line was indented further, and the place of the last break. -/
structure BlockText where
  text : List Char
  lastBreak : List Char
  breaks : List Char
  indented : Bool
  stop : Mark

def readBlockLines (isLiteral : Bool) (indent : Nat) :
    (fuel : Nat) → BlockText → Cursor → Except Fault (BlockText × Cursor)
  | 0, b, c => .ok (b, c)
  | fuel + 1, b, c =>
    if c.mark.column = indent ∧ c.rest ≠ [] then do
      let indented := c.peek.any isGap
      let joined :=
        if !isLiteral && b.lastBreak = ['\n'] && !b.indented && !indented then
          if b.breaks = [] then [' '] else []
        else
          b.lastBreak
      let (line, c) := c.span (! isBreak ·)
      let (lastBreak, c) := c.readBreak
      let (breaks, _, stop, c) ← readBlockBreaks indent (c.rest.length + 1) [] 0 c.mark c
      readBlockLines isLiteral indent fuel
        ⟨b.text ++ joined ++ b.breaks ++ line, lastBreak, breaks, indented, stop⟩ c
    else
      .ok (b, c)

/-- Reads a block scalar from behind its sign. `outer` is the indentation around it. -/
def readBlock (isLiteral : Bool) (outer : Int) (c : Cursor) :
    Except Fault (List Char × Mark × Cursor) := do
  let (chomp, increment, c) ← readBlockHeader c
  let c := c.skipGaps.skipComment
  if endsLine c.peek then
    let c := c.readBreak.2
    let known := increment.map fun n => if 0 ≤ outer then outer.toNat + n else n
    let (breaks, furthest, stop, c) ←
      readBlockBreaks (known.getD 0) (c.rest.length + 1) [] 0 c.mark c
    let indent := known.getD (max (max furthest (outer + 1).toNat) 1)
    let (b, c) ← readBlockLines isLiteral indent (c.rest.length + 1) ⟨[], [], breaks, false, stop⟩ c
    let tail :=
      match chomp with
      | .strip => []
      | .clip => b.lastBreak
      | .keep => b.lastBreak ++ b.breaks
    .ok (b.text ++ tail, b.stop, c)
  else
    c.fail .trailingText

end QualityGate.Yaml
