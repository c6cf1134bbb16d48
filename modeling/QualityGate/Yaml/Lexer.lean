import QualityGate.Yaml.ScalarText

/-! # Cutting a YAML text into tokens

The lexer keeps the indentations of the block collections that are open, and for each level of flow
collections the place where a key may have started. When a colon shows that there was a key, its
tokens are put in at that place. A key must end on its line and within 1024 characters; at the
indentation of a block mapping there must be one. -/

namespace QualityGate.Yaml

/-- A place where a key may have started: whether it must have, how many tokens stand before it, and
its mark. -/
structure OpenKey where
  required : Bool
  before : Nat
  mark : Mark
  deriving Repr

/-- A lexer at work. `made` holds the tokens made so far, the last one first. The column of the
innermost block collection is `indent`, or -1 outside all of them; `outer` holds those around it.
There is one level of `outerKeys` for each flow collection that is open. -/
structure Lexer where
  cursor : Cursor
  made : List Lexeme
  indent : Int
  outer : List Int
  keyAllowed : Bool
  key : Option OpenKey
  outerKeys : List (Option OpenKey)
  deriving Repr

namespace Lexer

def start (s : List Char) : Lexer := ⟨.start s, [], -1, [], true, none, []⟩

def inFlow (x : Lexer) : Bool := ! x.outerKeys.isEmpty

/-- The column as it compares with indentations. -/
def column (x : Lexer) : Int := x.cursor.mark.column

def make (t : Token) (next : Cursor) (x : Lexer) : Lexer :=
  { x with made := ⟨t, x.cursor.mark, next.mark⟩ :: x.made, cursor := next }

/-- Makes a token without any text. -/
def makeEmpty (t : Token) (x : Lexer) : Lexer := x.make t x.cursor

/-- Puts a token without text in behind the first `before` tokens. -/
def insert (t : Token) (before : Nat) (m : Mark) (x : Lexer) : Lexer :=
  let (late, early) := x.made.splitAt (x.made.length - before)
  { x with made := late ++ ⟨t, m, m⟩ :: early }

/-- Says whether a key may start behind here. -/
def allowKey (b : Bool) (x : Lexer) : Lexer := { x with keyAllowed := b }

/-! ### Keys -/

/-- Gives up the key that may have started on this level. -/
def dropKey (x : Lexer) : Except Fault Lexer :=
  match x.key with
  | some k => if k.required then .error ⟨.noKeyColon, k.mark⟩ else .ok { x with key := none }
  | none => .ok x

/-- Notes that a key may start here. -/
def openKey (x : Lexer) : Except Fault Lexer :=
  if x.keyAllowed then do
    let x ← x.dropKey
    let required := ! x.inFlow && x.indent = x.column
    .ok { x with key := some ⟨required, x.made.length, x.cursor.mark⟩ }
  else
    .ok x

/-- Whether what started there can no longer be a key. -/
def OpenKey.isStale (k : OpenKey) (m : Mark) : Bool :=
  k.mark.line < m.line || k.mark.index + 1024 < m.index

def freshKey (m : Mark) : Option OpenKey → Except Fault (Option OpenKey)
  | some k =>
    if OpenKey.isStale k m then
      if k.required then .error ⟨.noKeyColon, k.mark⟩ else .ok none
    else
      .ok (some k)
  | none => .ok none

def dropStaleKeys (x : Lexer) : Except Fault Lexer := do
  let outerKeys ← x.outerKeys.mapM (freshKey x.cursor.mark)
  let key ← freshKey x.cursor.mark x.key
  .ok { x with key := key, outerKeys := outerKeys }

/-! ### Indentation -/

/-- Opens a block collection at a column, unless one is open that far in. Its token goes in behind the
first `before` tokens. -/
def roll (column : Nat) (before : Nat) (t : Token) (m : Mark) (x : Lexer) : Lexer :=
  if x.inFlow then x
  else if x.indent < column then
    ({ x with indent := column, outer := x.indent :: x.outer }).insert t before m
  else x

/-- Opens a block collection here, unless one is open that far in. -/
def rollHere (t : Token) (x : Lexer) : Lexer :=
  x.roll x.cursor.mark.column x.made.length t x.cursor.mark

/-- Closes the block collections that stand further in than a column, of which there are at most as
many as columns around. -/
def unrollFrom (column : Int) : (outer : List Int) → Lexer → Lexer
  | [], x => x
  | i :: is, x =>
    if column < x.indent then
      unrollFrom column is { x.makeEmpty .blockEnd with indent := i, outer := is }
    else x

def unroll (column : Int) (x : Lexer) : Lexer :=
  if x.inFlow then x else unrollFrom column x.outer x

/-! ### Blanks and comments -/

/-- Passes blanks, comments and line breaks. Outside the flow collections a key may start on each new
line, and a tab is no blank where a key may start. -/
def skipBlanks : (fuel : Nat) → Lexer → Lexer
  | 0, x => x
  | fuel + 1, x =>
    let tabs := x.inFlow || ! x.keyAllowed
    let c := (x.cursor.skipWhile fun d => d = ' ' || (tabs && d = '\t')).skipComment
    if c.peek.any isBreak then
      skipBlanks fuel { x with cursor := c.readBreak.2, keyAllowed := x.keyAllowed || ! x.inFlow }
    else
      { x with cursor := c }

def skipByteOrderMark (x : Lexer) : Lexer :=
  if x.cursor.mark.index = 0 ∧ x.cursor.peek = some '\uFEFF' then
    { x with cursor := x.cursor.skip 1 }
  else x

/-! ### Tokens -/

/-- The end of the text, which counts as the start of a line. -/
def finish (x : Lexer) : Except Fault Lexer := do
  let m := x.cursor.mark
  let m := if m.column = 0 then m else ⟨m.index, m.line + 1, 0⟩
  let x := { x with cursor := ⟨x.cursor.rest, m⟩ }
  let x ← (x.unroll (-1)).dropKey
  .ok ((x.allowKey false).makeEmpty .streamEnd)

def makeDirective (x : Lexer) : Except Fault Lexer := do
  let x ← (x.unroll (-1)).dropKey
  let (d, stop, next) ← readDirective (x.cursor.skip 1)
  let lexeme : Lexeme := ⟨.directive d, x.cursor.mark, stop⟩
  .ok { x with cursor := next, made := lexeme :: x.made, keyAllowed := false }

def makeDocumentSign (t : Token) (x : Lexer) : Except Fault Lexer := do
  let x ← (x.unroll (-1)).dropKey
  .ok ((x.allowKey false).make t (x.cursor.skip 3))

/-- The opening bracket of a flow collection, which may itself start a key. -/
def openFlow (t : Token) (x : Lexer) : Except Fault Lexer := do
  let x ← x.openKey
  let x := { x with key := none, outerKeys := x.key :: x.outerKeys, keyAllowed := true }
  .ok (x.make t (x.cursor.skip 1))

def closeFlow (t : Token) (x : Lexer) : Except Fault Lexer := do
  let x ← x.dropKey
  let x :=
    match x.outerKeys with
    | k :: ks => { x with key := k, outerKeys := ks }
    | [] => x
  .ok ((x.allowKey false).make t (x.cursor.skip 1))

def makeFlowEntry (x : Lexer) : Except Fault Lexer := do
  let x ← x.dropKey
  .ok ((x.allowKey true).make .flowEntry (x.cursor.skip 1))

def makeBlockEntry (x : Lexer) : Except Fault Lexer := do
  if ! x.inFlow && ! x.keyAllowed then x.cursor.fail .misplacedEntry
  else
    let x ← (x.rollHere .blockSequenceStart).dropKey
    .ok ((x.allowKey true).make .blockEntry (x.cursor.skip 1))

def makeKey (x : Lexer) : Except Fault Lexer := do
  if ! x.inFlow && ! x.keyAllowed then x.cursor.fail .misplacedKey
  else
    let x ← (x.rollHere .blockMappingStart).dropKey
    .ok ((x.allowKey (! x.inFlow)).make .key (x.cursor.skip 1))

def makeValue (x : Lexer) : Except Fault Lexer :=
  match x.key with
  | some k =>
    let x := (x.insert .key k.before k.mark).roll k.mark.column k.before .blockMappingStart k.mark
    .ok (({ x with key := none, keyAllowed := false }).make .value (x.cursor.skip 1))
  | none =>
    if ! x.inFlow && ! x.keyAllowed then x.cursor.fail .misplacedValue
    else
      let x := x.rollHere .blockMappingStart
      .ok ((x.allowKey (! x.inFlow)).make .value (x.cursor.skip 1))

def makeAnchor (t : List Char → Token) (x : Lexer) : Except Fault Lexer := do
  let x ← x.openKey
  let (name, next) ← readAnchorName (x.cursor.skip 1)
  .ok ((x.allowKey false).make (t name) next)

def makeTag (x : Lexer) : Except Fault Lexer := do
  let x ← x.openKey
  let ((handle, suffix), next) ← readTag x.inFlow x.cursor
  .ok ((x.allowKey false).make (.tag handle suffix) next)

def makeBlockScalar (style : ScalarStyle) (x : Lexer) : Except Fault Lexer := do
  let x ← x.dropKey
  let (text, stop, next) ← readBlock (style = .literal) x.indent (x.cursor.skip 1)
  let lexeme : Lexeme := ⟨.scalar text style, x.cursor.mark, stop⟩
  .ok { x with cursor := next, made := lexeme :: x.made, keyAllowed := true }

def makeQuoted (style : ScalarStyle) (x : Lexer) : Except Fault Lexer := do
  let x ← x.openKey
  let (text, next) ←
    readQuoted (style = .singleQuoted) (x.cursor.rest.length + 1) [] (x.cursor.skip 1)
  .ok ((x.allowKey false).make (.scalar text style) next)

/-- A plain scalar. If a line break follows it, a key may start behind it. -/
def makePlain (x : Lexer) : Except Fault Lexer := do
  let x ← x.openKey
  let p ← readPlain x.inFlow (x.indent + 1) (x.cursor.rest.length + 1) [] x.cursor.mark .none
    x.cursor
  let lexeme : Lexeme := ⟨.scalar p.text .plain, x.cursor.mark, p.stop⟩
  .ok { x with cursor := p.next, made := lexeme :: x.made, keyAllowed := p.broken }

/-- Whether a plain scalar starts with this character, given the one behind it. -/
def startsPlain (flow : Bool) (c : Char) (next : Option Char) : Bool :=
  if c = '-' then ! next.any isGap
  else if c = '?' ∨ c = ':' then ! flow && ! endsWord next
  else ! ",[]\x7b\x7d#&*!|>'\"%@`".toList.contains c && ! endsWord (some c)

def makeNext (d : Char) (x : Lexer) : Except Fault Lexer :=
  let c := x.cursor
  let alone := endsWord (c.peekAt 1)
  if c.mark.column = 0 ∧ d = '%' then x.makeDirective
  else if c.atIndicator '-' then x.makeDocumentSign .documentStart
  else if c.atIndicator '.' then x.makeDocumentSign .documentEnd
  else if d = '[' then x.openFlow .flowSequenceStart
  else if d = '\x7b' then x.openFlow .flowMappingStart
  else if d = ']' then x.closeFlow .flowSequenceEnd
  else if d = '\x7d' then x.closeFlow .flowMappingEnd
  else if d = ',' then x.makeFlowEntry
  else if d = '-' && alone then x.makeBlockEntry
  else if d = '?' && (x.inFlow || alone) then x.makeKey
  else if d = ':' && (x.inFlow || alone) then x.makeValue
  else if d = '*' then x.makeAnchor .alias
  else if d = '&' then x.makeAnchor .anchor
  else if d = '!' then x.makeTag
  else if d = '|' && ! x.inFlow then x.makeBlockScalar .literal
  else if d = '>' && ! x.inFlow then x.makeBlockScalar .folded
  else if d = '\'' then x.makeQuoted .singleQuoted
  else if d = '"' then x.makeQuoted .doubleQuoted
  else if startsPlain x.inFlow d (c.peekAt 1) then x.makePlain
  else c.fail .strangeStart

def run : (fuel : Nat) → Lexer → Except Fault Lexer
  | 0, x => x.finish
  | fuel + 1, x => do
    let x := x.skipByteOrderMark.skipBlanks (x.cursor.rest.length + 1)
    let x ← x.dropStaleKeys
    let x := x.unroll x.column
    match x.cursor.peek with
    | none => x.finish
    | some d => run fuel (← x.makeNext d)

end Lexer

def lexemes (s : List Char) : Except Fault (List Lexeme) :=
  match s.find? (! isAllowed ·) with
  | some _ => (Cursor.start s).fail .controlCharacter
  | none => do
    let x ← (Lexer.start s).run (s.length + 1)
    .ok x.made.reverse

end QualityGate.Yaml
