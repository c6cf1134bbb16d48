import QualityGate.Shell.Word

/-! # Cutting a command line into tokens

A machine that reads one character at a time. Between quotes every character adds to the current
word. Outside them blanks and operators end it, a number sign starts a comment where no word is begun,
and a backslash takes the next character as it is. A dollar sign or a back quote starts an expansion,
whose end is found by its brackets. -/

namespace QualityGate.Shell

/-- Brackets inside an expansion that are still open. -/
inductive Bracket where
  | paren
  | brace
  | tick
  | single
  | double
  deriving DecidableEq, Repr

/-- An expansion whose end is looked for: whether it stands between double quotes, the brackets that
are open, whether the last character was a backslash or a dollar sign, and its text so far, backwards. -/
structure Nest where
  isQuoted : Bool
  kind : Bracket
  inner : List Bracket
  escaped : Bool
  dollar : Bool
  source : List Char
  deriving DecidableEq, Repr

/-- Where the machine stands. -/
inductive Mode where
  | bare
  | escape
  | single
  | double
  | doubleEscape
  | comment
  /-- Right behind a dollar sign. -/
  | dollar (isQuoted : Bool)
  /-- In the name behind a dollar sign. -/
  | name (isQuoted : Bool) (text : List Char)
  | nested (n : Nest)
  /-- In a line of a here-document, which is kept backwards. -/
  | here (line : List Char)
  deriving DecidableEq, Repr

/-- A here-document that is announced: its number, its end mark, whether tabs in front of its lines
are taken off, whether it is literal, and its body so far. -/
structure Announced where
  index : Nat
  delimiter : List Char
  stripTabs : Bool
  isLiteral : Bool
  body : List Char
  deriving DecidableEq, Repr

/-- What the text is that is read: a command line, a part of a word, where nothing separates words, or
a here-document, where a double quote is itself. -/
inductive Place where
  | line
  | part
  | document
  deriving DecidableEq, Repr

/-- The machine: its mode, the word and the operator that are begun, the tokens made so far, the last
one first, the line, the here-documents to come, how many there were, and what the text is. -/
structure Lexer where
  mode : Mode
  word : Option Word
  operator : List Char
  made : List Lexed
  line : Nat
  announced : List Announced
  documents : Nat
  place : Place
  deriving Repr

/-! ### Characters -/

def isGap (c : Char) : Bool := c = ' ' || c = '\t'

def isOperatorChar (c : Char) : Bool :=
  c = ';' || c = '&' || c = '|' || c = '<' || c = '>' || c = '(' || c = ')'

def longOperators : List (List Char) :=
  ["&&", "||", ";;", "<<", "<<-", "<&", "<>", ">>", ">&", ">|"].map String.toList

def isNameStart (c : Char) : Bool := c.isAlpha || c = '_'

def isNameChar (c : Char) : Bool := c.isAlphanum || c = '_'

def isSpecialName (c : Char) : Bool :=
  c.isDigit || c = '@' || c = '*' || c = '#' || c = '?' || c = '-' || c = '$' || c = '!'

namespace Lexer

def start : Lexer := ⟨.bare, none, [], [], 1, [], 0, .line⟩

/-- The word that is begun, or an empty one. -/
def begun (x : Lexer) : Word := x.word.getD []

/-- Adds a glyph to the word. -/
def add (g : Glyph) (x : Lexer) : Lexer := { x with word := some (x.begun ++ [g]) }

/-- Goes on in a mode. -/
def goTo (m : Mode) (x : Lexer) : Lexer := { x with mode := m }

/-- Goes on in a mode with a word begun. -/
def enter (m : Mode) (x : Lexer) : Lexer := { x with mode := m, word := some x.begun }

def make (t : Token) (x : Lexer) : Lexer := { x with made := ⟨t, x.line⟩ :: x.made }

/-- Ends the operator, if one is begun. -/
def endOperator (x : Lexer) : Lexer :=
  if x.operator = [] then x else { x.make (.operator x.operator) with operator := [] }

/-- Whether the last token announces a here-document, and if so whether tabs are taken off. -/
def announces? (x : Lexer) : Option Bool :=
  match x.made with
  | ⟨.operator ['<', '<'], _⟩ :: _ => some false
  | ⟨.operator ['<', '<', '-'], _⟩ :: _ => some true
  | _ => none

/-- The here-document whose end mark a word spells. -/
def announcement (index : Nat) (w : Word) (stripTabs : Bool) : Announced :=
  ⟨index, w.filterMap Glyph.char?, stripTabs, w.any fun g => g matches .quoted _, []⟩

def endWord (x : Lexer) : Lexer :=
  match x.word with
  | none => x
  | some w =>
    let x := { x with word := none }
    match x.announces? with
    | some stripTabs =>
      let a := announcement x.documents w stripTabs
      { x.make (.here a.index ⟨[], a.isLiteral⟩) with
        announced := x.announced ++ [a], documents := x.documents + 1 }
    | none => x.make (.word w)

/-- The number that a word of bare digits is. -/
def ioNumber? (w : Word) : Option Nat :=
  match Word.bareText? w with
  | some (d :: ds) =>
    if (d :: ds).all Char.isDigit then
      some ((d :: ds).foldl (fun n c => 10 * n + (c.toNat - '0'.toNat)) 0)
    else none
  | _ => none

/-- Ends the word in front of an operator. -/
def endWordBefore (c : Char) (x : Lexer) : Lexer :=
  match x.word.bind ioNumber? with
  | some n =>
    if c = '<' ∨ c = '>' then { x with word := none }.make (.ioNumber n) else x.endWord
  | none => x.endWord

def stepOperator (c : Char) (x : Lexer) : Lexer :=
  if x.operator ++ [c] ∈ longOperators then
    { x with operator := x.operator ++ [c] }
  else
    { x.endOperator.endWordBefore c with operator := [c] }

def stepNewline (x : Lexer) : Lexer :=
  let x := x.endOperator.endWord.make .newline
  let x := { x with line := x.line + 1 }
  if x.announced = [] then x.goTo .bare else x.goTo (.here [])

def stepBare (c : Char) (x : Lexer) : Lexer :=
  if x.place = .part ∧ (isOperatorChar c ∨ isGap c ∨ c = '\n' ∨ c = '#') then
    (x.add (.bare c)).goTo .bare
  else if isOperatorChar c ∨ (c = '-' ∧ x.operator = ['<', '<']) then x.stepOperator c
  else
    let x := x.endOperator
    if c = '\n' then x.stepNewline
    else if isGap c then x.endWord.goTo .bare
    else if c = '\'' then x.enter .single
    else if c = '"' then x.enter .double
    else if c = '\\' then x.goTo .escape
    else if c = '$' then x.goTo (.dollar false)
    else if c = '`' then x.enter (.nested ⟨false, .tick, [], false, false, []⟩)
    else if c = '#' ∧ x.word = none then x.goTo .comment
    else (x.add (.bare c)).goTo .bare

def stepDouble (c : Char) (x : Lexer) : Lexer :=
  if c = '"' ∧ x.place ≠ .document then x.goTo .bare
  else if c = '\\' then x.goTo .doubleEscape
  else if c = '$' then x.goTo (.dollar true)
  else if c = '`' then x.goTo (.nested ⟨true, .tick, [], false, false, []⟩)
  else (x.add (.quoted c)).goTo .double

/-- A character behind a backslash between double quotes. Only some lose the backslash. -/
def stepDoubleEscape (c : Char) (x : Lexer) : Lexer :=
  if c = '\n' then x.goTo .double
  else if c = '$' ∨ c = '`' ∨ (c = '"' ∧ x.place ≠ .document) ∨ c = '\\' then
    (x.add (.quoted c)).goTo .double
  else ((x.add (.quoted '\\')).add (.quoted c)).goTo .double

/-- A character as it stands outside or inside double quotes. -/
def stepText (isQuoted : Bool) (c : Char) (x : Lexer) : Lexer :=
  if isQuoted then (x.goTo .double).stepDouble c else (x.goTo .bare).stepBare c

def addExpansion (isQuoted : Bool) (e : Expansion) (x : Lexer) : Lexer :=
  (x.add (.expansion isQuoted e)).goTo (if isQuoted then .double else .bare)

/-- Adds a dollar sign that means nothing. -/
def addDollar (isQuoted : Bool) (x : Lexer) : Lexer :=
  x.add (if isQuoted then .quoted '$' else .bare '$')

def stepDollar (isQuoted : Bool) (c : Char) (x : Lexer) : Lexer :=
  if c = '\x7b' then x.enter (.nested ⟨isQuoted, .brace, [], false, false, []⟩)
  else if c = '(' then x.enter (.nested ⟨isQuoted, .paren, [], false, false, []⟩)
  else if isNameStart c then x.enter (.name isQuoted [c])
  else if isSpecialName c then x.addExpansion isQuoted (.variable [c])
  else (x.addDollar isQuoted).stepText isQuoted c

def stepName (isQuoted : Bool) (name : List Char) (c : Char) (x : Lexer) : Lexer :=
  if isNameChar c then x.goTo (.name isQuoted (name ++ [c]))
  else (x.addExpansion isQuoted (.variable name)).stepText isQuoted c

end Lexer

/-! ### Expansions -/

namespace Nest

/-- The innermost open bracket. -/
def top (n : Nest) : Bracket := n.inner.headD n.kind

/-- The brackets after a character, or nothing if it closes the outermost one. -/
def brackets? (n : Nest) (c : Char) : Option (List Bracket) :=
  let close : Option (List Bracket) :=
    match n.inner with
    | [] => none
    | _ :: bs => some bs
  let opened (b : Bracket) : Option (List Bracket) := some (b :: n.inner)
  match n.top with
  | .single => if c = '\'' then close else some n.inner
  | .tick => if c = '`' then close else some n.inner
  | .double =>
    if c = '"' then close
    else if c = '`' then opened .tick
    else if n.dollar ∧ c = '(' then opened .paren
    else if n.dollar ∧ c = '\x7b' then opened .brace
    else some n.inner
  | .paren =>
    if c = ')' then close
    else if c = '(' then opened .paren
    else if c = '\'' then opened .single
    else if c = '"' then opened .double
    else if c = '`' then opened .tick
    else if n.dollar ∧ c = '\x7b' then opened .brace
    else some n.inner
  | .brace =>
    if c = '\x7d' then close
    else if c = '\'' ∧ ! n.isQuoted then opened .single
    else if c = '"' then opened .double
    else if c = '`' then opened .tick
    else if n.dollar ∧ c = '(' then opened .paren
    else if n.dollar ∧ c = '\x7b' then opened .brace
    else some n.inner

/-- The text of a command between back quotes, where a backslash is taken off in front of some
characters. -/
def unticked (isQuoted : Bool) : List Char → List Char
  | '\\' :: c :: s =>
    if c = '$' ∨ c = '`' ∨ c = '\\' ∨ (isQuoted ∧ c = '"') then c :: unticked isQuoted s
    else '\\' :: c :: unticked isQuoted s
  | c :: s => c :: unticked isQuoted s
  | [] => []

/-- The expansion that is read to its end. Two brackets on each side enclose arithmetic. -/
def expansion (n : Nest) : Expansion :=
  let text := n.source.reverse
  match n.kind with
  | .brace => .braces text
  | .tick => .command (unticked n.isQuoted text)
  | _ =>
    match text, n.source with
    | '(' :: inner, ')' :: _ => .arithmetic inner.dropLast
    | _, _ => .command text

end Nest

namespace Lexer

/-- A character of an expansion. -/
def stepNest (n : Nest) (c : Char) (x : Lexer) : Lexer :=
  let x := if c = '\n' then { x with line := x.line + 1 } else x
  if n.escaped then
    x.goTo (.nested { n with escaped := false, dollar := false, source := c :: n.source })
  else if c = '\\' ∧ n.top ≠ .single then
    x.goTo (.nested { n with escaped := true, dollar := false, source := c :: n.source })
  else
    match n.brackets? c with
    | some bs =>
      x.goTo (.nested { n with inner := bs, dollar := c = '$', source := c :: n.source })
    | none => x.addExpansion n.isQuoted n.expansion

/-! ### Here-documents -/

/-- A token with its body filled in, if it is the end mark of this here-document. -/
def fill (a : Announced) (l : Lexed) : Lexed :=
  match l.token with
  | .here index _ => if index = a.index then { l with token := .here index ⟨a.body, a.isLiteral⟩ } else l
  | _ => l

/-- Ends the first here-document to come. -/
def endDocument (a : Announced) (as : List Announced) (x : Lexer) : Lexer :=
  { x with announced := as, made := x.made.map (fill a) }

/-- The end of a line of a here-document: it is the end mark, or it belongs to the body. -/
def endHereLine (line : List Char) (x : Lexer) : Lexer :=
  match x.announced with
  | [] => x.goTo .bare
  | a :: as =>
    let line := if a.stripTabs then line.dropWhile (· = '\t') else line
    if line = a.delimiter then
      (x.endDocument a as).goTo (if as = [] then .bare else .here [])
    else
      let a := { a with body := a.body ++ line ++ ['\n'] }
      { x with announced := a :: as }.goTo (.here [])

/-- The end of the text in a line of a here-document. Unless the line is the end mark it belongs to
the body, and has no end of its own. -/
def cutHereLine (line : List Char) (x : Lexer) : Lexer :=
  match x.announced with
  | [] => x
  | a :: as =>
    let line := if a.stripTabs then line.dropWhile (· = '\t') else line
    if line = a.delimiter then x.endDocument a as
    else { x with announced := { a with body := a.body ++ line } :: as }

def cutHere (x : Lexer) : Lexer :=
  x.announced.foldl (fun x a => x.endDocument a []) x

/-! ### The machine -/

def step (x : Lexer) (c : Char) : Lexer :=
  match x.mode with
  | .bare => x.stepBare c
  | .escape =>
    if c = '\n' then { x with line := x.line + 1 }.goTo .bare
    else (x.add (.quoted c)).goTo .bare
  | .single =>
    if c = '\'' then x.goTo .bare
    else { x.add (.quoted c) with line := if c = '\n' then x.line + 1 else x.line }
  | .double => { x with line := if c = '\n' then x.line + 1 else x.line }.stepDouble c
  | .doubleEscape => x.stepDoubleEscape c
  | .comment => if c = '\n' then x.stepNewline else x
  | .dollar isQuoted => x.stepDollar isQuoted c
  | .name isQuoted name => x.stepName isQuoted name c
  | .nested n => x.stepNest n c
  | .here line =>
    if c = '\n' then { x with line := x.line + 1 }.endHereLine line.reverse
    else x.goTo (.here (c :: line))

def run (x : Lexer) (s : List Char) : Lexer := s.foldl step x

@[simp]
theorem run_nil (x : Lexer) : x.run [] = x := rfl

@[simp]
theorem run_cons (x : Lexer) (c : Char) (s : List Char) : x.run (c :: s) = (x.step c).run s := rfl

theorem run_append (x : Lexer) (s t : List Char) : x.run (s ++ t) = (x.run s).run t := by
  simp [run]

end Lexer

def Nest.opening (n : Nest) : Opening :=
  match n.kind with
  | .brace => .braces
  | .tick => .backQuote
  | _ => if n.source.getLast? = some '(' then .arithmetic else .parens

def Mode.opening? : Mode → Option Opening
  | .single | .double | .doubleEscape | .dollar true | .name true _ => some .quote
  | .nested n => some n.opening
  | _ => none

/-- Ends what is begun at the end of the text: an open word ends, and what is left open is told. -/
def Lexer.finish (x : Lexer) : Lexer :=
  let ended := match x.mode with
    | .bare | .comment => x.endOperator.endWord
    | .escape => (x.add (.quoted '\\')).endWord
    | .dollar false => (x.addDollar false).endWord
    | .name false name => (x.add (.expansion false (.variable name))).endWord
    | .here line => x.cutHereLine line.reverse
    | _ => x
  ended.cutHere.make (.finish x.mode.opening?)

def tokens (s : List Char) : List Lexed :=
  (Lexer.start.run s).finish.made.reverse

/-- The word at the end of a text that is part of one. -/
def Lexer.partEnd (x : Lexer) : Word :=
  match x.mode with
  | .dollar isQuoted => (x.addDollar isQuoted).begun
  | .name isQuoted name => (x.add (.expansion isQuoted (.variable name))).begun
  | .escape | .doubleEscape => (x.add (.quoted '\\')).begun
  | _ => x.begun

/-- The glyphs of a part of a word, between double quotes or not. -/
def partGlyphs (isQuoted : Bool) (s : List Char) : Word :=
  ({ Lexer.start.goTo (if isQuoted then .double else .bare) with place := .part }.run s).partEnd

def documentGlyphs (s : List Char) : Word :=
  ({ Lexer.start.goTo .double with place := .document }.run s).partEnd

end QualityGate.Shell
