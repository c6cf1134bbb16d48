/-! # Words of the shell

A word is a row of glyphs. A bare glyph stands outside all quotes and may still mean something to the
shell, as in patterns; a quoted glyph is only itself. An expansion is kept as it is written. -/

namespace QualityGate.Shell

/-- What the shell puts in place of itself, as written behind the dollar sign or between back
quotes. -/
inductive Expansion where
  | variable (name : List Char)
  | braces (text : List Char)
  | command (text : List Char)
  | arithmetic (text : List Char)
  deriving DecidableEq, Repr

inductive Glyph where
  | bare (c : Char)
  | quoted (c : Char)
  | expansion (isQuoted : Bool) (e : Expansion)
  deriving DecidableEq, Repr

/-- A word. The empty one is written by an empty pair of quotes. -/
abbrev Word := List Glyph

/-- The character of a glyph that is one. -/
def Glyph.char? : Glyph → Option Char
  | bare c | quoted c => some c
  | expansion _ _ => none

/-- The text of a word in which everything is literal. -/
def Word.text? (w : Word) : Option (List Char) :=
  w.mapM Glyph.char?

/-- The text of a word in which everything is bare. -/
def Word.bareText? (w : Word) : Option (List Char) :=
  w.mapM fun
    | .bare c => some c
    | _ => none

/-- What is left open at the end of a text. -/
inductive Opening where
  | quote
  | braces
  | parens
  | arithmetic
  | backQuote
  deriving DecidableEq, Repr

/-- The body of a here-document. In a literal one nothing is expanded. -/
structure HereBody where
  text : List Char
  isLiteral : Bool
  deriving DecidableEq, Repr

inductive Token where
  | word (w : Word)
  | operator (text : List Char)
  | newline
  /-- A number right before a redirection. -/
  | ioNumber (n : Nat)
  /-- The end mark of the here-document with the given number, and its body once it is read. -/
  | here (index : Nat) (body : HereBody)
  /-- The end of the text, where something may be left open. -/
  | finish (left : Option Opening)
  deriving DecidableEq, Repr

/-- A token with its line, counted from one. -/
structure Lexed where
  token : Token
  line : Nat
  deriving DecidableEq, Repr

end QualityGate.Shell
