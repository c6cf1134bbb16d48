/-! # Quoting for the shell

A text is made one word of a shell command. Where every character is plain it stands as it is;
otherwise it goes between single quotes, and each single quote in it closes them, is written behind a
backslash, and opens them again. -/

namespace QualityGate.Shell

/-- The characters that mean nothing to the shell anywhere in a word. -/
def isPlain (c : Char) : Bool :=
  c.isAlphanum || "/._-+@%:,=".toList.contains c

/-- A single quote, spelled between single quotes. -/
def splice : List Char := "'\\''".toList

def spliceQuotes (s : List Char) : List Char :=
  s.flatMap fun c => if c = '\'' then splice else [c]

def quote (s : List Char) : List Char :=
  if s ≠ [] ∧ s.all isPlain then s else '\'' :: (spliceQuotes s ++ ['\''])

end QualityGate.Shell
