import QualityGate.Shell.Variable

/-! # Programs of the system

What the programs that the shell can call have in common: options, inputs, and how they complain. -/

namespace QualityGate.Shell

/-- A program gets its arguments and tells its status. -/
abbrev Tool := List Bytes → Act Nat

namespace Tool

/-- Puts a complaint in front of the name of the program. -/
def complain (name message : String) : Act Unit := Act.complain s!"{name}: {message}\n"

def refuse (name message : String) (status : Nat) : Act Nat := do
  complain name message
  Act.complain s!"Try '{name} --help' for more information.\n"
  return status

/-- The letters of the options in front of the operands, and the operands. -/
def letters : List Bytes → List Char × List Bytes
  | [] => ([], [])
  | s :: rest =>
    match s.toStringLossy.toList with
    | ['-', '-'] => ([], rest)
    | '-' :: c :: cs =>
      let (more, operands) := letters rest
      (c :: cs ++ more, operands)
    | _ => ([], s :: rest)

/-- The options and operands of a program of which some options take a value. -/
def options (valued : List Char) : (fuel : Nat) → List Bytes → List (Char × Bytes) × List Bytes
  | 0, operands => ([], operands)
  | _, [] => ([], [])
  | fuel + 1, s :: rest =>
    match s with
    | [45, 45] => ([], rest)
    | 45 :: c :: cs =>
      let letter := Char.ofNat c.toNat
      if valued.contains letter then
        if cs ≠ [] then
          let (more, operands) := options valued fuel rest
          ((letter, cs) :: more, operands)
        else
          let (more, operands) := options valued fuel (rest.drop 1)
          ((letter, rest.headD []) :: more, operands)
      else
        let next := if cs = [] then rest else (45 :: cs) :: rest
        let (more, operands) := options valued fuel next
        ((letter, []) :: more, operands)
    | _ =>
      let (more, operands) := options valued fuel rest
      (more, s :: operands)

/-- The options and operands of a program of which some options take a value. Options may stand
behind operands. -/
def optionsOf (valued : String) (arguments : List Bytes) : List (Char × Bytes) × List Bytes :=
  options valued.toList (arguments.flatten.length + arguments.length + 1) arguments

def number? (s : Bytes) : Option Nat := s.toStringLossy.toNat?

/-! ### Inputs -/

def contentAt (path : Bytes) : Act (Except FileError Act.Source) := do
  match path.toStringLossy with
  | "/dev/null" => return .ok ⟨[], []⟩
  | "/dev/zero" => return .ok ⟨[], [0]⟩
  | "/dev/stdin" => Act.readAll 0
  | text =>
    let s ← get
    return (s.shared.files.bytesAt s.own.directory text).map (⟨·, []⟩)

/-- The content of an operand; a hyphen is the input. -/
def operand (path : Bytes) : Act (Except FileError Act.Source) :=
  if path = [45] then Act.readAll 0 else contentAt path

/-- Everything in a source. If that has no end, the program has none. -/
def whole (s : Act.Source) : Act Bytes := if s.endless = [] then return s.bytes else Act.forever

/-- How most programs complain about an input. -/
def plainComplaint (name path reason : String) : String := s!"{name}: {path}: {reason}"

def linesOf (s : Bytes) : List Bytes :=
  let (lines, current) := s.foldl (fun (ls, l) b =>
    if b = 10 then ((10 :: l).reverse :: ls, []) else (ls, b :: l)) (([], []) : List Bytes × Bytes)
  (if current = [] then lines else current.reverse :: lines).reverse

/-- A line without its end. -/
def bare (line : Bytes) : Bytes := if line.getLast? = some 10 then line.dropLast else line

/-- A number filled up with blanks in front. -/
def padded (width n : Nat) : String :=
  let s := toString n
  "".pushn ' ' (width - s.length) ++ s

end Tool

end QualityGate.Shell
