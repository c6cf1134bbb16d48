import QualityGate.Shell.Regex
import QualityGate.Shell.Tool

/-! # Searching lines -/

namespace QualityGate.Shell.Tool

/-- What a search is for and how it prints. -/
structure Search where
  patterns : List Regex
  foldCase : Bool
  wholeLine : Bool
  wholeWord : Bool
  inverted : Bool

/-- A text in which every ASCII letter is lower case. -/
def lowerCase (s : Bytes) : Bytes := s.map fun b => if 65 ≤ b ∧ b ≤ 90 then b + 32 else b

/-- The parts of a line that a search finds. -/
def Search.parts (x : Search) (line : Bytes) : List Bytes :=
  let seen := if x.foldCase then lowerCase line else line
  let fits (p : Option UInt8 × Bytes × Bytes) : Bool :=
    (! x.wholeLine || p.2.1.length = line.length) &&
    (! x.wholeWord || (! p.1.any Regex.isWordByte && ! p.2.2.head?.any Regex.isWordByte))
  (x.patterns.flatMap fun r => (r.findAll seen).filter fits).map fun p => p.2.1

/-- Whether a search selects a line. -/
def Search.selects (x : Search) (line : Bytes) : Bool := (x.parts line ≠ []) != x.inverted

def grep : Tool := fun arguments => do
  let (os, operands) := optionsOf "em" arguments
  let has (c : Char) : Bool := os.any fun o => o.1 = c
  let given := os.filterMap fun o => if o.1 = 'e' then some o.2 else none
  let (texts, operands) := match given, operands with
    | [], t :: rest => ([t], rest)
    | given, operands => (given, operands)
  if texts = [] then
    Act.complain "Usage: grep [OPTION]... PATTERNS [FILE]...\n"
    Act.complain "Try 'grep --help' for more information.\n"
    return 2
  else
    let texts := texts.flatMap fun t => t.splitOn 10
    let texts := if has 'i' then texts.map lowerCase else texts
    let search : Search :=
      ⟨texts.map (if has 'F' then Regex.literal else Regex.parse (has 'E')), has 'i', has 'x', has 'w',
        has 'v'⟩
    let limit := ((os.lookup 'm').bind number?)
    let named := (1 < operands.length ∨ has 'H') ∧ ! has 'h'
    let mut status := 1
    let mut failed := false
    let paths : List Bytes := if operands = [] then [[45]] else operands
    for path in paths do
      let shown := if path = [45] then "(standard input)" else path.toStringLossy
      match ← operand path with
      | .error e =>
        if ! has 's' then complain "grep" s!"{shown}: {e.reason}"
        failed := true
      | .ok source =>
        let lines := ((linesOf (← whole source)).map bare).zipIdx 1
        let hits := lines.filter fun l => search.selects l.1
        let hits := hits.take (limit.getD hits.length)
        if hits ≠ [] then status := 0
        let front := Bytes.ofString (if named then s!"{shown}:" else "")
        if has 'q' then pure ()
        else if has 'l' then
          if hits ≠ [] then Act.print s!"{shown}\n"
        else if has 'L' then
          if hits = [] then Act.print s!"{shown}\n"
        else if has 'c' then
          discard (Act.write 1 (front ++ Bytes.ofString s!"{hits.length}\n"))
        else
          for (line, i) in hits do
            let front := front ++ Bytes.ofString (if has 'n' then s!"{i}:" else "")
            let outs := if has 'o' then (search.parts line).filter (· ≠ []) else [line]
            for out in outs do
              discard (Act.write 1 (front ++ out ++ [10]))
    return if failed ∧ ! (has 'q' ∧ status = 0) then 2 else status

end QualityGate.Shell.Tool
