import QualityGate.Shell.Tool

/-! # Inputs and parts of them

Programs that print their inputs, their start or their end, or how much there is. An input may have no
end; a program that needs all of it has none either. -/

namespace QualityGate.Shell.Tool

/-- Prints its inputs one after the other, numbering the lines if that is asked for. -/
def cat : Tool := fun arguments => do
  let (os, operands) := optionsOf "" arguments
  match os.find? fun o => o.1 ≠ 'n' ∧ o.1 ≠ 'u' with
  | some (c, _) => refuse "cat" s!"invalid option -- '{c}'" 1
  | none =>
    let numbered := os.any fun o => o.1 = 'n'
    let mut line := 1
    let mut status := 0
    let paths : List Bytes := if operands = [] then [[45]] else operands
    for path in paths do
      match ← operand path with
      | .error e =>
        complain "cat" s!"{path.toStringLossy}: {e.reason}"
        status := 1
      | .ok s =>
        if numbered then
          for l in linesOf (← whole s) do
            discard (Act.write 1 (Bytes.ofString (padded 6 line ++ "\t") ++ l))
            line := line + 1
        else Act.writeSource 1 s
    return status

/-! ### Starts and ends -/

/-- What a program is to take: so many lines or bytes, counted from the start or from the end. -/
structure Portion where
  inBytes : Bool
  count : Nat
  isSigned : Option Char

/-- The portion that options ask for; a number alone counts lines. -/
def portion (arguments : List Bytes) : Except Bytes (Portion × List Bytes) :=
  let arguments := match arguments with
    | (45 :: ds) :: rest =>
      if ds ≠ [] ∧ ds.all (fun b => 48 ≤ b && b ≤ 57) then (45 :: 110 :: ds) :: rest else arguments
    | _ => arguments
  let (os, operands) := optionsOf "nc" arguments
  match os.getLast? with
  | some (c, v) =>
    let (sign, digits) := match v with
      | 45 :: ds => (some '-', ds)
      | 43 :: ds => (some '+', ds)
      | ds => (none, ds)
    match number? digits with
    | some n => .ok (⟨c = 'c', n, sign⟩, operands)
    | none => .error v
  | none => .ok (⟨false, 10, none⟩, operands)

def enough (p : Portion) (s : Act.Source) : Act Bytes := do
  if s.endless = [] then return s.bytes
  else
    let step := if p.inBytes then s.endless.length else s.endless.count 10
    if step = 0 ∨ p.isSigned.isSome then Act.forever
    else return s.bytes ++ (List.replicate (p.count / step + 1) s.endless).flatten

def Portion.start (p : Portion) (s : Bytes) : Bytes :=
  if p.inBytes then s.take (if p.isSigned = some '-' then s.length - p.count else p.count)
  else
    let ls := linesOf s
    (ls.take (if p.isSigned = some '-' then ls.length - p.count else p.count)).flatten

def Portion.end (p : Portion) (s : Bytes) : Bytes :=
  if p.inBytes then s.drop (if p.isSigned = some '+' then p.count - 1 else s.length - p.count)
  else
    let ls := linesOf s
    (ls.drop (if p.isSigned = some '+' then p.count - 1 else ls.length - p.count)).flatten

/-- Prints a portion of each input, under its name if there are several. -/
def printPortions (name : String) (take : Portion → Act.Source → Act Bytes) : Tool :=
  fun arguments => do
    match portion arguments with
    | .error v =>
      complain name s!"invalid number of lines: '{v.toStringLossy}'"
      return 1
    | .ok (p, operands) =>
      let mut status := 0
      let mut isFirst := true
      let paths : List Bytes := if operands = [] then [[45]] else operands
      for path in paths do
        match ← operand path with
        | .error e =>
          complain name (match e with
            | .isDirectory => s!"error reading '{path.toStringLossy}': {e.reason}"
            | e => s!"cannot open '{path.toStringLossy}' for reading: {e.reason}")
          status := 1
        | .ok s =>
          if 1 < paths.length then
            let shown := if path = [45] then "standard input" else path.toStringLossy
            let gap := if isFirst then "" else "\n"
            Act.print s!"{gap}==> {shown} <==\n"
          isFirst := false
          let out ← take p s
          discard (Act.write 1 out)
          if path = [45] then Act.unread 0 (s.bytes.drop out.length)
      return status

def head : Tool := printPortions "head" fun p s => return p.start (← enough p s)

def tail : Tool := printPortions "tail" fun p s => return p.end (← whole s)

/-! ### Counting -/

def wordCount (s : Bytes) : Nat :=
  (s.foldl (fun ((n, inside) : Nat × Bool) b =>
    let isBlank := b = 32 || (9 ≤ b && b ≤ 13)
    (if ! isBlank && ! inside then n + 1 else n, ! isBlank)) (0, false)).1

/-- The counts that options ask for: lines, words and bytes if there are none. -/
def counts (os : List Char) (s : Bytes) : List Nat :=
  let asks (c : Char) := os = [] ∨ c ∈ os
  (if asks 'l' then [s.count 10] else []) ++ (if asks 'w' then [wordCount s] else []) ++
    (if 'm' ∈ os then [(Text.Utf8.decodeLossy s).length] else []) ++
    (if asks 'c' then [s.length] else [])

def wc : Tool := fun arguments => do
  let (os, operands) := optionsOf "" arguments
  let letters := os.map Prod.fst
  let paths : List Bytes := if operands = [] then [[45]] else operands
  let mut status := 0
  let mut rows : List (List Nat × String) := []
  let mut size := 0
  let mut total : List Nat := counts letters []
  let mut leastWidth := 1
  for path in paths do
    let isFile ← if path ≠ [45] then pure true else
      match ← Act.channel? 0 with
      | some (_, .file ..) => pure true
      | _ => pure false
    match ← operand path with
    | .error e =>
      complain "wc" s!"{path.toStringLossy}: {e.reason}"
      status := 1
      if e = .isDirectory then
        rows := rows ++ [(counts letters [], path.toStringLossy)]
        leastWidth := 7
    | .ok s =>
      let text ← whole s
      let row := counts letters text
      if isFile then size := size + text.length else leastWidth := 7
      total := List.zipWith (· + ·) total row
      rows := rows ++ [(row, if operands = [] then "" else path.toStringLossy)]
  let width :=
    if paths.length = 1 ∧ letters.eraseDups.length = 1 then 1 else max leastWidth (toString size).length
  if 1 < paths.length then rows := rows ++ [(total, "total")]
  for (row, path) in rows do
    let columns := " ".intercalate (row.map (padded width))
    Act.print (columns ++ (if path = "" then "" else " " ++ path) ++ "\n")
  return status

end QualityGate.Shell.Tool
