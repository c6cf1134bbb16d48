import QualityGate.Shell.Tool
import QualityGate.Text.Line

/-! # Programs on lines -/

namespace QualityGate.Shell.Tool

/-! ### Order -/

def leadingNumber (line : Bytes) : Int :=
  let s := line.dropWhile fun b => b = 32 || b = 9
  let (negative, s) := match s with
    | 45 :: t => (true, t)
    | t => (false, t)
  let n : Int := (s.takeWhile fun b => 48 ≤ b && b ≤ 57).foldl
    (fun n b => 10 * n + (b.toNat - 48 : Nat)) 0
  if negative then -n else n

def allLines (complaint : (path reason : String) → String) (operands : List Bytes) :
    Act (Nat × List Bytes) := do
  let mut lines : List Bytes := []
  let mut status := 0
  let paths : List Bytes := if operands = [] then [[45]] else operands
  for path in paths do
    match ← operand path with
    | .ok s => lines := lines ++ (linesOf (← whole s)).map bare
    | .error e =>
      Act.complain (complaint path.toStringLossy e.reason ++ "\n")
      status := 1
  return (status, lines)

def printLines (lines : List Bytes) : Act Unit :=
  discard (Act.write 1 (lines.flatMap fun l => l ++ [10]))

/-- A list without the elements equal to the one before. -/
def withoutRepeats (same : Bytes → Bytes → Bool) : List Bytes → List Bytes
  | a :: b :: s => if same a b then withoutRepeats same (a :: s) else a :: withoutRepeats same (b :: s)
  | s => s
termination_by s => s.length

/-- Prints the lines of its inputs in increasing order, of bytes or of numbers. -/
def sort : Tool := fun arguments => do
  let (os, operands) := optionsOf "kto" arguments
  let has (c : Char) : Bool := os.any fun o => o.1 = c
  let (status, lines) ← allLines (fun path reason => s!"sort: cannot read: {path}: {reason}") operands
  if status ≠ 0 then return 2
  let fold (l : Bytes) : Bytes := if has 'f' then l.map fun b => if 97 ≤ b ∧ b ≤ 122 then b - 32 else b else l
  let below (a b : Bytes) : Bool :=
    if has 'n' then leadingNumber a < leadingNumber b else fold a < fold b
  let same (a b : Bytes) : Bool := ! below a b && ! below b a
  let before (a b : Bytes) : Bool :=
    if same a b then has 'u' || (if has 'r' then ! decide (a < b) else ! decide (b < a))
    else if has 'r' then below b a else below a b
  let sorted := lines.mergeSort before
  printLines (if has 'u' then withoutRepeats same sorted else sorted)
  return 0

/-- Runs of equal lines, with their lengths. -/
def runs : List Bytes → List (Nat × Bytes)
  | [] => []
  | l :: ls =>
    match runs ls with
    | (n, m) :: rest => if l = m then (n + 1, m) :: rest else (1, l) :: (n, m) :: rest
    | [] => [(1, l)]

def uniq : Tool := fun arguments => do
  let (os, operands) := optionsOf "" arguments
  let has (c : Char) : Bool := os.any fun o => o.1 = c
  let (status, lines) ← allLines (plainComplaint "uniq") operands
  let kept := (runs lines).filter fun r => ! (has 'd' && r.1 = 1) && ! (has 'u' && r.1 ≠ 1)
  printLines (kept.map fun r =>
    (if has 'c' then Bytes.ofString (padded 7 r.1 ++ " ") else []) ++ r.2)
  return status

def tac : Tool := fun arguments => do
  let (status, lines) ← allLines
    (fun path reason => s!"tac: failed to open '{path}' for reading: {reason}") arguments
  printLines lines.reverse
  return status

def rev : Tool := fun arguments => do
  let (status, lines) ← allLines (fun path reason => s!"rev: cannot open {path}: {reason}") arguments
  printLines (lines.map fun l => Text.Utf8.encode (Text.Utf8.decodeLossy l).reverse)
  return status

/-! ### Columns -/

def ranges (s : List Char) : List (Nat × Option Nat) :=
  (Text.segments ',' s).filterMap fun r =>
    match Text.segments '-' r with
    | [a] => (String.ofList a).toNat?.map fun n => (n, some n)
    | [a, b] => some (((String.ofList a).toNat?).getD 1, (String.ofList b).toNat?)
    | _ => none

/-- The elements of a list at the places that ranges name, counted from one. -/
def atPlaces {α : Type} (rs : List (Nat × Option Nat)) (xs : List α) : List α :=
  (xs.zipIdx 1).filterMap fun (x, i) =>
    if rs.any fun r => r.1 ≤ i && (r.2.all (i ≤ ·)) then some x else none

def splitAtByte (sep : UInt8) : Bytes → List Bytes
  | [] => [[]]
  | b :: s =>
    if b = sep then [] :: splitAtByte sep s
    else
      match splitAtByte sep s with
      | [] => [[b]]
      | p :: ps => (b :: p) :: ps

def cut : Tool := fun arguments => do
  let (os, operands) := optionsOf "dfcb" arguments
  let value? (c : Char) : Option Bytes := os.lookup c
  let sep := ((value? 'd').bind List.head?).getD 9
  let onlySplit := os.any fun o => o.1 = 's'
  match value? 'f', (value? 'c').or (value? 'b') with
  | none, none => refuse "cut" "you must specify a list of bytes, characters, or fields" 1
  | fields, places => do
    let (status, lines) ← allLines (plainComplaint "cut") operands
    printLines (lines.filterMap fun l =>
      match fields, places with
      | some f, _ =>
        if sep ∉ l then (if onlySplit then none else some l)
        else some ([sep].intercalate (atPlaces (ranges f.toStringLossy.toList) (splitAtByte sep l)))
      | none, some c => some (atPlaces (ranges c.toStringLossy.toList) l)
      | none, none => none)
    return status

end QualityGate.Shell.Tool
