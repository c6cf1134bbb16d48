import QualityGate.FileTree
import QualityGate.Shell.Arithmetic

/-! # Conditions

The operands and operators of a condition are words of their own. An operator counts as an operand
where it could not be one. Whoever asks hands in how to look at files and descriptors. -/

namespace QualityGate.Shell.Condition

structure Answers where
  find : String → Option FileTree
  isTerminal : Nat → Bool

def unaries : List String :=
  ["-b", "-c", "-d", "-e", "-f", "-g", "-G", "-h", "-k", "-L", "-n", "-O", "-p", "-r", "-s", "-S",
   "-t", "-u", "-w", "-x", "-z"]

def binaries : List String :=
  ["=", "!=", "<", ">", "-eq", "-ne", "-gt", "-ge", "-lt", "-le", "-nt", "-ot", "-ef"]

def integer (s : String) : Except String Int :=
  let digits := match s.toList.dropWhile Arithmetic.isSpace with
    | '-' :: t | '+' :: t => t
    | t => t
  let body := digits.takeWhile Char.isDigit
  let n : Int := body.foldl (fun n c => 10 * n + (c.toNat - '0'.toNat)) 0
  let negative := (s.toList.dropWhile Arithmetic.isSpace).head? = some '-'
  if body = [] ∨ ! (digits.drop body.length).all Arithmetic.isSpace then
    .error s!"Illegal number: {s}"
  else .ok (if negative then -n else n)

def isBinary (s : String) : Bool := binaries.contains s

/-- Whether the word ahead is an operator with one operand. It is an operand when nothing follows it,
or when what follows it is an operator with two operands. -/
def isUnaryAhead : List String → Bool
  | [_] => false
  | [o, _] => unaries.contains o
  | o :: s :: t :: _ => unaries.contains o && ! (isBinary s && t ≠ ")")
  | [] => false

variable (a : Answers)

def unary (o s : String) : Except String Bool :=
  match o with
  | "-n" => .ok (s ≠ "")
  | "-z" => .ok (s = "")
  | "-t" => (integer s).map fun n => a.isTerminal n.toNat
  | "-d" => .ok ((a.find s).any FileTree.isDirectory)
  | "-f" => .ok ((a.find s).any fun t => ! t.isDirectory)
  | "-s" =>
    .ok ((a.find s).any fun
      | .file content => content ≠ []
      | .directory _ => true)
  | "-e" | "-r" | "-w" | "-O" | "-G" => .ok (a.find s).isSome
  | "-x" => .ok ((a.find s).any FileTree.isDirectory)
  | _ => .ok false

def binary (s o t : String) : Except String Bool := do
  match o with
  | "=" => .ok (s = t)
  | "!=" => .ok (s ≠ t)
  | "<" => .ok (s < t)
  | ">" => .ok (t < s)
  | "-eq" => .ok ((← integer s) = (← integer t))
  | "-ne" => .ok ((← integer s) ≠ (← integer t))
  | "-gt" => .ok ((← integer s) > (← integer t))
  | "-ge" => .ok ((← integer s) ≥ (← integer t))
  | "-lt" => .ok ((← integer s) < (← integer t))
  | "-le" => .ok ((← integer s) ≤ (← integer t))
  | _ => .ok false

mutual

def either : (fuel : Nat) → List String → Except String (Bool × List String)
  | 0, s => .ok (false, s)
  | fuel + 1, s => do
    let (p, rest) ← both fuel s
    match rest with
    | "-o" :: rest =>
      let (q, rest) ← either fuel rest
      .ok (p || q, rest)
    | rest => .ok (p, rest)

def both : (fuel : Nat) → List String → Except String (Bool × List String)
  | 0, s => .ok (false, s)
  | fuel + 1, s => do
    let (p, rest) ← negated fuel s
    match rest with
    | "-a" :: rest =>
      let (q, rest) ← both fuel rest
      .ok (p && q, rest)
    | rest => .ok (p, rest)

/-- A condition with signs of negation in front of it. -/
def negated : (fuel : Nat) → List String → Except String (Bool × List String)
  | 0, s => .ok (false, s)
  | fuel + 1, s => do
    match s with
    | "!" :: t =>
      if t.head?.any isBinary ∧ t.length ≥ 2 then single fuel s
      else
        let (p, rest) ← negated fuel t
        .ok (! p, rest)
    | s => single fuel s

/-- A condition in brackets, with an operator, or of one operand, which must not be empty. -/
def single : (fuel : Nat) → List String → Except String (Bool × List String)
  | 0, s => .ok (false, s)
  | fuel + 1, s => do
    if isUnaryAhead s then
      match s with
      | o :: x :: rest => .ok (← unary a o x, rest)
      | s => .ok (false, s)
    else
      match s with
      | [] => .ok (false, [])
      | "(" :: t :: rest =>
        if isBinary t ∧ rest ≠ [] then binaryAhead fuel s
        else if t = ")" then .ok (false, rest)
        else
          match ← either fuel (t :: rest) with
          | (p, ")" :: rest) => .ok (p, rest)
          | _ => .error "closing paren expected"
      | s => binaryAhead fuel s

/-- A condition with an operator between two operands, or of one operand. -/
def binaryAhead : (fuel : Nat) → List String → Except String (Bool × List String)
  | 0, s => .ok (false, s)
  | _ + 1, s => do
    match s with
    | x :: o :: rest =>
      if isBinary o then
        match rest with
        | y :: rest => .ok (← binary x o y, rest)
        | [] => .error s!"{o}: argument expected"
      else .ok (x ≠ "", o :: rest)
    | x :: rest => .ok (x ≠ "", rest)
    | [] => .ok (false, [])

end

/-- The answer of words that are all used up. The error names the last one that was. -/
def ask (words : List String) : Except String Bool := do
  let (p, rest) ← either a (8 * words.length + 8) words
  if rest = [] then .ok p
  else
    match words[words.length - rest.length - 1]? with
    | some "" | none => .error "unexpected operator"
    | some w => .error s!"{w}: unexpected operator"

/-- Whether a condition holds. -/
def holds (words : List String) : Except String Bool :=
  match words with
  | [] => .ok false
  | [x, o, y] =>
    if isBinary o then binary x o y
    else if x = "(" ∧ y = ")" then ask a [o]
    else ask a words
  | words => ask a words

end QualityGate.Shell.Condition
