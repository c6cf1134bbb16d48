import QualityGate.Shell.Pattern

/-! # Regular expressions

The basic and the extended notation of searching programs. They differ in whether a backslash takes the
meaning from a bracket, bar, brace, plus or question mark or gives it to them. -/

namespace QualityGate.Shell

inductive Regex where
  | empty
  | byte (b : UInt8)
  | any
  | among (negated : Bool) (items : List Pattern.Item)
  | lineStart
  | lineEnd
  | wordEdge (inside : Bool)
  | append (a b : Regex)
  | either (a b : Regex)
  | repeated (low : Nat) (high : Option Nat) (a : Regex)
  deriving Repr, Inhabited

namespace Regex

/-! ### Reading -/

inductive Sign where
  | byte (b : UInt8)
  | any
  | among (negated : Bool) (items : List Pattern.Item)
  | lineStart
  | lineEnd
  | wordEdge (inside : Bool)
  | star
  | plus
  | optional
  | bar
  | openGroup
  | closeGroup
  | bounds (low : Nat) (high : Option Nat)
  deriving Repr

/-- What a letter behind a backslash stands for, whatever the notation. -/
def letterSign? (c : Char) : Option Sign :=
  let word : List Pattern.Item := [.named "alnum", .range 95 95]
  match c with
  | 'w' => some (.among false word)
  | 'W' => some (.among true word)
  | 's' => some (.among false [.named "space"])
  | 'S' => some (.among true [.named "space"])
  | 'b' => some (.wordEdge false)
  | 'B' => some (.wordEdge true)
  | '<' | '>' => some (.wordEdge false)
  | _ => none

def readBounds (extended : Bool) (s : Bytes) : Option (Sign × Bytes) :=
  let text := s.takeWhile fun b => (48 ≤ b && b ≤ 57) || b = 44
  let rest := s.drop text.length
  let closing : Bytes := if extended then [125] else [92, 125]
  let number (d : Bytes) : Option Nat := d.toStringLossy.toNat?
  if closing.isPrefixOf rest then
    let rest := rest.drop closing.length
    match text.splitOn 44 with
    | [a] => (number a).map fun n => (.bounds n (some n), rest)
    | [a, b] => some (.bounds ((number a).getD 0) (number b), rest)
    | _ => none
  else none

/-- The signs of a notation that a backslash turns around. -/
def turned? (c : Char) : Option Sign :=
  match c with
  | '+' => some .plus
  | '?' => some .optional
  | '|' => some .bar
  | '(' => some .openGroup
  | ')' => some .closeGroup
  | _ => none

def signs (extended : Bool) : (fuel : Nat) → (atStart : Bool) → Bytes → List Sign
  | 0, _, _ | _, _, [] => []
  | fuel + 1, atStart, b :: s =>
    let c := Char.ofNat b.toNat
    let opens : Sign → Bool
      | .bar | .openGroup => true
      | _ => false
    let goOn (x : Sign) (s : Bytes) : List Sign := x :: signs extended fuel (opens x) s
    match c, s with
    | '\\', [] => goOn (.byte b) s
    | '\\', d :: t =>
      let e := Char.ofNat d.toNat
      match letterSign? e, if extended then none else turned? e with
      | some x, _ => goOn x t
      | none, some x => goOn x t
      | none, none =>
        match if ! extended ∧ e = '\x7b' then readBounds false t else none with
        | some (x, t) => goOn x t
        | none => goOn (.byte d) t
    | '.', s => goOn .any s
    | '*', s => goOn (if atStart then .byte b else .star) s
    | '^', s => if atStart ∨ extended then .lineStart :: signs extended fuel true s else goOn (.byte b) s
    | '$', s =>
      let ends := s = [] ∨ extended ∨ s.take 2 = [92, 41] ∨ s.take 2 = [92, 124]
      goOn (if ends then .lineEnd else .byte b) s
    | '[', s =>
      let (negated, t) := match s with
        | 94 :: t => (true, t)
        | t => (false, t)
      match Pattern.readItems (t.length + 1) true (t.map (⟨·, false⟩)) with
      | some (items, rest) => goOn (.among negated items) (rest.map Mark.byte)
      | none => goOn (.byte b) s
    | '\x7b', s =>
      match if extended then readBounds true s else none with
      | some (x, t) => goOn x t
      | none => goOn (.byte b) s
    | c, s =>
      match if extended then turned? c else none with
      | some x => goOn x s
      | none => goOn (.byte b) s

mutual

def readEither : (fuel : Nat) → List Sign → Regex × List Sign
  | 0, s => (.empty, s)
  | fuel + 1, s =>
    let (a, rest) := readRow fuel s
    match rest with
    | .bar :: rest =>
      let (b, rest) := readEither fuel rest
      (.either a b, rest)
    | rest => (a, rest)

def readRow : (fuel : Nat) → List Sign → Regex × List Sign
  | 0, s => (.empty, s)
  | fuel + 1, s =>
    match s with
    | [] | .bar :: _ | .closeGroup :: _ => (.empty, s)
    | s =>
      let (a, rest) := readAtom fuel s
      let (a, rest) := readRepeats fuel a rest
      let (b, rest) := readRow fuel rest
      (.append a b, rest)

def readAtom : (fuel : Nat) → List Sign → Regex × List Sign
  | 0, s => (.empty, s)
  | fuel + 1, s =>
    match s with
    | .openGroup :: rest =>
      let (a, rest) := readEither fuel rest
      (a, rest.drop 1)
    | .byte b :: rest => (.byte b, rest)
    | .any :: rest => (.any, rest)
    | .among negated items :: rest => (.among negated items, rest)
    | .lineStart :: rest => (.lineStart, rest)
    | .lineEnd :: rest => (.lineEnd, rest)
    | .wordEdge inside :: rest => (.wordEdge inside, rest)
    | _ :: rest => (.empty, rest)
    | [] => (.empty, [])

def readRepeats : (fuel : Nat) → Regex → List Sign → Regex × List Sign
  | 0, a, s => (a, s)
  | fuel + 1, a, s =>
    match s with
    | .star :: rest => readRepeats fuel (.repeated 0 none a) rest
    | .plus :: rest => readRepeats fuel (.repeated 1 none a) rest
    | .optional :: rest => readRepeats fuel (.repeated 0 (some 1) a) rest
    | .bounds low high :: rest => readRepeats fuel (.repeated low high a) rest
    | s => (a, s)

end

def parse (extended : Bool) (s : Bytes) : Regex :=
  let ss := signs extended (s.length + 1) true s
  (readEither (4 * ss.length + 4) ss).1

def literal (s : Bytes) : Regex := s.foldr (fun b r => .append (.byte b) r) .empty

/-! ### Matching -/

/-- A byte of a word. -/
def isWordByte (b : UInt8) : Bool := b = 95 || Pattern.isInClass "alnum" b

/-- A place in a line: the byte before it, if there is one, and what follows. -/
structure Spot where
  before : Option UInt8
  rest : Bytes
  deriving DecidableEq

def Spot.pass (p : Spot) (f : UInt8 → Bool) : List Spot :=
  match p.rest with
  | b :: s => if f b then [⟨some b, s⟩] else []
  | [] => []

/-- Where an expression may end that starts at a place, the ends it likes best first. -/
def ends : (fuel : Nat) → Regex → Spot → List Spot
  | 0, _, _ => []
  | fuel + 1, r, p =>
    match r with
    | .empty => [p]
    | .byte b => p.pass (· = b)
    | .any => p.pass fun _ => true
    | .among negated items => p.pass fun b => items.any (Pattern.Item.lists b) != negated
    | .lineStart => if p.before.isNone then [p] else []
    | .lineEnd => if p.rest = [] then [p] else []
    | .wordEdge inside =>
      let isEdge := p.before.any isWordByte != p.rest.head?.any isWordByte
      if isEdge != inside then [p] else []
    | .append a b => ((ends fuel a p).flatMap (ends fuel b)).eraseDups
    | .either a b => (ends fuel a p ++ ends fuel b p).eraseDups
    | .repeated low high a =>
      let stop := if low = 0 then [p] else []
      if high = some 0 then stop
      else
        let next := (ends fuel a p).filter fun q => q.rest.length < p.rest.length || 0 < low
        let more := next.flatMap (ends fuel (.repeated (low - 1) (high.map (· - 1)) a))
        (more ++ stop).eraseDups

def size : Regex → Nat
  | .append a b | .either a b => a.size + b.size + 1
  | .repeated low _ a => a.size + low + 1
  | _ => 1

/-- The longest part of a text that starts at a place and that the expression stands for. -/
def longestAt (r : Regex) (p : Spot) : Option Spot :=
  (ends (2 * r.size + 2 * p.rest.length + 2) r p).foldl (fun best q =>
    match best with
    | some b => if q.rest.length < b.rest.length then some q else best
    | none => some q) none

/-- The parts of a line from left to right that the expression stands for, each as long as possible,
with the bytes around them. -/
def found (r : Regex) : (fuel : Nat) → Spot → List (Option UInt8 × Bytes × Bytes)
  | 0, _ => []
  | fuel + 1, p =>
    let next : List (Option UInt8 × Bytes × Bytes) :=
      match p.rest with
      | b :: s => found r fuel ⟨some b, s⟩
      | [] => []
    match longestAt r p with
    | some q =>
      let text := p.rest.take (p.rest.length - q.rest.length)
      if text = [] then (p.before, [], q.rest) :: next
      else (p.before, text, q.rest) :: found r fuel q
    | none => next

def findAll (r : Regex) (line : Bytes) : List (Option UInt8 × Bytes × Bytes) :=
  found r (line.length + 1) ⟨none, line⟩

end Regex

end QualityGate.Shell
