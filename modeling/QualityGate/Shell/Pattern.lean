import QualityGate.Text.Utf8

/-! # Patterns

A pattern is written in bytes of which some are quoted. An asterisk stands for any bytes, a question
mark for one, and brackets for one of those listed in them. A quoted byte stands for itself. -/

namespace QualityGate.Shell

structure Mark where
  byte : UInt8
  isQuoted : Bool
  deriving DecidableEq, Repr

namespace Pattern

def code (c : Char) : UInt8 := UInt8.ofNat c.toNat

inductive Item where
  | range (low high : UInt8)
  | named (name : String)
  deriving DecidableEq, Repr

inductive Part where
  | many
  | one
  | literal (b : UInt8)
  | among (negated : Bool) (items : List Item)
  deriving DecidableEq, Repr

/-- The bytes of a named class. -/
def isInClass (name : String) (b : UInt8) : Bool :=
  let c := Char.ofNat b.toNat
  b < 0x80 &&
  match name with
  | "alpha" => c.isAlpha
  | "digit" => c.isDigit
  | "alnum" => c.isAlphanum
  | "upper" => c.isUpper
  | "lower" => c.isLower
  | "space" => c.isWhitespace || b = 11 || b = 12
  | "blank" => c = ' ' || c = '\t'
  | "punct" => 32 < b && b < 127 && ! c.isAlphanum
  | "print" => 32 ≤ b && b < 127
  | "graph" => 32 < b && b < 127
  | "cntrl" => b < 32 || b = 127
  | "xdigit" => c.isDigit || ('a' ≤ c && c ≤ 'f') || ('A' ≤ c && c ≤ 'F')
  | _ => false

def Item.lists (b : UInt8) : Item → Bool
  | range low high => low ≤ b && b ≤ high
  | named name => isInClass name b

/-- Whether a byte is a character that means something. -/
def isBare (c : Char) (m : Mark) : Bool := ! m.isQuoted && m.byte = code c

/-- The name of a class in front of its closing sign, with what is behind it. -/
def className? : List Mark → Option (List Char × List Mark)
  | a :: b :: s =>
    if isBare ':' a ∧ isBare ']' b then some ([], s)
    else if (Char.ofNat a.byte.toNat).isAlpha then
      (className? (b :: s)).map fun (name, s) => (Char.ofNat a.byte.toNat :: name, s)
    else none
  | _ => none

/-- Reads the items of brackets up to the closing one, with what is behind it. A bracket that closes
right at the start is an item. -/
def readItems : (fuel : Nat) → (atStart : Bool) → List Mark → Option (List Item × List Mark)
  | 0, _, _ | _, _, [] => none
  | fuel + 1, atStart, m :: s =>
    let named : Option (List Char × List Mark) :=
      match s with
      | c :: t => if isBare '[' m ∧ isBare ':' c then className? t else none
      | [] => none
    if isBare ']' m ∧ ! atStart then some ([], s)
    else
      match named, s with
      | some (name, t), _ =>
        (readItems fuel false t).map fun (is, t) => (.named (String.ofList name) :: is, t)
      | none, dash :: high :: t =>
        if isBare '-' dash ∧ ! isBare ']' high then
          (readItems fuel false t).map fun (is, t) => (.range m.byte high.byte :: is, t)
        else
          (readItems fuel false s).map fun (is, t) => (.range m.byte m.byte :: is, t)
      | none, s => (readItems fuel false s).map fun (is, t) => (.range m.byte m.byte :: is, t)

/-- The parts of a pattern. A bracket that is not closed is itself. -/
def partsFrom : (fuel : Nat) → List Mark → List Part
  | 0, _ | _, [] => []
  | fuel + 1, m :: s =>
    if isBare '*' m then .many :: partsFrom fuel s
    else if isBare '?' m then .one :: partsFrom fuel s
    else if isBare '[' m then
      let (negated, t) := match s with
        | n :: t => if isBare '!' n ∨ isBare '^' n then (true, t) else (false, s)
        | [] => (false, s)
      match readItems (t.length + 1) true t with
      | some (items, t) => .among negated items :: partsFrom fuel t
      | none => .literal m.byte :: partsFrom fuel s
    else .literal m.byte :: partsFrom fuel s

def parts (p : List Mark) : List Part := partsFrom (p.length + 1) p

def Part.accepts (b : UInt8) : Part → Bool
  | many | one => true
  | literal c => c = b
  | among negated items => items.any (Item.lists b) != negated

def accepts : List Part → Bytes → Bool
  | [], s => s.isEmpty
  | .many :: ps, [] => accepts ps []
  | .many :: ps, b :: s => accepts ps (b :: s) || accepts (.many :: ps) s
  | _ :: _, [] => false
  | p :: ps, b :: s => p.accepts b && accepts ps s
termination_by ps s => (ps.length, s.length)

def isSpecial (p : List Mark) : Bool :=
  (parts p).any fun
    | .literal _ => false
    | _ => true

/-- What is left when a pattern is taken off the start, as little or as much as possible. -/
def withoutStart (longest : Bool) (p : List Mark) (s : Bytes) : Bytes :=
  let ps := parts p
  let ends := (List.range (s.length + 1)).filter fun n => accepts ps (s.take n)
  match if longest then ends.getLast? else ends.head? with
  | some n => s.drop n
  | none => s

/-- What is left when a pattern is taken off the end, as little or as much as possible. -/
def withoutEnd (longest : Bool) (p : List Mark) (s : Bytes) : Bytes :=
  let ps := parts p
  let starts := (List.range (s.length + 1)).filter fun n => accepts ps (s.drop n)
  match if longest then starts.head? else starts.getLast? with
  | some n => s.take n
  | none => s

end Pattern

end QualityGate.Shell
