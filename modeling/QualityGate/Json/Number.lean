import QualityGate.Json.Fault
import QualityGate.Json.Value

/-! # Numbers in JSON texts

A number is whole digits, then perhaps a fraction, then perhaps an exponent. Without the last two it
is kept whole if it fits a word of 64 bits and is not minus zero. Any other number is made binary64
in the way that costs least: as many digits as fit a word are read as a whole number, which is
rounded and then multiplied or divided by a power of ten, which is rounded too. So the outcome need
not be the nearest number, and whether a number is too large is decided by it. -/

namespace QualityGate.Json

def isDigit (b : UInt8) : Bool := 0x30 ≤ b && b ≤ 0x39

def digitsValue (ds : Bytes) : Nat :=
  ds.foldl (fun n b => 10 * n + (b.toNat - 0x30)) 0

structure Numeral where
  negative : Bool
  whole : Bytes
  fraction : Option Bytes
  exponent : Option Int
  deriving DecidableEq, Repr

/-- Takes digits into a word of 64 bits as long as it holds them. The others are left over. -/
def absorb (m : Nat) : Bytes → Nat × Bytes
  | [] => (m, [])
  | b :: ds =>
    let grown := 10 * m + (b.toNat - 0x30)
    if grown < Nat.pow 2 64 then absorb grown ds else (m, b :: ds)

namespace Numeral

/-- The digits that are kept, as a number, and the power of ten that goes with them. Of the whole
digits that are left over it counts how many they are. The digits of the fraction are tried again
behind them, and those that are left over are dropped. -/
def parts (n : Numeral) : Nat × Int :=
  let fraction := n.fraction.getD []
  let (m, excess) := absorb 0 n.whole
  let (m, dropped) := absorb m fraction
  (m, n.exponent.getD 0 + excess.length - (fraction.length - dropped.length))

def mantissa (n : Numeral) : Nat := n.parts.1

def power (n : Numeral) : Int := n.parts.2

/-- The greatest power of ten that is finite. -/
def greatestPower : Nat := 308

/-- Divides by the greatest power of ten, as often as told or until nothing is left. -/
def shrink : (times : Nat) → (magnitude : Nat) → Nat
  | 0, f => f
  | times + 1, f =>
    if f = 0 then 0
    else shrink times (Binary64.quotient f (Binary64.powerOfTen greatestPower))

/-- A magnitude times a power of ten. A quotient by a power that is too large is taken in parts. -/
def scale (f : Nat) (power : Int) : Nat :=
  if (greatestPower : Int) < power then
    if f = 0 then 0 else Binary64.infinity
  else if 0 ≤ power then
    Binary64.product f (Binary64.powerOfTen power.toNat)
  else
    let p := (-power).toNat
    let times := (p - 1) / greatestPower
    Binary64.quotient (shrink times f) (Binary64.powerOfTen (p - greatestPower * times))

/-- The binary64 number that a numeral is read as. -/
def real (n : Numeral) : Binary64 :=
  ⟨n.negative, scale (Binary64.ofQuotient n.mantissa 1) n.power⟩

def number (n : Numeral) : Number :=
  let m := digitsValue n.whole
  if n.fraction.isSome ∨ n.exponent.isSome then .real n.real
  else if n.negative then
    if 0 < m ∧ m ≤ Nat.pow 2 63 then .whole (-(m : Int)) else .real n.real
  else
    if m < Nat.pow 2 64 then .whole m else .real n.real

end Numeral

/-- The whole digits: one zero, or digits that start with none. -/
def readWhole : Bytes → Except Fault (Bytes × Bytes)
  | [] => .error ⟨.endInValue, []⟩
  | b :: s =>
    if b = 0x30 then
      if s.head?.any isDigit then stopAt .badNumber s else .ok ([b], s)
    else if isDigit b then
      .ok (b :: s.takeWhile isDigit, s.dropWhile isDigit)
    else
      .error ⟨.badNumber, s⟩

def readDigits (s : Bytes) : Except Fault (Bytes × Bytes) :=
  match s with
  | [] => .error ⟨.endInValue, []⟩
  | b :: r =>
    if isDigit b then .ok (s.takeWhile isDigit, s.dropWhile isDigit)
    else .error ⟨.badNumber, r⟩

def readFraction : Bytes → Except Fault (Option Bytes × Bytes)
  | 0x2E :: s => do
    let (ds, s) ← readDigits s
    .ok (some ds, s)
  | s => .ok (none, s)

/-- The exponent, if there is one: its sign may be left out. -/
def readExponent : Bytes → Except Fault (Option Int × Bytes)
  | [] => .ok (none, [])
  | e :: s =>
    if e = 0x65 ∨ e = 0x45 then do
      let (negative, s) :=
        match s with
        | 0x2B :: s => (false, s)
        | 0x2D :: s => (true, s)
        | s => (false, s)
      let (ds, s) ← readDigits s
      let n : Int := digitsValue ds
      .ok (some (if negative then -n else n), s)
    else
      .ok (none, e :: s)

def readNumeral (s : Bytes) : Except Fault (Numeral × Bytes) := do
  let (negative, s) :=
    match s with
    | 0x2D :: s => (true, s)
    | s => (false, s)
  let (whole, s) ← readWhole s
  let (fraction, s) ← readFraction s
  let (exponent, s) ← readExponent s
  .ok (⟨negative, whole, fraction, exponent⟩, s)

def readNumber (lenient : Bool) (s : Bytes) : Except Fault (Number × Bytes) := do
  let (n, s) ← readNumeral s
  match n.number with
  | .whole m => .ok (.whole m, s)
  | .real x =>
    if !lenient && Binary64.infinity ≤ x.magnitude then .error ⟨.hugeNumber, s⟩
    else .ok (.real x, s)

end QualityGate.Json
