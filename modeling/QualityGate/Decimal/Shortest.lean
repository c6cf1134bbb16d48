import QualityGate.Decimal.Binary64

/-! # Shortest decimals

The decimal of a binary64 number with the fewest digits that reads back as the same number, and of
those the nearest one. It is written in full, without a power of ten. -/

namespace QualityGate.Decimal

/-- The reals that round to a magnitude, as an interval in quarters of the unit `2 ^ exponent`; its
ends belong to it if the significand is even. -/
structure Interval where
  low : Nat
  value : Nat
  high : Nat
  closed : Bool

/-- The interval of a finite magnitude. Below a power of two the neighbours are half as far away. -/
def Interval.ofMagnitude (magnitude : Nat) : Interval :=
  let m := Binary64.significand magnitude
  let close := m = Nat.pow 2 52 ∧ 1 < magnitude / Nat.pow 2 52
  ⟨4 * m - (if close then 1 else 2), 4 * m, 4 * m + 2, m % 2 = 0⟩

/-- Whether `k` steps of length `num / den` end in the interval. -/
def Interval.holds (i : Interval) (num den k : Nat) : Bool :=
  if i.closed then i.low * den ≤ k * num && k * num ≤ i.high * den
  else i.low * den < k * num && k * num < i.high * den

/-- The multiple of the step `num / den` in the interval that is nearest to its value, if one of the
two neighbours of the value is in it. -/
def Interval.nearest? (i : Interval) (num den : Nat) : Option Nat :=
  let k := i.value * den / num
  let below := i.value * den - k * num
  let above := (k + 1) * num - i.value * den
  match i.holds num den k, i.holds num den (k + 1) with
  | true, true => some (if below < above ∨ (below = above ∧ k % 2 = 0) then k else k + 1)
  | true, false => some k
  | false, true => some (k + 1)
  | false, false => none

/-- The first power of ten, from `power` down, of which the interval holds a multiple. The interval
counts in quarters of the least magnitude times `scale`. -/
def coarsest (i : Interval) (scale : Nat) : (fuel : Nat) → (power : Int) → Nat × Int
  | 0, power => (0, power)
  | fuel + 1, power =>
    -- The step in quarters of the unit.
    let num := 4 * Nat.pow 2 1074 * Nat.pow 10 power.toNat
    let den := scale * Nat.pow 10 (-power).toNat
    match i.nearest? num den with
    | some k => if k = 0 then coarsest i scale fuel (power - 1) else (k, power)
    | none => coarsest i scale fuel (power - 1)

/-- The digits and the power of ten of the shortest decimal of a finite magnitude. -/
def shortest (magnitude : Nat) : Nat × Int :=
  if magnitude = 0 then (0, 0)
  else coarsest (.ofMagnitude magnitude) (Nat.pow 2 (Binary64.exponent magnitude)) 700 309

/-- A decimal in full, with at least one digit on each side of the point. -/
def positional (digits : Nat) (power : Int) : List Char :=
  let ds := (Nat.toDigits 10 digits)
  if 0 ≤ power then
    let ds := if digits = 0 then ds else ds ++ List.replicate power.toNat '0'
    ds ++ ['.', '0']
  else
    let n := (-power).toNat
    let ds := List.replicate (n + 1 - ds.length) '0' ++ ds
    ds.take (ds.length - n) ++ '.' :: ds.drop (ds.length - n)

/-- The text of a number: the shortest decimal with its sign, or a word. -/
def render (x : Binary64) : String :=
  if Binary64.infinity < x.magnitude then "NaN"
  else
    let digits :=
      if x.magnitude = Binary64.infinity then "inf".toList
      else
        let (d, power) := shortest x.magnitude
        positional d power
    String.ofList (if x.negative then '-' :: digits else digits)

end QualityGate.Decimal
