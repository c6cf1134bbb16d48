/-! # Binary64 numbers

A number of the format is a sign and a magnitude of 63 bits. The magnitudes are numbered in the order
of their values: a finite one counts `significand * 2 ^ exponent`, then comes infinity, and everything
above is not a number. A quotient is rounded to the nearest of them, and a tie goes to the even one;
so are decimals, and the products and quotients of finite magnitudes. -/

namespace QualityGate

structure Binary64 where
  negative : Bool
  magnitude : Nat
  deriving DecidableEq, Repr

namespace Binary64

/-- The word that stands for the number. -/
def bits (x : Binary64) : Nat :=
  (if x.negative then Nat.pow 2 63 else 0) + x.magnitude

def infinity : Nat := 2047 * Nat.pow 2 52

/-- The magnitude of the number that is none. -/
def notNumber : Nat := infinity + Nat.pow 2 51

/-- The whole factor of a finite magnitude. -/
def significand (magnitude : Nat) : Nat :=
  if magnitude < Nat.pow 2 52 then magnitude else Nat.pow 2 52 + magnitude % Nat.pow 2 52

/-- The power of two of a finite magnitude, counted from the least one, `2 ^ -1074`. -/
def exponent (magnitude : Nat) : Nat :=
  magnitude / Nat.pow 2 52 - 1

/-- The quotient rounded to the nearest whole number, a tie to the even one. -/
def roundedQuotient (num den : Nat) : Nat :=
  let q := num / den
  let twice := 2 * (num % den)
  if twice < den ∨ (twice = den ∧ q % 2 = 0) then q else q + 1

/-- The magnitude nearest to a quotient of positive numbers. Everything from half a step beyond the
greatest finite one counts as infinity. -/
def ofQuotient (num den : Nat) : Nat :=
  -- The numerator in units of the least magnitude, and the power of two that leaves 53 bits of it.
  let units := num * Nat.pow 2 1074
  let excess := units.log2 - den.log2 - 53
  let power := if units / (den * Nat.pow 2 excess) < Nat.pow 2 53 then excess else excess + 1
  let magnitude := power * Nat.pow 2 52 + roundedQuotient units (den * Nat.pow 2 power)
  min magnitude infinity

/-- The value of a finite magnitude, counted in the least one. -/
def units (magnitude : Nat) : Nat :=
  significand magnitude * Nat.pow 2 (exponent magnitude)

/-- The magnitude nearest to the product of two finite ones. -/
def product (a b : Nat) : Nat := ofQuotient (units a * units b) (Nat.pow 2 2148)

/-- The magnitude nearest to the quotient of two finite ones. -/
def quotient (a b : Nat) : Nat := ofQuotient (units a) (units b)

/-- The magnitude nearest to a power of ten. -/
def powerOfTen (k : Nat) : Nat := ofQuotient (Nat.pow 10 k) 1

/-- The magnitude nearest to `digits * 10 ^ power`. Outside the powers that are computed the answer
is plain from the number of digits alone. -/
def ofDecimal (digits : Nat) (power : Int) : Nat :=
  let size : Int := (Nat.toDigits 10 digits).length + power
  if digits = 0 ∨ size < -350 then 0
  else if 350 < size then infinity
  else if 0 ≤ power then ofQuotient (digits * Nat.pow 10 power.toNat) 1
  else ofQuotient digits (Nat.pow 10 (-power).toNat)

end Binary64

end QualityGate
