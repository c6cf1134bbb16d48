import Mathlib.Algebra.Order.Field.Basic
import Mathlib.Data.Rat.Defs
import Mathlib.Tactic.Ring
import Mathlib.Tactic.Linarith
import Mathlib.Tactic.NormNum
import QualityGate.Decimal.Binary64

/-! # Which numbers are too large

A quotient is rounded to infinity exactly from a threshold on, half a step beyond the greatest finite
number: `infinity_le_ofQuotient_iff`. The quotient is scaled so that at most 53 bits are left of it;
then only the greatest power of two is of interest, and in it only the last half step. The literal
powers are kept as they are, for none of them is small enough to be computed by a tactic.

Below the threshold a rounding is off by a factor of two at most, which is little precision but holds
for the smallest numbers too: `units_ofQuotient_mul_le`, `le_units_ofQuotient_mul`. It shows that a
quotient of a small number by a power of ten is never too large. -/

namespace QualityGate.Binary64

theorem le_roundedQuotient {num den m : Nat} (hden : 0 < den) (h : m * den ≤ num) :
    m ≤ roundedQuotient num den := by
  have hm : m ≤ num / den := (Nat.le_div_iff_mul_le hden).mpr h
  rw [roundedQuotient]
  split <;> omega

theorem roundedQuotient_le {num den m : Nat} (hden : 0 < den) (h : num < m * den) :
    roundedQuotient num den ≤ m := by
  have hm : num / den < m := (Nat.div_lt_iff_lt_mul hden).mpr h
  rw [roundedQuotient]
  split <;> omega

/-- A quotient below an even number is rounded up to it from half a step below on. -/
theorem roundedQuotient_eq_iff {num den m : Nat} (hden : 0 < den) (heven : m % 2 = 0)
    (h : num < m * den) : roundedQuotient num den = m ↔ (2 * m - 1) * den ≤ 2 * num := by
  have hlt : num / den < m := (Nat.div_lt_iff_lt_mul hden).mpr h
  have hdecomp := Nat.div_add_mod num den
  have hrem := Nat.mod_lt num hden
  rw [roundedQuotient]
  generalize num / den = q at *
  generalize num % den = r at *
  by_cases hq : q + 1 = m
  · subst hq
    have hodd : ¬ q % 2 = 0 := by omega
    have hmul : (2 * (q + 1) - 1) * den = 2 * (den * q) + den := by
      rw [show 2 * (q + 1) - 1 = 2 * q + 1 by omega]
      ring
    rw [hmul, ← hdecomp]
    split <;> omega
  · have hle : (2 * m - 1) * den ≥ 2 * (den * q) + 3 * den := by
      have : 2 * q + 3 ≤ 2 * m - 1 := by omega
      calc 2 * (den * q) + 3 * den = (2 * q + 3) * den := by ring
        _ ≤ (2 * m - 1) * den := Nat.mul_le_mul_right den this
    split <;> omega

/-- The power of two by which `ofQuotient` divides. -/
def power (units den : Nat) : Nat :=
  let excess := units.log2 - den.log2 - 53
  if units / (den * Nat.pow 2 excess) < 2 ^ 53 then excess else excess + 1

theorem ofQuotient_eq (num den : Nat) :
    ofQuotient num den =
      min (power (num * Nat.pow 2 1074) den * 2 ^ 52 +
        roundedQuotient (num * Nat.pow 2 1074)
          (den * Nat.pow 2 (power (num * Nat.pow 2 1074) den))) infinity := rfl

theorem mul_pow_pos {den : Nat} (hden : 0 < den) (k : Nat) : 0 < den * Nat.pow 2 k :=
  Nat.mul_pos hden (Nat.pow_pos (by decide))

/-- At most 53 bits are left. -/
theorem lt_of_power {units den : Nat} (hden : 0 < den) :
    units < 2 ^ 53 * (den * Nat.pow 2 (power units den)) := by
  rw [power]
  generalize hexcess : units.log2 - den.log2 - 53 = excess
  split
  · rename_i hfits
    exact (Nat.div_lt_iff_lt_mul (mul_pow_pos hden excess)).mp hfits
  · have hunits := Nat.lt_log2_self (n := units)
    have hlog := Nat.log2_self_le (Nat.ne_of_gt hden)
    have hpow : 2 ^ (units.log2 + 1) ≤ 2 ^ 53 * (2 ^ den.log2 * 2 ^ (excess + 1)) := by
      rw [← Nat.pow_add, ← Nat.pow_add]
      exact Nat.pow_le_pow_right (by decide) (by omega)
    calc units < 2 ^ (units.log2 + 1) := hunits
      _ ≤ 2 ^ 53 * (2 ^ den.log2 * 2 ^ (excess + 1)) := hpow
      _ ≤ 2 ^ 53 * (den * 2 ^ (excess + 1)) :=
        Nat.mul_le_mul_left _ (Nat.mul_le_mul_right _ hlog)

/-- No fewer than 53 bits are left, unless the power is the least. -/
theorem le_of_power {units den : Nat} (hunits : 0 < units) (hden : 0 < den)
    (hpower : 0 < power units den) : 2 ^ 52 * (den * Nat.pow 2 (power units den)) ≤ units := by
  rw [power] at hpower ⊢
  generalize hexcess : units.log2 - den.log2 - 53 = excess at *
  split at hpower
  · rename_i hfits
    rw [if_pos hfits]
    have hlog := Nat.log2_self_le (Nat.ne_of_gt hunits)
    have hden' := Nat.lt_log2_self (n := den)
    have hpow : 2 ^ 52 * (2 ^ (den.log2 + 1) * 2 ^ excess) ≤ 2 ^ units.log2 := by
      rw [← Nat.pow_add, ← Nat.pow_add]
      exact Nat.pow_le_pow_right (by decide) (by omega)
    calc 2 ^ 52 * (den * 2 ^ excess) ≤ 2 ^ 52 * (2 ^ (den.log2 + 1) * 2 ^ excess) :=
        Nat.mul_le_mul_left _ (Nat.mul_le_mul_right _ (Nat.le_of_lt hden'))
      _ ≤ 2 ^ units.log2 := hpow
      _ ≤ units := hlog
  · rename_i hfits
    rw [if_neg hfits]
    have hge := (Nat.le_div_iff_mul_le (mul_pow_pos hden excess)).mp (Nat.not_lt.mp hfits)
    calc 2 ^ 52 * (den * 2 ^ (excess + 1)) = 2 ^ 53 * (den * 2 ^ excess) := by
          rw [Nat.pow_succ]
          ring
      _ ≤ units := hge

/-- Half a step beyond the greatest finite number, which is `2 ^ 1024 - 2 ^ 970`. -/
def threshold : Nat := (2 ^ 54 - 1) * Nat.pow 2 970

theorem threshold_mul_le_iff {num den : Nat} :
    threshold * den ≤ num ↔
      (2 ^ 54 - 1) * (den * Nat.pow 2 2045) ≤ 2 * (num * Nat.pow 2 1074) := by
  have hpow : ∀ a b c, c = a + b + 1 → Nat.pow 2 c = 2 * (Nat.pow 2 a * Nat.pow 2 b) := by
    rintro a b c rfl
    simp only [Nat.pow_eq]
    ring
  have hpos : ∀ k, 0 < Nat.pow 2 k := fun k => Nat.pow_pos (by decide)
  rw [threshold, hpow 970 1074 2045 rfl, ← Nat.mul_le_mul_right_iff (hpos 1074),
    ← Nat.mul_le_mul_left_iff (show 0 < 2 by decide)]
  generalize Nat.pow 2 970 = p
  generalize Nat.pow 2 1074 = q
  rw [show 2 * ((2 ^ 54 - 1) * p * den * q) = (2 ^ 54 - 1) * (den * (2 * (p * q))) by ring]

/-- The magnitude is infinity from half a step below the significand `2 ^ 53` of the greatest finite
power on. -/
theorem infinity_le_rounded_iff {units den : Nat} (hunits : 0 < units) (hden : 0 < den) :
    infinity ≤
        power units den * 2 ^ 52 + roundedQuotient units (den * Nat.pow 2 (power units den)) ↔
      (2 ^ 54 - 1) * (den * Nat.pow 2 2045) ≤ 2 * units := by
  have hlt : units < _ := lt_of_power hden
  have hle := le_of_power hunits hden
  generalize power units den = k at *
  have hrounded := roundedQuotient_le (mul_pow_pos hden k) hlt
  have hmono : ∀ {i j}, i ≤ j → den * Nat.pow 2 i ≤ den * Nat.pow 2 j := fun hij =>
    Nat.mul_le_mul_left _ (Nat.pow_le_pow_right (by decide) hij)
  have hdouble : ∀ i j, j = i + 1 → den * Nat.pow 2 j = 2 * (den * Nat.pow 2 i) := by
    rintro i j rfl
    simp only [Nat.pow_eq]
    ring
  have hhalf := fun h => roundedQuotient_eq_iff (m := 2 ^ 53) (mul_pow_pos hden k) h hlt
  have hnormal := fun h => le_roundedQuotient (mul_pow_pos hden k) (hle h)
  have hinfinity : infinity = 2047 * 2 ^ 52 := rfl
  generalize Nat.pow 2 = pow at *
  rcases Nat.lt_trichotomy k 2045 with hk | rfl | hk
  · have hfine := hmono (i := k + 1) hk
    rw [hdouble k (k + 1) rfl] at hfine
    omega
  · have hiff := hhalf (by decide)
    omega
  · have hcoarse := hmono (i := 2046) hk
    rw [hdouble 2045 2046 rfl] at hcoarse
    have hbits := hle (by omega)
    have hfull := hnormal (by omega)
    omega

@[simp]
theorem power_zero (den : Nat) : power 0 den = 0 := by
  simp [power]

@[simp]
theorem ofQuotient_zero {den : Nat} (hden : 0 < den) : ofQuotient 0 den = 0 := by
  have hrounded : roundedQuotient 0 (den * Nat.pow 2 0) = 0 := by
    simp [roundedQuotient, hden]
  rw [ofQuotient_eq]
  generalize Nat.pow 2 1074 = unit
  rw [Nat.zero_mul, power_zero, hrounded]
  rfl

theorem threshold_pos : 0 < threshold := by decide +kernel

/-- Exactly the quotients from the threshold on are rounded to infinity. -/
theorem infinity_le_ofQuotient_iff {num den : Nat} (hden : 0 < den) :
    infinity ≤ ofQuotient num den ↔ threshold * den ≤ num := by
  rcases Nat.eq_zero_or_pos num with rfl | hnum
  · rw [ofQuotient_zero hden]
    exact iff_of_false (by decide) (Nat.not_le.mpr (Nat.mul_pos threshold_pos hden))
  have hunits := mul_pow_pos hnum 1074
  have hrounded := infinity_le_rounded_iff hunits hden
  have hthreshold := @threshold_mul_le_iff num den
  rw [hthreshold, ofQuotient_eq]
  generalize Nat.pow 2 = pow at *
  rw [← hrounded, le_min_iff]
  exact and_iff_left (Nat.le_refl _)

/-! ### Values -/

def value (magnitude : Nat) : ℚ := units magnitude / Nat.pow 2 1074

/-- At most 53 bits and a power of two are a magnitude with their product as its value. -/
theorem units_add {k r : Nat} (hr : r ≤ 2 ^ 53) (hk : k = 0 ∨ 2 ^ 52 ≤ r) :
    units (k * 2 ^ 52 + r) = r * Nat.pow 2 k := by
  have hpow : Nat.pow 2 52 = 2 ^ 52 := rfl
  rw [units, significand, exponent, hpow]
  by_cases hsmall : r < 2 ^ 52
  · obtain rfl : k = 0 := by omega
    rw [if_pos (by omega), show (0 * 2 ^ 52 + r) / 2 ^ 52 - 1 = 0 by omega]
    simp
  rw [if_neg (by omega)]
  by_cases hcarry : r = 2 ^ 53
  · subst hcarry
    rw [show (k * 2 ^ 52 + 2 ^ 53) % 2 ^ 52 = 0 by omega,
      show (k * 2 ^ 52 + 2 ^ 53) / 2 ^ 52 - 1 = k + 1 by omega, Nat.pow_eq, Nat.pow_eq,
      Nat.pow_succ]
    ring
  · rw [show (k * 2 ^ 52 + r) % 2 ^ 52 = r - 2 ^ 52 by omega,
      show (k * 2 ^ 52 + r) / 2 ^ 52 - 1 = k by omega,
      show 2 ^ 52 + (r - 2 ^ 52) = r by omega]

/-- The value of a quotient that is rounded to a finite magnitude. -/
theorem units_ofQuotient {num den : Nat} (hden : 0 < den)
    (hfinite : ofQuotient num den < infinity) :
    units (ofQuotient num den) =
      roundedQuotient (num * Nat.pow 2 1074)
        (den * Nat.pow 2 (power (num * Nat.pow 2 1074) den)) *
          Nat.pow 2 (power (num * Nat.pow 2 1074) den) := by
  rw [ofQuotient_eq] at hfinite ⊢
  generalize num * Nat.pow 2 1074 = n at *
  have hlt : n < 2 ^ 53 * _ := lt_of_power hden
  have hle := fun hn : 0 < n => le_of_power hn hden
  have hzero := power_zero den
  generalize hk : power n den = k at *
  have hrounded := roundedQuotient_le (mul_pow_pos hden k) hlt
  have hnormal : k = 0 ∨ 2 ^ 52 ≤ roundedQuotient n (den * Nat.pow 2 k) := by
    rcases Nat.eq_zero_or_pos k with hk | hpos
    · exact .inl hk
    · have hn : 0 < n := by
        refine Nat.pos_of_ne_zero fun hn => ?_
        rw [hn, hzero] at hk
        omega
      exact .inr (le_roundedQuotient (mul_pow_pos hden k) (hle hn hpos))
  rw [min_eq_left (by omega), units_add hrounded hnormal]

theorem roundedQuotient_mul_le (num den : Nat) : roundedQuotient num den * den ≤ 2 * num := by
  have hdecomp := Nat.div_add_mod num den
  have hcomm := Nat.mul_comm (num / den) den
  rw [roundedQuotient]
  split
  · omega
  · rw [Nat.add_mul, Nat.one_mul]
    omega

theorem le_roundedQuotient_mul {num den : Nat} (hden : 0 < den) (h : den ≤ num) :
    num ≤ 2 * (roundedQuotient num den * den) := by
  have hfloor := le_roundedQuotient hden (Nat.div_mul_le_self num den)
  have hlt := Nat.lt_div_mul_add hden (a := num)
  have hone := Nat.mul_le_mul_right den ((Nat.one_le_div_iff hden).mpr h)
  calc num ≤ 2 * (num / den * den) := by omega
    _ ≤ 2 * (roundedQuotient num den * den) :=
      Nat.mul_le_mul_left 2 (Nat.mul_le_mul_right den hfloor)

theorem units_ofQuotient_mul_le {num den : Nat} (hden : 0 < den)
    (hfinite : ofQuotient num den < infinity) :
    units (ofQuotient num den) * den ≤ 2 * (num * Nat.pow 2 1074) := by
  rw [units_ofQuotient hden hfinite]
  generalize power (num * Nat.pow 2 1074) den = k
  calc _ = roundedQuotient (num * Nat.pow 2 1074) (den * Nat.pow 2 k) * (den * Nat.pow 2 k) := by
        ring
    _ ≤ _ := roundedQuotient_mul_le _ _

theorem le_units_ofQuotient_mul {num den : Nat} (hden : 0 < den) (h : den ≤ num)
    (hfinite : ofQuotient num den < infinity) :
    num * Nat.pow 2 1074 ≤ 2 * (units (ofQuotient num den) * den) := by
  have hpow : ∀ k, 0 < Nat.pow 2 k := fun k => Nat.pow_pos (by decide)
  have hunit := hpow 1074
  rw [units_ofQuotient hden hfinite]
  generalize Nat.pow 2 1074 = unit at *
  have hstep : den ≤ num * unit := Nat.le_trans h (Nat.le_mul_of_pos_right num hunit)
  have hle := le_of_power (Nat.lt_of_lt_of_le hden hstep) hden
  generalize num * unit = n at *
  generalize power n den = k at *
  have hscaled : den * Nat.pow 2 k ≤ n := by
    rcases Nat.eq_zero_or_pos k with rfl | hk
    · rw [Nat.pow_eq, Nat.pow_zero, Nat.mul_one]
      exact hstep
    · exact Nat.le_trans (Nat.le_mul_of_pos_left _ (by decide)) (hle hk)
  calc n ≤ 2 * (roundedQuotient n (den * Nat.pow 2 k) * (den * Nat.pow 2 k)) :=
        le_roundedQuotient_mul (mul_pow_pos hden k) hscaled
    _ = _ := by ring

/-- Exactly the products from the threshold on are rounded to infinity. -/
theorem infinity_le_product_iff {a b : Nat} :
    infinity ≤ product a b ↔ (threshold : ℚ) ≤ value a * value b := by
  have hpow : ∀ a b c, c = a + b → Nat.pow 2 c = Nat.pow 2 a * Nat.pow 2 b := by
    rintro a b c rfl
    exact Nat.pow_add 2 a b
  have hpos : ∀ k, 0 < Nat.pow 2 k := fun k => Nat.pow_pos (by decide)
  have hunit := hpos 1074
  rw [product, infinity_le_ofQuotient_iff (hpos 2148), hpow 1074 1074 2148 rfl, value, value]
  generalize Nat.pow 2 1074 = unit at *
  have hunit' : (0 : ℚ) < unit * unit := by exact_mod_cast Nat.mul_pos hunit hunit
  rw [div_mul_div_comm, le_div_iff₀ hunit']
  exact_mod_cast Iff.rfl

end QualityGate.Binary64
