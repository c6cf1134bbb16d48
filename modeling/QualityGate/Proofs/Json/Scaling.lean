import QualityGate.Proofs.Json.Grammar

/-! # Which numbers fit

A number fits exactly if it is read as a finite one: `Numeral.fits_iff`. Its digits are read into a
word, so that what they are rounded to is small; a quotient of it by a power of ten is small again,
by induction on the parts in which it is taken, and only a product can be too large. A number with
few digits keeps all of them: `Numeral.parts_of_lt`. -/

namespace QualityGate.Json

/-! ### Digits in a word -/

theorem absorb_lt {m : Nat} (hm : m < 2 ^ 64) (ds : Bytes) : (absorb m ds).1 < 2 ^ 64 := by
  induction ds generalizing m with
  | nil => exact hm
  | cons b ds ih =>
    rw [absorb]
    split
    · rename_i hgrown
      exact ih hgrown
    · exact hm

theorem Numeral.mantissa_lt (n : Numeral) : n.mantissa < 2 ^ 64 :=
  absorb_lt (absorb_lt (by decide) _) _

/-- The number that digits write behind others. -/
def digitsValueFrom (m : Nat) (ds : Bytes) : Nat :=
  ds.foldl (fun n b => 10 * n + (b.toNat - 0x30)) m

theorem le_digitsValueFrom (m : Nat) (ds : Bytes) : m ≤ digitsValueFrom m ds := by
  induction ds generalizing m with
  | nil => exact Nat.le_refl m
  | cons b ds ih =>
    have hgrown : m ≤ 10 * m + (b.toNat - 0x30) := by omega
    exact Nat.le_trans hgrown (ih _)

/-- Digits whose number fits the word are all taken. -/
theorem absorb_of_lt {m : Nat} {ds : Bytes} (h : digitsValueFrom m ds < 2 ^ 64) :
    absorb m ds = (digitsValueFrom m ds, []) := by
  induction ds generalizing m with
  | nil => rfl
  | cons b ds ih =>
    have hgrown : 10 * m + (b.toNat - 0x30) < Nat.pow 2 64 :=
      Nat.lt_of_le_of_lt (le_digitsValueFrom _ ds) h
    rw [absorb, if_pos hgrown]
    exact ih h

theorem Numeral.parts_of_lt {n : Numeral}
    (h : digitsValue (n.whole ++ n.fraction.getD []) < 2 ^ 64) :
    n.parts =
      (digitsValue (n.whole ++ n.fraction.getD []),
        n.exponent.getD 0 - (n.fraction.getD []).length) := by
  have happend : digitsValue (n.whole ++ n.fraction.getD []) =
      digitsValueFrom (digitsValueFrom 0 n.whole) (n.fraction.getD []) := List.foldl_append
  rw [happend] at h ⊢
  have hwhole := Nat.lt_of_le_of_lt (le_digitsValueFrom _ (n.fraction.getD [])) h
  rw [parts]
  dsimp only
  rw [absorb_of_lt hwhole]
  dsimp only
  rw [absorb_of_lt h]
  simp

/-! ### Small numbers -/

namespace Numeral

open Binary64 (units value threshold infinity ofQuotient powerOfTen quotient)

/-- What a word is rounded to is not larger. -/
def Small (magnitude : Nat) : Prop := units magnitude ≤ 2 ^ 65 * Nat.pow 2 1074

theorem units_zero : units 0 = 0 := by decide +kernel

theorem word_lt_threshold : 2 ^ 67 < threshold := by decide +kernel

theorem ofQuotient_word_finite {m : Nat} (hm : m < 2 ^ 64) : ofQuotient m 1 < infinity := by
  have hthreshold := word_lt_threshold
  rw [← Nat.not_le, Binary64.infinity_le_ofQuotient_iff Nat.one_pos]
  omega

theorem small_word {m : Nat} (hm : m < 2 ^ 64) : Small (ofQuotient m 1) := by
  have hle := Binary64.units_ofQuotient_mul_le Nat.one_pos (ofQuotient_word_finite hm)
  rw [Nat.mul_one] at hle
  rw [Small]
  generalize Nat.pow 2 1074 = unit at *
  calc units (ofQuotient m 1) ≤ 2 * (m * unit) := hle
    _ ≤ 2 * (2 ^ 64 * unit) := Nat.mul_le_mul_left 2 (Nat.mul_le_mul_right unit (Nat.le_of_lt hm))
    _ = 2 ^ 65 * unit := (Nat.mul_assoc 2 (2 ^ 64) unit).symm

theorem ofQuotient_word_eq_zero_iff {m : Nat} (hm : m < 2 ^ 64) : ofQuotient m 1 = 0 ↔ m = 0 := by
  constructor
  · intro hzero
    by_contra hne
    have hpos : ∀ e, ¬ m * Nat.pow 2 e ≤ 0 := fun e =>
      Nat.not_le.mpr (Binary64.mul_pow_pos (Nat.pos_of_ne_zero hne) e)
    refine hpos 1074 (Nat.le_trans (Binary64.le_units_ofQuotient_mul Nat.one_pos
      (Nat.one_le_iff_ne_zero.mpr hne) (ofQuotient_word_finite hm)) ?_)
    rw [hzero, units_zero]
  · rintro rfl
    exact Binary64.ofQuotient_zero Nat.one_pos

theorem greatestPower_lt_threshold : Nat.pow 10 greatestPower < threshold := by decide +kernel

/-- The powers of ten up to the greatest are finite and rounded by a factor of two at most. -/
theorem le_units_powerOfTen {k : Nat} (hk : k ≤ greatestPower) :
    Nat.pow 10 k * Nat.pow 2 1074 ≤ 2 * units (powerOfTen k) := by
  have hmono : ∀ {e}, k ≤ e → Nat.pow 10 k ≤ Nat.pow 10 e := Nat.pow_le_pow_right (by decide)
  have hfinite : powerOfTen k < infinity := by
    rw [← Nat.not_le, powerOfTen, Binary64.infinity_le_ofQuotient_iff Nat.one_pos, Nat.mul_one]
    exact Nat.not_le.mpr (Nat.lt_of_le_of_lt (hmono hk) greatestPower_lt_threshold)
  have hpos : 1 ≤ Nat.pow 10 k := Nat.pow_pos (by decide)
  have hunits := Binary64.le_units_ofQuotient_mul Nat.one_pos hpos hfinite
  rw [Nat.mul_one] at hunits
  exact hunits

theorem unit_le_units_powerOfTen {k : Nat} (hk : k ≤ greatestPower) :
    Nat.pow 2 1074 ≤ 2 * units (powerOfTen k) := by
  have hpos : 1 ≤ Nat.pow 10 k := Nat.pow_pos (by decide)
  exact Nat.le_trans (Nat.le_mul_of_pos_left _ hpos) (le_units_powerOfTen hk)

theorem units_powerOfTen_pos {k : Nat} (hk : k ≤ greatestPower) : 0 < units (powerOfTen k) := by
  have hle := unit_le_units_powerOfTen hk
  have hpos : ∀ e, 0 < Nat.pow 2 e := fun e => Nat.pow_pos (by decide)
  have hunit := hpos 1074
  omega

theorem quotient_finite {f k : Nat} (hf : Small f) (hk : k ≤ greatestPower) :
    quotient f (powerOfTen k) < infinity := by
  have hpower := unit_le_units_powerOfTen hk
  have hpos := units_powerOfTen_pos hk
  rw [← Nat.not_le, quotient, Binary64.infinity_le_ofQuotient_iff hpos]
  rw [Small] at hf
  generalize units (powerOfTen k) = p at *
  generalize Nat.pow 2 1074 = unit at *
  intro hlarge
  have hthreshold : 2 ^ 67 * p ≤ threshold * p :=
    Nat.mul_le_mul_right p (Nat.le_of_lt word_lt_threshold)
  omega

theorem small_quotient {f : Nat} (hf : Small f) :
    Small (quotient f (powerOfTen greatestPower)) := by
  have hpower := le_units_powerOfTen (Nat.le_refl greatestPower)
  have hpos := units_powerOfTen_pos (Nat.le_refl greatestPower)
  have hle := Binary64.units_ofQuotient_mul_le hpos (quotient_finite hf (Nat.le_refl greatestPower))
  have hten : 4 ≤ Nat.pow 10 greatestPower := by decide +kernel
  have hunitPos : ∀ e, 0 < Nat.pow 2 e := fun e => Nat.pow_pos (by decide)
  have hunit := hunitPos 1074
  rw [Small] at *
  refine Nat.le_trans ?_ hf
  rw [quotient]
  generalize units (ofQuotient _ _) = q at *
  generalize units (powerOfTen greatestPower) = p at *
  generalize Nat.pow 2 1074 = unit at *
  have hscaled : 2 * unit ≤ p := by
    have := Nat.mul_le_mul_right unit hten
    omega
  have hquotient : q * (2 * unit) ≤ units f * (2 * unit) :=
    calc q * (2 * unit) ≤ q * p := Nat.mul_le_mul_left q hscaled
      _ ≤ 2 * (units f * unit) := hle
      _ = units f * (2 * unit) := Nat.mul_left_comm 2 (units f) unit
  exact Nat.le_of_mul_le_mul_right hquotient (by omega)

theorem small_shrink {f : Nat} (hf : Small f) (times : Nat) : Small (shrink times f) := by
  induction times generalizing f with
  | zero => exact hf
  | succ times ih =>
    rw [shrink]
    split
    · rename_i hzero
      rwa [hzero] at hf
    · exact ih (small_quotient hf)

/-! ### Numbers that are too large -/

/-- Only a product can be too large. -/
theorem infinity_le_scale_iff {m : Nat} (hm : m < 2 ^ 64) (power : Int) :
    infinity ≤ scale (ofQuotient m 1) power ↔
      m ≠ 0 ∧ 0 ≤ power ∧ (power ≤ greatestPower →
        (threshold : ℚ) ≤ value (ofQuotient m 1) * value (powerOfTen power.toNat)) := by
  have hzero := ofQuotient_word_eq_zero_iff hm
  rw [scale]
  by_cases hlarge : (greatestPower : Int) < power
  · rw [if_pos hlarge]
    have hpower : 0 ≤ power := by omega
    by_cases hm0 : m = 0
    · rw [if_pos (hzero.mpr hm0)]
      exact iff_of_false (by decide) fun h => h.1 hm0
    · rw [if_neg fun h => hm0 (hzero.mp h)]
      exact iff_of_true (Nat.le_refl _) ⟨hm0, hpower, fun h => absurd hlarge (Int.not_lt.mpr h)⟩
  rw [if_neg hlarge]
  by_cases hpower : 0 ≤ power
  · rw [if_pos hpower, Binary64.infinity_le_product_iff]
    refine ⟨fun h => ⟨?_, hpower, fun _ => h⟩, fun h => h.2.2 (by omega)⟩
    rintro rfl
    have hvalue : value (ofQuotient 0 1) = 0 := by
      rw [Binary64.ofQuotient_zero Nat.one_pos, value, units_zero, Nat.cast_zero, zero_div]
    have hthreshold : (0 : ℚ) < threshold := by exact_mod_cast Binary64.threshold_pos
    rw [hvalue, zero_mul] at h
    exact absurd h (not_le.mpr hthreshold)
  · rw [if_neg hpower]
    dsimp only
    refine iff_of_false (Nat.not_le.mpr (quotient_finite (small_shrink (small_word hm) _) ?_))
      fun h => hpower h.2.1
    have hblock : ((-power).toNat - 1) / greatestPower * greatestPower ≤ _ := Nat.div_mul_le_self _ _
    have hrest := Nat.lt_div_mul_add (a := (-power).toNat - 1) (b := greatestPower) (by decide)
    rw [Nat.mul_comm] at hblock hrest
    omega

/-- A number fits exactly if it is read as a finite one. -/
theorem fits_iff (n : Numeral) : n.Fits ↔ ¬ infinity ≤ n.real.magnitude := by
  rw [real, infinity_le_scale_iff n.mantissa_lt, Fits]
  have hsplit := lt_or_ge
    (value (ofQuotient n.mantissa 1) * value (powerOfTen n.power.toNat)) (threshold : ℚ)
  constructor
  · rintro (hzero | hneg | ⟨hpower, hlt⟩) ⟨hm, hpos, hlarge⟩
    · exact hm hzero
    · omega
    · exact absurd (hlarge hpower) (not_le.mpr hlt)
  · intro h
    by_contra hno
    obtain ⟨hm, hpos, hlarge⟩ := by simpa only [not_or, not_and, not_lt] using hno
    exact h ⟨hm, hpos, hlarge⟩

-- The digits that are dropped or kept decide, and not which number is nearest.
example : (readNumber false (Bytes.ofString "1.7976931348623158e308")).isOk = false := by
  decide +kernel

example : (readNumber false (Bytes.ofString "1.79769313486231581e308")).isOk = true := by
  decide +kernel

theorem value_le_of_small {f : Nat} (hf : Small f) : value f ≤ 2 ^ 65 := by
  have hpos : ∀ e, 0 < Nat.pow 2 e := fun e => Nat.pow_pos (by decide)
  have hunit := hpos 1074
  rw [Small] at hf
  rw [value]
  generalize Nat.pow 2 1074 = unit at *
  have hunit' : (0 : ℚ) < unit := by exact_mod_cast hunit
  rw [div_le_iff₀ hunit']
  exact_mod_cast hf

/-- The digits alone are never too large. -/
theorem fits_of_power_eq_zero {n : Numeral} (h : n.power = 0) : n.Fits := by
  have hone : value (powerOfTen 0) = 1 := by
    have hpos : ∀ e, Nat.pow 2 e ≠ 0 := fun e => (Nat.pow_pos (by decide)).ne'
    have hunit := hpos 1074
    rw [value, show units (powerOfTen 0) = Nat.pow 2 1074 by decide +kernel]
    generalize Nat.pow 2 1074 = unit at *
    exact div_self (by exact_mod_cast hunit)
  have hle := value_le_of_small (small_word n.mantissa_lt)
  have hthreshold : (2 : ℚ) ^ 67 < threshold := by exact_mod_cast word_lt_threshold
  rw [Fits, h, Int.toNat_zero, hone, mul_one]
  refine .inr (.inr ⟨by decide, ?_⟩)
  linarith

end Numeral

end QualityGate.Json
