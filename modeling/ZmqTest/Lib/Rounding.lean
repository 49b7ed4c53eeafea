/-
# Rounding to a number of significant bits

A floating-point number that is an integer has a leading bit and a fixed number of
bits behind it; the numbers of one binade are the multiples of one spacing. A value
is rounded to the nearest of them, and to the even one when two are equally near.
What a rounded value can be follows from two facts: it is a multiple of the spacing,
and it is at most half a spacing away.
-/

import Mathlib.Algebra.Ring.Nat
import Mathlib.Data.Nat.Log

namespace Rounding

/-- The distance of neighbouring numbers with `fraction` bits behind the leading one,
in the binade of `value`. -/
def spacing (fraction value : Nat) : Nat := 2 ^ (value.log2 - fraction)

/-- Round to a leading bit and `fraction` bits behind it, ties to even. -/
def roundEven (fraction value : Nat) : Nat :=
  let unit := 2 ^ (value.log2 - fraction)
  let low := value / unit * unit
  let error := value % unit
  if 2 * error < unit ∨ 2 * error = unit ∧ value / unit % 2 = 0 then low else low + unit

variable {fraction value : Nat}

/-- Values below a power of two have the spacing of the binade below it, or less. -/
theorem spacing_le {k : Nat} (h : value < 2 ^ (k + fraction + 1)) :
    spacing fraction value ≤ 2 ^ k := by
  by_cases hzero : value = 0
  · subst hzero
    simpa [spacing] using Nat.one_le_two_pow
  · have hlog := (Nat.log2_lt hzero).mpr h
    apply Nat.pow_le_pow_right (by decide)
    omega

/-- Values from a power of two on have the spacing of its binade, or a multiple of it. -/
theorem pow_dvd_spacing {k : Nat} (h : 2 ^ (k + fraction) ≤ value) :
    2 ^ k ∣ spacing fraction value := by
  have hpos : value ≠ 0 := Nat.ne_of_gt (Nat.lt_of_lt_of_le (Nat.two_pow_pos _) h)
  have hlog := (Nat.le_log2 hpos).mpr h
  exact Nat.pow_dvd_pow 2 (Nat.le_sub_of_add_le hlog)

/-- The spacing divides the numbers that have few enough significant bits. -/
theorem spacing_dvd {significand exponent : Nat} (h : significand < 2 ^ (fraction + 1)) :
    spacing fraction (significand * 2 ^ exponent) ∣ significand * 2 ^ exponent := by
  have hlt : significand * 2 ^ exponent < 2 ^ (exponent + fraction + 1) := by
    have hpow : 2 ^ (exponent + fraction + 1) = 2 ^ (fraction + 1) * 2 ^ exponent := by
      rw [← Nat.pow_add]
      congr 1
      omega
    rw [hpow]
    exact Nat.mul_lt_mul_of_pos_right h (Nat.two_pow_pos _)
  have hle : (significand * 2 ^ exponent).log2 - fraction ≤ exponent := by
    by_cases hzero : significand * 2 ^ exponent = 0
    · simp [hzero]
    · have hlog := (Nat.log2_lt hzero).mpr hlt
      omega
  exact Nat.dvd_mul_left_of_dvd (Nat.pow_dvd_pow 2 hle) significand

/-- A rounded value is a multiple of the spacing. -/
theorem spacing_dvd_roundEven (fraction value : Nat) :
    spacing fraction value ∣ roundEven fraction value := by
  have hlow : spacing fraction value ∣ value / spacing fraction value * spacing fraction value :=
    Nat.dvd_mul_left _ _
  simp only [roundEven]
  split
  case isTrue => exact hlow
  case isFalse => exact (Nat.dvd_add_iff_left (Nat.dvd_refl _)).mp hlow

/-- Rounding up adds at most half a spacing. -/
theorem roundEven_le (fraction value : Nat) :
    2 * roundEven fraction value ≤ 2 * value + spacing fraction value := by
  have hdiv := Nat.div_add_mod value (spacing fraction value)
  rw [Nat.mul_comm] at hdiv
  simp only [spacing] at hdiv ⊢
  simp only [roundEven]
  split <;> omega

/-- What is a multiple of its spacing is not rounded. -/
theorem roundEven_of_dvd (h : spacing fraction value ∣ value) :
    roundEven fraction value = value := by
  have hmod : value % 2 ^ (value.log2 - fraction) = 0 := Nat.mod_eq_zero_of_dvd h
  simp only [roundEven, hmod]
  rw [if_pos (Or.inl (Nat.two_pow_pos _))]
  exact Nat.div_mul_cancel h

/-- Numbers with few enough significant bits are not rounded. -/
theorem roundEven_mul_pow {significand : Nat} (h : significand ≤ 2 ^ (fraction + 1))
    (exponent : Nat) :
    roundEven fraction (significand * 2 ^ exponent) = significand * 2 ^ exponent := by
  apply roundEven_of_dvd
  rcases Nat.lt_or_eq_of_le h with hlt | rfl
  · exact spacing_dvd hlt
  · -- the number is a power of two, which has one significant bit
    have hone : 2 ^ (fraction + 1) * 2 ^ exponent = 1 * 2 ^ (fraction + 1 + exponent) := by
      rw [Nat.one_mul, Nat.pow_add 2 (fraction + 1)]
    rw [hone]
    exact spacing_dvd (Nat.one_lt_two_pow (Nat.succ_ne_zero _))

/-- A value whose distance to a bound is more than half a spacing stays below it. -/
theorem roundEven_lt {bound k : Nat} (small : value < 2 ^ (k + fraction + 1))
    (h : 2 * value + 2 ^ k < 2 * bound) : roundEven fraction value < bound := by
  have hround := roundEven_le fraction value
  have hspacing := spacing_le small
  omega

end Rounding
