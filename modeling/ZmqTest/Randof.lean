/-
# The range of `randof`

`randof` is meant to give a number below its argument, and its callers index with it
and print it into buffers of an exact size. The conversion of a value of `random()`
to `float` rounds the last sixty-four values below `RAND_MAX + 1` up to it; for them
the result is the argument itself. For all others the product stays more than half a
spacing below the next multiple of `RAND_MAX + 1`.
-/

import Mathlib.Tactic.Ring
import ZmqTest.Base

namespace ZmqTest

open Rounding

/-- The values of `random()` that are not rounded up to `RAND_MAX + 1`. -/
def RoundsBelow (value : Random) : Prop := value.val < 2147483584

instance (value : Random) : Decidable (RoundsBelow value) :=
  inferInstanceAs (Decidable (_ < _))

/-- The numbers a caller may pass are exact in single precision. -/
theorem rnd24_of_le {num : Nat} (h : num ≤ 2 ^ 24) : rnd24 num = num := by
  have hround : roundEven 23 (num * 2 ^ 0) = num * 2 ^ 0 := roundEven_mul_pow h 0
  rwa [Nat.pow_zero, Nat.mul_one] at hround

/-- A draw that is not rounded up leaves a whole spacing to `RAND_MAX + 1`. -/
theorem rnd24_le_of_roundsBelow {value : Random} (h : RoundsBelow value) :
    rnd24 value ≤ 2 ^ 31 - 128 := by
  rw [RoundsBelow] at h
  rw [rnd24]
  by_cases high : 2 ^ 30 ≤ value.val
  · -- in the highest binade the rounded value is a multiple of 128
    have hlt : roundEven 23 value < 2 ^ 31 := roundEven_lt (k := 7) (by omega) (by omega)
    have hdvd : 2 ^ 7 ∣ roundEven 23 value :=
      Nat.dvd_trans (pow_dvd_spacing high) (spacing_dvd_roundEven 23 value)
    omega
  · have hlt : roundEven 23 value < 2 ^ 30 + 64 := roundEven_lt (k := 6) (by omega) (by omega)
    omega

/-- The other draws are rounded to `RAND_MAX + 1`. -/
theorem rnd24_of_not_roundsBelow {value : Random} (h : ¬ RoundsBelow value) :
    rnd24 value = 2 ^ 31 := by
  have hlt := value.isLt
  rw [RoundsBelow] at h
  have hlog : value.val.log2 = 30 := (Nat.log2_eq_iff (by omega)).mpr ⟨by omega, by omega⟩
  simp only [rnd24, roundEven, hlog]
  split <;> omega

/-- Every positive number is between a power of two and half of it. -/
theorem exists_two_pow {num : Nat} (pos : 1 ≤ num) : ∃ k, num ≤ 2 ^ k ∧ 2 ^ k < 2 * num := by
  refine ⟨Nat.clog 2 num, Nat.le_pow_clog (by decide) num, ?_⟩
  rcases Nat.lt_or_eq_of_le pos with hlt | rfl
  · have hpred := Nat.pow_pred_clog_lt_self (by decide : 1 < 2) hlt
    have hclog : Nat.clog 2 num = (Nat.clog 2 num).pred + 1 :=
      (Nat.succ_pred_eq_of_pos (Nat.clog_pos (by decide) hlt)).symm
    rw [hclog, Nat.pow_succ]
    omega
  · simp

/-- A factor that leaves a whole spacing keeps the product from being rounded up to
the next multiple of `RAND_MAX + 1`. -/
theorem rnd24_mul_lt {num draw : Nat} (pos : 1 ≤ num) (h : draw ≤ 2 ^ 31 - 128) :
    rnd24 (num * draw) < num * 2 ^ 31 := by
  obtain ⟨k, upper, lower⟩ := exists_two_pow pos
  have hproduct : num * draw + num * 128 ≤ num * 2 ^ 31 := by
    rw [← Nat.mul_add]
    exact Nat.mul_le_mul_left num (by omega)
  have hsmall : num * draw < 2 ^ (k + 7 + 23 + 1) := by
    calc
      num * draw < num * 2 ^ 31 := by omega
      _ ≤ 2 ^ k * 2 ^ 31 := Nat.mul_le_mul_right _ upper
      _ = 2 ^ (k + 7 + 23 + 1) := by rw [← Nat.pow_add]
  have hdistance : 2 * (num * draw) + 2 ^ (k + 7) < 2 * (num * 2 ^ 31) := by
    rw [Nat.pow_add]
    omega
  exact roundEven_lt hsmall hdistance

/-- `randof` stays below its argument exactly for the draws that are not rounded up;
for the others it is the argument. -/
theorem randof_lt_iff {num : Nat} (pos : 1 ≤ num) (le : num ≤ 2 ^ 24) (value : Random) :
    randof num value < num ↔ RoundsBelow value := by
  rw [randof, rnd24_of_le le]
  constructor
  · intro hlt
    by_contra h
    rw [rnd24_of_not_roundsBelow h, rnd24, roundEven_mul_pow (by omega),
      Nat.mul_div_cancel _ (by decide)] at hlt
    exact Nat.lt_irrefl num hlt
  · intro h
    have hlt := rnd24_mul_lt pos (rnd24_le_of_roundsBelow h)
    exact (Nat.div_lt_iff_lt_mul (by decide)).mpr hlt

theorem randof_of_not_roundsBelow {num : Nat} (le : num ≤ 2 ^ 24) {value : Random}
    (h : ¬ RoundsBelow value) : randof num value = num := by
  rw [randof, rnd24_of_le le, rnd24_of_not_roundsBelow h, rnd24,
    roundEven_mul_pow (by omega), Nat.mul_div_cancel _ (by decide)]

/-- It never exceeds it. -/
theorem randof_le_self {num : Nat} (pos : 1 ≤ num) (le : num ≤ 2 ^ 24) (value : Random) :
    randof num value ≤ num := by
  by_cases below : RoundsBelow value
  · exact Nat.le_of_lt ((randof_lt_iff pos le value).mpr below)
  · exact Nat.le_of_eq (randof_of_not_roundsBelow le below)

/-- A number is printed with at most so many digits when it is below that power of
sixteen. -/
theorem length_upperHex_le_iff {n digits : Nat} :
    (upperHex n).length ≤ digits + 1 ↔ n < 16 ^ (digits + 1) := by
  constructor
  · intro h
    induction digits generalizing n with
    | zero =>
        by_contra large
        rw [Nat.zero_add, Nat.pow_one] at large
        rw [upperHex, if_neg large, List.length_append, List.length_singleton] at h
        have more : 0 < (upperHex (n / 16)).length := by
          rw [upperHex]
          split <;> simp
        omega
    | succ digits ih =>
        by_cases small : n < 16
        · exact Nat.lt_of_lt_of_le small (Nat.le_self_pow (Nat.succ_ne_zero _) 16)
        · rw [upperHex, if_neg small, List.length_append, List.length_singleton] at h
          have quotient := ih (Nat.le_of_succ_le_succ h)
          rwa [Nat.div_lt_iff_lt_mul (by decide), ← Nat.pow_succ] at quotient
  · exact length_upperHex_le

theorem length_hex04 (n : Nat) : (hex04 n).length = max 4 (upperHex n).length := by
  rw [hex04, List.length_append, List.length_replicate]
  omega

/-- `%04X` prints four digits exactly for the draws that are not rounded up. -/
theorem length_hex04_randof (value : Random) :
    (hex04 (randof 0x10000 value)).length ≤ 4 ↔ RoundsBelow value := by
  have range : randof 0x10000 value < 16 ^ 4 ↔ RoundsBelow value :=
    randof_lt_iff (by decide) (by decide) value
  rw [length_hex04, max_le_iff, ← range, ← length_upperHex_le_iff]
  exact and_iff_right (Nat.le_refl 4)

/-- `identity` of `_client_task` in `async/cs.c`, printed as in `s_set_id`. -/
def clientIdentity (first second : Random) : Frame := sSetId first second

/-- The size of the buffer it is printed into. -/
def identitySize : Nat := 10

theorem clientIdentity_fits_iff (first second : Random) :
    (clientIdentity first second).length + 1 ≤ identitySize ↔
      RoundsBelow first ∧ RoundsBelow second := by
  have hfirst := length_hex04 (randof 0x10000 first)
  have hsecond := length_hex04 (randof 0x10000 second)
  rw [← length_hex04_randof first, ← length_hex04_randof second, clientIdentity, sSetId,
    List.length_append, List.length_cons, identitySize]
  omega

/-- An index drawn over a list finds an entry exactly when the draw is not rounded up. -/
theorem getElem?_randof {Entry : Type*} {entries : List Entry} (hne : entries ≠ [])
    (few : entries.length ≤ 2 ^ 24) (value : Random) :
    (∃ entry, entries[randof entries.length value]? = some entry) ↔ RoundsBelow value := by
  rw [← randof_lt_iff (List.length_pos_iff.mpr hne) few value]
  constructor
  · rintro ⟨entry, hentry⟩
    exact (List.getElem?_eq_some_iff.mp hentry).1
  · exact fun hlt => ⟨_, List.getElem?_eq_getElem hlt⟩

/-- A draw is in range exactly when the conversion of the value of `random()` does
not round it up; so are the index into `argv` and the printed identity, whose draws
are such draws. -/
theorem randof_in_range_iff {num : Nat} (pos : 1 ≤ num) (le : num ≤ 2 ^ 24)
    (value first second : Random) {peers : List Frame} (hne : peers ≠ [])
    (few : peers.length ≤ 2 ^ 24) :
    (randof num value < num ↔ RoundsBelow value) ∧
    ((∃ peer, peers[randof peers.length value]? = some peer) ↔ RoundsBelow value) ∧
    ((clientIdentity first second).length + 1 ≤ identitySize ↔
      RoundsBelow first ∧ RoundsBelow second) :=
  ⟨randof_lt_iff pos le value, getElem?_randof hne few value,
    clientIdentity_fits_iff first second⟩

theorem randof_in_range_iff_sample :
    (randof 5 2147483583 < 5 ↔ RoundsBelow 2147483583) ∧
    ((∃ peer, ([[66], [67]] : List Frame)[randof 2 2147483583]? = some peer) ↔
      RoundsBelow 2147483583) ∧
    ((clientIdentity 0 2147483584).length + 1 ≤ identitySize ↔
      RoundsBelow 0 ∧ RoundsBelow 2147483584) :=
  randof_in_range_iff (by decide) (by decide) 2147483583 0 2147483584
    (List.cons_ne_nil [66] [[67]]) (by decide)

/-- The largest value of `random()` makes `randof(1)` one. -/
theorem randof_out_of_range :
    ¬ ∀ num : Nat, 1 ≤ num → num ≤ 2 ^ 24 → ∀ value : Random, randof num value < num := by
  intro claim
  have h := claim 1 (by decide) (by decide) 2147483647
  exact absurd h (by decide)

end ZmqTest
