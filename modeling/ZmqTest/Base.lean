/-
# The helpers every program includes

`randof` scales a value of `random()` in single precision: both factors and the
product are rounded to 24 significant bits, ties to even. Dividing by
`RAND_MAX + 1.0` is exact, so that what is rounded stays an integer and the
conversion to `int` is an integer division.

Frames are received into character buffers and sent from them as C strings, so
that a frame survives when it fits the buffer and has no NUL byte.
-/

import Mathlib.Algebra.Ring.Nat
import Mathlib.Data.List.Basic
import Mathlib.Data.List.TakeWhile
import ZmqTest.Lib.Multipart
import ZmqTest.Lib.Rounding

namespace ZmqTest

open Rounding

/-- The values of `random()`: zero up to `RAND_MAX`. -/
abbrev Random := Fin 2147483648

instance instNeZeroRandom : NeZero 2147483648 := ⟨by decide⟩

/-- Conversion of a natural number to `float`, which keeps 23 bits behind the leading
one. -/
def rnd24 (value : Nat) : Nat := roundEven 23 value

/-- `randof`. -/
def randof (num : Nat) (value : Random) : Nat := rnd24 (rnd24 num * rnd24 value) / 2 ^ 31

/-- Rounding never doubles. -/
theorem rnd24_le (value : Nat) : rnd24 value ≤ 2 * value := by
  by_cases hzero : value = 0
  · subst hzero
    decide
  · have hround := roundEven_le 23 value
    have hpow : 2 ^ (value.log2 - 23) ≤ 2 ^ value.log2 :=
      Nat.pow_le_pow_right (by decide) (Nat.sub_le _ _)
    have hunit : spacing 23 value ≤ value := Nat.le_trans hpow (Nat.log2_self_le hzero)
    rw [rnd24]
    omega

/-- A draw is at most four times its argument, however it is rounded. -/
theorem randof_le {num : Nat} (exact_num : rnd24 num = num) (value : Random) :
    randof num value ≤ num * 4 := by
  have hvalue := rnd24_le value
  have hproduct := rnd24_le (rnd24 num * rnd24 value)
  have hlt := value.isLt
  rw [exact_num] at hproduct
  rw [randof, exact_num]
  have hbound : num * rnd24 value ≤ num * (2 * 2 ^ 31) := Nat.mul_le_mul_left num (by omega)
  omega

/-- The C string in a buffer: the bytes before the first NUL. -/
def cstr (buffer : List UInt8) : List UInt8 := buffer.takeWhile (· ≠ 0)

/-- `s_recv`: at most `len - 1` bytes of the frame are written, and a NUL after
them. A failed receive writes nothing. -/
def sRecv (buffer : List UInt8) (len : Nat) : Option Frame → List UInt8
  | none => buffer
  | some frame => frame.take (len - 1) ++ 0 :: buffer.drop ((frame.take (len - 1)).length + 1)

/-- `s_sendlists`: each item is a buffer with the number of bytes to send, zero
for its C string. -/
def sSendlists (items : List (List UInt8 × Nat)) : Zmsg :=
  items.map fun (data, len) => if len = 0 then cstr data else data.take len

/-- `_strcat`: the C strings one after the other. -/
def strcat (sources : List (List UInt8)) : List UInt8 := sources.flatMap cstr

@[simp]
theorem cstr_nil : cstr [] = [] := rfl

theorem cstr_eq_self {buffer : List UInt8} (h : 0 ∉ buffer) : cstr buffer = buffer := by
  apply List.takeWhile_eq_self_iff.mpr
  intro byte hmem
  have hne : byte ≠ 0 := fun heq => h (heq ▸ hmem)
  simpa using hne

theorem zero_not_mem_cstr (buffer : List UInt8) : 0 ∉ cstr buffer := by
  intro hmem
  have h := List.mem_takeWhile_imp hmem
  simp at h

theorem cstr_append_zero (bytes rest : List UInt8) : cstr (bytes ++ 0 :: rest) = cstr bytes := by
  induction bytes with
  | nil => rfl
  | cons byte bytes ih =>
      by_cases h : byte = 0
      · simp [cstr, h]
      · simpa [cstr, h] using ih

/-- What a buffer holds after a receive, as a C string. -/
def received (len : Nat) (frame : Frame) : List UInt8 := cstr (frame.take (len - 1))

@[simp]
theorem cstr_sRecv (buffer : List UInt8) (len : Nat) (frame : Frame) :
    cstr (sRecv buffer len (some frame)) = received len frame :=
  cstr_append_zero _ _

/-- A frame survives when it fits and has no NUL byte. -/
theorem received_eq_self {len : Nat} {frame : Frame} (fits : frame.length < len)
    (text : 0 ∉ frame) : received len frame = frame := by
  unfold received
  rw [List.take_of_length_le (Nat.le_sub_one_of_lt fits), cstr_eq_self text]

/-- The first byte read of a received frame; NUL when the frame has none. -/
theorem headD_sRecv (buffer : List UInt8) (len : Nat) (frame : Frame) :
    (sRecv buffer (len + 2) (some frame)).headD 0 = frame.headD 0 := by
  cases frame <;> rfl

/-- A digit of the hexadecimal notation, as a byte. -/
def hexByte (n : Nat) : UInt8 := (hexDigit n).toNat.toUInt8

/-- `%X`. -/
def upperHex (n : Nat) : List UInt8 :=
  if n < 16 then [hexByte n] else upperHex (n / 16) ++ [hexByte (n % 16)]

/-- `%04X`. -/
def hex04 (n : Nat) : List UInt8 :=
  List.replicate (4 - (upperHex n).length) 48 ++ upperHex n

/-- The identity `s_set_id` gives a socket: `%04X-%04X` of two draws. -/
def sSetId (first second : Random) : Frame :=
  hex04 (randof 0x10000 first) ++ 45 :: hex04 (randof 0x10000 second)

theorem hexByte_range (n : Nat) : 45 ≤ (hexByte n).toNat ∧ (hexByte n).toNat ≤ 70 := by
  have digits : ∀ d : Fin 16, 45 ≤ (hexByte d).toNat ∧ (hexByte d).toNat ≤ 70 := by decide
  by_cases h : n < 16
  · exact digits ⟨n, h⟩
  · have hdigit : hexDigit n = '?' := by
      rw [hexDigit, List.getD_eq_getElem?_getD, List.getElem?_eq_none (by simpa using h)]
      rfl
    rw [hexByte, hdigit]
    decide

theorem upperHex_range {n : Nat} {byte : UInt8} (hmem : byte ∈ upperHex n) :
    45 ≤ byte.toNat ∧ byte.toNat ≤ 70 := by
  induction n using upperHex.induct with
  | case1 n hlt =>
      rw [upperHex, if_pos hlt, List.mem_singleton] at hmem
      exact hmem ▸ hexByte_range n
  | case2 n hge ih =>
      rw [upperHex, if_neg hge, List.mem_append, List.mem_singleton] at hmem
      cases hmem with
      | inl high => exact ih high
      | inr low => exact low ▸ hexByte_range (n % 16)

theorem length_upperHex_le {n digits : Nat} (h : n < 16 ^ (digits + 1)) :
    (upperHex n).length ≤ digits + 1 := by
  induction digits generalizing n with
  | zero =>
      rw [upperHex, if_pos (by simpa using h)]
      exact Nat.le_refl _
  | succ digits ih =>
      rw [upperHex]
      split
      case isTrue _ => exact Nat.le_add_left _ _
      case isFalse _ =>
        have hquot : n / 16 < 16 ^ (digits + 1) := by
          rw [Nat.div_lt_iff_lt_mul (by decide), ← Nat.pow_succ]
          exact h
        rw [List.length_append]
        exact Nat.add_le_add_right (ih hquot) 1

theorem randof_lt (value : Random) : randof 0x10000 value < 16 ^ 5 := by
  have h := randof_le (by decide : rnd24 0x10000 = 0x10000) value
  omega

theorem hex04_range {n : Nat} {byte : UInt8} (hmem : byte ∈ hex04 n) :
    45 ≤ byte.toNat ∧ byte.toNat ≤ 70 := by
  cases List.mem_append.mp hmem with
  | inl zero =>
      rw [(List.mem_replicate.mp zero).2]
      decide
  | inr digit => exact upperHex_range digit

theorem length_hex04_le (value : Random) : (hex04 (randof 0x10000 value)).length ≤ 5 := by
  have h := length_upperHex_le (randof_lt value)
  rw [hex04, List.length_append, List.length_replicate]
  omega

/-- The bytes of an identity are digits and the hyphen. -/
theorem sSetId_range {first second : Random} {byte : UInt8}
    (hmem : byte ∈ sSetId first second) : 45 ≤ byte.toNat ∧ byte.toNat ≤ 70 := by
  rcases List.mem_append.mp hmem with high | low
  · exact hex04_range high
  · cases List.mem_cons.mp low with
    | inl hyphen => rw [hyphen]; decide
    | inr digit => exact hex04_range digit

theorem length_sSetId_le (first second : Random) : (sSetId first second).length ≤ 11 := by
  have h₁ := length_hex04_le first
  have h₂ := length_hex04_le second
  rw [sSetId, List.length_append, List.length_cons]
  omega

theorem sSetId_ne_nil (first second : Random) : sSetId first second ≠ [] := by
  simp [sSetId]

end ZmqTest
