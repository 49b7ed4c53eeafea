/-
# Numbers in decimal notation

A number is printed as a string of digits and read back the way `strtol` reads:
white space and a sign are skipped, the digits up to the first other byte are
taken, and the value is clamped to a `long`. `atoi` keeps the low half of it. The
digits are those of the number to base ten; printing and reading are inverse on
the values of an `int` that are not negative.
-/

import Mathlib.Data.List.TakeWhile
import Mathlib.Data.Nat.Digits.Lemmas

/-- The character of a digit. -/
def digitByte (d : Nat) : UInt8 := (48 + d).toUInt8

/-- `%d` of a number that is not negative. -/
def decimal (n : Nat) : List UInt8 :=
  if n = 0 then [48] else (Nat.digits 10 n).reverse.map digitByte

/-- The bytes `strtol` takes for digits. -/
def isDigit (byte : UInt8) : Bool := 48 ≤ byte && byte ≤ 57

/-- The bytes `strtol` skips at the front. -/
def isSpace (byte : UInt8) : Bool := byte == 32 || 9 ≤ byte && byte ≤ 13

/-- The number a string of digits stands for. -/
def digitsValue (text : List UInt8) : Nat :=
  text.foldl (fun value byte => 10 * value + (byte.toNat - 48)) 0

/-- `strtol` to base ten. -/
def strtol (text : List UInt8) : Int :=
  match text.dropWhile isSpace with
  | 45 :: digits => max (-(digitsValue (digits.takeWhile isDigit) : Int)) (-9223372036854775808)
  | 43 :: digits => min (digitsValue (digits.takeWhile isDigit) : Int) 9223372036854775807
  | digits => min (digitsValue (digits.takeWhile isDigit) : Int) 9223372036854775807

/-- `atoi`: the `long` is converted to an `int`. -/
def atoi (text : List UInt8) : Int := (strtol text).bmod 4294967296

theorem toNat_digitByte {d : Nat} (h : d < 10) : (digitByte d).toNat = 48 + d := by
  rw [digitByte, Nat.toUInt8, UInt8.toNat_ofNat']
  omega

theorem isDigit_iff {byte : UInt8} :
    isDigit byte = true ↔ 48 ≤ byte.toNat ∧ byte.toNat ≤ 57 := by
  simp [isDigit, UInt8.le_iff_toNat_le]

theorem isDigit_digitByte {d : Nat} (h : d < 10) : isDigit (digitByte d) = true := by
  rw [isDigit_iff, toNat_digitByte h]
  omega

/-- A digit is not white space. -/
theorem isSpace_of_isDigit {byte : UInt8} (h : isDigit byte = true) : isSpace byte = false := by
  obtain ⟨low, -⟩ := isDigit_iff.mp h
  have hne : byte ≠ 32 := by
    rintro rfl
    exact absurd low (by decide)
  have hhigh : ¬ byte ≤ 13 := by
    rw [UInt8.le_iff_toNat_le]
    exact fun high => absurd (Nat.le_trans low high) (by decide)
  simp [isSpace, hne, hhigh]

theorem isDigit_of_mem_decimal {n : Nat} {byte : UInt8} (hmem : byte ∈ decimal n) :
    isDigit byte = true := by
  rw [decimal] at hmem
  split at hmem
  case isTrue =>
    rw [List.mem_singleton.mp hmem]
    decide
  case isFalse =>
    obtain ⟨d, hd, rfl⟩ := List.mem_map.mp hmem
    exact isDigit_digitByte (Nat.digits_lt_base (by decide) (List.mem_reverse.mp hd))

theorem decimal_ne_nil (n : Nat) : decimal n ≠ [] := by
  rw [decimal]
  split
  case isTrue => exact List.cons_ne_nil _ _
  case isFalse h => simpa [Nat.digits_eq_nil_iff_eq_zero] using h

/-- The value of the digits of a number, lowest first, is the number. -/
theorem digitsValue_map_reverse {digits : List Nat} (small : ∀ d ∈ digits, d < 10) :
    digitsValue (digits.reverse.map digitByte) = Nat.ofDigits 10 digits := by
  induction digits with
  | nil => rfl
  | cons d digits ih =>
      have hrest := ih fun e he => small e (List.mem_cons_of_mem d he)
      have hd := toNat_digitByte (small d List.mem_cons_self)
      rw [digitsValue] at hrest ⊢
      rw [List.reverse_cons, List.map_append, List.foldl_append, hrest, Nat.ofDigits_cons]
      simp only [List.map_cons, List.map_nil, List.foldl_cons, List.foldl_nil, hd]
      omega

@[simp]
theorem digitsValue_decimal (n : Nat) : digitsValue (decimal n) = n := by
  rw [decimal]
  split
  case isTrue h => exact h.symm
  case isFalse =>
    rw [digitsValue_map_reverse fun d => Nat.digits_lt_base (by decide), Nat.ofDigits_digits]

theorem decimal_injective : Function.Injective decimal := by
  intro m n h
  rw [← digitsValue_decimal m, h, digitsValue_decimal]

/-- A number is printed with at most so many digits when it is below that power of
ten. -/
theorem length_decimal_le_iff {n digits : Nat} :
    (decimal n).length ≤ digits + 1 ↔ n < 10 ^ (digits + 1) := by
  rw [decimal]
  split
  case isTrue h =>
    subst h
    simp
  case isFalse =>
    rw [List.length_map, List.length_reverse, Nat.digits_length_le_iff (by decide)]

/-- What starts with a digit is read as it stands. -/
theorem strtol_cons {byte : UInt8} (h : isDigit byte = true) (rest : List UInt8) :
    strtol (byte :: rest) =
      min (digitsValue ((byte :: rest).takeWhile isDigit) : Int) 9223372036854775807 := by
  obtain ⟨low, -⟩ := isDigit_iff.mp h
  rw [strtol, List.dropWhile_cons_of_neg (by simp [isSpace_of_isDigit h])]
  -- the sign characters come before the digits
  split
  case h_1 heq =>
    obtain ⟨rfl, -⟩ := List.cons.inj heq
    exact absurd low (by decide)
  case h_2 heq =>
    obtain ⟨rfl, -⟩ := List.cons.inj heq
    exact absurd low (by decide)
  case h_3 => rfl

theorem strtol_decimal (n : Nat) : strtol (decimal n) = min (n : Int) 9223372036854775807 := by
  have all : (decimal n).takeWhile isDigit = decimal n :=
    List.takeWhile_eq_self_iff.mpr fun _ => isDigit_of_mem_decimal
  cases htext : decimal n with
  | nil => exact absurd htext (decimal_ne_nil n)
  | cons byte rest =>
      have hdigit : isDigit byte = true := isDigit_of_mem_decimal (htext ▸ List.mem_cons_self)
      rw [strtol_cons hdigit, ← htext, all, digitsValue_decimal]

/-- What is printed of an `int` is read back. -/
theorem atoi_decimal {n : Nat} (h : n < 2147483648) : atoi (decimal n) = n := by
  rw [atoi, strtol_decimal, Int.bmod]
  omega

/-- The text is read up to the first byte that is no digit. -/
example : atoi [32, 45, 52, 50, 120, 57] = -42 := by decide
