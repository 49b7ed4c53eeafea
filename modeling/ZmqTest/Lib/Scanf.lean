/-
# Printing and scanning integers

`%d` of an `int` is a sign and the digits of its absolute value, and a width with a
zero flag puts zeros in front. `sscanf` reads such numbers back one after the other:
each conversion skips white space, takes a sign and as many digits as there are, and
fails when there is none. What is printed with blanks between is read back, and texts
of digits of one width are equal exactly when their values are.
-/

import Mathlib.Data.List.Induction
import ZmqTest.Lib.Decimal

/-- `%d` of an `int`. -/
def printInt (n : Int) : List UInt8 :=
  if n < 0 then 45 :: decimal n.natAbs else decimal n.natAbs

/-- `%0*d` of a number that is not negative. -/
def printPadded (width n : Nat) : List UInt8 :=
  List.replicate (width - (decimal n).length) 48 ++ decimal n

/-- The values of an `int`. -/
def IsInt (n : Int) : Prop := -2147483648 ≤ n ∧ n ≤ 2147483647

instance (n : Int) : Decidable (IsInt n) := inferInstanceAs (Decidable (_ ∧ _))

/-- A sign, and what follows it. -/
def scanSign : List UInt8 → Bool × List UInt8
  | 45 :: text => (true, text)
  | 43 :: text => (false, text)
  | text => (false, text)

/-- The number a sign and some digits stand for, as an `int`: the value is clamped to a
`long` and converted. -/
def scannedValue (negative : Bool) (value : Nat) : Int :=
  let value : Int :=
    if negative then max (-(value : Int)) (-9223372036854775808)
    else min (value : Int) 9223372036854775807
  value.bmod 4294967296

/-- The digits behind the sign, if there is one at least, and what follows them. -/
def scanDigits (negative : Bool) (text : List UInt8) : Option (Int × List UInt8) :=
  let digits := text.takeWhile isDigit
  if digits = [] then none
  else some (scannedValue negative (digitsValue digits), text.dropWhile isDigit)

/-- `%d` of `sscanf`: the number and what follows it, if there is a number. -/
def scanInt (text : List UInt8) : Option (Int × List UInt8) :=
  let (negative, text) := scanSign (text.dropWhile isSpace)
  scanDigits negative text

/-- `sscanf` with as many `%d` and blanks between them: the numbers that are read. A
blank skips white space, which the next conversion skips as well. -/
def scanInts : Nat → List UInt8 → List Int
  | 0, _ => []
  | count + 1, text =>
      match scanInt text with
      | none => []
      | some (value, rest) => value :: scanInts count (rest.dropWhile isSpace)

theorem digitsValue_append_singleton (text : List UInt8) (byte : UInt8) :
    digitsValue (text ++ [byte]) = 10 * digitsValue text + (byte.toNat - 48) := by
  rw [digitsValue, List.foldl_append]
  rfl

/-- Zeros in front count nothing. -/
theorem digitsValue_replicate_append (count : Nat) (text : List UInt8) :
    digitsValue (List.replicate count 48 ++ text) = digitsValue text := by
  induction count with
  | zero => rfl
  | succ count ih =>
      rw [List.replicate_succ, List.cons_append]
      exact ih

/-- Digits make a number below a power of ten. -/
theorem digitsValue_lt {text : List UInt8} (digits : ∀ byte ∈ text, isDigit byte = true) :
    digitsValue text < 10 ^ text.length := by
  induction text using List.reverseRecOn with
  | nil => exact Nat.one_pos
  | append_singleton text byte ih =>
      have value := ih fun b hb => digits b (List.mem_append_left _ hb)
      have digit := isDigit_iff.mp (digits byte (List.mem_append_right _ List.mem_cons_self))
      rw [digitsValue_append_singleton, List.length_append, List.length_singleton, Nat.pow_succ]
      omega

/-- Texts of digits of one length are determined by their values. -/
theorem digitsValue_injOn {first second : List UInt8}
    (hfirst : ∀ byte ∈ first, isDigit byte = true)
    (hsecond : ∀ byte ∈ second, isDigit byte = true)
    (length : first.length = second.length) (h : digitsValue first = digitsValue second) :
    first = second := by
  induction first using List.reverseRecOn generalizing second with
  | nil => exact (List.length_eq_zero_iff.mp length.symm).symm
  | append_singleton text byte ih =>
      obtain rfl | ⟨others, last, rfl⟩ := List.eq_nil_or_concat' second
      · simp at length
      · obtain ⟨low, high⟩ := isDigit_iff.mp (hfirst byte (by simp))
        obtain ⟨low', high'⟩ := isDigit_iff.mp (hsecond last (by simp))
        rw [digitsValue_append_singleton, digitsValue_append_singleton] at h
        have hbyte : byte = last := UInt8.toNat_inj.mp (by omega)
        have htext : text = others := by
          apply ih (fun b hb => hfirst b (by simp [hb])) (fun b hb => hsecond b (by simp [hb]))
          · simpa using length
          · omega
        rw [htext, hbyte]

theorem isDigit_of_mem_printPadded {width n : Nat} {byte : UInt8}
    (hmem : byte ∈ printPadded width n) : isDigit byte = true := by
  rcases List.mem_append.mp hmem with zero | digit
  · rw [(List.mem_replicate.mp zero).2]
    decide
  · exact isDigit_of_mem_decimal digit

@[simp]
theorem digitsValue_printPadded (width n : Nat) : digitsValue (printPadded width n) = n := by
  rw [printPadded, digitsValue_replicate_append, digitsValue_decimal]

/-- The width is kept when the number has no more digits. -/
theorem length_printPadded {width n : Nat} (h : (decimal n).length ≤ width) :
    (printPadded width n).length = width := by
  rw [printPadded, List.length_append, List.length_replicate]
  omega

theorem printPadded_ne_nil (width n : Nat) : printPadded width n ≠ [] :=
  List.append_ne_nil_of_right_ne_nil _ (decimal_ne_nil n)

/-- What is printed of a number is its sign and its digits. -/
theorem eq_or_isDigit_of_mem_printInt {n : Int} {byte : UInt8} (hmem : byte ∈ printInt n) :
    byte = 45 ∨ isDigit byte = true := by
  rw [printInt] at hmem
  split at hmem
  case isTrue => exact (List.mem_cons.mp hmem).imp_right isDigit_of_mem_decimal
  case isFalse => exact Or.inr (isDigit_of_mem_decimal hmem)

theorem printInt_ne_nil (n : Int) : printInt n ≠ [] := by
  rw [printInt]
  split
  · exact List.cons_ne_nil _ _
  · exact decimal_ne_nil _

/-- A number that is printed does not start with white space. -/
theorem dropWhile_isSpace_printInt (n : Int) (rest : List UInt8) :
    (printInt n ++ rest).dropWhile isSpace = printInt n ++ rest := by
  cases htext : printInt n with
  | nil => exact absurd htext (printInt_ne_nil n)
  | cons byte others =>
      have hbyte : isSpace byte = false := by
        have hmem : byte ∈ printInt n := htext ▸ List.mem_cons_self
        rcases eq_or_isDigit_of_mem_printInt hmem with rfl | digit
        · rfl
        · exact isSpace_of_isDigit digit
      rw [List.cons_append, List.dropWhile_cons_of_neg (by simp [hbyte])]

/-- A number below a power of ten is printed with a sign and so many digits at most. -/
theorem length_printInt_le_of_lt {n : Int} {digits : Nat} (h : n.natAbs < 10 ^ (digits + 1)) :
    (printInt n).length ≤ digits + 2 := by
  have length : (decimal n.natAbs).length ≤ digits + 1 := length_decimal_le_iff.mpr h
  rw [printInt]
  split
  case isTrue => exact Nat.succ_le_succ length
  case isFalse => exact Nat.le_succ_of_le length

/-- An `int` is printed with a sign and ten digits at most. -/
theorem length_printInt_le {n : Int} (int : IsInt n) : (printInt n).length ≤ 11 := by
  obtain ⟨low, high⟩ := int
  have h : n.natAbs < 10 ^ (9 + 1) := by omega
  exact length_printInt_le_of_lt h

/-- The text ends, or a byte that is no digit comes next. -/
def EndsNumber (rest : List UInt8) : Prop := rest.takeWhile isDigit = []

/-- An `int` is not changed by the conversions. -/
theorem scannedValue_eq {negative : Bool} {value : Nat} {n : Int} (int : IsInt n)
    (h : n = if negative then -(value : Int) else value) : scannedValue negative value = n := by
  obtain ⟨low, high⟩ := int
  cases negative <;> simp only [scannedValue, Int.bmod, if_true, Bool.false_eq_true, if_false]
    at h ⊢ <;> omega

/-- Digits are scanned up to the first byte that is none. -/
theorem scanDigits_append {digits rest : List UInt8} (nonempty : digits ≠ [])
    (all : ∀ byte ∈ digits, isDigit byte = true) (ends : EndsNumber rest) (negative : Bool) :
    scanDigits negative (digits ++ rest) =
      some (scannedValue negative (digitsValue digits), rest) := by
  have split := List.takeWhile_append_dropWhile (p := isDigit) (l := rest)
  rw [ends, List.nil_append] at split
  rw [scanDigits, List.takeWhile_append_of_pos all, List.dropWhile_append_of_pos all, ends, split,
    List.append_nil, if_neg nonempty]

/-- Digits without a sign are a number. -/
theorem scanInt_digits {digits rest : List UInt8} (nonempty : digits ≠ [])
    (all : ∀ byte ∈ digits, isDigit byte = true) (ends : EndsNumber rest)
    (int : IsInt (digitsValue digits)) :
    scanInt (digits ++ rest) = some ((digitsValue digits : Int), rest) := by
  obtain ⟨byte, others, rfl⟩ := List.exists_cons_of_ne_nil nonempty
  have digit := all byte List.mem_cons_self
  obtain ⟨low, -⟩ := isDigit_iff.mp digit
  have sign : scanSign (byte :: others ++ rest) = (false, byte :: others ++ rest) := by
    -- the sign characters come before the digits
    rw [List.cons_append, scanSign]
    · intro text heq
      obtain ⟨rfl, -⟩ := List.cons.inj heq
      exact absurd low (by decide)
    · intro text heq
      obtain ⟨rfl, -⟩ := List.cons.inj heq
      exact absurd low (by decide)
  have scanned := scanDigits_append nonempty all ends false
  rw [scannedValue_eq int rfl] at scanned
  rw [scanInt, List.cons_append, List.dropWhile_cons_of_neg (by simp [isSpace_of_isDigit digit]),
    ← List.cons_append, sign]
  exact scanned

/-- What `%d` prints is scanned back. -/
theorem scanInt_printInt {n : Int} (int : IsInt n) {rest : List UInt8} (ends : EndsNumber rest) :
    scanInt (printInt n ++ rest) = some (n, rest) := by
  have all : ∀ byte ∈ decimal n.natAbs, isDigit byte = true := fun _ => isDigit_of_mem_decimal
  rw [printInt]
  split
  case isTrue negative =>
    have value : scannedValue true (digitsValue (decimal n.natAbs)) = n := by
      apply scannedValue_eq int
      rw [digitsValue_decimal, if_pos rfl]
      omega
    have scanned := scanDigits_append (decimal_ne_nil _) all ends true
    rw [value] at scanned
    exact scanned
  case isFalse positive =>
    have value : ((digitsValue (decimal n.natAbs) : Nat) : Int) = n := by
      rw [digitsValue_decimal]
      omega
    rw [scanInt_digits (decimal_ne_nil _) all ends (by rw [value]; exact int), value]

/-- So is what is printed with zeros in front. -/
theorem scanInt_printPadded {width n : Nat} (int : IsInt n) {rest : List UInt8}
    (ends : EndsNumber rest) : scanInt (printPadded width n ++ rest) = some ((n : Int), rest) := by
  have all : ∀ byte ∈ printPadded width n, isDigit byte = true :=
    fun _ => isDigit_of_mem_printPadded
  have scanned := scanInt_digits (printPadded_ne_nil width n) all ends
    (by rw [digitsValue_printPadded]; exact int)
  rwa [digitsValue_printPadded] at scanned
