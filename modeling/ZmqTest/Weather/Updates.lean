/-
# The updates of the weather server

The server prints a zip code with five digits, a temperature and a humidity, and
publishes the text. Because the code is padded with zeros, a subscription to a text of
five digits matches by prefix exactly the updates whose code is that number; and what
the client scans of an update are the three numbers that were printed.
-/

import ZmqTest.Lib.Scanf
import ZmqTest.Randof

namespace ZmqTest.Weather

/-- An update: a zip code of five digits and two values of type `int`. -/
structure Update where
  zipcode : Nat
  temperature : Int
  relhumidity : Int
  zipcode_lt : zipcode < 100000
  temperature_int : IsInt temperature
  relhumidity_int : IsInt relhumidity

/-- `%05d %d %d`. -/
def Update.text (update : Update) : List UInt8 :=
  printPadded 5 update.zipcode ++
    32 :: (printInt update.temperature ++ 32 :: printInt update.relhumidity)

/-- `s_send` without a length publishes the string. -/
def Update.published (update : Update) : Frame := cstr update.text

/-- One pass of the loop of `weather/server.c`: what is printed of three draws. -/
def serverText (zipcode temperature relhumidity : Random) : List UInt8 :=
  printPadded 5 (randof 100000 zipcode) ++
    32 :: (printInt (randof 215 temperature - 80) ++ 32 :: printInt (randof 50 relhumidity + 10))

/-- What is drawn fits the buffer of twenty bytes it is printed into. -/
theorem length_serverText_lt (zipcode temperature relhumidity : Random) :
    (serverText zipcode temperature relhumidity).length < 20 := by
  have hzipcode := randof_le (by decide : rnd24 100000 = 100000) zipcode
  have htemperature := randof_le (by decide : rnd24 215 = 215) temperature
  have hrelhumidity := randof_le (by decide : rnd24 50 = 50) relhumidity
  have first : (printPadded 5 (randof 100000 zipcode)).length ≤ 5 + 1 := by
    have digits : (decimal (randof 100000 zipcode)).length ≤ 5 + 1 :=
      length_decimal_le_iff.mpr (by omega)
    rw [printPadded, List.length_append, List.length_replicate]
    omega
  have second : (printInt ((randof 215 temperature : Int) - 80)).length ≤ 2 + 2 :=
    length_printInt_le_of_lt (by omega)
  have third : (printInt ((randof 50 relhumidity : Int) + 10)).length ≤ 2 + 2 :=
    length_printInt_le_of_lt (by omega)
  simp only [serverText, List.length_append, List.length_cons]
  omega

/-- What the server prints is an update when the draw of the zip code is in range. -/
def Update.drawn {zipcode : Random} (below : RoundsBelow zipcode)
    (temperature relhumidity : Random) : Update where
  zipcode := randof 100000 zipcode
  temperature := randof 215 temperature - 80
  relhumidity := randof 50 relhumidity + 10
  zipcode_lt := (randof_lt_iff (by decide) (by decide) zipcode).mpr below
  temperature_int := by
    have := randof_le (by decide : rnd24 215 = 215) temperature
    constructor <;> omega
  relhumidity_int := by
    have := randof_le (by decide : rnd24 50 = 50) relhumidity
    constructor <;> omega

theorem Update.text_drawn {zipcode : Random} (below : RoundsBelow zipcode)
    (temperature relhumidity : Random) :
    (Update.drawn below temperature relhumidity).text =
      serverText zipcode temperature relhumidity := rfl

/-- A text is made of digits, signs and blanks. -/
theorem Update.byte_of_mem {update : Update} {byte : UInt8} (hmem : byte ∈ update.text) :
    byte = 32 ∨ byte = 45 ∨ isDigit byte = true := by
  simp only [Update.text, List.mem_append, List.mem_cons] at hmem
  rcases hmem with digit | blank | number | blank | number
  · exact Or.inr (Or.inr (isDigit_of_mem_printPadded digit))
  · exact Or.inl blank
  · exact Or.inr (eq_or_isDigit_of_mem_printInt number)
  · exact Or.inl blank
  · exact Or.inr (eq_or_isDigit_of_mem_printInt number)

/-- It has no NUL, so that all of it is published. -/
theorem Update.zero_not_mem (update : Update) : 0 ∉ update.text := by
  intro hmem
  rcases update.byte_of_mem hmem with h | h | h <;> exact absurd h (by decide)

@[simp]
theorem Update.published_eq (update : Update) : update.published = update.text :=
  cstr_eq_self update.zero_not_mem

theorem Update.length_zipcode (update : Update) : (printPadded 5 update.zipcode).length = 5 := by
  apply length_printPadded
  have digits : (decimal update.zipcode).length ≤ 4 + 1 ↔ update.zipcode < 10 ^ (4 + 1) :=
    length_decimal_le_iff
  exact digits.mpr update.zipcode_lt

/-- An update fits the buffer it is received into. -/
theorem Update.length_text_lt (update : Update) : update.text.length < 256 := by
  have temperature := length_printInt_le update.temperature_int
  have relhumidity := length_printInt_le update.relhumidity_int
  simp only [Update.text, List.length_append, List.length_cons, update.length_zipcode]
  omega

/-- A filter of five digits passes the updates with that zip code. -/
theorem Update.filter_iff {filter : List UInt8} (five : filter.length = 5)
    (digits : ∀ byte ∈ filter, isDigit byte = true) (update : Update) :
    filter <+: update.published ↔ update.zipcode = digitsValue filter := by
  have hprefix : printPadded 5 update.zipcode <+: update.text := List.prefix_append _ _
  have hdigits : ∀ byte ∈ printPadded 5 update.zipcode, isDigit byte = true :=
    fun _ => isDigit_of_mem_printPadded
  rw [update.published_eq]
  constructor
  · intro h
    -- two beginnings of one length are the same
    have same : filter = printPadded 5 update.zipcode :=
      (List.prefix_of_prefix_length_le h hprefix (by rw [five, update.length_zipcode])).eq_of_length
        (by rw [five, update.length_zipcode])
    rw [same, digitsValue_printPadded]
  · intro h
    have same : filter = printPadded 5 update.zipcode := by
      apply digitsValue_injOn digits hdigits
      · rw [five, update.length_zipcode]
      · rw [digitsValue_printPadded, h]
    rwa [same]

/-- The client scans the numbers that were printed. -/
theorem Update.scanned (update : Update) :
    scanInts 3 (received 256 update.published) =
      [(update.zipcode : Int), update.temperature, update.relhumidity] := by
  have ends (rest : List UInt8) : EndsNumber (32 :: rest) := rfl
  have blank (n : Int) (rest : List UInt8) :
      (32 :: (printInt n ++ rest)).dropWhile isSpace = printInt n ++ rest :=
    dropWhile_isSpace_printInt n rest
  have zipcode_int : IsInt update.zipcode := by
    have hlt := update.zipcode_lt
    constructor <;> omega
  have last : scanInt (printInt update.relhumidity) = some (update.relhumidity, []) := by
    have scanned := scanInt_printInt update.relhumidity_int (rfl : EndsNumber [])
    rwa [List.append_nil] at scanned
  have blank_last := blank update.relhumidity []
  rw [List.append_nil] at blank_last
  rw [update.published_eq, received_eq_self update.length_text_lt update.zero_not_mem,
    Update.text, scanInts, scanInt_printPadded zipcode_int (ends _)]
  dsimp only
  rw [blank, scanInts, scanInt_printInt update.temperature_int (ends _)]
  dsimp only
  rw [blank_last, scanInts, last]
  rfl

end ZmqTest.Weather
