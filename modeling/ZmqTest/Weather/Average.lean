/-
# The average of a hundred updates

The weather client subscribes to a filter, scans a hundred updates and prints the
average of their temperatures. Its socket receives those updates of the stream that
start with the filter, so the average is that of the first hundred updates with the
zip code asked for.
-/

import Mathlib.Data.List.Induction
import ZmqTest.Lib.Machine
import ZmqTest.Weather.Updates

namespace ZmqTest.Weather

/-- The updates that are averaged. -/
def nbrUpdates : Nat := 100

/-- The variables of `main`; `total_temp` is a `long` of 64 bits. -/
structure ClientState where
  updateNbr : Nat
  string : List UInt8
  zipcode : Int
  temperature : Int
  relhumidity : Int
  totalTemp : Int
  deriving DecidableEq

inductive ClientOutput
  | /-- The average is printed. -/
    printed (average : Int)
  deriving DecidableEq

/-- An update is received, scanned and added up. A number that cannot be scanned leaves
its variable as it is. -/
def onUpdate (s : ClientState) (frame : Frame) : ClientState :=
  let string := sRecv s.string 256 (some frame)
  let numbers := scanInts 3 (cstr string)
  let temperature := numbers.getD 1 s.temperature
  { updateNbr := s.updateNbr + 1
    string := string
    zipcode := numbers.getD 0 s.zipcode
    temperature := temperature
    relhumidity := numbers.getD 2 s.relhumidity
    totalTemp := (s.totalTemp + temperature).bmod 18446744073709551616 }

/-- `(int)(total_temp/update_nbr)`. -/
def average (s : ClientState) : Int := (s.totalTemp.tdiv s.updateNbr).bmod 4294967296

/-- Something is published. The socket drops what does not start with the filter, and a
client that has printed the average is gone. -/
def clientStep (filter : List UInt8) (s : ClientState) (frame : Frame) :
    Option (ClientState × List ClientOutput) :=
  if s.updateNbr < nbrUpdates ∧ filter <+: frame then
    let t := onUpdate s frame
    some (t, if t.updateNbr = nbrUpdates then [.printed (average t)] else [])
  else some (s, [])

/-- The filter on the command line, or "10001". -/
def filterOf (argv1 : Option (List UInt8)) : List UInt8 := argv1.getD [49, 48, 48, 48, 49]

/-- The client of `weather/client.c`, with what its variables hold at first. -/
def client (filter string : List UInt8) (zipcode temperature relhumidity : Int) :
    Machine ClientState Frame ClientOutput where
  init :=
    { updateNbr := 0, string := string, zipcode := zipcode, temperature := temperature
      relhumidity := relhumidity, totalTemp := 0 }
  step := clientStep filter

/-- The updates with the zip code asked for. -/
def matching (filter : List UInt8) (updates : List Update) : List Update :=
  updates.filter fun update => update.zipcode = digitsValue filter

/-- The temperatures of the first hundred of them. -/
def temperatures (filter : List UInt8) (updates : List Update) : List Int :=
  ((matching filter updates).take nbrUpdates).map Update.temperature

/-- A sum of values of type `int` is bounded by their number. -/
theorem sum_bounds {values : List Int} (int : ∀ value ∈ values, IsInt value) :
    -2147483648 * (values.length : Int) ≤ values.sum ∧
      values.sum ≤ 2147483647 * (values.length : Int) := by
  induction values with
  | nil => simp
  | cons value values ih =>
      obtain ⟨low, high⟩ := int value List.mem_cons_self
      obtain ⟨lower, upper⟩ := ih fun v hv => int v (List.mem_cons_of_mem value hv)
      rw [List.sum_cons, List.length_cons]
      push_cast
      constructor <;> omega

theorem temperatures_bounds (filter : List UInt8) (updates : List Update) :
    -214748364800 ≤ (temperatures filter updates).sum ∧
      (temperatures filter updates).sum ≤ 214748364700 := by
  have int : ∀ value ∈ temperatures filter updates, IsInt value := by
    intro value hmem
    obtain ⟨update, -, rfl⟩ := List.mem_map.mp hmem
    exact update.temperature_int
  have short : (temperatures filter updates).length ≤ 100 := by
    rw [temperatures, List.length_map]
    exact List.length_take_le _ _
  obtain ⟨lower, upper⟩ := sum_bounds int
  constructor <;> omega

/-- A hundredth of such a sum is a value of type `int`. -/
theorem tdiv_bmod_int {sum : Int} (bounds : -214748364800 ≤ sum ∧ sum ≤ 214748364700) :
    (sum.tdiv nbrUpdates).bmod 4294967296 = sum.tdiv nbrUpdates := by
  obtain ⟨lower, upper⟩ := bounds
  have low : -2147483648 ≤ sum.tdiv nbrUpdates := by
    have h : (-214748364800 : Int).tdiv 100 ≤ sum.tdiv 100 := Int.tdiv_le_tdiv (by decide) lower
    exact h
  have high : sum.tdiv nbrUpdates ≤ 2147483647 := by
    have h : sum.tdiv 100 ≤ (214748364700 : Int).tdiv 100 := Int.tdiv_le_tdiv (by decide) upper
    exact h
  exact Int.bmod_eq_of_le (by omega) (by omega)

/-- What the client has done of a stream of updates. -/
structure Averages (filter : List UInt8) (updates : List Update) (outputs : List ClientOutput)
    (s : ClientState) : Prop where
  updateNbr : s.updateNbr = min nbrUpdates (matching filter updates).length
  totalTemp : s.totalTemp = (temperatures filter updates).sum
  outputs : outputs =
    if (matching filter updates).length < nbrUpdates then []
    else [.printed ((temperatures filter updates).sum.tdiv nbrUpdates)]

theorem matching_concat (filter : List UInt8) (updates : List Update) (update : Update) :
    matching filter (updates ++ [update]) =
      if update.zipcode = digitsValue filter then matching filter updates ++ [update]
      else matching filter updates := by
  rw [matching, List.filter_append, List.filter_singleton]
  split
  case isTrue h => rw [decide_eq_true h]; rfl
  case isFalse h => rw [decide_eq_false h]; exact List.append_nil _

/-- The temperatures of the first hundred are those of a hundred that are there already. -/
theorem temperatures_of_full {filter : List UInt8} {updates rest : List Update}
    {later : List Update} (more : matching filter later = matching filter updates ++ rest)
    (full : nbrUpdates ≤ (matching filter updates).length) :
    temperatures filter later = temperatures filter updates := by
  rw [temperatures, more, List.take_append_of_le_length full, temperatures]

/-- One more is added while there are fewer. -/
theorem sum_temperatures_concat {filter : List UInt8} {updates later : List Update}
    {update : Update} (more : matching filter later = matching filter updates ++ [update])
    (room : (matching filter updates).length < nbrUpdates) :
    (temperatures filter later).sum =
      (temperatures filter updates).sum + update.temperature := by
  have all : (matching filter later).take nbrUpdates = matching filter updates ++ [update] := by
    rw [more, List.take_of_length_le (by rw [List.length_append]; exact room)]
  rw [temperatures, all, temperatures, List.take_of_length_le (Nat.le_of_lt room),
    List.map_append, List.sum_append, List.map_singleton, List.sum_singleton]

/-- What an update that is received leaves in the variables. -/
theorem onUpdate_published (s : ClientState) (update : Update) :
    (onUpdate s update.published).updateNbr = s.updateNbr + 1 ∧
      (onUpdate s update.published).totalTemp =
        (s.totalTemp + update.temperature).bmod 18446744073709551616 := by
  constructor
  · rfl
  · simp only [onUpdate, cstr_sRecv, update.scanned]
    rfl

/-- An update that is received is added up, and with the hundredth the average is printed. -/
theorem Averages.received {filter : List UInt8} {updates : List Update} {update : Update}
    {os : List ClientOutput} {s : ClientState} (h : Averages filter updates os s)
    (room : (matching filter updates).length < nbrUpdates)
    (grown : matching filter (updates ++ [update]) = matching filter updates ++ [update]) :
    Averages filter (updates ++ [update])
      (os ++ if (onUpdate s update.published).updateNbr = nbrUpdates then
        [.printed (average (onUpdate s update.published))] else [])
      (onUpdate s update.published) := by
  have counted := h.updateNbr
  have length : (matching filter (updates ++ [update])).length =
      (matching filter updates).length + 1 := by rw [grown, List.length_append]; rfl
  have sum := sum_temperatures_concat grown room
  have bounds := temperatures_bounds filter (updates ++ [update])
  obtain ⟨number, total⟩ := onUpdate_published s update
  have exact_total : (onUpdate s update.published).totalTemp =
      (temperatures filter (updates ++ [update])).sum := by
    rw [total, h.totalTemp, ← sum, Int.bmod_eq_of_le (by omega) (by omega)]
  refine ⟨by omega, exact_total, ?_⟩
  rw [h.outputs, if_pos room, List.nil_append, number]
  by_cases last : s.updateNbr + 1 = nbrUpdates
  · rw [if_pos last, if_neg (by omega), average, exact_total, number, last, tdiv_bmod_int bounds]
  · rw [if_neg last, if_pos (by omega)]

/-- Updates that are not received change nothing. -/
theorem Averages.skipped {filter : List UInt8} {updates later : List Update}
    {os : List ClientOutput} {s : ClientState} (h : Averages filter updates os s)
    (count : min nbrUpdates (matching filter later).length =
      min nbrUpdates (matching filter updates).length)
    (same : temperatures filter later = temperatures filter updates) :
    Averages filter later os s where
  updateNbr := h.updateNbr.trans count.symm
  totalTemp := by rw [same]; exact h.totalTemp
  outputs := by
    have room : (matching filter later).length < nbrUpdates ↔
        (matching filter updates).length < nbrUpdates := by omega
    rw [same, h.outputs]
    simp only [room]

theorem Averages.step {filter : List UInt8} (five : filter.length = 5)
    (digits : ∀ byte ∈ filter, isDigit byte = true) {updates : List Update} {update : Update}
    {os out : List ClientOutput} {s t : ClientState} (h : Averages filter updates os s)
    (taken : clientStep filter s update.published = some (t, out)) :
    Averages filter (updates ++ [update]) (os ++ out) t := by
  have passes := update.filter_iff five digits
  have counted := h.updateNbr
  have grown := matching_concat filter updates update
  unfold clientStep at taken
  by_cases zipcode : update.zipcode = digitsValue filter
  · rw [if_pos zipcode] at grown
    by_cases room : (matching filter updates).length < nbrUpdates
    · rw [if_pos ⟨by omega, passes.mpr zipcode⟩] at taken
      cases taken
      exact h.received room grown
    · -- the average has been printed
      rw [if_neg (by omega)] at taken
      cases taken
      rw [List.append_nil]
      apply h.skipped
      · rw [grown, List.length_append]
        omega
      · exact temperatures_of_full grown (Nat.le_of_not_lt room)
  · rw [if_neg zipcode] at grown
    rw [if_neg fun h => zipcode (passes.mp h.2)] at taken
    cases taken
    rw [List.append_nil]
    apply h.skipped
    · rw [grown]
    · rw [temperatures, grown, temperatures]

/-- A run on a stream of updates has averaged them. -/
theorem averages_of_run {filter : List UInt8} (five : filter.length = 5)
    (digits : ∀ byte ∈ filter, isDigit byte = true) {string : List UInt8}
    {zipcode temperature relhumidity : Int} {updates : List Update} {os : List ClientOutput}
    {s : ClientState}
    (run : (client filter string zipcode temperature relhumidity).Run
      (updates.map Update.published) os s) : Averages filter updates os s := by
  induction updates using List.reverseRecOn generalizing os s with
  | nil =>
      obtain ⟨rfl, rfl⟩ := run.unique .start
      exact ⟨rfl, rfl, rfl⟩
  | append_singleton updates update ih =>
      rw [List.map_append] at run
      obtain ⟨t, first, rest, prior, last, rfl⟩ := run.exists_prefix
      obtain ⟨u, out, nothing, taken, ended, rfl⟩ := Machine.exec_cons_eq_some.mp last
      cases ended
      rw [List.append_nil]
      exact (ih prior).step five digits taken

/-- The socket takes whatever is published. -/
theorem exists_clientRun (filter string : List UInt8) (zipcode temperature relhumidity : Int)
    (frames : List Frame) :
    ∃ os s, (client filter string zipcode temperature relhumidity).Run frames os s := by
  induction frames using List.reverseRecOn with
  | nil => exact ⟨_, _, .start⟩
  | append_singleton frames frame ih =>
      obtain ⟨os, s, prior⟩ := ih
      have taken : ∃ t out, clientStep filter s frame = some (t, out) := by
        unfold clientStep
        split
        · exact ⟨_, _, rfl⟩
        · exact ⟨_, _, rfl⟩
      obtain ⟨t, out, taken⟩ := taken
      exact ⟨_, _, prior.extend taken⟩

/-- Publisher and subscriber agree: a filter of five digits passes the updates with that
zip code, what is scanned of an update is what was printed, and what the client prints
is the average of the temperatures of the first hundred updates with the zip code asked
for, once there are so many. -/
theorem averages_the_zipcode {filter : List UInt8} (five : filter.length = 5)
    (digits : ∀ byte ∈ filter, isDigit byte = true) {string : List UInt8}
    {zipcode temperature relhumidity : Int} {updates : List Update} {os : List ClientOutput}
    {s : ClientState}
    (run : (client filter string zipcode temperature relhumidity).Run
      (updates.map Update.published) os s) :
    (∀ update : Update, filter <+: update.published ↔ update.zipcode = digitsValue filter) ∧
      (∀ update : Update, scanInts 3 (received 256 update.published) =
        [(update.zipcode : Int), update.temperature, update.relhumidity]) ∧
      os = if (matching filter updates).length < nbrUpdates then []
        else [.printed ((temperatures filter updates).sum.tdiv nbrUpdates)] :=
  ⟨Update.filter_iff five digits, Update.scanned, (averages_of_run five digits run).outputs⟩

/-- An update of the default zip code or of the next one. -/
def chicago (next : Fin 2) (temperature : Fin 3) : Update where
  zipcode := 10001 + next
  temperature := temperature - 2
  relhumidity := 40
  zipcode_lt := by omega
  temperature_int := by constructor <;> omega
  relhumidity_int := by constructor <;> decide

/-- Fifty at two below zero, fifty at one below, and others between them. -/
def cold : List Update :=
  List.replicate 50 (chicago 0 0) ++ List.replicate 7 (chicago 1 2) ++
    List.replicate 50 (chicago 0 1)

theorem averages_the_zipcode_cold :
    ∃ os s, (client (filterOf none) [] 0 0 0).Run (cold.map Update.published) os s ∧
      os = [.printed (-1)] := by
  obtain ⟨os, s, run⟩ := exists_clientRun (filterOf none) [] 0 0 0 (cold.map Update.published)
  have digits : (filterOf none).all isDigit = true := by decide
  obtain ⟨-, -, printed⟩ := averages_the_zipcode (by decide) (List.all_eq_true.mp digits) run
  have count : (matching (filterOf none) cold).length = 100 := by decide +kernel
  have sum : (temperatures (filterOf none) cold).sum = -150 := by decide +kernel
  rw [count, sum] at printed
  exact ⟨os, s, run, printed⟩

end ZmqTest.Weather
