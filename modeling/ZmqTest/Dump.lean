/-
# What a dump tells

`s_dump` receives the parts of one message and prints each in a line of its own: the time,
the size, and the bytes as they are when all of them can be printed, in hexadecimal
otherwise. The lines do not say which of the two it was, nor how many will follow, and still
what many dumps have printed determines every message with its parts, which receives failed,
and when each line was printed.
-/

import ZmqTest.Base
import ZmqTest.Lib.Delimited
import ZmqTest.Lib.Framing
import ZmqTest.Lib.Scanf

namespace ZmqTest

open Delimited (Ends group)

/-- What `strftime` makes of `"%F %T"`. -/
structure Stamp where
  text : List UInt8
  length_text : text.length = 19

/-- A part whose size is a value of type `int`. -/
structure Part where
  frame : Frame
  size_int : frame.length ≤ 2147483647

/-- `size`, which is -1 after a receive that failed. -/
def dumpSize : Option Part → Int
  | none => -1
  | some part => part.frame.length

/-- `"%03d"`. -/
def sizeText (size : Int) : List UInt8 :=
  if size < 0 then 45 :: printPadded 2 size.natAbs else printPadded 3 size.natAbs

/-- `is_text`. -/
def isText (frame : Frame) : Bool := frame.all fun byte => !(byte < 32 || byte > 127)

/-- `"%02X"`. -/
def hex02 (byte : UInt8) : List UInt8 := [hexByte (byte.toNat / 16), hexByte (byte.toNat % 16)]

/-- The bytes of a part, as they are printed. -/
def dataText : Option Part → List UInt8
  | none => []
  | some part => if isText part.frame then part.frame else part.frame.flatMap hex02

/-- What `debug_log` puts in front: the time in square brackets, in colour. -/
def logHead (stamp : Stamp) : List UInt8 :=
  [27, 91, 48, 59, 51, 51, 109, 91] ++ (stamp.text ++ [93, 27, 91, 48, 109, 32])

/-- `"----------\n"`. -/
def ruleText : List UInt8 := [45, 45, 45, 45, 45, 45, 45, 45, 45, 45, 10]

/-- `"[%03d] "`, the bytes, and `"\n"`. -/
def partText (outcome : Option Part) : List UInt8 :=
  ([91] ++ (sizeText (dumpSize outcome) ++ [93])) ++ ([32] ++ (dataText outcome ++ [10]))

/-- The first line of a dump, or the line of a part. -/
def lineText : Stamp ⊕ Stamp × Option Part → List UInt8
  | .inl stamp => logHead stamp ++ ruleText
  | .inr (stamp, outcome) => logHead stamp ++ partText outcome

/-- What a pass of the loop sees: the time, what is received, and whether `ZMQ_RCVMORE`
says that more is to come. -/
abbrev Pass := (Stamp × Option Part) × Bool

/-- The loop of `s_dump`: what it prints of the passes, and the passes that are left. It
waits when there are none. -/
def dumpLoop : List Pass → Option (List UInt8 × List Pass)
  | [] => none
  | (part, more) :: passes =>
      if more then
        (dumpLoop passes).map fun (text, left) => (lineText (.inr part) ++ text, left)
      else some (lineText (.inr part), passes)

/-- `s_dump`. -/
def sDump (stamp : Stamp) (passes : List Pass) : Option (List UInt8 × List Pass) :=
  (dumpLoop passes).map fun (text, left) => (lineText (.inl stamp) ++ text, left)

/-- A call of `s_dump` for each time. -/
def dumps : List Stamp → List Pass → Option (List UInt8 × List Pass)
  | [], passes => some ([], passes)
  | stamp :: stamps, passes =>
      match sDump stamp passes with
      | none => none
      | some (text, rest) => (dumps stamps rest).map fun (more, left) => (text ++ more, left)

theorem hex02_injective : Function.Injective hex02 := by
  have table : ∀ i : Fin 16, ∀ j : Fin 16, hexByte i = hexByte j → i = j := by decide
  have digit {m n : Nat} (hm : m < 16) (hn : n < 16) (h : hexByte m = hexByte n) : m = n :=
    congrArg Fin.val (table ⟨m, hm⟩ ⟨n, hn⟩ h)
  intro first second h
  have hfirst := first.toNat_lt
  have hsecond := second.toNat_lt
  simp only [hex02, List.cons.injEq, and_true] at h
  have high := digit (by omega) (by omega) h.1
  have low := digit (by omega) (by omega) h.2
  exact UInt8.toNat_inj.mp (by omega)

theorem flatMap_hex02_injective : Function.Injective (List.flatMap hex02) := by
  have ends : Ends hex02 := Delimited.ends_of_length (fun _ => (rfl : _ = 2)) hex02_injective
  exact ends.flatMap_injective fun _ => List.cons_ne_nil _ _

theorem length_flatMap_hex02 (frame : Frame) :
    (frame.flatMap hex02).length = 2 * frame.length := by
  induction frame with
  | nil => rfl
  | cons byte frame ih =>
      rw [List.flatMap_cons, List.length_append, ih, List.length_cons]
      simp only [hex02, List.length_cons, List.length_nil]
      omega

/-- Neither the bytes of a text nor the digits are a line feed. -/
theorem lineFeed_not_mem_dataText (outcome : Option Part) : 10 ∉ dataText outcome := by
  intro hmem
  cases outcome with
  | none => cases hmem
  | some part =>
      simp only [dataText] at hmem
      split at hmem
      case isTrue text =>
        have printable := List.all_eq_true.mp text 10 hmem
        exact absurd printable (by decide)
      case isFalse =>
        obtain ⟨byte, -, hbyte⟩ := List.mem_flatMap.mp hmem
        simp only [hex02, List.mem_cons, List.not_mem_nil, or_false] at hbyte
        rcases hbyte with high | low
        · have range := hexByte_range (byte.toNat / 16)
          rw [← high] at range
          exact absurd range.1 (by decide)
        · have range := hexByte_range (byte.toNat % 16)
          rw [← low] at range
          exact absurd range.1 (by decide)

theorem bracket_not_mem_sizeText (size : Int) : 93 ∉ sizeText size := by
  intro hmem
  rw [sizeText] at hmem
  split at hmem
  · rcases List.mem_cons.mp hmem with sign | digit
    · cases sign
    · exact absurd (isDigit_of_mem_printPadded digit) (by decide)
  · exact absurd (isDigit_of_mem_printPadded hmem) (by decide)

/-- A failed receive shows in the size, and the size of a part can be read off. -/
theorem sizeText_injective : Function.Injective sizeText := by
  intro first second h
  have sign {width n : Nat} {digits : List UInt8}
      (heq : 45 :: digits = printPadded width n) : False := by
    have digit : isDigit 45 = true :=
      isDigit_of_mem_printPadded (heq ▸ List.mem_cons_self)
    exact absurd digit (by decide)
  rw [sizeText, sizeText] at h
  split at h <;> split at h
  case isTrue.isTrue =>
    have same := congrArg digitsValue (List.cons.inj h).2
    rw [digitsValue_printPadded, digitsValue_printPadded] at same
    omega
  case isTrue.isFalse => exact (sign h).elim
  case isFalse.isTrue => exact (sign h.symm).elim
  case isFalse.isFalse =>
    have same := congrArg digitsValue h
    rw [digitsValue_printPadded, digitsValue_printPadded] at same
    omega

/-- The size tells text from hexadecimal digits, and the two together are the part. -/
theorem part_of_texts {first second : Option Part}
    (size : sizeText (dumpSize first) = sizeText (dumpSize second))
    (data : dataText first = dataText second) : first = second := by
  have same := sizeText_injective size
  cases first with
  | none =>
      cases second with
      | none => rfl
      | some part =>
          simp only [dumpSize] at same
          omega
  | some part =>
      cases second with
      | none =>
          simp only [dumpSize] at same
          omega
      | some other =>
          obtain ⟨frame, size_int⟩ := part
          obtain ⟨frame', size_int'⟩ := other
          simp only [dumpSize, Int.ofNat_inj] at same
          suffices heq : frame = frame' by
            subst heq
            rfl
          have double {text hex : Frame} (length : text.length = hex.length)
              (heq : text = hex.flatMap hex02) : text = hex := by
            have twice := congrArg List.length heq
            rw [length_flatMap_hex02] at twice
            have none : hex.length = 0 := by omega
            rw [List.length_eq_zero_iff.mp none, List.length_eq_zero_iff.mp (length.trans none)]
          simp only [dataText] at data
          split at data <;> split at data
          · exact data
          · exact double same data
          · exact (double same.symm data.symm).symm
          · exact flatMap_hex02_injective data

theorem ends_partText : Ends partText := by
  let size (outcome : Option Part) : { text : List UInt8 // 93 ∉ text } :=
    ⟨sizeText (dumpSize outcome), bracket_not_mem_sizeText _⟩
  let data (outcome : Option Part) : { text : List UInt8 // 10 ∉ text } :=
    ⟨dataText outcome, lineFeed_not_mem_dataText outcome⟩
  have sizes : Ends fun text : { text : List UInt8 // 93 ∉ text } => [91] ++ (text.val ++ [93]) :=
    (Delimited.ends_of_mark (fun text => text.property) Subtype.val_injective).prefixed [91]
  have datas : Ends fun text : { text : List UInt8 // 10 ∉ text } => [32] ++ (text.val ++ [10]) :=
    (Delimited.ends_of_mark (fun text => text.property) Subtype.val_injective).prefixed [32]
  have inj : Function.Injective fun outcome => (size outcome, data outcome) := by
    intro first second h
    obtain ⟨hsize, hdata⟩ := Prod.mk.inj h
    exact part_of_texts (congrArg Subtype.val hsize) (congrArg Subtype.val hdata)
  exact (sizes.pair datas).comp inj

theorem Stamp.text_injective : Function.Injective Stamp.text := by
  intro first second h
  cases first
  cases second
  simpa using h

/-- A line ends where it ends, and is what it looks like. -/
theorem ends_lineText : Ends lineText := by
  have stamps : Ends Stamp.text :=
    Delimited.ends_of_length (fun stamp => stamp.length_text) Stamp.text_injective
  have kinds : Ends (Sum.elim (fun _ : Unit => ruleText) partText) := by
    have rule : Ends fun _ : Unit => ruleText :=
      Delimited.ends_of_length (fun _ => rfl) fun _ _ _ => rfl
    exact rule.sum ends_partText (by decide : (45 : UInt8) ≠ 91) (fun _ => ⟨_, rfl⟩)
      fun _ => ⟨_, rfl⟩
  have lines : Ends fun line : Stamp × (Unit ⊕ Option Part) =>
      [27, 91, 48, 59, 51, 51, 109, 91] ++ (line.1.text ++
        ([93, 27, 91, 48, 109, 32] ++ Sum.elim (fun _ => ruleText) partText line.2)) :=
    (stamps.pair (kinds.prefixed _)).prefixed _
  let see : Stamp ⊕ Stamp × Option Part → Stamp × (Unit ⊕ Option Part)
    | .inl stamp => (stamp, .inl ())
    | .inr (stamp, outcome) => (stamp, .inr outcome)
  have inj : Function.Injective see := by
    rintro (stamp | ⟨stamp, outcome⟩) (stamp' | ⟨stamp', outcome'⟩) h <;> simp_all [see]
  have same : lineText = fun line =>
      [27, 91, 48, 59, 51, 51, 109, 91] ++ ((see line).1.text ++
        ([93, 27, 91, 48, 109, 32] ++ Sum.elim (fun _ => ruleText) partText (see line).2)) := by
    funext line
    rcases line with stamp | ⟨stamp, outcome⟩ <;> simp [lineText, logHead, see]
  rw [same]
  exact lines.comp inj

/-- A line is not empty. -/
theorem lineText_ne_nil (line : Stamp ⊕ Stamp × Option Part) : lineText line ≠ [] := by
  rcases line with stamp | ⟨stamp, outcome⟩ <;> simp [lineText, logHead]

/-! ## The calls -/

/-- The loop prints the parts of a message and stops behind it. -/
theorem dumpLoop_eq_some {passes left : List Pass} {text : List UInt8} :
    dumpLoop passes = some (text, left) ↔ ∃ parts, parts ≠ [] ∧
      passes = Framing.flagged parts ++ left ∧
      text = parts.flatMap fun part => lineText (.inr part) := by
  constructor
  · intro h
    induction passes generalizing text with
    | nil => cases h
    | cons pass passes ih =>
        obtain ⟨part, more⟩ := pass
        simp only [dumpLoop] at h
        split at h
        case isTrue going =>
          subst going
          obtain ⟨⟨rest, left'⟩, hrest, heq⟩ := Option.map_eq_some_iff.mp h
          obtain ⟨rfl, rfl⟩ := Prod.mk.inj heq
          obtain ⟨parts, hne, rfl, rfl⟩ := ih hrest
          obtain ⟨next, parts, rfl⟩ := List.exists_cons_of_ne_nil hne
          exact ⟨part :: next :: parts, List.cons_ne_nil _ _, rfl, by simp only [List.flatMap_cons]⟩
        case isFalse last =>
          cases h
          have ended : more = false := by simpa using last
          subst ended
          exact ⟨[part], List.cons_ne_nil _ _, rfl, by simp⟩
  · rintro ⟨parts, hne, rfl, rfl⟩
    induction parts with
    | nil => exact absurd rfl hne
    | cons part parts ih =>
        cases parts with
        | nil => simp [Framing.flagged, dumpLoop]
        | cons next parts =>
            have rest := ih (List.cons_ne_nil _ _)
            simp only [Framing.flagged, List.cons_append, dumpLoop, if_true] at rest ⊢
            rw [rest]
            simp

/-- A call of `s_dump`: when it starts, and what it receives when. -/
abbrev Call := Stamp × List (Stamp × Option Part)

theorem flatMap_group (call : Call) :
    (group call).flatMap lineText =
      lineText (.inl call.1) ++ call.2.flatMap fun part => lineText (.inr part) := by
  rw [group, List.flatMap_cons, List.flatMap_map]

/-- Calls of `s_dump` receive a message each, and print its parts. -/
theorem dumps_eq_some {stamps : List Stamp} {passes left : List Pass} {text : List UInt8} :
    dumps stamps passes = some (text, left) ↔
      ∃ calls : List Call, stamps = calls.map Prod.fst ∧ (∀ call ∈ calls, call.2 ≠ []) ∧
        passes = Framing.stream (calls.map Prod.snd) ++ left ∧
        text = (calls.flatMap group).flatMap lineText := by
  constructor
  · intro h
    induction stamps generalizing passes text with
    | nil =>
        cases h
        exact ⟨[], rfl, by simp, rfl, rfl⟩
    | cons stamp stamps ih =>
        simp only [dumps] at h
        split at h
        case h_1 => cases h
        case h_2 first rest hfirst =>
          obtain ⟨⟨lines, rest'⟩, hloop, hlines⟩ := Option.map_eq_some_iff.mp hfirst
          obtain ⟨⟨more, left'⟩, hmore, htext⟩ := Option.map_eq_some_iff.mp h
          obtain ⟨rfl, rfl⟩ := Prod.mk.inj hlines
          obtain ⟨rfl, rfl⟩ := Prod.mk.inj htext
          obtain ⟨parts, hne, rfl, rfl⟩ := dumpLoop_eq_some.mp hloop
          obtain ⟨calls, rfl, whole, rfl, rfl⟩ := ih hmore
          refine ⟨(stamp, parts) :: calls, rfl, ?_, ?_, ?_⟩
          · exact List.forall_mem_cons.mpr ⟨hne, whole⟩
          · simp [Framing.stream]
          · rw [List.flatMap_cons, List.flatMap_append, flatMap_group]
  · rintro ⟨calls, rfl, whole, rfl, rfl⟩
    induction calls with
    | nil => rfl
    | cons call calls ih =>
        obtain ⟨hne, rest⟩ := List.forall_mem_cons.mp whole
        have first : dumpLoop (Framing.stream ((call :: calls).map Prod.snd) ++ left) =
            some (call.2.flatMap fun part => lineText (.inr part),
              Framing.stream (calls.map Prod.snd) ++ left) :=
          dumpLoop_eq_some.mpr ⟨call.2, hne, by simp [Framing.stream], rfl⟩
        simp only [List.map_cons, dumps, sDump] at first ⊢
        rw [first]
        simp only [Option.map_some, ih rest]
        rw [List.flatMap_cons, List.flatMap_append, flatMap_group]

/-- What some calls of `s_dump` have printed tells how many they were and when, and all that
they have received: two sessions that have printed the same text have received the same
messages, part for part, and the same receives have failed. Every call has printed a whole
message and nothing of the next one. -/
theorem dumps_determine {stamps stamps' : List Stamp} {passes passes' left left' : List Pass}
    {text : List UInt8} (first : dumps stamps passes = some (text, left))
    (second : dumps stamps' passes' = some (text, left')) :
    stamps = stamps' ∧ ∃ msgs : List (List (Stamp × Option Part)), msgs.length = stamps.length ∧
      (∀ msg ∈ msgs, msg ≠ []) ∧ passes = Framing.stream msgs ++ left ∧
      passes' = Framing.stream msgs ++ left' := by
  obtain ⟨calls, rfl, whole, rfl, rfl⟩ := dumps_eq_some.mp first
  obtain ⟨calls', rfl, -, rfl, htext⟩ := dumps_eq_some.mp second
  have lines := ends_lineText.flatMap_injective lineText_ne_nil htext
  obtain rfl := Delimited.flatMap_group_injective lines
  refine ⟨rfl, calls.map Prod.snd, by simp, ?_, rfl, rfl⟩
  intro msg hmem
  obtain ⟨call, hcall, rfl⟩ := List.mem_map.mp hmem
  exact whole call hcall

/-- A message from the peer `PEER2`, received at noon. -/
def identified : List (Stamp × Option Part) :=
  let noon : Stamp :=
    { text := [50, 48, 49, 51, 45, 48, 49, 45, 48, 49, 32, 49, 50, 58, 48, 48, 58, 48, 48]
      length_text := rfl }
  [(noon, some { frame := [80, 69, 69, 82, 50], size_int := by decide }),
    (noon, some { frame := [], size_int := by decide }),
    (noon, some { frame := [82, 79, 255], size_int := by decide })]

/-- One of the sessions ends there, the other has another message to receive. -/
theorem dumps_determine_identified : ∃ text stamp,
    dumps [stamp] (Framing.flagged identified) = some (text, []) ∧
    dumps [stamp] (Framing.flagged identified ++ Framing.flagged identified) =
      some (text, Framing.flagged identified) ∧
    ∃ msgs : List (List (Stamp × Option Part)), msgs.length = 1 ∧
      Framing.flagged identified = Framing.stream msgs ++ [] := by
  let stamp := (identified.head (List.cons_ne_nil _ _)).1
  have calls : ∀ left, dumps [stamp] (Framing.flagged identified ++ left) =
      some (([(stamp, identified)].flatMap group).flatMap lineText, left) := by
    intro left
    exact dumps_eq_some.mpr ⟨[(stamp, identified)], rfl, by simp [identified],
      by simp [Framing.stream], rfl⟩
  have first := calls []
  rw [List.append_nil] at first
  have second := calls (Framing.flagged identified)
  obtain ⟨-, msgs, one, -, hpasses, -⟩ := dumps_determine first second
  exact ⟨_, stamp, first, second, msgs, one, hpasses⟩

end ZmqTest
