/-
# Relaying a message through string buffers

`lbbroker.c` relays a message by receiving each frame into a buffer of its own and
sending the buffers with `s_sendlists`. The receive truncates and ends the string, the
sender takes a buffer given without a length for a string, and marks all frames but
the last as followed by more: so one message with as many frames goes out, and a frame
that is too long or has a NUL byte is cut.
-/

import Mathlib.Data.List.Zip
import ZmqTest.Base
import ZmqTest.Lib.Framing

namespace ZmqTest

open Framing

/-- The bytes that are sent of a buffer: zero stands for the length of its string. -/
def sentBytes (data : List UInt8) (len : Nat) : Frame :=
  if len = 0 then cstr data else data.take len

/-- The loop of `s_sendlists`, with the passes that are left and the arguments that
have not been read. Nothing can be said once there is no argument to read. -/
def sendlistsLoop : Nat → List (List UInt8 × Nat) →
    Option (List (Frame × Bool) × List (List UInt8 × Nat))
  | 0, ap => some ([], ap)
  | _ + 1, [] => none
  | passes + 1, (data, len) :: ap =>
      (sendlistsLoop passes ap).map fun (sent, ap) => ((sentBytes data len, true) :: sent, ap)

/-- `s_sendlists` with its arguments: the frames it sends, and whether they are marked
`ZMQ_SNDMORE`. The bound `count-1` of the loop is unsigned. -/
def sendlists (count : UInt32) (ap : List (List UInt8 × Nat)) : Option (List (Frame × Bool)) :=
  match sendlistsLoop (count - 1).toNat ap with
  | none => none
  | some (_, []) => none
  | some (sent, (data, len) :: _) => some (sent ++ [(sentBytes data len, false)])

/-- The loop sends as many frames as it has passes, all of them marked. -/
theorem sendlistsLoop_append (items rest : List (List UInt8 × Nat)) :
    sendlistsLoop items.length (items ++ rest) =
      some ((sSendlists items).map (·, true), rest) := by
  induction items with
  | nil => rfl
  | cons item items ih =>
      rw [List.length_cons, List.cons_append, sendlistsLoop, ih]
      rfl

/-- Called with as many buffers as it is told, `s_sendlists` sends one message of as
many frames. -/
theorem sendlists_eq {count : UInt32} {items : List (List UInt8 × Nat)}
    (length : items.length = count.toNat) (nonempty : items ≠ []) :
    sendlists count items = some (flagged (sSendlists items)) := by
  obtain ⟨first, last, rfl⟩ := (List.eq_nil_or_concat' items).resolve_left nonempty
  rw [List.length_append, List.length_singleton] at length
  have passes : (count - 1).toNat = first.length := by
    rw [UInt32.toNat_sub_of_le]
    · rw [← length]
      exact Nat.add_sub_cancel (n := first.length) (m := 1)
    · rw [UInt32.le_iff_toNat_le, ← length]
      exact Nat.le_add_left 1 _
  rw [sendlists, passes, sendlistsLoop_append]
  have hframes : sSendlists (first ++ [last]) =
      sSendlists first ++ [sentBytes last.1 last.2] := by
    rw [sSendlists, List.map_append]
    rfl
  rw [hframes, flagged_concat]

/-- Each frame is received into its buffer, and the buffers are sent as strings. -/
def relayThrough (len : Nat) (buffers : List (List UInt8)) (frames : List Frame) :
    List (List UInt8 × Nat) :=
  List.zipWith (fun buffer frame => (sRecv buffer len (some frame), 0)) buffers frames

theorem sSendlists_relayThrough (len : Nat) {buffers : List (List UInt8)} {frames : List Frame}
    (length : buffers.length = frames.length) :
    sSendlists (relayThrough len buffers frames) = frames.map (received len) := by
  induction frames generalizing buffers with
  | nil => simp [relayThrough, sSendlists]
  | cons frame frames ih =>
      cases buffers with
      | nil => cases length
      | cons buffer buffers =>
          have rest := ih (Nat.succ.inj length)
          simp only [relayThrough, sSendlists, List.zipWith_cons_cons, List.map_cons, if_true,
            cstr_sRecv] at rest ⊢
          rw [rest]

/-- What is received of a frame is the frame exactly when it fits and has no NUL byte. -/
theorem received_eq_self_iff {len : Nat} {frame : Frame} :
    received len frame = frame ↔ frame.length ≤ len - 1 ∧ 0 ∉ frame := by
  constructor
  · intro h
    have text : 0 ∉ frame := by
      rw [← h]
      exact zero_not_mem_cstr _
    have short : (received len frame).length ≤ len - 1 :=
      Nat.le_trans (List.takeWhile_prefix _).length_le (List.length_take_le _ _)
    exact ⟨h ▸ short, text⟩
  · rintro ⟨short, text⟩
    rw [received, List.take_of_length_le short, cstr_eq_self text]

theorem relayThrough_ne_nil (len : Nat) {buffers : List (List UInt8)} {frames : List Frame}
    (length : buffers.length = frames.length) (nonempty : frames ≠ []) :
    relayThrough len buffers frames ≠ [] := by
  intro hnil
  apply nonempty
  rw [relayThrough, List.zipWith_eq_nil_iff] at hnil
  rcases hnil with hbuffers | hframes
  · rw [hbuffers] at length
    exact List.length_eq_zero_iff.mp length.symm
  · exact hframes

/-- Frames received one by one into buffers of `len` bytes and sent with `s_sendlists`
go out as one message with as many frames, all but the last marked; each is the frame
that came, cut at `len - 1` bytes and at its first NUL. So the message is the one that
came exactly when every frame fits and has no NUL byte. -/
theorem relays_through_buffers (len : Nat) {buffers : List (List UInt8)} {frames : List Frame}
    (length : buffers.length = frames.length) {count : UInt32}
    (counted : frames.length = count.toNat) (nonempty : frames ≠ []) :
    sendlists count (relayThrough len buffers frames) =
        some (flagged (frames.map fun frame => cstr (frame.take (len - 1)))) ∧
      assemble (flagged (frames.map fun frame => cstr (frame.take (len - 1)))) =
        { complete := [frames.map fun frame => cstr (frame.take (len - 1))], opened := [] } ∧
      ((frames.map fun frame => cstr (frame.take (len - 1))) = frames ↔
        ∀ frame ∈ frames, frame.length ≤ len - 1 ∧ 0 ∉ frame) := by
  have hlength : (relayThrough len buffers frames).length = count.toNat := by
    rw [relayThrough, List.length_zipWith, length, Nat.min_self, counted]
  have sent := sendlists_eq hlength (relayThrough_ne_nil len length nonempty)
  rw [sSendlists_relayThrough len length] at sent
  refine ⟨sent, assemble_flagged (by simpa using nonempty), ?_⟩
  have pointwise := List.map_inj_left (l := frames) (f := received len) (g := id)
  rw [List.map_id] at pointwise
  change frames.map (received len) = frames ↔ _
  rw [pointwise]
  exact forall₂_congr fun _ _ => received_eq_self_iff

/-- Three frames, the second too long for buffers of four bytes and the third with a
NUL byte. -/
def cutFrames : List Frame := [[67], [65, 66, 67, 68], [65, 0, 66]]

theorem relays_through_buffers_cut :
    sendlists 3 (relayThrough 4 [[], [9], []] cutFrames) =
        some [([67], true), ([65, 66, 67], true), ([65], false)] ∧
      ¬ ∀ frame ∈ cutFrames, frame.length ≤ 4 - 1 ∧ 0 ∉ frame := by
  have length : ([[], [9], []] : List (List UInt8)).length = cutFrames.length := rfl
  have counted : cutFrames.length = (3 : UInt32).toNat := rfl
  obtain ⟨sent, -, same⟩ := relays_through_buffers 4 length counted (by decide)
  exact ⟨sent, same.not.mp (by decide)⟩

end ZmqTest
