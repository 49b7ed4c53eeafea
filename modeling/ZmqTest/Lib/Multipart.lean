/-
# Multipart messages

A message on the wire is a list of frames and a frame is a string of bytes. The
operations are those of the message library: a message is popped and pushed at
its front, wrapping puts an address and an empty delimiter in front of it, and
unwrapping takes an address off together with the delimiter that follows it, if
there is one. Sockets edit the front of messages as well: a router names the
peer a message came from, a request socket adds and removes the delimiter.
-/

import Mathlib.Data.List.Basic

/-- The bytes of one frame. -/
abbrev Frame := List UInt8

instance : LawfulBEq Frame := inferInstance

/-- A multipart message. -/
abbrev Zmsg := List Frame

namespace Zmsg

/-- `zmsg_push`. -/
def push (msg : Zmsg) (frame : Frame) : Zmsg := frame :: msg

/-- `zmsg_pop`; `none` when no frame is left. -/
def pop : Zmsg → Option (Frame × Zmsg)
  | [] => none
  | frame :: rest => some (frame, rest)

/-- `zmsg_first`; `none` is the null pointer. -/
def first (msg : Zmsg) : Option Frame := msg.head?

/-- `zmsg_wrap`: an address and an empty delimiter are put in front. -/
def wrap (msg : Zmsg) (address : Frame) : Zmsg := address :: [] :: msg

/-- `zmsg_unwrap`: take the address off, and one empty frame if it comes next. -/
def unwrap : Zmsg → Option (Frame × Zmsg)
  | [] => none
  | address :: [] :: rest => some (address, rest)
  | address :: rest => some (address, rest)

/-- Nothing but the address is taken off when a frame with content comes next. -/
theorem unwrap_of_ne_nil {address frame : Frame} (hne : frame ≠ []) (rest : Zmsg) :
    unwrap (address :: frame :: rest) = some (address, frame :: rest) := by
  cases frame with
  | nil => exact absurd rfl hne
  | cons byte bytes => rfl

/-- The address is always the first frame. -/
theorem unwrap_cons (address : Frame) (rest : Zmsg) :
    ∃ body, unwrap (address :: rest) = some (address, body) := by
  cases rest with
  | nil => exact ⟨[], rfl⟩
  | cons frame rest =>
      cases frame with
      | nil => exact ⟨rest, rfl⟩
      | cons byte bytes => exact ⟨(byte :: bytes) :: rest, rfl⟩

theorem eq_cons_of_unwrap {msg body : Zmsg} {address : Frame}
    (h : unwrap msg = some (address, body)) : ∃ rest, msg = address :: rest := by
  cases msg with
  | nil => cases h
  | cons frame rest =>
      obtain ⟨other, hother⟩ := unwrap_cons frame rest
      rw [hother] at h
      simp only [Option.some.injEq, Prod.mk.injEq] at h
      exact ⟨rest, by rw [h.1]⟩

/-- `zframe_reset` on `zmsg_last`: the last frame is replaced. -/
def resetLast (msg : Zmsg) (frame : Frame) : Zmsg := msg.dropLast ++ [frame]

theorem resetLast_cons {msg : Zmsg} (hne : msg ≠ []) (first frame : Frame) :
    resetLast (first :: msg) frame = first :: resetLast msg frame := by
  simp [resetLast, List.dropLast_cons_of_ne_nil hne]

end Zmsg

/-- `memcmp` of one byte: does the frame start with it? A frame without bytes
has none to compare. -/
def Frame.startsWith (frame : Frame) (byte : UInt8) : Bool := frame.head? = some byte

/-- The digits of the hexadecimal notation. -/
def hexDigit (n : Nat) : Char :=
  ['0', '1', '2', '3', '4', '5', '6', '7', '8', '9', 'A', 'B', 'C', 'D', 'E', 'F'].getD n '?'

/-- `zframe_strhex`: two digits for each byte. -/
def zframeStrhex : Frame → List Char
  | [] => []
  | byte :: bytes =>
      hexDigit (byte.toNat / 16) :: hexDigit (byte.toNat % 16) :: zframeStrhex bytes

private theorem hexDigit_injOn {m n : Nat} (hm : m < 16) (hn : n < 16)
    (h : hexDigit m = hexDigit n) : m = n := by
  have table : ∀ i : Fin 16, ∀ j : Fin 16, hexDigit i = hexDigit j → i = j := by decide
  exact congrArg Fin.val (table ⟨m, hm⟩ ⟨n, hn⟩ h)

/-- The printed identity determines the identity. -/
theorem zframeStrhex_injective : Function.Injective zframeStrhex := by
  intro first
  induction first with
  | nil =>
      intro second h
      cases second with
      | nil => rfl
      | cons byte bytes => cases h
  | cons byte bytes ih =>
      intro second h
      cases second with
      | nil => cases h
      | cons other others =>
          simp only [zframeStrhex, List.cons.injEq] at h
          obtain ⟨hhigh, hlow, hrest⟩ := h
          have hbyte := byte.toNat_lt
          have hother := other.toNat_lt
          have high := hexDigit_injOn (by omega) (by omega) hhigh
          have low := hexDigit_injOn (by omega) (by omega) hlow
          have hsame : byte = other := UInt8.toNat_inj.mp (by omega)
          rw [hsame, ih hrest]
