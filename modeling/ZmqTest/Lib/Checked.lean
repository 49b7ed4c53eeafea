/-
# Reading frames with bounds

The data of a frame is read through a pointer that may be null, and compared with
a number of bytes that may exceed it. Here both are faults, so that a program
written with these operations ends with a result exactly when it reads nothing
but the bytes of frames that are there.
-/

import ZmqTest.Lib.Multipart

/-- What a program reads that is not there. -/
inductive Fault
  | /-- The data or the size of a null frame. -/
    missing
  | /-- Bytes behind the end of a frame. -/
    beyond
  deriving DecidableEq

/-- A computation that may read out of bounds. -/
abbrev Checked := Except Fault

namespace Checked

universe u

/-- It reads nothing that is not there. -/
def Sound {α : Type u} (c : Checked α) : Prop := ∃ value, c = .ok value

/-- `zframe_data`. -/
def zframeData : Option Frame → Checked Frame
  | none => .error .missing
  | some frame => .ok frame

/-- `memcmp` of the first `count` bytes: are they equal? -/
def memcmp (data bytes : List UInt8) (count : Nat) : Checked Bool :=
  if data.length < count then .error .beyond else .ok (data.take count = bytes.take count)

section

variable {α β : Type u}

@[simp]
theorem ok_bind (value : α) (next : α → Checked β) :
    ((.ok value : Checked α) >>= next) = next value := rfl

@[simp]
theorem error_bind (fault : Fault) (next : α → Checked β) :
    ((.error fault : Checked α) >>= next) = .error fault := rfl

end

@[simp]
theorem sound_ok {α : Type u} (value : α) : Sound (.ok value : Checked α) := ⟨value, rfl⟩

@[simp]
theorem not_sound_error {α : Type u} (fault : Fault) : ¬ Sound (.error fault : Checked α) := by
  rintro ⟨value, h⟩
  cases h

/-- One byte of an empty frame cannot be compared. -/
@[simp]
theorem memcmp_nil (byte : UInt8) : memcmp [] [byte] 1 = .error .beyond := rfl

/-- One byte of a frame that has one. -/
@[simp]
theorem memcmp_one {frame : Frame} (hne : frame ≠ []) (byte : UInt8) :
    memcmp frame [byte] 1 = .ok (frame.startsWith byte) := by
  cases frame with
  | nil => exact absurd rfl hne
  | cons first rest => simp [memcmp, Frame.startsWith]

/-- As many bytes as both have. -/
theorem memcmp_length {data bytes : List UInt8} (h : data.length = bytes.length) :
    memcmp data bytes data.length = .ok (data = bytes) := by
  rw [memcmp, if_neg (Nat.lt_irrefl _), List.take_length, h, List.take_length]

end Checked
