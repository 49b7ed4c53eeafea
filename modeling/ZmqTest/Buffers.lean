/-
# What a receive writes

`s_recv` in the arithmetic of the machine. `zmq_recv` stores as much of a frame as it
is given room for and returns the size of the whole frame, as an `int`; the comparison
with `len-1` is unsigned, and the NUL goes to the smaller of the two. So at most `len`
bytes are written, from the start of the buffer on, and what the buffer then holds is
what the other modules take for the result of a receive.
-/

import ZmqTest.Base

namespace ZmqTest

/-- `INT_MAX`, the largest size of a frame that `zmq_recv` can report. -/
def intMax : Nat := 2147483647

/-- A byte written to a buffer, and the index it is written to. -/
structure Write where
  index : Int
  byte : UInt8
  deriving DecidableEq

/-- What `zmq_recv` stores: the bytes of the frame that there is room for. -/
def zmqRecvWrites (frame : Frame) (room : BitVec 32) : List Write :=
  (frame.take room.toNat).zipIdx.map fun place => { index := place.2, byte := place.1 }

/-- The writes of `s_recv`, in order; a failed receive writes nothing. -/
def sRecvWrites (len : BitVec 32) : Option Frame → List Write
  | none => []
  | some frame =>
      let size : BitVec 32 := BitVec.ofNat 32 frame.length
      if size = -1 then zmqRecvWrites frame (len - 1)
      else
        let size := if len - 1 < size then len - 1 else size
        zmqRecvWrites frame (len - 1) ++ [{ index := size.toInt, byte := 0 }]

/-- A buffer after some writes. -/
def applyWrites (buffer : List UInt8) (writes : List Write) : List UInt8 :=
  writes.foldl (fun buffer write => buffer.set write.index.toNat write.byte) buffer

theorem applyWrites_append (buffer : List UInt8) (first second : List Write) :
    applyWrites buffer (first ++ second) = applyWrites (applyWrites buffer first) second :=
  List.foldl_append

section

variable {len : BitVec 32} {frame : Frame}

/-- The length of a buffer, less one, does not wrap. -/
theorem toNat_pred (positive : 1 ≤ len.toNat) : (len - 1).toNat = len.toNat - 1 := by
  have hlt := len.isLt
  have one : (1 : BitVec 32).toNat = 1 := rfl
  rw [BitVec.toNat_sub, one]
  omega

/-- The NUL is written behind what has been stored. -/
theorem sRecvWrites_some (positive : 1 ≤ len.toNat) (sized : frame.length ≤ intMax) :
    sRecvWrites len (some frame) =
      zmqRecvWrites frame (len - 1) ++
        [{ index := (frame.take (len.toNat - 1)).length, byte := 0 }] := by
  rw [intMax] at sized
  have hpred := toNat_pred positive
  have hsize : (BitVec.ofNat 32 frame.length).toNat = frame.length := by
    rw [BitVec.toNat_ofNat]
    omega
  have hne : BitVec.ofNat 32 frame.length ≠ -1 := by
    intro h
    have := congrArg BitVec.toNat h
    rw [hsize] at this
    simp at this
    omega
  have hindex : (if len - 1 < BitVec.ofNat 32 frame.length then len - 1
      else BitVec.ofNat 32 frame.length).toInt = (frame.take (len.toNat - 1)).length := by
    rw [List.length_take]
    split
    case isTrue more =>
      rw [BitVec.lt_def, hpred, hsize] at more
      rw [BitVec.toInt_eq_toNat_of_lt (by omega), hpred]
      omega
    case isFalse less =>
      rw [BitVec.lt_def, hpred, hsize] at less
      rw [BitVec.toInt_eq_toNat_of_lt (by omega), hsize]
      omega
  simp only [sRecvWrites, if_neg hne, hindex]

theorem length_zmqRecvWrites (frame : Frame) (room : BitVec 32) :
    (zmqRecvWrites frame room).length = (frame.take room.toNat).length := by
  rw [zmqRecvWrites, List.length_map, List.length_zipIdx]

/-- For every frame that can be reported and every buffer, no more bytes are written
than the buffer has, the terminator included. -/
theorem length_sRecvWrites_le (positive : 1 ≤ len.toNat) (sized : frame.length ≤ intMax) :
    (sRecvWrites len (some frame)).length ≤ len.toNat := by
  have htake := List.length_take_le (len.toNat - 1) frame
  rw [sRecvWrites_some positive sized, List.length_append, length_zmqRecvWrites,
    toNat_pred positive, List.length_singleton]
  omega

/-- All of them are within the buffer. -/
theorem index_of_mem_sRecvWrites (positive : 1 ≤ len.toNat) (sized : frame.length ≤ intMax)
    {write : Write} (hmem : write ∈ sRecvWrites len (some frame)) :
    0 ≤ write.index ∧ write.index < len.toNat := by
  have htake := List.length_take_le (len.toNat - 1) frame
  rw [sRecvWrites_some positive sized, List.mem_append, zmqRecvWrites, toNat_pred positive]
    at hmem
  rcases hmem with stored | terminator
  · obtain ⟨⟨byte, index⟩, hzip, rfl⟩ := List.mem_map.mp stored
    have hindex := (List.mem_zipIdx hzip).2.1
    dsimp only
    omega
  · rw [List.mem_singleton.mp terminator]
    dsimp only
    omega

/-- Bytes written one after the other replace as many bytes of a buffer. -/
theorem foldl_set_zipIdx (front back : List UInt8) {middle bytes : List UInt8}
    (h : middle.length = bytes.length) :
    (bytes.zipIdx front.length).foldl (fun buffer write => buffer.set write.2 write.1)
      (front ++ (middle ++ back)) = front ++ (bytes ++ back) := by
  induction bytes generalizing front middle with
  | nil => rw [List.length_eq_zero_iff.mp h]; rfl
  | cons byte bytes ih =>
      obtain ⟨old, rest, rfl⟩ := List.exists_cons_of_length_eq_add_one h
      have hset : (front ++ (old :: rest ++ back)).set front.length byte =
          front ++ [byte] ++ (rest ++ back) := by simp
      have hlength : front.length + 1 = (front ++ [byte]).length := by simp
      rw [List.zipIdx_cons, List.foldl_cons, hset, hlength, ih _ (Nat.succ.inj h)]
      simp

/-- What is stored replaces the beginning of the buffer. -/
theorem applyWrites_zmqRecvWrites {room : BitVec 32} {buffer : List UInt8}
    (fits : (frame.take room.toNat).length ≤ buffer.length) :
    applyWrites buffer (zmqRecvWrites frame room) =
      frame.take room.toNat ++ buffer.drop (frame.take room.toNat).length := by
  have hlength := List.length_take_of_le fits
  have hstored := foldl_set_zipIdx [] (buffer.drop (frame.take room.toNat).length) hlength
  rw [List.nil_append, List.take_append_drop] at hstored
  rw [applyWrites, zmqRecvWrites, List.foldl_map]
  exact hstored

/-- The writes leave what the abstract receive leaves. -/
theorem applyWrites_sRecvWrites (positive : 1 ≤ len.toNat) (sized : frame.length ≤ intMax)
    {buffer : List UInt8} (room : len.toNat ≤ buffer.length) :
    applyWrites buffer (sRecvWrites len (some frame)) = sRecv buffer len.toNat (some frame) := by
  have hpred := toNat_pred positive
  have htake := List.length_take_le (len.toNat - 1) frame
  have hlt : (frame.take (len.toNat - 1)).length < buffer.length := by omega
  have fits : (frame.take (len - 1).toNat).length ≤ buffer.length := by
    rw [hpred]
    exact Nat.le_of_lt hlt
  rw [sRecvWrites_some positive sized, applyWrites_append, applyWrites_zmqRecvWrites fits, hpred,
    sRecv, List.drop_eq_getElem_cons hlt]
  change (_ ++ _ :: _).set (frame.take (len.toNat - 1)).length 0 = _
  rw [List.set_append_right _ _ (Nat.le_refl _), Nat.sub_self, List.set_cons_zero]

end

end ZmqTest
