/-
# The server that forks for integers

`erl/server2.c` receives a term, asks for its type and forks a child for a small
integer; then it looks whether a signal has come, and sleeps. A receive that fails
leaves the buffer as it was, and the server, which is not told, asks for the type of
what is in it: the message before, or whatever the buffer held at first.

What `ei_get_type` makes of a buffer is a parameter. A receive fails only after a
signal. Forking succeeds; a fork that fails makes fewer children.
-/

import ZmqTest.Base
import ZmqTest.Lib.Machine

namespace ZmqTest.Erl

/-- `ERL_SMALL_INTEGER_EXT`. -/
def erlSmallIntegerExt : Int := 97

/-- The next call, `s_recv`, or the test of `S_INTERRUPTED`. -/
inductive Server2Pc
  | recv
  | test
  | stopped
  deriving DecidableEq

structure Server2State where
  pc : Server2Pc
  buffer : List UInt8
  /-- `S_INTERRUPTED`. -/
  interrupted : Bool
  deriving DecidableEq

inductive Server2Event
  | /-- `s_signal_handler`. -/
    signal
  | /-- `s_recv` with the handling of the buffer; `none` is a failed receive. -/
    recv (frame : Option Frame)
  | /-- The test of `S_INTERRUPTED`, and the sleep. -/
    test
  deriving DecidableEq

inductive Server2Output
  | /-- A message is received, with the type of its term. -/
    received (type : Int)
  | forked
  deriving DecidableEq

section

variable (getType : List UInt8 → Int) (garbage : List UInt8)

/-- What is done with the buffer, whether or not something has been received. -/
def handle (buffer : List UInt8) : List Server2Output :=
  if getType buffer = erlSmallIntegerExt then [.forked] else []

/-- The receive and the branches on the type. -/
def onRecv (s : Server2State) (frame : Option Frame) : Server2State × List Server2Output :=
  let buffer := sRecv s.buffer 256 frame
  ({ s with pc := .test, buffer := buffer },
    (if frame.isSome then [.received (getType buffer)] else []) ++ handle getType buffer)

/-- One step of `main`, or a signal. -/
def server2Step (s : Server2State) (e : Server2Event) :
    Option (Server2State × List Server2Output) :=
  match s.pc, e with
  | _, .signal => some ({ s with interrupted := true }, [])
  | .recv, .recv (some frame) => some (onRecv getType s (some frame))
  | .recv, .recv none => if s.interrupted then some (onRecv getType s none) else none
  | .test, .test => some ({ s with pc := if s.interrupted then .stopped else .recv }, [])
  | _, _ => none

/-- The server of `erl/server2.c`; `garbage` is in its buffer before the first
receive. -/
def server2 : Machine Server2State Server2Event Server2Output where
  init := { pc := .recv, buffer := garbage, interrupted := false }
  step := server2Step getType

end

variable {getType : List UInt8 → Int} {garbage : List UInt8}

/-- The steps of the server. -/
inductive Server2Moves (getType : List UInt8 → Int) (s : Server2State) :
    Server2Event → Server2State → List Server2Output → Prop
  | signal : Server2Moves getType s .signal { s with interrupted := true } []
  | received (frame : Frame) (pc : s.pc = .recv) :
      Server2Moves getType s (.recv (some frame))
        { s with pc := .test, buffer := sRecv s.buffer 256 (some frame) }
        (.received (getType (sRecv s.buffer 256 (some frame))) ::
          handle getType (sRecv s.buffer 256 (some frame)))
  | failed (pc : s.pc = .recv) (interrupted : s.interrupted = true) :
      Server2Moves getType s (.recv none) { s with pc := .test } (handle getType s.buffer)
  | test (pc : s.pc = .test) :
      Server2Moves getType s .test { s with pc := if s.interrupted then .stopped else .recv } []

theorem server2Moves_of_step {s t : Server2State} {e : Server2Event}
    {out : List Server2Output} (h : (server2 getType garbage).step s e = some (t, out)) :
    Server2Moves getType s e t out := by
  change server2Step getType s e = some (t, out) at h
  unfold server2Step at h
  split at h
  case h_1 =>
    cases h
    exact .signal
  case h_2 frame pc =>
    cases h
    exact .received frame pc
  case h_3 pc =>
    split at h
    case isTrue interrupted =>
      cases h
      exact .failed pc interrupted
    case isFalse => cases h
  case h_4 pc =>
    cases h
    exact .test pc
  case h_5 => cases h

/-- The children that have been forked. -/
def children (os : List Server2Output) : Nat := os.countP (· = .forked)

/-- The messages received that are small integers. -/
def smallIntegers (os : List Server2Output) : Nat :=
  os.countP (· = .received erlSmallIntegerExt)

/-- A receive that fails does not find a small integer in the buffer. -/
def NothingStale (getType : List UInt8 → Int) (s : Server2State) (e : Server2Event) : Prop :=
  e = .recv none → getType s.buffer ≠ erlSmallIntegerExt

instance (getType : List UInt8 → Int) (s : Server2State) (e : Server2Event) :
    Decidable (NothingStale getType s e) :=
  inferInstanceAs (Decidable (_ → _))

/-- What is done with a buffer that has been received forks once for a small integer. -/
theorem counts_of_received (buffer : List UInt8) :
    children (.received (getType buffer) :: handle getType buffer) =
      smallIntegers (.received (getType buffer) :: handle getType buffer) := by
  by_cases h : getType buffer = erlSmallIntegerExt <;>
    simp [children, smallIntegers, handle, h]

/-- A step forks no child that is not asked for, as long as nothing stale is found. -/
theorem children_of_nothingStale {s t : Server2State} {e : Server2Event}
    {out : List Server2Output} (h : NothingStale getType s e)
    (taken : (server2 getType garbage).step s e = some (t, out)) :
    children out = smallIntegers out := by
  cases server2Moves_of_step taken with
  | signal => rfl
  | received frame pc => exact counts_of_received _
  | failed pc interrupted =>
      rw [handle, if_neg (h rfl)]
      rfl
  | test pc => rfl

/-- A receive that fails on a small integer forks a child without a message. -/
theorem children_of_stale {s t : Server2State} {e : Server2Event} {out : List Server2Output}
    (h : ¬ NothingStale getType s e)
    (taken : (server2 getType garbage).step s e = some (t, out)) :
    smallIntegers out < children out := by
  simp only [NothingStale, Classical.not_imp, not_not] at h
  obtain ⟨rfl, stale⟩ := h
  cases server2Moves_of_step taken with
  | failed pc interrupted =>
      rw [handle, if_pos stale]
      decide

/-- No more children are forked than small integers received exactly in the runs in
which no failed receive finds a small integer in the buffer. -/
theorem children_le_iff {es : List Server2Event} {os : List Server2Output} {s : Server2State}
    (run : (server2 getType garbage).Run es os s) :
    children os ≤ smallIntegers os ↔
      (server2 getType garbage).StepsMeet (NothingStale getType) es :=
  run.countP_le_iff_stepsMeet (fun _ _ _ _ h taken => children_of_nothingStale h taken)
    fun _ _ _ _ h taken => children_of_stale h taken

end ZmqTest.Erl
