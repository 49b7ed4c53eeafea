/-
# The Paranoid Pirate worker

The worker echoes requests, beats, and watches for signs of the queue: three
polls in a row that end without a message make it replace its socket. Now and
then it simulates a crash or an overload. One iteration of the main loop is a
poll, the handling of the message if there is one, and the heartbeat; the clock
readings and the values of `random()` are part of the event that uses them.
-/

import ZmqTest.Base
import ZmqTest.Ppq.Queue

namespace ZmqTest.Ppq

/-- `INTERVAL_INIT`, in milliseconds. -/
def intervalInit : Nat := 1000

/-- `INTERVAL_MAX`, in milliseconds. -/
def intervalMax : Nat := 32000

/-- Where the worker's loop stands. -/
inductive WorkerPc
  | setup
  | poll
  | recv
  | tick
  | stopped
  deriving DecidableEq

/-- The variables of `main`; `liveness` and `interval` are `size_t`. -/
structure WorkerState where
  pc : WorkerPc
  liveness : Nat
  interval : Nat
  heartbeatAt : Nat
  cycles : Nat
  deriving DecidableEq

inductive WorkerEvent
  | /-- The first socket and the reading before the loop. -/
    setup (now : Int)
  | /-- `zmq_poll`: an error, or whether a message waits. -/
    poll (rc : Option Bool)
  | /-- The handling of the received message: the values drawn, and
    `zctx_interrupted` after a sleep. `none` is an interrupted receive. -/
    recv (msg : Option Zmsg) (draws : List Random) (interrupted : Bool)
  | /-- The heartbeat branch: one reading for the test, one more when it is taken. -/
    tick (readings : List Int)
  deriving DecidableEq

/-- What a step does to the socket and to the time. -/
inductive WorkerEffect
  | /-- `zsocket_destroy` before a new socket is made. -/
    close
  | connect
  | send (msg : Zmsg)
  | sleep (msecs : Nat)
  | destroyed (msg : Zmsg)
  deriving DecidableEq

/-- `_worker_socket`. -/
def workerSocket : List WorkerEffect := [.connect, .send [pppReady]]

/-- What the draws make of a request. -/
inductive Fate
  | crash
  | overload
  | reply
  deriving DecidableEq

/-- The two tests on `cycles` and `randof`. The second draw is made when the
first does not decide; `none` when the draws are not those of one pass. -/
def fate (cycles : Nat) (draws : List Random) : Option Fate :=
  if 3 < cycles then
    match draws with
    | [first] => if randof 5 first = 0 then some .crash else none
    | [first, second] =>
        if randof 5 first = 0 then none
        else if randof 5 second = 0 then some .overload else some .reply
    | _ => none
  else if draws = [] then some .reply else none

/-- `break` when a sleep was interrupted, and the end of the branch otherwise. -/
def afterSleep (s : WorkerState) (interrupted : Bool) : WorkerState :=
  if interrupted then { s with pc := .stopped }
  else { s with pc := .tick, interval := intervalInit }

/-- The branch on a message of three frames. An overload does not answer. -/
def onRequest (s : WorkerState) (msg : Zmsg) (draws : List Random) (interrupted : Bool) :
    Option (WorkerState × List WorkerEffect) :=
  let s := { s with cycles := s.cycles + 1 }
  match fate s.cycles draws with
  | none => none
  | some .crash => some ({ s with pc := .stopped }, [.destroyed msg])
  | some .overload => some (afterSleep s interrupted, [.sleep 3000])
  | some .reply => some (afterSleep s interrupted, [.send msg, .sleep 1000])

/-- The branches on the number of frames. -/
def onMessage (s : WorkerState) (msg : Zmsg) (draws : List Random) (interrupted : Bool) :
    Option (WorkerState × List WorkerEffect) :=
  match msg with
  | [_, _, _] => onRequest s msg draws interrupted
  | [frame] =>
      some ({ s with
          pc := .tick
          interval := intervalInit
          liveness := if frame.startsWith 2 then heartbeatLiveness else s.liveness },
        [.destroyed msg])
  | _ => some ({ s with pc := .tick, interval := intervalInit }, [])

/-- No message waits: `--liveness`, and a new socket when it reaches zero. -/
def onSilence (s : WorkerState) : WorkerState × List WorkerEffect :=
  let liveness := (s.liveness + (2 ^ 64 - 1)) % 2 ^ 64
  if liveness = 0 then
    ({ s with
        pc := .tick
        liveness := heartbeatLiveness
        interval := if s.interval < intervalMax then s.interval * 2 % 2 ^ 64 else s.interval },
      .sleep s.interval :: .close :: workerSocket)
  else ({ s with pc := .tick, liveness := liveness }, [])

/-- The heartbeat branch. The comparison is between unsigned numbers. -/
def onTick (s : WorkerState) : List Int → Option (WorkerState × List WorkerEffect)
  | [now] => if s.heartbeatAt < toUint64 now then none else some ({ s with pc := .poll }, [])
  | [now, later] =>
      if s.heartbeatAt < toUint64 now then
        some ({ s with pc := .poll, heartbeatAt := toUint64 (later + heartbeatInterval) },
          [.send [pppHeartbeat]])
      else none
  | _ => none

/-- One step of `main`. -/
def workerStep (s : WorkerState) (e : WorkerEvent) :
    Option (WorkerState × List WorkerEffect) :=
  match s.pc, e with
  | .setup, .setup now =>
      some ({ s with pc := .poll, heartbeatAt := toUint64 (now + heartbeatInterval) },
        workerSocket)
  | .poll, .poll none => some ({ s with pc := .stopped }, [])
  | .poll, .poll (some true) => some ({ s with pc := .recv }, [])
  | .poll, .poll (some false) => some (onSilence s)
  | .recv, .recv none _ _ => some ({ s with pc := .stopped }, [])
  | .recv, .recv (some msg) draws interrupted => onMessage s msg draws interrupted
  | .tick, .tick readings => onTick s readings
  | _, _ => none

/-- The worker before it has made its socket. -/
def workerInit : WorkerState where
  pc := .setup
  liveness := heartbeatLiveness
  interval := intervalInit
  heartbeatAt := 0
  cycles := 0

/-- The worker of the Paranoid Pirate protocol. -/
def worker : Machine WorkerState WorkerEvent WorkerEffect where
  init := workerInit
  step := workerStep

/-- The steps of the worker, one case for each way through the loop. -/
inductive WorkerMoves (s : WorkerState) :
    WorkerEvent → WorkerState → List WorkerEffect → Prop
  | setup (now : Int) (pc : s.pc = .setup) :
      WorkerMoves s (.setup now)
        { s with pc := .poll, heartbeatAt := toUint64 (now + heartbeatInterval) } workerSocket
  | pollError (pc : s.pc = .poll) : WorkerMoves s (.poll none) { s with pc := .stopped } []
  | polled (pc : s.pc = .poll) : WorkerMoves s (.poll (some true)) { s with pc := .recv } []
  | silence (liveness : Nat) (pc : s.pc = .poll)
      (left : (s.liveness + (2 ^ 64 - 1)) % 2 ^ 64 = liveness) (alive : liveness ≠ 0) :
      WorkerMoves s (.poll (some false)) { s with pc := .tick, liveness := liveness } []
  | reconnect (pc : s.pc = .poll) (dead : (s.liveness + (2 ^ 64 - 1)) % 2 ^ 64 = 0) :
      WorkerMoves s (.poll (some false))
        { s with
          pc := .tick
          liveness := heartbeatLiveness
          interval := if s.interval < intervalMax then s.interval * 2 % 2 ^ 64 else s.interval }
        (.sleep s.interval :: .close :: workerSocket)
  | recvError (draws : List Random) (interrupted : Bool) (pc : s.pc = .recv) :
      WorkerMoves s (.recv none draws interrupted) { s with pc := .stopped } []
  | crash (a b c : Frame) (draws : List Random) (interrupted : Bool) (pc : s.pc = .recv)
      (drawn : fate (s.cycles + 1) draws = some .crash) :
      WorkerMoves s (.recv (some [a, b, c]) draws interrupted)
        { s with pc := .stopped, cycles := s.cycles + 1 } [.destroyed [a, b, c]]
  | overload (a b c : Frame) (draws : List Random) (interrupted : Bool) (pc : s.pc = .recv)
      (drawn : fate (s.cycles + 1) draws = some .overload) :
      WorkerMoves s (.recv (some [a, b, c]) draws interrupted)
        (afterSleep { s with cycles := s.cycles + 1 } interrupted) [.sleep 3000]
  | reply (a b c : Frame) (draws : List Random) (interrupted : Bool) (pc : s.pc = .recv)
      (drawn : fate (s.cycles + 1) draws = some .reply) :
      WorkerMoves s (.recv (some [a, b, c]) draws interrupted)
        (afterSleep { s with cycles := s.cycles + 1 } interrupted)
        [.send [a, b, c], .sleep 1000]
  | control (frame : Frame) (draws : List Random) (interrupted : Bool) (pc : s.pc = .recv) :
      WorkerMoves s (.recv (some [frame]) draws interrupted)
        { s with
          pc := .tick
          interval := intervalInit
          liveness := if frame.startsWith 2 then heartbeatLiveness else s.liveness }
        [.destroyed [frame]]
  | invalid (msg : Zmsg) (draws : List Random) (interrupted : Bool) (pc : s.pc = .recv)
      (request : msg.length ≠ 3) (single : msg.length ≠ 1) :
      WorkerMoves s (.recv (some msg) draws interrupted)
        { s with pc := .tick, interval := intervalInit } []
  | quiet (now : Int) (pc : s.pc = .tick) :
      WorkerMoves s (.tick [now]) { s with pc := .poll } []
  | beat (now later : Int) (pc : s.pc = .tick) :
      WorkerMoves s (.tick [now, later])
        { s with pc := .poll, heartbeatAt := toUint64 (later + heartbeatInterval) }
        [.send [pppHeartbeat]]

theorem workerMoves_of_onRequest {s t : WorkerState} {out : List WorkerEffect}
    {a b c : Frame} {draws : List Random} {interrupted : Bool} (pc : s.pc = .recv)
    (h : onRequest s [a, b, c] draws interrupted = some (t, out)) :
    WorkerMoves s (.recv (some [a, b, c]) draws interrupted) t out := by
  unfold onRequest at h
  cases hfate : fate (s.cycles + 1) draws with
  | none => simp [hfate] at h
  | some outcome =>
      cases outcome <;> simp only [hfate, Option.some.injEq, Prod.mk.injEq] at h <;>
        obtain ⟨rfl, rfl⟩ := h
      · exact .crash a b c draws interrupted pc hfate
      · exact .overload a b c draws interrupted pc hfate
      · exact .reply a b c draws interrupted pc hfate

theorem workerMoves_of_onMessage {s t : WorkerState} {out : List WorkerEffect} {msg : Zmsg}
    {draws : List Random} {interrupted : Bool} (pc : s.pc = .recv)
    (h : onMessage s msg draws interrupted = some (t, out)) :
    WorkerMoves s (.recv (some msg) draws interrupted) t out := by
  unfold onMessage at h
  split at h
  case h_1 => exact workerMoves_of_onRequest pc h
  case h_2 frame =>
    simp only [Option.some.injEq, Prod.mk.injEq] at h
    obtain ⟨rfl, rfl⟩ := h
    exact .control frame draws interrupted pc
  case h_3 request single =>
    simp only [Option.some.injEq, Prod.mk.injEq] at h
    obtain ⟨rfl, rfl⟩ := h
    apply WorkerMoves.invalid msg draws interrupted pc
    · intro hlen
      obtain ⟨a, b, c, hmsg⟩ := List.length_eq_three.mp hlen
      exact request a b c hmsg
    · intro hlen
      obtain ⟨frame, hmsg⟩ := List.length_eq_one_iff.mp hlen
      exact single frame hmsg

theorem workerMoves_of_onSilence {s t : WorkerState} {out : List WorkerEffect}
    (pc : s.pc = .poll) (h : onSilence s = (t, out)) :
    WorkerMoves s (.poll (some false)) t out := by
  simp only [onSilence] at h
  split at h
  case isTrue dead =>
    simp only [Prod.mk.injEq] at h
    obtain ⟨rfl, rfl⟩ := h
    exact .reconnect pc dead
  case isFalse alive =>
    simp only [Prod.mk.injEq] at h
    obtain ⟨rfl, rfl⟩ := h
    exact .silence _ pc rfl alive

theorem workerMoves_of_onTick {s t : WorkerState} {out : List WorkerEffect}
    {readings : List Int} (pc : s.pc = .tick) (h : onTick s readings = some (t, out)) :
    WorkerMoves s (.tick readings) t out := by
  unfold onTick at h
  split at h
  · split at h
    · cases h
    · simp only [Option.some.injEq, Prod.mk.injEq] at h
      obtain ⟨rfl, rfl⟩ := h
      exact .quiet _ pc
  · split at h
    · simp only [Option.some.injEq, Prod.mk.injEq] at h
      obtain ⟨rfl, rfl⟩ := h
      exact .beat _ _ pc
    · cases h
  · cases h

/-- Every step of the worker is one of the listed ways through its loop. -/
theorem workerMoves_of_step {s t : WorkerState} {e : WorkerEvent} {out : List WorkerEffect}
    (h : worker.step s e = some (t, out)) : WorkerMoves s e t out := by
  change workerStep s e = some (t, out) at h
  unfold workerStep at h
  split at h <;> rename_i pc
  case h_4 => exact workerMoves_of_onSilence pc (Option.some.inj h)
  case h_6 => exact workerMoves_of_onMessage pc h
  case h_7 => exact workerMoves_of_onTick pc h
  case h_8 => cases h
  all_goals
    simp only [Option.some.injEq, Prod.mk.injEq] at h
    obtain ⟨rfl, rfl⟩ := h
  · exact .setup _ pc
  · exact .pollError pc
  · exact .polled pc
  · exact .recvError _ _ pc

/-- A worker that has stopped takes no step. -/
theorem running_of_step {s t : WorkerState} {e : WorkerEvent} {out : List WorkerEffect}
    (taken : worker.step s e = some (t, out)) : s.pc ≠ .stopped := by
  intro stopped
  simp [worker, workerStep, stopped] at taken

end ZmqTest.Ppq
