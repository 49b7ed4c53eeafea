/-
# The Paranoid Pirate queue

The queue keeps the workers it may dispatch to in a list. Every backend message
registers its sender at the end of that list, a client request goes to the
worker at its front, and workers that stayed silent too long are purged. The
main loop is a machine whose program counter stands between the branches of one
iteration, so that what the sockets and the clock do in between is a separate
event. Each reading of the clock is part of the event that makes it.
-/

import Mathlib.Algebra.Ring.Int.Defs
import Mathlib.Algebra.Ring.Nat
import Mathlib.Data.List.Forall2
import ZmqTest.Lib.Machine
import ZmqTest.Lib.Multipart

namespace ZmqTest.Ppq

/-- `HEARTBEAT_LIVENESS`. -/
def heartbeatLiveness : Nat := 3

/-- `HEARTBEAT_INTERVAL`, in milliseconds. -/
def heartbeatInterval : Nat := 1000

/-- `PPP_READY`. -/
def pppReady : Frame := [1]

/-- `PPP_HEARTBEAT`. -/
def pppHeartbeat : Frame := [2]

/-- Conversion of a clock reading to `uint64_t`. -/
def toUint64 (reading : Int) : Nat := (reading % 2 ^ 64).toNat

/-- `worker_t`. The printed identity is made from the identity and never changed. -/
structure Worker where
  identity : Frame
  idString : List Char
  expiry : Int
  idString_eq : idString = zframeStrhex identity
  deriving DecidableEq

/-- `_worker_new`, with its reading of the clock. -/
def workerNew (identity : Frame) (now : Int) : Worker where
  identity := identity
  idString := zframeStrhex identity
  expiry := now + heartbeatInterval * heartbeatLiveness
  idString_eq := rfl

/-- `_worker_ready`: the first entry with the same printed identity is removed
and the loop stops there; the new entry goes to the end. -/
def workerReady (self : Worker) (workers : List Worker) : List Worker :=
  workers.eraseP (fun worker => self.idString = worker.idString) ++ [self]

/-- `_worker_next`: `none` is the failing assertion. -/
def workerNext : List Worker → Option (Frame × List Worker)
  | [] => none
  | worker :: workers => some (worker.identity, workers)

/-- `_worker_purge` with the clock readings its loop makes, one for each entry
it looks at. The result is what it destroyed and what it kept; `none` when the
readings are not those of one complete call. -/
def workerPurge : List Worker → List Int → Option (List Worker × List Worker)
  | [], [] => some ([], [])
  | [], _ :: _ => none
  | _ :: _, [] => none
  | worker :: workers, now :: readings =>
      if now < worker.expiry then
        match readings with
        | [] => some ([], worker :: workers)
        | _ :: _ => none
      else
        match workerPurge workers readings with
        | none => none
        | some (destroyed, kept) => some (worker :: destroyed, kept)

/-- A purge destroys workers from the front, each at a reading that has reached
its expiry, and stops at the first reading that has not reached the expiry of
the worker it looks at. -/
theorem workerPurge_spec {workers destroyed kept : List Worker} {readings : List Int}
    (h : workerPurge workers readings = some (destroyed, kept)) :
    workers = destroyed ++ kept ∧
    ∃ early last, readings = early ++ last ∧
      List.Forall₂ (fun (worker : Worker) now => worker.expiry ≤ now) destroyed early ∧
      (kept = [] ∧ last = [] ∨
        ∃ worker rest now, kept = worker :: rest ∧ last = [now] ∧ now < worker.expiry) := by
  induction workers generalizing readings destroyed kept with
  | nil =>
      cases readings with
      | nil =>
          simp only [workerPurge, Option.some.injEq, Prod.mk.injEq] at h
          obtain ⟨rfl, rfl⟩ := h
          exact ⟨rfl, [], [], rfl, .nil, Or.inl ⟨rfl, rfl⟩⟩
      | cons now readings => cases h
  | cons worker workers ih =>
      cases readings with
      | nil => cases h
      | cons now readings =>
          unfold workerPurge at h
          split at h
          case isTrue hlt =>
            cases readings with
            | nil =>
                simp only [Option.some.injEq, Prod.mk.injEq] at h
                obtain ⟨rfl, rfl⟩ := h
                exact ⟨rfl, [], [now], rfl, .nil, Or.inr ⟨worker, workers, now, rfl, rfl, hlt⟩⟩
            | cons other readings => cases h
          case isFalse hge =>
            cases hrest : workerPurge workers readings with
            | none => simp [hrest] at h
            | some r =>
                obtain ⟨gone, left⟩ := r
                simp only [hrest, Option.some.injEq, Prod.mk.injEq] at h
                obtain ⟨rfl, rfl⟩ := h
                obtain ⟨happend, early, last, hreadings, hexpired, hstop⟩ := ih hrest
                refine ⟨by rw [happend, List.cons_append], now :: early, last, ?_, ?_, hstop⟩
                · rw [hreadings, List.cons_append]
                · exact .cons (Int.not_lt.mp hge) hexpired

/-! ## The main loop -/

/-- Where the loop stands. The backend branch remembers `items[1].revents`. -/
inductive QueuePc
  | setup
  | poll
  | backend (revents1 : Bool)
  | frontend
  | heartbeat
  | purge
  | stopped
  | aborted
  deriving DecidableEq

structure QueueState where
  pc : QueuePc
  workers : List Worker
  heartbeatAt : Nat
  deriving DecidableEq

inductive QueueEvent
  | /-- The reading before the loop. -/
    setup (now : Int)
  | /-- `zmq_poll`: an error, or the readiness of the backend and the frontend. -/
    poll (rc : Option (Bool × Bool))
  | /-- The backend branch on the received message, with the reading of
    `_worker_new`; `none` is an interrupted receive. -/
    recvBackend (msg : Option Zmsg) (now : Int)
  | /-- The frontend branch on the received message. -/
    recvFrontend (msg : Option Zmsg)
  | /-- The heartbeat branch: one reading for the test, one more when it is taken. -/
    heartbeat (readings : List Int)
  | /-- The call of `_worker_purge`. -/
    purge (readings : List Int)
  deriving DecidableEq

/-- What a step does: calls on the list of workers and messages handed over. -/
inductive QueueEffect
  | ready (identity : Frame) (now : Int)
  | next (identity : Frame)
  | purged (identity : Frame)
  | toBackend (msg : Zmsg)
  | toFrontend (msg : Zmsg)
  | /-- `zmsg_destroy` of a message with one frame; `invalid` when it is neither
    `PPP_READY` nor `PPP_HEARTBEAT`. -/
    destroyed (msg : Zmsg) (invalid : Bool)
  deriving DecidableEq

/-- `zmq_poll` over two items when a worker is available and over one otherwise;
the item that is not polled keeps `revents` zero. -/
def afterPoll (workers : List Worker) (revents0 revents1 : Bool) : QueuePc :=
  let revents1 := revents1 && !workers.isEmpty
  if revents0 then .backend revents1 else if revents1 then .frontend else .heartbeat

/-- The test on the only frame of a control message. -/
def invalidControl (frame : Frame) : Bool := !frame.startsWith 1 && !frame.startsWith 2

/-- What becomes of a backend message once its sender is registered. -/
def forwardBackend : Zmsg → QueueEffect
  | [frame] => .destroyed [frame] (invalidControl frame)
  | msg => .toFrontend msg

/-- The heartbeats of one round, in the order of the list. -/
def heartbeats (workers : List Worker) : List QueueEffect :=
  workers.map fun worker => .toBackend [worker.identity, pppHeartbeat]

/-- The backend branch: register the sender, then forward or destroy. -/
def onBackend (s : QueueState) (revents1 : Bool) (msg : Zmsg) (now : Int) :
    Option (QueueState × List QueueEffect) :=
  match msg.unwrap with
  | none => none
  | some (identity, body) =>
      some ({ s with
          pc := if revents1 then .frontend else .heartbeat
          workers := workerReady (workerNew identity now) s.workers },
        [.ready identity now, forwardBackend body])

/-- The frontend branch: the request goes to the next worker. -/
def onFrontend (s : QueueState) (msg : Zmsg) : QueueState × List QueueEffect :=
  match workerNext s.workers with
  | none => ({ s with pc := .aborted }, [])
  | some (identity, workers) =>
      ({ s with pc := .heartbeat, workers := workers },
        [.next identity, .toBackend (msg.push identity)])

/-- The heartbeat branch. The comparison is between unsigned numbers. -/
def onHeartbeat (s : QueueState) : List Int → Option (QueueState × List QueueEffect)
  | [now] => if toUint64 now < s.heartbeatAt then some ({ s with pc := .purge }, []) else none
  | [now, later] =>
      if toUint64 now < s.heartbeatAt then none
      else
        some ({ s with pc := .purge, heartbeatAt := toUint64 (later + heartbeatInterval) },
          heartbeats s.workers)
  | _ => none

/-- The purge that ends the iteration. -/
def onPurge (s : QueueState) (readings : List Int) :
    Option (QueueState × List QueueEffect) :=
  match workerPurge s.workers readings with
  | none => none
  | some (destroyed, kept) =>
      some ({ s with pc := .poll, workers := kept },
        destroyed.map fun worker => .purged worker.identity)

/-- One step of `main`. -/
def queueStep (s : QueueState) (e : QueueEvent) : Option (QueueState × List QueueEffect) :=
  match s.pc, e with
  | .setup, .setup now =>
      some ({ s with pc := .poll, heartbeatAt := toUint64 (now + heartbeatInterval) }, [])
  | .poll, .poll none => some ({ s with pc := .stopped }, [])
  | .poll, .poll (some (revents0, revents1)) =>
      some ({ s with pc := afterPoll s.workers revents0 revents1 }, [])
  | .backend _, .recvBackend none _ => some ({ s with pc := .stopped }, [])
  | .backend revents1, .recvBackend (some msg) now => onBackend s revents1 msg now
  | .frontend, .recvFrontend none => some ({ s with pc := .stopped }, [])
  | .frontend, .recvFrontend (some msg) => some (onFrontend s msg)
  | .heartbeat, .heartbeat readings => onHeartbeat s readings
  | .purge, .purge readings => onPurge s readings
  | _, _ => none

/-- The queue before it has read the clock. -/
def queueInit : QueueState := { pc := .setup, workers := [], heartbeatAt := 0 }

/-- The queue of the Paranoid Pirate protocol. -/
def queue : Machine QueueState QueueEvent QueueEffect where
  init := queueInit
  step := queueStep

/-- The clock readings an event makes, in order. -/
def QueueEvent.readings : QueueEvent → List Int
  | .setup now => [now]
  | .poll _ => []
  | .recvBackend none _ => []
  | .recvBackend (some _) now => [now]
  | .recvFrontend _ => []
  | .heartbeat readings => readings
  | .purge readings => readings

/-- All clock readings of a run, in order. -/
def clock (es : List QueueEvent) : List Int := es.flatMap QueueEvent.readings

/-- The steps of the queue, one case for each way through the loop. -/
inductive QueueMoves (s : QueueState) :
    QueueEvent → QueueState → List QueueEffect → Prop
  | setup (now : Int) (pc : s.pc = .setup) :
      QueueMoves s (.setup now)
        { s with pc := .poll, heartbeatAt := toUint64 (now + heartbeatInterval) } []
  | pollError (pc : s.pc = .poll) : QueueMoves s (.poll none) { s with pc := .stopped } []
  | polled (revents0 revents1 : Bool) (pc : s.pc = .poll) :
      QueueMoves s (.poll (some (revents0, revents1)))
        { s with pc := afterPoll s.workers revents0 revents1 } []
  | backendError (revents1 : Bool) (now : Int) (pc : s.pc = .backend revents1) :
      QueueMoves s (.recvBackend none now) { s with pc := .stopped } []
  | backend (revents1 : Bool) (msg : Zmsg) (now : Int) (identity : Frame) (body : Zmsg)
      (pc : s.pc = .backend revents1) (unwrapped : msg.unwrap = some (identity, body)) :
      QueueMoves s (.recvBackend (some msg) now)
        { s with
          pc := if revents1 then .frontend else .heartbeat
          workers := workerReady (workerNew identity now) s.workers }
        [.ready identity now, forwardBackend body]
  | frontendError (pc : s.pc = .frontend) :
      QueueMoves s (.recvFrontend none) { s with pc := .stopped } []
  | frontend (msg : Zmsg) (worker : Worker) (rest : List Worker) (pc : s.pc = .frontend)
      (listed : s.workers = worker :: rest) :
      QueueMoves s (.recvFrontend (some msg)) { s with pc := .heartbeat, workers := rest }
        [.next worker.identity, .toBackend (worker.identity :: msg)]
  | underflow (msg : Zmsg) (pc : s.pc = .frontend) (listed : s.workers = []) :
      QueueMoves s (.recvFrontend (some msg)) { s with pc := .aborted } []
  | quiet (now : Int) (pc : s.pc = .heartbeat) :
      QueueMoves s (.heartbeat [now]) { s with pc := .purge } []
  | beat (now later : Int) (pc : s.pc = .heartbeat) :
      QueueMoves s (.heartbeat [now, later])
        { s with pc := .purge, heartbeatAt := toUint64 (later + heartbeatInterval) }
        (heartbeats s.workers)
  | purge (readings : List Int) (destroyed kept : List Worker) (pc : s.pc = .purge)
      (purged : workerPurge s.workers readings = some (destroyed, kept)) :
      QueueMoves s (.purge readings) { s with pc := .poll, workers := kept }
        (destroyed.map fun worker => .purged worker.identity)

theorem queueMoves_of_onBackend {s t : QueueState} {out : List QueueEffect} {revents1 : Bool}
    {msg : Zmsg} {now : Int} (pc : s.pc = .backend revents1)
    (h : onBackend s revents1 msg now = some (t, out)) :
    QueueMoves s (.recvBackend (some msg) now) t out := by
  unfold onBackend at h
  cases hunwrap : msg.unwrap with
  | none => simp [hunwrap] at h
  | some r =>
      obtain ⟨identity, body⟩ := r
      simp only [hunwrap, Option.some.injEq, Prod.mk.injEq] at h
      obtain ⟨rfl, rfl⟩ := h
      exact .backend revents1 msg now identity body pc hunwrap

theorem queueMoves_of_onFrontend {s t : QueueState} {out : List QueueEffect} {msg : Zmsg}
    (pc : s.pc = .frontend) (h : onFrontend s msg = (t, out)) :
    QueueMoves s (.recvFrontend (some msg)) t out := by
  unfold onFrontend at h
  cases hlist : s.workers with
  | nil =>
      simp only [hlist, workerNext, Prod.mk.injEq] at h
      obtain ⟨rfl, rfl⟩ := h
      rw [← hlist]
      exact .underflow msg pc hlist
  | cons worker rest =>
      simp only [hlist, workerNext, Prod.mk.injEq] at h
      obtain ⟨rfl, rfl⟩ := h
      exact .frontend msg worker rest pc hlist

theorem queueMoves_of_onHeartbeat {s t : QueueState} {out : List QueueEffect}
    {readings : List Int} (pc : s.pc = .heartbeat)
    (h : onHeartbeat s readings = some (t, out)) :
    QueueMoves s (.heartbeat readings) t out := by
  unfold onHeartbeat at h
  split at h
  · split at h
    · simp only [Option.some.injEq, Prod.mk.injEq] at h
      obtain ⟨rfl, rfl⟩ := h
      exact .quiet _ pc
    · cases h
  · split at h
    · cases h
    · simp only [Option.some.injEq, Prod.mk.injEq] at h
      obtain ⟨rfl, rfl⟩ := h
      exact .beat _ _ pc
  · cases h

theorem queueMoves_of_onPurge {s t : QueueState} {out : List QueueEffect}
    {readings : List Int} (pc : s.pc = .purge) (h : onPurge s readings = some (t, out)) :
    QueueMoves s (.purge readings) t out := by
  unfold onPurge at h
  cases hpurge : workerPurge s.workers readings with
  | none => simp [hpurge] at h
  | some r =>
      obtain ⟨destroyed, kept⟩ := r
      simp only [hpurge, Option.some.injEq, Prod.mk.injEq] at h
      obtain ⟨rfl, rfl⟩ := h
      exact .purge readings destroyed kept pc hpurge

/-- Every step of the queue is one of the listed ways through its loop. -/
theorem queueMoves_of_step {s t : QueueState} {e : QueueEvent} {out : List QueueEffect}
    (h : queue.step s e = some (t, out)) : QueueMoves s e t out := by
  change queueStep s e = some (t, out) at h
  unfold queueStep at h
  split at h <;> rename_i pc
  case h_5 => exact queueMoves_of_onBackend pc h
  case h_7 => exact queueMoves_of_onFrontend pc (Option.some.inj h)
  case h_8 => exact queueMoves_of_onHeartbeat pc h
  case h_9 => exact queueMoves_of_onPurge pc h
  case h_10 => cases h
  all_goals
    simp only [Option.some.injEq, Prod.mk.injEq] at h
    obtain ⟨rfl, rfl⟩ := h
  · exact .setup _ pc
  · exact .pollError pc
  · exact .polled _ _ pc
  · exact .backendError _ _ pc
  · exact .frontendError pc

end ZmqTest.Ppq
