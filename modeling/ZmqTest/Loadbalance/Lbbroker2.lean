/-
# The load balancer that reads whole messages

`lbbroker2.c` receives and sends multipart messages, unwraps and wraps them, and
keeps the identities of the available workers in a list. A READY is told from a
reply by the first byte of the frame behind the worker's address. Its broker and
its threads are machines like those of `lbbroker.c`, and so is the system of
them; only what is sent between them differs.
-/

import Mathlib.Logic.Function.Basic
import ZmqTest.Loadbalance.Lbbroker

namespace ZmqTest.Loadbalance2

open ZmqTest.Loadbalance (LbbrokerEffect nbrClients nbrWorkers)

/-- `WORKER_READY`. -/
def workerReady : Frame := [1]

/-- The call of `zmsg_recv` or `zmq_poll` that comes next. -/
inductive Lbbroker2Pc
  | poll
  | backend (revents1 : Bool)
  | frontend
  | stopped
  | /-- The data of a frame that is not there, or an address that is none. -/
    aborted
  deriving DecidableEq

structure Lbbroker2State where
  pc : Lbbroker2Pc
  workers : List Frame
  deriving DecidableEq

inductive Lbbroker2Event
  | poll (rc : Option (Bool × Bool))
  | /-- `zmsg_recv`; `none` when it is interrupted. -/
    recv (msg : Option Zmsg)
  deriving DecidableEq

/-- `zmq_poll` over two items when a worker is available and over one otherwise. -/
def afterPoll (workers : List Frame) (revents0 revents1 : Bool) : Lbbroker2Pc :=
  let revents1 := revents1 && !workers.isEmpty
  if revents0 then .backend revents1 else if revents1 then .frontend else .poll

/-- Where the backend branch ends. -/
def afterBackend (revents1 : Bool) : Lbbroker2Pc := if revents1 then .frontend else .poll

/-- The backend branch: the sender becomes available, and a message that is no
READY goes to its client. -/
def onBackend (s : Lbbroker2State) (revents1 : Bool) (msg : Zmsg) :
    Lbbroker2State × List LbbrokerEffect :=
  match msg.unwrap with
  | none => ({ s with pc := .aborted }, [])
  | some (identity, body) =>
      let s := { s with workers := s.workers ++ [identity] }
      match body.first with
      | none => ({ s with pc := .aborted }, [])
      | some frame =>
          ({ s with pc := afterBackend revents1 },
            if frame.startsWith 1 then [] else [.toFrontend body])

/-- The frontend branch: the request goes to the first available worker. -/
def onFrontend (s : Lbbroker2State) (msg : Zmsg) : Lbbroker2State × List LbbrokerEffect :=
  match s.workers with
  | [] => ({ s with pc := .aborted }, [])
  | worker :: workers =>
      ({ s with pc := .poll, workers := workers }, [.toBackend (msg.wrap worker)])

/-- One step of `main`. -/
def lbbroker2Step (s : Lbbroker2State) (e : Lbbroker2Event) :
    Option (Lbbroker2State × List LbbrokerEffect) :=
  match s.pc, e with
  | .poll, .poll none => some ({ s with pc := .stopped }, [])
  | .poll, .poll (some (revents0, revents1)) =>
      some ({ s with pc := afterPoll s.workers revents0 revents1 }, [])
  | .backend _, .recv none => some ({ s with pc := .stopped }, [])
  | .backend revents1, .recv (some msg) => some (onBackend s revents1 msg)
  | .frontend, .recv none => some ({ s with pc := .poll }, [])
  | .frontend, .recv (some msg) => some (onFrontend s msg)
  | _, _ => none

/-- The broker when its threads are started. -/
def lbbroker2Init : Lbbroker2State := { pc := .poll, workers := [] }

/-- The broker of `lbbroker2.c`. -/
def lbbroker2 : Machine Lbbroker2State Lbbroker2Event LbbrokerEffect where
  init := lbbroker2Init
  step := lbbroker2Step

/-- Where `worker_task` stands, with the message it has received. -/
inductive WorkerTask
  | start
  | waiting
  | working (msg : Zmsg)
  | stopped
  deriving DecidableEq

/-- Where `client_task` stands. -/
inductive ClientTask
  | start
  | waiting
  | finished
  deriving DecidableEq

/-- The request of every client. -/
def hello : Frame := [72, 69, 76, 76, 79]

/-- The last frame of every reply. -/
def ok : Frame := [79, 75]

/-- The threads that are started; no two have the same identity. -/
structure Peers where
  clients : List Frame
  workers : List Frame
  clients_length : clients.length = nbrClients
  workers_length : workers.length = nbrWorkers
  clients_nodup : clients.Nodup
  workers_nodup : workers.Nodup

/-- Threads with identities of five bytes, as a router makes them. -/
def Peers.numbered : Peers where
  clients := (List.range 10).map fun k => [0, 0, 0, 0, k.toUInt8]
  workers := (List.range 3).map fun k => [0, 0, 0, 1, k.toUInt8]
  clients_length := rfl
  workers_length := rfl
  clients_nodup := by decide
  workers_nodup := by decide

/-- A worker thread with the channels of its connection. -/
structure WorkerEnd where
  task : WorkerTask
  up : List Zmsg
  down : List Zmsg
  deriving DecidableEq

/-- A client thread with the channels of its connection. -/
structure ClientEnd where
  task : ClientTask
  up : List Zmsg
  down : List Zmsg
  deriving DecidableEq

structure SystemState where
  broker : Lbbroker2State
  worker : Frame → WorkerEnd
  client : Frame → ClientEnd

inductive SystemEvent
  | workerStart (worker : Frame)
  | workerRecv (worker : Frame)
  | workerInterrupted (worker : Frame)
  | workerReply (worker : Frame)
  | clientSend (client : Frame)
  | clientRecv (client : Frame)
  | poll (rc : Option (Bool × Bool))
  | /-- The broker receives the message of a peer. -/
    recv (peer : Frame)
  | /-- A receive of the broker is interrupted. -/
    interrupted
  deriving DecidableEq

def workerEndInit : WorkerEnd := { task := .start, up := [], down := [] }

def clientEndInit : ClientEnd := { task := .start, up := [], down := [] }

/-- A router socket sends to the peer named by the first frame. -/
def SystemState.post (s : SystemState) : LbbrokerEffect → SystemState
  | .toBackend (worker :: msg) =>
      if (s.worker worker).task = .start then s
      else
        { s with
          worker := Function.update s.worker worker
            { s.worker worker with down := (s.worker worker).down ++ [msg] } }
  | .toFrontend (client :: msg) =>
      if (s.client client).task = .start then s
      else
        { s with
          client := Function.update s.client client
            { s.client client with down := (s.client client).down ++ [msg] } }
  | _ => s

/-- The broker takes a step. -/
def SystemState.stepBroker (s : SystemState) (e : Lbbroker2Event) :
    Option (SystemState × List LbbrokerEffect) :=
  match lbbroker2Step s.broker e with
  | none => none
  | some (broker, out) => some (out.foldl SystemState.post { s with broker := broker }, out)

/-- The broker receives the next message of a peer, with the peer's identity. -/
def SystemState.recv (s : SystemState) (peer : Frame) :
    Option (SystemState × List LbbrokerEffect) :=
  match s.broker.pc with
  | .backend _ =>
      match (s.worker peer).up with
      | [] => none
      | msg :: more =>
          { s with
            worker := Function.update s.worker peer { s.worker peer with up := more }
          }.stepBroker (.recv (some (peer :: msg)))
  | .frontend =>
      match (s.client peer).up with
      | [] => none
      | msg :: more =>
          { s with
            client := Function.update s.client peer { s.client peer with up := more }
          }.stepBroker (.recv (some (peer :: msg)))
  | _ => none

/-- A worker thread connects and announces itself. -/
def WorkerEnd.start (e : WorkerEnd) : Option WorkerEnd :=
  if e.task = .start then
    some { e with task := .waiting, up := e.up ++ [[[], workerReady]] }
  else none

/-- A worker thread receives a message. One without a delimiter is dropped by
its socket. -/
def WorkerEnd.recv (e : WorkerEnd) : Option WorkerEnd :=
  match e.task, e.down with
  | .waiting, ([] :: msg) :: more => some { e with task := .working msg, down := more }
  | .waiting, _ :: more => some { e with down := more }
  | _, _ => none

/-- A worker thread whose receive is interrupted ends. -/
def WorkerEnd.interrupted (e : WorkerEnd) : Option WorkerEnd :=
  if e.task = .waiting then some { e with task := .stopped } else none

/-- A worker thread replaces the last frame and sends the message back. -/
def WorkerEnd.reply (e : WorkerEnd) : Option WorkerEnd :=
  match e.task with
  | .working msg => some { e with task := .waiting, up := e.up ++ [[] :: msg.resetLast ok] }
  | _ => none

/-- A client thread connects and sends its request. -/
def ClientEnd.send (e : ClientEnd) : Option ClientEnd :=
  if e.task = .start then
    some { e with task := .waiting, up := e.up ++ [[[], hello]] }
  else none

/-- A client thread receives its reply. -/
def ClientEnd.recv (e : ClientEnd) : Option ClientEnd :=
  match e.task, e.down with
  | .waiting, ([] :: _) :: more => some { e with task := .finished, down := more }
  | .waiting, _ :: more => some { e with down := more }
  | _, _ => none

/-- One step of the system. -/
def systemStep (peers : Peers) (s : SystemState) :
    SystemEvent → Option (SystemState × List LbbrokerEffect)
  | .workerStart worker =>
      if worker ∈ peers.workers then
        (s.worker worker).start.map fun e =>
          ({ s with worker := Function.update s.worker worker e }, [])
      else none
  | .workerRecv worker =>
      (s.worker worker).recv.map fun e =>
        ({ s with worker := Function.update s.worker worker e }, [])
  | .workerInterrupted worker =>
      (s.worker worker).interrupted.map fun e =>
        ({ s with worker := Function.update s.worker worker e }, [])
  | .workerReply worker =>
      (s.worker worker).reply.map fun e =>
        ({ s with worker := Function.update s.worker worker e }, [])
  | .clientSend client =>
      if client ∈ peers.clients then
        (s.client client).send.map fun e =>
          ({ s with client := Function.update s.client client e }, [])
      else none
  | .clientRecv client =>
      (s.client client).recv.map fun e =>
        ({ s with client := Function.update s.client client e }, [])
  | .poll rc => s.stepBroker (.poll rc)
  | .recv peer => s.recv peer
  | .interrupted => s.stepBroker (.recv none)

/-- The threads have not run yet. -/
def systemInit : SystemState where
  broker := lbbroker2Init
  worker := fun _ => workerEndInit
  client := fun _ => clientEndInit

/-- The load balancer of `lbbroker2.c` with its threads. -/
def system (peers : Peers) : Machine SystemState SystemEvent LbbrokerEffect where
  init := systemInit
  step := systemStep peers

section

variable {peers : Peers} {s t u : SystemState} {out : List LbbrokerEffect}

theorem SystemState.stepBroker_out {broker : Lbbroker2State} {e : Lbbroker2Event}
    (taken : u.stepBroker e = some (t, out)) (same : u.broker = broker) :
    ∃ e' next, lbbroker2Step broker e' = some (next, out) := by
  simp only [SystemState.stepBroker, same] at taken
  split at taken
  case h_1 => cases taken
  case h_2 next rest hstep =>
    cases taken
    exact ⟨e, next, hstep⟩

/-- What a step of the system emits is emitted by the broker. -/
theorem systemStep_out {e : SystemEvent} (taken : (system peers).step s e = some (t, out)) :
    out = [] ∨ ∃ e' next, lbbroker2Step s.broker e' = some (next, out) := by
  cases e with
  | poll rc => exact Or.inr (SystemState.stepBroker_out taken rfl)
  | interrupted => exact Or.inr (SystemState.stepBroker_out taken rfl)
  | recv peer =>
      right
      change s.recv peer = some (t, out) at taken
      simp only [SystemState.recv] at taken
      split at taken
      case h_3 => cases taken
      all_goals
        split at taken
        case h_1 => cases taken
        case h_2 => exact SystemState.stepBroker_out taken rfl
  | workerStart w =>
      simp only [system, systemStep, Option.ite_none_right_eq_some, Option.map_eq_some_iff,
        Prod.mk.injEq] at taken
      obtain ⟨-, e, -, -, rfl⟩ := taken
      exact Or.inl rfl
  | clientSend c =>
      simp only [system, systemStep, Option.ite_none_right_eq_some, Option.map_eq_some_iff,
        Prod.mk.injEq] at taken
      obtain ⟨-, e, -, -, rfl⟩ := taken
      exact Or.inl rfl
  | _ =>
      simp only [system, systemStep, Option.map_eq_some_iff, Prod.mk.injEq] at taken
      obtain ⟨e, -, -, rfl⟩ := taken
      exact Or.inl rfl

end

end ZmqTest.Loadbalance2
