/-
# The load balancer with its threads

The broker of `lbbroker.c`, its client threads and its worker threads, with the
messages between them. A thread is named by the identity of its socket. On the
wire a message of a request socket starts with an empty delimiter, which that
socket puts there and takes off; a router socket names the peer in front of what
it receives and takes the name off what it sends, and drops what is for nobody.
Frames are read one at a time, so a socket may have a message half read.

Threads and broker take their steps in any order, and the broker is handed the
message of any peer that has sent one. Receives do not fail here. That `main` returns
after its loop, without waiting for its threads, is not a step: the threads go on, and
what is true of every state from then on is true whenever the process ends.
-/

import Mathlib.Logic.Function.Basic
import ZmqTest.Loadbalance.Lbbroker

namespace ZmqTest.Loadbalance

/-- The threads that are started. Their identities are those `s_set_id` makes,
and no two are the same. -/
structure Peers where
  clients : List Frame
  workers : List Frame
  clients_length : clients.length = nbrClients
  workers_length : workers.length = nbrWorkers
  clients_nodup : clients.Nodup
  workers_nodup : workers.Nodup
  ids : ∀ id ∈ clients ++ workers, ∃ first second, id = sSetId first second
  /-- The bytes behind an identity in the buffer it was read into, which
  `zmq_getsockopt` leaves as they are. -/
  junk : Frame → List UInt8

/-- `000k-0000`. -/
def digitId (k : Fin 16) : Frame := [48, 48, 48, hexByte k, 45, 48, 48, 48, 48]

theorem digitId_eq (k : Fin 16) :
    digitId k = sSetId ⟨k * 32768, by have hlt := k.isLt; omega⟩ ⟨0, by decide⟩ := by
  have hfirst : ∀ k : Fin 16,
      randof 0x10000 ⟨k * 32768, by have hlt := k.isLt; omega⟩ = k := by decide
  have hsecond : randof 0x10000 ⟨0, by decide⟩ = 0 := by decide
  have hk : upperHex k = [hexByte k] := by rw [upperHex, if_pos k.isLt]
  have hzero : upperHex 0 = [48] := by
    rw [upperHex, if_pos (by decide)]
    rfl
  rw [sSetId, hfirst, hsecond, hex04, hex04, hk, hzero]
  rfl

/-- Threads whose first draws are multiples of 32768 and whose second is zero. -/
def Peers.digits : Peers where
  clients := [0, 1, 2, 3, 4, 5, 6, 7, 8, 9].map digitId
  workers := [10, 11, 12].map digitId
  clients_length := rfl
  workers_length := rfl
  clients_nodup := by decide
  workers_nodup := by decide
  ids := by
    intro id hmem
    rw [← List.map_append] at hmem
    obtain ⟨k, -, rfl⟩ := List.mem_map.mp hmem
    exact ⟨_, _, digitId_eq k⟩
  junk := fun _ => []

/-- The buffer with the identity of a thread. -/
def Peers.buffer (peers : Peers) (id : Frame) : List UInt8 := id ++ peers.junk id

/-- The request of a client. -/
def Peers.hello (peers : Peers) (client : Frame) : Frame := helloText (peers.buffer client)

/-- The announcement of a worker. -/
def Peers.ready (peers : Peers) (worker : Frame) : Frame := readyText (peers.buffer worker)

/-- The reply of a worker. -/
def Peers.ok (peers : Peers) (worker : Frame) : Frame := okText (peers.buffer worker)

/-- A worker thread with the message it is reading and the channels of its
connection. -/
structure WorkerEnd where
  task : WorkerTask
  unread : List Frame
  up : List Zmsg
  down : List Zmsg
  deriving DecidableEq

/-- A client thread with the channels of its connection. -/
structure ClientEnd where
  task : ClientTask
  up : List Zmsg
  down : List Zmsg
  deriving DecidableEq

structure SystemState where
  broker : LbbrokerState
  backendUnread : List Frame
  frontendUnread : List Frame
  worker : Frame → WorkerEnd
  client : Frame → ClientEnd

inductive SystemEvent
  | workerStart (worker : Frame)
  | workerRecv (worker : Frame)
  | clientSend (client : Frame)
  | clientRecv (client : Frame)
  | poll (rc : Option (Bool × Bool))
  | /-- The broker receives a frame; `peer` is whose message it is when a new one
    is started. -/
    recv (peer : Frame)
  deriving DecidableEq

def workerEndInit : WorkerEnd := { task := workerTaskInit, unread := [], up := [], down := [] }

def clientEndInit : ClientEnd := { task := .start, up := [], down := [] }

/-- A router socket sends to the peer named by the first frame. -/
def SystemState.post (s : SystemState) : LbbrokerEffect → SystemState
  | .toBackend (worker :: msg) =>
      if (s.worker worker).task.pc = .start then s
      else
        { s with
          worker := Function.update s.worker worker
            { s.worker worker with down := (s.worker worker).down ++ [msg] } }
  | .toFrontend (client :: msg) =>
      if (s.client client).task = .start then s
      else
        { s with
          client := Function.update s.client client
            { s.client client with down := (s.client client).down ++ [msg] } }
  | _ => s

/-- The broker takes a step. -/
def SystemState.stepBroker (s : SystemState) (e : LbbrokerEvent) :
    Option (SystemState × List LbbrokerEffect) :=
  match lbbrokerStep s.broker e with
  | none => none
  | some (broker, out) => some (out.foldl SystemState.post { s with broker := broker }, out)

/-- The socket the next call of `s_recv` reads from: the backend, or the frontend. -/
def LbbrokerPc.readsBackend : LbbrokerPc → Bool
  | .workerId _ => true
  | .backendEmpty _ => true
  | .backendClientId _ => true
  | .replyEmpty _ => true
  | .reply _ => true
  | _ => false

/-- The next frame of the backend: of the message being read, or of a new one. -/
def SystemState.recvBackend (s : SystemState) (peer : Frame) :
    Option (SystemState × List LbbrokerEffect) :=
  match s.backendUnread, (s.worker peer).up with
  | frame :: rest, _ => { s with backendUnread := rest }.stepBroker (.recv (some frame))
  | [], msg :: more =>
      { s with
        backendUnread := msg
        worker := Function.update s.worker peer { s.worker peer with up := more }
      }.stepBroker (.recv (some peer))
  | [], [] => none

/-- The next frame of the frontend. -/
def SystemState.recvFrontend (s : SystemState) (peer : Frame) :
    Option (SystemState × List LbbrokerEffect) :=
  match s.frontendUnread, (s.client peer).up with
  | frame :: rest, _ => { s with frontendUnread := rest }.stepBroker (.recv (some frame))
  | [], msg :: more =>
      { s with
        frontendUnread := msg
        client := Function.update s.client peer { s.client peer with up := more }
      }.stepBroker (.recv (some peer))
  | [], [] => none

/-- A worker thread connects and sends its READY. -/
def WorkerEnd.start (e : WorkerEnd) (peers : Peers) (worker : Frame) : Option WorkerEnd :=
  if e.task.pc = .start then
    let (task, msg) := workerTaskStart e.task (peers.buffer worker)
    some { e with task := task, up := e.up ++ [[] :: msg] }
  else none

/-- A worker thread handles a frame of the message it reads. -/
def WorkerEnd.handle (e : WorkerEnd) (peers : Peers) (worker frame : Frame) : Option WorkerEnd :=
  match workerTaskRecv e.task (peers.buffer worker) frame with
  | none => none
  | some (task, none) => some { e with task := task }
  | some (task, some msg) => some { e with task := task, up := e.up ++ [[] :: msg] }

/-- A worker thread receives the next frame: of the message being read, or of a
new one. A message without a delimiter is dropped by its socket. -/
def WorkerEnd.recv (e : WorkerEnd) (peers : Peers) (worker : Frame) : Option WorkerEnd :=
  match e.unread, e.down with
  | frame :: rest, _ => { e with unread := rest }.handle peers worker frame
  | [], ([] :: frame :: rest) :: more =>
      { e with unread := rest, down := more }.handle peers worker frame
  | [], _ :: more => some { e with down := more }
  | [], [] => none

/-- A client thread connects and sends its request. -/
def ClientEnd.send (e : ClientEnd) (peers : Peers) (client : Frame) : Option ClientEnd :=
  if e.task = .start then
    some { e with task := .waiting, up := e.up ++ [[[], peers.hello client]] }
  else none

/-- A client thread receives its reply. -/
def ClientEnd.recv (e : ClientEnd) : Option ClientEnd :=
  match e.task, e.down with
  | .waiting, ([] :: frame :: _) :: more =>
      some { e with task := .finished (received 256 frame), down := more }
  | .waiting, _ :: more => some { e with down := more }
  | _, _ => none

/-- One step of the system. The threads take theirs after the broker's last one as well. -/
def systemStep (peers : Peers) (s : SystemState) :
    SystemEvent → Option (SystemState × List LbbrokerEffect)
  | .workerStart worker =>
      if worker ∈ peers.workers then
        (s.worker worker).start peers worker |>.map fun e =>
          ({ s with worker := Function.update s.worker worker e }, [])
      else none
  | .workerRecv worker =>
      (s.worker worker).recv peers worker |>.map fun e =>
        ({ s with worker := Function.update s.worker worker e }, [])
  | .clientSend client =>
      if client ∈ peers.clients then
        (s.client client).send peers client |>.map fun e =>
          ({ s with client := Function.update s.client client e }, [])
      else none
  | .clientRecv client =>
      (s.client client).recv |>.map fun e =>
        ({ s with client := Function.update s.client client e }, [])
  | .poll rc => s.stepBroker (.poll rc)
  | .recv peer =>
      if s.broker.pc.readsBackend then s.recvBackend peer else s.recvFrontend peer

/-- The threads have not run yet. -/
def systemInit : SystemState where
  broker := lbbrokerInit
  backendUnread := []
  frontendUnread := []
  worker := fun _ => workerEndInit
  client := fun _ => clientEndInit

/-- The load balancer of `lbbroker.c` with its threads. -/
def system (peers : Peers) : Machine SystemState SystemEvent LbbrokerEffect where
  init := systemInit
  step := systemStep peers

section

variable {peers : Peers} {s t u : SystemState} {out : List LbbrokerEffect}

@[simp]
theorem SystemState.broker_post (effect : LbbrokerEffect) : (s.post effect).broker = s.broker := by
  unfold SystemState.post
  split
  · split <;> rfl
  · split <;> rfl
  · rfl

theorem SystemState.broker_foldl_post (out : List LbbrokerEffect) (s : SystemState) :
    (out.foldl SystemState.post s).broker = s.broker := by
  induction out generalizing s with
  | nil => rfl
  | cons effect out ih => rw [List.foldl_cons, ih, s.broker_post]

theorem SystemState.broker_stepBroker {broker : LbbrokerState} {e : LbbrokerEvent}
    (taken : u.stepBroker e = some (t, out)) (same : u.broker = broker) :
    ∃ e', lbbrokerStep broker e' = some (t.broker, out) := by
  simp only [SystemState.stepBroker, same] at taken
  split at taken
  case h_1 => cases taken
  case h_2 next rest hstep =>
    cases taken
    exact ⟨e, by rw [hstep, SystemState.broker_foldl_post]⟩

/-- A step of the system is one of the broker, or nothing to it. -/
theorem broker_systemStep {e : SystemEvent} (taken : (system peers).step s e = some (t, out)) :
    (t.broker = s.broker ∧ out = []) ∨ ∃ e', lbbrokerStep s.broker e' = some (t.broker, out) := by
  cases e with
  | poll rc => exact Or.inr (SystemState.broker_stepBroker taken rfl)
  | recv peer =>
      right
      simp only [system, systemStep] at taken
      split at taken
      · simp only [SystemState.recvBackend] at taken
        split at taken
        case h_3 => cases taken
        all_goals exact SystemState.broker_stepBroker taken rfl
      · simp only [SystemState.recvFrontend] at taken
        split at taken
        case h_3 => cases taken
        all_goals exact SystemState.broker_stepBroker taken rfl
  | workerStart w =>
      simp only [system, systemStep, Option.ite_none_right_eq_some, Option.map_eq_some_iff,
        Prod.mk.injEq] at taken
      obtain ⟨-, e, -, rfl, rfl⟩ := taken
      exact Or.inl ⟨rfl, rfl⟩
  | clientSend c =>
      simp only [system, systemStep, Option.ite_none_right_eq_some, Option.map_eq_some_iff,
        Prod.mk.injEq] at taken
      obtain ⟨-, e, -, rfl, rfl⟩ := taken
      exact Or.inl ⟨rfl, rfl⟩
  | _ =>
      simp only [system, systemStep, Option.map_eq_some_iff, Prod.mk.injEq] at taken
      obtain ⟨e, -, rfl, rfl⟩ := taken
      exact Or.inl ⟨rfl, rfl⟩

/-- What the system's runs do to the broker is a run of the broker. -/
theorem lbbroker_run_of_run {es : List SystemEvent} {os : List LbbrokerEffect}
    (run : (system peers).Run es os s) : ∃ es' os', lbbroker.Run es' os' s.broker := by
  apply run.project SystemState.broker rfl
  intro s e t out taken
  rcases broker_systemStep taken with ⟨same, -⟩ | ⟨e', moved⟩
  · exact Or.inl same
  · exact Or.inr ⟨e', out, moved⟩

end

end ZmqTest.Loadbalance
