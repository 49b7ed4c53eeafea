/-
# The Paranoid Pirate system

One queue, any number of workers and any number of request clients, with the
messages between them. The queue and the workers take the steps of their own
programs. A worker is named by the identity its connection has at the queue; a
new socket gets an identity no connection has, and what is sent to an identity
without a connection is dropped. Clients connect a request socket, which puts a
delimiter in front of what it sends and takes it off what it receives, and which
sends again only when it has an answer.

Every party may step at any time and any message may be lost, so every
interleaving is a run, with crashes and broken connections among them.
-/

import Mathlib.Logic.Function.Basic
import ZmqTest.Lib.Network
import ZmqTest.Ppq.Worker

namespace ZmqTest.Ppq

/-- Where a message can be: in one of the channels of a connection, or read by
a worker that has not handled it yet. -/
inductive Loc
  | clientToQueue (client : Frame)
  | queueToWorker (identity : Frame)
  | processing (identity : Frame)
  | workerToQueue (identity : Frame)
  | queueToClient (client : Frame)
  deriving DecidableEq

/-- The state of a request socket. -/
inductive ClientState
  | idle
  | waiting (body : Zmsg)
  deriving DecidableEq

structure SystemState where
  queue : QueueState
  /-- The running workers, by the identities of their connections. -/
  worker : Frame → Option WorkerState
  /-- The identities the backend socket has a connection for. -/
  routable : Frame → Bool
  client : Frame → Option ClientState
  net : Network Loc Zmsg

inductive SystemEvent
  | clientConnect (client : Frame)
  | clientSend (client : Frame) (body : Zmsg)
  | clientRecv (client : Frame)
  | /-- A step of the queue that receives nothing. -/
    queue (e : QueueEvent)
  | queueBackend (identity : Frame) (now : Int)
  | queueFrontend (client : Frame)
  | workerStart (fresh : Frame) (now : Int)
  | /-- A step of a worker that receives nothing; `fresh` is the identity of a
    socket it makes. -/
    worker (identity : Frame) (e : WorkerEvent) (fresh : Frame)
  | workerTakes (identity : Frame)
  | workerHandles (identity : Frame) (draws : List Random) (interrupted : Bool)
  | workerKilled (identity : Frame)
  | /-- The queue's end of a closed connection goes away. -/
    disconnect (identity : Frame)
  | lose (index : Nat)
  deriving DecidableEq

inductive SystemOutput
  | request (client : Frame) (body : Zmsg)
  | reply (client : Frame) (body : Zmsg)
  | queue (effect : QueueEffect)
  | worker (identity : Frame) (effect : WorkerEffect)
  deriving DecidableEq

/-- What a router socket makes of a message: the first frame names the peer. -/
def SystemState.route (s : SystemState) : QueueEffect → Option (Loc × Zmsg)
  | .toBackend (identity :: msg) =>
      if s.routable identity then some (.queueToWorker identity, msg) else none
  | .toFrontend (client :: msg) =>
      if (s.client client).isSome then some (.queueToClient client, msg) else none
  | _ => none

/-- The system after a step of the queue that left `net` of the messages. -/
def SystemState.afterQueue (s : SystemState) (net : Network Loc Zmsg) (queue : QueueState)
    (out : List QueueEffect) : SystemState :=
  { s with queue := queue, net := net ++ out.filterMap s.route }

/-- The queue takes a step with `net` left of the messages. -/
def SystemState.stepQueue (s : SystemState) (net : Network Loc Zmsg) (e : QueueEvent) :
    Option (SystemState × List SystemOutput) :=
  match queueStep s.queue e with
  | none => none
  | some (queue, out) => some (s.afterQueue net queue out, out.map .queue)

/-- Does the event take a message from a socket? -/
def QueueEvent.receives : QueueEvent → Bool
  | .recvBackend (some _) _ => true
  | .recvFrontend (some _) => true
  | _ => false

/-- What a step of a worker sends. -/
def sends (out : List WorkerEffect) : List Zmsg :=
  out.filterMap fun
    | .send msg => some msg
    | _ => none

/-- The identity under which a worker is known after a step. -/
def placed (identity fresh : Frame) (out : List WorkerEffect) : Frame :=
  if .connect ∈ out then fresh else identity

/-- The system after a step of a worker that left `net` of the messages. The
sockets of a process go with it. -/
def SystemState.afterWorker (s : SystemState) (net : Network Loc Zmsg)
    (identity fresh : Frame) (worker : WorkerState) (out : List WorkerEffect) : SystemState :=
  { s with
    worker := Function.update (Function.update s.worker identity none) (placed identity fresh out)
      (if worker.pc = .stopped then none else some worker)
    routable := if .connect ∈ out then Function.update s.routable fresh true else s.routable
    net := net ++ (sends out).map fun msg => (.workerToQueue (placed identity fresh out), msg) }

/-- A worker takes a step with `net` left of the messages. -/
def SystemState.stepWorker (s : SystemState) (net : Network Loc Zmsg)
    (identity fresh : Frame) (worker : WorkerState) (e : WorkerEvent) :
    Option (SystemState × List SystemOutput) :=
  match workerStep worker e with
  | none => none
  | some (next, out) =>
      if .connect ∈ out ∧ (fresh = [] ∨ s.routable fresh) then none
      else
        some (s.afterWorker net identity fresh next out,
          out.map (.worker (placed identity fresh out)))

/-- Does the event take a message from the socket? -/
def WorkerEvent.receives : WorkerEvent → Bool
  | .recv (some _) _ _ => true
  | _ => false

/-! ## The steps of the system -/

/-- A request socket sends when it is not waiting for an answer. -/
def SystemState.clientSend (s : SystemState) (client : Frame) (body : Zmsg) :
    Option (SystemState × List SystemOutput) :=
  if s.client client = some .idle ∧ body ≠ [] then
    some ({ s with
        client := Function.update s.client client (some (.waiting body))
        net := s.net.send (.clientToQueue client) ([] :: body) },
      [.request client body])
  else none

/-- A request socket that waits drops what has no delimiter. -/
def SystemState.clientRecv (s : SystemState) (client : Frame) :
    Option (SystemState × List SystemOutput) :=
  match s.client client, s.net.recv (.queueToClient client) with
  | some (.waiting _), some ([] :: body, net) =>
      some ({ s with client := Function.update s.client client (some .idle), net := net },
        [.reply client body])
  | some (.waiting _), some (_, net) => some ({ s with net := net }, [])
  | _, _ => none

/-- A worker reads the next message, one at a time. -/
def SystemState.workerTakes (s : SystemState) (identity : Frame) :
    Option (SystemState × List SystemOutput) :=
  match s.worker identity, s.net.recv (.queueToWorker identity) with
  | some worker, some (msg, net) =>
      if worker.pc = .recv ∧ s.net.contents (.processing identity) = [] then
        some ({ s with net := net.send (.processing identity) msg }, [])
      else none
  | _, _ => none

/-- One step of the system. -/
def systemStep (s : SystemState) : SystemEvent → Option (SystemState × List SystemOutput)
  | .clientConnect client =>
      if client ≠ [] ∧ s.client client = none then
        some ({ s with client := Function.update s.client client (some .idle) }, [])
      else none
  | .clientSend client body => s.clientSend client body
  | .clientRecv client => s.clientRecv client
  | .queue e => if e.receives then none else s.stepQueue s.net e
  | .queueBackend identity now =>
      match s.net.recv (.workerToQueue identity) with
      | none => none
      | some (msg, net) => s.stepQueue net (.recvBackend (some (identity :: msg)) now)
  | .queueFrontend client =>
      match s.net.recv (.clientToQueue client) with
      | none => none
      | some (msg, net) => s.stepQueue net (.recvFrontend (some (client :: msg)))
  | .workerStart fresh now => s.stepWorker s.net fresh fresh workerInit (.setup now)
  | .worker identity e fresh =>
      match s.worker identity with
      | none => none
      | some worker =>
          if e.receives then none else s.stepWorker s.net identity fresh worker e
  | .workerTakes identity => s.workerTakes identity
  | .workerHandles identity draws interrupted =>
      match s.worker identity, s.net.recv (.processing identity) with
      | some worker, some (msg, net) =>
          s.stepWorker net identity identity worker (.recv (some msg) draws interrupted)
      | _, _ => none
  | .workerKilled identity =>
      if (s.worker identity).isSome then
        some ({ s with worker := Function.update s.worker identity none }, [])
      else none
  | .disconnect identity =>
      if s.worker identity = none then
        some ({ s with routable := Function.update s.routable identity false }, [])
      else none
  | .lose index => some ({ s with net := s.net.eraseIdx index }, [])

/-- Nobody has connected yet. -/
def systemInit : SystemState where
  queue := queueInit
  worker := fun _ => none
  routable := fun _ => false
  client := fun _ => none
  net := []

/-- The Paranoid Pirate system. -/
def system : Machine SystemState SystemEvent SystemOutput where
  init := systemInit
  step := systemStep

/-- The steps of the system, one case for each kind of event. -/
inductive SystemMoves (s : SystemState) :
    SystemEvent → SystemState → List SystemOutput → Prop
  | connect (client : Frame) (named : client ≠ []) (absent : s.client client = none) :
      SystemMoves s (.clientConnect client)
        { s with client := Function.update s.client client (some .idle) } []
  | request (client : Frame) (body : Zmsg) (idle : s.client client = some .idle)
      (content : body ≠ []) :
      SystemMoves s (.clientSend client body)
        { s with
          client := Function.update s.client client (some (.waiting body))
          net := s.net.send (.clientToQueue client) ([] :: body) }
        [.request client body]
  | reply (client : Frame) (pending body : Zmsg) (net : Network Loc Zmsg)
      (waits : s.client client = some (.waiting pending))
      (read : s.net.recv (.queueToClient client) = some ([] :: body, net)) :
      SystemMoves s (.clientRecv client)
        { s with client := Function.update s.client client (some .idle), net := net }
        [.reply client body]
  | malformed (client : Frame) (pending msg : Zmsg) (net : Network Loc Zmsg)
      (waits : s.client client = some (.waiting pending))
      (read : s.net.recv (.queueToClient client) = some (msg, net))
      (delimiter : ∀ body, msg ≠ [] :: body) :
      SystemMoves s (.clientRecv client) { s with net := net } []
  | queue (e : QueueEvent) (queue : QueueState) (out : List QueueEffect)
      (receives : e.receives = false) (taken : queueStep s.queue e = some (queue, out)) :
      SystemMoves s (.queue e) (s.afterQueue s.net queue out) (out.map .queue)
  | queueBackend (identity : Frame) (now : Int) (msg : Zmsg) (net : Network Loc Zmsg)
      (queue : QueueState) (out : List QueueEffect)
      (read : s.net.recv (.workerToQueue identity) = some (msg, net))
      (taken : queueStep s.queue (.recvBackend (some (identity :: msg)) now) = some (queue, out)) :
      SystemMoves s (.queueBackend identity now) (s.afterQueue net queue out) (out.map .queue)
  | queueFrontend (client : Frame) (msg : Zmsg) (net : Network Loc Zmsg)
      (queue : QueueState) (out : List QueueEffect)
      (read : s.net.recv (.clientToQueue client) = some (msg, net))
      (taken : queueStep s.queue (.recvFrontend (some (client :: msg))) = some (queue, out)) :
      SystemMoves s (.queueFrontend client) (s.afterQueue net queue out) (out.map .queue)
  | workerStart (fresh : Frame) (now : Int) (worker : WorkerState) (out : List WorkerEffect)
      (taken : workerStep workerInit (.setup now) = some (worker, out)) :
      SystemMoves s (.workerStart fresh now) (s.afterWorker s.net fresh fresh worker out)
        (out.map (.worker (placed fresh fresh out)))
  | worker (identity fresh : Frame) (e : WorkerEvent) (before worker : WorkerState)
      (out : List WorkerEffect) (runs : s.worker identity = some before)
      (receives : e.receives = false) (taken : workerStep before e = some (worker, out)) :
      SystemMoves s (.worker identity e fresh) (s.afterWorker s.net identity fresh worker out)
        (out.map (.worker (placed identity fresh out)))
  | takes (identity : Frame) (msg : Zmsg) (net : Network Loc Zmsg)
      (read : s.net.recv (.queueToWorker identity) = some (msg, net)) :
      SystemMoves s (.workerTakes identity) { s with net := net.send (.processing identity) msg }
        []
  | handles (identity : Frame) (draws : List Random) (interrupted : Bool) (msg : Zmsg)
      (net : Network Loc Zmsg) (before worker : WorkerState) (out : List WorkerEffect)
      (runs : s.worker identity = some before)
      (read : s.net.recv (.processing identity) = some (msg, net))
      (taken : workerStep before (.recv (some msg) draws interrupted) = some (worker, out)) :
      SystemMoves s (.workerHandles identity draws interrupted)
        (s.afterWorker net identity identity worker out)
        (out.map (.worker (placed identity identity out)))
  | killed (identity : Frame) :
      SystemMoves s (.workerKilled identity)
        { s with worker := Function.update s.worker identity none } []
  | disconnect (identity : Frame) (gone : s.worker identity = none) :
      SystemMoves s (.disconnect identity)
        { s with routable := Function.update s.routable identity false } []
  | lose (index : Nat) : SystemMoves s (.lose index) { s with net := s.net.eraseIdx index } []

theorem queueStep_of_stepQueue {s t : SystemState} {net : Network Loc Zmsg} {e : QueueEvent}
    {out : List SystemOutput} (h : s.stepQueue net e = some (t, out)) :
    ∃ next effects, queueStep s.queue e = some (next, effects) ∧ t = s.afterQueue net next effects ∧
      out = effects.map .queue := by
  unfold SystemState.stepQueue at h
  cases hstep : queueStep s.queue e with
  | none => simp [hstep] at h
  | some r =>
      obtain ⟨next, effects⟩ := r
      simp only [hstep, Option.some.injEq, Prod.mk.injEq] at h
      exact ⟨next, effects, rfl, h.1.symm, h.2.symm⟩

theorem workerStep_of_stepWorker {s t : SystemState} {net : Network Loc Zmsg}
    {identity fresh : Frame} {before : WorkerState} {e : WorkerEvent} {out : List SystemOutput}
    (h : s.stepWorker net identity fresh before e = some (t, out)) :
    ∃ next effects, workerStep before e = some (next, effects) ∧
      t = s.afterWorker net identity fresh next effects ∧
      out = effects.map (.worker (placed identity fresh effects)) := by
  unfold SystemState.stepWorker at h
  cases hstep : workerStep before e with
  | none => simp [hstep] at h
  | some r =>
      obtain ⟨next, effects⟩ := r
      simp only [hstep] at h
      split at h
      case isTrue _ => cases h
      case isFalse _ =>
        simp only [Option.some.injEq, Prod.mk.injEq] at h
        exact ⟨next, effects, rfl, h.1.symm, h.2.symm⟩

theorem systemMoves_of_clientRecv {s t : SystemState} {client : Frame}
    {out : List SystemOutput} (h : s.clientRecv client = some (t, out)) :
    SystemMoves s (.clientRecv client) t out := by
  unfold SystemState.clientRecv at h
  split at h
  case h_1 pending body net waits read =>
    simp only [Option.some.injEq, Prod.mk.injEq] at h
    obtain ⟨rfl, rfl⟩ := h
    exact .reply client pending body net waits read
  case h_2 pending msg net delimiter waits read =>
    simp only [Option.some.injEq, Prod.mk.injEq] at h
    obtain ⟨rfl, rfl⟩ := h
    apply SystemMoves.malformed client pending msg net waits read
    exact delimiter
  case h_3 => cases h

theorem systemMoves_of_workerTakes {s t : SystemState} {identity : Frame}
    {out : List SystemOutput} (h : s.workerTakes identity = some (t, out)) :
    SystemMoves s (.workerTakes identity) t out := by
  unfold SystemState.workerTakes at h
  split at h
  case h_1 worker msg net runs read =>
    split at h
    case isTrue _ =>
      simp only [Option.some.injEq, Prod.mk.injEq] at h
      obtain ⟨rfl, rfl⟩ := h
      exact .takes identity msg net read
    case isFalse _ => cases h
  case h_2 => cases h

/-- Every step of the system is one of the listed ones. -/
theorem systemMoves_of_step {s t : SystemState} {e : SystemEvent} {out : List SystemOutput}
    (h : system.step s e = some (t, out)) : SystemMoves s e t out := by
  change systemStep s e = some (t, out) at h
  cases e with
  | clientConnect client =>
      simp only [systemStep, Option.ite_none_right_eq_some, Option.some.injEq,
        Prod.mk.injEq] at h
      obtain ⟨⟨named, absent⟩, rfl, rfl⟩ := h
      exact .connect client named absent
  | clientSend client body =>
      simp only [systemStep, SystemState.clientSend, Option.ite_none_right_eq_some,
        Option.some.injEq, Prod.mk.injEq] at h
      obtain ⟨⟨idle, content⟩, rfl, rfl⟩ := h
      exact .request client body idle content
  | clientRecv client => exact systemMoves_of_clientRecv h
  | queue e =>
      simp only [systemStep, Option.ite_none_left_eq_some, Bool.not_eq_true] at h
      obtain ⟨receives, h⟩ := h
      obtain ⟨next, effects, taken, rfl, rfl⟩ := queueStep_of_stepQueue h
      exact .queue e next effects receives taken
  | queueBackend identity now =>
      simp only [systemStep] at h
      split at h
      case h_1 => cases h
      case h_2 msg net read =>
        obtain ⟨next, effects, taken, rfl, rfl⟩ := queueStep_of_stepQueue h
        exact .queueBackend identity now msg net next effects read taken
  | queueFrontend client =>
      simp only [systemStep] at h
      split at h
      case h_1 => cases h
      case h_2 msg net read =>
        obtain ⟨next, effects, taken, rfl, rfl⟩ := queueStep_of_stepQueue h
        exact .queueFrontend client msg net next effects read taken
  | workerStart fresh now =>
      simp only [systemStep] at h
      obtain ⟨next, effects, taken, rfl, rfl⟩ := workerStep_of_stepWorker h
      exact .workerStart fresh now next effects taken
  | worker identity e fresh =>
      simp only [systemStep] at h
      split at h
      case h_1 => cases h
      case h_2 before runs =>
        simp only [Option.ite_none_left_eq_some, Bool.not_eq_true] at h
        obtain ⟨receives, h⟩ := h
        obtain ⟨next, effects, taken, rfl, rfl⟩ := workerStep_of_stepWorker h
        exact .worker identity fresh e before next effects runs receives taken
  | workerTakes identity => exact systemMoves_of_workerTakes h
  | workerHandles identity draws interrupted =>
      simp only [systemStep] at h
      split at h
      case h_1 before msg net runs read =>
        obtain ⟨next, effects, taken, rfl, rfl⟩ := workerStep_of_stepWorker h
        exact .handles identity draws interrupted msg net before next effects runs read taken
      case h_2 => cases h
  | workerKilled identity =>
      simp only [systemStep, Option.ite_none_right_eq_some, Option.some.injEq,
        Prod.mk.injEq] at h
      obtain ⟨_, rfl, rfl⟩ := h
      exact .killed identity
  | disconnect identity =>
      simp only [systemStep, Option.ite_none_right_eq_some, Option.some.injEq,
        Prod.mk.injEq] at h
      obtain ⟨gone, rfl, rfl⟩ := h
      exact .disconnect identity gone
  | lose index =>
      simp only [systemStep, Option.some.injEq, Prod.mk.injEq] at h
      obtain ⟨rfl, rfl⟩ := h
      exact .lose index

/-- The queue of the system runs as the queue does alone. -/
theorem queue_run_of_system_run {es : List SystemEvent} {os : List SystemOutput}
    {s : SystemState} (run : system.Run es os s) :
    ∃ qes qos, queue.Run qes qos s.queue := by
  apply run.project SystemState.queue rfl
  intro s e t out moved
  cases systemMoves_of_step moved with
  | queue e next effects receives taken => exact Or.inr ⟨e, effects, taken⟩
  | queueBackend identity now msg net next effects read taken =>
      exact Or.inr ⟨_, effects, taken⟩
  | queueFrontend client msg net next effects read taken => exact Or.inr ⟨_, effects, taken⟩
  | _ => exact Or.inl rfl

end ZmqTest.Ppq
