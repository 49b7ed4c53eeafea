/-
# The client and worker threads of the cloud broker

The threads of `lcflow.c` send first, a client its request and a worker its READY,
and do not look at the result. Their sockets are reply sockets, which receive first:
the first send of each thread is refused. No READY ever reaches the broker, so that it
knows no worker and reads no request.
-/

import Mathlib.Logic.Function.Basic
import ZmqTest.Cloud.Lcflow
import ZmqTest.Lib.Lockstep

namespace ZmqTest.Cloud

open Lockstep

/-- What a client sends. -/
def helloText : Zmsg := [[72, 69, 76, 76, 79]]

/-- What a worker makes of a request. -/
def okReply (msg : Zmsg) : Zmsg := msg.resetLast [79, 75]

/-- `_client_task`: it opens a `ZMQ_REP` socket, sends, and after each reply sends
again. -/
def clientTask : Machine (CallerState Zmsg) (CallerEvent Zmsg) (CallerOutput Zmsg) :=
  caller .rep helloText fun _ => helloText

/-- `_worker_task`: it opens a `ZMQ_REP` socket, sends its READY, and answers what it
receives. -/
def workerTask : Machine (CallerState Zmsg) (CallerEvent Zmsg) (CallerOutput Zmsg) :=
  caller .rep [workerReady] okReply

/-- An answer is not a READY. -/
theorem okReply_ne_ready (msg : Zmsg) : okReply msg ≠ [workerReady] := by
  intro h
  have hlast := congrArg List.getLast? h
  rw [okReply, Zmsg.resetLast, List.getLast?_concat] at hlast
  exact absurd hlast (by decide)

/-- The threads are out of step with their sockets: in every run of a client and of a
worker a send is refused as soon as the thread has made a call. A client transmits
only after it has received something, and a READY is never transmitted. -/
theorem in_step_iff_idle {es fs : List (CallerEvent Zmsg)} {os ps : List (CallerOutput Zmsg)}
    {s t : CallerState Zmsg} (client : clientTask.Run es os s)
    (worker : workerTask.Run fs ps t) :
    ((∀ msg, .refused msg ∉ os) ↔ es = []) ∧
    ((∀ msg, .refused msg ∉ ps) ↔ fs = []) ∧
    (∀ msg, .transmitted msg ∈ os → ∃ asked, .delivered asked ∈ os) ∧
    .transmitted [workerReady] ∉ ps := by
  refine ⟨⟨?_, ?_⟩, ⟨?_, ?_⟩, ?_, ?_⟩
  · intro accepted
    by_contra hne
    exact accepted _ (refused_on_rep client hne)
  · rintro rfl msg
    rw [(client.unique Machine.Run.start).2]
    exact List.not_mem_nil
  · intro accepted
    by_contra hne
    exact accepted _ (refused_on_rep worker hne)
  · rintro rfl msg
    rw [(worker.unique Machine.Run.start).2]
    exact List.not_mem_nil
  · intro msg sent
    obtain ⟨asked, hasked, -⟩ := (answering_of_run client).answers msg sent
    exact ⟨asked, hasked⟩
  · intro sent
    obtain ⟨asked, -, heq⟩ := (answering_of_run worker).answers _ sent
    exact okReply_ne_ready asked heq.symm

/-- A client and a worker that each make their first calls; the worker is sent
something and answers it. -/
theorem in_step_iff_idle_first :
    ∃ os ps s t, clientTask.Run [.send] os s ∧
      workerTask.Run [.send, .recv (some [[72]]), .send] ps t ∧
      (¬ ∀ msg, .refused msg ∉ os) ∧ (¬ ∀ msg, .refused msg ∉ ps) ∧
      .transmitted [workerReady] ∉ ps := by
  have client : clientTask.Run [.send] [.refused helloText] ⟨.receiving, .recv⟩ :=
    Machine.run_of_exec (by decide)
  have worker : workerTask.Run [.send, .recv (some [[72]]), .send]
      [.refused [workerReady], .delivered [[72]], .transmitted [[79, 75]]]
      ⟨.receiving, .recv⟩ := Machine.run_of_exec (by decide)
  obtain ⟨idle, waiting, -, never⟩ := in_step_iff_idle client worker
  exact ⟨_, _, _, _, client, worker, idle.not.mpr (by decide), waiting.not.mpr (by decide), never⟩

/-- The first call of either thread is refused. -/
theorem first_send_refused :
    ¬ ((∀ es os s, clientTask.Run es os s → ∀ msg, .refused msg ∉ os) ∧
      ∀ es os s, workerTask.Run es os s → ∀ msg, .refused msg ∉ os) := by
  rintro ⟨claim, -⟩
  have client : clientTask.Run [.send] [.refused helloText] ⟨.receiving, .recv⟩ :=
    Machine.run_of_exec (by decide)
  exact claim _ _ _ client helloText List.mem_cons_self

/-- With the request sockets that the threads of `lbbroker2.c` open, no send of either
thread would be refused. -/
theorem in_step_with_req {es fs : List (CallerEvent Zmsg)} {os ps : List (CallerOutput Zmsg)}
    {s t : CallerState Zmsg} (client : (caller .req helloText fun _ => helloText).Run es os s)
    (worker : (caller .req [workerReady] okReply).Run fs ps t) :
    (∀ msg, .refused msg ∉ os) ∧ ∀ msg, .refused msg ∉ ps :=
  ⟨(accepted_on_req client).2, (accepted_on_req worker).2⟩

/-- The broker with its worker threads, and what is on the way between them. What
comes from the clients and from the other brokers is arbitrary. -/
structure LocalState (Worker : Type) where
  broker : LcflowState
  worker : Worker → CallerState Zmsg
  /-- What waits for the broker at `localbe`. -/
  up : List Zmsg
  /-- What waits for a worker. -/
  down : Worker → List Zmsg

inductive LocalEvent (Worker : Type)
  | worker (worker : Worker) (e : CallerEvent Zmsg)
  | broker (e : LcflowEvent)

section

variable {Worker : Type} [DecidableEq Worker]

/-- `localbe` names the worker in front of what it transmits. -/
def LocalState.transmit (s : LocalState Worker) (address : Frame) :
    CallerOutput Zmsg → LocalState Worker
  | .transmitted msg => { s with up := s.up ++ [address :: msg] }
  | _ => s

/-- `localbe` sends to the worker named by the first frame. -/
def LocalState.post (s : LocalState Worker) (identity : Worker → Frame) :
    LcflowEffect → LocalState Worker
  | .toLocalbe (address :: msg) =>
      { s with down := fun w => if identity w = address then s.down w ++ [msg] else s.down w }
  | _ => s

/-- What an event leaves on a channel: a message that is received is the oldest one. -/
def takeOldest (received : Option Zmsg) (channel : List Zmsg) : Option (List Zmsg) :=
  match received, channel with
  | none, channel => some channel
  | some _, [] => none
  | some msg, next :: rest => if msg = next then some rest else none

/-- What a call of a worker receives. -/
def receivedByWorker : CallerEvent Zmsg → Option Zmsg
  | .send => none
  | .recv msg => msg

/-- What a step of the broker receives at `localbe`. -/
def receivedAtLocalbe (s : LcflowState) : LcflowEvent → Option Zmsg
  | .recv msg _ => if s.pc = .localbe then msg else none
  | _ => none

/-- A worker makes a call; it receives only what waits for it. -/
def LocalState.stepWorker (s : LocalState Worker) (identity : Worker → Frame)
    (worker : Worker) (e : CallerEvent Zmsg) : Option (LocalState Worker) :=
  match takeOldest (receivedByWorker e) (s.down worker),
    workerTask.step (s.worker worker) e with
  | some rest, some (t, out) =>
      some (out.foldl (fun s o => s.transmit (identity worker) o)
        { s with
          worker := Function.update s.worker worker t
          down := Function.update s.down worker rest })
  | _, _ => none

/-- The broker takes a step; at `localbe` it receives only what waits there. -/
def LocalState.stepBroker (s : LocalState Worker) (argv : Argv) (identity : Worker → Frame)
    (e : LcflowEvent) : Option (LocalState Worker) :=
  match takeOldest (receivedAtLocalbe s.broker e) s.up, (lcflow argv).step s.broker e with
  | some rest, some (broker, out) =>
      some (out.foldl (fun s effect => s.post identity effect)
        { s with broker := broker, up := rest })
  | _, _ => none

/-- The broker of `lcflow.c` with its worker threads. -/
def localSystem (argv : Argv) (identity : Worker → Frame) :
    Machine (LocalState Worker) (LocalEvent Worker) Empty where
  init :=
    { broker := lcflowInit, worker := fun _ => workerTask.init, up := [], down := fun _ => [] }
  step s e :=
    match e with
    | .worker worker e => (s.stepWorker identity worker e).map (·, [])
    | .broker e => (s.stepBroker argv identity e).map (·, [])

end

/-- The broker has no worker and does not look at its frontends. -/
structure Deprived (s : LcflowState) : Prop where
  capacity : s.capacity = 0
  backends : s.pc ≠ .pollFrontends ∧ s.pc ≠ .cloudfe ∧ s.pc ≠ .localfe

/-- It may go anywhere but to its frontends. -/
theorem Deprived.move {s : LcflowState} (h : Deprived s) {pc : LcflowPc}
    (backends : pc ≠ .pollFrontends ∧ pc ≠ .cloudfe ∧ pc ≠ .localfe) :
    Deprived { s with pc := pc } ∧ ∀ sent, .toLocalbe sent ∉ ([] : List LcflowEffect) :=
  ⟨⟨h.capacity, backends⟩, by simp⟩

/-- Without a worker the inner loop is not entered. -/
theorem Deprived.routeReply {argv : Argv} {s t : LcflowState} {msg : Option Zmsg}
    {out : List LcflowEffect} (h : Deprived s) (taken : routeReply argv s msg = (t, out)) :
    Deprived t ∧ ∀ sent, .toLocalbe sent ∉ out := by
  constructor
  · unfold Cloud.routeReply at taken
    have inner : Deprived s.innerLoop :=
      ⟨h.capacity, by simp [LcflowState.innerLoop, h.capacity]⟩
    split at taken <;> cases taken
    case h_1 => exact ⟨h.capacity, by simp⟩
    case h_2 => exact inner
    case h_3 => exact inner
  · intro sent hmem
    have hsent : .toLocalbe sent ∈ (Cloud.routeReply argv s msg).2 := by
      rw [taken]
      exact hmem
    obtain ⟨other, heq | heq⟩ := routeReply_sends hsent <;> cases heq

/-- As long as nothing is read from a worker, the broker stays so and sends nothing to
a worker. -/
theorem Deprived.step {argv : Argv} {s t : LcflowState} {e : LcflowEvent}
    {out : List LcflowEffect} (h : Deprived s)
    (unheard : s.pc = .localbe → ∀ msg draws, e ≠ .recv (some msg) draws)
    (taken : (lcflow argv).step s e = some (t, out)) :
    Deprived t ∧ ∀ sent, .toLocalbe sent ∉ out := by
  change lcflowStep argv s e = some (t, out) at taken
  unfold lcflowStep at taken
  split at taken
  case h_2 localbe cloudbe pc =>
    split at taken
    case isTrue =>
      cases taken
      exact h.move (by simp)
    case isFalse =>
      split at taken
      case isTrue =>
        cases taken
        exact h.move (by simp)
      case isFalse => exact h.routeReply (Option.some.inj taken)
  case h_4 msg draws pc => exact absurd rfl (unheard pc msg draws)
  case h_6 msg draws pc =>
    have received := Option.some.inj taken
    unfold onCloudbe at received
    split at received
    case h_1 =>
      cases received
      exact h.move (by simp)
    case h_2 => exact h.routeReply received
  case h_7 pc => exact absurd pc h.backends.1
  case h_8 pc => exact absurd pc h.backends.1
  case h_9 pc => exact absurd pc h.backends.2.1
  case h_10 pc => exact absurd pc h.backends.2.1
  case h_11 pc => exact absurd pc h.backends.2.2
  case h_12 pc => exact absurd pc h.backends.2.2
  case h_13 => cases taken
  all_goals
    cases taken
    exact h.move (by simp)

/-- Nothing has been transmitted, and nothing is on the way. -/
structure Mute {Worker : Type} (s : LocalState Worker) : Prop where
  broker : Deprived s.broker
  up : s.up = []
  down : ∀ w, s.down w = []
  turn : ∀ w, (s.worker w).turn = .recv

section

variable {Worker : Type} {argv : Argv} {identity : Worker → Frame} {s t : LocalState Worker}

theorem takeOldest_nil {received : Option Zmsg} {rest : List Zmsg}
    (h : takeOldest received [] = some rest) : received = none ∧ rest = [] := by
  cases received with
  | none =>
      cases h
      exact ⟨rfl, rfl⟩
  | some msg => cases h

/-- Effects that send nothing to a worker leave the channels as they are. -/
theorem foldl_post_eq {out : List LcflowEffect} (silent : ∀ sent, .toLocalbe sent ∉ out) :
    out.foldl (fun s effect => s.post identity effect) s = s := by
  induction out generalizing s with
  | nil => rfl
  | cons effect out ih =>
      have rest : ∀ sent, .toLocalbe sent ∉ out := fun sent hmem =>
        silent sent (List.mem_cons_of_mem _ hmem)
      have same : s.post identity effect = s := by
        cases effect with
        | toLocalbe sent => exact absurd List.mem_cons_self (silent sent)
        | _ => rfl
      rw [List.foldl_cons, same]
      exact ih rest

/-- A worker that has received nothing transmits nothing. -/
theorem Mute.stepWorker [DecidableEq Worker] (h : Mute s) {worker : Worker} {e : CallerEvent Zmsg}
    (taken : s.stepWorker identity worker e = some t) : Mute t := by
  unfold LocalState.stepWorker at taken
  split at taken
  case h_2 => cases taken
  case h_1 rest next out oldest call =>
    rw [h.down] at oldest
    obtain ⟨unheard, rfl⟩ := takeOldest_nil oldest
    have down : Function.update s.down worker [] = s.down :=
      Function.update_eq_self_iff.mpr (h.down worker).symm
    have keep (pc : CallerPc Zmsg) :
        Mute { s with worker := Function.update s.worker worker ⟨pc, .recv⟩ } := by
      have turn : ∀ w, (Function.update s.worker worker ⟨pc, .recv⟩ w).turn = .recv :=
        (Function.forall_update_iff s.worker fun _ caller => caller.turn = .recv).mpr
          ⟨rfl, fun w _ => h.turn w⟩
      exact ⟨h.broker, h.up, h.down, turn⟩
    rw [down] at taken
    cases callerMoves_of_step call with
    | transmit msg pc turn =>
        rw [h.turn] at turn
        cases turn
    | refuse msg pc turn =>
        cases taken
        exact keep .receiving
    | stop pc =>
        cases taken
        rw [h.turn]
        exact keep .stopped
    | deliver msg pc turn => cases unheard

theorem Mute.stepBroker (h : Mute s) {e : LcflowEvent}
    (taken : s.stepBroker argv identity e = some t) : Mute t := by
  unfold LocalState.stepBroker at taken
  split at taken
  case h_2 => cases taken
  case h_1 rest broker out oldest step =>
    rw [h.up] at oldest
    obtain ⟨unheard, rfl⟩ := takeOldest_nil oldest
    have nothing : s.broker.pc = .localbe → ∀ msg draws, e ≠ .recv (some msg) draws := by
      rintro pc msg draws rfl
      simp [receivedAtLocalbe, pc] at unheard
    obtain ⟨deprived, silent⟩ := h.broker.step nothing step
    rw [foldl_post_eq silent] at taken
    cases taken
    exact ⟨deprived, rfl, h.down, h.turn⟩

/-- No worker is ever heard of: in every run the capacity of the broker is zero, it
knows no worker, and nothing has been transmitted to it by one. -/
theorem capacity_stays_zero [DecidableEq Worker] {es : List (LocalEvent Worker)}
    {os : List Empty}
    (run : (localSystem argv identity).Run es os s) :
    s.broker.capacity = 0 ∧ s.up = [] ∧ ∀ w, (s.worker w).turn = .recv := by
  have mute : Mute s := by
    apply run.invariant
    · exact ⟨⟨rfl, by simp [localSystem, lcflowInit]⟩, rfl, fun _ => rfl, fun _ => rfl⟩
    · intro s e t out mute taken
      cases e with
      | worker worker e =>
          obtain ⟨u, hstep, heq⟩ := Option.map_eq_some_iff.mp taken
          cases heq
          exact mute.stepWorker hstep
      | broker e =>
          obtain ⟨u, hstep, heq⟩ := Option.map_eq_some_iff.mp taken
          cases heq
          exact mute.stepBroker hstep
  exact ⟨mute.broker.capacity, mute.up, mute.turn⟩

end

end ZmqTest.Cloud
