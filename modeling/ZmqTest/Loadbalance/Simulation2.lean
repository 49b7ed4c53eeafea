/-
# The message-wise load balancer balances

The system of `lbbroker2.c` stands for the abstract balancer as the one of
`lbbroker.c` does. A message is read and passed on in one step, so that a reply
collects the worker and answers the client at once; only a client whose identity
starts with the READY byte has its reply mistaken for a READY and is left
without an answer, which changes nothing for the workers.
-/

import ZmqTest.Lib.Balancer
import ZmqTest.Loadbalance.Lbbroker2

namespace ZmqTest.Loadbalance2

open Balancer
open ZmqTest.Loadbalance (LbbrokerEffect)

/-- The worker thread waits for a message, or has ended waiting for one. -/
def WorkerEnd.Waits (e : WorkerEnd) : Prop := e.task = .waiting ∨ e.task = .stopped

/-- What a worker thread and its channels are in each place. -/
def WorkerAt (peers : Peers) (worker : Frame) (e : WorkerEnd) : Place Frame → Prop
  | .away => e = workerEndInit
  | .announcing => worker ∈ peers.workers ∧ e.Waits ∧ e.up = [[[], workerReady]] ∧ e.down = []
  | .idle => worker ∈ peers.workers ∧ e.Waits ∧ e.up = [] ∧ e.down = []
  | .assigned client =>
      worker ∈ peers.workers ∧ e.Waits ∧ e.up = [] ∧ e.down = [[[], client, [], hello]]
  | .working client =>
      worker ∈ peers.workers ∧ e.task = .working [client, [], hello] ∧ e.up = [] ∧ e.down = []
  | .replying client =>
      worker ∈ peers.workers ∧ e.Waits ∧ e.up = [[[], client, [], ok]] ∧ e.down = []

/-- What a client thread and its channels are at each standing. -/
def ClientAt (e : ClientEnd) : Standing Frame → Prop
  | .away => e = clientEndInit
  | .asking => e.task = .waiting ∧ e.up = [[[], hello]] ∧ e.down = []
  | .answered _ => e.task ≠ .start ∧ e.up = []
  | _ => e.task = .waiting ∧ e.up = [] ∧ e.down = []

/-- A state of the system stands for a state of the balancer. -/
structure Simulates (peers : Peers) (s : SystemState) (a : State Frame Frame) : Prop where
  worker : ∀ w, WorkerAt peers w (s.worker w) (a.worker w)
  client : ∀ c, ClientAt (s.client c) (a.client c)
  queue : s.broker.workers = a.ready
  gate : s.broker.pc = .backend true ∨ s.broker.pc = .frontend → s.broker.workers ≠ []
  alive : s.broker.pc ≠ .aborted

/-- A step of the system is matched by some events of the balancer. -/
def Matched (peers : Peers) (t : SystemState) (a : State Frame Frame) : Prop :=
  ∃ fs out b, Balancer.machine.exec a fs = some (b, out) ∧ Simulates peers t b

section

variable {peers : Peers} {out : List LbbrokerEffect} {s t : SystemState} {answered : List Frame}
  {a : State Frame Frame}

theorem Matched.silent (h : Simulates peers t a) : Matched peers t a :=
  ⟨[], [], a, rfl, h⟩

theorem Matched.event {e : Event Frame Frame} {b : State Frame Frame} {out : List Frame}
    (taken : Balancer.machine.step a e = some (b, out)) (h : Matched peers t b) :
    Matched peers t a := by
  obtain ⟨fs, rest, c, hexec, related⟩ := h
  exact ⟨e :: fs, out ++ rest, c,
    Machine.exec_cons_eq_some.mpr ⟨b, out, rest, taken, hexec, rfl⟩, related⟩

/-- A worker thread steps from one place to another. -/
theorem Simulates.workerMoves (h : Simulates peers s a) {w : Frame} {e : WorkerEnd}
    {place : Place Frame} (here : WorkerAt peers w e place) :
    Simulates peers { s with worker := Function.update s.worker w e }
      { a with worker := Function.update a.worker w place } :=
  ⟨related_update (WorkerAt peers) h.worker here, h.client, h.queue, h.gate, h.alive⟩

theorem Simulates.workerStays (h : Simulates peers s a) {w : Frame} {e : WorkerEnd}
    (here : WorkerAt peers w e (a.worker w)) :
    Matched peers { s with worker := Function.update s.worker w e } a := by
  apply Matched.silent
  have moved := h.workerMoves here
  rw [Function.update_eq_self] at moved
  exact moved

/-- A client thread steps from one standing to another. -/
theorem Simulates.clientMoves (h : Simulates peers s a) {c : Frame} {e : ClientEnd}
    {standing : Standing Frame} (here : ClientAt e standing) :
    Simulates peers { s with client := Function.update s.client c e }
      { a with client := Function.update a.client c standing } where
  worker := h.worker
  client := related_update (fun _ => ClientAt) h.client here
  queue := h.queue
  gate := h.gate
  alive := h.alive

/-- Only a worker that has not run yet starts. -/
theorem WorkerAt.start {w : Frame} {e next : WorkerEnd} {place : Place Frame}
    (h : WorkerAt peers w e place) (known : w ∈ peers.workers) (taken : e.start = some next) :
    place = .away ∧ WorkerAt peers w next .announcing := by
  simp only [WorkerEnd.start, Option.ite_none_right_eq_some, Option.some.injEq] at taken
  obtain ⟨hstart, rfl⟩ := taken
  cases place with
  | away =>
      obtain rfl : e = workerEndInit := h
      exact ⟨rfl, known, Or.inl rfl, rfl, rfl⟩
  | announcing => rcases h.2.1 with hwaits | hwaits <;> simp [hwaits] at hstart
  | idle => rcases h.2.1 with hwaits | hwaits <;> simp [hwaits] at hstart
  | assigned c => rcases h.2.1 with hwaits | hwaits <;> simp [hwaits] at hstart
  | working c => simp [h.2.1] at hstart
  | replying c => rcases h.2.1 with hwaits | hwaits <;> simp [hwaits] at hstart

/-- Only a worker with a request receives anything. -/
theorem WorkerAt.recv {w : Frame} {e next : WorkerEnd} {place : Place Frame}
    (h : WorkerAt peers w e place) (taken : e.recv = some next) :
    ∃ c, place = .assigned c ∧ WorkerAt peers w next (.working c) := by
  cases place with
  | away =>
      obtain rfl : e = workerEndInit := h
      cases taken
  | assigned c =>
      obtain ⟨known, hwaits | hwaits, hup, hdown⟩ := h
      · simp only [WorkerEnd.recv, hwaits, hdown, Option.some.injEq] at taken
        subst next
        exact ⟨c, rfl, known, rfl, hup, rfl⟩
      · simp [WorkerEnd.recv, hwaits] at taken
  | working c => simp [WorkerEnd.recv, h.2.1] at taken
  | announcing => simp [WorkerEnd.recv, h.2.2.2] at taken
  | idle => simp [WorkerEnd.recv, h.2.2.2] at taken
  | replying c => simp [WorkerEnd.recv, h.2.2.2] at taken

/-- A worker that ends stays where it is. -/
theorem WorkerAt.interrupted {w : Frame} {e next : WorkerEnd} {place : Place Frame}
    (h : WorkerAt peers w e place) (taken : e.interrupted = some next) :
    WorkerAt peers w next place := by
  simp only [WorkerEnd.interrupted, Option.ite_none_right_eq_some, Option.some.injEq] at taken
  obtain ⟨hwaiting, rfl⟩ := taken
  cases place with
  | away =>
      obtain rfl : e = workerEndInit := h
      cases hwaiting
  | working c => simp [h.2.1] at hwaiting
  | announcing => exact ⟨h.1, Or.inr rfl, h.2.2⟩
  | idle => exact ⟨h.1, Or.inr rfl, h.2.2⟩
  | assigned c => exact ⟨h.1, Or.inr rfl, h.2.2⟩
  | replying c => exact ⟨h.1, Or.inr rfl, h.2.2⟩

/-- Only a worker with a request replies. -/
theorem WorkerAt.reply {w : Frame} {e next : WorkerEnd} {place : Place Frame}
    (h : WorkerAt peers w e place) (taken : e.reply = some next) :
    ∃ c, place = .working c ∧ WorkerAt peers w next (.replying c) := by
  cases place with
  | working c =>
      obtain ⟨known, htask, hup, hdown⟩ := h
      simp only [WorkerEnd.reply, htask, Option.some.injEq] at taken
      subst next
      exact ⟨c, rfl, known, Or.inl rfl, by simp [hup, Zmsg.resetLast], hdown⟩
  | away =>
      obtain rfl : e = workerEndInit := h
      cases taken
  | announcing => rcases h.2.1 with hwaits | hwaits <;> simp [WorkerEnd.reply, hwaits] at taken
  | idle => rcases h.2.1 with hwaits | hwaits <;> simp [WorkerEnd.reply, hwaits] at taken
  | assigned c => rcases h.2.1 with hwaits | hwaits <;> simp [WorkerEnd.reply, hwaits] at taken
  | replying c => rcases h.2.1 with hwaits | hwaits <;> simp [WorkerEnd.reply, hwaits] at taken

theorem ClientAt.send {e next : ClientEnd} {standing : Standing Frame}
    (h : ClientAt e standing) (taken : e.send = some next) :
    standing = .away ∧ ClientAt next .asking := by
  simp only [ClientEnd.send, Option.ite_none_right_eq_some, Option.some.injEq] at taken
  obtain ⟨hstart, rfl⟩ := taken
  cases standing with
  | away =>
      obtain rfl : e = clientEndInit := h
      exact ⟨rfl, rfl, rfl, rfl⟩
  | answered w => exact absurd hstart h.1
  | _ => simp [h.1] at hstart

/-- Only a client that is answered receives anything. -/
theorem ClientAt.recv {e next : ClientEnd} {standing : Standing Frame}
    (h : ClientAt e standing) (taken : e.recv = some next) : ClientAt next standing := by
  cases standing with
  | away =>
      obtain rfl : e = clientEndInit := h
      cases taken
  | answered w =>
      simp only [ClientEnd.recv] at taken
      split at taken
      · cases taken
        exact ⟨nofun, h.2⟩
      · cases taken
        exact h
      · cases taken
  | asking => simp [ClientEnd.recv, h.1, h.2.2] at taken
  | held => simp [ClientEnd.recv, h.1, h.2.2] at taken
  | served w => simp [ClientEnd.recv, h.1, h.2.2] at taken
  | returning w => simp [ClientEnd.recv, h.1, h.2.2] at taken

/-- What a worker sends is its READY or its reply. -/
theorem WorkerAt.sends {w : Frame} {e : WorkerEnd} {place : Place Frame}
    (h : WorkerAt peers w e place) {msg : Zmsg} {more : List Zmsg} (hup : e.up = msg :: more) :
    WorkerAt peers w { e with up := more } .idle ∧
      (place = .announcing ∧ msg = [[], workerReady] ∨
        ∃ c, place = .replying c ∧ msg = [[], c, [], ok]) := by
  cases place with
  | away =>
      obtain rfl : e = workerEndInit := h
      cases hup
  | announcing =>
      obtain ⟨known, hwaits, hsent, hdown⟩ := h
      obtain ⟨rfl, rfl⟩ := List.cons.inj (hup.symm.trans hsent)
      exact ⟨⟨known, hwaits, rfl, hdown⟩, Or.inl ⟨rfl, rfl⟩⟩
  | replying c =>
      obtain ⟨known, hwaits, hsent, hdown⟩ := h
      obtain ⟨rfl, rfl⟩ := List.cons.inj (hup.symm.trans hsent)
      exact ⟨⟨known, hwaits, rfl, hdown⟩, Or.inr ⟨c, rfl, rfl⟩⟩
  | idle => simp [h.2.2.1] at hup
  | assigned c => simp [h.2.2.1] at hup
  | working c => simp [h.2.2.1] at hup

/-- What a client sends is its request. -/
theorem ClientAt.sends {e : ClientEnd} {standing : Standing Frame} (h : ClientAt e standing)
    {msg : Zmsg} {more : List Zmsg} (hup : e.up = msg :: more) :
    standing = .asking ∧ msg = [[], hello] ∧ ClientAt { e with up := more } .held := by
  cases standing with
  | away =>
      obtain rfl : e = clientEndInit := h
      cases hup
  | asking =>
      obtain ⟨htask, hsent, hdown⟩ := h
      obtain ⟨rfl, rfl⟩ := List.cons.inj (hup.symm.trans hsent)
      exact ⟨rfl, rfl, htask, rfl, hdown⟩
  | held => simp [h.2.1] at hup
  | served w => simp [h.2.1] at hup
  | returning w => simp [h.2.1] at hup
  | answered w => simp [h.2] at hup

/-! ## The steps of the broker -/

theorem afterPoll_gate {workers : List Frame} {revents0 revents1 : Bool}
    (h : afterPoll workers revents0 revents1 = .backend true ∨
      afterPoll workers revents0 revents1 = .frontend) : workers ≠ [] := by
  rintro rfl
  cases revents0 <;> cases revents1 <;> simp [afterPoll] at h

theorem Simulates.poll (h : Simulates peers s a) {rc : Option (Bool × Bool)}
    (taken : s.stepBroker (.poll rc) = some (t, out)) : Matched peers t a := by
  cases hpc : s.broker.pc <;> simp only [SystemState.stepBroker, lbbroker2Step, hpc] at taken <;>
    try cases taken
  apply Matched.silent
  cases rc with
  | none =>
      cases taken
      exact ⟨h.worker, h.client, h.queue, by simp, by simp⟩
  | some revents =>
      obtain ⟨revents0, revents1⟩ := revents
      cases taken
      refine ⟨h.worker, h.client, h.queue, afterPoll_gate, ?_⟩
      cases revents0 <;> cases revents1 <;> cases hlist : s.broker.workers <;>
        simp [afterPoll]

theorem Simulates.interrupted (h : Simulates peers s a)
    (taken : s.stepBroker (.recv none) = some (t, out)) : Matched peers t a := by
  apply Matched.silent
  cases hpc : s.broker.pc <;> simp only [SystemState.stepBroker, lbbroker2Step, hpc] at taken <;>
    cases taken <;> exact ⟨h.worker, h.client, h.queue, by simp, by simp⟩

theorem afterBackend_ne_aborted (revents1 : Bool) : afterBackend revents1 ≠ .aborted := by
  cases revents1 <;> simp [afterBackend]

theorem onBackend_ready (broker : Lbbroker2State) (revents1 : Bool) (w : Frame) :
    onBackend broker revents1 [w, [], workerReady] =
      ({ broker with pc := afterBackend revents1, workers := broker.workers ++ [w] }, []) := rfl

theorem onBackend_reply (broker : Lbbroker2State) (revents1 : Bool) (w c : Frame) :
    onBackend broker revents1 [w, [], c, [], ok] =
      ({ broker with pc := afterBackend revents1, workers := broker.workers ++ [w] },
        if c.startsWith 1 then [] else [.toFrontend [c, [], ok]]) := rfl

/-- The state after the backend branch, whatever its message was. -/
theorem Simulates.registered (h : Simulates peers s a) {w : Frame} {e : WorkerEnd}
    (here : WorkerAt peers w e .idle) (revents1 : Bool) :
    Simulates peers
      { s with
        broker := { s.broker with
          pc := afterBackend revents1
          workers := s.broker.workers ++ [w] }
        worker := Function.update s.worker w e }
      { a with worker := Function.update a.worker w .idle, ready := a.ready ++ [w] } where
  worker := related_update (WorkerAt peers) h.worker here
  client := h.client
  queue := by rw [h.queue]
  gate := by simp
  alive := afterBackend_ne_aborted revents1

/-- The backend branch: a READY registers its sender; a reply collects it and
answers its client, unless the client's identity looks like a READY. -/
theorem Simulates.recvBackend (h : Simulates peers s a)
    (balanced : Balanced answered a.worker a.client a.ready) {revents1 : Bool}
    (hpc : s.broker.pc = .backend revents1) {peer : Frame}
    (taken : s.recv peer = some (t, out)) : Matched peers t a := by
  simp only [SystemState.recv, hpc] at taken
  split at taken
  case h_1 => cases taken
  case h_2 msg more hup =>
    obtain ⟨here, ⟨hplace, rfl⟩ | ⟨c, hplace, rfl⟩⟩ := (h.worker peer).sends hup
    · simp only [SystemState.stepBroker, lbbroker2Step, hpc, onBackend_ready, List.foldl_nil,
        Option.some.injEq, Prod.mk.injEq] at taken
      obtain ⟨rfl, -⟩ := taken
      apply Matched.event (step_register hplace)
      exact Matched.silent (h.registered here revents1)
    · have served := balanced.served peer c (by rw [hplace]; rfl)
      have hclient := h.client c
      rw [served] at hclient
      have hstarted : (s.client c).task ≠ .start := by simp [hclient.1]
      have registered := h.registered here revents1
      have returning : ClientAt (s.client c) (.returning peer) := hclient
      have collected := registered.clientMoves (c := c) returning
      rw [Function.update_eq_self] at collected
      simp only [SystemState.stepBroker, lbbroker2Step, hpc, onBackend_reply, Option.some.injEq,
        Prod.mk.injEq] at taken
      obtain ⟨rfl, -⟩ := taken
      apply Matched.event (step_collect hplace)
      split
      case isTrue _ => exact Matched.silent collected
      case isFalse _ =>
        apply Matched.event (step_answer (Function.update_self _ _ _))
        apply Matched.silent
        simp only [List.foldl_cons, List.foldl_nil, SystemState.post, if_neg hstarted]
        exact collected.clientMoves ⟨hstarted, hclient.2.1⟩

/-- The frontend branch: the request is assigned to the first worker. -/
theorem Simulates.recvFrontend (h : Simulates peers s a)
    (balanced : Balanced answered a.worker a.client a.ready)
    (hpc : s.broker.pc = .frontend) {peer : Frame}
    (taken : s.recv peer = some (t, out)) : Matched peers t a := by
  simp only [SystemState.recv, hpc] at taken
  split at taken
  case h_1 => cases taken
  case h_2 msg more hup =>
    obtain ⟨hasking, rfl, here⟩ := (h.client peer).sends hup
    cases hready : a.ready with
    | nil => exact absurd (h.queue.trans hready) (h.gate (Or.inr hpc))
    | cons w rest =>
        have hlist : s.broker.workers = w :: rest := h.queue.trans hready
        have hidle : a.worker w = .idle := by
          rw [← balanced.ready_iff, hready]
          exact List.mem_cons_self
        have hworker := h.worker w
        rw [hidle] at hworker
        obtain ⟨known, hwaits, hup, hdown⟩ := hworker
        have hstarted : (s.worker w).task ≠ .start := by
          rcases hwaits with hwaits | hwaits <;> simp [hwaits]
        have assigned : WorkerAt peers w
            { s.worker w with down := (s.worker w).down ++ [[[], peer, [], hello]] }
            (.assigned peer) := ⟨known, hwaits, hup, by rw [hdown, List.nil_append]⟩
        have served : ClientAt { s.client peer with up := more } (.served w) := here
        have assign := step_assign (s := { a with client := Function.update a.client peer .held })
          (c := peer) (Function.update_self _ _ _) hready
        simp only [SystemState.stepBroker, lbbroker2Step, hpc, onFrontend, hlist, Zmsg.wrap,
          List.foldl_cons, List.foldl_nil, SystemState.post, if_neg hstarted, Option.some.injEq,
          Prod.mk.injEq] at taken
        obtain ⟨rfl, -⟩ := taken
        apply Matched.event (step_hold hasking)
        apply Matched.event assign
        apply Matched.silent
        refine ⟨related_update (WorkerAt peers) h.worker assigned, ?_, rfl, by simp, by simp⟩
        rw [Function.update_idem]
        exact related_update (fun _ => ClientAt) h.client served

/-- Every step of the system is matched. -/
theorem Simulates.step {e : SystemEvent} (h : Simulates peers s a)
    (balanced : Balanced answered a.worker a.client a.ready)
    (taken : (system peers).step s e = some (t, out)) : Matched peers t a := by
  cases e with
  | workerStart w =>
      simp only [system, systemStep, Option.ite_none_right_eq_some, Option.map_eq_some_iff,
        Prod.mk.injEq] at taken
      obtain ⟨known, e, hstart, rfl, -⟩ := taken
      obtain ⟨hplace, here⟩ := (h.worker w).start known hstart
      exact Matched.event (step_announce hplace) (Matched.silent (h.workerMoves here))
  | workerRecv w =>
      simp only [system, systemStep, Option.map_eq_some_iff, Prod.mk.injEq] at taken
      obtain ⟨e, hrecv, rfl, -⟩ := taken
      obtain ⟨c, hplace, here⟩ := (h.worker w).recv hrecv
      exact Matched.event (step_take hplace) (Matched.silent (h.workerMoves here))
  | workerInterrupted w =>
      simp only [system, systemStep, Option.map_eq_some_iff, Prod.mk.injEq] at taken
      obtain ⟨e, hinterrupted, rfl, -⟩ := taken
      exact h.workerStays ((h.worker w).interrupted hinterrupted)
  | workerReply w =>
      simp only [system, systemStep, Option.map_eq_some_iff, Prod.mk.injEq] at taken
      obtain ⟨e, hreply, rfl, -⟩ := taken
      obtain ⟨c, hplace, here⟩ := (h.worker w).reply hreply
      exact Matched.event (step_finish hplace) (Matched.silent (h.workerMoves here))
  | clientSend c =>
      simp only [system, systemStep, Option.ite_none_right_eq_some, Option.map_eq_some_iff,
        Prod.mk.injEq] at taken
      obtain ⟨known, e, hsend, rfl, -⟩ := taken
      obtain ⟨hstanding, here⟩ := (h.client c).send hsend
      exact Matched.event (step_ask hstanding) (Matched.silent (h.clientMoves here))
  | clientRecv c =>
      simp only [system, systemStep, Option.map_eq_some_iff, Prod.mk.injEq] at taken
      obtain ⟨e, hrecv, rfl, -⟩ := taken
      have moved := h.clientMoves (c := c) ((h.client c).recv hrecv)
      rw [Function.update_eq_self] at moved
      exact Matched.silent moved
  | poll rc => exact h.poll taken
  | recv peer =>
      change s.recv peer = some (t, out) at taken
      cases hpc : s.broker.pc with
      | backend revents1 => exact h.recvBackend balanced hpc taken
      | frontend => exact h.recvFrontend balanced hpc taken
      | _ => simp [SystemState.recv, hpc] at taken
  | interrupted => exact h.interrupted taken

theorem Simulates.init (peers : Peers) :
    Simulates peers systemInit (Balancer.init : State Frame Frame) where
  worker := fun _ => rfl
  client := fun _ => rfl
  queue := rfl
  gate := by simp [systemInit, lbbroker2Init]
  alive := by simp [systemInit, lbbroker2Init]

/-- Every run of the system stands for a run of the balancer. -/
theorem simulates_of_run {es : List SystemEvent} {os : List LbbrokerEffect}
    (run : (system peers).Run es os s) :
    ∃ answered a, Balanced answered a.worker a.client a.ready ∧ Simulates peers s a := by
  have init : Simulates peers (system peers).init Balancer.machine.init := Simulates.init peers
  obtain ⟨es', answered, a, matched, related⟩ :=
    run.simulate (fun _ s _ a => Simulates peers s a) init (by
      intro os s es' answered a e t out matched related taken
      obtain ⟨fs, out', b, hexec, hrel⟩ := related.step (balanced_of_run matched) taken
      exact ⟨fs, out', b, hexec, hrel⟩)
  exact ⟨answered, a, balanced_of_run matched, related⟩

end

end ZmqTest.Loadbalance2
