/-
# Every client is answered once

`lbbroker.c` reads a message frame by frame without asking how long it is, and
ends when it has counted a reply for every client. Both are right because of
what the balancer keeps: what is left unread is always what the next call
expects, and the answered clients are the ones counted.
-/

import ZmqTest.Loadbalance.Simulation

namespace ZmqTest.Loadbalance

open Balancer

/-- Every read is of the frame it is meant for: an identity is read where a
message starts, and the third frame of a message from a worker tells whether it
is a READY or a reply. -/
structure Aligned (peers : Peers) (s : SystemState) : Prop where
  worker_id : ∀ revents1, s.broker.pc = .workerId revents1 → s.backendUnread = []
  client_id : s.broker.pc = .frontendClientId → s.frontendUnread = []
  task_id : ∀ w, (s.worker w).task.pc = .id → (s.worker w).unread = []
  ready_or_reply : ∀ revents1 peer t out, s.broker.pc = .backendClientId revents1 →
    (system peers).step s (.recv peer) = some (t, out) →
      (∃ w, s.backendUnread = [peers.ready w]) ∧ t.broker.pc = afterBackend revents1 ∨
        (∃ c ∈ peers.clients, ∃ w, s.backendUnread = [c, [], peers.ok w]) ∧
          t.broker.pc = .replyEmpty revents1
  /-- `assert(empty[0]==0)` of the broker, and the others. -/
  broker_runs : s.broker.pc ≠ .aborted
  /-- `assert(empty[0]==0)` of a worker. -/
  workers_run : ∀ w, (s.worker w).task.pc ≠ .aborted

/-- The client was sent one reply, made by a worker that had been sent this
client's request. -/
def Served (peers : Peers) (os : List LbbrokerEffect) (client worker : Frame) : Prop :=
  repliesTo client os = [[[], peers.reply worker]] ∧
    ∃ before after, os = before ++ peers.answer worker client :: after ∧
      peers.dispatch worker client ∈ before

section

variable {peers : Peers} {os out : List LbbrokerEffect} {s t : SystemState}
  {answered : List Frame} {a : State Frame Frame}

theorem WorkerAt.unread_of_id {w : Frame} {e : WorkerEnd} {place : Place Frame}
    (h : WorkerAt peers w e place) (hpc : e.task.pc = .id) : e.unread = [] := by
  cases place with
  | away =>
      have hinit : e = workerEndInit := h
      rw [hinit] at hpc
      cases hpc
  | announcing => exact h.2.1.2
  | idle => exact h.2.1.2
  | assigned c => exact h.2.2.1.2
  | replying c => exact h.2.2.1.2
  | working c =>
      obtain ⟨-, -, ⟨-, hwork⟩, -⟩ := h
      rcases hwork with ⟨hempty, -⟩ | ⟨hrequest, -⟩
      · cases hempty.symm.trans hpc
      · cases hrequest.symm.trans hpc

theorem WorkerAt.ne_aborted {w : Frame} {e : WorkerEnd} {place : Place Frame}
    (h : WorkerAt peers w e place) : e.task.pc ≠ .aborted := by
  intro hpc
  cases place with
  | away =>
      have hinit : e = workerEndInit := h
      rw [hinit] at hpc
      cases hpc
  | announcing => cases h.2.1.1.symm.trans hpc
  | idle => cases h.2.1.1.symm.trans hpc
  | assigned c => cases h.2.2.1.1.symm.trans hpc
  | replying c => cases h.2.2.1.1.symm.trans hpc
  | working c =>
      obtain ⟨-, -, ⟨-, hwork⟩, -⟩ := h
      rcases hwork with ⟨hempty, -⟩ | ⟨hrequest, -⟩
      · cases hempty.symm.trans hpc
      · cases hrequest.symm.trans hpc

theorem Simulates.ready_or_reply (h : Simulates peers os s answered a) {revents1 : Bool}
    {peer : Frame} (hpc : s.broker.pc = .backendClientId revents1)
    (taken : (system peers).step s (.recv peer) = some (t, out)) :
    (∃ w, s.backendUnread = [peers.ready w]) ∧ t.broker.pc = afterBackend revents1 ∨
      (∃ c ∈ peers.clients, ∃ w, s.backendUnread = [c, [], peers.ok w]) ∧
        t.broker.pc = .replyEmpty revents1 := by
  have hand := h.hand
  simp only [HandAt, hpc] at hand
  simp only [system, systemStep, hpc, LbbrokerPc.readsBackend, if_true] at taken
  obtain ⟨-, ⟨w, hunread⟩ | ⟨c, w, hc, hunread⟩⟩ := hand
  · left
    refine ⟨⟨w, hunread⟩, ?_⟩
    simp only [SystemState.recvBackend, hunread, SystemState.stepBroker, lbbrokerStep, hpc,
      onBackendClientId, headD_sRecv, peers.headD_ready, ne_eq, not_true_eq_false, if_false,
      Option.some.injEq, Prod.mk.injEq] at taken
    rw [← taken.1]
    rfl
  · right
    have hclient := h.client c
    rw [hc] at hclient
    refine ⟨⟨c, hclient.1, w, hunread⟩, ?_⟩
    simp only [SystemState.recvBackend, hunread, SystemState.stepBroker, lbbrokerStep, hpc,
      onBackendClientId, headD_sRecv, ne_eq, (peers.printable_client hclient.1).notWorker,
      not_false_eq_true, if_true, Option.some.injEq, Prod.mk.injEq] at taken
    rw [← taken.1]
    rfl

theorem Simulates.aligned (h : Simulates peers os s answered a) : Aligned peers s where
  worker_id := fun _ hpc => (h.hand.unread (by rw [hpc]; rfl)).1
  client_id := fun hpc => (h.hand.unread (by rw [hpc]; rfl)).2
  task_id := fun w hpc => (h.worker w).unread_of_id hpc
  ready_or_reply := fun _ _ _ _ hpc taken => h.ready_or_reply hpc taken
  broker_runs := h.ne_aborted
  workers_run := fun w => (h.worker w).ne_aborted

theorem afterBackend_ne_done (revents1 : Bool) : afterBackend revents1 ≠ .done := by
  cases revents1 <;> exact nofun

theorem afterPoll_ne_done (available revents0 revents1 : Bool) :
    afterPoll available revents0 revents1 ≠ .done := by
  cases available <;> cases revents0 <;> cases revents1 <;> exact nofun

/-- The loop is left for `done` only when the counter is zero. -/
theorem lbbrokerStep_done {broker next : LbbrokerState} {e : LbbrokerEvent}
    (taken : lbbrokerStep broker e = some (next, out)) (hdone : next.pc = .done) :
    next.clientNbr = 0 := by
  unfold lbbrokerStep at taken
  split at taken
  case h_2 revents0 revents1 _ =>
    cases taken
    exact absurd hdone (afterPoll_ne_done _ _ _)
  case h_3 revents1 frame _ =>
    cases taken
    simp only [onWorkerId] at hdone
    split at hdone <;> cases hdone
  case h_5 revents1 frame _ =>
    cases taken
    simp only [onBackendClientId] at hdone
    split at hdone
    · cases hdone
    · exact absurd hdone (afterBackend_ne_done _)
  case h_7 revents1 frame _ =>
    cases taken
    dsimp only [onReply] at hdone ⊢
    split at hdone
    case isTrue hzero => exact hzero
    case isFalse _ => exact absurd hdone (afterBackend_ne_done _)
  case h_10 frame _ =>
    simp only [onRequest, Option.some.injEq] at taken
    split at taken <;> cases taken <;> cases hdone
  case h_11 => cases taken
  case h_1 => cases taken; cases hdone
  case h_8 => cases taken; cases hdone
  all_goals
    cases taken
    simp only [recvEmpty] at hdone
    split at hdone <;> cases hdone

theorem clientNbr_of_done {es : List SystemEvent} (run : (system peers).Run es os s)
    (hdone : s.broker.pc = .done) : s.broker.clientNbr = 0 := by
  obtain ⟨es', os', brokerRun⟩ := lbbroker_run_of_run run
  revert hdone
  generalize s.broker = broker at brokerRun ⊢
  apply brokerRun.invariant
  · exact nofun
  · intro broker e next out _ taken
    exact lbbrokerStep_done taken

/-- The counted replies are those of all the clients. -/
theorem Simulates.mem_answered (h : Simulates peers os s answered a)
    (balanced : Balanced answered a.worker a.client a.ready) (hzero : s.broker.clientNbr = 0)
    {c : Frame} (known : c ∈ peers.clients) : c ∈ answered := by
  have hlength : answered.length = nbrClients := by
    have hcount := h.count
    rw [hzero] at hcount
    omega
  have hsubset : answered ⊆ peers.clients := by
    intro d hd
    obtain ⟨w, hw⟩ := (balanced.answered_iff d).mp hd
    have hclient := h.client d
    rw [hw] at hclient
    exact hclient.1
  have hperm : answered.Perm peers.clients := by
    apply (List.subperm_of_subset balanced.answered_nodup hsubset).perm_of_length_le
    rw [peers.clients_length, hlength]
  exact hperm.mem_iff.mpr known

end

/-- Reads are aligned in every run, and when the loop is left because no client
is missing, every client has been served once. -/
theorem served_once {peers : Peers} {es : List SystemEvent} {os : List LbbrokerEffect}
    {s : SystemState} (run : (system peers).Run es os s) :
    Aligned peers s ∧
      (s.broker.pc = .done → ∀ c ∈ peers.clients, ∃ w ∈ peers.workers, Served peers os c w) := by
  obtain ⟨answered, a, balanced, related⟩ := simulates_of_run run
  refine ⟨related.aligned, ?_⟩
  intro hdone c known
  have hmem := related.mem_answered balanced (clientNbr_of_done run hdone) known
  obtain ⟨w, hw⟩ := (balanced.answered_iff c).mp hmem
  have hsent := related.sent c
  rw [hw] at hsent
  exact ⟨w, hsent.2.1, hsent.1, hsent.2.2⟩

/-- A worker thread starts, and its READY is read. -/
def startsUp (w : Frame) : List SystemEvent :=
  [.workerStart w, .poll (some (true, false)), .recv w, .recv w, .recv w]

/-- A client's request goes through the broker to a worker, and the reply back. -/
def goesThrough (c w : Frame) : List SystemEvent :=
  [.clientSend c, .poll (some (false, true)), .recv c, .recv c, .recv c,
    .workerRecv w, .workerRecv w, .workerRecv w,
    .poll (some (true, false)), .recv w, .recv w, .recv w, .recv w, .recv w]

/-- One worker serves all the clients in turn. -/
theorem served_once_sample : ∃ os s, s.broker.pc = .done ∧ Aligned .digits s ∧
    ∀ c ∈ Peers.digits.clients, ∃ w ∈ Peers.digits.workers, Served .digits os c w := by
  have hexec : ((system .digits).exec (system .digits).init
      (startsUp (digitId 10) ++
        Peers.digits.clients.flatMap fun c => goesThrough c (digitId 10))).map
      (fun r => r.1.broker.pc) = some .done := by decide +kernel
  obtain ⟨os, s, run, hdone⟩ := Machine.run_of_map_exec hexec
  obtain ⟨aligned, served⟩ := served_once run
  exact ⟨os, s, hdone, aligned, served hdone⟩

end ZmqTest.Loadbalance
