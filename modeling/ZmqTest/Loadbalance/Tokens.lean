/-
# Every worker is in one place

A worker of either load balancer announces itself, is listed as available, has a
request on its way, works, or has its reply on its way, and never two of these
at once. The brokers do not check any of it: that the list has room for a worker
and is not empty when a request is to be sent follows from the workers going in
lock step and from the poll.
-/

import ZmqTest.Loadbalance.Simulation
import ZmqTest.Loadbalance.Simulation2

open Balancer

namespace ZmqTest.Loadbalance

/-- On the wire a READY has a delimiter and one frame; a reply has an address
and a delimiter more. -/
def isReady (msg : Zmsg) : Bool := msg.length = 2

/-- The entries of the array that are in use. -/
def available (broker : LbbrokerState) : List (Option (List UInt8)) :=
  broker.workerQueue.take broker.availableWorkers

/-- The worker thread has begun to read a request it has not answered. -/
def WorkerEnd.processing (e : WorkerEnd) : Bool := e.task.pc = .empty || e.task.pc = .request

/-- In how many places a worker is: its READY in flight, the list of the broker,
requests in flight to it, the worker itself, its replies in flight. -/
def tokens (s : SystemState) (w : Frame) : Nat :=
  (s.worker w).up.countP isReady + (available s.broker).countP (· = some w) +
    (s.worker w).down.length + (s.worker w).processing.toNat +
      (s.worker w).up.countP (!isReady ·)

/-- Nothing is on its way to or from the worker, which waits for a request. -/
def WorkerEnd.Idle (e : WorkerEnd) : Prop := e.Waits ∧ e.up = [] ∧ e.down = []

section

variable {peers : Peers} {os out : List LbbrokerEffect} {s t : SystemState}
  {answered : List Frame} {a : State Frame Frame}

theorem Simulates.available_eq (h : Simulates peers os s answered a) :
    available s.broker = a.ready.map some := by
  obtain ⟨hcount, hqueue⟩ := h.queue
  rw [available, hcount, hqueue, List.take_append_of_le_length (by simp)]
  apply List.take_of_length_le
  simp

theorem Simulates.countP_available (h : Simulates peers os s answered a) (w : Frame) :
    (available s.broker).countP (· = some w) = a.ready.countP (· = w) := by
  rw [h.available_eq, List.countP_map]
  apply List.countP_congr
  intro v _
  simp

/-- A worker is in the one place the balancer has it in. -/
theorem Simulates.tokens_le_one (h : Simulates peers os s answered a)
    (balanced : Balanced answered a.worker a.client a.ready) (w : Frame) : tokens s w ≤ 1 := by
  have here := h.worker w
  have hlisted := balanced.countP_ready_le_one w
  have hunlisted : a.worker w ≠ .idle → a.ready.countP (· = w) = 0 := balanced.countP_ready_eq_zero
  unfold tokens
  rw [h.countP_available]
  cases hplace : a.worker w <;> rw [hplace] at here
  case away =>
    have hinit : s.worker w = workerEndInit := here
    rw [hinit, hunlisted (by simp [hplace])]
    decide
  case announcing =>
    obtain ⟨-, hwaits, hup, hdown⟩ := here
    rw [hup, hdown, hunlisted (by simp [hplace])]
    simp [WorkerEnd.processing, hwaits.1, isReady]
  case idle =>
    obtain ⟨-, hwaits, hup, hdown⟩ := here
    rw [hup, hdown]
    simpa [WorkerEnd.processing, hwaits.1] using hlisted
  case assigned c =>
    obtain ⟨-, -, hwaits, hup, hdown⟩ := here
    rw [hup, hdown, hunlisted (by simp [hplace])]
    simp [WorkerEnd.processing, hwaits.1]
  case working c =>
    obtain ⟨-, -, -, hup, hdown⟩ := here
    rw [hup, hdown, hunlisted (by simp [hplace])]
    cases (s.worker w).processing <;> decide
  case replying c =>
    obtain ⟨-, -, hwaits, hup, hdown⟩ := here
    rw [hup, hdown, hunlisted (by simp [hplace])]
    simp [WorkerEnd.processing, hwaits.1, isReady]

theorem Simulates.available_nodup (h : Simulates peers os s answered a)
    (balanced : Balanced answered a.worker a.client a.ready) : (available s.broker).Nodup := by
  rw [h.available_eq]
  exact balanced.ready_nodup.map fun _ _ => Option.some.inj

/-- A listed worker is idle. -/
theorem Simulates.idle (h : Simulates peers os s answered a)
    (balanced : Balanced answered a.worker a.client a.ready) {w : Frame} (hmem : w ∈ a.ready) :
    (s.worker w).Idle := by
  have here := h.worker w
  rw [(balanced.ready_iff w).mp hmem] at here
  exact here.2

/-- Where the worker of a request is taken from the array there is one. -/
theorem Simulates.head_available (h : Simulates peers os s answered a)
    (hpc : s.broker.pc = .request) : ∃ w ∈ a.ready, s.broker.workerQueue.head? = some (some w) := by
  have gate := h.gate
  rw [hpc] at gate
  cases hready : a.ready with
  | nil => exact absurd hready (gate rfl)
  | cons w rest =>
      obtain ⟨-, hqueue⟩ := h.queue
      refine ⟨w, List.mem_cons_self, ?_⟩
      rw [hqueue, hready]
      rfl

theorem lbbrokerStep_toBackend {broker next : LbbrokerState} {e : LbbrokerEvent} {msg : Zmsg}
    (taken : lbbrokerStep broker e = some (next, out)) (sent : .toBackend msg ∈ out) :
    broker.pc = .request ∧
      ∃ worker, broker.workerQueue.head?.join = some worker ∧ msg.head? = some (cstr worker) := by
  unfold lbbrokerStep at taken
  split at taken
  case h_10 frame hpc =>
    simp only [onRequest, Option.some.injEq] at taken
    split at taken
    case h_1 => cases taken; cases sent
    case h_2 worker hhead =>
      cases taken
      rw [List.mem_singleton, LbbrokerEffect.toBackend.injEq] at sent
      exact ⟨hpc, worker, hhead, by rw [sent]; rfl⟩
  case h_7 => cases taken; simp at sent
  case h_11 => cases taken
  all_goals
    cases taken
    cases sent

/-- A request is sent to a worker that is listed, which is idle. -/
theorem Simulates.sends_to_idle (h : Simulates peers os s answered a)
    (balanced : Balanced answered a.worker a.client a.ready) {e : SystemEvent} {msg : Zmsg}
    (taken : (system peers).step s e = some (t, out)) (sent : .toBackend msg ∈ out) :
    ∃ w, msg.head? = some w ∧ some w ∈ available s.broker ∧ (s.worker w).Idle := by
  rcases broker_systemStep taken with ⟨-, rfl⟩ | ⟨e', hstep⟩
  · cases sent
  · obtain ⟨hpc, worker, hworker, hmsg⟩ := lbbrokerStep_toBackend hstep sent
    obtain ⟨w, hmem, hhead⟩ := h.head_available hpc
    obtain rfl : w = worker := by simpa [hhead] using hworker
    have known := h.ready_subset balanced hmem
    rw [cstr_eq_self (peers.printable_worker known).text] at hmsg
    refine ⟨w, hmsg, ?_, h.idle balanced hmem⟩
    rw [h.available_eq]
    exact List.mem_map_of_mem hmem

/-- Where an identity is received from a worker there is room for it. -/
theorem Simulates.room_of_recv (h : Simulates peers os s answered a)
    (balanced : Balanced answered a.worker a.client a.ready) {revents1 : Bool} {peer : Frame}
    (hpc : s.broker.pc = .workerId revents1)
    (taken : (system peers).step s (.recv peer) = some (t, out)) :
    s.broker.availableWorkers < nbrWorkers := by
  obtain ⟨hbackend, -⟩ := h.hand.unread (by rw [hpc]; rfl)
  simp only [system, systemStep, hpc, LbbrokerPc.readsBackend, if_true, SystemState.recvBackend,
    hbackend] at taken
  cases hup : (s.worker peer).up with
  | nil => simp [hup] at taken
  | cons msg more =>
      obtain ⟨-, known, -, -, hsent⟩ := (h.worker peer).sends hup
      have busy : a.worker peer ≠ .idle := by
        rcases hsent with ⟨hplace, -⟩ | ⟨c, hplace, -⟩ <;> simp [hplace]
      rw [h.queue.1]
      exact h.room balanced known busy

/-- What the places of the workers come to. -/
structure Orderly (peers : Peers) (s : SystemState) : Prop where
  one_place : ∀ w, tokens s w ≤ 1
  no_duplicates : (available s.broker).Nodup
  /-- `assert(available_workers<NBR_WORKERS)`. -/
  has_room : ∀ revents1 peer t out, s.broker.pc = .workerId revents1 →
    (system peers).step s (.recv peer) = some (t, out) → s.broker.availableWorkers < nbrWorkers
  /-- `worker_queue[0]` is not the null pointer where it is used. -/
  has_worker : s.broker.pc = .request →
    ∃ w, s.broker.workerQueue.head? = some (some w) ∧ some w ∈ available s.broker
  sends_to_idle : ∀ e t out msg, (system peers).step s e = some (t, out) →
    .toBackend msg ∈ out → ∃ w, msg.head? = some w ∧ some w ∈ available s.broker ∧
      (s.worker w).Idle
  runs_on : s.broker.pc ≠ .aborted

theorem Simulates.orderly (h : Simulates peers os s answered a)
    (balanced : Balanced answered a.worker a.client a.ready) : Orderly peers s where
  one_place := h.tokens_le_one balanced
  no_duplicates := h.available_nodup balanced
  has_room := fun _ _ _ _ hpc taken => h.room_of_recv balanced hpc taken
  has_worker := by
    intro hpc
    obtain ⟨w, hmem, hhead⟩ := h.head_available hpc
    refine ⟨w, hhead, ?_⟩
    rw [h.available_eq]
    exact List.mem_map_of_mem hmem
  sends_to_idle := fun _ _ _ _ taken sent => h.sends_to_idle balanced taken sent
  runs_on := h.ne_aborted

end

end ZmqTest.Loadbalance

namespace ZmqTest.Loadbalance2

open ZmqTest.Loadbalance (LbbrokerEffect)

/-- On the wire a READY has a delimiter and one frame. -/
def isReady (msg : Zmsg) : Bool := msg.length = 2

/-- The worker thread has a request it has not answered. -/
def WorkerEnd.processing (e : WorkerEnd) : Bool :=
  match e.task with
  | .working _ => true
  | _ => false

/-- In how many places a worker is: its READY in flight, the list of the broker,
requests in flight to it, the worker itself, its replies in flight. -/
def tokens (s : SystemState) (w : Frame) : Nat :=
  (s.worker w).up.countP isReady + s.broker.workers.countP (· = w) +
    (s.worker w).down.length + (s.worker w).processing.toNat +
      (s.worker w).up.countP (!isReady ·)

/-- Nothing is on its way to or from the worker, which has no request. -/
def WorkerEnd.Idle (e : WorkerEnd) : Prop := e.Waits ∧ e.up = [] ∧ e.down = []

section

variable {peers : Peers} {out : List LbbrokerEffect} {s t : SystemState} {answered : List Frame}
  {a : State Frame Frame}

theorem WorkerEnd.Waits.processing {e : WorkerEnd} (h : e.Waits) : e.processing = false := by
  rcases h with h | h <;> simp [WorkerEnd.processing, h]

/-- A worker is in the one place the balancer has it in. -/
theorem Simulates.tokens_le_one (h : Simulates peers s a)
    (balanced : Balanced answered a.worker a.client a.ready) (w : Frame) : tokens s w ≤ 1 := by
  have here := h.worker w
  have hlisted := balanced.countP_ready_le_one w
  have hunlisted : a.worker w ≠ .idle → a.ready.countP (· = w) = 0 := balanced.countP_ready_eq_zero
  unfold tokens
  rw [h.queue]
  cases hplace : a.worker w <;> rw [hplace] at here
  case away =>
    have hinit : s.worker w = workerEndInit := here
    rw [hinit, hunlisted (by simp [hplace])]
    decide
  case announcing =>
    obtain ⟨-, hwaits, hup, hdown⟩ := here
    rw [hup, hdown, hunlisted (by simp [hplace]), hwaits.processing]
    decide
  case idle =>
    obtain ⟨-, hwaits, hup, hdown⟩ := here
    rw [hup, hdown, hwaits.processing]
    simpa using hlisted
  case assigned c =>
    obtain ⟨-, hwaits, hup, hdown⟩ := here
    rw [hup, hdown, hunlisted (by simp [hplace]), hwaits.processing]
    simp
  case working c =>
    obtain ⟨-, -, hup, hdown⟩ := here
    rw [hup, hdown, hunlisted (by simp [hplace])]
    cases (s.worker w).processing <;> decide
  case replying c =>
    obtain ⟨-, hwaits, hup, hdown⟩ := here
    rw [hup, hdown, hunlisted (by simp [hplace]), hwaits.processing]
    simp [isReady]

/-- A listed worker is idle. -/
theorem Simulates.idle (h : Simulates peers s a)
    (balanced : Balanced answered a.worker a.client a.ready) {w : Frame} (hmem : w ∈ a.ready) :
    (s.worker w).Idle := by
  have here := h.worker w
  rw [(balanced.ready_iff w).mp hmem] at here
  exact here.2

theorem onBackend_toFrontend {broker : Lbbroker2State} {revents1 : Bool} {msg : Zmsg}
    {effect : LbbrokerEffect} (sent : effect ∈ (onBackend broker revents1 msg).2) :
    ∃ body, effect = .toFrontend body := by
  unfold onBackend at sent
  split at sent
  case h_1 => cases sent
  case h_2 identity body _ =>
    dsimp only at sent
    split at sent
    case h_1 => cases sent
    case h_2 frame _ =>
      dsimp only at sent
      split at sent
      case isTrue _ => cases sent
      case isFalse _ => exact ⟨body, List.mem_singleton.mp sent⟩

theorem lbbroker2Step_toBackend {broker next : Lbbroker2State} {e : Lbbroker2Event} {msg : Zmsg}
    (taken : lbbroker2Step broker e = some (next, out)) (sent : .toBackend msg ∈ out) :
    ∃ worker rest, broker.workers = worker :: rest ∧ msg.head? = some worker := by
  unfold lbbroker2Step at taken
  split at taken
  case h_4 revents1 request _ =>
    simp only [Option.some.injEq] at taken
    rw [← (Prod.mk.inj taken).2] at sent
    obtain ⟨body, hbody⟩ := onBackend_toFrontend sent
    cases hbody
  case h_6 request _ =>
    simp only [onFrontend, Option.some.injEq] at taken
    split at taken
    case h_1 => cases taken; cases sent
    case h_2 worker rest hworkers =>
      cases taken
      rw [List.mem_singleton, LbbrokerEffect.toBackend.injEq] at sent
      exact ⟨worker, rest, hworkers, by rw [sent]; rfl⟩
  case h_7 => cases taken
  all_goals
    cases taken
    cases sent

/-- A request is sent to a worker that is listed, which is idle. -/
theorem Simulates.sends_to_idle (h : Simulates peers s a)
    (balanced : Balanced answered a.worker a.client a.ready) {e : SystemEvent} {msg : Zmsg}
    (taken : (system peers).step s e = some (t, out)) (sent : .toBackend msg ∈ out) :
    ∃ w, msg.head? = some w ∧ w ∈ s.broker.workers ∧ (s.worker w).Idle := by
  rcases systemStep_out taken with rfl | ⟨e', next, hstep⟩
  · cases sent
  · obtain ⟨w, rest, hworkers, hmsg⟩ := lbbroker2Step_toBackend hstep sent
    have hlisted : w ∈ s.broker.workers := by
      rw [hworkers]
      exact List.mem_cons_self
    exact ⟨w, hmsg, hlisted, h.idle balanced (h.queue ▸ hlisted)⟩

/-- What the places of the workers come to. -/
structure Orderly (peers : Peers) (s : SystemState) : Prop where
  one_place : ∀ w, tokens s w ≤ 1
  no_duplicates : s.broker.workers.Nodup
  /-- `zlist_pop` is not called on an empty list. -/
  has_worker : s.broker.pc = .frontend → s.broker.workers ≠ []
  sends_to_idle : ∀ e t out msg, (system peers).step s e = some (t, out) →
    .toBackend msg ∈ out → ∃ w, msg.head? = some w ∧ w ∈ s.broker.workers ∧ (s.worker w).Idle
  runs_on : s.broker.pc ≠ .aborted

theorem Simulates.orderly (h : Simulates peers s a)
    (balanced : Balanced answered a.worker a.client a.ready) : Orderly peers s where
  one_place := h.tokens_le_one balanced
  no_duplicates := h.queue ▸ balanced.ready_nodup
  has_worker := fun hpc => h.gate (Or.inr hpc)
  sends_to_idle := fun _ _ _ _ taken sent => h.sends_to_idle balanced taken sent
  runs_on := h.alive

end

end ZmqTest.Loadbalance2

namespace ZmqTest

/-- Every state either load balancer reaches is orderly. -/
theorem balancers_orderly :
    (∀ peers es os s, (Loadbalance.system peers).Run es os s → Loadbalance.Orderly peers s) ∧
      ∀ peers es os s, (Loadbalance2.system peers).Run es os s →
        Loadbalance2.Orderly peers s := by
  constructor
  · intro peers es os s run
    obtain ⟨answered, a, balanced, related⟩ := Loadbalance.simulates_of_run run
    exact related.orderly balanced
  · intro peers es os s run
    obtain ⟨answered, a, balanced, related⟩ := Loadbalance2.simulates_of_run run
    exact related.orderly balanced

/-- A worker of each has announced itself and is sent the request of a client. -/
theorem balancers_orderly_sample :
    (∃ s, Loadbalance.Orderly .digits s ∧
      (s.worker (Loadbalance.digitId 10)).down.length = 1) ∧
      ∃ s, Loadbalance2.Orderly .numbered s ∧
        (s.worker [0, 0, 0, 1, 0]).down.length = 1 := by
  constructor
  · have hexec : ((Loadbalance.system .digits).exec (Loadbalance.system .digits).init
        [.workerStart (Loadbalance.digitId 10), .poll (some (true, false)),
          .recv (Loadbalance.digitId 10), .recv [], .recv [],
          .clientSend (Loadbalance.digitId 0), .poll (some (false, true)),
          .recv (Loadbalance.digitId 0), .recv [], .recv []]).map
        (fun r => (r.1.worker (Loadbalance.digitId 10)).down.length) = some 1 := by decide
    obtain ⟨os, s, run, sent⟩ := Machine.run_of_map_exec hexec
    exact ⟨s, balancers_orderly.1 _ _ _ _ run, sent⟩
  · have hexec : ((Loadbalance2.system .numbered).exec (Loadbalance2.system .numbered).init
        [.workerStart [0, 0, 0, 1, 0], .poll (some (true, false)), .recv [0, 0, 0, 1, 0],
          .clientSend [0, 0, 0, 0, 0], .poll (some (false, true)), .recv [0, 0, 0, 0, 0]]).map
        (fun r => (r.1.worker [0, 0, 0, 1, 0]).down.length) = some 1 := by decide
    obtain ⟨os, s, run, sent⟩ := Machine.run_of_map_exec hexec
    exact ⟨s, balancers_orderly.2 _ _ _ _ run, sent⟩

end ZmqTest
