/-
# Every client thread gets its reply

When `zmq_poll` tells the truth and waits until there is something to tell, the threads
and the broker of `lbbroker.c` cannot come to a halt before all is done: what a poll has
promised is there until it is read, the last frame of a message brings the broker back to
the poll, and while a client is missing some thread can go on or some socket be read.
When the loop is left every client has its reply or has it in its channel, and it has
received it when the threads, which are taken to run on after `main`'s loop, have come to a
halt.
-/

import ZmqTest.Loadbalance.Completion
import ZmqTest.Loadbalance.Progress

namespace ZmqTest.Loadbalance

open Balancer

section

variable {peers : Peers} {s t : SystemState} {out os : List LbbrokerEffect}
  {answered : List Frame} {a : State Frame Frame}

/-- The reply to a client is under way to it, or it is the text the thread has received. -/
def Heard (peers : Peers) (os : List LbbrokerEffect) (c : Frame) (e : ClientEnd) : Prop :=
  match e.task with
  | .finished text =>
      e.down = [] ∧ ∃ w, text = peers.reply w ∧ repliesTo c os = [[[], peers.reply w]]
  | _ => e.down = repliesTo c os

theorem received_reply (peers : Peers) (w : Frame) :
    received 256 (peers.reply w) = peers.reply w := by
  apply received_eq_self
  · have short : (peers.reply w).length ≤ ((peers.ok w).take 255).length :=
      (List.takeWhile_sublist _).length_le
    rw [List.length_take] at short
    omega
  · exact zero_not_mem_cstr _

/-- A client is sent one reply at most. -/
theorem SentFor.replies {c : Frame} {standing : Standing Frame}
    (h : SentFor peers os c standing) :
    repliesTo c os = [] ∨ ∃ w, repliesTo c os = [[[], peers.reply w]] := by
  cases standing with
  | answered w => exact Or.inr ⟨w, h.1⟩
  | served w => exact Or.inl h.1
  | returning w => exact Or.inl h.1
  | away => exact Or.inl h
  | asking => exact Or.inl h
  | held => exact Or.inl h

theorem Heard.append {c : Frame} {e : ClientEnd} (h : Heard peers os c e)
    (other : repliesTo c out = []) : Heard peers (os ++ out) c e := by
  unfold Heard at h ⊢
  rwa [repliesTo_append, other, List.append_nil]

/-- What the thread receives is the reply it was sent. -/
theorem Heard.recv {c : Frame} {e next : ClientEnd} (h : Heard peers os c e)
    (replies : repliesTo c os = [] ∨ ∃ w, repliesTo c os = [[[], peers.reply w]])
    (taken : e.recv = some next) :
    e.task = .waiting ∧ ∃ w, repliesTo c os = [[[], peers.reply w]] ∧
      next = { e with task := .finished (peers.reply w), down := [] } := by
  cases htask : e.task with
  | start => simp [ClientEnd.recv, htask] at taken
  | finished text => simp [ClientEnd.recv, htask] at taken
  | waiting =>
      simp only [Heard, htask] at h
      rcases replies with none | ⟨w, one⟩
      · simp [ClientEnd.recv, htask, h, none] at taken
      · simp only [ClientEnd.recv, htask, h, one, received_reply, Option.some.injEq] at taken
        exact ⟨rfl, w, one, taken.symm⟩

theorem SystemMoves.heard {e : SystemEvent} (moves : SystemMoves peers s e t out)
    (replies : ∀ c, repliesTo c os = [] ∨ ∃ w, repliesTo c os = [[[], peers.reply w]])
    (h : ∀ c, Heard peers os c (s.client c)) (c : Frame) :
    Heard peers (os ++ out) c (t.client c) := by
  have before := h c
  cases moves with
  | worker e w next known moves => exact before.append rfl
  | clientSend d known task up down =>
      apply Heard.append _ rfl
      by_cases heq : c = d
      · subst heq
        simp only [Heard, task, down] at before
        simp only [Function.update_self, Heard, before]
      · simpa [heq] using before
  | clientRecv d w next known up taken =>
      apply Heard.append _ rfl
      by_cases heq : c = d
      · subst heq
        obtain ⟨-, v, one, rfl⟩ := before.recv (replies c) taken
        simp only [Function.update_self, Heard]
        exact ⟨trivial, v, rfl, one⟩
      · simpa [heq] using before
  | broker moves =>
      cases moves with
      | reply peer revents1 d w broker pc next count known unread task up down =>
          by_cases heq : c = d
          · subst heq
            simp only [Heard, task, down] at before
            simp only [Function.update_self, Heard, ClientEnd.given, task, repliesTo_append,
              ← before, Peers.answer, repliesTo_reply, if_true, List.nil_append]
          · have other : repliesTo c [peers.answer w d] = [] := by
              rw [Peers.answer, repliesTo_reply, if_neg (Ne.symm heq)]
            simpa [heq] using before.append other
      | frontendClientId d broker pc next count known none task sent down =>
          apply Heard.append _ rfl
          by_cases heq : c = d
          · subst heq
            simpa [Heard, ClientEnd.emptied] using before
          · simpa [heq] using before
      | request peer d w broker pc next count known unread idle => exact before.append rfl
      | _ => exact before.append rfl

/-- The points from which a message of a client is read next but one. -/
def LbbrokerPc.turnsToFrontend : LbbrokerPc → Bool
  | .workerId revents1 => revents1
  | .backendEmpty revents1 => revents1
  | .backendClientId revents1 => revents1
  | .replyEmpty revents1 => revents1
  | .reply revents1 => revents1
  | .frontendClientId => true
  | _ => false

/-- What the last poll has told and the broker has not yet made use of. -/
structure Promised (peers : Peers) (s : SystemState) : Prop where
  backend : ∀ revents1, s.broker.pc = .workerId revents1 → s.backendReadable peers
  frontend : s.broker.pc.turnsToFrontend → s.frontendReadable peers

/-- What holds between the steps when the poll tells the truth: what it promised is still
there, and the requests that are somewhere are those that `client_nbr` counts. -/
structure Attended (peers : Peers) (os : List LbbrokerEffect) (s : SystemState) : Prop where
  promised : Promised peers s
  running : s.broker.pc ≠ .stopped
  missing : s.broker.pc ≠ .done → s.broker.clientNbr ≠ 0
  counted : (s.requests peers : Int) = s.broker.clientNbr
  heard : ∀ c, Heard peers os c (s.client c)

theorem Attended.init (peers : Peers) : Attended peers [] systemInit where
  promised := ⟨nofun, nofun⟩
  running := nofun
  missing := fun _ => by decide
  counted := by
    have workers : (peers.workers.map fun _ => workerEndInit.requests).sum = 0 := by
      simp [WorkerEnd.requests, workerEndInit]
    have clients : (peers.clients.map fun _ => clientEndInit.requests).sum = nbrClients := by
      have one : clientEndInit.requests = 1 := rfl
      rw [one, List.map_const', List.sum_replicate_nat, peers.clients_length, Nat.mul_one]
    show (((peers.workers.map fun _ => workerEndInit.requests).sum +
      (peers.clients.map fun _ => clientEndInit.requests).sum + 0 : Nat) : Int) = nbrClients
    rw [workers, clients, Nat.zero_add, Nat.add_zero]
  heard := fun _ => rfl

theorem backendReadable_iff :
    s.backendReadable peers = true ↔ ∃ w ∈ peers.workers, (s.worker w).up ≠ [] := by
  simp [SystemState.backendReadable]

theorem frontendReadable_iff :
    s.frontendReadable peers = true ↔ ∃ c ∈ peers.clients, (s.client c).up ≠ [] := by
  simp [SystemState.frontendReadable]

/-- A step of a worker thread leaves what can be read. -/
theorem backendReadable_update {w : Frame} {next : WorkerEnd} (silent : (s.worker w).up = [])
    (readable : s.backendReadable peers = true) : SystemState.backendReadable
      { s with worker := Function.update s.worker w next } peers = true :=
  Machine.any_update (fun e : WorkerEnd => !e.up.isEmpty) s.worker (by simp [silent]) readable

/-- So does a step of a client thread. -/
theorem frontendReadable_update {c : Frame} {next : ClientEnd} (silent : (s.client c).up = [])
    (readable : s.frontendReadable peers = true) : SystemState.frontendReadable
      { s with client := Function.update s.client c next } peers = true :=
  Machine.any_update (fun e : ClientEnd => !e.up.isEmpty) s.client (by simp [silent]) readable

theorem turnsToFrontend_afterBackend {revents1 : Bool}
    (h : (afterBackend revents1).turnsToFrontend) : revents1 := by
  cases revents1 with
  | false => cases h
  | true => rfl

theorem afterBackend_ne_workerId (revents1 flag : Bool) :
    afterBackend revents1 ≠ .workerId flag := by
  cases revents1 <;> simp [afterBackend]

theorem BrokerMoves.promised {e : SystemEvent} (moves : BrokerMoves peers s e t out)
    (truthful : Truthful peers s e) (h : Promised peers s) : Promised peers t := by
  have turns := h.frontend
  cases moves with
  | failed broker pc next count => exact absurd truthful id
  | poll revents0 revents1 broker pc next count =>
      obtain ⟨backend, frontend, -⟩ := truthful
      constructor
      · intro flag hpc
        have read : revents0 = true := by
          cases revents0
          · generalize hpoll : (s.broker.availableWorkers ≠ 0 : Bool) = available at next
            cases available <;> cases revents1 <;> simp [afterPoll, next] at hpc
          · rfl
        exact backend ▸ read
      · intro hturns
        have read : revents1 = true := by
          cases revents1
          · cases revents0 <;> simp [afterPoll, next, LbbrokerPc.turnsToFrontend] at hturns
          · rfl
        exact frontend ▸ read
  | workerId revents1 w body broker pc next count known none sent from_worker =>
      refine ⟨by simp [next], fun hturns => turns ?_⟩
      rw [pc]
      simp only [next] at hturns
      exact hturns
  | backendEmpty peer revents1 w body broker pc next count unread from_worker =>
      refine ⟨by simp [next], fun hturns => turns ?_⟩
      rw [pc]
      simp only [next] at hturns
      exact hturns
  | ready peer revents1 w broker pc next count unread =>
      refine ⟨by simp [next, afterBackend_ne_workerId], fun hturns => turns ?_⟩
      rw [pc]
      simp only [next] at hturns
      exact turnsToFrontend_afterBackend hturns
  | clientId peer revents1 c w broker pc next count unread =>
      refine ⟨by simp [next], fun hturns => turns ?_⟩
      rw [pc]
      simp only [next] at hturns
      exact hturns
  | replyEmpty peer revents1 w broker pc next count unread =>
      refine ⟨by simp [next], fun hturns => turns ?_⟩
      rw [pc]
      simp only [next] at hturns
      exact hturns
  | reply peer revents1 c w broker pc next count known unread task up down =>
      constructor
      · intro flag hpc
        simp only [next] at hpc
        split at hpc
        · cases hpc
        · exact absurd hpc (afterBackend_ne_workerId _ _)
      · intro hturns
        simp only [next] at hturns
        split at hturns
        · cases hturns
        · apply frontendReadable_update up
          apply turns
          rw [pc]
          exact turnsToFrontend_afterBackend hturns
  | frontendClientId c broker pc next count known none task sent down =>
      exact ⟨by simp [next], by simp [next, LbbrokerPc.turnsToFrontend]⟩
  | requestEmpty peer c broker pc next count unread =>
      exact ⟨by simp [next], by simp [next, LbbrokerPc.turnsToFrontend]⟩
  | request peer c w broker pc next count known unread idle =>
      exact ⟨by simp [next], by simp [next, LbbrokerPc.turnsToFrontend]⟩

theorem WorkerMoves.silent {w : Frame} {e next : WorkerEnd} (h : WorkerMoves peers w e next) :
    e.up = [] := by
  cases h with
  | start before after => exact before.2.2.1
  | take c before after => exact before.2.2.1
  | read c before after => exact before.2.2.1
  | reply c before after => exact before.2.2.1

theorem SystemMoves.promised {e : SystemEvent} (moves : SystemMoves peers s e t out)
    (truthful : Truthful peers s e) (h : Promised peers s) : Promised peers t := by
  cases moves with
  | worker e w next known moves =>
      exact ⟨fun flag hpc => backendReadable_update moves.silent (h.backend flag hpc), h.frontend⟩
  | clientSend c known task up down =>
      exact ⟨h.backend, fun turns => frontendReadable_update up (h.frontend turns)⟩
  | clientRecv c w next known up taken =>
      exact ⟨h.backend, fun turns => frontendReadable_update up (h.frontend turns)⟩
  | broker moves => exact moves.promised truthful h

theorem SystemMoves.measured {e : SystemEvent} (moves : SystemMoves peers s e t out)
    (truthful : Truthful peers s e) (heard : ∀ c, Heard peers os c (s.client c))
    (replies : ∀ c, repliesTo c os = [] ∨ ∃ w, repliesTo c os = [[[], peers.reply w]]) :
    Measured peers s t := by
  cases moves with
  | worker e w next known moves =>
      obtain ⟨lower, same⟩ := moves.measured
      have ahead := Machine.sum_map_update WorkerEnd.ahead s.worker peers.workers_nodup known next
      have requests := Machine.sum_map_update WorkerEnd.requests s.worker peers.workers_nodup
        known next
      constructor
      · simp only [SystemState.ahead]
        omega
      · simp only [SystemState.requests, SystemState.inHand]
        omega
  | clientSend c known task up down =>
      have ahead := Machine.sum_map_update ClientEnd.ahead s.client peers.clients_nodup known
        { task := .waiting, up := [[[], peers.hello c]], down := [] }
      have requests := Machine.sum_map_update ClientEnd.requests s.client peers.clients_nodup
        known { task := .waiting, up := [[[], peers.hello c]], down := [] }
      have before : (s.client c).ahead = 15 ∧ (s.client c).requests = 1 := by
        simp [ClientEnd.ahead, ClientEnd.requests, task, up]
      have after : (ClientEnd.mk .waiting [[[], peers.hello c]] []).ahead = 14 ∧
          (ClientEnd.mk .waiting [[[], peers.hello c]] []).requests = 1 := ⟨rfl, rfl⟩
      constructor
      · simp only [SystemState.ahead]
        omega
      · simp only [SystemState.requests, SystemState.inHand]
        omega
  | clientRecv c w next known up taken =>
      obtain ⟨task, v, -, hnext⟩ := (heard c).recv (replies c) taken
      have ahead := Machine.sum_map_update ClientEnd.ahead s.client peers.clients_nodup known next
      have requests := Machine.sum_map_update ClientEnd.requests s.client peers.clients_nodup
        known next
      have before : (s.client c).ahead = 1 ∧ (s.client c).requests = 0 := by
        simp [ClientEnd.ahead, ClientEnd.requests, task, up]
      have after : next.ahead = 0 ∧ next.requests = 0 := by
        simp [ClientEnd.ahead, ClientEnd.requests, hnext, up]
      constructor
      · simp only [SystemState.ahead]
        omega
      · simp only [SystemState.requests, SystemState.inHand]
        omega
  | broker moves => exact moves.measured truthful

/-- The loop goes on until no client is missing. -/
theorem SystemMoves.goes_on {e : SystemEvent} (moves : SystemMoves peers s e t out)
    (truthful : Truthful peers s e) (running : s.broker.pc ≠ .stopped)
    (missing : s.broker.pc ≠ .done → s.broker.clientNbr ≠ 0) :
    t.broker.pc ≠ .stopped ∧ (t.broker.pc ≠ .done → t.broker.clientNbr ≠ 0) := by
  cases moves with
  | worker e w next known moves => exact ⟨running, missing⟩
  | clientSend c known task up down => exact ⟨running, missing⟩
  | clientRecv c w next known up taken => exact ⟨running, missing⟩
  | broker moves =>
      cases moves with
      | failed broker pc next count => exact absurd truthful id
      | poll revents0 revents1 broker pc next count =>
          have going := missing (by simp [pc])
          refine ⟨?_, fun _ => by rwa [count]⟩
          rw [next]
          generalize (s.broker.availableWorkers ≠ 0 : Bool) = available
          cases available <;> cases revents0 <;> cases revents1 <;> simp [afterPoll]
      | ready peer revents1 w broker pc next count unread =>
          have going := missing (by simp [pc])
          refine ⟨?_, fun _ => by rwa [count]⟩
          rw [next]
          cases revents1 <;> simp [afterBackend]
      | reply peer revents1 c w broker pc next count known unread task up down =>
          constructor
          · rw [next]
            split
            · simp
            · cases revents1 <;> simp [afterBackend]
          · intro undone all
            exact undone (by rw [next, if_pos all])
      | workerId revents1 w body broker pc next count known none sent from_worker =>
          exact ⟨by simp [next], fun _ => by rw [count]; exact missing (by simp [pc])⟩
      | backendEmpty peer revents1 w body broker pc next count unread from_worker =>
          exact ⟨by simp [next], fun _ => by rw [count]; exact missing (by simp [pc])⟩
      | clientId peer revents1 c w broker pc next count unread =>
          exact ⟨by simp [next], fun _ => by rw [count]; exact missing (by simp [pc])⟩
      | replyEmpty peer revents1 w broker pc next count unread =>
          exact ⟨by simp [next], fun _ => by rw [count]; exact missing (by simp [pc])⟩
      | frontendClientId c broker pc next count known none task sent down =>
          exact ⟨by simp [next], fun _ => by rw [count]; exact missing (by simp [pc])⟩
      | requestEmpty peer c broker pc next count unread =>
          exact ⟨by simp [next], fun _ => by rw [count]; exact missing (by simp [pc])⟩
      | request peer c w broker pc next count known unread idle =>
          exact ⟨by simp [next], fun _ => by rw [count]; exact missing (by simp [pc])⟩

theorem Attended.step {e : SystemEvent} (h : Attended peers os s)
    (related : Simulates peers os s answered a) (moves : SystemMoves peers s e t out)
    (truthful : Truthful peers s e) :
    Attended peers (os ++ out) t ∧ t.ahead peers < s.ahead peers := by
  have replies := fun c => (related.sent c).replies
  have measured := moves.measured truthful h.heard replies
  obtain ⟨running, missing⟩ := moves.goes_on truthful h.running h.missing
  refine ⟨⟨moves.promised truthful h.promised, running, missing, ?_,
    moves.heard replies h.heard⟩, measured.ahead⟩
  have counted := h.counted
  have same := measured.requests
  omega

theorem attended_of_run {es : List SystemEvent} (run : (attentive peers).Run es os s) :
    Attended peers os s ∧ es.length + s.ahead peers ≤ 166 := by
  induction run with
  | start =>
      refine ⟨Attended.init peers, ?_⟩
      have workers : (peers.workers.map fun _ => workerEndInit.ahead).sum = 15 := by
        simp [WorkerEnd.ahead, workerEndInit, workerTaskInit, peers.workers_length, nbrWorkers]
      have clients : (peers.clients.map fun _ => clientEndInit.ahead).sum = 150 := by
        simp [ClientEnd.ahead, clientEndInit, peers.clients_length, nbrClients]
      show 0 + ((peers.workers.map fun _ => workerEndInit.ahead).sum +
        (peers.clients.map fun _ => clientEndInit.ahead).sum + 0 + 0 + 1) ≤ 166
      omega
  | extend prior taken ih =>
      obtain ⟨truthful, taken⟩ := Machine.step_restrict.mp taken
      obtain ⟨answered, a, balanced, related⟩ := simulates_of_run prior.of_restrict
      obtain ⟨attended, lower⟩ := ih.1.step related (related.moves balanced taken) truthful
      refine ⟨attended, ?_⟩
      rw [List.length_append, List.length_singleton]
      omega

/-! ## Something can be done -/

theorem enabled_of_stuck {e : SystemEvent} (stuck : (attentive peers).Stuck s)
    (truthful : Truthful peers s e) : ¬ (systemStep peers s e).isSome :=
  Machine.Stuck.not_isSome stuck truthful

/-- A worker thread that cannot go on is idle or has sent something. -/
theorem Simulates.worker_of_stuck (h : Simulates peers os s answered a)
    (stuck : (attentive peers).Stuck s) {w : Frame} (known : w ∈ peers.workers) :
    a.worker w = .idle ∨ (s.worker w).up ≠ [] := by
  have start := enabled_of_stuck (e := .workerStart w) stuck trivial
  have recv := enabled_of_stuck (e := .workerRecv w) stuck trivial
  have worker := h.worker w
  cases hplace : a.worker w with
  | idle => exact Or.inl rfl
  | away =>
      rw [hplace] at worker
      have fresh : s.worker w = workerEndInit := worker
      simp [systemStep, known, fresh, WorkerEnd.start, workerEndInit, workerTaskInit] at start
  | announcing =>
      rw [hplace] at worker
      exact Or.inr (by simp [worker.2.2.1])
  | replying c =>
      rw [hplace] at worker
      exact Or.inr (by simp [worker.2.2.2.1])
  | assigned c =>
      rw [hplace] at worker
      obtain ⟨-, -, ⟨pc, unread⟩, -, down⟩ := worker
      simp [systemStep, WorkerEnd.recv, unread, down, WorkerEnd.handle, workerTaskRecv, pc] at recv
  | working c =>
      rw [hplace] at worker
      obtain ⟨-, -, ⟨-, ⟨pc, unread⟩ | ⟨pc, unread⟩⟩, -⟩ := worker
      · simp [systemStep, WorkerEnd.recv, unread, WorkerEnd.handle, workerTaskRecv, pc] at recv
      · simp [systemStep, WorkerEnd.recv, unread, WorkerEnd.handle, workerTaskRecv, pc] at recv

/-- A client thread that cannot go on has sent something. -/
theorem client_of_stuck (stuck : (attentive peers).Stuck s) {c : Frame}
    (known : c ∈ peers.clients) : (s.client c).task ≠ .start := by
  have send := enabled_of_stuck (e := .clientSend c) stuck trivial
  intro task
  simp [systemStep, known, ClientEnd.send, task] at send

/-- At the poll something can be read, or a thread can go on, or all is done. -/
theorem Attended.not_stuck_of_poll (h : Attended peers os s)
    (related : Simulates peers os s answered a)
    (balanced : Balanced answered a.worker a.client a.ready) (pc : s.broker.pc = .poll) :
    ¬ (attentive peers).Stuck s := by
  intro stuck
  have polls := fun revents => enabled_of_stuck (e := .poll (some revents)) stuck
  have steps (revents : Bool × Bool) :
      (systemStep peers s (.poll (some revents))).isSome := by
    simp [systemStep, SystemState.stepBroker, lbbrokerStep, pc]
  have backend : ¬ s.backendReadable peers = true := by
    intro readable
    exact polls (true, s.frontendReadable peers) ⟨readable.symm, rfl, Or.inl rfl⟩ (steps _)
  have silent : ∀ w ∈ peers.workers, (s.worker w).up = [] := by
    intro w known
    by_contra some_sent
    exact backend (backendReadable_iff.mpr ⟨w, known, some_sent⟩)
  have idle : ∀ w ∈ peers.workers, a.worker w = .idle := by
    intro w known
    exact (related.worker_of_stuck stuck known).resolve_right fun sent => sent (silent w known)
  have available : s.broker.availableWorkers ≠ 0 := by
    have some_worker : 0 < peers.workers.length := by
      rw [peers.workers_length]
      decide
    obtain ⟨w, known⟩ := List.exists_mem_of_length_pos some_worker
    have listed := (balanced.ready_iff w).mpr (idle w known)
    rw [related.queue.1]
    exact Nat.ne_of_gt (List.length_pos_of_mem listed)
  have frontend : ¬ s.frontendReadable peers = true := by
    intro readable
    have nothing : s.backendReadable peers = false := by simpa using backend
    exact polls (false, true) ⟨nothing.symm, readable.symm, Or.inr ⟨available, rfl⟩⟩ (steps _)
  have asked : ∀ c ∈ peers.clients, (s.client c).requests = 0 := by
    intro c known
    have up : (s.client c).up = [] := by
      by_contra some_sent
      exact frontend (frontendReadable_iff.mpr ⟨c, known, some_sent⟩)
    simp [ClientEnd.requests, up, client_of_stuck stuck known]
  have unoccupied : ∀ w ∈ peers.workers, (s.worker w).requests = 0 := by
    intro w known
    have worker := related.worker w
    rw [idle w known] at worker
    obtain ⟨-, ⟨-, unread⟩, up, down⟩ := worker
    simp [WorkerEnd.requests, unread, up, down]
  have none : s.requests peers = 0 := by
    have inHand : s.inHand = 0 := by simp [SystemState.inHand, pc]
    simp [SystemState.requests, List.map_congr_left asked, List.map_congr_left unoccupied, inHand]
  have counted := h.counted
  have missing := h.missing (by simp [pc])
  omega

/-- The broker goes on with any frame where it receives one. -/
theorem isSome_stepBroker_recv {u : SystemState} (frame : Frame) (polls : u.broker.pc ≠ .poll)
    (done : u.broker.pc ≠ .done) (stopped : u.broker.pc ≠ .stopped)
    (aborted : u.broker.pc ≠ .aborted) : (u.stepBroker (.recv (some frame))).isSome := by
  cases pc : u.broker.pc <;> simp_all [SystemState.stepBroker, lbbrokerStep]

/-- While the broker reads a message there is more of it, and when it turns to another
there is one. -/
theorem Attended.done_of_stuck (h : Attended peers os s)
    (related : Simulates peers os s answered a)
    (balanced : Balanced answered a.worker a.client a.ready)
    (stuck : (attentive peers).Stuck s) : s.broker.pc = .done := by
  by_contra undone
  have polls : s.broker.pc ≠ .poll := fun pc => h.not_stuck_of_poll related balanced pc stuck
  have receives := fun frame (u : SystemState) (same : u.broker = s.broker) =>
    isSome_stepBroker_recv (u := u) frame (same ▸ polls) (same ▸ undone) (same ▸ h.running)
      (same ▸ related.ne_aborted)
  have recv := fun peer => enabled_of_stuck (e := .recv peer) stuck trivial
  have backend (frame : Frame) (rest : List Frame) (hpc : s.broker.pc.readsBackend)
      (unread : s.backendUnread = frame :: rest) : False := by
    apply recv []
    simp only [systemStep, hpc, if_true, SystemState.recvBackend, unread]
    exact receives frame _ rfl
  have frontend (frame : Frame) (rest : List Frame) (hpc : s.broker.pc.readsBackend = false)
      (unread : s.frontendUnread = frame :: rest) : False := by
    apply recv []
    simp only [systemStep, hpc, Bool.false_eq_true, if_false, SystemState.recvFrontend, unread]
    exact receives frame _ rfl
  have hand := related.hand
  cases pc : s.broker.pc with
  | done => exact undone pc
  | poll => exact polls pc
  | stopped => exact h.running pc
  | aborted => exact related.ne_aborted pc
  | workerId revents1 =>
      obtain ⟨w, -, some_sent⟩ := backendReadable_iff.mp (h.promised.backend revents1 pc)
      obtain ⟨msg, more, hup⟩ := List.exists_cons_of_ne_nil some_sent
      have unread := (hand.unread (by rw [pc]; rfl)).1
      apply recv w
      simp only [systemStep, pc, LbbrokerPc.readsBackend, if_true, SystemState.recvBackend, unread,
        hup]
      exact receives w _ rfl
  | frontendClientId =>
      have turns := h.promised.frontend (by rw [pc]; rfl)
      obtain ⟨c, -, some_sent⟩ := frontendReadable_iff.mp turns
      obtain ⟨msg, more, hup⟩ := List.exists_cons_of_ne_nil some_sent
      have unread := (hand.unread (by rw [pc]; rfl)).2
      apply recv c
      simp only [systemStep, pc, LbbrokerPc.readsBackend, Bool.false_eq_true, if_false,
        SystemState.recvFrontend, unread, hup]
      exact receives c _ rfl
  | backendEmpty revents1 =>
      simp only [HandAt, pc] at hand
      obtain ⟨-, ⟨w, unread⟩ | ⟨c, w, -, unread⟩⟩ := hand
      · exact backend _ _ (by rw [pc]; rfl) unread
      · exact backend _ _ (by rw [pc]; rfl) unread
  | backendClientId revents1 =>
      simp only [HandAt, pc] at hand
      obtain ⟨-, ⟨w, unread⟩ | ⟨c, w, -, unread⟩⟩ := hand
      · exact backend _ _ (by rw [pc]; rfl) unread
      · exact backend _ _ (by rw [pc]; rfl) unread
  | replyEmpty revents1 =>
      simp only [HandAt, pc] at hand
      obtain ⟨-, c, w, -, -, unread⟩ := hand
      exact backend _ _ (by rw [pc]; rfl) unread
  | reply revents1 =>
      simp only [HandAt, pc] at hand
      obtain ⟨-, c, w, -, -, unread⟩ := hand
      exact backend _ _ (by rw [pc]; rfl) unread
  | requestEmpty =>
      simp only [HandAt, pc] at hand
      obtain ⟨-, c, -, -, unread⟩ := hand
      exact frontend _ _ (by rw [pc]; rfl) unread
  | request =>
      simp only [HandAt, pc] at hand
      obtain ⟨-, c, -, -, unread⟩ := hand
      exact frontend _ _ (by rw [pc]; rfl) unread

end

/-- A client thread has received the reply of a worker, or it is waiting and the reply is the
one message in its channel. -/
def HasReply (peers : Peers) (worker : Frame) (e : ClientEnd) : Prop :=
  e.task = .finished (peers.reply worker) ∨
    e.task = .waiting ∧ e.down = [[[], peers.reply worker]]

/-- The broker has left its loop because no client is missing, and every client thread has
received the reply of a worker that was handed its request. -/
def EveryoneServed (peers : Peers) (os : List LbbrokerEffect) (s : SystemState) : Prop :=
  s.broker.pc = .done ∧ ∀ c ∈ peers.clients, ∃ w ∈ peers.workers, Served peers os c w ∧
    (s.client c).task = .finished (peers.reply w)

section

variable {peers : Peers} {os : List LbbrokerEffect} {s : SystemState} {answered : List Frame}
  {a : State Frame Frame}

/-- A client thread that was answered has received its reply, or will read it next. -/
theorem Attended.hasReply (h : Attended peers os s) {c w : Frame}
    (started : (s.client c).task ≠ .start) (sent : repliesTo c os = [[[], peers.reply w]]) :
    HasReply peers w (s.client c) := by
  have heard := h.heard c
  cases task : (s.client c).task with
  | start => exact absurd task started
  | waiting =>
      simp only [Heard, task, sent] at heard
      exact Or.inr ⟨task, heard⟩
  | finished text =>
      simp only [Heard, task, sent] at heard
      obtain ⟨-, v, rfl, same⟩ := heard
      simp only [List.cons.injEq, and_true, true_and] at same
      exact Or.inl (by rw [task, same])

/-- When no client is missing, each was served and has its reply. -/
theorem Attended.served (h : Attended peers os s) (related : Simulates peers os s answered a)
    (balanced : Balanced answered a.worker a.client a.ready) (none : s.broker.clientNbr = 0)
    {c : Frame} (known : c ∈ peers.clients) :
    ∃ w ∈ peers.workers, Served peers os c w ∧ HasReply peers w (s.client c) := by
  have hmem := related.mem_answered balanced none known
  obtain ⟨w, hw⟩ := (balanced.answered_iff c).mp hmem
  have sent := related.sent c
  have client := related.client c
  rw [hw] at sent client
  exact ⟨w, sent.2.1, ⟨sent.1, sent.2.2⟩, h.hasReply client.2.1 sent.1⟩

/-- A reply that can be read is. -/
theorem HasReply.finished_of_stuck {c w : Frame} (h : HasReply peers w (s.client c))
    (stuck : (attentive peers).Stuck s) : (s.client c).task = .finished (peers.reply w) := by
  have recv := enabled_of_stuck (e := .clientRecv c) stuck trivial
  rcases h with finished | ⟨task, down⟩
  · exact finished
  · simp [systemStep, ClientEnd.recv, task, down] at recv

end

/-- However the threads take their turns, the load balancer and its threads come to an end
after 166 steps at most, when its polls tell the truth. They come to a halt only when the
broker has left its loop, every client has been sent one reply, of a worker that was handed
its request, and has received it. `main` does not wait for its threads, and may end the
process at any time once the loop is left; then every client has its reply already, or the
reply is the one message in its channel. -/
theorem everyone_served (peers : Peers) :
    (attentive peers).Finishes 166 (EveryoneServed peers) ∧
    ∀ es os s, (attentive peers).Run es os s → s.broker.pc = .done →
      ∀ c ∈ peers.clients, ∃ w ∈ peers.workers, Served peers os c w ∧
        HasReply peers w (s.client c) := by
  have left : ∀ es os s, (attentive peers).Run es os s → s.broker.pc = .done →
      ∀ c ∈ peers.clients, ∃ w ∈ peers.workers, Served peers os c w ∧
        HasReply peers w (s.client c) := by
    intro es os s run done c known
    obtain ⟨answered, a, balanced, related⟩ := simulates_of_run run.of_restrict
    have none := clientNbr_of_done run.of_restrict done
    exact (attended_of_run run).1.served related balanced none known
  refine ⟨⟨?_, ?_⟩, left⟩
  · intro es os s run
    have bound := (attended_of_run run).2
    omega
  · intro es os s run stuck
    obtain ⟨answered, a, balanced, related⟩ := simulates_of_run run.of_restrict
    have done := (attended_of_run run).1.done_of_stuck related balanced stuck
    refine ⟨done, fun c known => ?_⟩
    obtain ⟨w, hw, served, reply⟩ := left es os s run done c known
    exact ⟨w, hw, served, reply.finished_of_stuck stuck⟩

/-- One worker serves all the clients in turn, and when the loop is left none of them has
read its reply. -/
theorem everyone_served_unread : ∃ (os : List LbbrokerEffect) (s : SystemState),
    s.broker.pc = .done ∧ ∀ c ∈ Peers.digits.clients, (s.client c).task = .waiting ∧
      ∃ w ∈ Peers.digits.workers, Served .digits os c w ∧ HasReply .digits w (s.client c) := by
  have hexec : ((attentive .digits).exec (attentive .digits).init
      (startsUp (digitId 10) ++
        Peers.digits.clients.flatMap fun c => goesThrough c (digitId 10))).map
      (fun r => (r.1.broker.pc, Peers.digits.clients.all fun c =>
        (r.1.client c).task = .waiting)) = some (.done, true) := by decide +kernel
  obtain ⟨os, s, run, hsee⟩ := Machine.run_of_map_exec hexec
  obtain ⟨done, waiting⟩ := Prod.mk.inj hsee
  refine ⟨os, s, done, fun c known => ⟨?_, (everyone_served .digits).2 _ os s run done c known⟩⟩
  exact of_decide_eq_true (List.all_eq_true.mp waiting c known)

end ZmqTest.Loadbalance
