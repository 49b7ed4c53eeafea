/-
# How far the threads of the load balancer have come

Every step of `lbbroker.c` and its threads moves one frame, so what is still to be moved
gets less; and a request goes from its client through the broker to a worker and comes
back as a reply, so that those which are somewhere on the way are as many as
`client_nbr`. Both are sums over the threads, and hold when `zmq_poll` tells the truth.
-/

import ZmqTest.Lib.Progress
import ZmqTest.Loadbalance.Moves

namespace ZmqTest.Loadbalance

open Balancer

/-- Some worker has sent what the broker has not begun to read. -/
def SystemState.backendReadable (s : SystemState) (peers : Peers) : Bool :=
  peers.workers.any fun w => !(s.worker w).up.isEmpty

/-- Some client has. -/
def SystemState.frontendReadable (s : SystemState) (peers : Peers) : Bool :=
  peers.clients.any fun c => !(s.client c).up.isEmpty

/-- `zmq_poll` with no timeout: it does not fail, tells which of the sockets it is asked
for can be read, and does not return before there is one. -/
def Truthful (peers : Peers) (s : SystemState) : SystemEvent → Prop
  | .poll none => False
  | .poll (some (revents0, revents1)) =>
      revents0 = s.backendReadable peers ∧ revents1 = s.frontendReadable peers ∧
        (revents0 ∨ s.broker.availableWorkers ≠ 0 ∧ revents1)
  | _ => True

instance (peers : Peers) (s : SystemState) (e : SystemEvent) : Decidable (Truthful peers s e) :=
  match e with
  | .poll none => inferInstanceAs (Decidable False)
  | .poll (some (revents0, revents1)) =>
      inferInstanceAs (Decidable (revents0 = s.backendReadable peers ∧
        revents1 = s.frontendReadable peers ∧
          (revents0 ∨ s.broker.availableWorkers ≠ 0 ∧ revents1)))
  | .workerStart _ => inferInstanceAs (Decidable True)
  | .workerRecv _ => inferInstanceAs (Decidable True)
  | .clientSend _ => inferInstanceAs (Decidable True)
  | .clientRecv _ => inferInstanceAs (Decidable True)
  | .recv _ => inferInstanceAs (Decidable True)

/-- The load balancer with its threads, when the poll tells the truth. -/
def attentive (peers : Peers) : Machine SystemState SystemEvent LbbrokerEffect :=
  (system peers).restrict (Truthful peers)

/-- The frames a worker thread has still to move, with those the broker will have to. -/
def WorkerEnd.ahead (e : WorkerEnd) : Nat :=
  (if e.task.pc = .start then 5 else 0) + 9 * e.down.length +
    (if e.unread = [] then 0 else e.unread.length + 6) +
      (e.up.map fun msg => msg.length + 2).sum

/-- The frames for the request and the reply of a client thread. -/
def ClientEnd.ahead (e : ClientEnd) : Nat :=
  (match e.task with
    | .start => 15
    | .waiting => 1
    | .finished _ => 0) + 13 * e.up.length

/-- The next poll, when it is not the first frame of a message that is read next. -/
def LbbrokerPc.ahead : LbbrokerPc → Nat
  | .workerId _ => 0
  | .frontendClientId => 0
  | .done => 0
  | _ => 1

/-- The steps that are still to be taken, at most. -/
def SystemState.ahead (s : SystemState) (peers : Peers) : Nat :=
  (peers.workers.map fun w => (s.worker w).ahead).sum +
    (peers.clients.map fun c => (s.client c).ahead).sum + s.backendUnread.length +
      (if s.frontendUnread = [] then 0 else s.frontendUnread.length + 9) + s.broker.pc.ahead

/-- The requests and replies a worker thread has. -/
def WorkerEnd.requests (e : WorkerEnd) : Nat :=
  e.down.length + (if e.unread = [] then 0 else 1) + e.up.countP fun msg => msg.length = 4

/-- The requests a client thread has not sent or the broker has not begun to read. -/
def ClientEnd.requests (e : ClientEnd) : Nat :=
  (if e.task = .start then 1 else 0) + e.up.length

/-- The request or the reply the broker is reading; a READY is shorter than a reply. -/
def SystemState.inHand (s : SystemState) : Nat :=
  match s.broker.pc with
  | .backendEmpty _ => if s.backendUnread.length = 4 then 1 else 0
  | .backendClientId _ => if s.backendUnread.length = 3 then 1 else 0
  | .replyEmpty _ => 1
  | .reply _ => 1
  | .requestEmpty => 1
  | .request => 1
  | _ => 0

/-- The requests that the broker has not answered. -/
def SystemState.requests (s : SystemState) (peers : Peers) : Nat :=
  (peers.workers.map fun w => (s.worker w).requests).sum +
    (peers.clients.map fun c => (s.client c).requests).sum + s.inHand

section

variable {peers : Peers} {s t : SystemState} {out : List LbbrokerEffect}

/-- A worker thread moves a frame, and the request or reply that it has. -/
theorem WorkerMoves.measured {w : Frame} {e next : WorkerEnd} (h : WorkerMoves peers w e next) :
    next.ahead < e.ahead ∧ next.requests = e.requests := by
  cases h with
  | start before after =>
      obtain ⟨⟨pc, unread, up, down⟩, pc', unread', up', down'⟩ := And.intro before after
      simp [WorkerEnd.ahead, WorkerEnd.requests, pc, unread, up, down, pc', unread', up', down']
  | take c before after =>
      obtain ⟨⟨pc, unread, up, down⟩, pc', unread', up', down'⟩ := And.intro before after
      simp [WorkerEnd.ahead, WorkerEnd.requests, pc, unread, up, down, pc', unread', up', down']
  | read c before after =>
      obtain ⟨⟨pc, unread, up, down⟩, pc', unread', up', down'⟩ := And.intro before after
      simp [WorkerEnd.ahead, WorkerEnd.requests, pc, unread, up, down, pc', unread', up', down']
  | reply c before after =>
      obtain ⟨⟨pc, unread, up, down⟩, pc', unread', up', down'⟩ := And.intro before after
      simp [WorkerEnd.ahead, WorkerEnd.requests, pc, unread, up, down, pc', unread', up', down']

/-- What a worker has sent, as the broker will read it. -/
theorem FromWorker.length {w : Frame} {body : List Frame} (h : FromWorker peers w body) :
    body.length = 1 ∨ body.length = 3 := by
  rcases h with rfl | ⟨c, -, rfl⟩
  · exact Or.inl rfl
  · exact Or.inr rfl

theorem ahead_afterBackend (revents1 : Bool) : (afterBackend revents1).ahead ≤ 1 := by
  cases revents1 <;> decide

theorem inHand_afterBackend {revents1 : Bool} (hpc : s.broker.pc = afterBackend revents1) :
    s.inHand = 0 := by
  cases revents1 <;> simp [SystemState.inHand, hpc, afterBackend]

theorem inHand_afterPoll {available revents0 revents1 : Bool}
    (hpc : s.broker.pc = afterPoll available revents0 revents1) : s.inHand = 0 := by
  cases available <;> cases revents0 <;> cases revents1 <;>
    simp [SystemState.inHand, hpc, afterPoll]

/-- The broker moves a frame, and the request or reply that it reads. -/
structure Measured (peers : Peers) (s t : SystemState) : Prop where
  ahead : t.ahead peers < s.ahead peers
  requests : (t.requests peers : Int) - t.broker.clientNbr =
    s.requests peers - s.broker.clientNbr

theorem BrokerMoves.measured {e : SystemEvent} (h : BrokerMoves peers s e t out)
    (truthful : Truthful peers s e) : Measured peers s t := by
  cases h with
  | failed broker pc next count => exact absurd truthful id
  | poll revents0 revents1 broker pc next count =>
      have before : s.inHand = 0 := by simp [SystemState.inHand, pc]
      have after : SystemState.inHand { s with broker := broker } = 0 := inHand_afterPoll next
      have polls : s.broker.pc.ahead = 1 := by rw [pc]; rfl
      have found : broker.pc.ahead = 0 := by
        obtain ⟨-, -, readable | ⟨available, readable⟩⟩ := truthful
        · simp [next, afterPoll, readable, LbbrokerPc.ahead]
        · cases revents0 <;> simp [next, afterPoll, available, readable, LbbrokerPc.ahead]
      constructor
      · simp only [SystemState.ahead, found, polls]
        omega
      · simp only [SystemState.requests, before, after, count]
  | workerId revents1 w body broker pc next count known none sent from_worker =>
      have ahead := Machine.sum_map_update WorkerEnd.ahead s.worker peers.workers_nodup known
        (s.worker w).emptied
      have requests := Machine.sum_map_update WorkerEnd.requests s.worker peers.workers_nodup
        known (s.worker w).emptied
      have frames : (s.worker w).ahead = (s.worker w).emptied.ahead + (body.length + 3) := by
        rw [WorkerEnd.ahead, sent]
        rfl
      have reply : (s.worker w).requests =
          (s.worker w).emptied.requests + if body.length + 1 = 4 then 1 else 0 := by
        have frame :
            (decide (([] :: body : List Frame).length = 4) = true) = (body.length + 1 = 4) :=
          decide_eq_true_eq
        rw [WorkerEnd.requests, sent, List.countP_singleton]
        simp only [frame]
        rfl
      constructor
      · simp only [SystemState.ahead, pc, next, none, LbbrokerPc.ahead, List.length_cons,
          List.length_nil]
        omega
      · simp only [SystemState.requests, SystemState.inHand, pc, next, count, List.length_cons]
        omega
  | backendEmpty peer revents1 w body broker pc next count unread from_worker =>
      constructor
      · simp [SystemState.ahead, pc, next, unread, LbbrokerPc.ahead]
      · simp [SystemState.requests, SystemState.inHand, pc, next, count, unread]
  | ready peer revents1 w broker pc next count unread =>
      have polls := ahead_afterBackend revents1
      have reads : s.broker.pc.ahead = 1 := by rw [pc]; rfl
      have before : s.inHand = 0 := by simp [SystemState.inHand, pc, unread]
      have after : SystemState.inHand { s with broker := broker, backendUnread := [] } = 0 :=
        inHand_afterBackend next
      constructor
      · simp only [SystemState.ahead, reads, next, unread, List.length_singleton, List.length_nil]
        omega
      · simp only [SystemState.requests, before, after, count]
  | clientId peer revents1 c w broker pc next count unread =>
      constructor
      · simp [SystemState.ahead, pc, next, unread, LbbrokerPc.ahead]
      · simp [SystemState.requests, SystemState.inHand, pc, next, count, unread]
  | replyEmpty peer revents1 w broker pc next count unread =>
      constructor
      · simp [SystemState.ahead, pc, next, unread, LbbrokerPc.ahead]
      · simp [SystemState.requests, SystemState.inHand, pc, next, count]
  | reply peer revents1 c w broker pc next count known unread task up down =>
      have ahead := Machine.sum_map_update ClientEnd.ahead s.client peers.clients_nodup known
        ((s.client c).given [[], peers.reply w])
      have requests := Machine.sum_map_update ClientEnd.requests s.client peers.clients_nodup
        known ((s.client c).given [[], peers.reply w])
      have same : ((s.client c).given [[], peers.reply w]).ahead = (s.client c).ahead := rfl
      have none : ((s.client c).given [[], peers.reply w]).requests = (s.client c).requests := rfl
      have reads : s.broker.pc.ahead = 1 := by rw [pc]; rfl
      have before : s.inHand = 1 := by simp [SystemState.inHand, pc]
      have polls : broker.pc.ahead ≤ 1 := by
        rw [next]
        split
        · exact Nat.zero_le 1
        · exact ahead_afterBackend revents1
      have after : SystemState.inHand
          { s with
            broker := broker
            backendUnread := []
            client := Function.update s.client c ((s.client c).given [[], peers.reply w]) } =
          0 := by
        split at next
        · simp [SystemState.inHand, next]
        · exact inHand_afterBackend next
      constructor
      · simp only [SystemState.ahead, reads, unread, List.length_singleton, List.length_nil]
        omega
      · simp only [SystemState.requests, before, after, count]
        omega
  | frontendClientId c broker pc next count known none task sent down =>
      have ahead := Machine.sum_map_update ClientEnd.ahead s.client peers.clients_nodup known
        (s.client c).emptied
      have requests := Machine.sum_map_update ClientEnd.requests s.client peers.clients_nodup
        known (s.client c).emptied
      have frames : (s.client c).ahead = (s.client c).emptied.ahead + 13 := by
        simp [ClientEnd.ahead, ClientEnd.emptied, task, sent]
      have request : (s.client c).requests = (s.client c).emptied.requests + 1 := by
        simp [ClientEnd.requests, ClientEnd.emptied, task, sent]
      constructor
      · simp [SystemState.ahead, pc, next, none, LbbrokerPc.ahead]
        omega
      · simp only [SystemState.requests, SystemState.inHand, pc, next, count]
        omega
  | requestEmpty peer c broker pc next count unread =>
      constructor
      · simp [SystemState.ahead, pc, next, unread, LbbrokerPc.ahead]
      · simp [SystemState.requests, SystemState.inHand, pc, next, count]
  | request peer c w broker pc next count known unread idle =>
      obtain ⟨started, read, up, down⟩ := idle
      have ahead := Machine.sum_map_update WorkerEnd.ahead s.worker peers.workers_nodup known
        ((s.worker w).given [[], c, [], peers.request c])
      have requests := Machine.sum_map_update WorkerEnd.requests s.worker peers.workers_nodup
        known ((s.worker w).given [[], c, [], peers.request c])
      have frames : ((s.worker w).given [[], c, [], peers.request c]).ahead =
          (s.worker w).ahead + 9 := by
        simp [WorkerEnd.ahead, WorkerEnd.given, started, read, up, down]
      have request : ((s.worker w).given [[], c, [], peers.request c]).requests =
          (s.worker w).requests + 1 := by
        simp [WorkerEnd.requests, WorkerEnd.given, read, up, down]
      constructor
      · simp [SystemState.ahead, pc, next, unread, LbbrokerPc.ahead]
        omega
      · simp only [SystemState.requests, SystemState.inHand, pc, next, count]
        omega

end

end ZmqTest.Loadbalance
