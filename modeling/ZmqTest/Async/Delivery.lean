/-
# What is drawn is delivered

What a worker of the server draws for a request is what the client receives, less what is
still under way or in the worker's hands: nothing is lost, and nothing is sent twice. A
request is sixteen steps of the workers and of its client at most, one to take it and three
for each reply. As long as anything is under way such a step can be taken, after two steps of
a client at most: a client that has to send before it polls again sends first.
-/

import Mathlib.Algebra.BigOperators.Group.Finset.Basic
import Mathlib.Data.Fintype.Basic
import ZmqTest.Async.Replies
import ZmqTest.Lib.Progress
import ZmqTest.Randof

namespace ZmqTest.Async

open Pool (Place)

variable {Client Worker : Type}

/-- A worker takes a request or sends a frame, or a client receives a reply. -/
def productive : SystemEvent Client Worker → Bool
  | .clientRecv _ _ => true
  | .workerRecv _ _ _ => true
  | .workerSend _ => true
  | _ => false

def asks : SystemEvent Client Worker → Bool
  | .clientSend _ => true
  | _ => false

/-- A request is taken and has five replies at most; a reply is received. -/
def placeAhead : Place → Nat
  | .posted => 16
  | .answered => 1

/-- A reply is two frames that are sent and one message that is received. -/
def WorkerState.ahead (w : WorkerState) : Nat :=
  match w.pc with
  | .sendIdentity => 3 * (w.replies - w.reply)
  | .sendContent => 3 * (w.replies - w.reply) - 1
  | _ => 0

/-- The replies to a message that a worker has still to send. -/
def WorkerState.owes (w : WorkerState) (msg : Zmsg) : Nat :=
  match w.pc, w.identity, w.content with
  | .sendIdentity, some identity, some content =>
      if [identity, content] = msg then w.replies - w.reply else 0
  | .sendContent, some identity, some content =>
      if [identity, content] = msg then w.replies - w.reply else 0
  | _, _, _ => 0

/-- The ways of all messages in the proxy. -/
def ways (net : Network Place Zmsg) : Nat := (net.map fun packet => placeAhead packet.1).sum

/-- The steps that are still to be taken for what has been asked. -/
def SystemState.ahead [Fintype Worker] (s : SystemState Client Worker) : Nat :=
  ways s.net + Finset.univ.sum fun worker => (s.worker worker).ahead

/-- What a worker is at, between the two frames of a reply or before the first. -/
inductive Works (clients : Clients Client) : WorkerState → Prop
  | recv (identity content : Option Frame) (reply replies : Nat) :
      Works clients ⟨.recv, identity, content, reply, replies, []⟩
  | sendIdentity (client : Client) (content : Frame) {reply replies : Nat}
      (more : reply < replies) :
      Works clients
        ⟨.sendIdentity, some (clients.identity client), some content, reply, replies, []⟩
  | sendContent (client : Client) (content : Frame) {reply replies : Nat}
      (more : reply < replies) :
      Works clients
        ⟨.sendContent, some (clients.identity client), some content, reply, replies,
          [clients.identity client]⟩

/-- Every message names a client, whose content is behind the name. -/
structure Orderly (clients : Clients Client) (s : SystemState Client Worker) : Prop where
  named : ∀ packet ∈ s.net, ∃ client content, packet.2 = [clients.identity client, content]
  works : ∀ worker, Works clients (s.worker worker)

section

variable {clients : Clients Client} {net left new : Network Place Zmsg} {place : Place}
  {msg : Zmsg} {w next : WorkerState} {sent : Option Zmsg}

theorem ways_append : ways (net ++ new) = ways net + ways new := by simp [ways]

theorem ways_singleton : ways [(place, msg)] = placeAhead place := by simp [ways]

theorem ways_of_pick {index : Nat} (found : net.pick place index = some (msg, left)) :
    ways net = placeAhead place + ways left := by
  have sums := ((Network.perm_of_pick found).map fun packet => placeAhead packet.1).sum_eq
  rwa [List.map_cons, List.sum_cons] at sums

/-- At the head of its loop a worker has three steps ahead for each reply. -/
theorem ahead_loop (w : WorkerState) : w.loop.ahead = 3 * (w.replies - w.reply) := by
  unfold WorkerState.loop
  split
  · rfl
  · simp only [WorkerState.ahead]
    omega

theorem works_loop (pc : WorkerPc) (client : Client) (content : Frame) (reply replies : Nat) :
    Works clients (WorkerState.loop
      ⟨pc, some (clients.identity client), some content, reply, replies, []⟩) := by
  by_cases more : reply < replies
  · rw [WorkerState.loop, if_pos more]
    exact .sendIdentity client content more
  · rw [WorkerState.loop, if_neg more]
    exact .recv none none reply replies

/-- A worker that has taken a request has fifteen steps ahead at most. -/
theorem Works.take (h : Works clients w) (pc : w.pc = .recv) (client : Client) (content : Frame)
    (value : Random) :
    Works clients (serverWorkerRecv w [clients.identity client, content] value) ∧
      (serverWorkerRecv w [clients.identity client, content] value).ahead ≤ 15 := by
  have few : randof 5 value ≤ 5 := randof_le_self (by decide) (by decide) value
  cases h with
  | recv identity other reply replies =>
      simp only [serverWorkerRecv, List.head?_cons, List.tail_cons, reduceCtorEq, if_false]
      refine ⟨works_loop _ client content 0 (randof 5 value), ?_⟩
      rw [ahead_loop]
      dsimp only
      omega
  | sendIdentity client content more => cases pc
  | sendContent client content more => cases pc

/-- A worker sends a frame, the second one with the whole reply, which names a client. -/
theorem Works.send (h : Works clients w) (taken : serverWorkerSend w = some (next, sent)) :
    Works clients next ∧
      (sent = none ∧ next.ahead + 1 = w.ahead ∨
        ∃ client content, sent = some [clients.identity client, content] ∧
          next.ahead + 2 = w.ahead) := by
  cases h with
  | recv identity content reply replies => cases taken
  | sendIdentity client content more =>
      cases taken
      refine ⟨.sendContent client content more, Or.inl ⟨rfl, ?_⟩⟩
      simp only [WorkerState.ahead]
      omega
  | sendContent client content more =>
      cases taken
      refine ⟨works_loop _ client content _ _, Or.inr ⟨client, content, rfl, ?_⟩⟩
      rw [ahead_loop]
      simp only [WorkerState.ahead]
      omega

/-- A worker that is not waiting for a request can send. -/
theorem Works.busy (h : Works clients w) (pc : w.pc ≠ .recv) : (serverWorkerSend w).isSome := by
  cases h with
  | recv identity content reply replies => exact absurd rfl pc
  | sendIdentity client content more => rfl
  | sendContent client content more => rfl

theorem Orderly.named_of_pick {s : SystemState Client Worker} (h : Orderly clients s) {index : Nat}
    (found : s.net.pick place index = some (msg, left)) :
    ∃ client content, msg = [clients.identity client, content] :=
  h.named _ (Network.mem_of_pick found)

end

variable [DecidableEq Client] [DecidableEq Worker]

section

variable {clients : Clients Client} {s t : SystemState Client Worker}
  {e : SystemEvent Client Worker} {out : List (SystemOutput Client Worker)}

/-- One worker changes, and with it what is ahead. -/
theorem sum_update [Fintype Worker] (parts : Worker → WorkerState) (worker : Worker)
    (next : WorkerState) :
    (Finset.univ.sum fun other => (Function.update parts worker next other).ahead) +
        (parts worker).ahead =
      (Finset.univ.sum fun other => (parts other).ahead) + next.ahead := by
  have changed := Machine.sum_map_update WorkerState.ahead parts Finset.univ.nodup_toList
    (Finset.mem_toList.mpr (Finset.mem_univ worker)) next
  rwa [Finset.sum_map_toList, Finset.sum_map_toList] at changed

omit [DecidableEq Client] in
theorem works_update (h : ∀ worker, Works clients (s.worker worker)) {worker : Worker}
    {next : WorkerState} (works : Works clients next) (other : Worker) :
    Works clients (Function.update s.worker worker next other) := by
  by_cases heq : other = worker
  · rw [heq, Function.update_self]
    exact works
  · rw [Function.update_of_ne heq]
    exact h other

variable [Fintype Worker]

/-- A step keeps the order, and what is ahead gets less with every productive one; a request
brings sixteen steps. -/
def Advances (clients : Clients Client) (s : SystemState Client Worker)
    (e : SystemEvent Client Worker) (t : SystemState Client Worker) : Prop :=
  Orderly clients t ∧
    t.ahead + (if productive e then 1 else 0) ≤ s.ahead + 16 * if asks e then 1 else 0

theorem Orderly.clientRecv (h : Orderly clients s) {client : Client} {index : Nat}
    (taken : systemStep clients s (.clientRecv client index) = some (t, out)) :
    Advances clients s (.clientRecv client index) t := by
  simp only [systemStep] at taken
  split at taken
  case h_2 => cases taken
  case h_1 c address msg left hrecv found =>
    split at taken
    case isFalse => cases taken
    case isTrue =>
      cases taken
      refine ⟨⟨fun packet hmem => h.named packet (Network.mem_of_mem_pick found hmem), h.works⟩, ?_⟩
      simp only [SystemState.ahead, ways_of_pick found, placeAhead, productive, asks, if_true,
        Bool.false_eq_true, if_false]
      omega

theorem Orderly.clientSend (h : Orderly clients s) {client : Client}
    (taken : systemStep clients s (.clientSend client) = some (t, out)) :
    Advances clients s (.clientSend client) t := by
  simp only [systemStep, Option.map_eq_some_iff] at taken
  obtain ⟨⟨c, body⟩, -, heq⟩ := taken
  cases heq
  refine ⟨⟨fun packet hmem => ?_, h.works⟩, ?_⟩
  · rcases List.mem_append.mp hmem with old | new
    · exact h.named packet old
    · rw [List.mem_singleton.mp new]
      exact ⟨client, body, rfl⟩
  · simp only [SystemState.ahead, Network.send, ways_append, ways_singleton, placeAhead,
      productive, asks, if_true, Bool.false_eq_true, if_false]
    omega

theorem Orderly.workerRecv (h : Orderly clients s) {worker : Worker} {index : Nat}
    {value : Random}
    (taken : systemStep clients s (.workerRecv worker index value) = some (t, out)) :
    Advances clients s (.workerRecv worker index value) t := by
  simp only [systemStep] at taken
  split at taken
  case h_2 => cases taken
  case h_1 msg left pc found =>
    cases taken
    obtain ⟨client, content, rfl⟩ := h.named_of_pick found
    obtain ⟨works, few⟩ := (h.works worker).take pc client content value
    refine ⟨⟨fun packet hmem => h.named packet (Network.mem_of_mem_pick found hmem),
      works_update h.works works⟩, ?_⟩
    have changed := sum_update s.worker worker
      (serverWorkerRecv (s.worker worker) [clients.identity client, content] value)
    simp only [SystemState.ahead, ways_of_pick found, placeAhead, productive, asks, if_true,
      Bool.false_eq_true, if_false]
    omega

theorem Orderly.workerSend (h : Orderly clients s) {worker : Worker}
    (taken : systemStep clients s (.workerSend worker) = some (t, out)) :
    Advances clients s (.workerSend worker) t := by
  simp only [systemStep] at taken
  split at taken
  case h_1 => cases taken
  case h_2 next sent =>
    cases taken
    obtain ⟨works, ⟨-, less⟩ | ⟨client, content, wrong, -⟩⟩ := (h.works worker).send sent
    · have changed := sum_update s.worker worker next
      refine ⟨⟨h.named, works_update h.works works⟩, ?_⟩
      simp only [SystemState.ahead, productive, asks, if_true, Bool.false_eq_true, if_false]
      omega
    · cases wrong
  case h_3 next msg sent =>
    cases taken
    obtain ⟨works, ⟨wrong, -⟩ | ⟨client, content, same, less⟩⟩ := (h.works worker).send sent
    · cases wrong
    · cases same
      have changed := sum_update s.worker worker next
      refine ⟨⟨fun packet hmem => ?_, works_update h.works works⟩, ?_⟩
      · rcases List.mem_append.mp hmem with old | new
        · exact h.named packet old
        · rw [List.mem_singleton.mp new]
          exact ⟨client, content, rfl⟩
      · simp only [SystemState.ahead, Network.send, ways_append, ways_singleton, placeAhead,
          productive, asks, if_true, Bool.false_eq_true, if_false]
        omega

theorem Orderly.step (h : Orderly clients s)
    (taken : (system Worker clients).step s e = some (t, out)) : Advances clients s e t := by
  cases e with
  | clientPoll client revents =>
      simp only [system, systemStep, Option.map_eq_some_iff] at taken
      obtain ⟨c, -, heq⟩ := taken
      cases heq
      exact ⟨⟨h.named, h.works⟩, Nat.le_refl _⟩
  | clientRecv client index => exact h.clientRecv taken
  | clientSend client => exact h.clientSend taken
  | workerRecv worker index value => exact h.workerRecv taken
  | workerSend worker => exact h.workerSend taken

theorem orderly_of_run {es : List (SystemEvent Client Worker)}
    {os : List (SystemOutput Client Worker)} (run : (system Worker clients).Run es os s) :
    Orderly clients s ∧ es.countP productive + s.ahead ≤ 16 * es.countP asks := by
  induction run with
  | start =>
      refine ⟨⟨fun packet hmem => (List.not_mem_nil hmem).elim, fun _ => .recv none none 0 0⟩, ?_⟩
      simp [SystemState.ahead, ways, system, systemInit, workerInit, WorkerState.ahead]
  | @extend es os s t e out prior taken ih =>
      obtain ⟨orderly, bound⟩ := ih
      obtain ⟨next, step⟩ := orderly.step taken
      refine ⟨next, ?_⟩
      rw [List.countP_append, List.countP_append, List.countP_singleton, List.countP_singleton]
      omega

end

/-- A worker or a client can take a step that is ahead, after two steps of a client at most. -/
abbrev MovesOn (clients : Clients Client) (pace : Nat) (s : SystemState Client Worker) : Prop :=
  (system Worker clients).MovesOn productive pace s

section

variable {clients : Clients Client} {s : SystemState Client Worker}

theorem movesOn_of_isSome {e : SystemEvent Client Worker} (own : productive e = true)
    (enabled : (systemStep clients s e).isSome) : MovesOn clients 0 s := by
  obtain ⟨⟨t, out⟩, taken⟩ := Option.isSome_iff_exists.mp enabled
  exact Machine.movesOn_of_step (m := system Worker clients) own taken

/-- A worker that stands at a frame sends it. -/
theorem Orderly.movesOn_of_busy (h : Orderly clients s) {worker : Worker}
    (busy : (s.worker worker).pc ≠ .recv) : MovesOn clients 0 s := by
  obtain ⟨⟨next, sent⟩, hsend⟩ := Option.isSome_iff_exists.mp ((h.works worker).busy busy)
  refine movesOn_of_isSome (e := .workerSend worker) rfl ?_
  cases sent <;> simp [systemStep, hsend]

/-- A request can be taken by any worker that waits for one. -/
theorem Orderly.movesOn_of_posted [Nonempty Worker] (h : Orderly clients s) {msg : Zmsg}
    (hmem : (.posted, msg) ∈ s.net) : MovesOn clients 0 s := by
  obtain ⟨worker⟩ := ‹Nonempty Worker›
  by_cases free : (s.worker worker).pc = .recv
  · obtain ⟨index, left, found⟩ := Network.exists_pick hmem
    exact movesOn_of_isSome (e := .workerRecv worker index 0) rfl
      (by simp [systemStep, free, found])
  · exact h.movesOn_of_busy free

/-- A client that is told of a reply receives it. -/
theorem movesOn_of_poll {client : Client} {n : Nat} {content : Frame}
    (pc : (s.client client).pc = .poll n)
    (hmem : (.answered, [clients.identity client, content]) ∈ s.net) : MovesOn clients 1 s := by
  obtain ⟨index, left, found⟩ := Network.exists_pick hmem
  have polled : (system Worker clients).step s (.clientPoll client true) =
      some ({ s with
          client := Function.update s.client client
            { s.client client with pc := .recv n } }, []) := by
    simp [system, systemStep, clientPoll, pc]
  refine Machine.MovesOn.after (movesOn_of_isSome (e := .clientRecv client index) rfl ?_) rfl polled
  simp [systemStep, Async.clientRecv, found]

/-- A reply reaches its client, which may have to send its next request first. -/
theorem Orderly.movesOn_of_answered (h : Orderly clients s)
    (unfull : ∀ client, (s.client client).requestNbr < 2147483647) {msg : Zmsg}
    (hmem : (.answered, msg) ∈ s.net) : MovesOn clients 2 s := by
  obtain ⟨client, content, rfl⟩ := h.named _ hmem
  cases pc : (s.client client).pc with
  | recv centitick =>
      obtain ⟨index, left, found⟩ := Network.exists_pick hmem
      refine (movesOn_of_isSome (e := .clientRecv client index) rfl ?_).mono (by decide)
      simp [systemStep, Async.clientRecv, pc, found]
  | poll centitick => exact (movesOn_of_poll pc hmem).mono (by decide)
  | send =>
      have sent : (system Worker clients).step s (.clientSend client) =
          some ({ s with
              client := Function.update s.client client
                { pc := .poll 0, requestNbr := (s.client client).requestNbr + 1 }
              net := s.net.send .posted
                [clients.identity client, requestText ((s.client client).requestNbr + 1)] },
            [.requested client (requestText ((s.client client).requestNbr + 1))]) := by
        simp [system, systemStep, Async.clientSend, pc, unfull client]
      refine Machine.MovesOn.after
        (movesOn_of_poll (n := 0) ?_ (List.mem_append_left _ hmem)) rfl sent
      simp

/-- Something is under way or in the hands of a worker. -/
def SystemState.Pending (s : SystemState Client Worker) : Prop :=
  s.net ≠ [] ∨ ∃ worker, (s.worker worker).pc ≠ .recv

theorem Orderly.movesOn [Nonempty Worker] (h : Orderly clients s)
    (unfull : ∀ client, (s.client client).requestNbr < 2147483647) (pending : s.Pending) :
    MovesOn clients 2 s := by
  rcases pending with some_packet | ⟨worker, busy⟩
  · obtain ⟨⟨place, msg⟩, hmem⟩ := List.exists_mem_of_ne_nil s.net some_packet
    cases place with
    | posted => exact (h.movesOn_of_posted hmem).mono (by decide)
    | answered => exact h.movesOn_of_answered unfull hmem
  · exact (h.movesOn_of_busy busy).mono (by decide)

end

/-! ## Where the replies are -/

section

variable {clients : Clients Client} {s : SystemState Client Worker}
  {es : List (SystemEvent Client Worker)} {os : List (SystemOutput Client Worker)}

theorem Holds.count {jobs : List Zmsg} {w : WorkerState} (h : Holds jobs w) (msg : Zmsg) :
    jobs.count msg = w.owes msg := by
  cases h with
  | recv identity content reply replies => rfl
  | sendIdentity identity content reply replies more =>
      simp only [List.count_replicate, beq_iff_eq, WorkerState.owes]
  | sendContent identity content reply replies more =>
      simp only [List.count_replicate, beq_iff_eq, WorkerState.owes]

/-- A request waits for a worker, or one worker has handled it, and the replies that it has
drawn are received, under way, or still to be sent by it. -/
theorem balance_of_run (run : (system Worker clients).Run es os s) {client : Client}
    {body : Frame} (asked : .requested client body ∈ os) :
    handlers clients os client body = [] ∧
        (.posted, [clients.identity client, body]) ∈ s.net ∨
      ∃ worker replies, handlers clients os client body = [(worker, replies)] ∧
        replies = os.count (.received client [body]) +
          (s.net.contents .answered).count [clients.identity client, body] +
          (s.worker worker).owes [clients.identity client, body] := by
  obtain ⟨fs, pool, matched, follows⟩ :=
    run.refine (SystemOutput.entry clients) (fun s pool => Follows clients pool s) Follows.init
      fun _ _ _ _ _ follows taken => follows.step taken
  have once : os.count (.requested client body) = 1 :=
    Nat.le_antisymm ((numbered_of_run run).once client body) (List.count_pos_iff.mpr asked)
  rw [← List.count_map_of_injective os _ (entry_injective clients)] at once
  rw [← List.count_map_of_injective os _ (entry_injective clients)]
  rcases (Pool.tally_of_run matched).balance once with ⟨none, waits⟩ | ⟨taker, only, sum⟩
  · rw [follows.net] at waits
    exact Or.inl ⟨none, waits⟩
  · rw [follows.net] at sum
    refine Or.inr ⟨taker.1, taker.2, only, sum.trans ?_⟩
    congr 2
    · exact List.countP_congr (by simp)
    · exact (List.countP_congr (by simp)).trans ((follows.hands taker.1).count _)

/-- However the clients, the proxy and the workers take their turns, there are sixteen steps
of workers and receives of clients for each request at most, and as long as something is under
way the next one can be taken, after two steps of a client at most. A request waits, or was
handled by one worker, and of the replies which that worker has drawn all are received that
are neither under way nor still to be sent. -/
theorem delivers_what_is_drawn [Fintype Worker] [Nonempty Worker]
    (run : (system Worker clients).Run es os s)
    (unfull : ∀ client, (s.client client).requestNbr < 2147483647) :
    es.countP productive ≤ 16 * es.countP asks ∧ (s.Pending → MovesOn clients 2 s) ∧
      ∀ client body, .requested client body ∈ os →
        handlers clients os client body = [] ∧
            (.posted, [clients.identity client, body]) ∈ s.net ∨
          ∃ worker replies, handlers clients os client body = [(worker, replies)] ∧
            replies = os.count (.received client [body]) +
              (s.net.contents .answered).count [clients.identity client, body] +
              (s.worker worker).owes [clients.identity client, body] := by
  obtain ⟨orderly, bound⟩ := orderly_of_run run
  exact ⟨by omega, orderly.movesOn unfull, fun _ _ asked => balance_of_run run asked⟩

end

/-- A worker has sent one of the two replies that it has drawn for the request of "B". -/
theorem delivers_what_is_drawn_half :
    ∃ os s, (system Bool Clients.pair).Run (crossedRun.take 207) os s ∧
      handlers Clients.pair os true (requestText 1) = [(false, 2)] ∧
      MovesOn Clients.pair 2 s ∧
      2 = os.count (.received true [requestText 1]) +
        (s.net.contents .answered).count [[66], requestText 1] +
        (s.worker false).owes [[66], requestText 1] := by
  have h : ((system Bool Clients.pair).exec (system Bool Clients.pair).init
      (crossedRun.take 207)).map (fun r => (handlers Clients.pair r.2 true (requestText 1),
        decide (.requested true (requestText 1) ∈ r.2), r.1.net.isEmpty,
        (r.1.client false).requestNbr, (r.1.client true).requestNbr)) =
      some ([(false, 2)], true, false, 1, 1) := by decide +kernel
  obtain ⟨os, s, run, hsee⟩ := Machine.run_of_map_exec h
  simp only [Prod.mk.injEq, decide_eq_true_eq] at hsee
  obtain ⟨hhandlers, asked, some_packet, first, second⟩ := hsee
  have unfull : ∀ client, (s.client client).requestNbr < 2147483647 := by
    intro client
    cases client with
    | false => rw [first]; decide
    | true => rw [second]; decide
  have pending : s.Pending := Or.inl (by simpa using some_packet)
  obtain ⟨-, moves, balance⟩ := delivers_what_is_drawn run unfull
  refine ⟨os, s, run, hhandlers, moves pending, ?_⟩
  rcases balance true (requestText 1) asked with ⟨none, -⟩ | ⟨worker, replies, same, sum⟩
  · simp [hhandlers] at none
  · rw [hhandlers] at same
    cases same
    exact sum

end ZmqTest.Async
