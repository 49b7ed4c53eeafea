/-
# What a step of the load balancer does

With the balancer that the states stand for, every step of `lbbroker.c` and its
threads has one of a few shapes: a message is sent by a thread, a frame of it is read by
the broker or by a worker, or the last frame of it is read and the next message sent.
Each shape says which channel gets shorter and which gets longer.
-/

import ZmqTest.Loadbalance.Simulation

namespace ZmqTest.Loadbalance

open Balancer

variable {peers : Peers}

/-- The message a worker has sent is taken. -/
def WorkerEnd.emptied (e : WorkerEnd) : WorkerEnd := { e with up := [] }

/-- A worker that has nothing is sent a message. -/
def WorkerEnd.given (e : WorkerEnd) (msg : Zmsg) : WorkerEnd := { e with down := [msg] }

/-- The message a client has sent is taken. -/
def ClientEnd.emptied (e : ClientEnd) : ClientEnd := { e with up := [] }

/-- A client that has nothing is sent a message. -/
def ClientEnd.given (e : ClientEnd) (msg : Zmsg) : ClientEnd := { e with down := [msg] }

/-- The body of a message that a worker sends: a READY, or a reply to a client. -/
def FromWorker (peers : Peers) (w : Frame) (body : List Frame) : Prop :=
  body = [peers.ready w] ∨ ∃ c ∈ peers.clients, body = [c, [], peers.ok w]

/-- A worker thread takes a step: it starts, or it reads a frame of a request, and after
the last one it replies. -/
inductive WorkerMoves (peers : Peers) (w : Frame) (e next : WorkerEnd) : Prop
  | start (before : e.task.pc = .start ∧ e.unread = [] ∧ e.up = [] ∧ e.down = [])
      (after : next.task.pc ≠ .start ∧ next.unread = [] ∧ next.up = [[[], peers.ready w]] ∧
        next.down = [])
  | take (c : Frame)
      (before : e.task.pc ≠ .start ∧ e.unread = [] ∧ e.up = [] ∧
        e.down = [[[], c, [], peers.request c]])
      (after : next.task.pc ≠ .start ∧ next.unread = [[], peers.request c] ∧ next.up = [] ∧
        next.down = [])
  | read (c : Frame)
      (before : e.task.pc ≠ .start ∧ e.unread = [[], peers.request c] ∧ e.up = [] ∧ e.down = [])
      (after : next.task.pc ≠ .start ∧ next.unread = [peers.request c] ∧ next.up = [] ∧
        next.down = [])
  | reply (c : Frame)
      (before : e.task.pc ≠ .start ∧ e.unread = [peers.request c] ∧ e.up = [] ∧ e.down = [])
      (after : next.task.pc ≠ .start ∧ next.unread = [] ∧ next.up = [[[], c, [], peers.ok w]] ∧
        next.down = [])

/-- A step of the broker and what it leaves of the threads. Of the variables of `main`
only the place in the program and the count of clients matter here. -/
inductive BrokerMoves (peers : Peers) (s : SystemState) :
    SystemEvent → SystemState → List LbbrokerEffect → Prop
  | failed (broker : LbbrokerState) (pc : s.broker.pc = .poll) (next : broker.pc = .stopped)
      (count : broker.clientNbr = s.broker.clientNbr) :
      BrokerMoves peers s (.poll none) { s with broker := broker } []
  | poll (revents0 revents1 : Bool) (broker : LbbrokerState) (pc : s.broker.pc = .poll)
      (next : broker.pc = afterPoll (s.broker.availableWorkers ≠ 0) revents0 revents1)
      (count : broker.clientNbr = s.broker.clientNbr) :
      BrokerMoves peers s (.poll (some (revents0, revents1))) { s with broker := broker } []
  | workerId (revents1 : Bool) (w : Frame) (body : List Frame) (broker : LbbrokerState)
      (pc : s.broker.pc = .workerId revents1) (next : broker.pc = .backendEmpty revents1)
      (count : broker.clientNbr = s.broker.clientNbr) (known : w ∈ peers.workers)
      (none : s.backendUnread = []) (sent : (s.worker w).up = [[] :: body])
      (from_worker : FromWorker peers w body) :
      BrokerMoves peers s (.recv w)
        { s with
          broker := broker
          backendUnread := [] :: body
          worker := Function.update s.worker w (s.worker w).emptied } []
  | backendEmpty (peer : Frame) (revents1 : Bool) (w : Frame) (body : List Frame)
      (broker : LbbrokerState) (pc : s.broker.pc = .backendEmpty revents1)
      (next : broker.pc = .backendClientId revents1)
      (count : broker.clientNbr = s.broker.clientNbr) (unread : s.backendUnread = [] :: body)
      (from_worker : FromWorker peers w body) :
      BrokerMoves peers s (.recv peer) { s with broker := broker, backendUnread := body } []
  | ready (peer : Frame) (revents1 : Bool) (w : Frame) (broker : LbbrokerState)
      (pc : s.broker.pc = .backendClientId revents1) (next : broker.pc = afterBackend revents1)
      (count : broker.clientNbr = s.broker.clientNbr) (unread : s.backendUnread = [peers.ready w]) :
      BrokerMoves peers s (.recv peer) { s with broker := broker, backendUnread := [] } []
  | clientId (peer : Frame) (revents1 : Bool) (c w : Frame) (broker : LbbrokerState)
      (pc : s.broker.pc = .backendClientId revents1) (next : broker.pc = .replyEmpty revents1)
      (count : broker.clientNbr = s.broker.clientNbr)
      (unread : s.backendUnread = [c, [], peers.ok w]) :
      BrokerMoves peers s (.recv peer)
        { s with broker := broker, backendUnread := [[], peers.ok w] } []
  | replyEmpty (peer : Frame) (revents1 : Bool) (w : Frame) (broker : LbbrokerState)
      (pc : s.broker.pc = .replyEmpty revents1) (next : broker.pc = .reply revents1)
      (count : broker.clientNbr = s.broker.clientNbr)
      (unread : s.backendUnread = [[], peers.ok w]) :
      BrokerMoves peers s (.recv peer) { s with broker := broker, backendUnread := [peers.ok w] } []
  | reply (peer : Frame) (revents1 : Bool) (c w : Frame) (broker : LbbrokerState)
      (pc : s.broker.pc = .reply revents1)
      (next : broker.pc = if broker.clientNbr = 0 then .done else afterBackend revents1)
      (count : broker.clientNbr = s.broker.clientNbr - 1) (known : c ∈ peers.clients)
      (unread : s.backendUnread = [peers.ok w]) (task : (s.client c).task = .waiting)
      (up : (s.client c).up = []) (down : (s.client c).down = []) :
      BrokerMoves peers s (.recv peer)
        { s with
          broker := broker
          backendUnread := []
          client := Function.update s.client c ((s.client c).given [[], peers.reply w]) }
        [peers.answer w c]
  | frontendClientId (c : Frame) (broker : LbbrokerState) (pc : s.broker.pc = .frontendClientId)
      (next : broker.pc = .requestEmpty) (count : broker.clientNbr = s.broker.clientNbr)
      (known : c ∈ peers.clients) (none : s.frontendUnread = [])
      (task : (s.client c).task = .waiting) (sent : (s.client c).up = [[[], peers.hello c]])
      (down : (s.client c).down = []) :
      BrokerMoves peers s (.recv c)
        { s with
          broker := broker
          frontendUnread := [[], peers.hello c]
          client := Function.update s.client c (s.client c).emptied } []
  | requestEmpty (peer c : Frame) (broker : LbbrokerState) (pc : s.broker.pc = .requestEmpty)
      (next : broker.pc = .request) (count : broker.clientNbr = s.broker.clientNbr)
      (unread : s.frontendUnread = [[], peers.hello c]) :
      BrokerMoves peers s (.recv peer)
        { s with broker := broker, frontendUnread := [peers.hello c] } []
  | request (peer c w : Frame) (broker : LbbrokerState) (pc : s.broker.pc = .request)
      (next : broker.pc = .poll) (count : broker.clientNbr = s.broker.clientNbr)
      (known : w ∈ peers.workers) (unread : s.frontendUnread = [peers.hello c])
      (idle : (s.worker w).task.pc ≠ .start ∧ (s.worker w).unread = [] ∧ (s.worker w).up = [] ∧
        (s.worker w).down = []) :
      BrokerMoves peers s (.recv peer)
        { s with
          broker := broker
          frontendUnread := []
          worker := Function.update s.worker w
            ((s.worker w).given [[], c, [], peers.request c]) }
        [peers.dispatch w c]

/-- The steps of the system. -/
inductive SystemMoves (peers : Peers) (s : SystemState) :
    SystemEvent → SystemState → List LbbrokerEffect → Prop
  | worker (e : SystemEvent) (w : Frame) (next : WorkerEnd) (known : w ∈ peers.workers)
      (moves : WorkerMoves peers w (s.worker w) next) :
      SystemMoves peers s e { s with worker := Function.update s.worker w next } []
  | clientSend (c : Frame) (known : c ∈ peers.clients) (task : (s.client c).task = .start)
      (up : (s.client c).up = []) (down : (s.client c).down = []) :
      SystemMoves peers s (.clientSend c)
        { s with
          client := Function.update s.client c
            { task := .waiting, up := [[[], peers.hello c]], down := [] } } []
  | clientRecv (c w : Frame) (next : ClientEnd) (known : c ∈ peers.clients)
      (up : (s.client c).up = []) (taken : (s.client c).recv = some next) :
      SystemMoves peers s (.clientRecv c)
        { s with client := Function.update s.client c next } []
  | broker {e : SystemEvent} {t : SystemState} {out : List LbbrokerEffect}
      (moves : BrokerMoves peers s e t out) : SystemMoves peers s e t out

section

variable {w : Frame} {e next : WorkerEnd} {place : Place Frame}

theorem WorkerAt.moves_of_start (h : WorkerAt peers w e place) (known : w ∈ peers.workers)
    (taken : e.start peers w = some next) : WorkerMoves peers w e next := by
  obtain ⟨rfl, here⟩ := h.start known taken
  obtain rfl : e = workerEndInit := h
  obtain ⟨-, ⟨hpc, hunread⟩, hup, hdown⟩ := here
  exact .start ⟨rfl, rfl, rfl, rfl⟩ ⟨by simp [hpc], hunread, hup, hdown⟩

theorem WorkerAt.moves_of_recv (h : WorkerAt peers w e place)
    (taken : e.recv peers w = some next) : w ∈ peers.workers ∧ WorkerMoves peers w e next := by
  obtain ⟨c, ⟨rfl, here⟩ | ⟨rfl, -⟩⟩ := h.recv taken
  · obtain ⟨known, -, ⟨hpc, hunread⟩, hup, hdown⟩ := h
    simp only [WorkerEnd.recv, hunread, hdown, WorkerEnd.handle, workerTaskRecv, hpc,
      Option.some.injEq] at taken
    subst next
    exact ⟨known, .take c ⟨by simp [hpc], hunread, hup, hdown⟩ ⟨by simp, rfl, hup, rfl⟩⟩
  · obtain ⟨known, -, ⟨hid, hwork⟩, hup, hdown⟩ := h
    refine ⟨known, ?_⟩
    rcases hwork with ⟨hpc, hunread⟩ | ⟨hpc, hunread⟩
    · simp only [WorkerEnd.recv, hunread, WorkerEnd.handle, workerTaskRecv, hpc,
        Option.some.injEq] at taken
      subst next
      exact .read c ⟨by simp [hpc], hunread, hup, hdown⟩ ⟨by split <;> simp, rfl, hup, hdown⟩
    · simp only [WorkerEnd.recv, hunread, WorkerEnd.handle, workerTaskRecv, hpc,
        Option.some.injEq] at taken
      subst next
      have hok : cstr (okText (peers.buffer w)) = peers.ok w := peers.cstr_ok w
      refine .reply c ⟨by simp [hpc], hunread, hup, hdown⟩ ⟨by simp, rfl, ?_, hdown⟩
      simp [hup, sSendlists, hid, hok]

end

section

variable {os out : List LbbrokerEffect} {s t : SystemState} {answered : List Frame}
  {a : State Frame Frame} {peer : Frame} {revents1 : Bool}

theorem moves_of_poll {rc : Option (Bool × Bool)}
    (taken : s.stepBroker (.poll rc) = some (t, out)) :
    BrokerMoves peers s (.poll rc) t out := by
  cases hpc : s.broker.pc <;> simp only [SystemState.stepBroker, lbbrokerStep, hpc] at taken <;>
    try cases taken
  cases rc with
  | none =>
      cases taken
      exact .failed _ hpc rfl rfl
  | some revents =>
      cases taken
      exact .poll revents.1 revents.2 _ hpc rfl rfl

theorem Simulates.moves_of_workerId (h : Simulates peers os s answered a)
    (balanced : Balanced answered a.worker a.client a.ready)
    (hpc : s.broker.pc = .workerId revents1)
    (taken : s.recvBackend peer = some (t, out)) : BrokerMoves peers s (.recv peer) t out := by
  obtain ⟨hbackend, -⟩ := h.hand.unread (by rw [hpc]; rfl)
  cases hup : (s.worker peer).up with
  | nil => simp [SystemState.recvBackend, hbackend, hup] at taken
  | cons msg more =>
      obtain ⟨rfl, known, -, -, hsent⟩ := (h.worker peer).sends hup
      have busy : a.worker peer ≠ .idle := by
        rcases hsent with ⟨hplace, -⟩ | ⟨c, hplace, -⟩ <;> simp [hplace]
      have hcount : s.broker.availableWorkers < nbrWorkers := by
        rw [h.queue.1]
        exact h.room balanced known busy
      simp only [SystemState.recvBackend, hbackend, hup, SystemState.stepBroker, lbbrokerStep, hpc,
        onWorkerId, if_pos hcount, Option.some.injEq, Prod.mk.injEq] at taken
      obtain ⟨rfl, rfl⟩ := taken
      rcases hsent with ⟨-, rfl⟩ | ⟨c, hplace, rfl⟩
      · exact .workerId revents1 peer _ _ hpc rfl rfl known hbackend hup (Or.inl rfl)
      · have hworker := h.worker peer
        rw [hplace] at hworker
        exact .workerId revents1 peer _ _ hpc rfl rfl known hbackend hup
          (Or.inr ⟨c, hworker.2.1, rfl⟩)

theorem Simulates.moves_of_backendEmpty (h : Simulates peers os s answered a)
    (hpc : s.broker.pc = .backendEmpty revents1)
    (taken : s.recvBackend peer = some (t, out)) : BrokerMoves peers s (.recv peer) t out := by
  have hand := h.hand
  simp only [HandAt, hpc] at hand
  have hbody : ∃ w body, s.backendUnread = [] :: body ∧ FromWorker peers w body := by
    obtain ⟨-, ⟨w, hunread⟩ | ⟨c, w, hc, hunread⟩⟩ := hand
    · exact ⟨w, _, hunread, Or.inl rfl⟩
    · have hclient := h.client c
      rw [hc] at hclient
      exact ⟨w, _, hunread, Or.inr ⟨c, hclient.1, rfl⟩⟩
  obtain ⟨w, body, hunread, from_worker⟩ := hbody
  simp only [SystemState.recvBackend, hunread, SystemState.stepBroker, lbbrokerStep, hpc,
    recvEmpty, Option.some.injEq, Prod.mk.injEq] at taken
  obtain ⟨rfl, rfl⟩ := taken
  exact .backendEmpty peer revents1 w body _ hpc rfl rfl hunread from_worker

theorem Simulates.moves_of_backendClientId (h : Simulates peers os s answered a)
    (hpc : s.broker.pc = .backendClientId revents1)
    (taken : s.recvBackend peer = some (t, out)) : BrokerMoves peers s (.recv peer) t out := by
  have hand := h.hand
  simp only [HandAt, hpc] at hand
  obtain ⟨-, ⟨w, hunread⟩ | ⟨c, w, hc, hunread⟩⟩ := hand
  · simp only [SystemState.recvBackend, hunread, SystemState.stepBroker, lbbrokerStep, hpc,
      onBackendClientId, headD_sRecv, peers.headD_ready, ne_eq, not_true_eq_false, if_false,
      Option.some.injEq, Prod.mk.injEq] at taken
    obtain ⟨rfl, rfl⟩ := taken
    exact .ready peer revents1 w _ hpc rfl rfl hunread
  · have hclient := h.client c
    rw [hc] at hclient
    simp only [SystemState.recvBackend, hunread, SystemState.stepBroker, lbbrokerStep, hpc,
      onBackendClientId, headD_sRecv, ne_eq, (peers.printable_client hclient.1).notWorker,
      not_false_eq_true, if_true, Option.some.injEq, Prod.mk.injEq] at taken
    obtain ⟨rfl, rfl⟩ := taken
    exact .clientId peer revents1 c w _ hpc rfl rfl hunread

theorem Simulates.moves_of_replyEmpty (h : Simulates peers os s answered a)
    (hpc : s.broker.pc = .replyEmpty revents1)
    (taken : s.recvBackend peer = some (t, out)) : BrokerMoves peers s (.recv peer) t out := by
  have hand := h.hand
  simp only [HandAt, hpc] at hand
  obtain ⟨-, c, w, -, -, hunread⟩ := hand
  simp only [SystemState.recvBackend, hunread, SystemState.stepBroker, lbbrokerStep, hpc,
    recvEmpty, Option.some.injEq, Prod.mk.injEq] at taken
  obtain ⟨rfl, rfl⟩ := taken
  exact .replyEmpty peer revents1 w _ hpc rfl rfl hunread

theorem Simulates.moves_of_reply (h : Simulates peers os s answered a)
    (hpc : s.broker.pc = .reply revents1)
    (taken : s.recvBackend peer = some (t, out)) : BrokerMoves peers s (.recv peer) t out := by
  have hand := h.hand
  simp only [HandAt, hpc] at hand
  obtain ⟨-, c, w, hc, hid, hunread⟩ := hand
  have hclient := h.client c
  rw [hc] at hclient
  obtain ⟨known, htask, hup, hdown⟩ := hclient
  have hstarted : (s.client c).task ≠ .start := by simp [htask]
  have hbody : sSendlists [(s.broker.clientId, 0), ([], 0),
      (sRecv s.broker.msg 256 (some (peers.ok w)), 0)] = [c, [], peers.reply w] := by
    simp [sSendlists, hid, Peers.reply]
  simp only [SystemState.recvBackend, hunread, SystemState.stepBroker, lbbrokerStep, hpc,
    onReply, hbody, List.foldl_cons, List.foldl_nil, SystemState.post, if_neg hstarted, hdown,
    List.nil_append, Option.some.injEq, Prod.mk.injEq] at taken
  obtain ⟨rfl, rfl⟩ := taken
  exact .reply peer revents1 c w _ hpc rfl rfl known hunread htask hup hdown

theorem Simulates.moves_of_frontendClientId (h : Simulates peers os s answered a)
    (hpc : s.broker.pc = .frontendClientId)
    (taken : s.recvFrontend peer = some (t, out)) : BrokerMoves peers s (.recv peer) t out := by
  obtain ⟨-, hfrontend⟩ := h.hand.unread (by rw [hpc]; rfl)
  cases hup : (s.client peer).up with
  | nil => simp [SystemState.recvFrontend, hfrontend, hup] at taken
  | cons msg more =>
      obtain ⟨rfl, known, -, rfl, htask, hdown⟩ := (h.client peer).sends hup
      simp only [SystemState.recvFrontend, hfrontend, hup, SystemState.stepBroker, lbbrokerStep,
        hpc, Option.some.injEq, Prod.mk.injEq] at taken
      obtain ⟨rfl, rfl⟩ := taken
      exact .frontendClientId peer _ hpc rfl rfl known hfrontend htask hup hdown

theorem Simulates.moves_of_requestEmpty (h : Simulates peers os s answered a)
    (hpc : s.broker.pc = .requestEmpty)
    (taken : s.recvFrontend peer = some (t, out)) : BrokerMoves peers s (.recv peer) t out := by
  have hand := h.hand
  simp only [HandAt, hpc] at hand
  obtain ⟨-, c, -, -, hunread⟩ := hand
  simp only [SystemState.recvFrontend, hunread, SystemState.stepBroker, lbbrokerStep, hpc,
    recvEmpty, Option.some.injEq, Prod.mk.injEq] at taken
  obtain ⟨rfl, rfl⟩ := taken
  exact .requestEmpty peer c _ hpc rfl rfl hunread

theorem Simulates.moves_of_request (h : Simulates peers os s answered a)
    (balanced : Balanced answered a.worker a.client a.ready) (hpc : s.broker.pc = .request)
    (taken : s.recvFrontend peer = some (t, out)) : BrokerMoves peers s (.recv peer) t out := by
  have hand := h.hand
  have gate := h.gate
  simp only [HandAt, hpc] at hand gate
  obtain ⟨-, c, -, hid, hunread⟩ := hand
  cases hready : a.ready with
  | nil => exact absurd hready (gate rfl)
  | cons w rest =>
      have hidle : a.worker w = .idle := by
        rw [← balanced.ready_iff, hready]
        exact List.mem_cons_self
      have hworker := h.worker w
      rw [hidle] at hworker
      obtain ⟨known, ⟨hwaits, hempty⟩, hup, hdown⟩ := hworker
      have hlength := h.ready_length balanced
      have hqueue := h.queue
      rw [hready] at hlength hqueue
      obtain ⟨hhead, -⟩ := hqueue.pop (Nat.lt_of_lt_of_le hlength (by decide))
      have hstarted : (s.worker w).task.pc ≠ .start := by simp [hwaits]
      have hbody : sSendlists [(w, 0), ([], 0), (s.broker.clientId, 0), ([], 0),
          (sRecv s.broker.msg 256 (some (peers.hello c)), 0)] =
            w :: [[], c, [], peers.request c] := by
        simp [sSendlists, hid, Peers.request, cstr_eq_self (peers.printable_worker known).text]
      simp only [SystemState.recvFrontend, hunread, SystemState.stepBroker, lbbrokerStep, hpc,
        onRequest, hhead, hbody, List.foldl_cons, List.foldl_nil, SystemState.post,
        if_neg hstarted, hdown, List.nil_append, Option.some.injEq, Prod.mk.injEq] at taken
      obtain ⟨rfl, rfl⟩ := taken
      exact .request peer c w _ hpc rfl rfl known hunread ⟨hstarted, hempty, hup, hdown⟩

/-- Every step of the system is one of the listed ones. -/
theorem Simulates.moves {e : SystemEvent} (h : Simulates peers os s answered a)
    (balanced : Balanced answered a.worker a.client a.ready)
    (taken : (system peers).step s e = some (t, out)) : SystemMoves peers s e t out := by
  cases e with
  | workerStart w =>
      simp only [system, systemStep, Option.ite_none_right_eq_some, Option.map_eq_some_iff,
        Prod.mk.injEq] at taken
      obtain ⟨known, next, hstart, rfl, rfl⟩ := taken
      exact .worker _ w next known ((h.worker w).moves_of_start known hstart)
  | workerRecv w =>
      simp only [system, systemStep, Option.map_eq_some_iff, Prod.mk.injEq] at taken
      obtain ⟨next, hrecv, rfl, rfl⟩ := taken
      obtain ⟨known, moves⟩ := (h.worker w).moves_of_recv hrecv
      exact .worker _ w next known moves
  | clientSend c =>
      simp only [system, systemStep, Option.ite_none_right_eq_some, Option.map_eq_some_iff,
        Prod.mk.injEq] at taken
      obtain ⟨known, next, hsend, rfl, rfl⟩ := taken
      have hclient := h.client c
      rw [(hclient.send known hsend).1] at hclient
      have fresh : s.client c = clientEndInit := hclient
      rw [fresh] at hsend
      obtain rfl := Option.some.inj hsend
      exact .clientSend c known (by rw [fresh]; rfl) (by rw [fresh]; rfl) (by rw [fresh]; rfl)
  | clientRecv c =>
      simp only [system, systemStep, Option.map_eq_some_iff, Prod.mk.injEq] at taken
      obtain ⟨next, hrecv, rfl, rfl⟩ := taken
      have hclient := h.client c
      cases hstanding : a.client c with
      | answered w =>
          rw [hstanding] at hclient
          exact .clientRecv c w next hclient.1 hclient.2.2 hrecv
      | away =>
          rw [hstanding] at hclient
          have fresh : s.client c = clientEndInit := hclient
          rw [fresh] at hrecv
          cases hrecv
      | _ =>
          rw [hstanding] at hclient
          simp [ClientEnd.recv, hclient.2.1, hclient.2.2.2] at hrecv
  | poll rc => exact .broker (moves_of_poll taken)
  | recv peer =>
      simp only [system, systemStep] at taken
      apply SystemMoves.broker
      cases hpc : s.broker.pc <;> rw [hpc] at taken
      case workerId revents1 => exact h.moves_of_workerId balanced hpc taken
      case backendEmpty revents1 => exact h.moves_of_backendEmpty hpc taken
      case backendClientId revents1 => exact h.moves_of_backendClientId hpc taken
      case replyEmpty revents1 => exact h.moves_of_replyEmpty hpc taken
      case reply revents1 => exact h.moves_of_reply hpc taken
      case frontendClientId => exact h.moves_of_frontendClientId hpc taken
      case requestEmpty => exact h.moves_of_requestEmpty hpc taken
      case request => exact h.moves_of_request balanced hpc taken
      all_goals
        simp only [LbbrokerPc.readsBackend, Bool.false_eq_true, if_false,
          SystemState.recvFrontend] at taken
        split at taken <;> simp [SystemState.stepBroker, lbbrokerStep, hpc] at taken

end

end ZmqTest.Loadbalance
