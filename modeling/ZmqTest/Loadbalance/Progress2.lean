/-
# How far the message-wise load balancer has come

What is still to be done by `lbbroker2.c` and its threads gets less with every step, when
nothing is interrupted and `zmq_poll` tells the truth. A step sends, takes or passes on a
whole message, or is a poll, which is followed by the receive of one.
-/

import ZmqTest.Lib.Progress
import ZmqTest.Loadbalance.Simulation2

namespace ZmqTest.Loadbalance2

open Balancer
open ZmqTest.Loadbalance (LbbrokerEffect)

/-- Some worker has sent what the broker has not received. -/
def SystemState.backendReadable (s : SystemState) (peers : Peers) : Bool :=
  peers.workers.any fun w => !(s.worker w).up.isEmpty

/-- Some client has. -/
def SystemState.frontendReadable (s : SystemState) (peers : Peers) : Bool :=
  peers.clients.any fun c => !(s.client c).up.isEmpty

/-- `zmq_poll` with no timeout: it tells which of the sockets it is asked for can be read,
and does not return before there is one. No call is interrupted. -/
def Truthful (peers : Peers) (s : SystemState) : SystemEvent → Prop
  | .poll none => False
  | .poll (some (revents0, revents1)) =>
      revents0 = s.backendReadable peers ∧ revents1 = s.frontendReadable peers ∧
        (revents0 ∨ s.broker.workers ≠ [] ∧ revents1)
  | .workerInterrupted _ => False
  | .interrupted => False
  | _ => True

instance (peers : Peers) (s : SystemState) (e : SystemEvent) : Decidable (Truthful peers s e) :=
  match e with
  | .poll none => inferInstanceAs (Decidable False)
  | .poll (some (revents0, revents1)) =>
      inferInstanceAs (Decidable (revents0 = s.backendReadable peers ∧
        revents1 = s.frontendReadable peers ∧
          (revents0 ∨ s.broker.workers ≠ [] ∧ revents1)))
  | .workerInterrupted _ => inferInstanceAs (Decidable False)
  | .interrupted => inferInstanceAs (Decidable False)
  | .workerStart _ => inferInstanceAs (Decidable True)
  | .workerRecv _ => inferInstanceAs (Decidable True)
  | .workerReply _ => inferInstanceAs (Decidable True)
  | .clientSend _ => inferInstanceAs (Decidable True)
  | .clientRecv _ => inferInstanceAs (Decidable True)
  | .recv _ => inferInstanceAs (Decidable True)

/-- The load balancer with its threads, when the poll tells the truth. -/
def attentive (peers : Peers) : Machine SystemState SystemEvent LbbrokerEffect :=
  (system peers).restrict (Truthful peers)

/-- A worker thread whose message has been received. -/
def WorkerEnd.emptied (e : WorkerEnd) : WorkerEnd := { e with up := [] }

/-- A worker thread that has been sent a message. -/
def WorkerEnd.given (e : WorkerEnd) (msg : Zmsg) : WorkerEnd := { e with down := [msg] }

/-- A client thread whose request has been received. -/
def ClientEnd.emptied (e : ClientEnd) : ClientEnd := { e with up := [] }

/-- The steps of the system. -/
inductive SystemMoves (peers : Peers) (s : SystemState) :
    SystemEvent → SystemState → List LbbrokerEffect → Prop
  | workerStart (w : Frame) (known : w ∈ peers.workers) (fresh : s.worker w = workerEndInit) :
      SystemMoves peers s (.workerStart w)
        { s with
          worker := Function.update s.worker w
            { task := .waiting, up := [[[], workerReady]], down := [] } } []
  | workerRecv (w c : Frame) (known : w ∈ peers.workers)
      (assigned : s.worker w = { task := .waiting, up := [], down := [[[], c, [], hello]] }) :
      SystemMoves peers s (.workerRecv w)
        { s with
          worker := Function.update s.worker w
            { task := .working [c, [], hello], up := [], down := [] } } []
  | workerReply (w c : Frame) (known : w ∈ peers.workers)
      (working : s.worker w = { task := .working [c, [], hello], up := [], down := [] }) :
      SystemMoves peers s (.workerReply w)
        { s with
          worker := Function.update s.worker w
            { task := .waiting, up := [[[], c, [], ok]], down := [] } } []
  | clientSend (c : Frame) (known : c ∈ peers.clients) (fresh : s.client c = clientEndInit) :
      SystemMoves peers s (.clientSend c)
        { s with
          client := Function.update s.client c
            { task := .waiting, up := [[[], hello]], down := [] } } []
  | clientRecv (c : Frame) (e : ClientEnd) (taken : (s.client c).recv = some e) :
      SystemMoves peers s (.clientRecv c)
        { s with client := Function.update s.client c e } []
  | poll (revents0 revents1 : Bool) (pc : s.broker.pc = .poll) :
      SystemMoves peers s (.poll (some (revents0, revents1)))
        { s with
          broker := { s.broker with pc := afterPoll s.broker.workers revents0 revents1 } } []
  | ready (w : Frame) (revents1 : Bool) (pc : s.broker.pc = .backend revents1)
      (known : w ∈ peers.workers) (sent : (s.worker w).up = [[[], workerReady]]) :
      SystemMoves peers s (.recv w)
        { s with
          broker := { pc := afterBackend revents1, workers := s.broker.workers ++ [w] }
          worker := Function.update s.worker w (s.worker w).emptied } []
  | reply (w c : Frame) (revents1 : Bool) (pc : s.broker.pc = .backend revents1)
      (known : w ∈ peers.workers) (sent : (s.worker w).up = [[[], c, [], ok]])
      (waits : s.client c = { task := .waiting, up := [], down := [] })
      (told : c.startsWith 1 = false) :
      SystemMoves peers s (.recv w)
        { broker := { pc := afterBackend revents1, workers := s.broker.workers ++ [w] }
          worker := Function.update s.worker w (s.worker w).emptied
          client := Function.update s.client c
            { task := .waiting, up := [], down := [[[], ok]] } }
        [.toFrontend [c, [], ok]]
  | /-- The reply is taken for a READY. -/
    mistaken (w c : Frame) (revents1 : Bool) (pc : s.broker.pc = .backend revents1)
      (known : w ∈ peers.workers) (sent : (s.worker w).up = [[[], c, [], ok]])
      (same : c.startsWith 1 = true) :
      SystemMoves peers s (.recv w)
        { s with
          broker := { pc := afterBackend revents1, workers := s.broker.workers ++ [w] }
          worker := Function.update s.worker w (s.worker w).emptied } []
  | request (c w : Frame) (rest : List Frame) (pc : s.broker.pc = .frontend)
      (sent : (s.client c).up = [[[], hello]]) (ready : s.broker.workers = w :: rest)
      (known : w ∈ peers.workers) (idle : (s.worker w).Waits ∧ (s.worker w).up = [] ∧
        (s.worker w).down = []) :
      SystemMoves peers s (.recv c)
        { broker := { pc := .poll, workers := rest }
          worker := Function.update s.worker w ((s.worker w).given [[], c, [], hello])
          client := Function.update s.client c (s.client c).emptied }
        [.toBackend [w, [], c, [], hello]]

section

variable {peers : Peers} {s t : SystemState} {out : List LbbrokerEffect} {e : SystemEvent}
  {answered : List Frame} {a : State Frame Frame}

theorem Simulates.moves_of_backend (h : Simulates peers s a)
    (balanced : Balanced answered a.worker a.client a.ready) {revents1 : Bool}
    (hpc : s.broker.pc = .backend revents1) {w : Frame} (taken : s.recv w = some (t, out)) :
    SystemMoves peers s (.recv w) t out := by
  simp only [SystemState.recv, hpc] at taken
  split at taken
  case h_1 => cases taken
  case h_2 msg more hup =>
    have here := h.worker w
    obtain ⟨after, ⟨hplace, rfl⟩ | ⟨c, hplace, rfl⟩⟩ := here.sends hup
    · rw [hplace] at here
      obtain ⟨known, -, sent, -⟩ := here
      obtain ⟨-, rfl⟩ := List.cons.inj (hup.symm.trans sent)
      simp only [SystemState.stepBroker, lbbroker2Step, hpc, onBackend_ready, List.foldl_nil,
        Option.some.injEq, Prod.mk.injEq] at taken
      obtain ⟨rfl, rfl⟩ := taken
      exact .ready w revents1 hpc known sent
    · rw [hplace] at here
      obtain ⟨known, -, sent, -⟩ := here
      obtain ⟨-, rfl⟩ := List.cons.inj (hup.symm.trans sent)
      have served := balanced.served w c (by rw [hplace]; rfl)
      have hclient := h.client c
      rw [served] at hclient
      have waits : s.client c = { task := .waiting, up := [], down := [] } := by
        obtain ⟨htask, hup, hdown⟩ := hclient
        cases heq : s.client c
        simp_all
      cases same : c.startsWith 1 with
      | true =>
          simp only [SystemState.stepBroker, lbbroker2Step, hpc, onBackend_reply, same, if_true,
            List.foldl_nil, Option.some.injEq, Prod.mk.injEq] at taken
          obtain ⟨rfl, rfl⟩ := taken
          exact .mistaken w c revents1 hpc known sent same
      | false =>
          have started : (s.client c).task ≠ .start := by simp [waits]
          simp only [SystemState.stepBroker, lbbroker2Step, hpc, onBackend_reply, same,
            Bool.false_eq_true, if_false, List.foldl_cons, List.foldl_nil, SystemState.post,
            if_neg started, Option.some.injEq, Prod.mk.injEq] at taken
          obtain ⟨rfl, rfl⟩ := taken
          have moves := SystemMoves.reply w c revents1 hpc known sent waits same
          simpa [waits, WorkerEnd.emptied] using moves

theorem Simulates.moves_of_frontend (h : Simulates peers s a)
    (balanced : Balanced answered a.worker a.client a.ready) (hpc : s.broker.pc = .frontend)
    {c : Frame} (taken : s.recv c = some (t, out)) : SystemMoves peers s (.recv c) t out := by
  simp only [SystemState.recv, hpc] at taken
  split at taken
  case h_1 => cases taken
  case h_2 msg more hup =>
    have here := h.client c
    obtain ⟨hasking, rfl, -⟩ := here.sends hup
    rw [hasking] at here
    obtain ⟨-, sent, -⟩ := here
    obtain ⟨-, rfl⟩ := List.cons.inj (hup.symm.trans sent)
    cases hready : s.broker.workers with
    | nil => exact absurd hready (h.gate (Or.inr hpc))
    | cons w rest =>
        have hidle : a.worker w = .idle := by
          rw [← balanced.ready_iff, ← h.queue, hready]
          exact List.mem_cons_self
        have idle := h.worker w
        rw [hidle] at idle
        obtain ⟨known, waits, silent, read⟩ := idle
        have started : (s.worker w).task ≠ .start := by
          rcases waits with waits | waits <;> simp [waits]
        simp only [SystemState.stepBroker, lbbroker2Step, hpc, onFrontend, hready, Zmsg.wrap,
          List.foldl_cons, List.foldl_nil, SystemState.post, if_neg started, Option.some.injEq,
          Prod.mk.injEq] at taken
        obtain ⟨rfl, rfl⟩ := taken
        have moves := SystemMoves.request c w rest hpc sent hready known ⟨waits, silent, read⟩
        simpa [read, WorkerEnd.given, ClientEnd.emptied] using moves

/-- Every step of the attentive system is one of the listed ones. -/
theorem Simulates.moves (h : Simulates peers s a)
    (balanced : Balanced answered a.worker a.client a.ready)
    (taken : (attentive peers).step s e = some (t, out)) : SystemMoves peers s e t out := by
  obtain ⟨truthful, taken⟩ := Machine.step_restrict.mp taken
  cases e with
  | workerStart w =>
      simp only [system, systemStep, Option.ite_none_right_eq_some, Option.map_eq_some_iff,
        Prod.mk.injEq] at taken
      obtain ⟨known, e, hstart, rfl, rfl⟩ := taken
      obtain ⟨hplace, -⟩ := (h.worker w).start known hstart
      have fresh := h.worker w
      rw [hplace] at fresh
      obtain rfl : e = { task := .waiting, up := [[[], workerReady]], down := [] } := by
        have before : s.worker w = workerEndInit := fresh
        rw [before] at hstart
        exact (Option.some.inj hstart).symm
      exact .workerStart w known fresh
  | workerRecv w =>
      simp only [system, systemStep, Option.map_eq_some_iff, Prod.mk.injEq] at taken
      obtain ⟨e, hrecv, rfl, rfl⟩ := taken
      obtain ⟨c, hplace, -⟩ := (h.worker w).recv hrecv
      have here := h.worker w
      rw [hplace] at here
      obtain ⟨known, waits, hup, hdown⟩ := here
      have task : (s.worker w).task = .waiting := by
        rcases waits with waits | waits
        · exact waits
        · simp [WorkerEnd.recv, waits] at hrecv
      have assigned : s.worker w =
          { task := .waiting, up := [], down := [[[], c, [], hello]] } := by
        cases heq : s.worker w
        simp_all
      rw [assigned] at hrecv
      obtain rfl := Option.some.inj hrecv
      exact .workerRecv w c known assigned
  | workerReply w =>
      simp only [system, systemStep, Option.map_eq_some_iff, Prod.mk.injEq] at taken
      obtain ⟨e, hreply, rfl, rfl⟩ := taken
      obtain ⟨c, hplace, -⟩ := (h.worker w).reply hreply
      have here := h.worker w
      rw [hplace] at here
      obtain ⟨known, htask, hup, hdown⟩ := here
      have working : s.worker w =
          { task := .working [c, [], hello], up := [], down := [] } := by
        cases heq : s.worker w
        simp_all
      rw [working] at hreply
      obtain rfl := Option.some.inj hreply
      exact .workerReply w c known working
  | clientSend c =>
      simp only [system, systemStep, Option.ite_none_right_eq_some, Option.map_eq_some_iff,
        Prod.mk.injEq] at taken
      obtain ⟨known, e, hsend, rfl, rfl⟩ := taken
      obtain ⟨hstanding, -⟩ := (h.client c).send hsend
      have fresh := h.client c
      rw [hstanding] at fresh
      obtain rfl : e = { task := .waiting, up := [[[], hello]], down := [] } := by
        have before : s.client c = clientEndInit := fresh
        rw [before] at hsend
        exact (Option.some.inj hsend).symm
      exact .clientSend c known fresh
  | clientRecv c =>
      simp only [system, systemStep, Option.map_eq_some_iff, Prod.mk.injEq] at taken
      obtain ⟨e, hrecv, rfl, rfl⟩ := taken
      exact .clientRecv c e hrecv
  | poll rc =>
      cases rc with
      | none => exact truthful.elim
      | some revents =>
          cases hpc : s.broker.pc <;>
            simp only [system, systemStep, SystemState.stepBroker, lbbroker2Step, hpc] at taken <;>
            cases taken
          exact .poll revents.1 revents.2 hpc
  | recv peer =>
      change s.recv peer = some (t, out) at taken
      cases hpc : s.broker.pc with
      | backend revents1 => exact h.moves_of_backend balanced hpc taken
      | frontend => exact h.moves_of_frontend balanced hpc taken
      | _ => simp [SystemState.recv, hpc] at taken
  | workerInterrupted w => exact truthful.elim
  | interrupted => exact truthful.elim

end

/-- The steps that the messages of a worker thread are still good for, with those of the
broker and of the client they come from. A READY is shorter than a reply. -/
def WorkerEnd.ahead (e : WorkerEnd) : Nat :=
  (match e.task with
    | .start => 3
    | .working _ => 4
    | _ => 0) + 5 * e.down.length + (e.up.map fun msg => if msg.length = 2 then 2 else 3).sum

/-- Those of a client thread. -/
def ClientEnd.ahead (e : ClientEnd) : Nat :=
  (if e.task = .start then 8 else 0) + 7 * e.up.length + e.down.length

/-- The poll that comes next; it is counted with the message received before it. -/
def Lbbroker2Pc.ahead : Lbbroker2Pc → Nat
  | .poll => 1
  | _ => 0

/-- The steps that are still to be taken, at most. -/
def SystemState.ahead (s : SystemState) (peers : Peers) : Nat :=
  (peers.workers.map fun w => (s.worker w).ahead).sum +
    (peers.clients.map fun c => (s.client c).ahead).sum + s.broker.pc.ahead

section

variable {peers : Peers} {s t : SystemState} {out : List LbbrokerEffect} {e : SystemEvent}

theorem ahead_afterBackend (revents1 : Bool) : (afterBackend revents1).ahead ≤ 1 := by
  cases revents1 <;> decide

/-- A poll that tells the truth is followed by a receive. -/
theorem Truthful.afterPoll {revents0 revents1 : Bool}
    (h : Truthful peers s (.poll (some (revents0, revents1)))) :
    afterPoll s.broker.workers revents0 revents1 =
      if revents0 then .backend (revents1 && !s.broker.workers.isEmpty) else .frontend := by
  obtain ⟨-, -, rfl | ⟨available, rfl⟩⟩ := h
  · rfl
  · cases revents0 <;> simp [Loadbalance2.afterPoll, available]

theorem ClientEnd.ahead_of_recv {e next : ClientEnd} (h : e.recv = some next) :
    next.ahead < e.ahead := by
  simp only [ClientEnd.recv] at h
  split at h
  case h_1 task down =>
    cases h
    simp [ClientEnd.ahead, task, down]
  case h_2 task down =>
    cases h
    simp [ClientEnd.ahead, task, down]
  case h_3 => cases h

/-- Every step leaves less to do. -/
theorem SystemMoves.ahead_lt (moves : SystemMoves peers s e t out)
    (truthful : Truthful peers s e)
    (known : ∀ c, s.client c ≠ clientEndInit → c ∈ peers.clients) :
    t.ahead peers < s.ahead peers := by
  have worker {w : Frame} (hw : w ∈ peers.workers) :=
    Machine.sum_map_update WorkerEnd.ahead s.worker peers.workers_nodup hw
  have client {c : Frame} (hc : c ∈ peers.clients) :=
    Machine.sum_map_update ClientEnd.ahead s.client peers.clients_nodup hc
  cases moves with
  | workerStart w hw fresh =>
      have sum := worker hw { task := .waiting, up := [[[], workerReady]], down := [] }
      have before : (s.worker w).ahead = 3 := by rw [fresh]; rfl
      have after : (WorkerEnd.mk .waiting [[[], workerReady]] []).ahead = 2 := rfl
      simp only [SystemState.ahead]
      omega
  | workerRecv w c hw assigned =>
      have sum := worker hw { task := .working [c, [], hello], up := [], down := [] }
      have before : (s.worker w).ahead = 5 := by rw [assigned]; rfl
      have after : (WorkerEnd.mk (.working [c, [], hello]) [] []).ahead = 4 := rfl
      simp only [SystemState.ahead]
      omega
  | workerReply w c hw working =>
      have sum := worker hw { task := .waiting, up := [[[], c, [], ok]], down := [] }
      have before : (s.worker w).ahead = 4 := by rw [working]; rfl
      have after : (WorkerEnd.mk .waiting [[[], c, [], ok]] []).ahead = 3 := rfl
      simp only [SystemState.ahead]
      omega
  | clientSend c hc fresh =>
      have sum := client hc { task := .waiting, up := [[[], hello]], down := [] }
      have before : (s.client c).ahead = 8 := by rw [fresh]; rfl
      have after : (ClientEnd.mk .waiting [[[], hello]] []).ahead = 7 := rfl
      simp only [SystemState.ahead]
      omega
  | clientRecv c next taken =>
      have hc : c ∈ peers.clients := by
        apply known
        intro fresh
        rw [fresh] at taken
        cases taken
      have sum := client hc next
      have lower := ClientEnd.ahead_of_recv taken
      simp only [SystemState.ahead]
      omega
  | poll revents0 revents1 pc =>
      have receives : (afterPoll s.broker.workers revents0 revents1).ahead = 0 := by
        rw [truthful.afterPoll]
        cases revents0 <;> rfl
      have before : s.broker.pc.ahead = 1 := by rw [pc]; rfl
      simp only [SystemState.ahead]
      omega
  | ready w revents1 pc hw sent =>
      have sum := worker hw (s.worker w).emptied
      have before : (s.worker w).ahead = (s.worker w).emptied.ahead + 2 := by
        simp [WorkerEnd.ahead, WorkerEnd.emptied, sent]
      have next := ahead_afterBackend revents1
      simp only [SystemState.ahead]
      omega
  | reply w c revents1 pc hw sent waits told =>
      have hc : c ∈ peers.clients := known c (by simp [waits, clientEndInit])
      have sum := worker hw (s.worker w).emptied
      have others := client hc { task := .waiting, up := [], down := [[[], ok]] }
      have before : (s.worker w).ahead = (s.worker w).emptied.ahead + 3 := by
        simp [WorkerEnd.ahead, WorkerEnd.emptied, sent]
      have waiting : (s.client c).ahead = 0 := by rw [waits]; rfl
      have told : (ClientEnd.mk .waiting [] [[[], ok]]).ahead = 1 := rfl
      have next := ahead_afterBackend revents1
      simp only [SystemState.ahead]
      omega
  | mistaken w c revents1 pc hw sent same =>
      have sum := worker hw (s.worker w).emptied
      have before : (s.worker w).ahead = (s.worker w).emptied.ahead + 3 := by
        simp [WorkerEnd.ahead, WorkerEnd.emptied, sent]
      have next := ahead_afterBackend revents1
      simp only [SystemState.ahead]
      omega
  | request c w rest pc sent ready hw idle =>
      obtain ⟨-, up, down⟩ := idle
      have hc : c ∈ peers.clients := by
        apply known
        intro fresh
        rw [fresh] at sent
        cases sent
      have sum := worker hw ((s.worker w).given [[], c, [], hello])
      have others := client hc (s.client c).emptied
      have after : ((s.worker w).given [[], c, [], hello]).ahead =
          (s.worker w).ahead + 5 := by
        simp [WorkerEnd.ahead, WorkerEnd.given, up, down]
      have before : (s.client c).ahead = (s.client c).emptied.ahead + 7 := by
        have same : (s.client c).emptied.task = (s.client c).task := rfl
        rw [ClientEnd.ahead, ClientEnd.ahead, same, sent]
        simp only [ClientEnd.emptied, List.length_singleton, List.length_nil]
        omega
      have receives : s.broker.pc.ahead = 0 := by rw [pc]; rfl
      have poll : Lbbroker2Pc.poll.ahead = 1 := rfl
      simp only [SystemState.ahead]
      omega

end

end ZmqTest.Loadbalance2
