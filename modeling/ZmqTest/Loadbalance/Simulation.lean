/-
# The frame-by-frame load balancer balances

The steps of the broker keep the relation to the abstract balancer. A worker is
registered, or its reply collected, with the first frame of its message, and its
client is answered with the last one; a request is held with its first frame and
assigned with its last. The bound on the array and the worker the frontend
branch takes from it come from the invariant of the balancer.
-/

import Mathlib.Data.List.Perm.Subperm
import ZmqTest.Loadbalance.Relation

namespace ZmqTest.Loadbalance

open Balancer

theorem QueueAt.push {available : Nat} {queue : List (Option (List UInt8))}
    {ready : List Frame} (h : QueueAt available queue ready) (room : ready.length < 10)
    (w : Frame) :
    QueueAt (available + 1) (queue.set available (some w)) (ready ++ [w]) := by
  obtain ⟨rfl, rfl⟩ := h
  have hlength : (ready.map some : List (Option (List UInt8))).length ≤ ready.length := by simp
  obtain ⟨left, hleft⟩ : ∃ left, 10 - ready.length = left + 1 := ⟨9 - ready.length, by omega⟩
  have hrest : 10 - (ready ++ [w]).length = left := by
    rw [List.length_append, List.length_singleton]
    omega
  refine ⟨by simp, ?_⟩
  rw [List.set_append_right _ _ hlength, hleft, hrest]
  simp [List.replicate_succ]

theorem dequeue_append_singleton (first last : Option (List UInt8))
    (queue : List (Option (List UInt8))) :
    dequeue ((first :: queue) ++ [last]) = queue ++ [last, last] := by
  simp [dequeue]

theorem QueueAt.pop {available : Nat} {queue : List (Option (List UInt8))} {w : Frame}
    {ready : List Frame} (h : QueueAt available queue (w :: ready)) (room : ready.length < 9) :
    queue.head?.join = some w ∧ QueueAt (available - 1) (dequeue queue) ready := by
  obtain ⟨rfl, rfl⟩ := h
  obtain ⟨left, hleft⟩ : ∃ left, 10 - (w :: ready).length = left + 1 :=
    ⟨8 - ready.length, by rw [List.length_cons]; omega⟩
  have hrest : 10 - ready.length = left + 2 := by
    rw [List.length_cons] at hleft
    omega
  refine ⟨rfl, rfl, ?_⟩
  have hqueue : (w :: ready).map some ++ List.replicate (left + 1) none =
      ((w :: ready).map some ++ List.replicate left none) ++ [none] := by
    rw [List.replicate_succ', List.append_assoc]
  have htwo : List.replicate (left + 2) (none : Option (List UInt8)) =
      List.replicate left none ++ [none, none] := List.replicate_add _ _ _
  rw [hleft, hrest, hqueue, htwo, ← List.append_assoc]
  exact dequeue_append_singleton _ _ _

section

variable {peers : Peers} {os out : List LbbrokerEffect} {s t : SystemState}
  {answered : List Frame} {a : State Frame Frame}

/-- Whatever place a worker is in, it is one of those started or it is away. -/
theorem WorkerAt.known {w : Frame} {e : WorkerEnd} {place : Place Frame}
    (h : WorkerAt peers w e place) (started : place ≠ .away) : w ∈ peers.workers := by
  cases place with
  | away => exact absurd rfl started
  | _ => exact h.1

theorem Simulates.ready_subset (h : Simulates peers os s answered a)
    (balanced : Balanced answered a.worker a.client a.ready) : a.ready ⊆ peers.workers := by
  intro w hmem
  apply (h.worker w).known
  rw [(balanced.ready_iff w).mp hmem]
  exact nofun

/-- While a worker is not listed there is room for it. -/
theorem Simulates.room (h : Simulates peers os s answered a)
    (balanced : Balanced answered a.worker a.client a.ready) {w : Frame}
    (known : w ∈ peers.workers) (busy : a.worker w ≠ .idle) :
    a.ready.length < nbrWorkers := by
  have hnot : w ∉ a.ready := fun hmem => busy ((balanced.ready_iff w).mp hmem)
  have hnodup : (w :: a.ready).Nodup := List.nodup_cons.mpr ⟨hnot, balanced.ready_nodup⟩
  have hsubset : w :: a.ready ⊆ peers.workers :=
    List.cons_subset.mpr ⟨known, h.ready_subset balanced⟩
  have hle := (List.subperm_of_subset hnodup hsubset).length_le
  rw [peers.workers_length] at hle
  exact hle

theorem Simulates.ready_length (h : Simulates peers os s answered a)
    (balanced : Balanced answered a.worker a.client a.ready) :
    a.ready.length ≤ nbrWorkers := by
  have hle := (List.subperm_of_subset balanced.ready_nodup (h.ready_subset balanced)).length_le
  rw [peers.workers_length] at hle
  exact hle

theorem needsWorker_afterPoll {available revents0 revents1 : Bool}
    (h : (afterPoll available revents0 revents1).needsWorker) : available := by
  cases available <;> cases revents0 <;> cases revents1 <;> simp_all [afterPoll,
    LbbrokerPc.needsWorker]

theorem afterPoll_atRest (available revents0 revents1 : Bool) :
    (afterPoll available revents0 revents1).atRest := by
  cases available <;> cases revents0 <;> cases revents1 <;> rfl

theorem afterBackend_atRest (revents1 : Bool) : (afterBackend revents1).atRest := by
  cases revents1 <;> rfl

theorem needsWorker_afterBackend {revents1 : Bool} (h : (afterBackend revents1).needsWorker) :
    revents1 := by
  cases revents1 with
  | false => cases h
  | true => rfl

theorem Simulates.poll (h : Simulates peers os s answered a) {rc : Option (Bool × Bool)}
    (taken : s.stepBroker (.poll rc) = some (t, out)) : Matched peers (os ++ out) t answered a := by
  cases hpc : s.broker.pc <;> simp only [SystemState.stepBroker, lbbrokerStep, hpc] at taken <;>
    try cases taken
  have unread := h.hand.unread (by rw [hpc]; rfl)
  apply Matched.silent
  cases rc with
  | none =>
      cases taken
      rw [List.append_nil]
      have gate : LbbrokerPc.stopped.needsWorker → a.ready ≠ [] :=
        fun needs => absurd needs Bool.false_ne_true
      exact ⟨h.worker, h.client, h.queue, gate, handAt_of_atRest rfl unread, h.count, h.sent⟩
  | some revents =>
      obtain ⟨revents0, revents1⟩ := revents
      cases taken
      rw [List.append_nil]
      refine ⟨h.worker, h.client, h.queue, ?_, ?_, h.count, h.sent⟩
      · intro needs hnil
        have available := needsWorker_afterPoll needs
        simp [h.queue.1, hnil] at available
      · exact handAt_of_atRest (afterPoll_atRest _ _ _) unread

/-! ## The backend branch -/

/-- What a worker sends is its READY or its reply. -/
theorem WorkerAt.sends {w : Frame} {e : WorkerEnd} {place : Place Frame}
    (h : WorkerAt peers w e place) {msg : Zmsg} {more : List Zmsg} (hup : e.up = msg :: more) :
    more = [] ∧ w ∈ peers.workers ∧ e.Waits ∧ e.down = [] ∧
      (place = .announcing ∧ msg = [[], peers.ready w] ∨
        ∃ c, place = .replying c ∧ msg = [[], c, [], peers.ok w]) := by
  cases place with
  | away =>
      obtain rfl : e = workerEndInit := h
      cases hup
  | announcing =>
      obtain ⟨known, hwaits, hsent, hdown⟩ := h
      obtain ⟨rfl, rfl⟩ := List.cons.inj (hup.symm.trans hsent)
      exact ⟨rfl, known, hwaits, hdown, Or.inl ⟨rfl, rfl⟩⟩
  | replying c =>
      obtain ⟨known, -, hwaits, hsent, hdown⟩ := h
      obtain ⟨rfl, rfl⟩ := List.cons.inj (hup.symm.trans hsent)
      exact ⟨rfl, known, hwaits, hdown, Or.inr ⟨c, rfl, rfl⟩⟩
  | idle => simp [h.2.2.1] at hup
  | assigned c => simp [h.2.2.2.1] at hup
  | working c => simp [h.2.2.2.1] at hup

/-- What a client sends is its request. -/
theorem ClientAt.sends {c : Frame} {e : ClientEnd} {standing : Standing Frame}
    (h : ClientAt peers c e standing) {msg : Zmsg} {more : List Zmsg}
    (hup : e.up = msg :: more) :
    more = [] ∧ c ∈ peers.clients ∧ standing = .asking ∧ msg = [[], peers.hello c] ∧
      e.task = .waiting ∧ e.down = [] := by
  cases standing with
  | away =>
      obtain rfl : e = clientEndInit := h
      cases hup
  | asking =>
      obtain ⟨known, htask, hsent, hdown⟩ := h
      obtain ⟨rfl, rfl⟩ := List.cons.inj (hup.symm.trans hsent)
      exact ⟨rfl, known, rfl, rfl, htask, hdown⟩
  | held => simp [h.2.2.1] at hup
  | served w => simp [h.2.2.1] at hup
  | returning w => simp [h.2.2.1] at hup
  | answered w => simp [h.2.2] at hup

theorem clientAt_update {client : Frame → ClientEnd} {standing : Frame → Standing Frame}
    {c : Frame} {after : Standing Frame} (h : ∀ d, ClientAt peers d (client d) (standing d))
    (new : ClientAt peers c (client c) after) :
    ∀ d, ClientAt peers d (client d) (Function.update standing c after d) :=
  (Function.forall_update_iff standing fun d st => ClientAt peers d (client d) st).mpr
    ⟨new, fun d _ => h d⟩

/-- The first frame of a READY or of a reply: its sender joins the list. -/
theorem Simulates.recvWorkerId (h : Simulates peers os s answered a)
    (balanced : Balanced answered a.worker a.client a.ready) {revents1 : Bool}
    (hpc : s.broker.pc = .workerId revents1) {peer : Frame}
    (taken : s.recvBackend peer = some (t, out)) : Matched peers (os ++ out) t answered a := by
  obtain ⟨hbackend, hfrontend⟩ := h.hand.unread (by rw [hpc]; rfl)
  cases hup : (s.worker peer).up with
  | nil => simp [SystemState.recvBackend, hbackend, hup] at taken
  | cons msg more =>
      obtain ⟨rfl, known, hwaits, hdown, hsent⟩ := (h.worker peer).sends hup
      have busy : a.worker peer ≠ .idle := by
        rcases hsent with ⟨hplace, -⟩ | ⟨c, hplace, -⟩ <;> simp [hplace]
      have room := h.room balanced known busy
      have hcount : s.broker.availableWorkers < nbrWorkers := by rw [h.queue.1]; exact room
      have hid := (peers.printable_worker known).received
      simp only [SystemState.recvBackend, hbackend, hup, SystemState.stepBroker, lbbrokerStep, hpc,
        onWorkerId, cstr_sRecv, hid, if_pos hcount, Option.some.injEq, Prod.mk.injEq] at taken
      obtain ⟨rfl, rfl⟩ := taken
      have here : WorkerAt peers peer { s.worker peer with up := [] } .idle :=
        ⟨known, hwaits, rfl, hdown⟩
      have pushed := h.queue.push (Nat.lt_trans room (by decide)) peer
      rw [List.append_nil]
      rcases hsent with ⟨hplace, rfl⟩ | ⟨c, hplace, rfl⟩
      · apply Matched.event (step_register hplace)
        rw [List.append_nil]
        exact ⟨related_update (WorkerAt peers) h.worker here, h.client, pushed, by simp,
          ⟨hfrontend, Or.inl ⟨peer, rfl⟩⟩, h.count, h.sent⟩
      · have served := balanced.served peer c (by rw [hplace]; rfl)
        have hclient := h.client c
        have hsent := h.sent c
        rw [served] at hclient hsent
        apply Matched.event (step_collect hplace)
        rw [List.append_nil]
        refine ⟨related_update (WorkerAt peers) h.worker here, clientAt_update h.client hclient,
          pushed, by simp, ⟨hfrontend, Or.inr ⟨c, peer, Function.update_self _ _ _, rfl⟩⟩, h.count,
          sentFor_update h.sent hsent⟩

/-- The delimiter behind the identity of a worker. -/
theorem Simulates.recvBackendEmpty (h : Simulates peers os s answered a) {revents1 : Bool}
    (hpc : s.broker.pc = .backendEmpty revents1) {peer : Frame}
    (taken : s.recvBackend peer = some (t, out)) : Matched peers (os ++ out) t answered a := by
  have hand := h.hand
  have gate := h.gate
  simp only [HandAt, hpc] at hand gate
  obtain ⟨hfrontend, ⟨w, hunread⟩ | ⟨c, w, hc, hunread⟩⟩ := hand
  all_goals
    simp only [SystemState.recvBackend, hunread, SystemState.stepBroker, lbbrokerStep, hpc,
      recvEmpty, Option.some.injEq, Prod.mk.injEq] at taken
    obtain ⟨rfl, rfl⟩ := taken
    rw [List.append_nil]
    apply Matched.silent
  · exact ⟨h.worker, h.client, h.queue, gate, ⟨hfrontend, Or.inl ⟨w, rfl⟩⟩, h.count, h.sent⟩
  · exact ⟨h.worker, h.client, h.queue, gate, ⟨hfrontend, Or.inr ⟨c, w, hc, rfl⟩⟩, h.count, h.sent⟩

/-- The frame that tells a READY from a reply: a READY is over, a reply goes on. -/
theorem Simulates.recvBackendClientId (h : Simulates peers os s answered a) {revents1 : Bool}
    (hpc : s.broker.pc = .backendClientId revents1) {peer : Frame}
    (taken : s.recvBackend peer = some (t, out)) : Matched peers (os ++ out) t answered a := by
  have hand := h.hand
  have gate := h.gate
  simp only [HandAt, hpc] at hand gate
  obtain ⟨hfrontend, ⟨w, hunread⟩ | ⟨c, w, hc, hunread⟩⟩ := hand
  · simp only [SystemState.recvBackend, hunread, SystemState.stepBroker, lbbrokerStep, hpc,
      onBackendClientId, headD_sRecv, peers.headD_ready, ne_eq, not_true_eq_false, if_false,
      Option.some.injEq, Prod.mk.injEq] at taken
    obtain ⟨rfl, rfl⟩ := taken
    rw [List.append_nil]
    apply Matched.silent
    refine ⟨h.worker, h.client, h.queue, ?_, ?_, h.count, h.sent⟩
    · intro needs
      exact gate (needsWorker_afterBackend needs)
    · exact handAt_of_atRest (afterBackend_atRest revents1) ⟨rfl, hfrontend⟩
  · have hclient := h.client c
    rw [hc] at hclient
    have hprint := peers.printable_client hclient.1
    simp only [SystemState.recvBackend, hunread, SystemState.stepBroker, lbbrokerStep, hpc,
      onBackendClientId, headD_sRecv, ne_eq, hprint.notWorker, not_false_eq_true, if_true,
      Option.some.injEq, Prod.mk.injEq] at taken
    obtain ⟨rfl, rfl⟩ := taken
    rw [List.append_nil]
    apply Matched.silent
    refine ⟨h.worker, h.client, h.queue, gate, ⟨hfrontend, c, w, hc, ?_, rfl⟩, h.count, h.sent⟩
    exact (cstr_sRecv _ _ _).trans hprint.received

theorem Simulates.recvReplyEmpty (h : Simulates peers os s answered a) {revents1 : Bool}
    (hpc : s.broker.pc = .replyEmpty revents1) {peer : Frame}
    (taken : s.recvBackend peer = some (t, out)) : Matched peers (os ++ out) t answered a := by
  have hand := h.hand
  have gate := h.gate
  simp only [HandAt, hpc] at hand gate
  obtain ⟨hfrontend, c, w, hc, hid, hunread⟩ := hand
  simp only [SystemState.recvBackend, hunread, SystemState.stepBroker, lbbrokerStep, hpc,
    recvEmpty, Option.some.injEq, Prod.mk.injEq] at taken
  obtain ⟨rfl, rfl⟩ := taken
  rw [List.append_nil]
  apply Matched.silent
  exact ⟨h.worker, h.client, h.queue, gate, ⟨hfrontend, c, w, hc, hid, rfl⟩, h.count, h.sent⟩

theorem repliesTo_append (c : Frame) (os out : List LbbrokerEffect) :
    repliesTo c (os ++ out) = repliesTo c os ++ repliesTo c out :=
  List.filterMap_append

/-- Sending something else for another client changes nothing for this one. -/
theorem SentFor.append {c : Frame} {standing : Standing Frame}
    (h : SentFor peers os c standing) (other : repliesTo c out = []) :
    SentFor peers (os ++ out) c standing := by
  have hsame : repliesTo c (os ++ out) = repliesTo c os := by
    rw [repliesTo_append, other, List.append_nil]
  cases standing with
  | served w => exact ⟨hsame.trans h.1, h.2.1, List.mem_append_left _ h.2.2⟩
  | returning w => exact ⟨hsame.trans h.1, h.2.1, List.mem_append_left _ h.2.2⟩
  | answered w =>
      obtain ⟨hreplies, known, before, after, rfl, hdispatch⟩ := h
      exact ⟨hsame.trans hreplies, known, before, after ++ out, by simp, hdispatch⟩
  | _ => exact hsame.trans h

theorem repliesTo_reply (c d : Frame) (msg : Zmsg) :
    repliesTo d [.toFrontend (c :: msg)] = if c = d then [msg] else [] := by
  by_cases h : c = d <;> simp [repliesTo, h]

/-- The last frame of a reply: its client is answered. -/
theorem Simulates.recvReply (h : Simulates peers os s answered a) {revents1 : Bool}
    (hpc : s.broker.pc = .reply revents1) {peer : Frame}
    (taken : s.recvBackend peer = some (t, out)) : Matched peers (os ++ out) t answered a := by
  have hand := h.hand
  have gate := h.gate
  simp only [HandAt, hpc] at hand gate
  obtain ⟨hfrontend, c, w, hc, hid, hunread⟩ := hand
  have hclient := h.client c
  have hsent := h.sent c
  rw [hc] at hclient hsent
  obtain ⟨known, htask, hup, hdown⟩ := hclient
  have hstarted : (s.client c).task ≠ .start := by simp [htask]
  have hbody : sSendlists [(s.broker.clientId, 0), ([], 0),
      (sRecv s.broker.msg 256 (some (peers.ok w)), 0)] = [c, [], peers.reply w] := by
    simp [sSendlists, hid, Peers.reply]
  simp only [SystemState.recvBackend, hunread, SystemState.stepBroker, lbbrokerStep, hpc,
    onReply, hbody, List.foldl_cons, List.foldl_nil, SystemState.post, if_neg hstarted,
    Option.some.injEq, Prod.mk.injEq] at taken
  obtain ⟨rfl, rfl⟩ := taken
  have here : ClientAt peers c
      { s.client c with down := (s.client c).down ++ [[[], peers.reply w]] } (.answered w) :=
    ⟨known, hstarted, hup⟩
  apply Matched.event (step_answer hc)
  refine ⟨h.worker, related_update (ClientAt peers) h.client here, h.queue, ?_, ?_, ?_, ?_⟩
  · intro needs
    apply gate
    by_cases hdone : s.broker.clientNbr - 1 = 0
    · rw [if_pos hdone] at needs
      cases needs
    · rw [if_neg hdone] at needs
      exact needsWorker_afterBackend needs
  · refine handAt_of_atRest ?_ ⟨rfl, hfrontend⟩
    by_cases hdone : s.broker.clientNbr - 1 = 0
    · simp only [if_pos hdone]
      rfl
    · simp only [if_neg hdone]
      exact afterBackend_atRest revents1
  · show s.broker.clientNbr - 1 = _
    rw [h.count, List.length_append, List.length_singleton]
    omega
  · rw [Function.forall_update_iff a.client]
    constructor
    · refine ⟨?_, hsent.2.1, os, [], rfl, hsent.2.2⟩
      rw [repliesTo_append, hsent.1, repliesTo_reply, if_pos rfl, List.nil_append]
    · intro d hne
      apply (h.sent d).append
      rw [repliesTo_reply, if_neg (Ne.symm hne)]

/-- The first frame of a request: it is held. -/
theorem Simulates.recvFrontendClientId (h : Simulates peers os s answered a)
    (hpc : s.broker.pc = .frontendClientId) {peer : Frame}
    (taken : s.recvFrontend peer = some (t, out)) : Matched peers (os ++ out) t answered a := by
  obtain ⟨hbackend, hfrontend⟩ := h.hand.unread (by rw [hpc]; rfl)
  have gate := h.gate
  simp only [hpc] at gate
  cases hup : (s.client peer).up with
  | nil => simp [SystemState.recvFrontend, hfrontend, hup] at taken
  | cons msg more =>
      obtain ⟨rfl, known, hasking, rfl, htask, hdown⟩ := (h.client peer).sends hup
      have hid := (peers.printable_client known).received
      simp only [SystemState.recvFrontend, hfrontend, hup, SystemState.stepBroker, lbbrokerStep,
        hpc, Option.some.injEq, Prod.mk.injEq] at taken
      obtain ⟨rfl, rfl⟩ := taken
      have here : ClientAt peers peer { s.client peer with up := [] } .held :=
        ⟨known, htask, rfl, hdown⟩
      have hsent := h.sent peer
      rw [hasking] at hsent
      rw [List.append_nil]
      apply Matched.event (step_hold hasking)
      rw [List.append_nil]
      refine ⟨h.worker, related_update (ClientAt peers) h.client here, h.queue, gate,
        ⟨hbackend, peer, Function.update_self _ _ _, ?_, rfl⟩, h.count, sentFor_update h.sent hsent⟩
      exact (cstr_sRecv _ _ _).trans hid

theorem Simulates.recvRequestEmpty (h : Simulates peers os s answered a)
    (hpc : s.broker.pc = .requestEmpty) {peer : Frame}
    (taken : s.recvFrontend peer = some (t, out)) : Matched peers (os ++ out) t answered a := by
  have hand := h.hand
  have gate := h.gate
  simp only [HandAt, hpc] at hand gate
  obtain ⟨hbackend, c, hc, hid, hunread⟩ := hand
  simp only [SystemState.recvFrontend, hunread, SystemState.stepBroker, lbbrokerStep, hpc,
    recvEmpty, Option.some.injEq, Prod.mk.injEq] at taken
  obtain ⟨rfl, rfl⟩ := taken
  rw [List.append_nil]
  apply Matched.silent
  exact ⟨h.worker, h.client, h.queue, gate, ⟨hbackend, c, hc, hid, rfl⟩, h.count, h.sent⟩

/-- The last frame of a request: it is assigned to the first worker. -/
theorem Simulates.recvRequest (h : Simulates peers os s answered a)
    (balanced : Balanced answered a.worker a.client a.ready)
    (hpc : s.broker.pc = .request) {peer : Frame}
    (taken : s.recvFrontend peer = some (t, out)) : Matched peers (os ++ out) t answered a := by
  have hand := h.hand
  have gate := h.gate
  simp only [HandAt, hpc] at hand gate
  obtain ⟨hbackend, c, hc, hid, hunread⟩ := hand
  cases hready : a.ready with
  | nil => exact absurd hready (gate rfl)
  | cons w rest =>
      have hidle : a.worker w = .idle := by
        rw [← balanced.ready_iff, hready]
        exact List.mem_cons_self
      have hworker := h.worker w
      have hclient := h.client c
      have hsent := h.sent c
      rw [hidle] at hworker
      rw [hc] at hclient hsent
      obtain ⟨known, hwaits, hup, hdown⟩ := hworker
      have hlength := h.ready_length balanced
      have hqueue := h.queue
      rw [hready] at hlength hqueue
      obtain ⟨hhead, hpopped⟩ := hqueue.pop (Nat.lt_of_lt_of_le hlength (by decide))
      have hstarted : (s.worker w).task.pc ≠ .start := by simp [hwaits.1]
      have hbody : sSendlists [(w, 0), ([], 0), (s.broker.clientId, 0), ([], 0),
          (sRecv s.broker.msg 256 (some (peers.hello c)), 0)] =
            w :: [[], c, [], peers.request c] := by
        simp [sSendlists, hid, Peers.request, cstr_eq_self (peers.printable_worker known).text]
      simp only [SystemState.recvFrontend, hunread, SystemState.stepBroker, lbbrokerStep, hpc,
        onRequest, hhead, hbody, List.foldl_cons, List.foldl_nil, SystemState.post,
        if_neg hstarted, Option.some.injEq, Prod.mk.injEq] at taken
      obtain ⟨rfl, rfl⟩ := taken
      have here : WorkerAt peers w
          { s.worker w with down := (s.worker w).down ++ [[[], c, [], peers.request c]] }
          (.assigned c) := ⟨known, hclient.1, hwaits, hup, by rw [hdown, List.nil_append]⟩
      apply Matched.event (step_assign hc hready)
      rw [List.append_nil]
      refine ⟨related_update (WorkerAt peers) h.worker here, clientAt_update h.client hclient,
        hpopped, fun needs => absurd needs Bool.false_ne_true,
        handAt_of_atRest rfl ⟨hbackend, rfl⟩, h.count, ?_⟩
      rw [Function.forall_update_iff a.client]
      constructor
      · refine ⟨?_, known, List.mem_append_right _ List.mem_cons_self⟩
        rw [repliesTo_append, hsent]
        rfl
      · intro d hne
        exact (h.sent d).append rfl

/-- Every step of the system is matched. -/
theorem Simulates.step {e : SystemEvent} (h : Simulates peers os s answered a)
    (balanced : Balanced answered a.worker a.client a.ready)
    (taken : (system peers).step s e = some (t, out)) :
    Matched peers (os ++ out) t answered a := by
  cases e with
  | workerStart w =>
      simp only [system, systemStep, Option.ite_none_right_eq_some, Option.map_eq_some_iff,
        Prod.mk.injEq] at taken
      obtain ⟨known, e, hstart, rfl, rfl⟩ := taken
      rw [List.append_nil]
      exact h.workerStart known hstart
  | workerRecv w =>
      simp only [system, systemStep, Option.map_eq_some_iff, Prod.mk.injEq] at taken
      obtain ⟨e, hrecv, rfl, rfl⟩ := taken
      rw [List.append_nil]
      exact h.workerRecv hrecv
  | clientSend c =>
      simp only [system, systemStep, Option.ite_none_right_eq_some, Option.map_eq_some_iff,
        Prod.mk.injEq] at taken
      obtain ⟨known, e, hsend, rfl, rfl⟩ := taken
      rw [List.append_nil]
      exact h.clientSend known hsend
  | clientRecv c =>
      simp only [system, systemStep, Option.map_eq_some_iff, Prod.mk.injEq] at taken
      obtain ⟨e, hrecv, rfl, rfl⟩ := taken
      rw [List.append_nil]
      exact h.clientRecv hrecv
  | poll rc => exact h.poll taken
  | recv peer =>
      simp only [system, systemStep] at taken
      cases hpc : s.broker.pc <;> rw [hpc] at taken
      case workerId revents1 => exact h.recvWorkerId balanced hpc taken
      case backendEmpty revents1 => exact h.recvBackendEmpty hpc taken
      case backendClientId revents1 => exact h.recvBackendClientId hpc taken
      case replyEmpty revents1 => exact h.recvReplyEmpty hpc taken
      case reply revents1 => exact h.recvReply hpc taken
      case frontendClientId => exact h.recvFrontendClientId hpc taken
      case requestEmpty => exact h.recvRequestEmpty hpc taken
      case request => exact h.recvRequest balanced hpc taken
      all_goals
        simp only [LbbrokerPc.readsBackend, Bool.false_eq_true, if_false,
          SystemState.recvFrontend] at taken
        split at taken <;> simp [SystemState.stepBroker, lbbrokerStep, hpc] at taken

/-- Every run of the system stands for a run of the balancer. -/
theorem simulates_of_run {es : List SystemEvent} (run : (system peers).Run es os s) :
    ∃ answered a, Balanced answered a.worker a.client a.ready ∧
      Simulates peers os s answered a := by
  have init : Simulates peers [] (system peers).init [] Balancer.machine.init :=
    Simulates.init peers
  obtain ⟨es', answered, a, matched, related⟩ := run.simulate (Simulates peers) init (by
    intro os s es' answered a e t out matched related taken
    exact related.step (balanced_of_run matched) taken)
  exact ⟨answered, a, balanced_of_run matched, related⟩

end

end ZmqTest.Loadbalance
