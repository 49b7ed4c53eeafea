/-
# What the load balancer's states stand for

Between any two frames the threads and the broker of `lbbroker.c` stand for a
state of the abstract balancer: each worker's channels and buffers are those of
its place, each client's those of its standing, the array of pointers holds the
ready workers, and what is left unread of a message is what the program counter
expects. The steps of the threads keep this relation.
-/

import ZmqTest.Lib.Balancer
import ZmqTest.Loadbalance.System

namespace ZmqTest.Loadbalance

open Balancer

/-- What the buffers of the programs can carry. -/
structure Printable (frame : Frame) : Prop where
  text : 0 ∉ frame
  fits : frame.length < 256
  nonempty : frame ≠ []
  notWorker : frame.headD 0 ≠ 119

theorem Printable.received {frame : Frame} (h : Printable frame) : received 256 frame = frame :=
  received_eq_self h.fits h.text

theorem printable_sSetId (first second : Random) : Printable (sSetId first second) where
  text := by
    intro hmem
    have h := (sSetId_range hmem).1
    simp at h
  fits := Nat.lt_of_le_of_lt (length_sSetId_le first second) (by decide)
  nonempty := sSetId_ne_nil first second
  notWorker := by
    intro hhead
    cases hid : sSetId first second with
    | nil => exact sSetId_ne_nil first second hid
    | cons byte rest =>
        rw [hid, List.headD_cons] at hhead
        have h := (sSetId_range (hid ▸ List.mem_cons_self : byte ∈ sSetId first second)).2
        rw [hhead] at h
        simp at h

theorem Peers.printable_client (peers : Peers) {client : Frame} (h : client ∈ peers.clients) :
    Printable client := by
  obtain ⟨first, second, rfl⟩ := peers.ids client (List.mem_append_left _ h)
  exact printable_sSetId first second

theorem Peers.printable_worker (peers : Peers) {worker : Frame} (h : worker ∈ peers.workers) :
    Printable worker := by
  obtain ⟨first, second, rfl⟩ := peers.ids worker (List.mem_append_right _ h)
  exact printable_sSetId first second

theorem zero_not_mem_strcat (sources : List (List UInt8)) : 0 ∉ strcat sources := by
  intro hmem
  obtain ⟨source, -, hsource⟩ := List.mem_flatMap.mp hmem
  exact zero_not_mem_cstr source hsource

theorem Peers.cstr_ok (peers : Peers) (worker : Frame) : cstr (peers.ok worker) = peers.ok worker :=
  cstr_eq_self (zero_not_mem_strcat _)

/-- A READY starts with `w`. -/
theorem Peers.headD_ready (peers : Peers) (worker : Frame) : (peers.ready worker).headD 0 = 119 :=
  rfl

/-- The body of a request as the broker passes it on. -/
def Peers.request (peers : Peers) (client : Frame) : Frame := received 256 (peers.hello client)

/-- The body of a reply as the broker passes it on. -/
def Peers.reply (peers : Peers) (worker : Frame) : Frame := received 256 (peers.ok worker)

/-- The worker thread waits for a message. -/
def WorkerEnd.Waits (e : WorkerEnd) : Prop := e.task.pc = .id ∧ e.unread = []

/-- The worker thread has read the address of a request and no more, or its
delimiter as well. -/
def WorkerEnd.Works (e : WorkerEnd) (peers : Peers) (client : Frame) : Prop :=
  cstr e.task.id = client ∧
    (e.task.pc = .empty ∧ e.unread = [[], peers.request client] ∨
      e.task.pc = .request ∧ e.unread = [peers.request client])

/-- What a worker thread and its channels are in each place. -/
def WorkerAt (peers : Peers) (worker : Frame) (e : WorkerEnd) : Place Frame → Prop
  | .away => e = workerEndInit
  | .announcing =>
      worker ∈ peers.workers ∧ e.Waits ∧ e.up = [[[], peers.ready worker]] ∧ e.down = []
  | .idle => worker ∈ peers.workers ∧ e.Waits ∧ e.up = [] ∧ e.down = []
  | .assigned client =>
      worker ∈ peers.workers ∧ client ∈ peers.clients ∧ e.Waits ∧ e.up = [] ∧
        e.down = [[[], client, [], peers.request client]]
  | .working client =>
      worker ∈ peers.workers ∧ client ∈ peers.clients ∧ e.Works peers client ∧ e.up = [] ∧
        e.down = []
  | .replying client =>
      worker ∈ peers.workers ∧ client ∈ peers.clients ∧ e.Waits ∧
        e.up = [[[], client, [], peers.ok worker]] ∧ e.down = []

/-- What a client thread and its channels are at each standing. -/
def ClientAt (peers : Peers) (client : Frame) (e : ClientEnd) : Standing Frame → Prop
  | .away => e = clientEndInit
  | .asking =>
      client ∈ peers.clients ∧ e.task = .waiting ∧ e.up = [[[], peers.hello client]] ∧ e.down = []
  | .answered _ => client ∈ peers.clients ∧ e.task ≠ .start ∧ e.up = []
  | _ => client ∈ peers.clients ∧ e.task = .waiting ∧ e.up = [] ∧ e.down = []

/-- Only a worker that has not run yet starts. -/
theorem WorkerAt.start {peers : Peers} {worker : Frame} {e next : WorkerEnd}
    {place : Place Frame} (h : WorkerAt peers worker e place) (known : worker ∈ peers.workers)
    (taken : e.start peers worker = some next) :
    place = .away ∧ WorkerAt peers worker next .announcing := by
  simp only [WorkerEnd.start, workerTaskStart, Option.ite_none_right_eq_some,
    Option.some.injEq] at taken
  obtain ⟨hpc, rfl⟩ := taken
  cases place with
  | away =>
      obtain rfl : e = workerEndInit := h
      exact ⟨rfl, known, ⟨rfl, rfl⟩, rfl, rfl⟩
  | announcing => simp [h.2.1.1] at hpc
  | idle => simp [h.2.1.1] at hpc
  | assigned client => simp [h.2.2.1.1] at hpc
  | working client =>
      rcases h.2.2.1.2 with ⟨hwork, -⟩ | ⟨hwork, -⟩ <;> simp [hwork] at hpc
  | replying client => simp [h.2.2.1.1] at hpc

/-- Only a worker with a request receives a frame. It takes the request with its
first frame, and its last frame makes it reply. -/
theorem WorkerAt.recv {peers : Peers} {worker : Frame} {e next : WorkerEnd}
    {place : Place Frame} (h : WorkerAt peers worker e place)
    (taken : e.recv peers worker = some next) :
    ∃ client, place = .assigned client ∧ WorkerAt peers worker next (.working client) ∨
      place = .working client ∧ (WorkerAt peers worker next (.working client) ∨
        WorkerAt peers worker next (.replying client)) := by
  cases place with
  | away =>
      obtain rfl : e = workerEndInit := h
      cases taken
  | announcing => simp [WorkerEnd.recv, h.2.1.2, h.2.2.2] at taken
  | idle => simp [WorkerEnd.recv, h.2.1.2, h.2.2.2] at taken
  | replying client => simp [WorkerEnd.recv, h.2.2.1.2, h.2.2.2.2] at taken
  | assigned client =>
      obtain ⟨known, hclient, ⟨hpc, hunread⟩, hup, hdown⟩ := h
      simp only [WorkerEnd.recv, hunread, hdown, WorkerEnd.handle, workerTaskRecv, hpc,
        Option.some.injEq] at taken
      subst next
      refine ⟨client, Or.inl ⟨rfl, known, hclient, ⟨?_, Or.inl ⟨rfl, rfl⟩⟩, hup, rfl⟩⟩
      rw [cstr_sRecv, (peers.printable_client hclient).received]
  | working client =>
      obtain ⟨known, hclient, ⟨hid, hwork⟩, hup, hdown⟩ := h
      rcases hwork with ⟨hpc, hunread⟩ | ⟨hpc, hunread⟩
      · simp only [WorkerEnd.recv, hunread, WorkerEnd.handle, workerTaskRecv, hpc,
          Option.some.injEq] at taken
        subst next
        exact ⟨client, Or.inr ⟨rfl, Or.inl ⟨known, hclient, ⟨hid, Or.inr ⟨rfl, rfl⟩⟩, hup, hdown⟩⟩⟩
      · simp only [WorkerEnd.recv, hunread, WorkerEnd.handle, workerTaskRecv, hpc,
          Option.some.injEq] at taken
        subst next
        refine ⟨client, Or.inr ⟨rfl, Or.inr ⟨known, hclient, ⟨rfl, rfl⟩, ?_, hdown⟩⟩⟩
        have hok : cstr (okText (peers.buffer worker)) = peers.ok worker := peers.cstr_ok worker
        simp [hup, sSendlists, hid, hok]

theorem ClientAt.send {peers : Peers} {client : Frame} {e next : ClientEnd}
    {standing : Standing Frame} (h : ClientAt peers client e standing)
    (known : client ∈ peers.clients) (taken : e.send peers client = some next) :
    standing = .away ∧ ClientAt peers client next .asking := by
  simp only [ClientEnd.send, Option.ite_none_right_eq_some, Option.some.injEq] at taken
  obtain ⟨hstart, rfl⟩ := taken
  cases standing with
  | away =>
      obtain rfl : e = clientEndInit := h
      exact ⟨rfl, known, rfl, rfl, rfl⟩
  | answered worker => exact absurd hstart h.2.1
  | _ => simp [h.2.1] at hstart

/-- Only a client that is answered receives anything. -/
theorem ClientAt.recv {peers : Peers} {client : Frame} {e next : ClientEnd}
    {standing : Standing Frame} (h : ClientAt peers client e standing)
    (taken : e.recv = some next) : ClientAt peers client next standing := by
  cases standing with
  | away =>
      obtain rfl : e = clientEndInit := h
      cases taken
  | answered worker =>
      simp only [ClientEnd.recv] at taken
      split at taken
      · cases taken
        exact ⟨h.1, nofun, h.2.2⟩
      · cases taken
        exact ⟨h.1, h.2.1, h.2.2⟩
      · cases taken
  | asking => simp [ClientEnd.recv, h.2.1, h.2.2.2] at taken
  | held => simp [ClientEnd.recv, h.2.1, h.2.2.2] at taken
  | served worker => simp [ClientEnd.recv, h.2.1, h.2.2.2] at taken
  | returning worker => simp [ClientEnd.recv, h.2.1, h.2.2.2] at taken

/-- The array holds the ready workers, the longest waiting first. -/
def QueueAt (available : Nat) (queue : List (Option (List UInt8))) (ready : List Frame) : Prop :=
  available = ready.length ∧ queue = ready.map some ++ List.replicate (10 - ready.length) none

/-- The points from which the frontend is read before the next poll. -/
def LbbrokerPc.needsWorker : LbbrokerPc → Bool
  | .workerId revents1 => revents1
  | .backendEmpty revents1 => revents1
  | .backendClientId revents1 => revents1
  | .replyEmpty revents1 => revents1
  | .reply revents1 => revents1
  | .frontendClientId => true
  | .requestEmpty => true
  | .request => true
  | _ => false

/-- The points at which no message is half read. -/
def LbbrokerPc.atRest : LbbrokerPc → Bool
  | .poll => true
  | .workerId _ => true
  | .frontendClientId => true
  | .done => true
  | .stopped => true
  | _ => false

/-- What is left unread of a message is what the program is about to receive:
the rest of a READY or of a reply, or the rest of a request. -/
def HandAt (peers : Peers) (s : SystemState) (client : Frame → Standing Frame) : Prop :=
  match s.broker.pc with
  | .backendEmpty _ =>
      s.frontendUnread = [] ∧
        ((∃ w, s.backendUnread = [[], peers.ready w]) ∨
          ∃ c w, client c = .returning w ∧ s.backendUnread = [[], c, [], peers.ok w])
  | .backendClientId _ =>
      s.frontendUnread = [] ∧
        ((∃ w, s.backendUnread = [peers.ready w]) ∨
          ∃ c w, client c = .returning w ∧ s.backendUnread = [c, [], peers.ok w])
  | .replyEmpty _ =>
      s.frontendUnread = [] ∧
        ∃ c w, client c = .returning w ∧ cstr s.broker.clientId = c ∧
          s.backendUnread = [[], peers.ok w]
  | .reply _ =>
      s.frontendUnread = [] ∧
        ∃ c w, client c = .returning w ∧ cstr s.broker.clientId = c ∧
          s.backendUnread = [peers.ok w]
  | .requestEmpty =>
      s.backendUnread = [] ∧
        ∃ c, client c = .held ∧ cstr s.broker.clientId = c ∧
          s.frontendUnread = [[], peers.hello c]
  | .request =>
      s.backendUnread = [] ∧
        ∃ c, client c = .held ∧ cstr s.broker.clientId = c ∧ s.frontendUnread = [peers.hello c]
  | .aborted => False
  | _ => s.backendUnread = [] ∧ s.frontendUnread = []

theorem handAt_of_atRest {peers : Peers} {s : SystemState} {client : Frame → Standing Frame}
    (rest : s.broker.pc.atRest) (unread : s.backendUnread = [] ∧ s.frontendUnread = []) :
    HandAt peers s client := by
  cases hpc : s.broker.pc <;> simp_all [HandAt, LbbrokerPc.atRest]

theorem HandAt.unread {peers : Peers} {s : SystemState} {client : Frame → Standing Frame}
    (h : HandAt peers s client) (rest : s.broker.pc.atRest) :
    s.backendUnread = [] ∧ s.frontendUnread = [] := by
  cases hpc : s.broker.pc <;> simp_all [HandAt, LbbrokerPc.atRest]

/-- The messages sent to a client, without its address. -/
def repliesTo (client : Frame) (os : List LbbrokerEffect) : List Zmsg :=
  os.filterMap fun
    | .toFrontend (address :: msg) => if address = client then some msg else none
    | _ => none

/-- The message that hands the request of a client to a worker. -/
def Peers.dispatch (peers : Peers) (worker client : Frame) : LbbrokerEffect :=
  .toBackend [worker, [], client, [], peers.request client]

/-- The message that hands the reply of a worker to a client. -/
def Peers.answer (peers : Peers) (worker client : Frame) : LbbrokerEffect :=
  .toFrontend [client, [], peers.reply worker]

/-- What has been sent for a client: its request to the worker that serves it,
and after that the worker's reply once it is answered. -/
def SentFor (peers : Peers) (os : List LbbrokerEffect) (client : Frame) :
    Standing Frame → Prop
  | .served worker =>
      repliesTo client os = [] ∧ worker ∈ peers.workers ∧ peers.dispatch worker client ∈ os
  | .returning worker =>
      repliesTo client os = [] ∧ worker ∈ peers.workers ∧ peers.dispatch worker client ∈ os
  | .answered worker =>
      repliesTo client os = [[[], peers.reply worker]] ∧ worker ∈ peers.workers ∧
        ∃ before after, os = before ++ peers.answer worker client :: after ∧
          peers.dispatch worker client ∈ before
  | _ => repliesTo client os = []

/-- A state of the system stands for a state of the balancer. -/
structure Simulates (peers : Peers) (os : List LbbrokerEffect) (s : SystemState)
    (answered : List Frame) (a : State Frame Frame) : Prop where
  worker : ∀ w, WorkerAt peers w (s.worker w) (a.worker w)
  client : ∀ c, ClientAt peers c (s.client c) (a.client c)
  queue : QueueAt s.broker.availableWorkers s.broker.workerQueue a.ready
  gate : s.broker.pc.needsWorker → a.ready ≠ []
  hand : HandAt peers s a.client
  count : s.broker.clientNbr = nbrClients - answered.length
  sent : ∀ c, SentFor peers os c (a.client c)

theorem Simulates.init (peers : Peers) :
    Simulates peers [] systemInit [] (Balancer.init : State Frame Frame) where
  worker := fun _ => rfl
  client := fun _ => rfl
  queue := ⟨rfl, rfl⟩
  gate := nofun
  hand := ⟨rfl, rfl⟩
  count := rfl
  sent := fun _ => rfl

/-- No assertion of the broker fails. -/
theorem Simulates.ne_aborted {peers : Peers} {os : List LbbrokerEffect} {s : SystemState}
    {answered : List Frame} {a : State Frame Frame} (h : Simulates peers os s answered a) :
    s.broker.pc ≠ .aborted := by
  intro hpc
  have hand := h.hand
  rw [HandAt, hpc] at hand
  exact hand

/-- A step of the system is matched by some events of the balancer. -/
def Matched (peers : Peers) (os : List LbbrokerEffect) (t : SystemState)
    (answered : List Frame) (a : State Frame Frame) : Prop :=
  ∃ fs out b, Balancer.machine.exec a fs = some (b, out) ∧
    Simulates peers os t (answered ++ out) b

theorem Matched.silent {peers : Peers} {os : List LbbrokerEffect} {t : SystemState}
    {answered : List Frame} {a : State Frame Frame} (h : Simulates peers os t answered a) :
    Matched peers os t answered a :=
  ⟨[], [], a, rfl, by rwa [List.append_nil]⟩

theorem Matched.event {peers : Peers} {os : List LbbrokerEffect} {t : SystemState}
    {answered out : List Frame} {a b : State Frame Frame} {e : Event Frame Frame}
    (taken : Balancer.machine.step a e = some (b, out))
    (h : Simulates peers os t (answered ++ out) b) : Matched peers os t answered a :=
  ⟨[e], out, b, Machine.exec_singleton taken, h⟩

/-! ## The steps of the threads -/

section

variable {peers : Peers} {os : List LbbrokerEffect} {s : SystemState} {answered : List Frame}
  {a : State Frame Frame}

/-- The hand of the broker holds clients that are held or returning, no others. -/
theorem HandAt.mono {client after : Frame → Standing Frame} (h : HandAt peers s client)
    (held : ∀ c, client c = .held → after c = .held)
    (returning : ∀ c w, client c = .returning w → after c = .returning w) :
    HandAt peers s after := by
  unfold HandAt at h ⊢
  cases hpc : s.broker.pc <;> simp only [hpc] at h ⊢
  case backendEmpty revents1 =>
    obtain ⟨hfrontend, hready | ⟨c, w, hc, hunread⟩⟩ := h
    · exact ⟨hfrontend, Or.inl hready⟩
    · exact ⟨hfrontend, Or.inr ⟨c, w, returning c w hc, hunread⟩⟩
  case backendClientId revents1 =>
    obtain ⟨hfrontend, hready | ⟨c, w, hc, hunread⟩⟩ := h
    · exact ⟨hfrontend, Or.inl hready⟩
    · exact ⟨hfrontend, Or.inr ⟨c, w, returning c w hc, hunread⟩⟩
  case replyEmpty revents1 =>
    obtain ⟨hfrontend, c, w, hc, hunread⟩ := h
    exact ⟨hfrontend, c, w, returning c w hc, hunread⟩
  case reply revents1 =>
    obtain ⟨hfrontend, c, w, hc, hunread⟩ := h
    exact ⟨hfrontend, c, w, returning c w hc, hunread⟩
  case requestEmpty =>
    obtain ⟨hbackend, c, hc, hunread⟩ := h
    exact ⟨hbackend, c, held c hc, hunread⟩
  case request =>
    obtain ⟨hbackend, c, hc, hunread⟩ := h
    exact ⟨hbackend, c, held c hc, hunread⟩
  all_goals exact h

/-- A change at a client that is neither held nor returning. -/
theorem HandAt.update {client : Frame → Standing Frame} (h : HandAt peers s client) {c : Frame}
    (free : client c ≠ .held) (kept : ∀ w, client c ≠ .returning w) (standing : Standing Frame) :
    HandAt peers s (Function.update client c standing) := by
  apply h.mono
  · intro d hd
    rw [Function.update_of_ne]
    · exact hd
    · rintro rfl
      exact free hd
  · intro d w hd
    rw [Function.update_of_ne]
    · exact hd
    · rintro rfl
      exact kept w hd

theorem sentFor_update {client : Frame → Standing Frame} {c : Frame}
    {standing : Standing Frame} (h : ∀ d, SentFor peers os d (client d))
    (new : SentFor peers os c standing) :
    ∀ d, SentFor peers os d (Function.update client c standing d) :=
  (Function.forall_update_iff client (SentFor peers os)).mpr ⟨new, fun d _ => h d⟩

/-- A worker thread steps from one place to another. -/
theorem Simulates.workerMoves (h : Simulates peers os s answered a) {w : Frame}
    {e : WorkerEnd} {place : Place Frame} (here : WorkerAt peers w e place) :
    Simulates peers os { s with worker := Function.update s.worker w e } answered
      { a with worker := Function.update a.worker w place } where
  worker := related_update (WorkerAt peers) h.worker here
  client := h.client
  queue := h.queue
  gate := h.gate
  hand := h.hand
  count := h.count
  sent := h.sent

theorem Simulates.workerStart (h : Simulates peers os s answered a) {w : Frame}
    {e : WorkerEnd} (known : w ∈ peers.workers)
    (taken : (s.worker w).start peers w = some e) :
    Matched peers os { s with worker := Function.update s.worker w e } answered a := by
  obtain ⟨hplace, here⟩ := (h.worker w).start known taken
  apply Matched.event (step_announce hplace)
  rw [List.append_nil]
  exact h.workerMoves here

theorem Simulates.workerRecv (h : Simulates peers os s answered a) {w : Frame}
    {e : WorkerEnd} (taken : (s.worker w).recv peers w = some e) :
    Matched peers os { s with worker := Function.update s.worker w e } answered a := by
  obtain ⟨c, ⟨hplace, here⟩ | ⟨hplace, here | here⟩⟩ := (h.worker w).recv taken
  · apply Matched.event (step_take hplace)
    rw [List.append_nil]
    exact h.workerMoves here
  · apply Matched.silent
    have moved := h.workerMoves here
    rw [← hplace, Function.update_eq_self] at moved
    exact moved
  · apply Matched.event (step_finish hplace)
    rw [List.append_nil]
    exact h.workerMoves here

theorem Simulates.clientSend (h : Simulates peers os s answered a) {c : Frame}
    {e : ClientEnd} (known : c ∈ peers.clients)
    (taken : (s.client c).send peers c = some e) :
    Matched peers os { s with client := Function.update s.client c e } answered a := by
  obtain ⟨hstanding, here⟩ := (h.client c).send known taken
  apply Matched.event (step_ask hstanding)
  rw [List.append_nil]
  have hsent : SentFor peers os c (a.client c) := h.sent c
  rw [hstanding] at hsent
  refine ⟨h.worker, related_update (ClientAt peers) h.client here, h.queue, h.gate, ?_, h.count, ?_⟩
  · exact h.hand.update (by simp [hstanding]) (by simp [hstanding]) _
  · exact sentFor_update h.sent hsent

theorem Simulates.clientRecv (h : Simulates peers os s answered a) {c : Frame}
    {e : ClientEnd} (taken : (s.client c).recv = some e) :
    Matched peers os { s with client := Function.update s.client c e } answered a := by
  apply Matched.silent
  have here := (h.client c).recv taken
  have moved := related_update (ClientAt peers) h.client here
  rw [Function.update_eq_self] at moved
  exact ⟨h.worker, moved, h.queue, h.gate, h.hand, h.count, h.sent⟩

end

end ZmqTest.Loadbalance
