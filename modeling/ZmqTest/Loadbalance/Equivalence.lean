/-
# Both load balancers send the same

`lbbroker2.c` says that it has the functionality of `lbbroker.c`. Both main loops
are driven by one environment: polls that return anything, workers that announce
themselves and then reply once to every request they are sent, and clients that
send whatever they like. A message is frames to the one loop and a whole to the
other, and a READY is a text starting with `w` to the one and the byte 1 to the
other. They send the same messages until `lbbroker.c` has counted its clients.
-/

import ZmqTest.Lib.Driven
import ZmqTest.Loadbalance.Lbbroker2
import ZmqTest.Loadbalance.Simulation

namespace ZmqTest.Loadbalance

open Loadbalance2 (Lbbroker2State Lbbroker2Pc Lbbroker2Event lbbroker2 lbbroker2Step workerReady)

/-- What a main loop gets: the result of a poll, or a message. -/
inductive Input
  | poll (rc : Option (Bool × Bool))
  | /-- A READY; `text` is what a worker of `lbbroker.c` sends as such. -/
    ready (worker text : Frame)
  | reply (worker client body : Frame)
  | request (client body : Frame)
  deriving DecidableEq

/-- The input as `lbbroker.c` gets it where it waits for it. -/
def LbbrokerState.frames (s : LbbrokerState) : Input → Option (List LbbrokerEvent)
  | .poll rc => if s.pc = .poll then some [.poll rc] else none
  | .ready worker text =>
      match s.pc with
      | .workerId _ => some [.recv (some worker), .recv (some []), .recv (some text)]
      | _ => none
  | .reply worker client body =>
      match s.pc with
      | .workerId _ =>
          some [.recv (some worker), .recv (some []), .recv (some client), .recv (some []),
            .recv (some body)]
      | _ => none
  | .request client body =>
      if s.pc = .frontendClientId then
        some [.recv (some client), .recv (some []), .recv (some body)]
      else none

/-- The input as `lbbroker2.c` gets it where it waits for it. -/
def message (s : Lbbroker2State) : Input → Option (List Lbbroker2Event)
  | .poll rc => if s.pc = .poll then some [.poll rc] else none
  | .ready worker _ =>
      match s.pc with
      | .backend _ => some [.recv (some [worker, [], workerReady])]
      | _ => none
  | .reply worker client body =>
      match s.pc with
      | .backend _ => some [.recv (some [worker, [], client, [], body])]
      | _ => none
  | .request client body =>
      if s.pc = .frontend then some [.recv (some [client, [], body])] else none

/-- Bytes that the buffers of `lbbroker.c` take. -/
def IsText (frame : Frame) : Prop := frame.length ≤ 255 ∧ 0 ∉ frame

/-- An identity is not empty. -/
def IsIdentity (frame : Frame) : Prop := IsText frame ∧ 0 < frame.length

/-- The identity of a client cannot be taken for a READY. -/
def IsClient (frame : Frame) : Prop :=
  IsIdentity frame ∧ frame.head? ≠ some 119 ∧ frame.head? ≠ some 1

instance (frame : Frame) : Decidable (IsText frame) :=
  inferInstanceAs (Decidable (frame.length ≤ 255 ∧ 0 ∉ frame))

instance (frame : Frame) : Decidable (IsIdentity frame) :=
  inferInstanceAs (Decidable (IsText frame ∧ 0 < frame.length))

instance (frame : Frame) : Decidable (IsClient frame) :=
  inferInstanceAs (Decidable (IsIdentity frame ∧ frame.head? ≠ some 119 ∧ frame.head? ≠ some 1))

/-- The workers that have announced themselves, and those that have a request
they have not replied to. -/
structure Crowd where
  announced : List Frame
  busy : List Frame

/-- Workers go in lock step; clients do not. -/
def Crowd.Offers (crowd : Crowd) : Input → Prop
  | .poll _ => True
  | .ready worker text =>
      crowd.announced.length < nbrWorkers ∧ worker ∉ crowd.announced ∧ IsIdentity worker ∧
        text.head? = some 119
  | .reply worker client body => worker ∈ crowd.busy ∧ IsClient client ∧ IsText body
  | .request client body => IsClient client ∧ IsText body

instance (crowd : Crowd) (input : Input) : Decidable (crowd.Offers input) := by
  cases input <;> unfold Crowd.Offers <;> infer_instance

/-- The workers that are sent a request. -/
def dispatched (out : List LbbrokerEffect) : List Frame :=
  out.filterMap fun
    | .toBackend (worker :: _) => some worker
    | _ => none

def Crowd.after (crowd : Crowd) (input : Input) (out : List LbbrokerEffect) : Crowd :=
  let crowd :=
    match input with
    | .ready worker _ => { crowd with announced := crowd.announced ++ [worker] }
    | .reply worker _ _ => { crowd with busy := crowd.busy.filter (· ≠ worker) }
    | _ => crowd
  { crowd with busy := crowd.busy ++ dispatched out }

/-- At most `NBR_WORKERS` lock-step workers, and any clients. -/
def lockstep : Environment Crowd Input LbbrokerEffect where
  init := { announced := [], busy := [] }
  offers := fun crowd input => crowd.Offers input
  after := Crowd.after

/-- How many replies have been sent. -/
def replies (os : List LbbrokerEffect) : Nat :=
  os.countP fun
    | .toFrontend _ => true
    | .toBackend _ => false

/-- The points of `lbbroker.c` between two messages, as points of `lbbroker2.c`. -/
def LbbrokerPc.whole : LbbrokerPc → Option Lbbroker2Pc
  | .poll => some .poll
  | .workerId revents1 => some (.backend revents1)
  | .frontendClientId => some .frontend
  | .stopped => some .stopped
  | _ => none

/-- The listed workers are announced and have nothing to do. -/
structure Crowd.Lists (crowd : Crowd) (workers : List Frame) : Prop where
  few : crowd.announced.length ≤ nbrWorkers
  identities : ∀ w ∈ crowd.announced, IsIdentity w
  nodup : workers.Nodup
  known : workers ⊆ crowd.announced
  busy_known : crowd.busy ⊆ crowd.announced
  apart : ∀ w ∈ workers, w ∉ crowd.busy

/-- The two loops stand at the same point with the same workers. -/
structure Related (os : List LbbrokerEffect) (s : LbbrokerState) (crowd : Crowd)
    (t : Lbbroker2State) : Prop where
  point : s.pc.whole = some t.pc
  queue : QueueAt s.availableWorkers s.workerQueue t.workers
  gate : s.pc.needsWorker → t.workers ≠ []
  lists : crowd.Lists t.workers
  count : s.clientNbr = nbrClients - replies os
  more : replies os < nbrClients

/-- The last client has been counted. -/
def Finished (os : List LbbrokerEffect) (s : LbbrokerState) : Prop :=
  s.pc = .done ∧ replies os = nbrClients

section

variable {crowd : Crowd} {workers rest : List Frame} {w : Frame}

/-- An announced worker that is not listed finds room. -/
theorem Crowd.Lists.room {announced : List Frame} (few : announced.length ≤ nbrWorkers)
    (nodup : workers.Nodup) (known : workers ⊆ announced) (hnot : w ∉ workers)
    (hmem : w ∈ announced) : workers.length < nbrWorkers := by
  have hnodup : (w :: workers).Nodup := List.nodup_cons.mpr ⟨hnot, nodup⟩
  have hsubset : w :: workers ⊆ announced := List.cons_subset.mpr ⟨hmem, known⟩
  exact Nat.le_trans (List.subperm_of_subset hnodup hsubset).length_le few

/-- A worker announces itself. -/
theorem Crowd.Lists.ready (h : crowd.Lists workers) (few : crowd.announced.length < nbrWorkers)
    (new : w ∉ crowd.announced) (identity : IsIdentity w) :
    workers.length < nbrWorkers ∧
      { crowd with announced := crowd.announced ++ [w] : Crowd }.Lists (workers ++ [w]) := by
  have hnot : w ∉ workers := fun hmem => new (h.known hmem)
  have hlength : (crowd.announced ++ [w]).length ≤ nbrWorkers := by
    rw [List.length_append]
    exact few
  have hknown : workers ⊆ crowd.announced ++ [w] :=
    fun _ hmem => List.mem_append_left _ (h.known hmem)
  have hmem : w ∈ crowd.announced ++ [w] := List.mem_append_right _ List.mem_cons_self
  constructor
  · exact Crowd.Lists.room hlength h.nodup hknown hnot hmem
  · constructor
    · exact hlength
    · intro v hv
      cases List.mem_append.mp hv with
      | inl old => exact h.identities v old
      | inr same => exact List.mem_singleton.mp same ▸ identity
    · exact List.concat_eq_append ▸ h.nodup.concat hnot
    · exact List.append_subset.mpr ⟨hknown, List.cons_subset.mpr ⟨hmem, List.nil_subset _⟩⟩
    · exact fun _ hbusy => List.mem_append_left _ (h.busy_known hbusy)
    · intro v hv
      cases List.mem_append.mp hv with
      | inl old => exact h.apart v old
      | inr same =>
          rw [List.mem_singleton.mp same]
          exact fun hbusy => new (h.busy_known hbusy)

/-- A worker replies. -/
theorem Crowd.Lists.reply (h : crowd.Lists workers) (hbusy : w ∈ crowd.busy) :
    workers.length < nbrWorkers ∧
      { crowd with busy := crowd.busy.filter (· ≠ w) : Crowd }.Lists (workers ++ [w]) := by
  have hnot : w ∉ workers := fun hmem => h.apart w hmem hbusy
  have hmem : w ∈ crowd.announced := h.busy_known hbusy
  constructor
  · exact Crowd.Lists.room h.few h.nodup h.known hnot hmem
  · constructor
    · exact h.few
    · exact h.identities
    · exact List.concat_eq_append ▸ h.nodup.concat hnot
    · exact List.append_subset.mpr ⟨h.known, List.cons_subset.mpr ⟨hmem, List.nil_subset _⟩⟩
    · exact fun _ hv => h.busy_known (List.mem_filter.mp hv).1
    · intro v hv hkept
      have hfilter := List.mem_filter.mp hkept
      cases List.mem_append.mp hv with
      | inl old => exact h.apart v old hfilter.1
      | inr same => simp [List.mem_singleton.mp same] at hfilter

/-- The first worker is sent a request. -/
theorem Crowd.Lists.dispatch (h : crowd.Lists (w :: rest)) :
    { crowd with busy := crowd.busy ++ [w] : Crowd }.Lists rest := by
  obtain ⟨hnot, hnodup⟩ := List.nodup_cons.mp h.nodup
  obtain ⟨hmem, hknown⟩ := List.cons_subset.mp h.known
  constructor
  · exact h.few
  · exact h.identities
  · exact hnodup
  · exact hknown
  · exact List.append_subset.mpr ⟨h.busy_known, List.cons_subset.mpr ⟨hmem, List.nil_subset _⟩⟩
  · intro v hv hbusy
    cases List.mem_append.mp hbusy with
    | inl old => exact h.apart v (List.mem_cons_of_mem _ hv) old
    | inr same => exact hnot (List.mem_singleton.mp same ▸ hv)

end

theorem IsText.received {frame : Frame} (h : IsText frame) : received 256 frame = frame :=
  received_eq_self (Nat.lt_succ_of_le h.1) h.2

theorem IsText.cstr {frame : Frame} (h : IsText frame) : cstr frame = frame := cstr_eq_self h.2

theorem IsClient.headD_ne {client : Frame} (h : IsClient client) : client.headD 0 ≠ 119 := by
  intro heq
  obtain ⟨⟨-, hpos⟩, hw, -⟩ := h
  cases client with
  | nil => cases hpos
  | cons byte rest => exact hw (congrArg some heq)

theorem IsClient.startsWith {client : Frame} (h : IsClient client) :
    Frame.startsWith client 1 = false := by
  simpa [Frame.startsWith] using h.2.2

/-! ## The frames of a message -/

section

variable {s : LbbrokerState} {revents1 : Bool} {worker client body text : Frame}

theorem recvEmpty_nil (s : LbbrokerState) (next : LbbrokerPc) :
    recvEmpty s (some []) next = { s with empty := sRecv s.empty 2 (some []), pc := next } := rfl

theorem onWorkerId_text (room : s.availableWorkers < nbrWorkers) (identity : IsText worker) :
    onWorkerId s revents1 (some worker) =
      { s with
        pc := .backendEmpty revents1
        workerId := sRecv s.workerId 256 (some worker)
        workerQueue := s.workerQueue.set s.availableWorkers (some worker)
        availableWorkers := s.availableWorkers + 1 } := by
  rw [onWorkerId, if_pos room, cstr_sRecv, identity.received]

theorem onBackendClientId_ready (htext : text.head? = some 119) :
    onBackendClientId s revents1 (some text) =
      { s with
        clientId := sRecv s.clientId 256 (some text)
        pc := afterBackend revents1 } := by
  have hhead : text.headD 0 = 119 := by
    rw [List.headD_eq_head?_getD, htext]
    rfl
  rw [onBackendClientId, if_neg]
  rw [headD_sRecv, hhead]
  decide

theorem onBackendClientId_client (hclient : IsClient client) :
    onBackendClientId s revents1 (some client) =
      { s with
        clientId := sRecv s.clientId 256 (some client)
        pc := .replyEmpty revents1 } := by
  rw [onBackendClientId, if_pos]
  rw [headD_sRecv]
  exact hclient.headD_ne

theorem onReply_text (hbody : IsText body) :
    onReply s revents1 (some body) =
      ({ s with
          msg := sRecv s.msg 256 (some body)
          clientNbr := s.clientNbr - 1
          pc := if s.clientNbr - 1 = 0 then .done else afterBackend revents1 },
        [.toFrontend [cstr s.clientId, [], body]]) := by
  simp [onReply, sSendlists, hbody.received]

theorem onRequest_text (hbody : IsText body) (identity : IsText worker)
    (hhead : s.workerQueue.head?.join = some worker) :
    onRequest s (some body) =
      ({ s with
          msg := sRecv s.msg 256 (some body)
          workerQueue := dequeue s.workerQueue
          availableWorkers := s.availableWorkers - 1
          pc := .poll },
        [.toBackend [worker, [], cstr s.clientId, [], body]]) := by
  simp [onRequest, hhead, sSendlists, hbody.received, identity.cstr]

/-- A READY lists its sender. -/
theorem exec_ready (hpc : s.pc = .workerId revents1) (room : s.availableWorkers < nbrWorkers)
    (identity : IsText worker) (htext : text.head? = some 119) :
    ∃ t, lbbroker.respond LbbrokerState.frames s (.ready worker text) = some (t, []) ∧
      t.pc = afterBackend revents1 ∧ t.availableWorkers = s.availableWorkers + 1 ∧
      t.workerQueue = s.workerQueue.set s.availableWorkers (some worker) ∧
      t.clientNbr = s.clientNbr := by
  simp only [Machine.respond, LbbrokerState.frames, Machine.exec, lbbroker, lbbrokerStep, hpc,
    onWorkerId_text room identity, recvEmpty_nil, onBackendClientId_ready htext]
  exact ⟨_, rfl, rfl, rfl, rfl, rfl⟩

/-- A reply lists its sender and is passed on. -/
theorem exec_reply (hpc : s.pc = .workerId revents1) (room : s.availableWorkers < nbrWorkers)
    (identity : IsText worker) (hclient : IsClient client) (hbody : IsText body) :
    ∃ t, lbbroker.respond LbbrokerState.frames s (.reply worker client body) =
        some (t, [.toFrontend [client, [], body]]) ∧
      t.pc = (if s.clientNbr - 1 = 0 then .done else afterBackend revents1) ∧
      t.availableWorkers = s.availableWorkers + 1 ∧
      t.workerQueue = s.workerQueue.set s.availableWorkers (some worker) ∧
      t.clientNbr = s.clientNbr - 1 := by
  have hid (buffer : List UInt8) : cstr (sRecv buffer 256 (some client)) = client :=
    (cstr_sRecv _ _ _).trans hclient.1.1.received
  simp only [Machine.respond, LbbrokerState.frames, Machine.exec, lbbroker, lbbrokerStep, hpc,
    onWorkerId_text room identity, recvEmpty_nil, onBackendClientId_client hclient,
    onReply_text hbody, hid]
  exact ⟨_, rfl, rfl, rfl, rfl, rfl⟩

/-- A request is sent to the first worker of the array. -/
theorem exec_request (hpc : s.pc = .frontendClientId)
    (hhead : s.workerQueue.head?.join = some worker) (identity : IsText worker)
    (hclient : IsText client) (hbody : IsText body) :
    ∃ t, lbbroker.respond LbbrokerState.frames s (.request client body) =
        some (t, [.toBackend [worker, [], client, [], body]]) ∧
      t.pc = .poll ∧ t.availableWorkers = s.availableWorkers - 1 ∧
      t.workerQueue = dequeue s.workerQueue ∧ t.clientNbr = s.clientNbr := by
  have hid (buffer : List UInt8) : cstr (sRecv buffer 256 (some client)) = client :=
    (cstr_sRecv _ _ _).trans hclient.received
  have hframes : s.frames (.request client body) =
      some [.recv (some client), .recv (some []), .recv (some body)] := if_pos hpc
  simp only [Machine.respond, hframes, Machine.exec, lbbroker, lbbrokerStep, hpc, recvEmpty_nil,
    onRequest_text hbody identity, hhead, hid]
  exact ⟨_, rfl, rfl, rfl, rfl, rfl⟩

end

section

variable {t : Lbbroker2State} {revents1 : Bool} {worker client body : Frame}

theorem respond_ready (hpc : t.pc = .backend revents1) (text : Frame) :
    lbbroker2.respond message t (.ready worker text) =
      some ({ t with
        pc := Loadbalance2.afterBackend revents1
        workers := t.workers ++ [worker] }, []) := by
  simp only [Machine.respond, message, hpc]
  apply Machine.exec_singleton
  simp only [lbbroker2, lbbroker2Step, hpc]
  rfl

theorem respond_reply (hpc : t.pc = .backend revents1) (hclient : IsClient client) :
    lbbroker2.respond message t (.reply worker client body) =
      some ({ t with
        pc := Loadbalance2.afterBackend revents1
        workers := t.workers ++ [worker] }, [.toFrontend [client, [], body]]) := by
  simp only [Machine.respond, message, hpc]
  apply Machine.exec_singleton
  simp [lbbroker2, lbbroker2Step, hpc, Loadbalance2.onBackend, Zmsg.unwrap, Zmsg.first,
    hclient.startsWith]

theorem respond_request {rest : List Frame} (hpc : t.pc = .frontend)
    (hworkers : t.workers = worker :: rest) :
    lbbroker2.respond message t (.request client body) =
      some ({ t with pc := .poll, workers := rest },
        [.toBackend [worker, [], client, [], body]]) := by
  simp only [Machine.respond, message, if_pos hpc]
  apply Machine.exec_singleton
  simp [lbbroker2, lbbroker2Step, hpc, Loadbalance2.onFrontend, hworkers, Zmsg.wrap]

end

section

variable {os : List LbbrokerEffect} {s : LbbrokerState} {crowd : Crowd} {t : Lbbroker2State}

/-- Both respond to the input with the same messages and go on together, or the
last client has been counted. -/
def Together (os : List LbbrokerEffect) (s : LbbrokerState) (crowd : Crowd)
    (t : Lbbroker2State) (input : Input) : Prop :=
  ∃ s' t' out, lbbroker.respond LbbrokerState.frames s input = some (s', out) ∧
    lbbroker2.respond message t input = some (t', out) ∧
    (Related (os ++ out) s' (crowd.after input out) t' ∨ Finished (os ++ out) s')

theorem whole_afterPoll (workers : List Frame) {available : Bool} (revents0 revents1 : Bool)
    (h : available = !workers.isEmpty) :
    (afterPoll available revents0 revents1).whole =
      some (Loadbalance2.afterPoll workers revents0 revents1) := by
  subst h
  unfold afterPoll Loadbalance2.afterPoll
  cases revents0 <;> cases revents1 <;> cases workers <;> rfl

theorem whole_afterBackend (revents1 : Bool) :
    (afterBackend revents1).whole = some (Loadbalance2.afterBackend revents1) := by
  cases revents1 <;> rfl

/-- The points at which a message or a poll is waited for. -/
theorem Related.point_cases (h : Related os s crowd t) :
    s.pc = .poll ∧ t.pc = .poll ∨
      (∃ revents1, s.pc = .workerId revents1 ∧ t.pc = .backend revents1) ∨
        s.pc = .frontendClientId ∧ t.pc = .frontend ∨ s.pc = .stopped ∧ t.pc = .stopped := by
  have point := h.point
  cases hpc : s.pc <;> rw [hpc] at point <;> simp [LbbrokerPc.whole] at point ⊢ <;>
    exact point.symm

theorem Related.poll (h : Related os s crowd t) (hs : s.pc = .poll) (ht : t.pc = .poll)
    (rc : Option (Bool × Bool)) : Together os s crowd t (.poll rc) := by
  have hframes : s.frames (.poll rc) = some [.poll rc] := if_pos hs
  have hmessage : message t (.poll rc) = some [.poll rc] := if_pos ht
  have hcrowd : crowd.after (.poll rc) [] = crowd := by simp [Crowd.after, dispatched]
  cases rc with
  | none =>
      refine ⟨{ s with pc := .stopped }, { t with pc := .stopped }, [], ?_, ?_, Or.inl ?_⟩
      · simp [Machine.respond, hframes, Machine.exec, lbbroker, lbbrokerStep, hs]
      · simp [Machine.respond, hmessage, Machine.exec, lbbroker2, lbbroker2Step, ht]
      · rw [List.append_nil, hcrowd]
        have gate : LbbrokerPc.stopped.needsWorker → t.workers ≠ [] :=
          fun needs => absurd needs Bool.false_ne_true
        exact ⟨rfl, h.queue, gate, h.lists, h.count, h.more⟩
  | some revents =>
      obtain ⟨revents0, revents1⟩ := revents
      have havailable : decide (s.availableWorkers ≠ 0) = !t.workers.isEmpty := by
        rw [h.queue.1]
        cases t.workers <;> simp
      refine ⟨{ s with pc := afterPoll (s.availableWorkers ≠ 0) revents0 revents1 },
        { t with pc := Loadbalance2.afterPoll t.workers revents0 revents1 }, [], ?_, ?_,
        Or.inl ?_⟩
      · simp [Machine.respond, hframes, Machine.exec, lbbroker, lbbrokerStep, hs]
      · simp [Machine.respond, hmessage, Machine.exec, lbbroker2, lbbroker2Step, ht]
      · rw [List.append_nil, hcrowd]
        refine ⟨whole_afterPoll t.workers revents0 revents1 havailable, h.queue, ?_, h.lists,
          h.count, h.more⟩
        intro needs hnil
        have available := needsWorker_afterPoll needs
        rw [havailable, hnil] at available
        cases available

/-- A READY is read by both. -/
theorem Related.ready (h : Related os s crowd t) {revents1 : Bool}
    (hs : s.pc = .workerId revents1) (ht : t.pc = .backend revents1) {worker text : Frame}
    (offered : crowd.Offers (.ready worker text)) :
    Together os s crowd t (.ready worker text) := by
  obtain ⟨few, new, identity, htext⟩ := offered
  obtain ⟨room, lists⟩ := h.lists.ready few new identity
  have hroom : s.availableWorkers < nbrWorkers := by rw [h.queue.1]; exact room
  obtain ⟨s', hexec, hpc, havailable, hqueue, hclients⟩ := exec_ready hs hroom identity.1 htext
  refine ⟨s', _, [], hexec, respond_ready ht text, Or.inl ?_⟩
  have hcrowd : crowd.after (.ready worker text) [] =
      { crowd with announced := crowd.announced ++ [worker] } := by
    simp [Crowd.after, dispatched]
  rw [List.append_nil, hcrowd]
  constructor
  · rw [hpc]
    exact whole_afterBackend revents1
  · rw [havailable, hqueue]
    exact h.queue.push (Nat.lt_trans room (by decide)) worker
  · intro _
    simp
  · exact lists
  · rw [hclients]
    exact h.count
  · exact h.more

/-- A reply is read by both and passed on. -/
theorem Related.reply (h : Related os s crowd t) {revents1 : Bool}
    (hs : s.pc = .workerId revents1) (ht : t.pc = .backend revents1)
    {worker client body : Frame} (offered : crowd.Offers (.reply worker client body)) :
    Together os s crowd t (.reply worker client body) := by
  obtain ⟨hbusy, hclient, hbody⟩ := offered
  obtain ⟨room, lists⟩ := h.lists.reply hbusy
  have identity := h.lists.identities worker (h.lists.busy_known hbusy)
  have hroom : s.availableWorkers < nbrWorkers := by rw [h.queue.1]; exact room
  obtain ⟨s', hexec, hpc, havailable, hqueue, hclients⟩ :=
    exec_reply hs hroom identity.1 hclient hbody
  refine ⟨s', _, _, hexec, respond_reply ht hclient, ?_⟩
  have hcrowd : crowd.after (.reply worker client body) [.toFrontend [client, [], body]] =
      { crowd with busy := crowd.busy.filter (· ≠ worker) } := by
    simp [Crowd.after, dispatched]
  have hreplies : replies (os ++ [.toFrontend [client, [], body]]) = replies os + 1 := by
    simp [replies]
  have hmore := h.more
  have hcount := h.count
  rw [hcrowd]
  by_cases hlast : s.clientNbr - 1 = 0
  · right
    rw [if_pos hlast] at hpc
    refine ⟨hpc, ?_⟩
    rw [hreplies]
    omega
  · left
    rw [if_neg hlast] at hpc
    constructor
    · rw [hpc]
      exact whole_afterBackend revents1
    · rw [havailable, hqueue]
      exact h.queue.push (Nat.lt_trans room (by decide)) worker
    · intro _
      simp
    · exact lists
    · rw [hclients, hreplies]
      omega
    · rw [hreplies]
      omega

/-- A request is read by both and sent to the same worker. -/
theorem Related.request (h : Related os s crowd t) (hs : s.pc = .frontendClientId)
    (ht : t.pc = .frontend) {client body : Frame} (offered : crowd.Offers (.request client body)) :
    Together os s crowd t (.request client body) := by
  obtain ⟨hclient, hbody⟩ := offered
  have gate := h.gate
  rw [hs] at gate
  cases hworkers : t.workers with
  | nil => exact absurd hworkers (gate rfl)
  | cons worker rest =>
      have lists := h.lists
      have queue := h.queue
      rw [hworkers] at lists queue
      have identity := lists.identities worker (lists.known List.mem_cons_self)
      have hlength : rest.length < 9 := by
        have hle := (List.subperm_of_subset lists.nodup lists.known).length_le
        have hfew := lists.few
        rw [List.length_cons] at hle
        have hnbr : nbrWorkers = 3 := rfl
        omega
      obtain ⟨hhead, hpopped⟩ := queue.pop hlength
      obtain ⟨s', hexec, hpc, havailable, hqueue, hclients⟩ :=
        exec_request hs hhead identity.1 hclient.1.1 hbody
      refine ⟨s', _, _, hexec, respond_request ht hworkers, Or.inl ?_⟩
      have hcrowd : crowd.after (.request client body)
          [.toBackend [worker, [], client, [], body]] =
            { crowd with busy := crowd.busy ++ [worker] } := by
        simp [Crowd.after, dispatched]
      have hreplies : replies (os ++ [.toBackend [worker, [], client, [], body]]) =
          replies os := by
        simp [replies]
      rw [hcrowd]
      constructor
      · rw [hpc]
        rfl
      · rw [havailable, hqueue]
        exact hpopped
      · rw [hpc]
        exact nofun
      · exact lists.dispatch
      · rw [hclients, hreplies]
        exact h.count
      · rw [hreplies]
        exact h.more

end

/-- The two main loops agree on every input. -/
theorem main_loops_agree :
    Machine.Agree lbbroker lbbroker2 lockstep LbbrokerState.frames message Related Finished where
  init := by
    constructor
    · rfl
    · exact ⟨rfl, rfl⟩
    · exact nofun
    · constructor <;> simp [lockstep, lbbroker2, Loadbalance2.lbbroker2Init]
    · rfl
    · decide
  step := by
    intro os s crowd t input related offers
    have offered : crowd.Offers input := of_decide_eq_true offers
    rcases related.point_cases with ⟨hs, ht⟩ | ⟨revents1, hs, ht⟩ | ⟨hs, ht⟩ | ⟨hs, ht⟩
    · cases input with
      | poll rc => exact Or.inr (related.poll hs ht rc)
      | _ => exact Or.inl (by simp [Machine.respond, LbbrokerState.frames, message, hs, ht])
    · cases input with
      | ready worker text => exact Or.inr (related.ready hs ht offered)
      | reply worker client body => exact Or.inr (related.reply hs ht offered)
      | _ => exact Or.inl (by simp [Machine.respond, LbbrokerState.frames, message, hs, ht])
    · cases input with
      | request client body => exact Or.inr (related.request hs ht offered)
      | _ => exact Or.inl (by simp [Machine.respond, LbbrokerState.frames, message, hs, ht])
    · left
      cases input <;> simp [Machine.respond, LbbrokerState.frames, message, hs, ht]
  finished := by
    intro os s input finished
    cases input <;> simp [Machine.respond, LbbrokerState.frames, finished.1]

/-- What `lbbroker.c` does with a sequence of inputs `lbbroker2.c` does as well;
and what `lbbroker2.c` does `lbbroker.c` does, or it does the same for a first
part of the inputs and then has sent its last reply. -/
theorem same_functionality :
    (∀ inputs os p, (lbbroker.driven lockstep LbbrokerState.frames).Run inputs os p →
      ∃ q, (lbbroker2.driven lockstep message).Run inputs os q) ∧
    (∀ inputs os q, (lbbroker2.driven lockstep message).Run inputs os q →
      (∃ p, (lbbroker.driven lockstep LbbrokerState.frames).Run inputs os p) ∨
        ∃ first rest sent later p, inputs = first ++ rest ∧ os = sent ++ later ∧
          (lbbroker.driven lockstep LbbrokerState.frames).Run first sent p ∧
          p.1.pc = .done ∧ replies sent = nbrClients) := by
  constructor
  · intro inputs os p run
    obtain ⟨t, matched, -⟩ := main_loops_agree.forward run
    exact ⟨_, matched⟩
  · intro inputs os q run
    rcases main_loops_agree.backward run with ⟨s, matched, -⟩ | finished
    · exact Or.inl ⟨_, matched⟩
    · right
      obtain ⟨first, rest, sent, later, p, hinputs, hos, hrun, hdone, hreplies⟩ := finished
      exact ⟨first, rest, sent, later, p, hinputs, hos, hrun, hdone, hreplies⟩

/-- A worker announces itself and replies to as many clients as are given. -/
def oneWorker (clients : List Frame) : List Input :=
  [.poll (some (true, false)), .ready [65] [119, 91, 65, 93]] ++
    clients.flatMap fun client =>
      [.poll (some (false, true)), .request client [104, 105],
        .poll (some (true, false)), .reply [65] client [111, 107]]

/-- Of eleven clients `lbbroker.c` answers ten. -/
theorem same_functionality_sample :
    (∃ os q, (lbbroker2.driven lockstep message).Run (oneWorker [[66], [67]]) os q) ∧
      ∃ first rest sent p,
        oneWorker [[66], [67], [68], [69], [70], [71], [72], [73], [74], [75], [76]] =
          first ++ rest ∧
        (lbbroker.driven lockstep LbbrokerState.frames).Run first sent p ∧
        p.1.pc = .done ∧ replies sent = nbrClients := by
  constructor
  · have hexec : ((lbbroker.driven lockstep LbbrokerState.frames).exec
        (lbbroker.driven lockstep LbbrokerState.frames).init (oneWorker [[66], [67]])).map
        (fun r => replies r.2) = some 2 := by decide +kernel
    obtain ⟨os, p, run, -⟩ := Machine.run_of_map_exec hexec
    obtain ⟨q, matched⟩ := same_functionality.1 _ _ _ run
    exact ⟨os, q, matched⟩
  · have hexec : ((lbbroker2.driven lockstep message).exec
        (lbbroker2.driven lockstep message).init
        (oneWorker [[66], [67], [68], [69], [70], [71], [72], [73], [74], [75], [76]])).map
        (fun r => replies r.2) = some 11 := by decide +kernel
    have hstuck : (lbbroker.driven lockstep LbbrokerState.frames).exec
        (lbbroker.driven lockstep LbbrokerState.frames).init
        (oneWorker [[66], [67], [68], [69], [70], [71], [72], [73], [74], [75], [76]]) = none := by
      decide +kernel
    obtain ⟨os, q, run, -⟩ := Machine.run_of_map_exec hexec
    rcases same_functionality.2 _ _ _ run with ⟨p, matched⟩ | finished
    · rw [matched.exec_eq] at hstuck
      cases hstuck
    · obtain ⟨first, rest, sent, later, p, hinputs, -, hrun, hdone⟩ := finished
      exact ⟨first, rest, sent, p, hinputs, hrun, hdone⟩

end ZmqTest.Loadbalance
