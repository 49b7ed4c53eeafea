/-
# Replies answer requests of their own client

The address of a client travels as a frame of the message. Wherever a message
is, it can be read off whose request it carries; no step makes two messages out
of one, so that a client which waits for an answer has at most one message under
way, with the body of the request it waits for. Its replies are therefore its
requests, in order and without the one it still waits for.
-/

import Mathlib.Data.List.Perm.Subperm
import ZmqTest.Ppq.Messages

namespace ZmqTest.Ppq

/-- The body of a request or a reply of a client, behind address and delimiter. -/
def bodyOf (client : Frame) : Zmsg → Option Zmsg
  | address :: _ :: body => if address = client then some body else none
  | _ => none

/-- The body a packet carries from a client or back to it. Between the queue and
a client the address is that of the connection. -/
def carried (client : Frame) : Loc × Zmsg → Option Zmsg
  | (.clientToQueue owner, msg) => bodyOf client (owner :: msg)
  | (.queueToClient owner, msg) => bodyOf client (owner :: msg)
  | (.queueToWorker _, msg) => bodyOf client msg
  | (.processing _, msg) => bodyOf client msg
  | (.workerToQueue _, msg) => bodyOf client msg

/-- The bodies under way for a client, at any place. -/
def inTransit (net : Network Loc Zmsg) (client : Frame) : List Zmsg :=
  net.filterMap (carried client)

/-- The bodies a client has sent. -/
def requests (client : Frame) (os : List SystemOutput) : List Zmsg :=
  os.filterMap fun
    | .request sender body => if sender = client then some body else none
    | _ => none

/-- The bodies a client has received. -/
def replies (client : Frame) (os : List SystemOutput) : List Zmsg :=
  os.filterMap fun
    | .reply receiver body => if receiver = client then some body else none
    | _ => none

/-- The body of the request a client waits for. -/
def pendingOf : Option ClientState → List Zmsg
  | some (.waiting body) => [body]
  | _ => []

@[simp]
theorem requests_append (client : Frame) (os out : List SystemOutput) :
    requests client (os ++ out) = requests client os ++ requests client out :=
  List.filterMap_append

@[simp]
theorem replies_append (client : Frame) (os out : List SystemOutput) :
    replies client (os ++ out) = replies client os ++ replies client out :=
  List.filterMap_append

@[simp]
theorem requests_queue (client : Frame) (out : List QueueEffect) :
    requests client (out.map .queue) = [] := by
  simp [requests]

@[simp]
theorem replies_queue (client : Frame) (out : List QueueEffect) :
    replies client (out.map .queue) = [] := by
  simp [replies]

@[simp]
theorem requests_worker (client identity : Frame) (out : List WorkerEffect) :
    requests client (out.map (.worker identity)) = [] := by
  simp [requests]

@[simp]
theorem replies_worker (client identity : Frame) (out : List WorkerEffect) :
    replies client (out.map (.worker identity)) = [] := by
  simp [replies]

@[simp]
theorem inTransit_append (net more : Network Loc Zmsg) (client : Frame) :
    inTransit (net ++ more) client = inTransit net client ++ inTransit more client :=
  List.filterMap_append

theorem inTransit_of_recv {net left : Network Loc Zmsg} {loc : Loc} {msg : Zmsg}
    (read : net.recv loc = some (msg, left)) (client : Frame) :
    (inTransit net client).Perm
      ((carried client (loc, msg)).toList ++ inTransit left client) :=
  Network.filterMap_of_recv read (carried client)

theorem inTransit_singleton (packet : Loc × Zmsg) (client : Frame) :
    inTransit [packet] client = (carried client packet).toList := by
  cases h : carried client packet <;> simp [inTransit, h]

theorem inTransit_eq_nil {packets : Network Loc Zmsg} {client : Frame}
    (h : ∀ packet ∈ packets, carried client packet = none) : inTransit packets client = [] :=
  List.filterMap_eq_nil_iff.mpr h

/-- A message is taken and at most passed on: nothing more is under way. -/
theorem inTransit_of_relay {net left more : Network Loc Zmsg} {loc : Loc} {msg : Zmsg}
    {client : Frame} (read : net.recv loc = some (msg, left))
    (relayed : (inTransit more client).Sublist (carried client (loc, msg)).toList) :
    (inTransit (left ++ more) client).Subperm (inTransit net client) := by
  rw [inTransit_append]
  have hperm := inTransit_of_recv read client
  have hcomm : (inTransit left client ++ inTransit more client).Perm
      (inTransit more client ++ inTransit left client) := List.perm_append_comm
  have hle := (relayed.append_right (inTransit left client)).subperm
  exact (hcomm.subperm.trans hle).trans hperm.symm.subperm

theorem inTransit_of_drop {net left : Network Loc Zmsg} {loc : Loc} {msg : Zmsg}
    (read : net.recv loc = some (msg, left)) (client : Frame) :
    (inTransit left client).Subperm (inTransit net client) := by
  have hperm := inTransit_of_recv read client
  exact (List.sublist_append_right _ _).subperm.trans hperm.symm.subperm

/-- What carries nothing can be posted. -/
theorem inTransit_of_quiet {net more : Network Loc Zmsg} {client : Frame}
    (nothing : inTransit more client = []) :
    (inTransit (net ++ more) client).Subperm (inTransit net client) := by
  rw [inTransit_append, nothing, List.append_nil]

/-- Control messages carry nothing. -/
theorem carried_control (client place : Frame) {msg : Zmsg}
    (control : msg = [pppReady] ∨ msg = [pppHeartbeat]) :
    carried client (.workerToQueue place, msg) = none := by
  cases control with
  | inl ready => rw [ready]; rfl
  | inr beat => rw [beat]; rfl

theorem inTransit_of_control {place client : Frame} {out : List WorkerEffect}
    (control : ∀ msg ∈ sends out, msg = [pppReady] ∨ msg = [pppHeartbeat]) :
    inTransit ((sends out).map fun msg => (Loc.workerToQueue place, msg)) client = [] := by
  apply inTransit_eq_nil
  intro packet posted
  obtain ⟨msg, hmem, rfl⟩ := List.mem_map.mp posted
  exact carried_control client place (control msg hmem)

/-- What holds for a client between any two steps. -/
structure Correlated (os : List SystemOutput) (s : SystemState) (client : Frame) : Prop where
  answered : requests client os = replies client os ++ pendingOf (s.client client)
  transit : (inTransit s.net client).Subperm (pendingOf (s.client client))

theorem Correlated.keep {os out : List SystemOutput} {s t : SystemState} {client : Frame}
    (h : Correlated os s client) (asked : requests client out = [])
    (told : replies client out = []) (same : t.client client = s.client client)
    (fewer : (inTransit t.net client).Subperm (inTransit s.net client)) :
    Correlated (os ++ out) t client where
  answered := by
    rw [requests_append, replies_append, asked, told, same, List.append_nil, List.append_nil]
    exact h.answered
  transit := by
    rw [same]
    exact fewer.trans h.transit

/-- A client that sends has nothing under way. -/
theorem Correlated.request {os : List SystemOutput} {s : SystemState} {client : Frame}
    (h : Correlated os s client) (idle : s.client client = some .idle) (body : Zmsg) :
    requests client os ++ [body] = replies client os ++ [body] ∧
      inTransit s.net client = [] := by
  have hanswered := h.answered
  have htransit := h.transit
  rw [idle] at hanswered htransit
  refine ⟨?_, List.subperm_nil.mp htransit⟩
  rw [hanswered]
  simp [pendingOf]

/-- What is under way for a client that waits is what it waits for, once. -/
theorem Correlated.pending {os : List SystemOutput} {s : SystemState} {client : Frame}
    (h : Correlated os s client) {body : Zmsg} (hmem : body ∈ inTransit s.net client) :
    s.client client = some (.waiting body) := by
  have hpending := h.transit.subset hmem
  cases hclient : s.client client with
  | none => simp [hclient, pendingOf] at hpending
  | some state =>
      cases state with
      | idle => simp [hclient, pendingOf] at hpending
      | waiting other =>
          have hsame : body = other := by simpa [hclient, pendingOf] using hpending
          rw [hsame]

/-- The reply to a waiting client is the body it waits for. -/
theorem Correlated.reply {os : List SystemOutput} {s : SystemState} {client : Frame}
    (h : Correlated os s client) {body : Zmsg} {net : Network Loc Zmsg}
    (read : s.net.recv (.queueToClient client) = some ([] :: body, net)) :
    s.client client = some (.waiting body) ∧ inTransit net client = [] := by
  have hperm := inTransit_of_recv read client
  have hcarried : carried client (.queueToClient client, [] :: body) = some body := if_pos rfl
  rw [hcarried, Option.toList_some] at hperm
  have hwaits : s.client client = some (.waiting body) :=
    h.pending (hperm.mem_iff.mpr List.mem_cons_self)
  have hle := hperm.symm.subperm.trans h.transit
  rw [hwaits] at hle
  have hlength := hle.length_le
  refine ⟨hwaits, List.length_eq_zero_iff.mp ?_⟩
  simp [pendingOf] at hlength
  simpa using hlength

theorem posted_reply (s : SystemState) (identity client : Frame) (now : Int) (body : Zmsg) :
    [.ready identity now, .toFrontend (client :: body)].filterMap s.route =
      if (s.client client).isSome then [(.queueToClient client, body)] else [] := by
  by_cases connected : (s.client client).isSome <;>
    simp [List.filterMap_cons, SystemState.route, connected]

/-- A client that connects has asked nothing and waits for nothing. -/
theorem Correlated.connect {os : List SystemOutput} {s : SystemState} {client newcomer : Frame}
    (h : Correlated os s client) (absent : s.client newcomer = none) :
    Correlated (os ++ [])
      { s with client := Function.update s.client newcomer (some .idle) } client := by
  by_cases heq : client = newcomer
  · subst newcomer
    have hanswered := h.answered
    have htransit := h.transit
    rw [absent] at hanswered htransit
    constructor
    · simpa [pendingOf] using hanswered
    · simpa [pendingOf] using htransit
  · exact h.keep rfl rfl (Function.update_of_ne heq _ _) (List.Subperm.refl _)

/-- A client that asks waits for what it has asked, which is under way once. -/
theorem Correlated.asks {os : List SystemOutput} {s : SystemState} {client sender : Frame}
    (h : Correlated os s client) (idle : s.client sender = some .idle) (body : Zmsg) :
    Correlated (os ++ [.request sender body])
      { s with
        client := Function.update s.client sender (some (.waiting body))
        net := s.net.send (.clientToQueue sender) ([] :: body) } client := by
  have hsent : inTransit (s.net.send (.clientToQueue sender) ([] :: body)) client =
      inTransit s.net client ++ if sender = client then [body] else [] := by
    rw [Network.send, inTransit_append, inTransit_singleton]
    by_cases heq : sender = client <;> simp [carried, bodyOf, heq]
  by_cases heq : client = sender
  · subst sender
    obtain ⟨hanswered, hnone⟩ := h.request idle body
    constructor
    · simpa [requests, replies, pendingOf] using hanswered
    · simp [hsent, hnone, pendingOf]
  · have hasked : requests client [.request sender body] = [] := by
      simp [requests, Ne.symm heq]
    refine h.keep hasked rfl (Function.update_of_ne heq _ _) ?_
    rw [hsent, if_neg (Ne.symm heq), List.append_nil]

/-- A client that is told what it waits for waits no longer. -/
theorem Correlated.told {os : List SystemOutput} {s : SystemState} {client receiver : Frame}
    (h : Correlated os s client) {body : Zmsg} {net : Network Loc Zmsg}
    (read : s.net.recv (.queueToClient receiver) = some ([] :: body, net)) :
    Correlated (os ++ [.reply receiver body])
      { s with client := Function.update s.client receiver (some .idle), net := net } client := by
  by_cases heq : client = receiver
  · subst receiver
    obtain ⟨hwaits, hnone⟩ := h.reply read
    have hanswered := h.answered
    rw [hwaits] at hanswered
    constructor
    · simpa [requests, replies, pendingOf] using hanswered
    · simp [hnone, pendingOf]
  · have htold : replies client [.reply receiver body] = [] := by
      simp [replies, Ne.symm heq]
    refine h.keep rfl htold (Function.update_of_ne heq _ _) ?_
    exact inTransit_of_drop read client

/-- Every step keeps the invariant. -/
theorem Correlated.step {os out : List SystemOutput} {s t : SystemState} {e : SystemEvent}
    {client : Frame} (h : Correlated os s client) (shaped : WellFormed s.net)
    (moved : system.step s e = some (t, out)) : Correlated (os ++ out) t client := by
  cases systemMoves_of_step moved with
  | connect newcomer named absent => exact h.connect absent
  | request sender body idle content => exact h.asks idle body
  | reply receiver pending body net waits read => exact h.told read
  | malformed receiver pending msg net waits read delimiter =>
      refine h.keep rfl rfl rfl ?_
      exact inTransit_of_drop read client
  | queue e next effects receives taken =>
      refine h.keep (requests_queue _ _) (replies_queue _ _) rfl (inTransit_of_quiet ?_)
      apply inTransit_eq_nil
      intro packet posted
      obtain ⟨identity, rfl⟩ := posted_of_quiet receives taken posted
      rfl
  | queueBackend identity now msg net next effects read taken =>
      refine h.keep (requests_queue _ _) (replies_queue _ _) rfl ?_
      apply inTransit_of_relay read
      rcases out_of_backend (shaped.read read) taken with ⟨frame, -, rfl⟩ |
        ⟨owner, frame, -, rfl, rfl⟩
      · exact List.nil_sublist _
      · rw [posted_reply]
        split
        · exact (inTransit_singleton _ _).symm ▸ List.Sublist.refl _
        · exact List.nil_sublist _
  | queueFrontend sender msg net next effects read taken =>
      refine h.keep (requests_queue _ _) (replies_queue _ _) rfl ?_
      apply inTransit_of_relay read
      obtain ⟨-, body, -, rfl⟩ := shaped.read read
      rcases posted_of_frontend taken with hnone | ⟨identity, hone⟩
      · rw [hnone]
        exact List.nil_sublist _
      · rw [hone, inTransit_singleton]
        exact List.Sublist.refl _
  | workerStart fresh now next effects taken =>
      refine h.keep (requests_worker _ _ _) (replies_worker _ _ _) rfl (inTransit_of_quiet ?_)
      exact inTransit_of_control fun msg => sends_of_quiet rfl taken
  | worker identity fresh e before next effects runs receives taken =>
      refine h.keep (requests_worker _ _ _) (replies_worker _ _ _) rfl (inTransit_of_quiet ?_)
      exact inTransit_of_control fun msg => sends_of_quiet receives taken
  | takes identity msg net read =>
      refine h.keep rfl rfl rfl ?_
      apply inTransit_of_relay read
      rw [inTransit_singleton]
      exact List.Sublist.refl _
  | handles identity draws interrupted msg net before next effects runs read taken =>
      refine h.keep (requests_worker _ _ _) (replies_worker _ _ _) rfl ?_
      apply inTransit_of_relay read
      rcases sends_of_recv taken with hnone | ⟨hone, -⟩
      · rw [hnone]
        exact List.nil_sublist _
      · rw [hone, List.map_singleton, inTransit_singleton]
        exact List.Sublist.refl _
  | killed identity => exact h.keep rfl rfl rfl (List.Subperm.refl _)
  | disconnect identity gone => exact h.keep rfl rfl rfl (List.Subperm.refl _)
  | lose index =>
      refine h.keep rfl rfl rfl ?_
      exact ((List.eraseIdx_sublist s.net index).filterMap _).subperm

theorem correlated_of_run {es : List SystemEvent} {os : List SystemOutput} {s : SystemState}
    (run : system.Run es os s) (client : Frame) : Correlated os s client := by
  induction run with
  | start => exact ⟨rfl, List.Subperm.refl _⟩
  | extend prior moved ih => exact ih.step (wellFormed_of_run prior) moved

/-- What is delivered to a client is the body it waits for. -/
theorem waiting_of_reply {os out : List SystemOutput} {s t : SystemState} {e : SystemEvent}
    {client : Frame} {body : Zmsg} (h : Correlated os s client)
    (moved : system.step s e = some (t, out)) (delivered : .reply client body ∈ out) :
    s.client client = some (.waiting body) := by
  cases systemMoves_of_step moved with
  | reply receiver pending content net waits read =>
      simp only [List.mem_singleton, SystemOutput.reply.injEq] at delivered
      obtain ⟨rfl, rfl⟩ := delivered
      exact (h.reply read).1
  | _ => simp at delivered

theorem forwarded_of_backend {s : SystemState} {identity : Frame} {msg sent : Zmsg} {now : Int}
    {queue : QueueState} {out : List QueueEffect}
    (shaped : Shaped (.workerToQueue identity, msg))
    (taken : queueStep s.queue (.recvBackend (some (identity :: msg)) now) = some (queue, out))
    (forwarded : .toFrontend sent ∈ out) :
    sent = msg ∧ ∃ client frame, msg = [client, [], frame] := by
  rcases out_of_backend shaped taken with ⟨frame, -, rfl⟩ | ⟨client, frame, -, hmsg, rfl⟩
  · simp at forwarded
  · exact ⟨by simpa using forwarded, client, frame, hmsg⟩

/-- Only the backend branch forwards anything to a client. -/
theorem recvBackend_of_forwarded {queue next : QueueState} {e : QueueEvent}
    {out : List QueueEffect} {msg : Zmsg} (taken : queueStep queue e = some (next, out))
    (forwarded : .toFrontend msg ∈ out) : ∃ read now, e = .recvBackend (some read) now := by
  cases queueMoves_of_step taken with
  | backend revents1 read now => exact ⟨read, now, rfl⟩
  | frontend => simp at forwarded
  | beat => simp [heartbeats] at forwarded
  | purge => simp at forwarded
  | _ => cases forwarded

/-- What is forwarded to a client is a reply with the body the client waits for. -/
theorem waiting_of_forwarded {s t : SystemState} {e : SystemEvent}
    {out os : List SystemOutput} {msg : Zmsg} (h : ∀ client, Correlated os s client)
    (shaped : WellFormed s.net) (moved : system.step s e = some (t, out))
    (forwarded : .queue (.toFrontend msg) ∈ out) :
    ∃ client frame, msg = [client, [], frame] ∧
      s.client client = some (.waiting [frame]) := by
  cases systemMoves_of_step moved with
  | queue e next effects receives taken =>
      obtain ⟨read, now, rfl⟩ := recvBackend_of_forwarded taken (by simpa using forwarded)
      cases receives
  | queueFrontend client read net next effects _ taken =>
      obtain ⟨_, _, hevent⟩ := recvBackend_of_forwarded taken (by simpa using forwarded)
      cases hevent
  | queueBackend identity now read net next effects got taken =>
      obtain ⟨rfl, client, frame, rfl⟩ :=
        forwarded_of_backend (shaped.read got) taken (by simpa using forwarded)
      refine ⟨client, frame, rfl, (h client).pending ?_⟩
      apply List.mem_filterMap.mpr
      exact ⟨_, Network.mem_of_recv got, by simp [carried, bodyOf]⟩
  | _ => simp at forwarded

/-- The replies a client has received are its own requests, in order and each
once, up to the one it still waits for. A reply carries the body its client
waits for when it is delivered and when the queue forwards it; nothing else is
ever forwarded to a client. -/
theorem replies_answer_own_requests {es : List SystemEvent} {os : List SystemOutput}
    {s : SystemState} (run : system.Run es os s) :
    (∀ client, requests client os = replies client os ++ pendingOf (s.client client)) ∧
    (∀ e t out client body, system.step s e = some (t, out) → .reply client body ∈ out →
      s.client client = some (.waiting body)) ∧
    (∀ e t out msg, system.step s e = some (t, out) → .queue (.toFrontend msg) ∈ out →
      ∃ client frame, msg = [client, [], frame] ∧
        s.client client = some (.waiting [frame])) := by
  have correlated := correlated_of_run run
  refine ⟨fun client => (correlated client).answered, ?_, ?_⟩
  · intro e t out client body moved delivered
    exact waiting_of_reply (correlated client) moved delivered
  · intro e t out msg moved forwarded
    exact waiting_of_forwarded correlated (wellFormed_of_run run) moved forwarded

/-- A worker answers one of two clients; the other one still waits. -/
def answeredRun : List SystemEvent :=
  [.workerStart [5] 0, .queue (.setup 0), .clientConnect [1], .clientConnect [2],
    .clientSend [1] [[9]], .clientSend [2] [[8]], .queue (.poll (some (true, false))),
    .queueBackend [5] 10, .queue (.heartbeat [20]), .queue (.purge [30]),
    .queue (.poll (some (false, true))), .queueFrontend [2],
    .worker [5] (.poll (some true)) [], .workerTakes [5], .workerHandles [5] [] false,
    .queue (.heartbeat [40]), .queue (.purge []), .queue (.poll (some (true, false))),
    .queueBackend [5] 50, .clientRecv [2]]

theorem replies_answer_own_requests_sample :
    ∃ os s, system.Run answeredRun os s ∧ replies [2] os = [[[8]]] ∧
      requests [2] os = replies [2] os ++ pendingOf (s.client [2]) ∧
      requests [1] os = replies [1] os ++ pendingOf (s.client [1]) := by
  have answered : (system.exec system.init answeredRun).map (fun r => replies [2] r.2) =
      some [[[8]]] := by decide
  obtain ⟨os, s, run, hsee⟩ := Machine.run_of_map_exec answered
  have h := (replies_answer_own_requests run).1
  exact ⟨os, s, run, hsee, h [2], h [1]⟩

end ZmqTest.Ppq
