/-
# Unanswered requests and the list of available workers

A request is owed by a worker from its dispatch until the queue reads the reply; one
that is lost, or that an overloaded worker swallows, is owed no longer. Every message
of a worker lists it as available, a heartbeat as well as a reply; so a control message
that crosses a request on its way lists a worker that still owes an answer, and the
queue dispatches to it again. What bounds the requests a worker owes is the number of
these crossings: it never owes more than one request beyond them, and none while it is
listed if there were none.
-/

import ZmqTest.Ppq.Messages

namespace ZmqTest.Ppq

/-- The worker whose connection or hands a location is. -/
def Loc.worker? : Loc → Option Frame
  | .queueToWorker identity => some identity
  | .processing identity => some identity
  | .workerToQueue identity => some identity
  | _ => none

/-- The queue's test for control messages. -/
def isControl (msg : Zmsg) : Bool := msg.length = 1

/-- Is the packet a request a worker has been sent, or its reply? -/
def owed (identity : Frame) (packet : Loc × Zmsg) : Bool :=
  packet.1.worker? = some identity && !isControl packet.2

/-- The requests on their way to a worker, being processed by it, or with their
reply on its way back. -/
def unanswered (net : Network Loc Zmsg) (identity : Frame) : Nat := net.countP (owed identity)

/-- One when the worker is listed as available. -/
def listed (queue : QueueState) (identity : Frame) : Nat :=
  if identity ∈ identities queue.workers then 1 else 0

/-- The queue reads a control message of a worker that owes an answer. -/
def crosses (s : SystemState) (identity : Frame) : SystemEvent → Bool
  | .queueBackend sender _ =>
      sender = identity && 0 < unanswered s.net identity &&
        match s.net.recv (.workerToQueue identity) with
        | some (msg, _) => isControl msg
        | none => false
  | _ => false

/-- The crossings of each worker since it last owed nothing. -/
def noteCrossings (past : Frame → Nat) (s : SystemState) (e : SystemEvent)
    (t : SystemState) : Frame → Nat := fun identity =>
  if unanswered t.net identity = 0 then 0
  else if crosses s identity e then past identity + 1
  else past identity

/-- The system, with the crossings counted along. -/
def crossingSystem : Machine (SystemState × (Frame → Nat)) SystemEvent SystemOutput :=
  system.observe (fun _ => 0) noteCrossings

@[simp]
theorem unanswered_append (net more : Network Loc Zmsg) (identity : Frame) :
    unanswered (net ++ more) identity = unanswered net identity + unanswered more identity :=
  List.countP_append

theorem unanswered_of_recv {net left : Network Loc Zmsg} {loc : Loc} {msg : Zmsg}
    (read : net.recv loc = some (msg, left)) (identity : Frame) :
    unanswered net identity =
      unanswered left identity + if owed identity (loc, msg) then 1 else 0 := by
  unfold unanswered
  rw [(Network.perm_of_recv read).countP_eq, List.countP_cons]

theorem unanswered_eq_zero {packets : Network Loc Zmsg} {identity : Frame}
    (control : ∀ packet ∈ packets, owed identity packet = false) :
    unanswered packets identity = 0 := by
  unfold unanswered
  rw [List.countP_eq_zero]
  intro packet hmem
  rw [control packet hmem]
  exact Bool.false_ne_true

theorem unanswered_le_of_sublist {net more : Network Loc Zmsg} (h : net.Sublist more)
    (identity : Frame) : unanswered net identity ≤ unanswered more identity :=
  h.countP_le

theorem owed_control (identity : Frame) (loc : Loc) (frame : Frame) :
    owed identity (loc, [frame]) = false := by
  simp [owed, isControl]

theorem unanswered_singleton (packet : Loc × Zmsg) (identity : Frame) :
    unanswered [packet] identity = if owed identity packet then 1 else 0 :=
  List.countP_singleton

theorem listed_le_one (queue : QueueState) (identity : Frame) : listed queue identity ≤ 1 := by
  unfold listed
  split <;> omega

theorem listed_mono {queue next : QueueState} {identity : Frame}
    (h : identity ∈ identities next.workers → identity ∈ identities queue.workers) :
    listed next identity ≤ listed queue identity := by
  unfold listed
  split
  case isTrue hmem => exact Nat.le_of_eq (if_pos (h hmem)).symm
  case isFalse _ => exact Nat.zero_le _

/-- Without a message nobody is added to the list. -/
theorem listed_of_quiet {queue next : QueueState} {e : QueueEvent} {out : List QueueEffect}
    (receives : e.receives = false) (taken : queueStep queue e = some (next, out))
    (identity : Frame) : listed next identity ≤ listed queue identity := by
  apply listed_mono
  cases queueMoves_of_step taken with
  | backend => cases receives
  | frontend => cases receives
  | underflow => cases receives
  | purge readings destroyed kept pc purged =>
      intro hmem
      rw [(workerPurge_spec purged).1, identities, List.map_append]
      exact List.mem_append_right _ hmem
  | _ => exact id

/-- A message changes the standing of its sender only. -/
theorem listed_of_backend {queue next : QueueState} {msg : Zmsg} {sender identity : Frame}
    {now : Int} {out : List QueueEffect} (nodup : (identities queue.workers).Nodup)
    (taken : queueStep queue (.recvBackend (some (sender :: msg)) now) = some (next, out))
    (hne : identity ≠ sender) : listed next identity = listed queue identity := by
  cases queueMoves_of_step taken with
  | backend revents1 _ _ address body pc unwrapped =>
      obtain ⟨rest, hcons⟩ := Zmsg.eq_cons_of_unwrap unwrapped
      obtain ⟨rfl, -⟩ := List.cons.inj hcons
      have hnext := identities_workerReady (workerNew sender now) nodup
      simp only [listed, hnext]
      simp [hne, workerNew]

/-- A dispatch takes its worker off the list and owes one request more there, at
most; with an empty list nothing is sent. -/
theorem listed_of_frontend {s : SystemState} {msg : Zmsg} {next : QueueState}
    {out : List QueueEffect} (nodup : (identities s.queue.workers).Nodup)
    (taken : queueStep s.queue (.recvFrontend (some msg)) = some (next, out))
    (identity : Frame) :
    listed next identity + unanswered (out.filterMap s.route) identity ≤
      listed s.queue identity := by
  cases queueMoves_of_step taken with
  | underflow => exact Nat.le_refl _
  | frontend _ worker rest pc hlist =>
      rw [hlist] at nodup
      obtain ⟨hnot, -⟩ := List.nodup_cons.mp nodup
      have hposted : unanswered ([.next worker.identity,
          .toBackend (worker.identity :: msg)].filterMap s.route) identity ≤
            if identity = worker.identity then 1 else 0 := by
        rw [posted_dispatch]
        split
        case isTrue _ =>
          by_cases heq : identity = worker.identity
          · rw [if_pos heq]
            exact List.countP_le_length
          · simp [unanswered, owed, Loc.worker?, Ne.symm heq]
        case isFalse _ => exact Nat.zero_le _
      by_cases heq : identity = worker.identity
      · rw [if_pos heq] at hposted
        have hnext : identity ∉ identities rest := heq ▸ hnot
        have hlisted : identity ∈ identities s.queue.workers := by
          rw [hlist]
          exact heq ▸ List.mem_cons_self
        simp only [listed, if_neg hnext, if_pos hlisted, Nat.zero_add]
        exact hposted
      · rw [if_neg heq] at hposted
        rw [Nat.le_zero.mp hposted]
        apply listed_mono
        intro hmem
        rw [hlist]
        exact List.mem_cons_of_mem _ hmem

/-! ## The bound -/

/-- What holds of a worker between any two steps. -/
def Bounded (s : SystemState) (crossed : Frame → Nat) (identity : Frame) : Prop :=
  listed s.queue identity + unanswered s.net identity ≤ 1 + crossed identity

/-- A step keeps the bound when it leaves nothing owed, does not raise the sum,
or is a crossing that owes no more than before. -/
theorem Bounded.keep {s t : SystemState} {e : SystemEvent} {crossed : Frame → Nat}
    {identity : Frame} (h : Bounded s crossed identity)
    (change : unanswered t.net identity = 0 ∨
      listed t.queue identity + unanswered t.net identity ≤
        listed s.queue identity + unanswered s.net identity ∨
      crosses s identity e ∧ unanswered t.net identity ≤ unanswered s.net identity) :
    Bounded t (noteCrossings crossed s e t) identity := by
  have hone := listed_le_one t.queue identity
  unfold Bounded at h ⊢
  unfold noteCrossings
  split
  case isTrue hzero => omega
  case isFalse hsome =>
    rcases change with hzero | hsum | ⟨hcross, hle⟩
    · exact absurd hzero hsome
    · split <;> omega
    · rw [if_pos hcross]
      omega

/-- A step that leaves the list alone may not owe more than before. -/
theorem Bounded.same_queue {s t : SystemState} {e : SystemEvent} {crossed : Frame → Nat}
    {identity : Frame} (h : Bounded s crossed identity) (same : t.queue = s.queue)
    (fewer : unanswered t.net identity ≤ unanswered s.net identity) :
    Bounded t (noteCrossings crossed s e t) identity := by
  apply h.keep
  rw [same]
  exact Or.inr (Or.inl (Nat.add_le_add_left fewer _))

/-- Nor may one that takes messages from the network and posts others. -/
theorem Bounded.posts {s t : SystemState} {e : SystemEvent} {crossed : Frame → Nat}
    {identity : Frame} {left more : Network Loc Zmsg} (h : Bounded s crossed identity)
    (same : t.queue = s.queue) (net : t.net = left ++ more)
    (fewer : unanswered left identity + unanswered more identity ≤ unanswered s.net identity) :
    Bounded t (noteCrossings crossed s e t) identity := by
  apply h.same_queue same
  rw [net, unanswered_append]
  exact fewer

/-- A message that is taken is owed no longer. -/
theorem unanswered_of_taken {net left : Network Loc Zmsg} {loc : Loc} {msg : Zmsg}
    (read : net.recv loc = some (msg, left)) (identity : Frame) :
    unanswered left identity ≤ unanswered net identity := by
  rw [unanswered_of_recv read]
  exact Nat.le_add_right _ _

/-- A reply answers a request; a control message does not, and crosses one if
there is one. -/
theorem Bounded.backend {s : SystemState} {crossed : Frame → Nat} {identity sender : Frame}
    {now : Int} {msg : Zmsg} {net : Network Loc Zmsg} {next : QueueState}
    {out : List QueueEffect} (h : Bounded s crossed identity) (shaped : WellFormed s.net)
    (nodup : (identities s.queue.workers).Nodup)
    (read : s.net.recv (.workerToQueue sender) = some (msg, net))
    (taken : queueStep s.queue (.recvBackend (some (sender :: msg)) now) = some (next, out)) :
    Bounded (s.afterQueue net next out)
      (noteCrossings crossed s (.queueBackend sender now) (s.afterQueue net next out))
      identity := by
  have hnone : unanswered (out.filterMap s.route) identity = 0 := by
    apply unanswered_eq_zero
    intro packet posted
    rcases out_of_backend (shaped.read read) taken with ⟨frame, -, rfl⟩ |
      ⟨client, frame, -, rfl, rfl⟩
    · cases posted
    · obtain ⟨effect, heffect, hroute⟩ := List.mem_filterMap.mp posted
      simp only [List.mem_cons, List.not_mem_nil, or_false] at heffect
      rcases heffect with rfl | rfl
      · cases hroute
      · simp only [SystemState.route, Option.ite_none_right_eq_some, Option.some.injEq] at hroute
        rw [← hroute.2]
        rfl
  have hnet : unanswered (s.afterQueue net next out).net identity = unanswered net identity := by
    simp [SystemState.afterQueue, hnone]
  have hread := unanswered_of_recv read identity
  apply h.keep
  rw [hnet]
  by_cases heq : identity = sender
  · subst sender
    by_cases hcontrol : isControl msg
    · have hsame : unanswered s.net identity = unanswered net identity := by
        simpa [owed, hcontrol] using hread
      by_cases hzero : unanswered net identity = 0
      · exact Or.inl hzero
      · have hcross : crosses s identity (.queueBackend identity now) := by
          simp [crosses, read, hcontrol, hsame, Nat.pos_of_ne_zero hzero]
        exact Or.inr (Or.inr ⟨hcross, by omega⟩)
    · have hone := listed_le_one next identity
      have hdone : unanswered s.net identity = unanswered net identity + 1 := by
        simpa [owed, Loc.worker?, hcontrol] using hread
      refine Or.inr (Or.inl ?_)
      show listed next identity + _ ≤ _
      omega
  · have hother : unanswered s.net identity = unanswered net identity := by
      simpa [owed, Loc.worker?, Ne.symm heq] using hread
    have hlisted := listed_of_backend nodup taken heq
    refine Or.inr (Or.inl ?_)
    show listed next identity + _ ≤ _
    omega

/-- What is sent without a message is not owed. -/
theorem unanswered_of_control {place identity : Frame} {out : List WorkerEffect}
    (control : ∀ msg ∈ sends out, msg = [pppReady] ∨ msg = [pppHeartbeat]) :
    unanswered ((sends out).map fun msg => (Loc.workerToQueue place, msg)) identity = 0 := by
  apply unanswered_eq_zero
  intro packet posted
  obtain ⟨msg, hmem, rfl⟩ := List.mem_map.mp posted
  cases control msg hmem with
  | inl ready => exact ready ▸ owed_control identity _ _
  | inr beat => exact beat ▸ owed_control identity _ _

/-- Every step keeps the bound. -/
theorem Bounded.step {s t : SystemState} {e : SystemEvent} {out : List SystemOutput}
    {crossed : Frame → Nat} {identity : Frame} (h : Bounded s crossed identity)
    (shaped : WellFormed s.net) (nodup : (identities s.queue.workers).Nodup)
    (moved : system.step s e = some (t, out)) :
    Bounded t (noteCrossings crossed s e t) identity := by
  cases systemMoves_of_step moved with
  | connect client named absent => exact h.same_queue rfl (Nat.le_refl _)
  | request client body idle content => exact h.posts rfl rfl (Nat.le_refl _)
  | reply client pending body net waits read =>
      exact h.same_queue rfl (unanswered_of_taken read identity)
  | malformed client pending msg net waits read =>
      exact h.same_queue rfl (unanswered_of_taken read identity)
  | queue e next effects receives taken =>
      apply h.keep
      have hnone : unanswered (effects.filterMap s.route) identity = 0 := by
        apply unanswered_eq_zero
        intro packet posted
        obtain ⟨other, rfl⟩ := posted_of_quiet receives taken posted
        exact owed_control identity _ _
      have hlisted := listed_of_quiet receives taken identity
      refine Or.inr (Or.inl ?_)
      show listed next identity + unanswered (s.net ++ _) identity ≤ _
      rw [unanswered_append, hnone]
      omega
  | queueBackend sender now msg net next effects read taken =>
      exact h.backend shaped nodup read taken
  | queueFrontend client msg net next effects read taken =>
      apply h.keep
      have hread := unanswered_of_recv read identity
      have hlisted := listed_of_frontend nodup taken identity
      refine Or.inr (Or.inl ?_)
      show listed next identity + unanswered (net ++ _) identity ≤ _
      rw [unanswered_append]
      omega
  | workerStart fresh now next effects taken =>
      refine h.posts rfl rfl ?_
      rw [unanswered_of_control fun msg => sends_of_quiet rfl taken]
      exact Nat.le_refl _
  | worker sender fresh e before next effects runs receives taken =>
      refine h.posts rfl rfl ?_
      rw [unanswered_of_control fun msg => sends_of_quiet receives taken]
      exact Nat.le_refl _
  | takes sender msg net read =>
      refine h.posts rfl rfl ?_
      rw [unanswered_of_recv read, unanswered_singleton]
      exact Nat.le_refl _
  | handles sender draws interrupted msg net before next effects runs read taken =>
      refine h.posts rfl rfl ?_
      rw [unanswered_of_recv read, placed_self]
      apply Nat.add_le_add_left
      rcases sends_of_recv taken with hnone | ⟨hone, -⟩
      · rw [hnone]
        exact Nat.zero_le _
      · rw [hone, List.map_singleton, unanswered_singleton]
        exact Nat.le_refl _
  | killed sender => exact h.same_queue rfl (Nat.le_refl _)
  | disconnect sender gone => exact h.same_queue rfl (Nat.le_refl _)
  | lose index =>
      exact h.same_queue rfl
        (unanswered_le_of_sublist (List.eraseIdx_sublist s.net index) identity)

/-- The bound holds of every worker in every state a run reaches. -/
theorem bounded_of_run {es : List SystemEvent} {os : List SystemOutput}
    {pair : SystemState × (Frame → Nat)} (run : crossingSystem.Run es os pair)
    (identity : Frame) : Bounded pair.1 pair.2 identity := by
  induction run with
  | start => exact Nat.zero_le _
  | extend prior taken ih =>
      obtain ⟨moved, hnote⟩ := Machine.step_of_observe taken
      rw [hnote]
      obtain ⟨_, _, alone⟩ := queue_run_of_system_run prior.of_observe
      exact ih.step (wellFormed_of_run prior.of_observe) (available_of_run alone).tracks.nodup moved

/-- What is sent to a worker and is no heartbeat goes to a listed one. -/
theorem listed_of_toBackend {queue next : QueueState} {e : QueueEvent} {out : List QueueEffect}
    {identity : Frame} {msg : Zmsg} (taken : queueStep queue e = some (next, out))
    (sent : .toBackend (identity :: msg) ∈ out) (request : msg ≠ [pppHeartbeat]) :
    identity ∈ identities queue.workers := by
  cases queueMoves_of_step taken with
  | backend revents1 content now address body pc unwrapped =>
      rcases body with _ | ⟨frame, _ | ⟨other, rest⟩⟩ <;> simp [forwardBackend] at sent
  | frontend content worker rest pc hlist =>
      simp only [List.mem_cons, List.not_mem_nil, or_false, reduceCtorEq, false_or,
        QueueEffect.toBackend.injEq, List.cons.injEq] at sent
      rw [hlist, sent.1]
      exact List.mem_cons_self
  | beat =>
      obtain ⟨worker, -, heq⟩ := List.mem_map.mp sent
      cases heq
      exact absurd rfl request
  | purge => simp at sent
  | _ => cases sent

/-- A request is dispatched to a listed worker. -/
theorem listed_of_dispatch {s t : SystemState} {e : SystemEvent} {out : List SystemOutput}
    {identity : Frame} {msg : Zmsg} (moved : system.step s e = some (t, out))
    (sent : .queue (.toBackend (identity :: msg)) ∈ out) (request : msg ≠ [pppHeartbeat]) :
    identity ∈ identities s.queue.workers := by
  cases systemMoves_of_step moved with
  | queue e next effects receives taken =>
      exact listed_of_toBackend taken (by simpa using sent) request
  | queueBackend sender now content net next effects read taken =>
      exact listed_of_toBackend taken (by simpa using sent) request
  | queueFrontend client content net next effects read taken =>
      exact listed_of_toBackend taken (by simpa using sent) request
  | _ => simp at sent

/-- A request that reaches the connection of a worker is owed by it. -/
theorem unanswered_of_dispatch {s t : SystemState} {client identity : Frame} {msg : Zmsg}
    {out : List SystemOutput} (shaped : WellFormed s.net)
    (moved : system.step s (.queueFrontend client) = some (t, out))
    (sent : .queue (.toBackend (identity :: msg)) ∈ out) (connected : s.routable identity) :
    unanswered t.net identity = unanswered s.net identity + 1 := by
  cases systemMoves_of_step moved with
  | queueFrontend _ content net next effects read taken =>
      obtain ⟨-, body, nonempty, rfl⟩ := shaped.read read
      have hread : unanswered s.net identity = unanswered net identity :=
        unanswered_of_recv read identity
      cases queueMoves_of_step taken with
      | underflow => cases sent
      | frontend _ worker rest pc hlist =>
          have hid : identity = worker.identity := by
            simp only [List.map_cons, List.map_nil, List.mem_cons, List.not_mem_nil, or_false,
              SystemOutput.queue.injEq, reduceCtorEq, false_or, QueueEffect.toBackend.injEq,
              List.cons.injEq] at sent
            exact sent.1
          show unanswered (net ++ _) identity = _
          rw [unanswered_append, posted_dispatch, ← hid, if_pos connected, unanswered_singleton,
            hread]
          simp [owed, Loc.worker?, isControl]

/-- Whatever message the queue reads from a worker lists it. -/
theorem listed_of_message {s t : SystemState} {sender : Frame} {now : Int}
    {out : List SystemOutput} (moved : system.step s (.queueBackend sender now) = some (t, out)) :
    sender ∈ identities t.queue.workers := by
  cases systemMoves_of_step moved with
  | queueBackend _ _ msg net next effects read taken =>
      cases queueMoves_of_step taken with
      | backend revents1 _ _ address body pc unwrapped =>
          obtain ⟨rest, hcons⟩ := Zmsg.eq_cons_of_unwrap unwrapped
          obtain ⟨rfl, -⟩ := List.cons.inj hcons
          exact List.mem_map_of_mem (List.mem_append_right _ (List.mem_singleton_self _))

/-- A worker owes at most one request beyond the control messages that crossed
one since it last owed nothing, and at most as many as these while it is listed.
So without a crossing a listed worker owes nothing, and a worker that a request is
dispatched to owes none at that time. What lists a worker is any message of it. -/
theorem unanswered_bounded_by_crossings {es : List SystemEvent} {os : List SystemOutput}
    {s : SystemState} {crossed : Frame → Nat} (run : crossingSystem.Run es os (s, crossed)) :
    (∀ identity, listed s.queue identity + unanswered s.net identity ≤ 1 + crossed identity) ∧
    (∀ identity, crossed identity = 0 → identity ∈ identities s.queue.workers →
      unanswered s.net identity = 0) ∧
    (∀ e t out identity msg, system.step s e = some (t, out) →
      .queue (.toBackend (identity :: msg)) ∈ out → msg ≠ [pppHeartbeat] →
      crossed identity = 0 → unanswered s.net identity = 0) ∧
    (∀ client t out identity msg, system.step s (.queueFrontend client) = some (t, out) →
      .queue (.toBackend (identity :: msg)) ∈ out → s.routable identity →
      unanswered t.net identity = unanswered s.net identity + 1) ∧
    (∀ sender now t out, system.step s (.queueBackend sender now) = some (t, out) →
      sender ∈ identities t.queue.workers) := by
  have bound := bounded_of_run run
  have none : ∀ identity, crossed identity = 0 → identity ∈ identities s.queue.workers →
      unanswered s.net identity = 0 := by
    intro identity hcrossed hmem
    have h : listed s.queue identity + unanswered s.net identity ≤ 1 + crossed identity :=
      bound identity
    rw [listed, if_pos hmem, hcrossed] at h
    omega
  refine ⟨bound, none, ?_, ?_, fun _ _ _ _ => listed_of_message⟩
  · intro e t out identity msg moved sent request hcrossed
    exact none identity hcrossed (listed_of_dispatch moved sent request)
  · intro client t out identity msg moved sent connected
    exact unanswered_of_dispatch (wellFormed_of_run run.of_observe) moved sent connected

/-- A worker announces itself, and a request is dispatched to it while its first
heartbeat is on the way to the queue. -/
def crossingRun : List SystemEvent :=
  [.workerStart [5] 0, .queue (.setup 0), .queue (.poll (some (true, false))),
    .queueBackend [5] 10, .queue (.heartbeat [20]), .queue (.purge [30]),
    .clientConnect [1], .clientSend [1] [[9]], .clientConnect [2], .clientSend [2] [[8]],
    .worker [5] (.poll (some false)) [], .worker [5] (.tick [1001, 1001]) [],
    .queue (.poll (some (false, true))), .queueFrontend [1],
    .queue (.heartbeat [1002, 1002]), .queue (.purge []),
    .queue (.poll (some (true, false))), .queueBackend [5] 1003]

/-- The queue goes on and dispatches again. -/
def crossedDispatch : List SystemEvent :=
  [.queue (.heartbeat [1004]), .queue (.purge [1005]), .queue (.poll (some (false, true))),
    .queueFrontend [2]]

/-- A heartbeat that crosses a request lists its worker, which still owes the
answer, and the next request goes to it as well. -/
theorem listed_while_unanswered :
    (∃ os s, system.Run crossingRun os s ∧
      identities s.queue.workers = [[5]] ∧ unanswered s.net [5] = 1) ∧
    (∃ os s, system.Run (crossingRun ++ crossedDispatch) os s ∧ unanswered s.net [5] = 2) ∧
    ¬ ∀ es os s, system.Run es os s →
      ∀ identity ∈ identities s.queue.workers, unanswered s.net identity = 0 := by
  have crossed : (system.exec system.init crossingRun).map (fun r =>
      (identities r.1.queue.workers, unanswered r.1.net [5])) = some ([[5]], 1) := by decide
  have twice : (system.exec system.init (crossingRun ++ crossedDispatch)).map (fun r =>
      unanswered r.1.net [5]) = some 2 := by decide
  obtain ⟨os, s, run, hsee⟩ := Machine.run_of_map_exec crossed
  simp only [Prod.mk.injEq] at hsee
  refine ⟨⟨os, s, run, hsee⟩, Machine.run_of_map_exec twice, ?_⟩
  intro claimed
  have hzero := claimed crossingRun os s run [5] (by simp [hsee.1])
  rw [hsee.2] at hzero
  cases hzero

/-- In that run one crossing is counted, and the bound is reached. -/
theorem unanswered_bounded_by_crossings_sample :
    ∃ os s crossed, crossingSystem.Run crossingRun os (s, crossed) ∧ crossed [5] = 1 ∧
      listed s.queue [5] = 1 ∧ listed s.queue [5] + unanswered s.net [5] ≤ 1 + crossed [5] := by
  have counted : (crossingSystem.exec crossingSystem.init crossingRun).map (fun r =>
      (r.1.2 [5], listed r.1.1.queue [5])) = some (1, 1) := by decide
  obtain ⟨os, ⟨s, crossed⟩, run, hsee⟩ := Machine.run_of_map_exec counted
  simp only [Prod.mk.injEq] at hsee
  exact ⟨os, s, crossed, run, hsee.1, hsee.2, (unanswered_bounded_by_crossings run).1 [5]⟩

end ZmqTest.Ppq
