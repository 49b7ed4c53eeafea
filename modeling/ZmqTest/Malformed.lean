/-
# Malformed messages on the backends

The brokers unwrap what a worker sends and look at the first frame that is left.
A message of which nothing is left has no such frame, and an empty frame has no
first byte. The backend branches are written here with the reads they make, are
shown to compute what the brokers compute, and to stay within the frames exactly
on the messages that leave them something to read.
-/

import ZmqTest.Cloud.Lcflow
import ZmqTest.Lib.Checked
import ZmqTest.Loadbalance.Lbbroker2
import ZmqTest.Ppq.Queue

namespace ZmqTest

open Checked

/-- A connected peer sends at least one frame behind the identity that its socket
or the broker's adds. -/
def Framed (msg : Zmsg) : Prop := 2 ≤ msg.length

instance (msg : Zmsg) : Decidable (Framed msg) := inferInstanceAs (Decidable (_ ≤ _))

/-- What `zmsg_unwrap` leaves of a message. -/
def body (msg : Zmsg) : Zmsg := (msg.unwrap.map Prod.snd).getD []

/-- `memcmp(zframe_data(zmsg_first(msg)), WORKER_READY, 1)==0`. -/
def checkedReady (msg : Zmsg) : Checked Bool := do
  let data ← zframeData msg.first
  memcmp data [1] 1

/-- There is a first frame, and it has a first byte. -/
def Readable : Zmsg → Prop
  | (_ :: _) :: _ => True
  | _ => False

instance : DecidablePred Readable
  | (_ :: _) :: _ => isTrue trivial
  | [] :: _ => isFalse id
  | [] => isFalse id

theorem Readable.exists_cons {msg : Zmsg} (h : Readable msg) :
    ∃ frame rest, msg = frame :: rest ∧ frame ≠ [] := by
  match msg, h with
  | (byte :: bytes) :: rest, _ => exact ⟨byte :: bytes, rest, rfl, List.cons_ne_nil _ _⟩

theorem checkedReady_sound_iff (msg : Zmsg) : (checkedReady msg).Sound ↔ Readable msg := by
  match msg with
  | [] => simp [checkedReady, Zmsg.first, zframeData, Readable]
  | [] :: rest => simp [checkedReady, Zmsg.first, zframeData, Readable]
  | (byte :: bytes) :: rest => simp [checkedReady, Zmsg.first, zframeData, Readable]

theorem checkedReady_cons {frame : Frame} (hne : frame ≠ []) (rest : Zmsg) :
    checkedReady (frame :: rest) = .ok (frame.startsWith 1) := by
  simp [checkedReady, Zmsg.first, zframeData, hne]

namespace Ppq

/-- `memcmp(..., PPP_READY, 1) && memcmp(..., PPP_HEARTBEAT, 1)` on the first frame. -/
def checkedInvalid (msg : Zmsg) : Checked Bool := do
  let data ← zframeData msg.first
  if ← memcmp data pppReady 1 then
    return false
  else
    let beats ← memcmp data pppHeartbeat 1
    return !beats

/-- The backend branch from `zmsg_size` on. -/
def checkedForward (msg : Zmsg) : Checked QueueEffect :=
  if msg.length = 1 then do
    let invalid ← checkedInvalid msg
    return .destroyed msg invalid
  else .ok (.toFrontend msg)

/-- Within the frames the branch does what the queue does. -/
theorem checkedForward_eq {msg : Zmsg} (h : msg ≠ [[]]) :
    checkedForward msg = .ok (forwardBackend msg) := by
  match msg, h with
  | [], _ => rfl
  | [frame], h =>
      have hne : frame ≠ [] := by simpa using h
      have invalid : checkedInvalid [frame] = .ok (invalidControl frame) := by
        simp only [checkedInvalid, Zmsg.first, List.head?_cons, zframeData, ok_bind, pppReady,
          pppHeartbeat, memcmp_one hne, invalidControl]
        cases frame.startsWith 1 <;> rfl
      rw [checkedForward, if_pos List.length_singleton, invalid]
      rfl
  | first :: second :: rest, _ => rfl

theorem checkedForward_sound_iff (msg : Zmsg) : (checkedForward msg).Sound ↔ msg ≠ [[]] := by
  constructor
  · rintro sound rfl
    exact not_sound_error .beyond sound
  · intro h
    rw [checkedForward_eq h]
    exact sound_ok _

/-- The message is one a connected peer can send. -/
def FramedEvent : QueueState → QueueEvent → Prop
  | _, .recvBackend (some msg) _ => Framed msg
  | _, _ => True

/-- The backend branch stays within the frames of the message it reads. -/
def ReadsFrames (s : QueueState) : QueueEvent → Prop
  | .recvBackend (some msg) _ =>
      ∀ revents1, s.pc = .backend revents1 → (checkedForward (body msg)).Sound
  | _ => True

/-- The message is not an envelope and one empty frame. -/
def NotHollow (s : QueueState) : QueueEvent → Prop
  | .recvBackend (some msg) _ => ∀ revents1, s.pc = .backend revents1 → body msg ≠ [[]]
  | _ => True

instance (s : QueueState) (e : QueueEvent) : Decidable (FramedEvent s e) := by
  unfold FramedEvent
  split <;> infer_instance

instance (s : QueueState) (e : QueueEvent) : Decidable (NotHollow s e) := by
  unfold NotHollow
  split <;> infer_instance

theorem readsFrames_iff (s : QueueState) (e : QueueEvent) : ReadsFrames s e ↔ NotHollow s e := by
  unfold ReadsFrames NotHollow
  split
  case h_1 msg now => simp only [checkedForward_sound_iff]
  case h_2 => exact Iff.rfl

end Ppq

namespace Loadbalance2

/-- The message is one a connected peer can send. -/
def FramedEvent : Lbbroker2State → Lbbroker2Event → Prop
  | _, .recv (some msg) => Framed msg
  | _, _ => True

/-- The backend branch stays within the frames of the message it reads. -/
def ReadsFrames (s : Lbbroker2State) : Lbbroker2Event → Prop
  | .recv (some msg) => ∀ revents1, s.pc = .backend revents1 → (checkedReady (body msg)).Sound
  | _ => True

/-- Behind the envelope comes a frame that is not empty. -/
def NotHollow (s : Lbbroker2State) : Lbbroker2Event → Prop
  | .recv (some msg) =>
      ∀ revents1, s.pc = .backend revents1 → Readable (body msg)
  | _ => True

instance (s : Lbbroker2State) (e : Lbbroker2Event) : Decidable (FramedEvent s e) := by
  unfold FramedEvent
  split <;> infer_instance

instance (s : Lbbroker2State) (e : Lbbroker2Event) : Decidable (NotHollow s e) := by
  unfold NotHollow
  split <;> infer_instance

theorem readsFrames_iff (s : Lbbroker2State) (e : Lbbroker2Event) :
    ReadsFrames s e ↔ NotHollow s e := by
  unfold ReadsFrames NotHollow
  split
  case h_1 msg => simp only [checkedReady_sound_iff]
  case h_2 => exact Iff.rfl

/-- Within the frames the branch does what the broker does. -/
theorem onBackend_of_checked {s : Lbbroker2State} {revents1 ready : Bool} {msg rest : Zmsg}
    {identity : Frame} (unwrapped : msg.unwrap = some (identity, rest))
    (read : checkedReady rest = .ok ready) :
    onBackend s revents1 msg =
      ({ s with pc := afterBackend revents1, workers := s.workers ++ [identity] },
        if ready then [] else [.toFrontend rest]) := by
  obtain ⟨frame, others, rfl, hne⟩ :=
    ((checkedReady_sound_iff rest).mp ⟨ready, read⟩).exists_cons
  rw [checkedReady_cons hne] at read
  obtain rfl := Except.ok.inj read
  simp only [onBackend, unwrapped, Zmsg.first, List.head?_cons]

end Loadbalance2

namespace Cloud

/-- Is the first frame the name of a peer? The size is compared before the bytes
are. -/
def checkedNames (msg : Zmsg) (peer : Frame) : Checked Bool := do
  let data ← zframeData msg.first
  let sized ← zframeData msg.first
  if sized.length = peer.length then memcmp data peer sized.length else .ok false

theorem checkedNames_cons (frame peer : Frame) (rest : Zmsg) :
    checkedNames (frame :: rest) peer = .ok (decide (frame = peer)) := by
  simp only [checkedNames, Zmsg.first, List.head?_cons, zframeData, ok_bind]
  split
  case isTrue same => exact memcmp_length same
  case isFalse other =>
    have hne : frame ≠ peer := fun heq => other (congrArg List.length heq)
    rw [decide_eq_false hne]

/-- The loop over `argv`. -/
def checkedRoute : List Frame → Option Zmsg → Checked (Option Zmsg × List LcflowEffect)
  | [], msg => .ok (msg, [])
  | _ :: _, none => .ok (none, [])
  | peer :: peers, some msg => do
      let named ← checkedNames msg peer
      if named then
        let (left, sent) ← checkedRoute peers none
        .ok (left, .toCloudfe msg :: sent)
      else checkedRoute peers (some msg)

/-- Within the frames the loop does what the broker does, and it leaves them only
where the broker ends. -/
theorem checkedRoute_eq (peers : List Frame) (msg : Option Zmsg) :
    checkedRoute peers msg =
      match routeToPeer peers msg with
      | none => .error .missing
      | some routed => .ok routed := by
  induction peers generalizing msg with
  | nil => rfl
  | cons peer peers ih =>
      match msg with
      | none => rfl
      | some [] => rfl
      | some (frame :: rest) =>
          simp only [checkedRoute, checkedNames_cons, ok_bind, ih, routeToPeer_none, routeToPeer,
            Zmsg.first, List.head?_cons, decide_eq_true_eq]
          by_cases h : frame = peer
          · simp [h]
          · simp [h]

/-- Only a message without a frame is read out of bounds, and only where there is
a peer to compare it with. -/
theorem checkedRoute_sound_iff (peers : List Frame) (msg : Zmsg) :
    (checkedRoute peers (some msg)).Sound ↔ msg ≠ [] ∨ peers = [] := by
  rw [checkedRoute_eq]
  cases msg with
  | nil =>
      cases peers with
      | nil => simp [routeToPeer]
      | cons peer peers => simp [routeToPeer, Zmsg.first]
  | cons frame rest =>
      rw [routeToPeer_cons]
      by_cases h : frame ∈ peers <;> simp [h]

/-- The message is one a connected peer can send. -/
def FramedEvent : LcflowState → LcflowEvent → Prop
  | _, .recv (some msg) _ => Framed msg
  | _, _ => True

/-- The backend branch for a worker's message: the test for a READY, and the loop
over `argv` for what is none. -/
def checkedLocalbe (argv : Argv) (msg : Zmsg) : Checked (Option Zmsg × List LcflowEffect) := do
  let ready ← checkedReady msg
  checkedRoute argv.peers (if ready then none else some msg)

theorem checkedLocalbe_sound_iff (argv : Argv) (msg : Zmsg) :
    (checkedLocalbe argv msg).Sound ↔ Readable msg := by
  rw [← checkedReady_sound_iff]
  constructor
  · intro sound
    cases h : checkedReady msg with
    | error fault =>
        rw [checkedLocalbe, h] at sound
        exact absurd sound (not_sound_error fault)
    | ok ready => exact sound_ok ready
  · intro sound
    obtain ⟨frame, rest, rfl, hne⟩ := ((checkedReady_sound_iff msg).mp sound).exists_cons
    rw [checkedLocalbe, checkedReady_cons hne, ok_bind]
    cases frame.startsWith 1 with
    | true =>
        rw [if_pos rfl, checkedRoute_eq, routeToPeer_none]
        exact sound_ok _
    | false =>
        rw [if_neg (by simp), checkedRoute_sound_iff]
        exact Or.inl (List.cons_ne_nil _ _)

/-- Within the frames the rest of an iteration does what the broker does. -/
theorem routeReply_of_checked {argv : Argv} {s : LcflowState} {msg left : Option Zmsg}
    {sent : List LcflowEffect} (read : checkedRoute argv.peers msg = .ok (left, sent)) :
    routeReply argv s msg = (s.innerLoop, sent ++ left.toList.map .toLocalfe) := by
  rw [checkedRoute_eq] at read
  split at read
  case h_1 => cases read
  case h_2 routed hrouted =>
    obtain rfl := Except.ok.inj read
    rw [routeReply, hrouted]
    cases left with
    | none => simp
    | some msg => rfl

theorem onLocalbe_of_checked {argv : Argv} {s : LcflowState} {msg rest : Zmsg} {id : Frame}
    {left : Option Zmsg} {sent : List LcflowEffect}
    (unwrapped : msg.unwrap = some (id, rest))
    (read : checkedLocalbe argv rest = .ok (left, sent)) :
    onLocalbe argv s msg =
      ({ s with workers := s.workers ++ [id], capacity := s.capacity + 1 }.innerLoop,
        sent ++ left.toList.map .toLocalfe) := by
  obtain ⟨frame, others, rfl, hne⟩ :=
    ((checkedLocalbe_sound_iff argv rest).mp ⟨_, read⟩).exists_cons
  rw [checkedLocalbe, checkedReady_cons hne, ok_bind] at read
  simp only [onLocalbe, unwrapped, Zmsg.first, List.head?_cons]
  exact routeReply_of_checked read

/-- The backend branches stay within the frames of the message they read. -/
def ReadsFrames (argv : Argv) (s : LcflowState) : LcflowEvent → Prop
  | .recv (some msg) _ =>
      (s.pc = .localbe → (checkedLocalbe argv (body msg)).Sound) ∧
        (s.pc = .cloudbe → (checkedRoute argv.peers (some (body msg))).Sound)
  | _ => True

/-- Behind the envelope comes a frame: one that is not empty from a worker, and any
from a peer, if there are peers at all. -/
def NotHollow (argv : Argv) (s : LcflowState) : LcflowEvent → Prop
  | .recv (some msg) _ =>
      (s.pc = .localbe → Readable (body msg)) ∧
        (s.pc = .cloudbe → body msg ≠ [] ∨ argv.peers = [])
  | _ => True

instance (s : LcflowState) (e : LcflowEvent) : Decidable (FramedEvent s e) :=
  match e with
  | .recv (some msg) _ => inferInstanceAs (Decidable (Framed msg))
  | .recv none _ | .pollBackends _ | .pollFrontends _ => isTrue trivial

instance (argv : Argv) (s : LcflowState) (e : LcflowEvent) : Decidable (NotHollow argv s e) :=
  match e with
  | .recv (some _) _ => inferInstanceAs (Decidable (_ ∧ _))
  | .recv none _ | .pollBackends _ | .pollFrontends _ => isTrue trivial

theorem readsFrames_iff (argv : Argv) (s : LcflowState) (e : LcflowEvent) :
    ReadsFrames argv s e ↔ NotHollow argv s e := by
  unfold ReadsFrames NotHollow
  split
  case h_1 msg draws => simp only [checkedLocalbe_sound_iff, checkedRoute_sound_iff]
  case h_2 => exact Iff.rfl

end Cloud

/-! ## All three -/

/-- Whatever events the three brokers take, their backend branches read nothing but
bytes of frames that are there, if and only if no message is hollow: a single empty
frame behind the envelope for the queue, nothing or an empty frame first for the other
two. -/
theorem reads_frames_iff (queueEvents : List Ppq.QueueEvent)
    (lbbroker2Events : List Loadbalance2.Lbbroker2Event) (argv : Cloud.Argv)
    (lcflowEvents : List Cloud.LcflowEvent) :
    (Ppq.queue.StepsMeet Ppq.ReadsFrames queueEvents ↔
      Ppq.queue.StepsMeet Ppq.NotHollow queueEvents) ∧
    (Loadbalance2.lbbroker2.StepsMeet Loadbalance2.ReadsFrames lbbroker2Events ↔
      Loadbalance2.lbbroker2.StepsMeet Loadbalance2.NotHollow lbbroker2Events) ∧
    ((Cloud.lcflow argv).StepsMeet (Cloud.ReadsFrames argv) lcflowEvents ↔
      (Cloud.lcflow argv).StepsMeet (Cloud.NotHollow argv) lcflowEvents) :=
  ⟨Machine.stepsMeet_congr Ppq.readsFrames_iff,
    Machine.stepsMeet_congr Loadbalance2.readsFrames_iff,
    Machine.stepsMeet_congr (Cloud.readsFrames_iff argv)⟩

/-- The queue reads a message from the backend. -/
def queueReads (msg : Zmsg) : List Ppq.QueueEvent :=
  [.setup 0, .poll (some (true, false)), .recvBackend (some msg) 0]

/-- The load balancer reads a message from the backend. -/
def lbbroker2Reads (msg : Zmsg) : List Loadbalance2.Lbbroker2Event :=
  [.poll (some (true, false)), .recv (some msg)]

/-- The cloud broker reads a message from a worker. -/
def lcflowReads (msg : Zmsg) : List Cloud.LcflowEvent :=
  [.pollBackends (some (true, false)), .recv (some msg) ⟨0, 0⟩]

/-- A READY is read by each of them. -/
theorem reads_frames_iff_ready :
    Ppq.queue.StepsMeet Ppq.ReadsFrames (queueReads [[87], [1]]) ∧
    Loadbalance2.lbbroker2.StepsMeet Loadbalance2.ReadsFrames (lbbroker2Reads [[87], [], [1]]) ∧
    (Cloud.lcflow ⟨[65], [[66]]⟩).StepsMeet (Cloud.ReadsFrames ⟨[65], [[66]]⟩)
      (lcflowReads [[87], [], [1]]) := by
  obtain ⟨queue, lbbroker2, lcflow⟩ := reads_frames_iff (queueReads [[87], [1]])
    (lbbroker2Reads [[87], [], [1]]) ⟨[65], [[66]]⟩ (lcflowReads [[87], [], [1]])
  refine ⟨queue.mpr ?_, lbbroker2.mpr ?_, lcflow.mpr ?_⟩
  · exact Machine.stepsMeet_of_check (by decide)
  · exact Machine.stepsMeet_of_check (by decide)
  · exact Machine.stepsMeet_of_check (by decide)

/-- Each of them can be made to read what is not there: the queue by two empty
frames behind the identity, the other two by one. -/
theorem hollow_messages :
    (¬ ∀ es os s, Ppq.queue.Run es os s → Ppq.queue.StepsMeet Ppq.FramedEvent es →
      Ppq.queue.StepsMeet Ppq.ReadsFrames es) ∧
    (¬ ∀ es os s, Loadbalance2.lbbroker2.Run es os s →
      Loadbalance2.lbbroker2.StepsMeet Loadbalance2.FramedEvent es →
      Loadbalance2.lbbroker2.StepsMeet Loadbalance2.ReadsFrames es) ∧
    ¬ ∀ argv es os s, (Cloud.lcflow argv).Run es os s →
      (Cloud.lcflow argv).StepsMeet Cloud.FramedEvent es →
      (Cloud.lcflow argv).StepsMeet (Cloud.ReadsFrames argv) es := by
  refine ⟨?_, ?_, ?_⟩
  · intro claim
    have hexec : (Ppq.queue.exec Ppq.queue.init (queueReads [[87], [], []])).isSome = true := by
      decide
    have hprior : Ppq.queue.exec Ppq.queue.init [.setup 0, .poll (some (true, false))] =
        some (⟨.backend false, [], 1000⟩, []) := by decide
    have reads := claim _ _ _ (Machine.run_of_exec (Option.some_get hexec).symm)
      (Machine.stepsMeet_of_check (by decide)) _ _ [] _ _ rfl (Machine.run_of_exec hprior)
    exact absurd (reads false rfl) (not_sound_error .beyond)
  · intro claim
    have hexec : (Loadbalance2.lbbroker2.exec Loadbalance2.lbbroker2.init
        (lbbroker2Reads [[87], []])).isSome = true := by decide
    have hprior : Loadbalance2.lbbroker2.exec Loadbalance2.lbbroker2.init
        [.poll (some (true, false))] = some (⟨.backend false, []⟩, []) := by decide
    have reads := claim _ _ _ (Machine.run_of_exec (Option.some_get hexec).symm)
      (Machine.stepsMeet_of_check (by decide)) _ _ [] _ _ rfl (Machine.run_of_exec hprior)
    exact absurd (reads false rfl) (not_sound_error .missing)
  · intro claim
    have hexec : ((Cloud.lcflow ⟨[65], [[66]]⟩).exec (Cloud.lcflow ⟨[65], [[66]]⟩).init
        (lcflowReads [[87], []])).isSome = true := by decide
    have hprior : (Cloud.lcflow ⟨[65], [[66]]⟩).exec (Cloud.lcflow ⟨[65], [[66]]⟩).init
        [.pollBackends (some (true, false))] = some (⟨.localbe, 0, []⟩, []) := by decide
    have reads := claim _ _ _ _ (Machine.run_of_exec (Option.some_get hexec).symm)
      (Machine.stepsMeet_of_check (by decide)) _ _ [] _ _ rfl (Machine.run_of_exec hprior)
    exact absurd (reads.1 rfl) (not_sound_error .missing)

end ZmqTest
