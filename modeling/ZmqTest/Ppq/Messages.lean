/-
# The messages of the Paranoid Pirate system

What a step puts into the channels is determined by what it takes from them:
heartbeats and announcements apart, every message a party sends is the message
it has just read, with its addresses changed. So the shape of a message is
known from where it is, and the test on the number of frames that tells a
control message from a reply is right.
-/

import ZmqTest.Ppq.Available
import ZmqTest.Ppq.System

namespace ZmqTest.Ppq

/-- Without a message the queue sends nothing but heartbeats. -/
theorem posted_of_quiet {s : SystemState} {e : QueueEvent} {queue : QueueState}
    {out : List QueueEffect} (receives : e.receives = false)
    (taken : queueStep s.queue e = some (queue, out)) {packet : Loc × Zmsg}
    (posted : packet ∈ out.filterMap s.route) :
    ∃ identity, packet = (.queueToWorker identity, [pppHeartbeat]) := by
  cases queueMoves_of_step taken with
  | backend => cases receives
  | frontend => cases receives
  | underflow => cases receives
  | beat now later pc =>
      obtain ⟨effect, heffect, hroute⟩ := List.mem_filterMap.mp posted
      obtain ⟨worker, -, rfl⟩ := List.mem_map.mp heffect
      simp only [SystemState.route, Option.ite_none_right_eq_some, Option.some.injEq] at hroute
      exact ⟨worker.identity, hroute.2.symm⟩
  | purge readings destroyed kept pc purged =>
      obtain ⟨effect, heffect, hroute⟩ := List.mem_filterMap.mp posted
      obtain ⟨worker, -, rfl⟩ := List.mem_map.mp heffect
      cases hroute
  | _ => cases posted

theorem posted_dispatch (s : SystemState) (identity : Frame) (msg : Zmsg) :
    [.next identity, .toBackend (identity :: msg)].filterMap s.route =
      if s.routable identity then [(.queueToWorker identity, msg)] else [] := by
  by_cases connected : s.routable identity <;>
    simp [List.filterMap_cons, SystemState.route, connected]

/-- The frontend branch posts the request to one worker or drops it. -/
theorem posted_of_frontend {s : SystemState} {msg : Zmsg} {queue : QueueState}
    {out : List QueueEffect}
    (taken : queueStep s.queue (.recvFrontend (some msg)) = some (queue, out)) :
    out.filterMap s.route = [] ∨
      ∃ identity, out.filterMap s.route = [(.queueToWorker identity, msg)] := by
  cases queueMoves_of_step taken with
  | underflow => exact Or.inl rfl
  | frontend _ worker rest pc listed =>
      rw [posted_dispatch]
      split
      case isTrue _ => exact Or.inr ⟨worker.identity, rfl⟩
      case isFalse _ => exact Or.inl rfl

/-- A worker that has read nothing sends nothing but control messages. -/
theorem sends_of_quiet {before worker : WorkerState} {e : WorkerEvent}
    {out : List WorkerEffect} (receives : e.receives = false)
    (taken : workerStep before e = some (worker, out)) {msg : Zmsg} (sent : msg ∈ sends out) :
    msg = [pppReady] ∨ msg = [pppHeartbeat] := by
  cases workerMoves_of_step taken with
  | setup => exact Or.inl (List.mem_singleton.mp sent)
  | reconnect => exact Or.inl (List.mem_singleton.mp sent)
  | beat => exact Or.inr (List.mem_singleton.mp sent)
  | crash => cases receives
  | overload => cases receives
  | reply => cases receives
  | control => cases receives
  | invalid => cases receives
  | _ => cases sent

/-- A worker sends the message it has read back, if it has three frames, or nothing. -/
theorem sends_of_recv {before worker : WorkerState} {msg : Zmsg} {draws : List Random}
    {interrupted : Bool} {out : List WorkerEffect}
    (taken : workerStep before (.recv (some msg) draws interrupted) = some (worker, out)) :
    sends out = [] ∨ sends out = [msg] ∧ msg.length = 3 := by
  cases workerMoves_of_step taken with
  | reply a b c => exact Or.inr ⟨rfl, rfl⟩
  | _ => exact Or.inl rfl

@[simp]
theorem placed_self (identity : Frame) (out : List WorkerEffect) :
    placed identity identity out = identity := ite_self identity

/-- The message is a request of some client with its address. -/
def Addressed (msg : Zmsg) : Prop :=
  ∃ client body, client ≠ [] ∧ body ≠ [] ∧ msg = client :: [] :: body

/-- The shape of a message is known from where it is. -/
def Shaped : Loc × Zmsg → Prop
  | (.clientToQueue client, msg) => client ≠ [] ∧ ∃ body, body ≠ [] ∧ msg = [] :: body
  | (.queueToWorker _, msg) => msg = [pppHeartbeat] ∨ Addressed msg
  | (.processing _, msg) => msg = [pppHeartbeat] ∨ Addressed msg
  | (.workerToQueue _, msg) =>
      msg = [pppReady] ∨ msg = [pppHeartbeat] ∨ Addressed msg ∧ msg.length = 3
  | (.queueToClient _, msg) => ∃ frame, msg = [[], frame]

theorem Addressed.of_length {msg : Zmsg} (h : Addressed msg) (three : msg.length = 3) :
    ∃ client frame, client ≠ [] ∧ msg = [client, [], frame] := by
  obtain ⟨client, body, named, -, rfl⟩ := h
  obtain ⟨frame, rfl⟩ := List.length_eq_one_iff.mp (by simpa using three)
  exact ⟨client, frame, named, rfl⟩

/-- The test on the number of frames is right: the backend branch destroys
control messages and forwards replies, which have an address and a delimiter. -/
theorem out_of_backend {s : SystemState} {identity : Frame} {msg : Zmsg} {now : Int}
    {queue : QueueState} {out : List QueueEffect}
    (shaped : Shaped (.workerToQueue identity, msg))
    (taken : queueStep s.queue (.recvBackend (some (identity :: msg)) now) = some (queue, out)) :
    (∃ frame, msg = [frame] ∧ out = [.ready identity now, .destroyed msg false]) ∨
      ∃ client frame, client ≠ [] ∧ msg = [client, [], frame] ∧
        out = [.ready identity now, .toFrontend msg] := by
  cases queueMoves_of_step taken with
  | backend revents1 _ _ address body pc unwrapped =>
      rcases shaped with hready | hbeat | ⟨addressed, three⟩
      · subst hready
        cases unwrapped
        exact Or.inl ⟨_, rfl, rfl⟩
      · subst hbeat
        cases unwrapped
        exact Or.inl ⟨_, rfl, rfl⟩
      · obtain ⟨client, frame, named, rfl⟩ := addressed.of_length three
        rw [Zmsg.unwrap_of_ne_nil named] at unwrapped
        cases unwrapped
        exact Or.inr ⟨client, frame, named, rfl, rfl⟩

/-- Every message of the network has the shape of its place. -/
def WellFormed (net : Network Loc Zmsg) : Prop := ∀ packet ∈ net, Shaped packet

theorem WellFormed.append {net more : Network Loc Zmsg} (h : WellFormed net)
    (posted : ∀ packet ∈ more, Shaped packet) : WellFormed (net ++ more) := by
  intro packet hmem
  cases List.mem_append.mp hmem with
  | inl old => exact h packet old
  | inr new => exact posted packet new

theorem WellFormed.send {net : Network Loc Zmsg} (h : WellFormed net) {loc : Loc} {msg : Zmsg}
    (shaped : Shaped (loc, msg)) : WellFormed (net.send loc msg) := by
  apply h.append
  intro packet hmem
  rw [List.mem_singleton.mp hmem]
  exact shaped

theorem WellFormed.left {net left : Network Loc Zmsg} (h : WellFormed net) {loc : Loc}
    {msg : Zmsg} (read : net.recv loc = some (msg, left)) : WellFormed left := by
  intro packet hmem
  exact h packet (Network.mem_of_mem_left read hmem)

theorem WellFormed.read {net left : Network Loc Zmsg} (h : WellFormed net) {loc : Loc}
    {msg : Zmsg} (read : net.recv loc = some (msg, left)) : Shaped (loc, msg) :=
  h _ (Network.mem_of_recv read)

/-- What a worker sends without a message is shaped. -/
theorem shaped_of_sends {place : Frame} {out : List WorkerEffect}
    (control : ∀ msg ∈ sends out, msg = [pppReady] ∨ msg = [pppHeartbeat])
    {packet : Loc × Zmsg}
    (posted : packet ∈ (sends out).map fun msg => (Loc.workerToQueue place, msg)) :
    Shaped packet := by
  obtain ⟨msg, hmem, rfl⟩ := List.mem_map.mp posted
  cases control msg hmem with
  | inl ready => exact Or.inl ready
  | inr beat => exact Or.inr (Or.inl beat)

/-- Every step keeps the shapes. -/
theorem WellFormed.step {s t : SystemState} {e : SystemEvent} {out : List SystemOutput}
    (h : WellFormed s.net) (named : ∀ client, s.client client ≠ none → client ≠ [])
    (moved : system.step s e = some (t, out)) : WellFormed t.net := by
  cases systemMoves_of_step moved with
  | connect => exact h
  | request client body idle content =>
      exact h.send ⟨named client (by simp [idle]), body, content, rfl⟩
  | reply client pending body net waits read => exact h.left read
  | malformed client pending msg net waits read => exact h.left read
  | queue e queue effects receives taken =>
      apply h.append
      intro packet posted
      obtain ⟨identity, rfl⟩ := posted_of_quiet receives taken posted
      exact Or.inl rfl
  | queueBackend identity now msg net queue effects read taken =>
      apply (h.left read).append
      intro packet posted
      rcases out_of_backend (h.read read) taken with ⟨frame, -, rfl⟩ |
        ⟨client, frame, -, rfl, rfl⟩
      · cases posted
      · by_cases connected : (s.client client).isSome
        · have hpacket : (.queueToClient client, [[], frame]) = packet := by
            simpa [SystemState.route, connected] using posted
          exact hpacket ▸ ⟨frame, rfl⟩
        · simp [SystemState.route, connected] at posted
  | queueFrontend client msg net queue effects read taken =>
      apply (h.left read).append
      intro packet posted
      obtain ⟨hclient, body, content, rfl⟩ := h.read read
      rcases posted_of_frontend taken with hnone | ⟨identity, hone⟩
      · rw [hnone] at posted
        cases posted
      · rw [hone, List.mem_singleton] at posted
        rw [posted]
        exact Or.inr ⟨client, body, hclient, content, rfl⟩
  | workerStart fresh now worker effects taken =>
      apply h.append
      intro packet posted
      exact shaped_of_sends (fun msg => sends_of_quiet rfl taken) posted
  | worker identity fresh e before worker effects runs receives taken =>
      apply h.append
      intro packet posted
      exact shaped_of_sends (fun msg => sends_of_quiet receives taken) posted
  | takes identity msg net read =>
      have shaped : Shaped (.queueToWorker identity, msg) := h.read read
      exact (h.left read).send shaped
  | handles identity draws interrupted msg net before worker effects runs read taken =>
      apply (h.left read).append
      intro packet posted
      rcases sends_of_recv taken with hnone | ⟨hone, three⟩
      · rw [hnone] at posted
        cases posted
      · rw [hone, List.map_singleton, List.mem_singleton] at posted
        rw [posted]
        cases h.read read with
        | inl beat => exact Or.inr (Or.inl beat)
        | inr addressed => exact Or.inr (Or.inr ⟨addressed, three⟩)
  | killed => exact h
  | disconnect => exact h
  | lose index =>
      intro packet hmem
      exact h packet ((List.eraseIdx_sublist s.net index).mem hmem)

/-- Only clients with an identity connect. -/
theorem named_step {s t : SystemState} {e : SystemEvent} {out : List SystemOutput}
    (h : ∀ client, s.client client ≠ none → client ≠ [])
    (moved : system.step s e = some (t, out)) :
    ∀ client, t.client client ≠ none → client ≠ [] := by
  have update : ∀ (client : Frame) (state : ClientState), client ≠ [] → ∀ other,
      Function.update s.client client (some state) other ≠ none → other ≠ [] := by
    intro client state named other present
    by_cases heq : other = client
    · exact heq ▸ named
    · exact h other (by rwa [Function.update_of_ne heq] at present)
  cases systemMoves_of_step moved with
  | connect client named absent => exact update client _ named
  | request client body idle content => exact update client _ (h client (by simp [idle]))
  | reply client pending body net waits read => exact update client _ (h client (by simp [waits]))
  | _ => exact h

/-- In every state a run reaches, the messages are shaped. -/
theorem wellFormed_of_run {es : List SystemEvent} {os : List SystemOutput} {s : SystemState}
    (run : system.Run es os s) : WellFormed s.net := by
  have both : WellFormed s.net ∧ ∀ client, s.client client ≠ none → client ≠ [] := by
    induction run with
    | start => exact ⟨fun packet hmem => (by cases hmem), fun client present => absurd rfl present⟩
    | extend prior moved ih => exact ⟨ih.1.step ih.2 moved, named_step ih.2 moved⟩
  exact both.1

end ZmqTest.Ppq
