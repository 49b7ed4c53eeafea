/-
# One hop, and the way back

Where a message is tells what its address frames are. On its way in a request
has no address but its own client, and behind a cloud socket the broker it came
from; a worker gives both back. So a request can only be sent to a peer by the
broker its client is connected to, before any worker has seen it, and a reply
goes back along the same way to the client that asked.
-/

import Mathlib.Data.List.Nodup
import ZmqTest.Cloud.System

namespace ZmqTest.Cloud

/-- The request is one that a client of a broker of the cloud can have made. -/
structure Topology.Made (cloud : Topology) (request : Request) : Prop where
  origin : request.origin ∈ cloud.names
  client : cloud.IsClient request.client
  body : request.body ≠ []

/-- The addresses in front of a request at a broker: its client, and before that
the broker it came from if that is another one. -/
inductive Topology.Addressed (cloud : Topology) (broker : Frame) (request : Request) : Zmsg → Prop
  | here (origin : request.origin = broker) : Addressed cloud broker request [request.client]
  | peer (listed : request.origin ∈ cloud.peers broker) :
      Addressed cloud broker request [request.origin, request.client]

/-- The body of the answer of a worker. -/
def Request.Answer (request : Request) (frames : Zmsg) : Prop :=
  ∃ last, frames = request.body.resetLast last

/-- What the message of a request is at each place. -/
def Topology.Carried (cloud : Topology) (request : Request) (frames : Zmsg) : Loc → Prop
  | .localfe broker client =>
      request.origin = broker ∧ request.client = client ∧ frames = request.body
  | .cloudfe broker peer =>
      request.origin = peer ∧ peer ∈ cloud.peers broker ∧ frames = request.client :: request.body
  | .worker broker _ =>
      ∃ addresses, cloud.Addressed broker request addresses ∧
        frames = [] :: (addresses ++ request.body)
  | .working broker _ =>
      ∃ addresses, cloud.Addressed broker request addresses ∧ frames = addresses ++ request.body
  | .localbe broker _ =>
      ∃ addresses body, cloud.Addressed broker request addresses ∧ request.Answer body ∧
        frames = [] :: (addresses ++ body)
  | .cloudbe broker _ =>
      request.origin = broker ∧ ∃ body, request.Answer body ∧ frames = request.client :: body
  | .client broker client =>
      request.origin = broker ∧ request.client = client ∧ request.Answer frames

/-- The messages at a place: those of requests, and at the backend of a broker
the announcements of its workers. -/
def Topology.Carries (cloud : Topology) (loc : Loc) (parcel : Parcel) : Prop :=
  match parcel.request with
  | some request => cloud.Made request ∧ cloud.Carried request parcel.frames loc
  | none => ∃ broker worker, loc = .localbe broker worker ∧ parcel.frames = [[], workerReady]

/-- Away from the backend of a broker a message is about a request. -/
theorem Topology.Carries.exists_request {cloud : Topology} {loc : Loc} {parcel : Parcel}
    (h : cloud.Carries loc parcel) (away : ∀ broker worker, loc ≠ .localbe broker worker) :
    ∃ request, parcel.request = some request ∧ cloud.Made request ∧
      cloud.Carried request parcel.frames loc := by
  unfold Topology.Carries at h
  split at h
  case h_1 request hrequest => exact ⟨request, hrequest, h⟩
  case h_2 =>
    obtain ⟨broker, worker, hloc, -⟩ := h
    exact absurd hloc (away broker worker)

/-- Replacing the last frame leaves the addresses alone. -/
theorem resetLast_append (addresses : Zmsg) {body : Zmsg} (hne : body ≠ []) (last : Frame) :
    (addresses ++ body).resetLast last = addresses ++ body.resetLast last := by
  induction addresses with
  | nil => rfl
  | cons address addresses ih =>
      rw [List.cons_append, Zmsg.resetLast_cons, ih, List.cons_append]
      simp [hne]

section

variable {cloud : Topology} {name peer first : Frame} {request : Request} {s next : LcflowState}
  {out : List LcflowEffect} {rest body : Zmsg} {draws : Draws}

/-- Everything sent is what belongs where it goes. -/
def Topology.Sends (cloud : Topology) (name : Frame) (request : Option Request)
    (out : List LcflowEffect) : Prop :=
  ∀ effect ∈ out, ∀ packet, cloud.route name request effect = some packet →
    cloud.Carries packet.1 packet.2

theorem Topology.sends_nil (cloud : Topology) (name : Frame) (request : Option Request) :
    cloud.Sends name request [] := by
  intro effect hmem
  cases hmem

theorem Topology.sends_singleton {request : Option Request} {effect : LcflowEffect}
    (h : ∀ packet, cloud.route name request effect = some packet →
      cloud.Carries packet.1 packet.2) : cloud.Sends name request [effect] := by
  intro other hmem
  rw [List.mem_singleton.mp hmem]
  exact h

theorem Topology.IsClient.not_mem_peers {client : Frame} (h : cloud.IsClient client)
    (hname : name ∈ cloud.names) : client ∉ cloud.peers name :=
  fun hmem => h.2.2 (cloud.listed name hname client hmem).1

/-- A reply that is addressed to a client goes to the client. -/
theorem Topology.sends_toLocalfe (made : cloud.Made request) (origin : request.origin = name)
    (answer : request.Answer body) :
    cloud.Sends name (some request) [.toLocalfe (request.client :: body)] := by
  apply Topology.sends_singleton
  intro packet hroute
  simp only [Topology.route, Option.some.injEq] at hroute
  subst hroute
  exact ⟨made, origin, rfl, answer⟩

/-- A request goes to a worker with its addresses. -/
theorem Topology.sends_toWorker (made : cloud.Made request) {addresses : Zmsg}
    (addressed : cloud.Addressed name request addresses) (s : LcflowState) :
    cloud.Sends name (some request) (toWorker s (addresses ++ request.body)).2 := by
  unfold toWorker
  cases hworkers : s.workers with
  | nil => exact cloud.sends_nil name (some request)
  | cons worker workers =>
      apply Topology.sends_singleton
      intro packet hroute
      simp only [Zmsg.wrap, Topology.route, Option.some.injEq] at hroute
      subst hroute
      exact ⟨made, addresses, addressed, rfl⟩

theorem onLocalbe_ready (argv : Argv) (s : LcflowState) (worker : Frame) :
    (onLocalbe argv s [worker, [], workerReady]).2 = [] := by
  have hready : Frame.startsWith workerReady 1 = true := rfl
  simp [onLocalbe, Zmsg.unwrap, Zmsg.first, hready, routeReply_none]

theorem onLocalbe_reply (argv : Argv) (s : LcflowState) (worker : Frame)
    (notReady : Frame.startsWith first 1 = false) :
    (onLocalbe argv s (worker :: [] :: first :: rest)).2 =
      if first ∈ argv.peers then [.toCloudfe (first :: rest)]
      else [.toLocalfe (first :: rest)] := by
  simp [onLocalbe, Zmsg.unwrap, Zmsg.first, notReady, routeReply_cons]

theorem onCloudbe_reply (argv : Argv) (s : LcflowState) (peer : Frame) (hne : first ≠ []) :
    (onCloudbe argv s (peer :: first :: rest)).2 =
      if first ∈ argv.peers then [.toCloudfe (first :: rest)]
      else [.toLocalfe (first :: rest)] := by
  simp [onCloudbe, Zmsg.unwrap_of_ne_nil hne, routeReply_cons]

/-- The backend of a broker: a worker's READY, or its answer. -/
theorem Topology.sends_localbe (hname : name ∈ cloud.names) {worker : Frame} {parcel : Parcel}
    (h : cloud.Carries (.localbe name worker) parcel) (s : LcflowState) :
    cloud.Sends name parcel.request
      (onLocalbe (cloud.argv name) s (worker :: parcel.frames)).2 := by
  obtain ⟨frames, request⟩ := parcel
  cases request with
  | none =>
      obtain ⟨_, _, -, hframes⟩ := h
      dsimp only at hframes
      rw [hframes, onLocalbe_ready]
      exact cloud.sends_nil name none
  | some request =>
      obtain ⟨made, addresses, body, addressed, answer, hframes⟩ := h
      dsimp only at hframes
      rw [hframes]
      cases addressed with
      | here origin =>
          rw [List.singleton_append, onLocalbe_reply _ _ _ made.client.2.1, cloud.argv_peers,
            if_neg (made.client.not_mem_peers hname)]
          exact cloud.sends_toLocalfe made origin answer
      | peer listed =>
          have named := cloud.named _ made.origin
          rw [List.cons_append, onLocalbe_reply _ _ _ named.2, cloud.argv_peers, if_pos listed]
          apply Topology.sends_singleton
          intro packet hroute
          simp only [Topology.route, Option.ite_none_right_eq_some, Option.some.injEq] at hroute
          obtain ⟨-, hpacket⟩ := hroute
          subst hpacket
          exact ⟨made, rfl, body, answer, rfl⟩

/-- A reply from a peer is for a client of this broker. -/
theorem Topology.sends_cloudbe (hname : name ∈ cloud.names) {parcel : Parcel}
    (h : cloud.Carries (.cloudbe name peer) parcel) (s : LcflowState) :
    cloud.Sends name parcel.request (onCloudbe (cloud.argv name) s (peer :: parcel.frames)).2 := by
  obtain ⟨request, hrequest, made, origin, body, answer, hframes⟩ := h.exists_request (by simp)
  rw [hrequest, hframes, onCloudbe_reply _ _ _ made.client.1, cloud.argv_peers,
    if_neg (made.client.not_mem_peers hname)]
  exact cloud.sends_toLocalfe made origin answer

/-- A request from a peer goes to a worker of this broker. -/
theorem Topology.sends_cloudfe {parcel : Parcel} (h : cloud.Carries (.cloudfe name peer) parcel)
    (s : LcflowState) :
    cloud.Sends name parcel.request (toWorker s (peer :: parcel.frames)).2 := by
  obtain ⟨request, hrequest, made, origin, listed, hframes⟩ := h.exists_request (by simp)
  rw [hrequest, hframes, ← origin]
  exact cloud.sends_toWorker made (.peer (origin ▸ listed)) s

/-- A request of a client goes to a worker of this broker, or to a peer. -/
theorem Topology.sends_localfe (hname : name ∈ cloud.names) {client : Frame} {parcel : Parcel}
    (h : cloud.Carries (.localfe name client) parcel) (s : LcflowState)
    (draws : Draws) :
    cloud.Sends name parcel.request
      (onLocalfe (cloud.argv name) s (client :: parcel.frames) draws).2 := by
  obtain ⟨request, hrequest, made, origin, hclient, hframes⟩ := h.exists_request (by simp)
  rw [hrequest, hframes, ← hclient]
  unfold onLocalfe
  split
  · split
    case h_1 => exact cloud.sends_nil name (some request)
    case h_2 target hget =>
      have listed : target ∈ cloud.peers name := List.mem_of_getElem? hget
      apply Topology.sends_singleton
      intro packet hroute
      simp only [Zmsg.push, Topology.route, Option.ite_none_right_eq_some,
        Option.some.injEq] at hroute
      obtain ⟨-, hpacket⟩ := hroute
      subst hpacket
      exact ⟨made, origin, (cloud.listed name hname target listed).2, rfl⟩
  · exact cloud.sends_toWorker made (.here origin) s

/-- Whatever a broker reads, it sends what belongs where it goes. -/
theorem Topology.Carries.sends (hname : name ∈ cloud.names) {loc : Loc} {parcel : Parcel}
    (hloc : s.pc.inbox name peer = some loc) (h : cloud.Carries loc parcel)
    (taken : lcflowStep (cloud.argv name) s (.recv (some (peer :: parcel.frames)) draws) =
      some (next, out)) : cloud.Sends name parcel.request out := by
  cases hpc : s.pc <;> simp only [hpc, LcflowPc.inbox, Option.some.injEq] at hloc
  case localbe =>
    subst hloc
    simp only [lcflowStep, hpc, Option.some.injEq] at taken
    have sends := cloud.sends_localbe hname h s
    rwa [taken] at sends
  case cloudbe =>
    subst hloc
    simp only [lcflowStep, hpc, Option.some.injEq] at taken
    have sends := cloud.sends_cloudbe hname h s
    rwa [taken] at sends
  case cloudfe =>
    subst hloc
    simp only [lcflowStep, hpc, Option.some.injEq] at taken
    have sends := cloud.sends_cloudfe h s
    rwa [taken] at sends
  case localfe =>
    subst hloc
    simp only [lcflowStep, hpc, Option.some.injEq] at taken
    have sends := cloud.sends_localfe hname h s draws
    rwa [taken] at sends
  all_goals cases hloc

end

end ZmqTest.Cloud
