/-
# Every run of the cloud

Every message of a run is what its place tells, and a request is noted once: it
either waits for the broker of its client, or has crossed to another broker, or
neither. From this follow the single hop of a request and the return of its
answer.
-/

import ZmqTest.Cloud.Routes

namespace ZmqTest.Cloud

/-- The requests that have gone from one broker to another. -/
def crossings (os : List SystemOutput) : List Request :=
  os.filterMap fun
    | .crossed _ _ parcel => parcel.request
    | _ => none

/-- The request that waits to be read from a client, if the message is one. -/
def waits : Loc × Parcel → Option Request
  | (.localfe _ _, parcel) => parcel.request
  | _ => none

/-- What holds between any two steps. -/
structure Sound (cloud : Topology) (os : List SystemOutput) (s : SystemState) : Prop where
  carries : ∀ packet ∈ s.net, cloud.Carries packet.1 packet.2
  asked : ∀ packet ∈ s.net, ∀ request, packet.2.request = some request → .asked request ∈ os
  serial : ∀ request, .asked request ∈ os → request.serial < s.serial
  once : (crossings os ++ s.net.filterMap waits).Nodup
  crossed : ∀ source target parcel, .crossed source target parcel ∈ os →
    ∃ request, parcel.request = some request ∧ request.origin = source ∧ .asked request ∈ os
  answered : ∀ broker client parcel, .answered broker client parcel ∈ os →
    ∃ request, parcel.request = some request ∧ request.origin = broker ∧
      request.client = client ∧ request.Answer parcel.frames ∧ .asked request ∈ os

section

variable {cloud : Topology} {os out : List SystemOutput} {s t : SystemState}

theorem crossings_append (os out : List SystemOutput) :
    crossings (os ++ out) = crossings os ++ crossings out :=
  List.filterMap_append

/-- The request that is read and those that still wait have not crossed. -/
theorem Sound.once_of_recv (h : Sound cloud os s) {loc : Loc} {parcel : Parcel}
    {left : Network Loc Parcel} (hrecv : s.net.recv loc = some (parcel, left)) :
    (crossings os ++ ((waits (loc, parcel)).toList ++ left.filterMap waits)).Nodup := by
  have hperm := Network.filterMap_of_recv hrecv waits
  exact ((hperm.append_left (crossings os)).nodup_iff).mp h.once

/-- Taking messages away and adding others that belong where they are. -/
theorem Sound.replace (h : Sound cloud os s) {left new : Network Loc Parcel}
    (sub : ∀ packet ∈ left, packet ∈ s.net) (hnet : t.net = left ++ new)
    (hserial : t.serial = s.serial)
    (carries : ∀ packet ∈ new, cloud.Carries packet.1 packet.2)
    (asked : ∀ packet ∈ new, ∀ request, packet.2.request = some request → .asked request ∈ os)
    (silent : ∀ request, .asked request ∉ out)
    (crossed : ∀ source target parcel, .crossed source target parcel ∈ out →
      ∃ request, parcel.request = some request ∧ request.origin = source ∧ .asked request ∈ os)
    (answered : ∀ broker client parcel, .answered broker client parcel ∈ out →
      ∃ request, parcel.request = some request ∧ request.origin = broker ∧
        request.client = client ∧ request.Answer parcel.frames ∧ .asked request ∈ os)
    (once : (crossings (os ++ out) ++ (left ++ new).filterMap waits).Nodup) :
    Sound cloud (os ++ out) t where
  carries := by
    intro packet hmem
    rw [hnet] at hmem
    cases List.mem_append.mp hmem with
    | inl old => exact h.carries packet (sub packet old)
    | inr added => exact carries packet added
  asked := by
    intro packet hmem request hrequest
    apply List.mem_append_left
    rw [hnet] at hmem
    cases List.mem_append.mp hmem with
    | inl old => exact h.asked packet (sub packet old) request hrequest
    | inr added => exact asked packet added request hrequest
  serial := by
    intro request hmem
    rw [hserial]
    cases List.mem_append.mp hmem with
    | inl old => exact h.serial request old
    | inr added => exact absurd added (silent request)
  once := by rw [hnet]; exact once
  crossed := by
    intro source target parcel hmem
    have known : ∃ request, parcel.request = some request ∧ request.origin = source ∧
        .asked request ∈ os := by
      cases List.mem_append.mp hmem with
      | inl old => exact h.crossed source target parcel old
      | inr added => exact crossed source target parcel added
    obtain ⟨request, hrequest, origin, hasked⟩ := known
    exact ⟨request, hrequest, origin, List.mem_append_left _ hasked⟩
  answered := by
    intro broker client parcel hmem
    have known : ∃ request, parcel.request = some request ∧ request.origin = broker ∧
        request.client = client ∧ request.Answer parcel.frames ∧ .asked request ∈ os := by
      cases List.mem_append.mp hmem with
      | inl old => exact h.answered broker client parcel old
      | inr added => exact answered broker client parcel added
    obtain ⟨request, hrequest, origin, hclient, answer, hasked⟩ := known
    exact ⟨request, hrequest, origin, hclient, answer, List.mem_append_left _ hasked⟩

/-- Messages that are no requests of clients replace the one that is read, and
nothing crosses. -/
theorem Sound.pass (h : Sound cloud os s) {loc : Loc} {parcel : Parcel}
    {left new : Network Loc Parcel} (hrecv : s.net.recv loc = some (parcel, left))
    (hnet : t.net = left ++ new) (hserial : t.serial = s.serial)
    (carries : ∀ packet ∈ new, cloud.Carries packet.1 packet.2)
    (same : ∀ packet ∈ new, packet.2.request = parcel.request)
    (served : ∀ packet ∈ new, waits packet = none) : Sound cloud os t := by
  have hloc := Network.mem_of_recv hrecv
  have hnone : new.filterMap waits = [] := by
    rw [List.filterMap_eq_nil_iff]
    exact served
  rw [← List.append_nil os]
  refine h.replace (fun _ hmem => Network.mem_of_mem_left hrecv hmem) hnet hserial carries ?_
    (by simp) (by simp) (by simp) ?_
  · intro packet hmem request hrequest
    exact h.asked (loc, parcel) hloc request ((same packet hmem).symm.trans hrequest)
  · rw [List.append_nil, List.filterMap_append, hnone, List.append_nil]
    refine List.Nodup.sublist ?_ (h.once_of_recv hrecv)
    exact (List.sublist_append_right _ _).append_left _

/-- A request that is read from a client crosses to another broker. -/
theorem Sound.cross (h : Sound cloud os s) {name client : Frame} {parcel : Parcel}
    {left new : Network Loc Parcel}
    (hrecv : s.net.recv (.localfe name client) = some (parcel, left))
    (hnet : t.net = left ++ new) (hserial : t.serial = s.serial)
    (carries : ∀ packet ∈ new, cloud.Carries packet.1 packet.2)
    (same : ∀ packet ∈ new, packet.2.request = parcel.request)
    (served : ∀ packet ∈ new, waits packet = none) (target : Frame) (frames : Zmsg) :
    Sound cloud (os ++ [.crossed name target ⟨frames, parcel.request⟩]) t := by
  have hmem := Network.mem_of_recv hrecv
  obtain ⟨request, hrequest, -, origin, -⟩ := (h.carries _ hmem).exists_request (by simp)
  have hasked : .asked request ∈ os := h.asked _ hmem request hrequest
  have hnone : new.filterMap waits = [] := by
    rw [List.filterMap_eq_nil_iff]
    exact served
  have hcrossings : crossings [.crossed name target ⟨frames, parcel.request⟩] =
      (waits (.localfe name client, parcel)).toList := by
    show [SystemOutput.crossed name target ⟨frames, parcel.request⟩].filterMap _ =
      parcel.request.toList
    rw [show parcel.request = some request from hrequest]
    rfl
  refine h.replace (fun _ hleft => Network.mem_of_mem_left hrecv hleft) hnet hserial
    carries ?_ (by simp) ?_ (by simp) ?_
  · intro packet hpacket other hother
    exact h.asked _ hmem other ((same packet hpacket).symm.trans hother)
  · intro source other crossed hcrossed
    obtain ⟨rfl, -, rfl⟩ := SystemOutput.crossed.inj (List.mem_singleton.mp hcrossed)
    exact ⟨request, hrequest, origin, hasked⟩
  · rw [crossings_append, hcrossings, List.filterMap_append, hnone, List.append_nil,
      List.append_assoc]
    exact h.once_of_recv hrecv

/-- Every request that waits or has crossed was asked. -/
theorem Sound.asked_of_mem (h : Sound cloud os s) {request : Request}
    (hmem : request ∈ crossings os ++ s.net.filterMap waits) : .asked request ∈ os := by
  cases List.mem_append.mp hmem with
  | inl crossed =>
      obtain ⟨output, hout, hrequest⟩ := List.mem_filterMap.mp crossed
      cases output with
      | crossed source target parcel =>
          obtain ⟨other, hother, -, hasked⟩ := h.crossed source target parcel hout
          obtain rfl := Option.some.inj (hother.symm.trans hrequest)
          exact hasked
      | asked other => cases hrequest
      | answered broker client parcel => cases hrequest
  | inr waiting =>
      obtain ⟨⟨loc, parcel⟩, hpacket, hrequest⟩ := List.mem_filterMap.mp waiting
      cases loc with
      | localfe broker client => exact h.asked _ hpacket request hrequest
      | _ => cases hrequest

theorem Sound.clientSend (h : Sound cloud os s) {broker client : Frame} {body : Zmsg}
    (hbroker : broker ∈ cloud.names) (hclient : cloud.IsClient client) (hbody : body ≠ []) :
    Sound cloud (os ++ (s.clientSend broker client body).2)
      (s.clientSend broker client body).1 := by
  have hnew : ∀ request : Request, .asked request ∈ os → request.serial ≠ s.serial :=
    fun request hmem => Nat.ne_of_lt (h.serial request hmem)
  constructor
  · intro packet hmem
    cases List.mem_append.mp hmem with
    | inl old => exact h.carries packet old
    | inr added =>
        rw [List.mem_singleton.mp added]
        exact ⟨⟨hbroker, hclient, hbody⟩, rfl, rfl, rfl⟩
  · intro packet hmem request hrequest
    cases List.mem_append.mp hmem with
    | inl old => exact List.mem_append_left _ (h.asked packet old request hrequest)
    | inr added =>
        rw [List.mem_singleton.mp added, Option.some.injEq] at hrequest
        exact List.mem_append_right _ (List.mem_singleton.mpr (congrArg _ hrequest.symm))
  · intro request hmem
    apply Nat.lt_succ_iff.mpr
    cases List.mem_append.mp hmem with
    | inl old => exact Nat.le_of_lt (h.serial request old)
    | inr added =>
        obtain rfl := SystemOutput.asked.inj (List.mem_singleton.mp added)
        exact Nat.le_refl _
  · have hcrossings : crossings (os ++ (s.clientSend broker client body).2) = crossings os := by
      rw [crossings_append]
      exact List.append_nil _
    have hwaits : (s.clientSend broker client body).1.net.filterMap waits =
        s.net.filterMap waits ++ [⟨broker, client, s.serial, body⟩] := List.filterMap_append
    rw [hcrossings, hwaits, ← List.append_assoc, List.nodup_append_comm, List.singleton_append,
      List.nodup_cons]
    refine ⟨?_, h.once⟩
    intro hmem
    exact hnew _ (h.asked_of_mem hmem) rfl
  · intro source target parcel hmem
    cases List.mem_append.mp hmem with
    | inl old =>
        obtain ⟨request, hrequest, origin, hasked⟩ := h.crossed source target parcel old
        exact ⟨request, hrequest, origin, List.mem_append_left _ hasked⟩
    | inr added => cases List.mem_singleton.mp added
  · intro other answeree parcel hmem
    cases List.mem_append.mp hmem with
    | inl old =>
        obtain ⟨request, hrequest, origin, same, answer, hasked⟩ := h.answered _ _ _ old
        exact ⟨request, hrequest, origin, same, answer, List.mem_append_left _ hasked⟩
    | inr added => cases List.mem_singleton.mp added

theorem Sound.clientRecv (h : Sound cloud os s) {broker client : Frame} {parcel : Parcel}
    {left : Network Loc Parcel} (hrecv : s.net.recv (.client broker client) = some (parcel, left)) :
    Sound cloud (os ++ [.answered broker client parcel]) { s with net := left } := by
  have hloc := Network.mem_of_recv hrecv
  have carries := h.carries _ hloc
  refine h.replace (fun _ hmem => Network.mem_of_mem_left hrecv hmem)
    (List.append_nil left).symm rfl (by simp) (by simp) (by simp) (by simp) ?_ ?_
  · intro other answeree delivered hmem
    obtain ⟨rfl, rfl, rfl⟩ := SystemOutput.answered.inj (List.mem_singleton.mp hmem)
    obtain ⟨request, hrequest, -, origin, same, answer⟩ := carries.exists_request (by simp)
    exact ⟨request, hrequest, origin, same, answer, h.asked _ hloc request hrequest⟩
  · have hcrossings : crossings (os ++ [.answered broker client parcel]) = crossings os := by
      rw [crossings_append]
      exact List.append_nil _
    rw [hcrossings, List.append_nil]
    refine List.Nodup.sublist ?_ (h.once_of_recv hrecv)
    exact (List.sublist_append_right _ _).append_left _

theorem Sound.workerStart (h : Sound cloud os s) (broker worker : Frame)
    (started : Frame × Frame → Bool) :
    Sound cloud os { s with
      started := started
      net := s.net.send (.localbe broker worker) ⟨[[], workerReady], none⟩ } := by
  rw [← List.append_nil os]
  refine h.replace (fun _ hmem => hmem) rfl rfl ?_ ?_ (by simp) (by simp) (by simp) ?_
  · intro packet hmem
    rw [List.mem_singleton.mp hmem]
    exact ⟨broker, worker, rfl, rfl⟩
  · intro packet hmem request hrequest
    rw [List.mem_singleton.mp hmem] at hrequest
    cases hrequest
  · rw [List.append_nil, List.filterMap_append]
    exact (List.append_nil (s.net.filterMap waits)).symm ▸ h.once

theorem Sound.workerTakes (h : Sound cloud os s) {broker worker : Frame}
    (taken : s.workerTakes broker worker = some t) : Sound cloud os t := by
  unfold SystemState.workerTakes at taken
  split at taken
  case isFalse _ => cases taken
  case isTrue _ =>
    split at taken
    case h_3 => cases taken
    case h_1 frames request left hrecv =>
      cases taken
      have carries := h.carries _ (Network.mem_of_recv hrecv)
      refine h.pass hrecv rfl rfl ?_ ?_ ?_
      · intro packet hmem
        rw [List.mem_singleton.mp hmem]
        obtain ⟨about, rfl, made, addresses, addressed, hframes⟩ := carries.exists_request (by simp)
        exact ⟨made, addresses, addressed, (List.cons.inj hframes).2⟩
      · intro packet hmem
        rw [List.mem_singleton.mp hmem]
      · intro packet hmem
        rw [List.mem_singleton.mp hmem]
        rfl
    case h_2 parcel left _ hrecv =>
      cases taken
      exact h.pass hrecv (List.append_nil left).symm rfl (by simp) (by simp) (by simp)

theorem Sound.workerAnswers (h : Sound cloud os s) {broker worker last : Frame}
    (taken : s.workerAnswers broker worker last = some t) : Sound cloud os t := by
  unfold SystemState.workerAnswers at taken
  split at taken
  case h_2 => cases taken
  case h_1 parcel left hrecv =>
    cases taken
    have carries := h.carries _ (Network.mem_of_recv hrecv)
    refine h.pass hrecv rfl rfl ?_ ?_ ?_
    · intro packet hmem
      rw [List.mem_singleton.mp hmem]
      obtain ⟨request, hrequest, made, addresses, addressed, hframes⟩ :=
        carries.exists_request (by simp)
      rw [hrequest, hframes, resetLast_append addresses made.body]
      exact ⟨made, addresses, request.body.resetLast last, addressed, ⟨last, rfl⟩, rfl⟩
    · intro packet hmem
      rw [List.mem_singleton.mp hmem]
    · intro packet hmem
      rw [List.mem_singleton.mp hmem]
      rfl

/-! ## The steps of a broker -/

/-- What a broker sends is about the request at hand, and never on its way from
a client. -/
theorem route_eq_some {name : Frame} {request : Option Request} {effect : LcflowEffect}
    {packet : Loc × Parcel} (h : cloud.route name request effect = some packet) :
    packet.2.request = request ∧ waits packet = none := by
  unfold Topology.route at h
  split at h
  case h_1 => cases h; exact ⟨rfl, rfl⟩
  case h_2 => cases h; exact ⟨rfl, rfl⟩
  case h_3 => split at h <;> cases h; exact ⟨rfl, rfl⟩
  case h_4 => split at h <;> cases h; exact ⟨rfl, rfl⟩
  case h_5 => cases h

/-- A note is of a message to a peer. -/
theorem note_route {name : Frame} {request : Option Request} {effect : LcflowEffect}
    {packet : Loc × Parcel} {output : SystemOutput}
    (h : cloud.route name request effect = some packet) (noted : note packet = some output) :
    (∃ sent, effect = .toCloudbe sent) ∧
      ∃ target frames, output = .crossed name target ⟨frames, request⟩ := by
  unfold Topology.route at h
  split at h
  case h_1 => cases h; cases noted
  case h_2 => cases h; cases noted
  case h_3 peer frames =>
    split at h <;> cases h
    cases noted
    exact ⟨⟨_, rfl⟩, peer, frames, rfl⟩
  case h_4 => split at h <;> cases h; cases noted
  case h_5 => cases h

/-- What is noted of a step of a broker that reads a message: nothing, or that
a request of one of its own clients has crossed. -/
theorem noted_of_recv {name : Frame} {broker next : LcflowState} {msg : Zmsg}
    {draws : Draws} {effects : List LcflowEffect} (request : Option Request)
    (taken : lcflowStep (cloud.argv name) broker (.recv (some msg) draws) = some (next, effects)) :
    (effects.filterMap (cloud.route name request)).filterMap note = [] ∨
      broker.pc = .localfe ∧ ∃ target frames,
        (effects.filterMap (cloud.route name request)).filterMap note =
          [.crossed name target ⟨frames, request⟩] := by
  by_cases hcloud : ∃ sent, LcflowEffect.toCloudbe sent ∈ effects
  · obtain ⟨sent, hmem⟩ := hcloud
    obtain ⟨hpc, heffects⟩ := eq_singleton_of_toCloudbe taken hmem
    cases hroute : cloud.route name request (.toCloudbe sent) with
    | none => left; simp [heffects, hroute]
    | some packet =>
        cases hnote : note packet with
        | none => left; simp [heffects, hroute, hnote]
        | some output =>
            right
            obtain ⟨-, target, frames, rfl⟩ := note_route hroute hnote
            exact ⟨hpc, target, frames, by simp [heffects, hroute, hnote]⟩
  · left
    rw [List.filterMap_eq_nil_iff]
    intro packet hmem
    obtain ⟨effect, heffect, hroute⟩ := List.mem_filterMap.mp hmem
    cases hnote : note packet with
    | none => rfl
    | some output =>
        obtain ⟨⟨sent, rfl⟩, -⟩ := note_route hroute hnote
        exact absurd ⟨sent, heffect⟩ hcloud

/-- A broker reads a message and sends it on. -/
theorem Sound.recv (h : Sound cloud os s) {name peer : Frame} {draws : Draws}
    (hname : name ∈ cloud.names) (taken : cloud.recv s name peer draws = some (t, out)) :
    Sound cloud (os ++ out) t := by
  unfold Topology.recv at taken
  split at taken
  case h_1 => cases taken
  case h_2 loc hloc =>
    split at taken
    case h_1 => cases taken
    case h_2 parcel left hrecv =>
      have hmem := Network.mem_of_recv hrecv
      unfold Topology.stepBroker at taken
      split at taken
      case h_1 => cases taken
      case h_2 next effects hstep =>
        cases taken
        have sends := (h.carries _ hmem).sends hname hloc hstep
        have carries : ∀ packet ∈ effects.filterMap (cloud.route name parcel.request),
            cloud.Carries packet.1 packet.2 := by
          intro packet hpacket
          obtain ⟨effect, heffect, hroute⟩ := List.mem_filterMap.mp hpacket
          exact sends effect heffect packet hroute
        have asked : ∀ packet ∈ effects.filterMap (cloud.route name parcel.request),
            packet.2.request = parcel.request := by
          intro packet hpacket
          obtain ⟨effect, -, hroute⟩ := List.mem_filterMap.mp hpacket
          exact (route_eq_some hroute).1
        have served : ∀ packet ∈ effects.filterMap (cloud.route name parcel.request),
            waits packet = none := by
          intro packet hpacket
          obtain ⟨effect, -, hroute⟩ := List.mem_filterMap.mp hpacket
          exact (route_eq_some hroute).2
        rcases noted_of_recv parcel.request hstep with hnone | ⟨hpc, target, frames, hnoted⟩
        · rw [hnone, List.append_nil]
          exact h.pass hrecv rfl rfl carries asked served
        · rw [hpc] at hloc
          obtain rfl := Option.some.inj hloc
          rw [hnoted]
          apply h.cross hrecv _ _ carries asked served
          · rfl
          · rfl

/-- A poll changes no message. -/
theorem Sound.poll (h : Sound cloud os s) {name : Frame} {e : LcflowEvent}
    (poll : e.receives = false) (taken : cloud.stepBroker s s.net name none e = some (t, out)) :
    Sound cloud (os ++ out) t := by
  unfold Topology.stepBroker at taken
  split at taken
  case h_1 => cases taken
  case h_2 next effects hstep =>
    have silent : effects = [] := by
      refine poll_sends_nothing ?_ hstep
      rintro msg draws rfl
      cases poll
    subst silent
    cases taken
    rw [List.filterMap_nil, List.filterMap_nil, List.append_nil, List.append_nil]
    exact ⟨h.carries, h.asked, h.serial, h.once, h.crossed, h.answered⟩

theorem Sound.lose (h : Sound cloud os s) (index : Nat) :
    Sound cloud os { s with net := s.net.eraseIdx index } := by
  have sub := List.eraseIdx_sublist s.net index
  refine ⟨fun packet hmem => h.carries packet (sub.subset hmem),
    fun packet hmem => h.asked packet (sub.subset hmem), h.serial, ?_, h.crossed, h.answered⟩
  exact List.Nodup.sublist ((sub.filterMap waits).append_left _) h.once

/-- Every step of the cloud keeps the invariant. -/
theorem Sound.step (h : Sound cloud os s) {e : SystemEvent}
    (taken : (system cloud).step s e = some (t, out)) : Sound cloud (os ++ out) t := by
  cases e with
  | clientSend broker client body =>
      simp only [system, systemStep, Option.ite_none_right_eq_some, Option.some.injEq] at taken
      obtain ⟨⟨hbroker, hclient, hbody⟩, hsend⟩ := taken
      have sent := h.clientSend hbroker hclient hbody
      rwa [hsend] at sent
  | clientRecv broker client =>
      simp only [system, systemStep] at taken
      split at taken
      case h_1 => cases taken
      case h_2 parcel left hrecv =>
        cases taken
        exact h.clientRecv hrecv
  | workerStart broker worker =>
      simp only [system, systemStep, Option.ite_none_right_eq_some, Option.some.injEq,
        Prod.mk.injEq] at taken
      obtain ⟨-, rfl, rfl⟩ := taken
      rw [List.append_nil]
      exact h.workerStart broker worker _
  | workerTakes broker worker =>
      simp only [system, systemStep, Option.map_eq_some_iff, Prod.mk.injEq] at taken
      obtain ⟨u, htakes, rfl, rfl⟩ := taken
      rw [List.append_nil]
      exact h.workerTakes htakes
  | workerAnswers broker worker last =>
      simp only [system, systemStep, Option.map_eq_some_iff, Prod.mk.injEq] at taken
      obtain ⟨u, hanswers, rfl, rfl⟩ := taken
      rw [List.append_nil]
      exact h.workerAnswers hanswers
  | poll broker e =>
      simp only [system, systemStep, Option.ite_none_right_eq_some] at taken
      obtain ⟨⟨-, poll⟩, hstep⟩ := taken
      exact h.poll poll hstep
  | recv broker peer draws =>
      simp only [system, systemStep, Option.ite_none_right_eq_some] at taken
      obtain ⟨hbroker, hrecv⟩ := taken
      exact h.recv hbroker hrecv
  | lose index =>
      simp only [system, systemStep, Option.some.injEq, Prod.mk.injEq] at taken
      obtain ⟨rfl, rfl⟩ := taken
      rw [List.append_nil]
      exact h.lose index

theorem sound_of_run {es : List SystemEvent} (run : (system cloud).Run es os s) :
    Sound cloud os s := by
  apply run.output_invariant
  · constructor <;> simp [system, systemInit, crossings]
  · intro os s e t out sound taken
    exact sound.step taken

/-- A broker that reads a request of a peer does not send it to another. -/
theorem not_crossed_of_cloudfe {name peer : Frame} {draws : Draws}
    (hpc : (s.broker name).pc = .cloudfe)
    (taken : (system cloud).step s (.recv name peer draws) = some (t, out)) : out = [] := by
  simp only [system, systemStep, Option.ite_none_right_eq_some] at taken
  obtain ⟨-, hrecv⟩ := taken
  simp only [Topology.recv, hpc, LcflowPc.inbox] at hrecv
  split at hrecv
  case h_1 => cases hrecv
  case h_2 parcel left _ =>
    unfold Topology.stepBroker at hrecv
    split at hrecv
    case h_1 => cases hrecv
    case h_2 next effects hstep =>
      cases hrecv
      rcases noted_of_recv parcel.request hstep with hnone | ⟨hwrong, -⟩
      · exact hnone
      · rw [hpc] at hwrong
        cases hwrong

end

/-- In every run a request crosses from one broker to another at most once, and
it is the broker of its client that it leaves; what a broker reads from a peer
it does not send to another; and whatever a client receives answers a request
that this client made at this broker. -/
theorem one_hop_and_back {cloud : Topology} {es : List SystemEvent} {os : List SystemOutput}
    {s : SystemState} (run : (system cloud).Run es os s) :
    (crossings os).Nodup ∧
      (∀ source target parcel, .crossed source target parcel ∈ os →
        ∃ request, parcel.request = some request ∧ request.origin = source) ∧
      (∀ name peer draws t out, (s.broker name).pc = .cloudfe →
        (system cloud).step s (.recv name peer draws) = some (t, out) → out = []) ∧
      ∀ broker client parcel, .answered broker client parcel ∈ os →
        ∃ request, parcel.request = some request ∧ request.origin = broker ∧
          request.client = client ∧ request.Answer parcel.frames ∧ .asked request ∈ os := by
  have sound := sound_of_run run
  refine ⟨(List.nodup_append.mp sound.once).1, ?_, ?_, sound.answered⟩
  · intro source target parcel hmem
    obtain ⟨request, hrequest, origin, -⟩ := sound.crossed source target parcel hmem
    exact ⟨request, hrequest, origin⟩
  · intro name peer draws t out hpc taken
    exact not_crossed_of_cloudfe hpc taken

/-- Two brokers that name each other. -/
def pair : Topology where
  names := [[65], [66]]
  peers := fun name => if name = [65] then [[66]] else [[65]]
  named := by decide
  listed := by decide

/-- A request of a client of the one broker is answered by the worker of the other. -/
def thereAndBack : List SystemEvent :=
  [.workerStart [65] [87], .poll [65] (.pollBackends (some (true, false))),
    .recv [65] [87] ⟨0, 0⟩, .workerStart [66] [86],
    .poll [66] (.pollBackends (some (true, false))), .recv [66] [86] ⟨0, 0⟩,
    .clientSend [65] [67] [[], [72]], .poll [65] (.pollFrontends (some (true, false))),
    .recv [65] [67] ⟨0, 0⟩, .poll [66] (.pollFrontends (some (false, true))),
    .recv [66] [65] ⟨0, 0⟩, .workerTakes [66] [86], .workerAnswers [66] [86] [79, 75],
    .poll [66] (.pollBackends (some (true, false))), .recv [66] [86] ⟨0, 0⟩,
    .poll [65] (.pollFrontends (some (false, false))),
    .poll [65] (.pollBackends (some (false, true))), .recv [65] [66] ⟨0, 0⟩,
    .clientRecv [65] [67]]

theorem one_hop_and_back_sample : ∃ os, (crossings os).length = 1 ∧ (crossings os).Nodup ∧
    ∃ request, request.origin = [65] ∧ request.client = [67] ∧
      request.Answer [[], [79, 75]] ∧ .asked request ∈ os := by
  have hexec : ((system pair).exec (system pair).init thereAndBack).map Prod.snd =
      some [.asked ⟨[65], [67], 0, [[], [72]]⟩,
        .crossed [65] [66] ⟨[[67], [], [72]], some ⟨[65], [67], 0, [[], [72]]⟩⟩,
        .answered [65] [67] ⟨[[], [79, 75]], some ⟨[65], [67], 0, [[], [72]]⟩⟩] := by
    decide +kernel
  obtain ⟨os, s, run, hos⟩ := Machine.run_of_map_exec hexec
  obtain ⟨once, -, -, answered⟩ := one_hop_and_back run
  dsimp only at hos
  subst hos
  obtain ⟨request, -, origin, client, answer, asked⟩ := answered [65] [67]
    ⟨[[], [79, 75]], some ⟨[65], [67], 0, [[], [72]]⟩⟩ (by simp)
  exact ⟨_, rfl, once, request, origin, client, answer, asked⟩

end ZmqTest.Cloud
