/-
# Whose request a returned message answers

A retry replaces the socket before it sends again, so inside one call the socket
never waits for anything but what that call transmitted. The exits that give up
leave the socket as it is. A later call on the same session is refused its send,
polls the old socket, and returns the late answer of the earlier call. A call is
clean when the socket it starts on has nothing outstanding that could still be
delivered and returned. Runs of clean calls return own answers only, and a call
that is not clean can return an answer of an earlier one.
-/

import Mathlib.Data.List.Nodup
import ZmqTest.Mdp.Client

namespace ZmqTest.Mdp

/-- Nothing the socket waits for can be delivered and pass the assertions of a
call for `service`: the request has not survived, and neither has a reply that
the call would return. -/
def Barren (s : Session) (service : Frame) (t : Transmission) : Prop :=
  (∀ msg, (t, msg) ∉ s.requests) ∧
    ∀ msg, (t, msg) ∈ s.replies → openReply service msg = none

theorem barren_iff {s : Session} {service : Frame} {t : Transmission} :
    Barren s service t ↔ (∀ request ∈ s.requests, request.1 ≠ t) ∧
      ∀ reply ∈ s.replies, reply.1 = t → openReply service reply.2 = none := by
  constructor
  · rintro ⟨lost, unread⟩
    refine ⟨fun request hmem heq => lost request.2 (heq ▸ hmem), fun reply hmem heq => ?_⟩
    exact unread reply.2 (heq ▸ hmem)
  · rintro ⟨lost, unread⟩
    exact ⟨fun msg hmem => lost (t, msg) hmem rfl, fun msg hmem => unread (t, msg) hmem rfl⟩

instance (s : Session) (service : Frame) (t : Transmission) : Decidable (Barren s service t) :=
  decidable_of_iff' _ barren_iff

/-- A call that makes an attempt at all starts with nothing outstanding that it
could return. -/
def CleanStart (s : Session) : MdcliEvent → Prop
  | .call service _ =>
      s.retries ≠ 0 → s.interrupted = false →
        ∀ t, s.outstanding = some t → Barren s service t
  | _ => True

instance (s : Session) (e : MdcliEvent) : Decidable (CleanStart s e) :=
  match e with
  | .call service _ =>
      inferInstanceAs (Decidable (s.retries ≠ 0 → s.interrupted = false →
        ∀ t ∈ s.outstanding, Barren s service t))
  | .setTimeout _ | .setRetries _ | .loop | .pollError | .pollTimeout | .pollReady | .receive
  | .receiveError | .interrupt | .answer _ _ | .loseRequest _ | .loseReply _ =>
      inferInstanceAs (Decidable True)

/-- A call is in progress. -/
def Session.Calling (s : Session) : Prop := s.pc = .loop ∨ s.pc = .poll ∨ s.pc = .receive

/-- The loop will be left before it sends. -/
def Session.Over (s : Session) : Prop :=
  s.pc = .loop ∧ (s.retriesLeft = 0 ∨ s.interrupted = true)

/-- What holds along runs of clean calls: while a call is in progress the socket
waits for one of its own transmissions or for nothing that it could return. -/
structure Correlated (os : List MdcliOutput) (s : Session) : Prop where
  known : ∀ t, s.outstanding = some t → ∃ msg, .transmitted t msg ∈ os
  own : s.Calling → s.Over ∨
    ∀ t, s.outstanding = some t → t.call = s.call ∨ Barren s s.service t
  answers : ∀ call t body, .returned call (some (t, body)) ∈ os →
    t.call = call ∧ ∃ msg, .transmitted t msg ∈ os

theorem Correlated.init : Correlated [] session.init where
  known := by simp [session, sessionInit]
  own := by simp [session, sessionInit, Session.Calling]
  answers := by simp

/-- Messages that leave the network leave it barren. -/
theorem Barren.mono {s t : Session} {service : Frame} {tag : Transmission}
    (h : Barren s service tag) (requests : ∀ r ∈ t.requests, r ∈ s.requests)
    (replies : ∀ msg, (tag, msg) ∈ t.replies → (tag, msg) ∈ s.replies) :
    Barren t service tag :=
  ⟨fun msg hmem => h.1 msg (requests _ hmem), fun msg hmem => h.2 msg (replies msg hmem)⟩

/-- Outputs that are not answers keep what is known of the earlier ones. -/
theorem Correlated.answers_append {os out : List MdcliOutput} {s : Session}
    (h : Correlated os s)
    (silent : ∀ call t body, .returned call (some (t, body)) ∉ out) :
    ∀ call t body, .returned call (some (t, body)) ∈ os ++ out →
      t.call = call ∧ ∃ msg, .transmitted t msg ∈ os ++ out := by
  intro call t body hmem
  rw [List.mem_append] at hmem
  obtain ⟨hcall, msg, hmsg⟩ := h.answers call t body (hmem.resolve_right (silent call t body))
  exact ⟨hcall, msg, List.mem_append_left out hmsg⟩

theorem Correlated.known_append {os : List MdcliOutput} {s : Session}
    (h : Correlated os s) (out : List MdcliOutput) :
    ∀ t, s.outstanding = some t → ∃ msg, .transmitted t msg ∈ os ++ out := by
  intro t ht
  obtain ⟨msg, hmsg⟩ := h.known t ht
  exact ⟨msg, List.mem_append_left out hmsg⟩

/-- The invariant after a step that returns no answer. -/
theorem Correlated.quiet {os out : List MdcliOutput} {s t : Session} (h : Correlated os s)
    (silent : ∀ call tag body, .returned call (some (tag, body)) ∉ out)
    (known : ∀ tag, t.outstanding = some tag → s.outstanding = some tag ∨
      ∃ msg, .transmitted tag msg ∈ out)
    (own : t.Calling → t.Over ∨
      ∀ tag, t.outstanding = some tag → tag.call = t.call ∨ Barren t t.service tag) :
    Correlated (os ++ out) t where
  known := by
    intro tag htag
    rcases known tag htag with hold | ⟨msg, hmsg⟩
    · exact h.known_append out tag hold
    · exact ⟨msg, List.mem_append_right os hmsg⟩
  own := own
  answers := h.answers_append silent

/-- What happens around a call keeps the socket to itself. -/
theorem Correlated.own_mono {os : List MdcliOutput} {s t : Session} (h : Correlated os s)
    (pc : t.pc = s.pc) (call : t.call = s.call) (service : t.service = s.service)
    (retriesLeft : t.retriesLeft = s.retriesLeft)
    (interrupted : s.interrupted = true → t.interrupted = true)
    (outstanding : t.outstanding = s.outstanding)
    (barren : ∀ tag, Barren s s.service tag → Barren t s.service tag) :
    t.Calling → t.Over ∨
      ∀ tag, t.outstanding = some tag → tag.call = t.call ∨ Barren t t.service tag := by
  intro calling
  rw [Session.Calling, pc] at calling
  rcases h.own calling with ⟨hpc, hover⟩ | hown
  · left
    refine ⟨pc.trans hpc, ?_⟩
    rw [retriesLeft]
    exact hover.imp_right interrupted
  · right
    intro tag htag
    rw [outstanding] at htag
    rw [call, service]
    exact (hown tag htag).imp_right (barren tag)

/-- A body that is returned has come on the transmission the socket waits for. -/
theorem Correlated.returned {os : List MdcliOutput} {s : Session} (h : Correlated os s)
    {waiting : Transmission} {msg body : Zmsg} (pc : s.pc = .receive)
    (busy : s.outstanding = some waiting) (found : (waiting, msg) ∈ s.replies)
    (opened : openReply s.service msg = some body) :
    Correlated (os ++ [.returned s.call (some (waiting, body))])
      { s with
        pc := .idle
        outstanding := none
        replies := s.replies.filter (fun reply => reply.1 ≠ waiting) } := by
  have hown := (h.own (Or.inr (Or.inr pc))).resolve_left (by simp [Session.Over, pc])
  have hcall : waiting.call = s.call := by
    rcases hown waiting busy with hcall | hbarren
    · exact hcall
    · rw [hbarren.2 msg found] at opened
      cases opened
  refine ⟨by simp, by simp [Session.Calling], ?_⟩
  intro call tag content hmem
  rw [List.mem_append, List.mem_singleton] at hmem
  rcases hmem with hold | hnew
  · obtain ⟨hold, sent, hsent⟩ := h.answers call tag content hold
    exact ⟨hold, sent, List.mem_append_left _ hsent⟩
  · simp only [MdcliOutput.returned.injEq, Option.some.injEq, Prod.mk.injEq] at hnew
    obtain ⟨rfl, rfl, rfl⟩ := hnew
    exact ⟨hcall, h.known_append _ tag busy⟩

/-- Every step from a clean start keeps the invariant. -/
theorem Correlated.step {os out : List MdcliOutput} {s t : Session} {e : MdcliEvent}
    (h : Correlated os s) (clean : CleanStart s e)
    (taken : session.step s e = some (t, out)) : Correlated (os ++ out) t := by
  cases sessionMoves_of_step taken with
  | setTimeout timeout pc =>
      exact h.quiet (by simp) (fun _ => Or.inl) (by simp [Session.Calling, pc])
  | setRetries retries pc =>
      exact h.quiet (by simp) (fun _ => Or.inl) (by simp [Session.Calling, pc])
  | call service request pc =>
      refine h.quiet (by simp) (fun _ => Or.inl) ?_
      intro _
      by_cases hretries : s.retries = 0
      · exact Or.inl ⟨rfl, Or.inl hretries⟩
      · cases hinterrupted : s.interrupted with
        | true => exact Or.inl ⟨rfl, Or.inr hinterrupted⟩
        | false => exact Or.inr fun tag htag => Or.inr (clean hretries hinterrupted tag htag)
  | ended pc finished => exact h.quiet (by simp) (fun _ => Or.inl) (by simp [Session.Calling])
  | refused waiting pc again busy =>
      refine h.quiet (by simp) (fun _ => Or.inl) ?_
      intro _
      have hown := (h.own (Or.inl pc)).resolve_left fun ended => again ended.2
      exact Or.inr hown
  | transmitted pc again free =>
      refine h.quiet (by simp) ?_ ?_
      · intro tag htag
        obtain rfl := Option.some.inj htag
        exact Or.inr ⟨s.request, List.mem_singleton_self _⟩
      · intro _
        right
        intro tag htag
        obtain rfl := Option.some.inj htag
        exact Or.inl rfl
  | pollError pc => exact h.quiet (by simp) (fun _ => Or.inl) (by simp [Session.Calling])
  | abandoned pc last => exact h.quiet (by simp) (fun _ => Or.inl) (by simp [Session.Calling])
  | reconnected pc more =>
      -- the new socket waits for nothing
      exact h.quiet (by simp) (by simp) (fun _ => Or.inr (by simp))
  | pollReady pc =>
      refine h.quiet (by simp) (fun _ => Or.inl) ?_
      intro _
      have hown := (h.own (Or.inr (Or.inl pc))).resolve_left (by simp [Session.Over, pc])
      exact Or.inr hown
  | rejected waiting msg pc busy found malformed =>
      exact h.quiet (by simp) (by simp) (by simp [Session.Calling])
  | returned waiting msg body pc busy found opened =>
      exact h.returned pc busy found opened
  | receiveError pc => exact h.quiet (by simp) (fun _ => Or.inl) (by simp [Session.Calling])
  | interrupt =>
      exact h.quiet (by simp) (fun _ => Or.inl)
        (h.own_mono rfl rfl rfl rfl (fun _ => rfl) rfl fun _ hbarren => hbarren)
  | answer tag msg request arrived =>
      refine h.quiet (by simp) (fun _ => Or.inl) ?_
      refine h.own_mono rfl rfl rfl rfl id rfl ?_
      intro other hbarren
      -- the answered transmission was under way, so it is another one
      have hne : other ≠ tag := fun heq => hbarren.1 request (heq ▸ arrived)
      refine ⟨fun content hmem => hbarren.1 content (List.mem_of_mem_filter hmem), ?_⟩
      intro content hmem
      rw [List.mem_append, List.mem_singleton, Prod.mk.injEq] at hmem
      exact hbarren.2 content (hmem.resolve_right fun heq => hne heq.1)
  | loseRequest tag =>
      refine h.quiet (by simp) (fun _ => Or.inl) ?_
      refine h.own_mono rfl rfl rfl rfl id rfl ?_
      intro other hbarren
      exact hbarren.mono (fun _ => List.mem_of_mem_filter) fun _ hmem => hmem
  | loseReply tag =>
      refine h.quiet (by simp) (fun _ => Or.inl) ?_
      refine h.own_mono rfl rfl rfl rfl id rfl ?_
      intro other hbarren
      exact hbarren.mono (fun _ hmem => hmem) fun _ => List.mem_of_mem_filter

/-- In every run whose calls all start clean, a returned message answers a
request that the same call transmitted. -/
theorem answers_own_request {es : List MdcliEvent} {os : List MdcliOutput} {s : Session}
    (run : session.Run es os s) (clean : session.StepsMeet CleanStart es) :
    ∀ call t body, .returned call (some (t, body)) ∈ os →
      t.call = call ∧ ∃ msg, .transmitted t msg ∈ os :=
  (run.invariant_of_stepsMeet Correlated.init
    (fun _ _ _ _ _ h meets taken => h.step meets taken) clean).answers

/-- Three attempts time out and the call is abandoned; its third request is lost on the
way. The send of the next call is refused, but after a timeout its request goes out on a
new socket and is answered. -/
def lostRun : List MdcliEvent :=
  [.call [101] [[120]], .loop, .pollTimeout, .loop, .pollTimeout, .loop, .pollTimeout,
    .loseRequest ⟨1, 2⟩, .call [101] [[121]], .loop, .pollTimeout, .loop,
    .answer ⟨2, 3⟩ [mdpcClient, [101], [121]], .pollReady, .receive]

theorem answers_own_request_lost :
    ∃ os s, session.Run lostRun os s ∧ session.StepsMeet CleanStart lostRun ∧
      os.drop 3 = [.returned 1 none, .refused 2, .transmitted ⟨2, 3⟩ [mdpcClient, [101], [121]],
        .returned 2 (some (⟨2, 3⟩, [[121]]))] ∧
      ∀ call t body, .returned call (some (t, body)) ∈ os →
        t.call = call ∧ ∃ msg, .transmitted t msg ∈ os := by
  have hexec : (session.exec session.init lostRun).map (fun r => r.2.drop 3) =
      some [.returned 1 none, .refused 2, .transmitted ⟨2, 3⟩ [mdpcClient, [101], [121]],
        .returned 2 (some (⟨2, 3⟩, [[121]]))] := by decide
  obtain ⟨os, s, run, hsee⟩ := Machine.run_of_map_exec hexec
  have clean : session.StepsMeet CleanStart lostRun := Machine.stepsMeet_of_check (by decide)
  exact ⟨os, s, run, clean, hsee, answers_own_request run clean⟩

/-! ## A call that does not start clean -/

/-- Three attempts time out and the call is abandoned. The next call is refused
its send, and the late answer to the third attempt arrives while it polls. -/
def staleRun : List MdcliEvent :=
  [.call [101] [[120]], .loop, .pollTimeout, .loop, .pollTimeout, .loop, .pollTimeout,
    .call [101] [[121]], .loop, .answer ⟨1, 2⟩ [mdpcClient, [101], [120]], .pollReady, .receive]

/-- Without the condition, a call can return the answer to a request of the call
before. -/
theorem stale_answer_returned :
    ¬ ∀ es os s, session.Run es os s →
      ∀ call t body, .returned call (some (t, body)) ∈ os →
        t.call = call ∧ ∃ msg, .transmitted t msg ∈ os := by
  intro claim
  have hexec : (session.exec session.init staleRun).isSome = true := by decide
  have run := Machine.run_of_exec (Option.some_get hexec).symm
  have hmem : MdcliOutput.returned 2 (some (⟨1, 2⟩, [[120]])) ∈
      ((session.exec session.init staleRun).get (by decide)).2 := by decide
  have hcall := (claim _ _ _ run 2 ⟨1, 2⟩ [[120]] hmem).1
  cases hcall

/-- Transmissions are numbered: each is under way at most once, and none is newer
than the call in progress. -/
structure Numbered (s : Session) : Prop where
  nodup : ((s.requests ++ s.replies).map Prod.fst).Nodup
  below : ∀ r ∈ s.requests ++ s.replies, r.1.number < s.sent
  calls : ∀ t, s.outstanding = some t → t.call ≤ s.call

/-- What leaves the network leaves the rest numbered. -/
theorem Numbered.sublist {s t : Session} (h : Numbered s)
    (sub : (t.requests ++ t.replies).Sublist (s.requests ++ s.replies))
    (sent : t.sent = s.sent)
    (calls : ∀ tag, t.outstanding = some tag → tag.call ≤ t.call) : Numbered t where
  nodup := h.nodup.sublist (sub.map Prod.fst)
  below := by
    intro r hr
    rw [sent]
    exact h.below r (sub.subset hr)
  calls := calls

/-- A new transmission gets a number that is not in use. -/
theorem Numbered.transmit {s : Session} (h : Numbered s) :
    Numbered { s with
      pc := .poll
      outstanding := some ⟨s.call, s.sent⟩
      sent := s.sent + 1
      requests := s.requests ++ [(⟨s.call, s.sent⟩, s.request)] } := by
  have hperm : (s.requests ++ [((⟨s.call, s.sent⟩ : Transmission), s.request)] ++
      s.replies).Perm ((⟨s.call, s.sent⟩, s.request) :: (s.requests ++ s.replies)) := by
    rw [List.append_assoc]
    exact List.perm_middle
  refine ⟨?_, ?_, ?_⟩
  · rw [(hperm.map Prod.fst).nodup_iff, List.map_cons, List.nodup_cons]
    refine ⟨?_, h.nodup⟩
    intro hmem
    obtain ⟨r, hr, heq⟩ := List.mem_map.mp hmem
    have hlt := h.below r hr
    rw [heq] at hlt
    exact Nat.lt_irrefl _ hlt
  · intro r hr
    rcases List.mem_cons.mp (hperm.subset hr) with rfl | hold
    · exact Nat.lt_succ_self _
    · exact Nat.lt_succ_of_lt (h.below r hold)
  · intro tag htag
    obtain rfl := Option.some.inj htag
    exact Nat.le_refl _

/-- A reply takes the number of the request it answers, which has left before it comes
in. -/
theorem Numbered.answer {s : Session} (h : Numbered s) {tag : Transmission} {request : Zmsg}
    (arrived : (tag, request) ∈ s.requests) (msg : Zmsg) :
    Numbered { s with
      requests := s.requests.filter (fun request => request.1 ≠ tag)
      replies := s.replies ++ [(tag, msg)] } := by
  have sub : (s.requests.filter (fun request => request.1 ≠ tag) ++ s.replies).Sublist
      (s.requests ++ s.replies) :=
    List.filter_sublist.append (List.Sublist.refl s.replies)
  have hnot : tag ∉ (s.requests.filter (fun request => request.1 ≠ tag) ++
      s.replies).map Prod.fst := by
    intro hmem
    rw [List.map_append, List.mem_append] at hmem
    have disjoint := h.nodup
    rw [List.map_append, List.nodup_append] at disjoint
    rcases hmem with hmem | hmem
    · obtain ⟨r, hr, rfl⟩ := List.mem_map.mp hmem
      simpa using (List.mem_filter.mp hr).2
    · exact disjoint.2.2 tag (List.mem_map_of_mem arrived) tag hmem rfl
  refine ⟨?_, ?_, h.calls⟩
  · rw [← List.append_assoc, List.map_append, List.nodup_append]
    refine ⟨h.nodup.sublist (sub.map Prod.fst), List.nodup_singleton tag, ?_⟩
    intro other hother last hlast
    rw [List.map_singleton, List.mem_singleton] at hlast
    rw [hlast]
    exact fun heq => hnot ((show other = tag from heq) ▸ hother)
  · intro r hr
    rw [← List.append_assoc, List.mem_append, List.mem_singleton] at hr
    rcases hr with hold | rfl
    · exact h.below r (sub.subset hold)
    · exact h.below (tag, request) (List.mem_append_left _ arrived)

theorem Numbered.step {s t : Session} {e : MdcliEvent} {out : List MdcliOutput}
    (h : Numbered s) (taken : session.step s e = some (t, out)) : Numbered t := by
  have same := List.Sublist.refl (s.requests ++ s.replies)
  have fewerReplies (p : Transmission × Zmsg → Bool) :
      (s.requests ++ s.replies.filter p).Sublist (s.requests ++ s.replies) :=
    (List.Sublist.refl s.requests).append List.filter_sublist
  cases sessionMoves_of_step taken with
  | call service request pc =>
      exact h.sublist same rfl fun tag htag => Nat.le_succ_of_le (h.calls tag htag)
  | transmitted pc again free => exact h.transmit
  | reconnected pc more => exact h.sublist same rfl (by simp)
  | rejected waiting msg pc busy found malformed =>
      exact h.sublist (fewerReplies _) rfl (by simp)
  | returned waiting msg body pc busy found opened =>
      exact h.sublist (fewerReplies _) rfl (by simp)
  | answer tag msg request arrived => exact h.answer arrived msg
  | loseRequest tag =>
      exact h.sublist (List.filter_sublist.append (List.Sublist.refl _)) rfl h.calls
  | loseReply tag => exact h.sublist (fewerReplies _) rfl h.calls
  | _ => exact h.sublist same rfl h.calls

theorem numbered_of_run {es : List MdcliEvent} {os : List MdcliOutput} {s : Session}
    (run : session.Run es os s) : Numbered s := by
  apply run.invariant
  · exact ⟨List.nodup_nil, by simp [session, sessionInit], by simp [session, sessionInit]⟩
  · exact fun _ _ _ _ h taken => Numbered.step h taken

/-- A numbered network delivers the reply that is under way. -/
theorem Numbered.find?_eq {s : Session} (h : Numbered s) {t : Transmission} {msg : Zmsg}
    (found : (t, msg) ∈ s.replies) :
    s.replies.find? (fun reply => reply.1 = t) = some (t, msg) := by
  have nodup : (s.replies.map Prod.fst).Nodup := by
    have all := h.nodup
    rw [List.map_append] at all
    exact (List.nodup_append.mp all).2.1
  cases hfind : s.replies.find? (fun reply => reply.1 = t) with
  | none =>
      have hnone := List.find?_eq_none.mp hfind (t, msg) found
      simp at hnone
  | some reply =>
      have hmem := List.mem_of_find?_eq_some hfind
      have htag : reply.1 = t := by simpa using List.find?_some hfind
      rw [List.inj_on_of_nodup_map nodup hmem found htag]

theorem Numbered.find?_eq_none {s : Session} (h : Numbered s) {t : Transmission}
    {request : Zmsg} (found : (t, request) ∈ s.requests) :
    s.replies.find? (fun reply => reply.1 = t) = none := by
  rw [List.find?_eq_none]
  intro reply hreply htag
  have all := h.nodup
  rw [List.map_append, List.nodup_append] at all
  exact all.2.2 t (List.mem_map_of_mem found) reply.1 (List.mem_map_of_mem hreply)
    (of_decide_eq_true htag).symm

/-- The condition leaves out nothing but the defect: when a call starts that is
not clean, the network can make it return the answer to an earlier call. -/
theorem stale_answer_possible {es : List MdcliEvent} {os : List MdcliOutput} {s : Session}
    (run : session.Run es os s) (pc : s.pc = .idle) {service : Frame} {request : Zmsg}
    (unclean : ¬ CleanStart s (.call service request)) :
    ∃ fs t outs tag body,
      session.exec s (.call service request :: fs) = some (t, outs) ∧
      .returned (s.call + 1) (some (tag, body)) ∈ outs ∧ tag.call ≠ s.call + 1 := by
  have h := numbered_of_run run
  simp only [CleanStart, not_forall] at unclean
  obtain ⟨hretries, hinterrupted, tag, htag, hlive⟩ := unclean
  have hcall : tag.call ≠ s.call + 1 := Nat.ne_of_lt (Nat.lt_succ_of_le (h.calls tag htag))
  have hagain : ¬ (s.retries = 0 ∨ s.interrupted = true) := by
    simp [hretries, hinterrupted]
  rw [Barren, not_and_or, not_forall, not_forall] at hlive
  rcases hlive with ⟨content, hcontent⟩ | ⟨msg, hmsg⟩
  · -- the request can still be answered
    have hrequest : (tag, content) ∈ s.requests := not_not.mp hcontent
    have hany : s.requests.any (fun request => request.1 = tag) = true :=
      List.any_eq_true.mpr ⟨_, hrequest, by simp⟩
    have hfind := h.find?_eq_none hrequest
    have hexec : ∃ t, session.exec s [.call service request, .loop,
        .answer tag [mdpcClient, service, []], .pollReady, .receive] =
          some (t, [.refused (s.call + 1), .returned (s.call + 1) (some (tag, [[]]))]) := by
      simp [Machine.exec, session, sessionStep, pc, startCall, onLoop, hagain, transmit,
        htag, onAnswer, hany, onReceive, hfind, onReply, openReply]
    obtain ⟨t, ht⟩ := hexec
    exact ⟨_, t, _, tag, [[]], ht, List.mem_cons_of_mem _ List.mem_cons_self, hcall⟩
  · -- the reply is under way already
    rw [Classical.not_imp] at hmsg
    obtain ⟨hreply, hopen⟩ := hmsg
    obtain ⟨body, hbody⟩ := Option.ne_none_iff_exists'.mp hopen
    have hfind := h.find?_eq hreply
    have hexec : ∃ t, session.exec s [.call service request, .loop, .pollReady, .receive] =
        some (t, [.refused (s.call + 1), .returned (s.call + 1) (some (tag, body))]) := by
      simp [Machine.exec, session, sessionStep, pc, startCall, onLoop, hagain, transmit,
        htag, onReceive, hfind, onReply, hbody]
    obtain ⟨t, ht⟩ := hexec
    exact ⟨_, t, _, tag, body, ht, List.mem_cons_of_mem _ List.mem_cons_self, hcall⟩

end ZmqTest.Mdp
