/-
# From client to worker and back, frame by frame

The broker with what is on its way to it keeps the contract of a conduit. For each of
the two ways there is a list of whole messages; the frames already sent of the first one
and the frames that wait are their stream. The poll and what it has remembered never lead
the broker to a socket on which nothing waits. So the clients and workers of `rrb` behave
as if their messages were passed on whole, and all of them come to an end.
-/

import ZmqTest.Rrb.System

namespace ZmqTest.Rrb

open Framing Hello

/-- The sockets on which something has to wait: the one that is served, and the backend
while the poll's word about it is remembered. -/
def BrokerPc.Expects (pc : BrokerPc) (place : Side) : Prop :=
  pc.serves = some place ∨ pc.next.serves = some place

/-- The messages of each way that have arrived and have not been sent to their end. -/
structure Queued (s : BrokerEnds) (msgs : Side → List Zmsg) : Prop where
  flown : ∀ packet ∈ s.flight, packet.2 ≠ []
  whole : ∀ place, ∀ msg ∈ msgs place, msg ≠ []
  kept : ∀ place,
    (s.opened place.other).map (·, true) ++ s.broker.waiting place = stream (msgs place)
  rest : ∀ place, s.broker.pc.serves ≠ some place → s.opened place.other = []
  gate : ∀ place, s.broker.pc.Expects place → s.broker.waiting place ≠ []

/-- All messages the broker holds, with their ways. -/
def contents (flight : List Packet) (msgs : Side → List Zmsg) : List Packet :=
  flight ++ ((msgs .frontend).map (Leg.request, ·) ++ (msgs .backend).map (Leg.reply, ·))

/-- The broker holds what is on its way to it, and what is queued. -/
def Holds (s : BrokerEnds) (packets : List Packet) : Prop :=
  ∃ msgs, Queued s msgs ∧ packets.Perm (contents s.flight msgs)

@[simp]
theorem side_ne (place : Side) : place.other ≠ place := by cases place <;> simp [Side.other]

theorem other_inj {place source : Side} : place.other = source.other ↔ place = source := by
  cases place <;> cases source <;> simp [Side.other]

theorem contents_arrive {flight left : List Packet} {way : Leg} {msg : Zmsg}
    (msgs : Side → List Zmsg) (picked : flight.Perm ((way, msg) :: left)) :
    (contents flight msgs).Perm
      (contents left (Function.update msgs (side way) (msgs (side way) ++ [msg]))) := by
  rw [List.perm_iff_count]
  intro packet
  have hcount := picked.count_eq packet
  rw [List.count_cons] at hcount
  cases way with
  | request => simp [contents, side, List.count_append, List.count_cons, hcount]; omega
  | reply => simp [contents, side, List.count_append, List.count_cons, hcount]; omega

theorem contents_last {flight : List Packet} {msgs : Side → List Zmsg} {source : Side}
    {msg : Zmsg} {later : List Zmsg} (first : msgs source = msg :: later) :
    (contents flight msgs).Perm
      ((leg source.other, msg) :: contents flight (Function.update msgs source later)) := by
  rw [List.perm_iff_count]
  intro packet
  cases source with
  | frontend => simp [contents, leg, Side.other, first, List.count_append, List.count_cons]; omega
  | backend => simp [contents, leg, Side.other, first, List.count_append, List.count_cons]; omega

variable {s : BrokerEnds} {msgs : Side → List Zmsg}

theorem Queued.arrive (h : Queued s msgs) {index : Nat} {way : Leg} {msg : Zmsg} (hne : msg ≠ [])
    (picked : s.flight.Perm ((way, msg) :: s.flight.eraseIdx index)) :
    Queued
      { s with
        flight := s.flight.eraseIdx index
        broker := { s.broker with
          waiting := Function.update s.broker.waiting (side way)
            (s.broker.waiting (side way) ++ flagged msg) } }
      (Function.update msgs (side way) (msgs (side way) ++ [msg])) where
  flown := by
    intro packet hmem
    exact h.flown packet (picked.mem_iff.mpr (List.mem_cons_of_mem _ hmem))
  whole := by
    intro place m hm
    by_cases heq : place = side way
    · subst place
      rw [Function.update_self] at hm
      rcases List.mem_append.mp hm with earlier | last
      · exact h.whole _ m earlier
      · rw [List.mem_singleton.mp last]
        exact hne
    · rw [Function.update_of_ne heq] at hm
      exact h.whole place m hm
  kept := by
    intro place
    dsimp only
    by_cases heq : place = side way
    · subst place
      rw [Function.update_self, Function.update_self, stream_append, stream_singleton, ← h.kept,
        List.append_assoc]
    · rw [Function.update_of_ne heq, Function.update_of_ne heq]
      exact h.kept place
  rest := h.rest
  gate := by
    intro place expects
    have earlier := h.gate place expects
    dsimp only
    by_cases heq : place = side way
    · subst place
      rw [Function.update_self]
      simp [earlier]
    · rwa [Function.update_of_ne heq]

/-- The poll sends the broker to sockets on which something waits. -/
theorem Readable.waits {revents0 revents1 : Bool} (readable : Readable s.broker revents0 revents1)
    {place : Side} (expects : (afterPoll revents0 revents1).Expects place) :
    s.broker.waiting place ≠ [] := by
  obtain ⟨some_event, frontend, backend⟩ := readable
  cases revents0 with
  | true =>
      cases place with
      | frontend => exact frontend rfl
      | backend =>
          cases revents1 with
          | true => exact backend rfl
          | false =>
              simp [BrokerPc.Expects, afterPoll, BrokerPc.serves, BrokerPc.next,
                afterFrontend] at expects
  | false =>
      have ready : revents1 = true := by simpa using some_event
      subst ready
      cases place with
      | frontend =>
          simp [BrokerPc.Expects, afterPoll, BrokerPc.serves, BrokerPc.next,
            afterFrontend] at expects
      | backend => exact backend rfl

theorem Queued.poll (h : Queued s msgs) {revents0 revents1 : Bool}
    (readable : Readable s.broker revents0 revents1) (pc : s.broker.pc = .poll) :
    Queued { s with broker := { s.broker with pc := afterPoll revents0 revents1 } } msgs where
  flown := h.flown
  whole := h.whole
  kept := h.kept
  rest := fun place _ => h.rest place (by rw [pc]; simp [BrokerPc.serves])
  gate := fun _ expects => readable.waits expects

/-- While a message is open, the rest of it waits. -/
theorem ne_nil_of_opened {opened : Zmsg} {rest : List Part} {later : List Zmsg}
    (hne : opened ≠ []) (whole : ∀ msg ∈ later, msg ≠ [])
    (kept : opened.map (·, true) ++ rest = stream later) : rest ≠ [] := by
  rintro rfl
  rw [List.append_nil] at kept
  have open_parts := assemble_map_true opened
  rw [kept, assemble_stream whole, Assembly.mk.injEq] at open_parts
  exact hne open_parts.2.symm

/-- The last frame completes the first message. -/
theorem exists_later {opened : Zmsg} {frame : Frame} {rest : List Part} {queue : List Zmsg}
    (whole : ∀ msg ∈ queue, msg ≠ [])
    (kept : opened.map (·, true) ++ (frame, false) :: rest = stream queue) :
    ∃ later, queue = (opened ++ [frame]) :: later ∧ rest = stream later := by
  have split : (opened.map (·, true) ++ [(frame, false)]) ++ rest = stream queue := by
    rw [← kept, List.append_assoc]
    rfl
  obtain ⟨later, hqueue, hrest⟩ := complete_of_append_eq whole split
  rw [assemble_concat, assemble_map_true] at hqueue hrest
  exact ⟨later, hqueue, hrest⟩

theorem Queued.more (h : Queued s msgs) {source : Side} {frame : Frame} {rest : List Part}
    (serves : s.broker.pc.serves = some source)
    (waits : s.broker.waiting source = (frame, true) :: rest) :
    Queued
      { s with
        broker := { s.broker with waiting := Function.update s.broker.waiting source rest }
        opened := Function.update s.opened source.other (s.opened source.other ++ [frame]) }
      msgs := by
  have here : (s.opened source.other ++ [frame]).map (·, true) ++ rest =
      stream (msgs source) := by
    rw [← h.kept source, waits, List.map_append, List.append_assoc]
    rfl
  refine ⟨h.flown, h.whole, ?_, ?_, ?_⟩
  · intro place
    dsimp only
    by_cases heq : place = source
    · subst place
      rw [Function.update_self, Function.update_self]
      exact here
    · rw [Function.update_of_ne heq, Function.update_of_ne (other_inj.not.mpr heq)]
      exact h.kept place
  · intro place idle
    have hne : place ≠ source := by
      rintro rfl
      exact idle serves
    dsimp only
    rw [Function.update_of_ne (other_inj.not.mpr hne)]
    exact h.rest place idle
  · intro place expects
    dsimp only
    by_cases heq : place = source
    · subst place
      rw [Function.update_self]
      exact ne_nil_of_opened (by simp) (h.whole source) here
    · rw [Function.update_of_ne heq]
      exact h.gate place expects

/-- What is expected after a message was expected before it. -/
theorem BrokerPc.Expects.before {pc : BrokerPc} {source place : Side}
    (serves : pc.serves = some source) (expects : pc.next.Expects place) :
    pc.Expects place ∧ place ≠ source := by
  cases pc with
  | poll => cases serves
  | backend => simp [Expects, next, BrokerPc.serves] at expects
  | frontend revents1 =>
      obtain rfl : Side.frontend = source := Option.some.inj serves
      cases revents1 <;> cases place <;>
        simp [Expects, next, BrokerPc.serves, afterFrontend] at expects ⊢

theorem Queued.last (h : Queued s msgs) {source : Side} {frame : Frame} {rest : List Part}
    (serves : s.broker.pc.serves = some source)
    (waits : s.broker.waiting source = (frame, false) :: rest) :
    ∃ later, msgs source = (s.opened source.other ++ [frame]) :: later ∧
      Queued
        { s with
          broker :=
            { pc := s.broker.pc.next
              waiting := Function.update s.broker.waiting source rest }
          opened := Function.update s.opened source.other [] }
        (Function.update msgs source later) := by
  have here := h.kept source
  rw [waits] at here
  obtain ⟨later, first, hrest⟩ := exists_later (h.whole source) here
  refine ⟨later, first, h.flown, ?_, ?_, ?_, ?_⟩
  · intro place msg hmem
    by_cases heq : place = source
    · subst place
      rw [Function.update_self] at hmem
      exact h.whole source msg (first ▸ List.mem_cons_of_mem _ hmem)
    · rw [Function.update_of_ne heq] at hmem
      exact h.whole place msg hmem
  · intro place
    dsimp only
    by_cases heq : place = source
    · subst place
      rw [Function.update_self, Function.update_self, Function.update_self]
      exact hrest
    · rw [Function.update_of_ne heq, Function.update_of_ne heq,
        Function.update_of_ne (other_inj.not.mpr heq)]
      exact h.kept place
  · intro place _
    dsimp only
    by_cases heq : place = source
    · subst place
      rw [Function.update_self]
    · rw [Function.update_of_ne (other_inj.not.mpr heq)]
      apply h.rest
      rw [serves]
      exact fun same => heq (Option.some.inj same).symm
  · intro place expects
    obtain ⟨before, hne⟩ := BrokerPc.Expects.before serves expects
    dsimp only
    rw [Function.update_of_ne hne]
    exact h.gate place before

/-- The weight of a message on its way: it arrives, and each frame is relayed. -/
def weight (packet : Packet) : Nat := 2 * packet.2.length + 1

/-- What is still to be done inside: arrivals, frames and a poll. -/
def endsRank (s : BrokerEnds) : Nat :=
  (s.flight.map weight).sum +
    2 * ((s.broker.waiting .frontend).length + (s.broker.waiting .backend).length) +
    if s.broker.pc = .poll then 1 else 0

theorem length_flagged (msg : Zmsg) : (flagged msg).length = msg.length := by
  rcases List.eq_nil_or_concat' msg with rfl | ⟨parts, last, rfl⟩
  · rfl
  · simp [flagged_concat]

theorem holds_of_step {t : BrokerEnds} {move : BrokerMove} {packets out : List Packet}
    (holds : Holds s packets) (taken : endsStep s move = some (t, out)) :
    (∃ left, Holds t left ∧ packets.Perm (out ++ left)) ∧ endsRank t < endsRank s := by
  obtain ⟨msgs, queued, same⟩ := holds
  cases endsMoves_of_step taken with
  | arrive index way msg hne picked =>
      refine ⟨⟨_, ⟨_, queued.arrive hne picked, List.Perm.refl _⟩, ?_⟩, ?_⟩
      · exact same.trans (contents_arrive msgs picked)
      · have lighter := (picked.map weight).sum_nat
        have hlength := length_flagged msg
        rw [List.map_cons, List.sum_cons, weight] at lighter
        cases way <;> simp [endsRank, side, lighter, hlength]
        all_goals omega
  | poll revents0 revents1 readable pc =>
      refine ⟨⟨_, ⟨_, queued.poll readable pc, List.Perm.refl _⟩, same⟩, ?_⟩
      have away : afterPoll revents0 revents1 ≠ .poll := by
        cases revents0 <;> cases revents1 <;>
          simp [afterPoll, afterFrontend, Readable] at readable ⊢
      simp [endsRank, pc, away]
  | more source frame rest serves waits =>
      refine ⟨⟨_, ⟨_, queued.more serves waits, List.Perm.refl _⟩, same⟩, ?_⟩
      cases source <;> simp [endsRank, waits]
  | last source frame rest serves waits =>
      obtain ⟨later, first, next⟩ := queued.last serves waits
      refine ⟨⟨_, ⟨_, next, List.Perm.refl _⟩, same.trans (contents_last first)⟩, ?_⟩
      have serving : s.broker.pc ≠ .poll := by
        intro pc
        rw [pc] at serves
        cases serves
      cases source <;> simp [endsRank, waits, serving] <;> split <;> omega

/-- As long as a message is inside, it arrives, or is polled for, or is relayed. -/
theorem exists_step_of_holds {packets : List Packet} (holds : Holds s packets)
    (some_packet : packets ≠ []) : ∃ move t out, endsStep s move = some (t, out) := by
  obtain ⟨msgs, queued, same⟩ := holds
  cases hflight : s.flight with
  | cons packet flight =>
      obtain ⟨way, msg⟩ := packet
      have hne : msg ≠ [] := queued.flown (way, msg) (by simp [hflight])
      refine ⟨.arrive 0, ?_⟩
      simp only [endsStep, hflight, List.getElem?_cons_zero, brokerStep, hne, if_false]
      exact ⟨_, _, rfl⟩
  | nil =>
      cases hserves : s.broker.pc.serves with
      | some source =>
          have waits := queued.gate source (Or.inl hserves)
          obtain ⟨⟨frame, more⟩, rest, waits⟩ := List.exists_cons_of_ne_nil waits
          refine ⟨.pass, ?_⟩
          simp only [endsStep, brokerStep_pass hserves, onPass, waits]
          exact ⟨_, _, rfl⟩
      | none =>
          have pc : s.broker.pc = .poll := by
            cases hpc : s.broker.pc with
            | poll => rfl
            | frontend revents1 => simp [hpc, BrokerPc.serves] at hserves
            | backend => simp [hpc, BrokerPc.serves] at hserves
          have waits : ∃ place, s.broker.waiting place ≠ [] := by
            by_contra! none
            apply some_packet
            have empty : ∀ place, msgs place = [] := by
              intro place
              have kept := queued.kept place
              rw [none place, queued.rest place (by simp [hserves]), List.map_nil] at kept
              have complete := assemble_stream (queued.whole place)
              rw [← kept] at complete
              exact (congrArg Assembly.complete complete).symm
            have hcontents : contents s.flight msgs = [] := by simp [contents, hflight, empty]
            rw [hcontents] at same
            exact same.eq_nil
          obtain ⟨place, waits⟩ := waits
          refine ⟨.poll (place = .frontend) (place = .backend), ?_⟩
          have readable : Readable s.broker (place = .frontend) (place = .backend) := by
            cases place <;> simp [Readable, waits]
          simp only [endsStep, readable, if_true, brokerStep, pc]
          exact ⟨_, _, rfl⟩

/-- The broker as a conduit. -/
def ends : Conduit BrokerEnds BrokerMove Packet where
  init := endsInit
  accept := fun s packet => { s with flight := packet :: s.flight }
  step := endsStep
  Admits := fun packet => packet.2 ≠ []
  Holds := Holds
  rank := endsRank
  cost := weight
  holds_init := by
    refine ⟨fun _ => [], ⟨by simp [endsInit], by simp, fun _ => rfl, fun _ _ => rfl, ?_⟩, ?_⟩
    · simp [endsInit, brokerInit, BrokerPc.Expects, BrokerPc.serves, BrokerPc.next]
    · exact List.Perm.refl _
  holds_accept := by
    rintro s packets packet ⟨msgs, queued, same⟩ admits
    refine ⟨msgs, ⟨?_, queued.whole, queued.kept, queued.rest, queued.gate⟩, same.cons packet⟩
    intro other hmem
    rcases List.mem_cons.mp hmem with rfl | earlier
    · exact admits
    · exact queued.flown other earlier
  rank_accept := fun s packet => by simp [endsRank]; omega
  holds_step := holds_of_step
  progress := exists_step_of_holds

/-! ## The system -/

variable {Worker : Type} [DecidableEq Worker]

/-- `rrb/broker.c` with its clients and its workers. -/
def system (Worker : Type) [DecidableEq Worker] (clients : Clients) :
    Machine (SystemState BrokerEnds Worker) (SystemEvent BrokerMove Worker)
      (SystemOutput Worker) :=
  Hello.system Worker programs clients ends

/-- In every run of the clients, the broker and the workers, however the frames that the
broker relays are interleaved with what the others do, no call is out of turn, what is
received is what the other end sends, and the requests of a client are sent, taken by one
worker, replied to by it and answered, one after the other, ten times at most. -/
theorem relayed_one_by_one {clients : Clients} {es : List (SystemEvent BrokerMove Worker)}
    {os : List (SystemOutput Worker)} {s : SystemState BrokerEnds Worker}
    (run : (system Worker clients).Run es os s) :
    (∀ o ∈ os, Regular programs clients o) ∧ ∀ client, Converses programs os s client :=
  converses_of_run (fun _ _ _ => List.cons_ne_nil _ _) (fun _ _ _ => Nat.le_refl 7) run

/-- One client and one worker; a request goes through the broker and comes back. -/
def oneClient : Clients where
  identities := {[65]}
  nonempty := by decide

def roundTrip : List (SystemEvent BrokerMove Unit) :=
  [.clientSend [65], .carry (.arrive 0), .carry (.poll true false), .carry .pass, .carry .pass,
    .carry .pass, .workerRecv () (some 0), .workerSend (), .carry (.arrive 0),
    .carry (.poll false true), .carry .pass, .carry .pass, .carry .pass,
    .clientRecv [65] (some 0)]

theorem relayed_one_by_one_roundTrip : ∃ os s, (system Unit oneClient).Run roundTrip os s ∧
    trail [65] os = [.asked, .taken (), .served (), .answered] ∧
    (∀ o ∈ os, Regular programs oneClient o) ∧
    ∀ client, Converses programs os s client := by
  have hexec : ((system Unit oneClient).exec (system Unit oneClient).init roundTrip).map
      (fun r => trail [65] r.2) = some [.asked, .taken (), .served (), .answered] := by
    decide +kernel
  obtain ⟨os, s, run, hsee⟩ := Machine.run_of_map_exec hexec
  obtain ⟨regular, converses⟩ := relayed_one_by_one run
  exact ⟨os, s, run, hsee, regular, converses⟩

/-- With one worker or more, the clients, the broker and the workers come to an end after
320 steps for each client at most, and one more for the last poll; then every client has
been answered ten times. Nothing is left to wait for before that. -/
theorem relays_to_the_end [Nonempty Worker] (clients : Clients) :
    (system Worker clients).Finishes (320 * clients.identities.card + 1)
      (Done programs clients) := by
  have finishes : (system Worker clients).Finishes
      ((7 + 1) * (4 * 10 * clients.identities.card) + 1) (Done programs clients) :=
    finishes_of_contract (fun _ _ _ => List.cons_ne_nil _ _) fun _ _ _ => Nat.le_refl 7
  have bound : (7 + 1) * (4 * 10 * clients.identities.card) + 1 =
      320 * clients.identities.card + 1 := by omega
  rwa [bound] at finishes

theorem relays_to_the_end_one :
    (system Unit oneClient).Finishes 321 (Done programs oneClient) :=
  relays_to_the_end oneClient

end ZmqTest.Rrb
