/-
# What the broker relays

What has been sent on a socket is what has been received on the other one, frame by
frame with the flags, and what has been received is a beginning of what has arrived.
Reading both streams by their flags gives the messages: those that are complete are
the first that have arrived, and a message is open only while it is being relayed.
-/

import ZmqTest.Rrb.Broker

namespace ZmqTest.Rrb

open Framing

/-- The messages that have arrived at a socket. -/
def arrivals (side : Side) (es : List BrokerEvent) : List Zmsg :=
  es.filterMap fun
    | .arrive place msg => if place = side then some msg else none
    | _ => none

/-- The frames received on a socket. -/
def receivedParts (side : Side) (os : List BrokerOutput) : List Part :=
  os.filterMap fun
    | .received place part => if place = side then some part else none
    | _ => none

/-- The frames sent on a socket. -/
def sentParts (side : Side) (os : List BrokerOutput) : List Part :=
  os.filterMap fun
    | .sent place part => if place = side then some part else none
    | _ => none

theorem arrivals_append (side : Side) (es fs : List BrokerEvent) :
    arrivals side (es ++ fs) = arrivals side es ++ arrivals side fs :=
  List.filterMap_append

theorem receivedParts_append (side : Side) (os out : List BrokerOutput) :
    receivedParts side (os ++ out) = receivedParts side os ++ receivedParts side out :=
  List.filterMap_append

theorem sentParts_append (side : Side) (os out : List BrokerOutput) :
    sentParts side (os ++ out) = sentParts side os ++ sentParts side out :=
  List.filterMap_append

/-- What holds of the frames that go from a socket to the other one. -/
structure Relays (side : Side) (es : List BrokerEvent) (os : List BrokerOutput)
    (s : BrokerState) : Prop where
  same : sentParts side.other os = receivedParts side os
  kept : receivedParts side os ++ s.waiting side = stream (arrivals side es)
  whole : ∀ msg ∈ arrivals side es, msg ≠ []
  closed : s.pc.serves ≠ some side → (assemble (receivedParts side os)).opened = []

/-- A message arrives: it waits behind the others of its socket. -/
theorem Relays.arrive {side : Side} {es : List BrokerEvent} {os : List BrokerOutput}
    {s : BrokerState} (h : Relays side es os s) (place : Side) {msg : Zmsg} (hne : msg ≠ []) :
    Relays side (es ++ [.arrive place msg]) os
      { s with
        waiting := Function.update s.waiting place (s.waiting place ++ flagged msg) } := by
  by_cases heq : place = side
  · subst place
    have harrivals : arrivals side (es ++ [.arrive side msg]) = arrivals side es ++ [msg] := by
      rw [arrivals_append]
      simp [arrivals]
    refine ⟨h.same, ?_, ?_, h.closed⟩
    · dsimp only
      rw [harrivals, stream_append, stream_singleton, ← h.kept, Function.update_self,
        List.append_assoc]
    · intro m hm
      rw [harrivals] at hm
      rcases List.mem_append.mp hm with earlier | last
      · exact h.whole m earlier
      · rw [List.mem_singleton.mp last]
        exact hne
  · have harrivals : arrivals side (es ++ [.arrive place msg]) = arrivals side es := by
      rw [arrivals_append]
      simp [arrivals, heq]
    refine ⟨h.same, ?_, by rw [harrivals]; exact h.whole, h.closed⟩
    dsimp only
    rw [harrivals, Function.update_of_ne (Ne.symm heq)]
    exact h.kept

/-- A pass relays the next frame of the socket that is served. -/
theorem Relays.pass {side source : Side} {es : List BrokerEvent} {os : List BrokerOutput}
    {s : BrokerState} (h : Relays side es os s) {frame : Frame} {more : Bool}
    {rest : List Part} (next : BrokerPc) (serves : s.pc.serves = some source)
    (waits : s.waiting source = (frame, more) :: rest) :
    Relays side (es ++ [.pass])
      (os ++ [.received source (frame, more), .sent source.other (frame, more)])
      { pc := if more then s.pc else next
        waiting := Function.update s.waiting source rest } := by
  have harrivals : arrivals side (es ++ [.pass]) = arrivals side es := by
    rw [arrivals_append]
    exact List.append_nil _
  have hwhole : ∀ msg ∈ arrivals side (es ++ [.pass]), msg ≠ [] := by
    rw [harrivals]
    exact h.whole
  by_cases heq : source = side
  · subst source
    have hsent : sentParts side.other
        [.received side (frame, more), .sent side.other (frame, more)] = [(frame, more)] := by
      simp [sentParts]
    have hreceived : receivedParts side
        [.received side (frame, more), .sent side.other (frame, more)] = [(frame, more)] := by
      simp [receivedParts]
    refine ⟨?_, ?_, hwhole, ?_⟩
    · rw [sentParts_append, receivedParts_append, hsent, hreceived, h.same]
    · dsimp only
      rw [receivedParts_append, hreceived, harrivals, ← h.kept, waits, Function.update_self,
        List.append_assoc]
      rfl
    · intro idle
      rw [receivedParts_append, hreceived, assemble_concat]
      cases more with
      | true => exact absurd serves idle
      | false => rfl
  · have hother : source.other ≠ side.other := by
      cases source <;> cases side <;> simp_all [Side.other]
    have hsent : sentParts side.other
        [.received source (frame, more), .sent source.other (frame, more)] = [] := by
      simp [sentParts, hother]
    have hreceived : receivedParts side
        [.received source (frame, more), .sent source.other (frame, more)] = [] := by
      simp [receivedParts, heq]
    refine ⟨?_, ?_, hwhole, ?_⟩
    · rw [sentParts_append, receivedParts_append, hsent, hreceived, h.same]
    · dsimp only
      rw [receivedParts_append, hreceived, harrivals, List.append_nil,
        Function.update_of_ne (Ne.symm heq)]
      exact h.kept
    · intro _
      rw [receivedParts_append, hreceived, List.append_nil]
      apply h.closed
      rw [serves]
      exact fun same => heq (Option.some.inj same)

theorem relays_of_run {es : List BrokerEvent} {os : List BrokerOutput} {s : BrokerState}
    (run : broker.Run es os s) (side : Side) : Relays side es os s := by
  induction run with
  | start => exact ⟨rfl, rfl, by simp [arrivals], fun _ => rfl⟩
  | extend prior taken ih =>
      cases brokerMoves_of_step taken with
      | arrive place msg hne =>
          rw [List.append_nil]
          exact ih.arrive place hne
      | poll revents0 revents1 pc =>
          have harrivals : ∀ es, arrivals side (es ++ [.poll revents0 revents1]) =
              arrivals side es := fun es => by simp [arrivals]
          have closed := ih.closed (by rw [pc]; exact nofun)
          rw [List.append_nil]
          refine ⟨ih.same, ?_, ?_, fun _ => closed⟩
          · rw [harrivals]
            exact ih.kept
          · rw [harrivals]
            exact ih.whole
      | pass source frame more rest next serves waits => exact ih.pass next serves waits

/-- The broker relays faithfully. What is sent on a socket is what is received on the
other one, frame by frame with the flags, and what has been received and what still
waits are the messages that have arrived. Read by their flags, the frames sent are the
first of these messages, whole and in order, and a proper beginning of the next one;
nothing of it has been sent unless it is being relayed; and when nothing waits, all
messages have been sent. -/
theorem relays_faithfully {es : List BrokerEvent} {os : List BrokerOutput} {s : BrokerState}
    (run : broker.Run es os s) (side : Side) :
    sentParts side.other os = receivedParts side os ∧
    receivedParts side os ++ s.waiting side = stream (arrivals side es) ∧
    (∃ later, arrivals side es = (assemble (sentParts side.other os)).complete ++ later ∧
      (assemble (sentParts side.other os)).opened.map (·, true) ++ s.waiting side =
        stream later ∧
      ∀ msg rest, later = msg :: rest →
        ∃ more, more ≠ [] ∧ msg = (assemble (sentParts side.other os)).opened ++ more) ∧
    (s.pc.serves ≠ some side → (assemble (sentParts side.other os)).opened = []) ∧
    (s.waiting side = [] →
      assemble (sentParts side.other os) = { complete := arrivals side es, opened := [] }) := by
  have relays := relays_of_run run side
  obtain ⟨later, hcomplete, hrest⟩ := complete_of_append_eq relays.whole relays.kept
  rw [relays.same]
  refine ⟨rfl, relays.kept, ⟨later, hcomplete, hrest, ?_⟩, relays.closed, ?_⟩
  · rintro msg rest rfl
    have hmem : msg ∈ arrivals side es := by
      rw [hcomplete]
      exact List.mem_append_right _ List.mem_cons_self
    exact exists_of_opened (relays.whole msg hmem) hrest
  · intro drained
    have hkept := relays.kept
    rw [drained, List.append_nil] at hkept
    rw [hkept, assemble_stream relays.whole]

/-- A request and a reply arrive, each of two frames and one of them empty; the poll
finds both, and the second message of the frontend arrives while the first is
relayed. -/
def crossingRun : List BrokerEvent :=
  [.arrive .frontend [[67], []], .arrive .backend [[], [72]], .poll true true, .pass,
    .arrive .frontend [[68]], .pass, .pass, .pass, .poll true false, .pass]

theorem relays_faithfully_crossing :
    ∃ os s, broker.Run crossingRun os s ∧ s.pc = .poll ∧
      assemble (sentParts .backend os) = { complete := [[[67], []], [[68]]], opened := [] } ∧
      assemble (sentParts .frontend os) = { complete := [[[], [72]]], opened := [] } := by
  have hexec : (broker.exec broker.init crossingRun).map
      (fun r => (r.1.pc, r.1.waiting .frontend, r.1.waiting .backend)) =
      some (.poll, [], []) := by decide
  obtain ⟨os, s, run, hsee⟩ := Machine.run_of_map_exec hexec
  simp only [Prod.mk.injEq] at hsee
  obtain ⟨hpc, hfront, hback⟩ := hsee
  obtain ⟨-, -, -, -, front⟩ := relays_faithfully run .frontend
  obtain ⟨-, -, -, -, back⟩ := relays_faithfully run .backend
  exact ⟨os, s, run, hpc, front hfront, back hback⟩

end ZmqTest.Rrb
