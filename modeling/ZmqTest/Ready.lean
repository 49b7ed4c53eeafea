/-
# Telling a READY from a reply

A worker sends one frame of one byte when it is ready, and otherwise the address
of a requester, a delimiter and a body. The brokers compare the first byte of
what lies behind the envelope, so an address that starts with the byte of a READY
is taken for one and its reply is lost.
-/

import ZmqTest.Cloud.Lcflow
import ZmqTest.Loadbalance.Lbbroker2

namespace ZmqTest

/-- The signal of a worker that is ready: one frame of one byte. -/
def readySignal : Zmsg := [Loadbalance2.workerReady]

/-- A READY, and nothing else, ends at the broker; what is none is forwarded. -/
structure Discriminated {Effect : Type} (content : Zmsg) (forward : Zmsg → Effect)
    (out : List Effect) : Prop where
  consumed : out = [] ↔ content = readySignal
  forwarded : content ≠ readySignal → out = [forward content]

theorem discriminated_nil_iff {Effect : Type} {content : Zmsg} {forward : Zmsg → Effect} :
    Discriminated content forward [] ↔ content = readySignal := by
  constructor
  · intro h
    exact h.consumed.mp rfl
  · intro h
    exact ⟨⟨fun _ => h, fun _ => rfl⟩, fun other => absurd h other⟩

theorem discriminated_singleton_iff {Effect : Type} {content : Zmsg}
    {forward : Zmsg → Effect} {effect : Effect} :
    Discriminated content forward [effect] ↔
      content ≠ readySignal ∧ effect = forward content := by
  constructor
  · intro h
    have other : content ≠ readySignal := fun ready => List.cons_ne_nil _ _ (h.consumed.mpr ready)
    exact ⟨other, List.singleton_injective (h.forwarded other)⟩
  · rintro ⟨other, rfl⟩
    exact ⟨⟨fun h => absurd h (List.cons_ne_nil _ _), fun h => absurd h other⟩, fun _ => rfl⟩

/-- A message whose first frame does not start like a READY is none. -/
theorem ne_readySignal {address : Frame} {rest : Zmsg} (h : address.startsWith 1 = false) :
    address :: rest ≠ readySignal := by
  intro heq
  obtain ⟨rfl, -⟩ := List.cons.inj heq
  cases h

/-- Who asked for what a worker answers. -/
inductive Requester
  | client
  | peer
  deriving DecidableEq

/-- The socket of the cloud broker behind which a requester is. -/
def Requester.toward : Requester → Zmsg → Cloud.LcflowEffect
  | .client => .toLocalfe
  | .peer => .toCloudfe

theorem Loadbalance2.onBackend_cons {s : Lbbroker2State} {revents1 : Bool} {msg rest : Zmsg}
    {worker address : Frame} (unwrapped : msg.unwrap = some (worker, address :: rest)) :
    onBackend s revents1 msg =
      ({ s with pc := afterBackend revents1, workers := s.workers ++ [worker] },
        if address.startsWith 1 then [] else [.toFrontend (address :: rest)]) := by
  simp only [onBackend, unwrapped, Zmsg.first, List.head?_cons]

theorem Cloud.onLocalbe_cons {argv : Argv} {s : LcflowState} {msg rest : Zmsg}
    {worker address : Frame} (unwrapped : msg.unwrap = some (worker, address :: rest)) :
    onLocalbe argv s msg =
      ({ s with workers := s.workers ++ [worker], capacity := s.capacity + 1 }.innerLoop,
        if address.startsWith 1 then []
        else if address ∈ argv.peers then [.toCloudfe (address :: rest)]
        else [.toLocalfe (address :: rest)]) := by
  simp only [onLocalbe, unwrapped, Zmsg.first, List.head?_cons]
  cases address.startsWith 1 with
  | true => exact routeReply_none argv _
  | false => exact routeReply_cons argv _ address rest

/-- Each broker tells a READY from a reply exactly when the address of the reply
does not start with the byte of a READY; the cloud broker sends the reply toward
its requester when, besides, only the address of a peer is the name of one. -/
theorem ready_discriminated_iff {msg rest : Zmsg} {worker address : Frame}
    (unwrapped : msg.unwrap = some (worker, address :: rest)) :
    (∀ (s : Loadbalance2.Lbbroker2State) (revents1 : Bool), s.pc = .backend revents1 →
      ∃ t out, Loadbalance2.lbbroker2.step s (.recv (some msg)) = some (t, out) ∧
        (Discriminated (address :: rest) .toFrontend out ↔
          address :: rest = readySignal ∨ address.startsWith 1 = false)) ∧
    ∀ (argv : Cloud.Argv) (s : Cloud.LcflowState) (draws : Cloud.Draws) (requester : Requester),
      s.pc = .localbe →
      ∃ t out, (Cloud.lcflow argv).step s (.recv (some msg) draws) = some (t, out) ∧
        (Discriminated (address :: rest) requester.toward out ↔
          address :: rest = readySignal ∨
            address.startsWith 1 = false ∧ (requester = .peer ↔ address ∈ argv.peers)) := by
  constructor
  · intro s revents1 pc
    have taken : Loadbalance2.lbbroker2.step s (.recv (some msg)) =
        some (Loadbalance2.onBackend s revents1 msg) := by
      simp only [Loadbalance2.lbbroker2, Loadbalance2.lbbroker2Step, pc]
    rw [Loadbalance2.onBackend_cons unwrapped] at taken
    refine ⟨_, _, taken, ?_⟩
    cases starts : address.startsWith 1 with
    | true => simp [discriminated_nil_iff]
    | false => simp [discriminated_singleton_iff, ne_readySignal starts]
  · intro argv s draws requester pc
    have taken : (Cloud.lcflow argv).step s (.recv (some msg) draws) =
        some (Cloud.onLocalbe argv s msg) := by
      simp only [Cloud.lcflow, Cloud.lcflowStep, pc]
    rw [Cloud.onLocalbe_cons unwrapped] at taken
    refine ⟨_, _, taken, ?_⟩
    cases starts : address.startsWith 1 with
    | true => simp [discriminated_nil_iff]
    | false =>
        by_cases named : address ∈ argv.peers
        · cases requester <;>
            simp [named, discriminated_singleton_iff, ne_readySignal starts, Requester.toward]
        · cases requester <;>
            simp [named, discriminated_singleton_iff, ne_readySignal starts, Requester.toward]

/-- A reply for a client whose identity is a text is forwarded by both. -/
theorem ready_discriminated_iff_text :
    (∃ t out, Loadbalance2.lbbroker2.step ⟨.backend false, []⟩
        (.recv (some [[87], [], [67], [], [79, 75]])) = some (t, out) ∧
      Discriminated [[67], [], [79, 75]] .toFrontend out) ∧
    ∃ t out, (Cloud.lcflow ⟨[65], [[66]]⟩).step ⟨.localbe, 0, []⟩
        (.recv (some [[87], [], [67], [], [79, 75]]) ⟨0, 0⟩) = some (t, out) ∧
      Discriminated [[67], [], [79, 75]] Requester.client.toward out := by
  have unwrapped : Zmsg.unwrap [[87], [], [67], [], [79, 75]] =
      some ([87], [67] :: [[], [79, 75]]) := rfl
  obtain ⟨lbbroker2, lcflow⟩ := ready_discriminated_iff unwrapped
  constructor
  · obtain ⟨t, out, taken, iff⟩ := lbbroker2 ⟨.backend false, []⟩ false rfl
    exact ⟨t, out, taken, iff.mpr (Or.inr (by decide))⟩
  · obtain ⟨t, out, taken, iff⟩ :=
      lcflow ⟨[65], [[66]]⟩ ⟨.localbe, 0, []⟩ ⟨0, 0⟩ .client rfl
    exact ⟨t, out, taken, iff.mpr (Or.inr (by decide))⟩

/-- A reply for a client whose identity starts with the byte of a READY is sent
nowhere, by either broker. -/
theorem reply_taken_for_ready :
    (¬ ∀ (s : Loadbalance2.Lbbroker2State) (revents1 : Bool) (msg rest : Zmsg)
        (worker address : Frame),
      s.pc = .backend revents1 → msg.unwrap = some (worker, address :: rest) → address ≠ [] →
      ∃ t out, Loadbalance2.lbbroker2.step s (.recv (some msg)) = some (t, out) ∧
        Discriminated (address :: rest) .toFrontend out) ∧
    ¬ ∀ (argv : Cloud.Argv) (s : Cloud.LcflowState) (msg rest : Zmsg) (draws : Cloud.Draws)
        (worker address : Frame),
      s.pc = .localbe → msg.unwrap = some (worker, address :: rest) → address ≠ [] →
      ∃ t out requester, (Cloud.lcflow argv).step s (.recv (some msg) draws) = some (t, out) ∧
        Discriminated (address :: rest) (Requester.toward requester) out := by
  constructor
  · intro claim
    obtain ⟨t, out, taken, told⟩ :=
      claim ⟨.backend false, []⟩ false [[87], [], [1, 2], [], [79, 75]] [[], [79, 75]] [87] [1, 2]
        rfl rfl (by decide)
    change some ((⟨.poll, [[87]]⟩ : Loadbalance2.Lbbroker2State), []) = some (t, out) at taken
    cases taken
    exact absurd (discriminated_nil_iff.mp told) (by decide)
  · intro claim
    obtain ⟨t, out, requester, taken, told⟩ :=
      claim ⟨[65], [[66]]⟩ ⟨.localbe, 0, []⟩ [[87], [], [1, 2], [], [79, 75]] [[], [79, 75]] ⟨0, 0⟩
        [87] [1, 2] rfl rfl (by decide)
    change some ((⟨.pollFrontends, 1, [[87]]⟩ : Cloud.LcflowState), []) = some (t, out) at taken
    cases taken
    exact absurd (discriminated_nil_iff.mp told) (by decide)

end ZmqTest
