/-
# How often a call transmits

The loop of a call tests its counter for being other than zero and the setter
takes any integer, so a counter that starts below zero is decremented away from
the test. A counter that starts at or above zero bounds the transmissions and
the steps of the call. The bound is reached when every poll times out, unless the
first send is refused because an earlier call left the socket waiting.
-/

import ZmqTest.Mdp.Send

namespace ZmqTest.Mdp

/-- The values of an `int`. -/
def FitsInt (n : Int) : Prop := -2147483648 ≤ n ∧ n ≤ 2147483647

/-- The steps of `mdcli_send` itself, apart from what the network, the broker and
signals do. -/
def MdcliEvent.own : MdcliEvent → Bool
  | .loop => true
  | .pollError => true
  | .pollTimeout => true
  | .pollReady => true
  | .receive => true
  | .receiveError => true
  | _ => false

/-- A poll that does not time out. -/
def MdcliEvent.timesOut : MdcliEvent → Prop
  | .pollError => False
  | .pollReady => False
  | _ => True

def MdcliOutput.isTransmitted : MdcliOutput → Bool
  | .transmitted _ _ => true
  | _ => false

/-- How often the request was transmitted. -/
def transmissions (outs : List MdcliOutput) : Nat := outs.countP MdcliOutput.isTransmitted

@[simp]
theorem transmissions_append (os out : List MdcliOutput) :
    transmissions (os ++ out) = transmissions os + transmissions out :=
  List.countP_append

@[simp]
theorem transmissions_transmitted (tag : Transmission) (msg : Zmsg) :
    transmissions [.transmitted tag msg] = 1 := rfl

@[simp]
theorem transmissions_returned (call : Nat) (answer : Option (Transmission × Zmsg)) :
    transmissions [.returned call answer] = 0 := rfl

/-- What is expected of a call, at any point of it: the retries bound its
transmissions and its steps, the counter stays in its type, the call goes on until
it ends, and when every poll has timed out each retry was used and the null pointer
is returned. -/
structure Bounded (s : Session) (fs : List MdcliEvent) (outs : List MdcliOutput)
    (t : Session) : Prop where
  transmissions : transmissions outs ≤ s.retries.toNat
  steps : fs.countP MdcliEvent.own ≤ 2 * s.retries.toNat + 1
  counter : FitsInt t.retriesLeft
  proceeds : t.pc = .idle ∨ t.pc = .aborted ∨ ∃ e, e.own = true ∧ (sessionStep t e).isSome
  exhausted : t.interrupted = false → (∀ e ∈ fs, e.timesOut) → t.pc = .idle →
    Mdp.transmissions outs = s.retries.toNat ∧ .returned (s.call + 1) none ∈ outs

section

variable {s u v t : Session} {service : Frame} {request : Zmsg} {e : MdcliEvent}
  {es fs : List MdcliEvent} {os out outs : List MdcliOutput}

/-- A counter that does not run below zero: it is not negative where the loop tests
it, unless the loop ends there, and positive where a timeout decrements it. -/
structure CountsDown (s u : Session) : Prop where
  most : u.retriesLeft ≤ s.retries
  least : u.retriesLeft = s.retries ∨ 0 ≤ u.retriesLeft
  tested : u.pc = .loop → u.interrupted = true ∨ 0 ≤ u.retriesLeft
  decremented : u.pc = .poll → 1 ≤ u.retriesLeft

theorem CountsDown.step (h : CountsDown s u)
    (taken : (mdcliSend s service request).step u e = some (v, out)) : CountsDown s v := by
  obtain ⟨during, taken⟩ := step_of_send taken
  cases sessionMoves_of_step taken with
  | setTimeout | setRetries | call => cases during
  | ended | pollError | pollReady | rejected | returned | receiveError =>
      exact ⟨h.most, h.least, by simp, by simp⟩
  | refused _ pc again | transmitted pc again =>
      simp only [not_or, Bool.not_eq_true] at again
      have hge := (h.tested pc).resolve_left (by simp [again.2])
      exact ⟨h.most, h.least, by simp, fun _ => by have := again.1; dsimp only; omega⟩
  | abandoned pc last =>
      have hge := h.decremented pc
      have hmost := h.most
      exact ⟨by dsimp only; omega, by dsimp only; omega, by simp, by simp⟩
  | reconnected pc more =>
      have hge := h.decremented pc
      have hmost := h.most
      exact ⟨by dsimp only; omega, by dsimp only; omega, fun _ => by dsimp only; omega, by simp⟩
  | interrupt => exact ⟨h.most, h.least, fun _ => Or.inl rfl, h.decremented⟩
  | answer | loseRequest | loseReply => exact ⟨h.most, h.least, h.tested, h.decremented⟩

/-- How many steps of its own a call still takes at most. -/
def Session.rank (u : Session) : Nat :=
  match u.pc with
  | .loop => if u.interrupted then 1 else 2 * u.retriesLeft.toNat + 1
  | .poll => 2 * u.retriesLeft.toNat
  | .receive => 1
  | .idle => 0
  | .aborted => 0

/-- While every poll times out, each retry stands for a transmission that has been
made or one that is still to come. -/
structure Exhausting (s : Session) (os : List MdcliOutput) (u : Session) : Prop where
  loop : u.pc = .loop → (transmissions os : Int) + u.retriesLeft = s.retries ∧
    (u.outstanding = none ∨ u.retriesLeft = 0)
  poll : u.pc = .poll → (transmissions os : Int) + u.retriesLeft = s.retries + 1
  receive : u.pc ≠ .receive ∧ u.pc ≠ .aborted
  idle : u.pc = .idle →
    (transmissions os : Int) = s.retries ∧ .returned u.call none ∈ os

theorem Exhausting.step (h : u.interrupted = false → Exhausting s os u) (out_of : e.timesOut)
    (taken : (mdcliSend s service request).step u e = some (v, out))
    (going : v.interrupted = false) : Exhausting s (os ++ out) v := by
  obtain ⟨during, taken⟩ := step_of_send taken
  cases sessionMoves_of_step taken with
  | setTimeout | setRetries | call => cases during
  | pollError | pollReady => cases out_of
  | interrupt => cases going
  | ended pc finished =>
      have hloop := ((h going).loop pc).1
      have hzero := finished.resolve_right (by simp [show u.interrupted = false from going])
      refine ⟨by simp, by simp, by simp, fun _ => ⟨?_, by simp⟩⟩
      rw [transmissions_append, transmissions_returned]
      omega
  | refused tag pc again busy =>
      simp only [not_or] at again
      rcases ((h going).loop pc).2 with free | zero
      · rw [busy] at free
        cases free
      · exact absurd zero again.1
  | transmitted pc again free =>
      have hloop := ((h going).loop pc).1
      refine ⟨by simp, fun _ => ?_, by simp, by simp⟩
      rw [transmissions_append, transmissions_transmitted]
      push_cast
      omega
  | abandoned pc last =>
      have hpoll := (h going).poll pc
      refine ⟨by simp, by simp, by simp, fun _ => ⟨?_, by simp⟩⟩
      rw [transmissions_append, transmissions_returned]
      omega
  | reconnected pc more =>
      have hpoll := (h going).poll pc
      refine ⟨fun _ => ⟨?_, Or.inl rfl⟩, by simp, by simp, by simp⟩
      rw [List.append_nil]
      dsimp only
      omega
  | rejected _ _ pc | returned _ _ _ pc | receiveError pc =>
      exact absurd pc (h going).receive.1
  | answer | loseRequest | loseReply =>
      rw [List.append_nil]
      exact ⟨(h going).loop, (h going).poll, (h going).receive, (h going).idle⟩

end

end ZmqTest.Mdp
