/-
# Sockets that send and receive in turn

A request socket sends first and a reply socket receives first; from then on the two
calls take turns. A send out of turn is refused and nothing is transmitted, a receive
out of turn gives nothing. A caller that sends first, does not look at the result, and
then answers whatever it receives is in step with a request socket for ever; on a reply
socket its first message is lost, and it sends again only when it has been sent
something.
-/

import ZmqTest.Lib.Machine

namespace Lockstep

universe u

/-- Whose turn it is. -/
inductive Turn
  | send
  | recv
  deriving DecidableEq

inductive SocketType
  | req
  | rep
  deriving DecidableEq

/-- The turn of a new socket. -/
def SocketType.first : SocketType → Turn
  | .req => .send
  | .rep => .recv

/-- Where a caller stands: about to send, waiting for a message, or done. -/
inductive CallerPc (Msg : Type u)
  | sending (msg : Msg)
  | receiving
  | stopped
  deriving DecidableEq

structure CallerState (Msg : Type u) where
  pc : CallerPc Msg
  turn : Turn
  deriving DecidableEq

inductive CallerEvent (Msg : Type u)
  | send
  | /-- A receive; `none` when it is interrupted or out of turn. -/
    recv (msg : Option Msg)
  deriving DecidableEq

inductive CallerOutput (Msg : Type u)
  | transmitted (msg : Msg)
  | refused (msg : Msg)
  | delivered (msg : Msg)
  deriving DecidableEq

variable {Msg : Type u}

/-- A send whose result is not looked at. -/
def callSend (s : CallerState Msg) (msg : Msg) : CallerState Msg × List (CallerOutput Msg) :=
  match s.turn with
  | .send => ({ pc := .receiving, turn := .recv }, [.transmitted msg])
  | .recv => ({ pc := .receiving, turn := .recv }, [.refused msg])

/-- One call. A caller that receives nothing stops. -/
def callerStep (respond : Msg → Msg) (s : CallerState Msg) (e : CallerEvent Msg) :
    Option (CallerState Msg × List (CallerOutput Msg)) :=
  match s.pc, e with
  | .sending msg, .send => some (callSend s msg)
  | .receiving, .recv none => some ({ s with pc := .stopped }, [])
  | .receiving, .recv (some msg) =>
      if s.turn = .recv then
        some ({ pc := .sending (respond msg), turn := .send }, [.delivered msg])
      else none
  | _, _ => none

/-- A caller that sends `first` and then answers what it receives. -/
def caller (type : SocketType) (first : Msg) (respond : Msg → Msg) :
    Machine (CallerState Msg) (CallerEvent Msg) (CallerOutput Msg) where
  init := { pc := .sending first, turn := type.first }
  step := callerStep respond

/-- The steps of a caller. -/
inductive CallerMoves (respond : Msg → Msg) (s : CallerState Msg) :
    CallerEvent Msg → CallerState Msg → List (CallerOutput Msg) → Prop
  | transmit (msg : Msg) (pc : s.pc = .sending msg) (turn : s.turn = .send) :
      CallerMoves respond s .send { pc := .receiving, turn := .recv } [.transmitted msg]
  | refuse (msg : Msg) (pc : s.pc = .sending msg) (turn : s.turn = .recv) :
      CallerMoves respond s .send { pc := .receiving, turn := .recv } [.refused msg]
  | stop (pc : s.pc = .receiving) :
      CallerMoves respond s (.recv none) { s with pc := .stopped } []
  | deliver (msg : Msg) (pc : s.pc = .receiving) (turn : s.turn = .recv) :
      CallerMoves respond s (.recv (some msg)) { pc := .sending (respond msg), turn := .send }
        [.delivered msg]

variable {type : SocketType} {first : Msg} {respond : Msg → Msg}

theorem callerMoves_of_step {s t : CallerState Msg} {e : CallerEvent Msg}
    {out : List (CallerOutput Msg)}
    (h : (caller type first respond).step s e = some (t, out)) :
    CallerMoves respond s e t out := by
  change callerStep respond s e = some (t, out) at h
  unfold callerStep at h
  split at h
  case h_1 msg pc =>
    cases hturn : s.turn <;> simp only [callSend, hturn, Option.some.injEq, Prod.mk.injEq] at h <;>
      obtain ⟨rfl, rfl⟩ := h
    · exact .transmit msg pc hturn
    · exact .refuse msg pc hturn
  case h_2 pc =>
    cases h
    exact .stop pc
  case h_3 msg pc =>
    split at h
    case isTrue turn =>
      cases h
      exact .deliver msg pc turn
    case isFalse => cases h
  case h_4 => cases h

/-- The caller sends when it is its turn and waits when it is not. -/
def InStep (s : CallerState Msg) : Prop :=
  (∀ msg, s.pc = .sending msg → s.turn = .send) ∧ (s.pc = .receiving → s.turn = .recv)

theorem InStep.step {s t : CallerState Msg} {e : CallerEvent Msg}
    {out : List (CallerOutput Msg)} (h : InStep s)
    (taken : (caller type first respond).step s e = some (t, out)) :
    InStep t ∧ ∀ msg, .refused msg ∉ out := by
  cases callerMoves_of_step taken with
  | transmit msg pc turn => exact ⟨⟨nofun, fun _ => rfl⟩, by simp⟩
  | refuse msg pc turn =>
      have inTurn := h.1 msg pc
      rw [turn] at inTurn
      cases inTurn
  | stop pc => exact ⟨⟨nofun, nofun⟩, by simp⟩
  | deliver msg pc turn => exact ⟨⟨fun _ _ => rfl, nofun⟩, by simp⟩

/-- The caller is in step, and no send has been refused. -/
def Accepted (os : List (CallerOutput Msg)) (s : CallerState Msg) : Prop :=
  InStep s ∧ ∀ msg, .refused msg ∉ os

/-- On a request socket no send is ever refused. -/
theorem accepted_on_req {es : List (CallerEvent Msg)} {os : List (CallerOutput Msg)}
    {s : CallerState Msg} (run : (caller .req first respond).Run es os s) : Accepted os s := by
  apply run.output_invariant
  · exact ⟨⟨fun _ _ => rfl, nofun⟩, by simp⟩
  · rintro os s e t out ⟨inStep, none⟩ taken
    obtain ⟨next, last⟩ := inStep.step taken
    refine ⟨next, fun msg hmem => ?_⟩
    rcases List.mem_append.mp hmem with earlier | now
    · exact none msg earlier
    · exact last msg now

/-- On a reply socket the first send is refused. -/
theorem refused_on_rep {es : List (CallerEvent Msg)} {os : List (CallerOutput Msg)}
    {s : CallerState Msg} (run : (caller .rep first respond).Run es os s) (hne : es ≠ []) :
    .refused first ∈ os := by
  obtain ⟨e, rest, rfl⟩ := List.exists_cons_of_ne_nil hne
  obtain ⟨t, out, others, taken, -, rfl⟩ := Machine.exec_cons_eq_some.mp run.exec_eq
  apply List.mem_append_left
  cases callerMoves_of_step taken with
  | transmit msg pc turn => cases turn
  | refuse msg pc turn =>
      cases pc
      exact List.mem_singleton.mpr rfl
  | stop pc => cases pc
  | deliver msg pc turn => cases pc

/-- What a reply socket transmits answers something it has delivered. -/
structure Answering (respond : Msg → Msg) (os : List (CallerOutput Msg))
    (s : CallerState Msg) : Prop where
  answers : ∀ msg, .transmitted msg ∈ os → ∃ asked, .delivered asked ∈ os ∧ msg = respond asked
  turns : s.turn = .send → ∃ asked, .delivered asked ∈ os ∧ s.pc = .sending (respond asked)

/-- Outputs that transmit nothing keep what has been answered. -/
theorem Answering.mono {os out : List (CallerOutput Msg)} {s t : CallerState Msg}
    (h : Answering respond os s) (silent : ∀ msg, .transmitted msg ∉ out)
    (turns : t.turn = .send → ∃ asked, .delivered asked ∈ os ++ out ∧
      t.pc = .sending (respond asked)) : Answering respond (os ++ out) t := by
  refine ⟨fun msg hmem => ?_, turns⟩
  obtain ⟨asked, hasked, heq⟩ :=
    h.answers msg ((List.mem_append.mp hmem).resolve_right (silent msg))
  exact ⟨asked, List.mem_append_left _ hasked, heq⟩

theorem Answering.step {os out : List (CallerOutput Msg)} {s t : CallerState Msg}
    {e : CallerEvent Msg} (h : Answering respond os s)
    (taken : (caller type first respond).step s e = some (t, out)) :
    Answering respond (os ++ out) t := by
  cases callerMoves_of_step taken with
  | transmit msg pc turn =>
      obtain ⟨asked, hasked, hpc⟩ := h.turns turn
      refine ⟨fun sent hmem => ?_, nofun⟩
      rcases List.mem_append.mp hmem with earlier | now
      · obtain ⟨other, hother, heq⟩ := h.answers sent earlier
        exact ⟨other, List.mem_append_left _ hother, heq⟩
      · obtain rfl : sent = msg := by simpa using now
        rw [pc, CallerPc.sending.injEq] at hpc
        exact ⟨asked, List.mem_append_left _ hasked, hpc⟩
  | refuse msg pc turn => exact h.mono (by simp) nofun
  | stop pc =>
      apply h.mono (by simp)
      intro turn
      obtain ⟨asked, -, hpc⟩ := h.turns turn
      rw [pc] at hpc
      cases hpc
  | deliver msg pc turn => exact h.mono (by simp) fun _ => ⟨msg, by simp, rfl⟩

/-- Whatever a caller transmits on a reply socket answers something it has received. -/
theorem answering_of_run {es : List (CallerEvent Msg)} {os : List (CallerOutput Msg)}
    {s : CallerState Msg} (run : (caller .rep first respond).Run es os s) :
    Answering respond os s := by
  apply run.output_invariant
  · exact ⟨by simp, nofun⟩
  · exact fun _ _ _ _ _ h taken => h.step taken

end Lockstep
