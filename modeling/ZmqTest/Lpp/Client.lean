/-
# The Lazy Pirate client

The client of `lpp/client.c` prints the next sequence number into a buffer of ten
bytes, sends it, and polls for a reply that reads as that number. A timeout costs
one of the retries and replaces the socket before the same text is sent again; an
accepted reply restores the retries. What arrives, and when, is up to the network:
any text can be received whenever the client receives.

The logs of the client are those of a sender that stops and waits: one request is
open at a time, it is transmitted on a new socket after each timeout, and the next
sequence number begins when a reply has been accepted.
-/

import ZmqTest.Lib.Decimal
import ZmqTest.Lib.Machine
import ZmqTest.Lib.Multipart
import ZmqTest.Lib.StopAndWait

namespace ZmqTest.Lpp

open StopAndWait

/-- `REQUEST_RETRIES`. -/
def requestRetries : Int := 3

/-- The bytes of the buffer the sequence number is printed into. -/
def requestSize : Nat := 10

/-- Where `main` stands: the test of the outer loop, the poll, the receive. -/
inductive ClientPc
  | loop
  | poll
  | recv
  | stopped
  | /-- The printed number and its NUL do not fit the buffer. -/
    overrun
  deriving DecidableEq

/-- The locals of `main`, the flag `zctx_interrupted`, and the socket: which one it
is, and whether it waits for a reply. -/
structure ClientState where
  pc : ClientPc
  sequence : Nat
  retriesLeft : Int
  request : Frame
  interrupted : Bool
  socket : Nat
  outstanding : Bool
  deriving DecidableEq

inductive ClientEvent
  | /-- The test of the outer loop and, when it passes, the send. -/
    loop
  | pollError
  | pollTimeout
  | pollReady
  | /-- `zstr_recv`; `none` is the null pointer. -/
    recv (reply : Option Frame)
  | /-- A signal sets `zctx_interrupted`. -/
    interrupt
  deriving DecidableEq

/-- What is sent and what becomes of it, in the words of the log. -/
abbrev ClientOutput := Entry Frame Frame

/-- `zstr_send`. A request socket refuses it while a reply is outstanding. -/
def zstrSend (s : ClientState) : ClientState × List ClientOutput :=
  if s.outstanding then (s, [.refused s.request])
  else ({ s with outstanding := true }, [.transmitted s.socket s.request])

/-- One round of the outer loop up to the poll. -/
def onLoop (s : ClientState) : ClientState × List ClientOutput :=
  if s.retriesLeft = 0 ∨ s.interrupted = true then ({ s with pc := .stopped }, [])
  else
    let sequence := s.sequence + 1
    let request := decimal sequence
    if request.length + 1 ≤ requestSize then
      zstrSend { s with pc := .poll, sequence := sequence, request := request }
    else ({ s with pc := .overrun, sequence := sequence }, [])

/-- No reply in time: the client gives up, or tries again on a new socket. -/
def onTimeout (s : ClientState) : ClientState × List ClientOutput :=
  let s := { s with retriesLeft := s.retriesLeft - 1 }
  if s.retriesLeft = 0 then ({ s with pc := .loop }, [.expired s.request])
  else
    let again := zstrSend { s with socket := s.socket + 1, outstanding := false }
    (again.1, .expired s.request :: again.2)

/-- A reply is accepted when it reads as the sequence number. -/
def onReply (s : ClientState) (reply : Frame) : ClientState × List ClientOutput :=
  let s := { s with outstanding := false }
  if atoi reply = s.sequence then
    ({ s with pc := .loop, retriesLeft := requestRetries }, [.accepted reply])
  else ({ s with pc := .poll }, [.rejected reply])

/-- One step of `main`. -/
def clientStep (s : ClientState) (e : ClientEvent) :
    Option (ClientState × List ClientOutput) :=
  match s.pc, e with
  | .loop, .loop => some (onLoop s)
  | .poll, .pollError => some ({ s with pc := .loop }, [])
  | .poll, .pollTimeout => some (onTimeout s)
  | .poll, .pollReady => some ({ s with pc := .recv }, [])
  | .recv, .recv none => some ({ s with pc := .loop }, [])
  | .recv, .recv (some reply) => some (onReply s reply)
  | _, .interrupt => some ({ s with interrupted := true }, [])
  | _, _ => none

/-- The client when its first socket is connected. -/
def clientInit : ClientState where
  pc := .loop
  sequence := 0
  retriesLeft := requestRetries
  request := []
  interrupted := false
  socket := 0
  outstanding := false

/-- The client of `lpp/client.c`. -/
def client : Machine ClientState ClientEvent ClientOutput where
  init := clientInit
  step := clientStep

/-- The steps of the client, one case for each way through its loops. -/
inductive ClientMoves (s : ClientState) :
    ClientEvent → ClientState → List ClientOutput → Prop
  | stopped (pc : s.pc = .loop) (finished : s.retriesLeft = 0 ∨ s.interrupted = true) :
      ClientMoves s .loop { s with pc := .stopped } []
  | begun (pc : s.pc = .loop) (again : ¬ (s.retriesLeft = 0 ∨ s.interrupted = true))
      (fits : (decimal (s.sequence + 1)).length + 1 ≤ requestSize) {t : ClientState}
      {sent : List ClientOutput}
      (send : zstrSend { s with
        pc := .poll
        sequence := s.sequence + 1
        request := decimal (s.sequence + 1) } = (t, sent)) :
      ClientMoves s .loop t sent
  | overrun (pc : s.pc = .loop) (again : ¬ (s.retriesLeft = 0 ∨ s.interrupted = true))
      (long : ¬ (decimal (s.sequence + 1)).length + 1 ≤ requestSize) :
      ClientMoves s .loop { s with pc := .overrun, sequence := s.sequence + 1 } []
  | pollError (pc : s.pc = .poll) : ClientMoves s .pollError { s with pc := .loop } []
  | abandoned (pc : s.pc = .poll) (last : s.retriesLeft - 1 = 0) :
      ClientMoves s .pollTimeout { s with pc := .loop, retriesLeft := s.retriesLeft - 1 }
        [.expired s.request]
  | retried (pc : s.pc = .poll) (more : s.retriesLeft - 1 ≠ 0) :
      ClientMoves s .pollTimeout
        { s with
          retriesLeft := s.retriesLeft - 1
          socket := s.socket + 1
          outstanding := true }
        [.expired s.request, .transmitted (s.socket + 1) s.request]
  | pollReady (pc : s.pc = .poll) : ClientMoves s .pollReady { s with pc := .recv } []
  | recvError (pc : s.pc = .recv) : ClientMoves s (.recv none) { s with pc := .loop } []
  | accepted (reply : Frame) (pc : s.pc = .recv) (ok : atoi reply = s.sequence) :
      ClientMoves s (.recv (some reply))
        { s with pc := .loop, retriesLeft := requestRetries, outstanding := false }
        [.accepted reply]
  | rejected (reply : Frame) (pc : s.pc = .recv) (malformed : atoi reply ≠ s.sequence) :
      ClientMoves s (.recv (some reply)) { s with pc := .poll, outstanding := false }
        [.rejected reply]
  | interrupt : ClientMoves s .interrupt { s with interrupted := true } []

/-- Every step of the client is one of the listed ones. -/
theorem clientMoves_of_step {s t : ClientState} {e : ClientEvent} {out : List ClientOutput}
    (h : client.step s e = some (t, out)) : ClientMoves s e t out := by
  change clientStep s e = some (t, out) at h
  unfold clientStep at h
  split at h
  case h_1 pc =>
    simp only [onLoop] at h
    split at h
    case isTrue finished =>
      cases h
      exact .stopped pc finished
    case isFalse again =>
      split at h
      case isTrue fits => exact .begun pc again fits (Option.some.inj h)
      case isFalse long =>
        cases h
        exact .overrun pc again long
  case h_3 pc =>
    simp only [onTimeout, zstrSend, Bool.false_eq_true, if_false] at h
    split at h
    case isTrue last =>
      cases h
      exact .abandoned pc last
    case isFalse more =>
      cases h
      exact .retried pc more
  case h_6 reply pc =>
    simp only [onReply] at h
    split at h
    case isTrue ok =>
      cases h
      exact .accepted reply pc ok
    case isFalse malformed =>
      cases h
      exact .rejected reply pc malformed
  case h_8 => cases h
  all_goals cases h
  case h_2 pc => exact .pollError pc
  case h_4 pc => exact .pollReady pc
  case h_5 pc => exact .recvError pc
  case h_7 => exact .interrupt

/-! ## The log of the client -/

/-- A reply answers a request when it reads as its number. -/
def Answers (number : Nat) (reply : Frame) : Prop := atoi reply = number

/-- A log of at most three transmissions for each number. -/
abbrev ClientLog (log : List ClientOutput) (p : Progress) : Prop :=
  Orderly 3 decimal Answers log p

/-- How far the client has come, read from its state. While a request is open, the
timeouts it has seen and the retries that are left add up. -/
structure Follows (p : Progress) (s : ClientState) : Prop where
  number : s.pc ≠ .overrun → p.number = s.sequence
  overrun : s.pc = .overrun → p.number + 1 = s.sequence ∧ 1000000000 ≤ s.sequence
  loop : s.pc = .loop → s.interrupted = true ∨
    s.retriesLeft = 3 ∧ s.outstanding = false ∧ p.phase = .ready ∨
    s.retriesLeft = 0 ∧ p.phase = .expired ∧ p.expirations = 3
  trying : s.pc = .poll ∨ s.pc = .recv → p.phase = .waiting ∧
    s.request = decimal s.sequence ∧ p.expirations + s.retriesLeft = 3 ∧ 1 ≤ s.retriesLeft
  stopped : s.pc = .stopped → s.interrupted = true ∨ p.phase = .expired ∧ p.expirations = 3
  channel : p.channel ≤ s.socket

/-- Errors are reported only when the client is interrupted. -/
def ErrorsInterrupted (s : ClientState) : ClientEvent → Prop
  | .pollError => s.interrupted = true
  | .recv none => s.interrupted = true
  | _ => True

instance (s : ClientState) (e : ClientEvent) : Decidable (ErrorsInterrupted s e) := by
  unfold ErrorsInterrupted
  split <;> infer_instance

/-- What fits the buffer. -/
theorem fits_iff {n : Nat} : (decimal n).length + 1 ≤ requestSize ↔ n < 1000000000 := by
  have h : (decimal n).length ≤ 8 + 1 ↔ n < 10 ^ (8 + 1) := length_decimal_le_iff
  rw [requestSize, Nat.succ_le_succ_iff]
  exact h

/-- Every step of the client is a step of its log. -/
theorem Follows.step {s t : ClientState} {e : ClientEvent} {os out : List ClientOutput}
    {p : Progress} (log : ClientLog os p) (h : Follows p s) (errors : ErrorsInterrupted s e)
    (taken : client.step s e = some (t, out)) :
    ∃ q, ClientLog (os ++ out) q ∧ Follows q t := by
  cases clientMoves_of_step taken with
  | stopped pc finished =>
      refine ⟨p, by simpa using log, ?_, by simp, by simp, by simp, ?_, h.channel⟩
      · exact fun _ => h.number (by simp [pc])
      · intro _
        rcases h.loop pc with interrupted | ⟨fresh, -⟩ | ⟨-, gone⟩
        · exact Or.inl interrupted
        · exact Or.inl (finished.resolve_left (by simp [fresh]))
        · exact Or.inr gone
  | begun pc again fits send =>
      simp only [not_or, Bool.not_eq_true] at again
      have hnumber := h.number (by simp [pc])
      -- neither interrupted nor out of retries: the last request has been answered
      have fresh := (h.loop pc).resolve_left (by simp [again.2])
      obtain ⟨left, free, ready⟩ := fresh.resolve_right fun gone => again.1 gone.1
      simp only [zstrSend, free, Bool.false_eq_true, if_false, Prod.mk.injEq] at send
      obtain ⟨rfl, rfl⟩ := send
      have next := log.request s.socket ready
      rw [hnumber] at next
      refine ⟨_, next, fun _ => rfl, by simp, by simp, ?_, by simp, Nat.le_refl _⟩
      exact fun _ => ⟨rfl, rfl, by simp [left], by simp [left]⟩
  | overrun pc again long =>
      have hnumber := h.number (by simp [pc])
      rw [fits_iff] at long
      refine ⟨p, by simpa using log, by simp, ?_, by simp, by simp, by simp, h.channel⟩
      exact fun _ => ⟨by simp [hnumber], Nat.le_of_not_lt long⟩
  | pollError pc =>
      refine ⟨p, by simpa using log, ?_, by simp, fun _ => Or.inl errors, by simp, by simp,
        h.channel⟩
      exact fun _ => h.number (by simp [pc])
  | abandoned pc last =>
      obtain ⟨waiting, request, count, -⟩ := h.trying (Or.inl pc)
      have hnumber := h.number (by simp [pc])
      have next := log.expire waiting
      rw [hnumber, ← request] at next
      refine ⟨_, next, fun _ => rfl, by simp, ?_, by simp, by simp, h.channel⟩
      exact fun _ => Or.inr (Or.inr ⟨last, rfl, by dsimp only; omega⟩)
  | retried pc more =>
      obtain ⟨waiting, request, count, left⟩ := h.trying (Or.inl pc)
      have hnumber := h.number (by simp [pc])
      have next := (log.expire waiting).again (s.socket + 1) rfl (by dsimp only; omega)
        (Nat.lt_succ_of_le h.channel)
      rw [hnumber, ← request, List.append_assoc] at next
      refine ⟨_, next, fun _ => rfl, ?_, ?_, ?_, ?_, Nat.le_refl _⟩
      · simp [pc]
      · simp [pc]
      · exact fun _ => ⟨rfl, request, by dsimp only; omega, by dsimp only; omega⟩
      · simp [pc]
  | pollReady pc =>
      refine ⟨p, by simpa using log, ?_, by simp, by simp, ?_, by simp, h.channel⟩
      · exact fun _ => h.number (by simp [pc])
      · exact fun _ => h.trying (Or.inl pc)
  | recvError pc =>
      refine ⟨p, by simpa using log, ?_, by simp, fun _ => Or.inl errors, by simp, by simp,
        h.channel⟩
      exact fun _ => h.number (by simp [pc])
  | accepted reply pc ok =>
      obtain ⟨waiting, request, count, -⟩ := h.trying (Or.inr pc)
      have hnumber := h.number (by simp [pc])
      have next := log.accept reply waiting (by rw [Answers, hnumber]; exact ok)
      refine ⟨_, next, fun _ => hnumber, by simp, ?_, by simp, by simp, h.channel⟩
      exact fun _ => Or.inr (Or.inl ⟨rfl, rfl, rfl⟩)
  | rejected reply pc malformed =>
      have hnumber := h.number (by simp [pc])
      have trying := h.trying (Or.inr pc)
      refine ⟨p, log.reject reply trying.1, fun _ => hnumber, by simp, by simp, ?_, by simp,
        h.channel⟩
      exact fun _ => trying
  | interrupt =>
      exact ⟨p, by simpa using log, h.number, h.overrun, fun _ => Or.inl rfl, h.trying,
        fun _ => Or.inl rfl, h.channel⟩

/-- Every run of the client is a log of requests that stop and wait. -/
theorem exists_clientLog {es : List ClientEvent} {os : List ClientOutput} {s : ClientState}
    (run : client.Run es os s) (errors : client.StepsMeet ErrorsInterrupted es) :
    ∃ p, ClientLog os p ∧ Follows p s := by
  have init : ∃ p, ClientLog [] p ∧ Follows p client.init :=
    ⟨_, .start, ⟨fun _ => rfl, by simp [client, clientInit],
      fun _ => Or.inr (Or.inl ⟨rfl, rfl, rfl⟩), by simp [client, clientInit],
      by simp [client, clientInit], Nat.le_refl _⟩⟩
  have step : ∀ os s e t out, (∃ p, ClientLog os p ∧ Follows p s) → ErrorsInterrupted s e →
      client.step s e = some (t, out) → ∃ p, ClientLog (os ++ out) p ∧ Follows p t := by
    rintro os s e t out ⟨p, log, follows⟩ ok taken
    exact follows.step log ok taken
  exact run.invariant_of_stepsMeet init step errors

/-- The last round of the outer loop has seen so many timeouts; in one round all of them
are of one request. -/
def TimedOut (es : List ClientEvent) (timeouts : Int) : Prop :=
  ∃ before round, es = before ++ .loop :: round ∧ .loop ∉ round ∧
    (round.count .pollTimeout : Int) = timeouts

theorem TimedOut.begin (es : List ClientEvent) : TimedOut (es ++ [.loop]) 0 :=
  ⟨es, [], rfl, List.not_mem_nil, rfl⟩

theorem TimedOut.timeout {es : List ClientEvent} {timeouts : Int} (h : TimedOut es timeouts) :
    TimedOut (es ++ [.pollTimeout]) (timeouts + 1) := by
  obtain ⟨before, round, rfl, same, count⟩ := h
  refine ⟨before, round ++ [.pollTimeout], by simp, by simpa using same, ?_⟩
  rw [List.count_append, ← count]
  rfl

theorem TimedOut.keep {es : List ClientEvent} {timeouts : Int} {e : ClientEvent}
    (h : TimedOut es timeouts) (inside : e ≠ .loop) (other : e ≠ .pollTimeout) :
    TimedOut (es ++ [e]) timeouts := by
  obtain ⟨before, round, rfl, same, count⟩ := h
  refine ⟨before, round ++ [e], by simp, by simp [same, inside.symm], ?_⟩
  rw [List.count_append, List.count_singleton, if_neg (by simpa using other)]
  exact count

/-- The timeouts of a round and the retries that are left add up; what the client stops
for without being interrupted is the round before. -/
structure Timed (es : List ClientEvent) (s : ClientState) : Prop where
  trying : s.pc = .poll ∨ s.pc = .recv → TimedOut es (requestRetries - s.retriesLeft)
  loop : s.pc = .loop → s.interrupted = true ∨ s.retriesLeft = requestRetries ∨
    s.retriesLeft = 0 ∧ TimedOut es requestRetries
  stopped : s.pc = .stopped → s.interrupted = true ∨
    ∃ before after, es = before ++ .loop :: after ∧ TimedOut before requestRetries

theorem Timed.step {s t : ClientState} {e : ClientEvent} {es : List ClientEvent}
    {out : List ClientOutput} (h : Timed es s) (errors : ErrorsInterrupted s e)
    (taken : client.step s e = some (t, out)) : Timed (es ++ [e]) t := by
  cases clientMoves_of_step taken with
  | stopped pc finished =>
      refine ⟨by simp, by simp, fun _ => ?_⟩
      rcases h.loop pc with interrupted | fresh | ⟨-, timedOut⟩
      · exact Or.inl interrupted
      · exact Or.inl (finished.resolve_left (by simp [fresh, requestRetries]))
      · exact Or.inr ⟨es, [], rfl, timedOut⟩
  | begun pc again fits send =>
      simp only [not_or, Bool.not_eq_true] at again
      have fresh := (h.loop pc).resolve_left (by simp [again.2])
      have left := fresh.resolve_right fun gone => again.1 gone.1
      have same : t.pc = .poll ∧ t.retriesLeft = s.retriesLeft := by
        simp only [zstrSend] at send
        split at send <;> cases send <;> exact ⟨rfl, rfl⟩
      refine ⟨fun _ => ?_, by simp [same.1], by simp [same.1]⟩
      rw [same.2, left, Int.sub_self]
      exact TimedOut.begin es
  | overrun pc again long => exact ⟨by simp, by simp, by simp⟩
  | pollError pc => exact ⟨by simp, fun _ => Or.inl errors, by simp⟩
  | abandoned pc last =>
      refine ⟨by simp, fun _ => Or.inr (Or.inr ⟨last, ?_⟩), by simp⟩
      have timedOut := (h.trying (Or.inl pc)).timeout
      have all : requestRetries - s.retriesLeft + 1 = requestRetries := by omega
      rwa [all] at timedOut
  | retried pc more =>
      refine ⟨fun _ => ?_, by simp [pc], by simp [pc]⟩
      have timedOut := (h.trying (Or.inl pc)).timeout
      have one : requestRetries - s.retriesLeft + 1 = requestRetries - (s.retriesLeft - 1) := by
        omega
      rwa [one] at timedOut
  | pollReady pc =>
      exact ⟨fun _ => (h.trying (Or.inl pc)).keep (by simp) (by simp), by simp, by simp⟩
  | recvError pc => exact ⟨by simp, fun _ => Or.inl errors, by simp⟩
  | accepted reply pc ok => exact ⟨by simp, fun _ => Or.inr (Or.inl rfl), by simp⟩
  | rejected reply pc malformed =>
      exact ⟨fun _ => (h.trying (Or.inr pc)).keep (by simp) (by simp), by simp, by simp⟩
  | interrupt =>
      exact ⟨fun pc => (h.trying pc).keep (by simp) (by simp), fun _ => Or.inl rfl,
        fun _ => Or.inl rfl⟩

theorem timed_of_run {es : List ClientEvent} {os : List ClientOutput} {s : ClientState}
    (run : client.Run es os s) (errors : client.StepsMeet ErrorsInterrupted es) :
    Timed es s := by
  induction run with
  | start =>
      exact ⟨by simp [client, clientInit], fun _ => Or.inr (Or.inl rfl),
        by simp [client, clientInit]⟩
  | extend prior taken ih => exact (ih errors.prior).step (errors.last prior) taken

/-- The client stops and waits: replies are accepted for one number after the other,
a request is transmitted only when the one before has been accepted, always with the
same text, at least once and at most three times, each time on a new socket; and the
client stops only when it is interrupted or when one request has timed out three
times, all in the round of the outer loop before it stops. -/
theorem stops_and_waits {es : List ClientEvent} {os : List ClientOutput} {s : ClientState}
    (run : client.Run es os s) (errors : client.StepsMeet ErrorsInterrupted es) :
    (∀ i reply, (acceptedReplies os)[i]? = some reply → atoi reply = (i + 1 : Nat)) ∧
    (∀ before socket text after, os = before ++ .transmitted socket text :: after →
      text = decimal ((acceptedReplies before).length + 1)) ∧
    (∀ k, 1 ≤ k → k ≤ s.sequence → k < 1000000000 → 1 ≤ (channels os (decimal k)).length) ∧
    (∀ k, ((channels os (decimal k)).length : Int) ≤ requestRetries) ∧
    (∀ k, (channels os (decimal k)).Pairwise (· < ·)) ∧
    (∀ text, .refused text ∉ os) ∧
    (s.pc = .stopped → s.interrupted = true ∨
      (expirations os (decimal s.sequence) : Int) = requestRetries) ∧
    (s.pc = .stopped → s.interrupted = true ∨
      ∃ before round after, es = before ++ .loop :: (round ++ .loop :: after) ∧
        .loop ∉ round ∧ (round.count .pollTimeout : Int) = requestRetries) := by
  obtain ⟨p, log, follows⟩ := exists_clientLog run errors
  have positive : 0 < 3 := by decide
  refine ⟨?_, ?_, ?_, ?_, ?_, log.refused_not_mem, ?_, ?_⟩
  · exact fun i reply hi => log.answers_of_accepted positive decimal_injective hi
  · exact fun _ _ _ _ heq => log.eq_encode_of_transmitted positive decimal_injective heq
  · intro k hpos hk hlt
    apply List.length_pos_iff.mpr
    apply log.channels_ne_nil hpos
    by_cases hpc : s.pc = .overrun
    · have hover := follows.overrun hpc
      omega
    · rw [follows.number hpc]
      exact hk
  · exact fun k => Int.ofNat_le.mpr (log.length_channels_le positive decimal_injective k)
  · exact log.channels_pairwise positive decimal_injective
  · intro hpc
    apply (follows.stopped hpc).imp_right
    rintro ⟨expired, count⟩
    have tally := log.tally positive decimal_injective
    have h := tally.expired (by simp [expired])
    rw [follows.number (by simp [hpc]), count] at h
    rw [h]
    rfl
  · intro hpc
    apply ((timed_of_run run errors).stopped hpc).imp_right
    rintro ⟨earlier, after, rfl, before, round, rfl, same, count⟩
    exact ⟨before, round, after, by simp, same, count⟩

/-- The first request times out once and is answered wrongly and then rightly; the
second is never answered. -/
def offlineRun : List ClientEvent :=
  [.loop, .pollTimeout, .pollReady, .recv (some [50]), .pollReady, .recv (some [49]),
    .loop, .pollTimeout, .pollTimeout, .pollTimeout, .loop]

theorem stops_and_waits_offline :
    ∃ os s, client.Run offlineRun os s ∧ client.StepsMeet ErrorsInterrupted offlineRun ∧
      acceptedReplies os = [[49]] ∧ s.pc = .stopped ∧
      (∀ i reply, (acceptedReplies os)[i]? = some reply → atoi reply = (i + 1 : Nat)) ∧
      (s.interrupted = true ∨ (expirations os (decimal s.sequence) : Int) = requestRetries) ∧
      (s.interrupted = true ∨
        ∃ before round after, offlineRun = before ++ .loop :: (round ++ .loop :: after) ∧
          .loop ∉ round ∧ (round.count .pollTimeout : Int) = requestRetries) := by
  have run : client.Run offlineRun
      [.transmitted 0 [49], .expired [49], .transmitted 1 [49], .rejected [50], .accepted [49],
        .transmitted 1 [50], .expired [50], .transmitted 2 [50], .expired [50],
        .transmitted 3 [50], .expired [50]]
      ⟨.stopped, 2, 0, [50], false, 3, true⟩ :=
    Machine.run_of_exec (by decide)
  have errors : client.StepsMeet ErrorsInterrupted offlineRun :=
    Machine.stepsMeet_of_check (by decide)
  obtain ⟨answers, -, -, -, -, -, expired, timedOut⟩ := stops_and_waits run errors
  exact ⟨_, _, run, errors, rfl, rfl, answers, expired rfl, timedOut rfl⟩

end ZmqTest.Lpp
