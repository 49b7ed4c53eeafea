/-
# One call of mdcli_send

The runs of a single call, from any session the application may make it on: the
machine of the session started after the envelope is put on, without the events
that are up to the application. Every attempt transmits the same message, and a
retry replaces the socket before it sends, so that a call which starts on a free
socket is never refused a send. The first reply with the envelope of the request
is returned without it. The name of the service is on the message as it was given: what
`zmsg_pushstr` pushes is its argument, as `startCall` has it.
-/

import Mathlib.Data.List.Induction
import ZmqTest.Mdp.Client

namespace ZmqTest.Mdp

/-- What can happen while a call is in progress; the rest is up to the
application. -/
def MdcliEvent.duringCall : MdcliEvent → Bool
  | .setTimeout _ => false
  | .setRetries _ => false
  | .call _ _ => false
  | _ => true

/-- One call of `mdcli_send` on a session. -/
def mdcliSend (s : Session) (service : Frame) (request : Zmsg) :
    Machine Session MdcliEvent MdcliOutput where
  init := startCall s service request
  step := fun u e => if e.duringCall then sessionStep u e else none

section

variable {s u v t : Session} {service : Frame} {request : Zmsg} {e : MdcliEvent}
  {es fs : List MdcliEvent} {os out outs : List MdcliOutput}

theorem step_of_send (taken : (mdcliSend s service request).step u e = some (v, out)) :
    e.duringCall = true ∧ session.step u e = some (v, out) := by
  simpa [mdcliSend, session] using taken

/-- The call is a part of the run of its session. -/
theorem session_run_of_send (prior : session.Run es os s) (pc : s.pc = .idle)
    (run : (mdcliSend s service request).Run fs outs t) :
    session.Run (es ++ .call service request :: fs) (os ++ outs) t := by
  have called : session.Run (es ++ [.call service request]) (os ++ [])
      (startCall s service request) := by
    apply prior.extend
    simp [session, sessionStep, pc]
  induction run with
  | start => exact called
  | extend prior taken ih => simpa using ih.extend (step_of_send taken).2

/-- A call that has ended does nothing more. -/
theorem send_idle (pc : u.pc = .idle)
    (taken : (mdcliSend s service request).step u e = some (v, out)) :
    v.pc = .idle ∧ out = [] := by
  obtain ⟨during, taken⟩ := step_of_send taken
  cases sessionMoves_of_step taken with
  | setTimeout | setRetries | call => cases during
  | ended here | refused _ here | transmitted here | pollError here | abandoned here
  | reconnected here | pollReady here | rejected _ _ here | returned _ _ _ here
  | receiveError here => simp [pc] at here
  | interrupt | answer | loseRequest | loseReply => exact ⟨pc, rfl⟩

theorem exec_idle (pc : u.pc = .idle)
    (exec : (mdcliSend s service request).exec u fs = some (v, outs)) :
    v.pc = .idle ∧ outs = [] := by
  induction fs generalizing u outs with
  | nil =>
      simp only [Machine.exec, Option.some.injEq, Prod.mk.injEq] at exec
      obtain ⟨rfl, rfl⟩ := exec
      exact ⟨pc, rfl⟩
  | cons e fs ih =>
      obtain ⟨w, out, rest, hstep, hrest, rfl⟩ := Machine.exec_cons_eq_some.mp exec
      obtain ⟨hpc, rfl⟩ := send_idle pc hstep
      obtain ⟨hlast, rfl⟩ := ih hpc hrest
      exact ⟨hlast, rfl⟩

/-- The message every attempt of the call transmits. -/
def envelope (service : Frame) (request : Zmsg) : Zmsg := mdpcClient :: service :: request

/-- What holds throughout a call: the message to send is the enveloped request, and
nothing has been returned before the call ends. -/
structure Enveloped (s : Session) (service : Frame) (request : Zmsg)
    (os : List MdcliOutput) (u : Session) : Prop where
  message : u.request = envelope service request
  asked : u.service = service
  number : u.call = s.call + 1
  transmitted : ∀ tag msg, .transmitted tag msg ∈ os → msg = envelope service request
  pending : u.pc ≠ .idle → ∀ call answer, .returned call answer ∉ os

theorem Enveloped.init : Enveloped s service request [] (startCall s service request) where
  message := rfl
  asked := rfl
  number := rfl
  transmitted := by simp
  pending := by simp

/-- Steps that emit nothing keep it. -/
theorem Enveloped.quiet (h : Enveloped s service request os u) (same : v.request = u.request)
    (sameService : v.service = u.service) (sameCall : v.call = u.call)
    (going : v.pc ≠ .idle → u.pc ≠ .idle) : Enveloped s service request (os ++ []) v where
  message := same ▸ h.message
  asked := sameService ▸ h.asked
  number := sameCall ▸ h.number
  transmitted := by simpa using h.transmitted
  pending := fun hpc => by simpa using h.pending (going hpc)

/-- So do steps that end the call. -/
theorem Enveloped.returned {call : Nat} {answer : Option (Transmission × Zmsg)}
    (h : Enveloped s service request os u) (same : v.request = u.request)
    (sameService : v.service = u.service) (sameCall : v.call = u.call) (pc : v.pc = .idle) :
    Enveloped s service request (os ++ [.returned call answer]) v where
  message := same ▸ h.message
  asked := sameService ▸ h.asked
  number := sameCall ▸ h.number
  transmitted := by simpa using h.transmitted
  pending := fun hpc => absurd pc hpc

theorem Enveloped.step (h : Enveloped s service request os u)
    (taken : (mdcliSend s service request).step u e = some (v, out)) :
    Enveloped s service request (os ++ out) v := by
  obtain ⟨during, taken⟩ := step_of_send taken
  cases sessionMoves_of_step taken with
  | setTimeout | setRetries | call => cases during
  | ended | pollError | abandoned | returned => exact h.returned rfl rfl rfl rfl
  | refused tag pc again busy =>
      refine ⟨h.message, h.asked, h.number, by simpa using h.transmitted, ?_⟩
      intro _
      simpa using h.pending (by simp [pc])
  | transmitted pc again free =>
      refine ⟨h.message, h.asked, h.number, ?_, ?_⟩
      · intro tag msg hmem
        rcases List.mem_append.mp hmem with hold | hnew
        · exact h.transmitted tag msg hold
        · simp only [List.mem_singleton, MdcliOutput.transmitted.injEq] at hnew
          rw [hnew.2, h.message]
      · intro _
        simpa using h.pending (by simp [pc])
  | reconnected pc | pollReady pc | rejected _ _ pc | receiveError pc =>
      exact h.quiet rfl rfl rfl fun _ => by simp [pc]
  | interrupt | answer | loseRequest | loseReply => exact h.quiet rfl rfl rfl id

theorem enveloped_of_run (run : (mdcliSend s service request).Run fs outs t) :
    Enveloped s service request outs t :=
  run.output_invariant Enveloped.init fun _ _ _ _ _ h taken => h.step taken

/-- A call that starts on a free socket comes to its loop with a free socket, and
no send has been refused. -/
structure InStep (os : List MdcliOutput) (u : Session) : Prop where
  free : u.pc = .loop → u.outstanding = none
  accepted : ∀ call, .refused call ∉ os

theorem InStep.step (h : InStep os u)
    (taken : (mdcliSend s service request).step u e = some (v, out)) : InStep (os ++ out) v := by
  obtain ⟨during, taken⟩ := step_of_send taken
  cases sessionMoves_of_step taken with
  | setTimeout | setRetries | call => cases during
  | refused tag pc again busy =>
      rw [h.free pc] at busy
      cases busy
  | ended | transmitted | pollError | abandoned | reconnected | pollReady | rejected | returned
  | receiveError => exact ⟨by simp, by simpa using h.accepted⟩
  | interrupt | answer | loseRequest | loseReply => exact ⟨h.free, by simpa using h.accepted⟩

theorem inStep_of_run (free : s.outstanding = none)
    (run : (mdcliSend s service request).Run fs outs t) : InStep outs t := by
  have init : InStep [] (mdcliSend s service request).init := ⟨fun _ => free, by simp⟩
  exact run.output_invariant init fun _ _ _ _ _ h taken => h.step taken

/-- Somewhere in `between` a timeout has the broker connected to by a new socket. -/
def Reconnects (s : Session) (service : Frame) (request : Zmsg)
    (before between : List MdcliEvent) : Prop :=
  ∃ first second os u w, between = first ++ .pollTimeout :: second ∧
    (mdcliSend s service request).Run (before ++ first) os u ∧
    (mdcliSend s service request).step u .pollTimeout = some (connectToBroker w, [])

theorem Reconnects.append {before between : List MdcliEvent}
    (h : Reconnects s service request before between) (after : List MdcliEvent) :
    Reconnects s service request before (between ++ after) := by
  obtain ⟨first, second, os, u, w, rfl, prior, taken⟩ := h
  exact ⟨first, second ++ after, os, u, w, by simp, prior, taken⟩

/-- Between two tests of the loop the socket is replaced. -/
theorem reconnects_between {before between : List MdcliEvent}
    (run : (mdcliSend s service request).Run (before ++ [.loop] ++ between) outs t)
    (pc : t.pc = .loop) : Reconnects s service request (before ++ [.loop]) between := by
  induction between using List.reverseRecOn generalizing outs t with
  | nil =>
      -- the test itself leaves the loop
      rw [List.append_nil] at run
      obtain ⟨u, _, _, _, hexec, -⟩ := run.exists_prefix
      obtain ⟨w, out, rest, hstep, hrest, -⟩ := Machine.exec_cons_eq_some.mp hexec
      obtain ⟨rfl, -⟩ : w = t ∧ [] = rest := by simpa [Machine.exec] using hrest
      cases sessionMoves_of_step (step_of_send hstep).2 <;> simp at pc
  | append_singleton between e ih =>
      rw [← List.append_assoc] at run
      obtain ⟨u, os, _, prior, hexec, -⟩ := run.exists_prefix
      obtain ⟨w, out, rest, hstep, hrest, -⟩ := Machine.exec_cons_eq_some.mp hexec
      obtain ⟨rfl, -⟩ : w = t ∧ [] = rest := by simpa [Machine.exec] using hrest
      obtain ⟨during, taken⟩ := step_of_send hstep
      cases sessionMoves_of_step taken with
      | setTimeout | setRetries | call => cases during
      | reconnected =>
          exact ⟨between, [], os, u, { u with pc := .loop, retriesLeft := u.retriesLeft - 1 },
            rfl, prior, hstep⟩
      | interrupt | answer | loseRequest | loseReply => exact (ih prior pc).append _
      | _ => simp at pc

/-- A reply with the envelope of the request is opened to what is behind it. -/
theorem openReply_envelope {body : Zmsg} (hne : body ≠ []) :
    openReply service (envelope service body) = some body := by
  cases body with
  | nil => exact absurd rfl hne
  | cons frame rest => simp [openReply, envelope]

/-- What the socket delivers next. -/
def Session.delivers (u : Session) (tag : Transmission) (msg : Zmsg) : Prop :=
  u.outstanding = some tag ∧ u.replies.find? (fun reply => reply.1 = tag) = some (tag, msg)

/-- Receiving a reply with the envelope of the request ends the call with what is
behind it. -/
theorem returned_of_receive {tag : Transmission} {body : Zmsg} (hne : body ≠ [])
    (asked : u.service = service) (delivers : u.delivers tag (envelope service body))
    (taken : session.step u .receive = some (v, out)) :
    out = [.returned u.call (some (tag, body))] ∧ v.pc = .idle := by
  obtain ⟨busy, found⟩ := delivers
  cases hpc : u.pc with
  | receive =>
      have opened : openReply u.service (envelope service body) = some body := by
        rw [asked]
        exact openReply_envelope hne
      simp only [session, sessionStep, hpc, onReceive, busy, found, onReply, opened,
        Option.some.injEq, Prod.mk.injEq] at taken
      obtain ⟨rfl, rfl⟩ := taken
      exact ⟨rfl, rfl⟩
  | _ => simp [session, sessionStep, hpc] at taken

/-- In a call that starts on a free socket, every attempt transmits the enveloped
request, on a socket that waits for nothing and is another one than that of the
attempt before; and when the first reply is enveloped like the request, the call
returns the frames behind the envelope. -/
theorem envelope_kept (free : s.outstanding = none)
    (run : (mdcliSend s service request).Run fs outs t) :
    (∀ tag msg, .transmitted tag msg ∈ outs → msg = mdpcClient :: service :: request) ∧
    (∀ call, .refused call ∉ outs) ∧
    (∀ before after os u, fs = before ++ .loop :: after →
      (mdcliSend s service request).Run before os u → u.outstanding = none) ∧
    (∀ before between after, fs = before ++ .loop :: (between ++ .loop :: after) →
      Reconnects s service request (before ++ [.loop]) between) ∧
    ∀ before after os u tag body, fs = before ++ .receive :: after →
      (mdcliSend s service request).Run before os u →
      u.delivers tag (mdpcClient :: service :: body) → body ≠ [] →
      (∀ call answer, .returned call answer ∉ os) ∧
        outs = os ++ [.returned (s.call + 1) (some (tag, body))] ∧ t.pc = .idle := by
  refine ⟨(enveloped_of_run run).transmitted, (inStep_of_run free run).accepted, ?_, ?_, ?_⟩
  · rintro before after os u rfl prior
    obtain ⟨v, out, rest, taken, -, -⟩ := run.next prior
    apply (inStep_of_run free prior).free
    cases sessionMoves_of_step (step_of_send taken).2 <;> assumption
  · rintro before between after rfl
    have run : (mdcliSend s service request).Run
        ((before ++ [.loop] ++ between) ++ .loop :: after) outs t := by
      simpa using run
    obtain ⟨u, os, _, prior, -, -⟩ := run.exists_prefix
    obtain ⟨v, out, rest, taken, -, -⟩ := run.next prior
    apply reconnects_between prior
    cases sessionMoves_of_step (step_of_send taken).2 <;> assumption
  · rintro before after os u tag body rfl prior delivers hne
    have h := enveloped_of_run prior
    obtain ⟨v, out, rest, taken, hexec, rfl⟩ := run.next prior
    obtain ⟨rfl, hidle⟩ := returned_of_receive hne h.asked delivers (step_of_send taken).2
    obtain ⟨hlast, rfl⟩ := exec_idle hidle hexec
    refine ⟨h.pending ?_, ?_, hlast⟩
    · cases sessionMoves_of_step (step_of_send taken).2 with
      | returned _ _ _ here => simp [here]
    · rw [h.number, List.append_nil]

end

/-- A call whose first attempt times out and whose second is answered. -/
def retriedCall : List MdcliEvent :=
  [.loop, .pollTimeout, .loop, .answer ⟨1, 1⟩ [mdpcClient, [101], [120]], .pollReady, .receive]

theorem envelope_kept_retried :
    ∃ outs t, (mdcliSend sessionInit [101] [[120]]).Run retriedCall outs t ∧
      .transmitted ⟨1, 1⟩ [mdpcClient, [101], [120]] ∈ outs ∧
      (∀ tag msg, .transmitted tag msg ∈ outs → msg = [mdpcClient, [101], [120]]) ∧
      Reconnects sessionInit [101] [[120]] [.loop] [.pollTimeout] ∧
      outs.getLast? = some (.returned 1 (some (⟨1, 1⟩, [[120]]))) := by
  have prior : (mdcliSend sessionInit [101] [[120]]).Run (retriedCall.take 5)
      [.transmitted ⟨1, 0⟩ [mdpcClient, [101], [120]],
        .transmitted ⟨1, 1⟩ [mdpcClient, [101], [120]]]
      { startCall sessionInit [101] [[120]] with
        pc := .receive, retriesLeft := 2, outstanding := some ⟨1, 1⟩, sent := 2,
        requests := [(⟨1, 0⟩, [mdpcClient, [101], [120]])],
        replies := [(⟨1, 1⟩, [mdpcClient, [101], [120]])] } :=
    Machine.run_of_exec (by decide)
  have run : (mdcliSend sessionInit [101] [[120]]).Run retriedCall
      [.transmitted ⟨1, 0⟩ [mdpcClient, [101], [120]],
        .transmitted ⟨1, 1⟩ [mdpcClient, [101], [120]], .returned 1 (some (⟨1, 1⟩, [[120]]))]
      { startCall sessionInit [101] [[120]] with
        pc := .idle, retriesLeft := 2, sent := 2,
        requests := [(⟨1, 0⟩, [mdpcClient, [101], [120]])] } :=
    Machine.run_of_exec (by decide)
  obtain ⟨transmitted, -, -, reconnects, returned⟩ := envelope_kept rfl run
  have answered := (returned _ _ _ _ ⟨1, 1⟩ [[120]] rfl prior ⟨rfl, rfl⟩ (by decide)).2.1
  refine ⟨_, _, run, by decide, transmitted, reconnects [] [.pollTimeout] _ rfl, ?_⟩
  rw [answered]
  rfl

end ZmqTest.Mdp
