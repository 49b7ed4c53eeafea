/-
# The Majordomo client session

A session owns one request socket. Each call of `mdcli_send` puts the envelope
on the request once and then runs a loop of attempts: a copy is sent, the socket
is polled, and a timeout replaces the socket before the next attempt. The
machine is the session together with the network and the broker behind it, which
may delay, lose and answer what was transmitted, each transmission at most once.

A request socket refuses to send while a reply is outstanding and delivers only
a reply to what is outstanding; a new socket has nothing outstanding. The result
of a send is not looked at, so a refused send is an ordinary step.
-/

import ZmqTest.Lib.Machine
import ZmqTest.Lib.Multipart

namespace ZmqTest.Mdp

/-- `MDPC_CLIENT`, the bytes of "MDPC01". -/
def mdpcClient : Frame := [77, 68, 80, 67, 48, 49]

/-- A request on the wire is known by the call that sent it and by its number. -/
structure Transmission where
  call : Nat
  number : Nat
  deriving DecidableEq

/-- Where a call stands: the test of the loop, the poll, the receive. -/
inductive MdcliPc
  | idle
  | loop
  | poll
  | receive
  | aborted
  deriving DecidableEq

/-- `mdcli_t` with its socket, the locals of the call in progress, and the
messages under way. -/
structure Session where
  pc : MdcliPc
  timeout : Int
  retries : Int
  interrupted : Bool
  /-- The number of calls made so far; the call in progress carries it. -/
  call : Nat
  service : Frame
  request : Zmsg
  retriesLeft : Int
  /-- What the request socket waits for. -/
  outstanding : Option Transmission
  sent : Nat
  requests : List (Transmission × Zmsg)
  replies : List (Transmission × Zmsg)
  deriving DecidableEq

inductive MdcliEvent
  | setTimeout (timeout : Int)
  | setRetries (retries : Int)
  | /-- The application calls `mdcli_send`. -/
    call (service : Frame) (request : Zmsg)
  | /-- The test of the loop and, when it passes, the send. -/
    loop
  | pollError
  | pollTimeout
  | pollReady
  | receive
  | receiveError
  | /-- A signal sets `zctx_interrupted`. -/
    interrupt
  | answer (t : Transmission) (msg : Zmsg)
  | loseRequest (t : Transmission)
  | loseReply (t : Transmission)
  deriving DecidableEq

inductive MdcliOutput
  | transmitted (t : Transmission) (msg : Zmsg)
  | refused (call : Nat)
  | /-- A call returns: a null pointer, or a message with the transmission it answers. -/
    returned (call : Nat) (answer : Option (Transmission × Zmsg))
  deriving DecidableEq

/-- `mdcli_send` up to its loop: the envelope goes on the request. `zmsg_pushstr` is taken
to push its argument as it is; where it reads a format, this is so of a service without a
percent sign. -/
def startCall (s : Session) (service : Frame) (request : Zmsg) : Session :=
  { s with
    pc := .loop
    call := s.call + 1
    service := service
    request := (request.push service).push mdpcClient
    retriesLeft := s.retries }

/-- The null pointer is returned and the call is finished. -/
def giveUp (s : Session) : Session × List MdcliOutput :=
  ({ s with pc := .idle }, [.returned s.call none])

/-- `zmsg_send` of the copy. The socket refuses it while a reply is outstanding. -/
def transmit (s : Session) : Session × List MdcliOutput :=
  match s.outstanding with
  | some _ => ({ s with pc := .poll }, [.refused s.call])
  | none =>
      let t : Transmission := ⟨s.call, s.sent⟩
      ({ s with
          pc := .poll
          outstanding := some t
          sent := s.sent + 1
          requests := s.requests ++ [(t, s.request)] },
        [.transmitted t s.request])

/-- One round of the loop up to the poll. -/
def onLoop (s : Session) : Session × List MdcliOutput :=
  if s.retriesLeft = 0 ∨ s.interrupted = true then giveUp s else transmit s

/-- `_mdcli_connect_to_broker`: a new socket has nothing outstanding. -/
def connectToBroker (s : Session) : Session := { s with outstanding := none }

/-- No reply: the counter goes down, and either the socket is replaced or the
call is abandoned with the socket as it is. -/
def onTimeout (s : Session) : Session × List MdcliOutput :=
  let s := { s with retriesLeft := s.retriesLeft - 1 }
  if s.retriesLeft = 0 then giveUp s else (connectToBroker { s with pc := .loop }, [])

/-- The reply without its envelope; `none` when one of the assertions fails. -/
def openReply (service : Frame) : Zmsg → Option Zmsg
  | header :: replyService :: frame :: body =>
      if header = mdpcClient ∧ replyService = service then some (frame :: body) else none
  | _ => none

/-- The received message is checked, opened and returned. -/
def onReply (s : Session) (t : Transmission) (msg : Zmsg) : Session × List MdcliOutput :=
  match openReply s.service msg with
  | none => ({ s with pc := .aborted }, [])
  | some body => ({ s with pc := .idle }, [.returned s.call (some (t, body))])

/-- `zmsg_recv`: the socket delivers a reply to what is outstanding. -/
def onReceive (s : Session) : Option (Session × List MdcliOutput) :=
  match s.outstanding with
  | none => none
  | some t =>
      match s.replies.find? (fun reply => reply.1 = t) with
      | none => none
      | some reply =>
          some (onReply { s with
            outstanding := none
            replies := s.replies.filter (fun reply => reply.1 ≠ t) } t reply.2)

/-- The broker answers a transmission that has reached it. -/
def onAnswer (s : Session) (t : Transmission) (msg : Zmsg) :
    Option (Session × List MdcliOutput) :=
  if s.requests.any (fun request => request.1 = t) then
    some ({ s with
        requests := s.requests.filter (fun request => request.1 ≠ t)
        replies := s.replies ++ [(t, msg)] }, [])
  else none

/-- One step of the session, its network or the broker. -/
def sessionStep (s : Session) (e : MdcliEvent) : Option (Session × List MdcliOutput) :=
  match s.pc, e with
  | .idle, .setTimeout timeout => some ({ s with timeout := timeout }, [])
  | .idle, .setRetries retries => some ({ s with retries := retries }, [])
  | .idle, .call service request => some (startCall s service request, [])
  | .loop, .loop => some (onLoop s)
  | .poll, .pollError => some (giveUp s)
  | .poll, .pollTimeout => some (onTimeout s)
  | .poll, .pollReady => some ({ s with pc := .receive }, [])
  | .receive, .receive => onReceive s
  -- a null message fails the assertion on its size
  | .receive, .receiveError => some ({ s with pc := .aborted }, [])
  | _, .interrupt => some ({ s with interrupted := true }, [])
  | _, .answer t msg => onAnswer s t msg
  | _, .loseRequest t =>
      some ({ s with requests := s.requests.filter (fun request => request.1 ≠ t) }, [])
  | _, .loseReply t =>
      some ({ s with replies := s.replies.filter (fun reply => reply.1 ≠ t) }, [])
  | _, _ => none

/-- `mdcli_new`: the defaults and a first socket. -/
def sessionInit : Session where
  pc := .idle
  timeout := 2500
  retries := 3
  interrupted := false
  call := 0
  service := []
  request := []
  retriesLeft := 0
  outstanding := none
  sent := 0
  requests := []
  replies := []

/-- A session with the network and the broker behind it. -/
def session : Machine Session MdcliEvent MdcliOutput where
  init := sessionInit
  step := sessionStep

/-- The steps of a session, one case for each way through `mdcli_send` and for
each thing that happens around it. -/
inductive SessionMoves (s : Session) :
    MdcliEvent → Session → List MdcliOutput → Prop
  | setTimeout (timeout : Int) (pc : s.pc = .idle) :
      SessionMoves s (.setTimeout timeout) { s with timeout := timeout } []
  | setRetries (retries : Int) (pc : s.pc = .idle) :
      SessionMoves s (.setRetries retries) { s with retries := retries } []
  | call (service : Frame) (request : Zmsg) (pc : s.pc = .idle) :
      SessionMoves s (.call service request) (startCall s service request) []
  | ended (pc : s.pc = .loop) (finished : s.retriesLeft = 0 ∨ s.interrupted = true) :
      SessionMoves s .loop { s with pc := .idle } [.returned s.call none]
  | refused (t : Transmission) (pc : s.pc = .loop)
      (again : ¬ (s.retriesLeft = 0 ∨ s.interrupted = true)) (busy : s.outstanding = some t) :
      SessionMoves s .loop { s with pc := .poll } [.refused s.call]
  | transmitted (pc : s.pc = .loop)
      (again : ¬ (s.retriesLeft = 0 ∨ s.interrupted = true)) (free : s.outstanding = none) :
      SessionMoves s .loop
        { s with
          pc := .poll
          outstanding := some ⟨s.call, s.sent⟩
          sent := s.sent + 1
          requests := s.requests ++ [(⟨s.call, s.sent⟩, s.request)] }
        [.transmitted ⟨s.call, s.sent⟩ s.request]
  | pollError (pc : s.pc = .poll) :
      SessionMoves s .pollError { s with pc := .idle } [.returned s.call none]
  | abandoned (pc : s.pc = .poll) (last : s.retriesLeft - 1 = 0) :
      SessionMoves s .pollTimeout { s with pc := .idle, retriesLeft := s.retriesLeft - 1 }
        [.returned s.call none]
  | reconnected (pc : s.pc = .poll) (more : s.retriesLeft - 1 ≠ 0) :
      SessionMoves s .pollTimeout
        { s with pc := .loop, retriesLeft := s.retriesLeft - 1, outstanding := none } []
  | pollReady (pc : s.pc = .poll) : SessionMoves s .pollReady { s with pc := .receive } []
  | rejected (t : Transmission) (msg : Zmsg) (pc : s.pc = .receive)
      (busy : s.outstanding = some t) (found : (t, msg) ∈ s.replies)
      (malformed : openReply s.service msg = none) :
      SessionMoves s .receive
        { s with
          pc := .aborted
          outstanding := none
          replies := s.replies.filter (fun reply => reply.1 ≠ t) } []
  | returned (t : Transmission) (msg body : Zmsg) (pc : s.pc = .receive)
      (busy : s.outstanding = some t) (found : (t, msg) ∈ s.replies)
      (opened : openReply s.service msg = some body) :
      SessionMoves s .receive
        { s with
          pc := .idle
          outstanding := none
          replies := s.replies.filter (fun reply => reply.1 ≠ t) }
        [.returned s.call (some (t, body))]
  | receiveError (pc : s.pc = .receive) :
      SessionMoves s .receiveError { s with pc := .aborted } []
  | interrupt : SessionMoves s .interrupt { s with interrupted := true } []
  | answer (t : Transmission) (msg request : Zmsg) (arrived : (t, request) ∈ s.requests) :
      SessionMoves s (.answer t msg)
        { s with
          requests := s.requests.filter (fun request => request.1 ≠ t)
          replies := s.replies ++ [(t, msg)] } []
  | loseRequest (t : Transmission) :
      SessionMoves s (.loseRequest t)
        { s with requests := s.requests.filter (fun request => request.1 ≠ t) } []
  | loseReply (t : Transmission) :
      SessionMoves s (.loseReply t)
        { s with replies := s.replies.filter (fun reply => reply.1 ≠ t) } []

theorem sessionMoves_of_onLoop {s t : Session} {out : List MdcliOutput}
    (pc : s.pc = .loop) (h : onLoop s = (t, out)) : SessionMoves s .loop t out := by
  unfold onLoop at h
  split at h
  case isTrue finished =>
    obtain ⟨rfl, rfl⟩ := Prod.mk.inj h
    exact .ended pc finished
  case isFalse again =>
    cases busy : s.outstanding with
    | some waiting =>
        simp only [transmit, busy] at h
        obtain ⟨rfl, rfl⟩ := Prod.mk.inj h
        exact busy ▸ .refused waiting pc again busy
    | none =>
        simp only [transmit, busy] at h
        obtain ⟨rfl, rfl⟩ := Prod.mk.inj h
        exact .transmitted pc again busy

theorem sessionMoves_of_onTimeout {s t : Session} {out : List MdcliOutput}
    (pc : s.pc = .poll) (h : onTimeout s = (t, out)) : SessionMoves s .pollTimeout t out := by
  simp only [onTimeout] at h
  split at h
  case isTrue last =>
    obtain ⟨rfl, rfl⟩ := Prod.mk.inj h
    exact .abandoned pc last
  case isFalse more =>
    obtain ⟨rfl, rfl⟩ := Prod.mk.inj h
    exact .reconnected pc more

theorem sessionMoves_of_onReceive {s t : Session} {out : List MdcliOutput}
    (pc : s.pc = .receive) (h : onReceive s = some (t, out)) :
    SessionMoves s .receive t out := by
  unfold onReceive at h
  cases busy : s.outstanding with
  | none => simp [busy] at h
  | some transmission =>
      cases hfind : s.replies.find? (fun reply => reply.1 = transmission) with
      | none => simp [busy, hfind] at h
      | some reply =>
          obtain ⟨tag, msg⟩ := reply
          have htag : tag = transmission := by
            simpa using List.find?_some hfind
          subst tag
          have found := List.mem_of_find?_eq_some hfind
          simp only [busy, hfind, Option.some.injEq] at h
          cases opened : openReply s.service msg with
          | none =>
              simp only [onReply, opened, Prod.mk.injEq] at h
              obtain ⟨rfl, rfl⟩ := h
              exact .rejected transmission msg pc busy found opened
          | some body =>
              simp only [onReply, opened, Prod.mk.injEq] at h
              obtain ⟨rfl, rfl⟩ := h
              exact .returned transmission msg body pc busy found opened

theorem sessionMoves_of_onAnswer {s u : Session} {t : Transmission} {msg : Zmsg}
    {out : List MdcliOutput} (h : onAnswer s t msg = some (u, out)) :
    SessionMoves s (.answer t msg) u out := by
  unfold onAnswer at h
  split at h
  case isTrue arrived =>
    simp only [Option.some.injEq, Prod.mk.injEq] at h
    obtain ⟨rfl, rfl⟩ := h
    obtain ⟨⟨tag, request⟩, hmem, htag⟩ := List.any_eq_true.mp arrived
    obtain rfl : tag = t := of_decide_eq_true htag
    exact .answer tag msg request hmem
  case isFalse => cases h

/-- Every step of the session is one of the listed ones. -/
theorem sessionMoves_of_step {s t : Session} {e : MdcliEvent} {out : List MdcliOutput}
    (h : session.step s e = some (t, out)) : SessionMoves s e t out := by
  change sessionStep s e = some (t, out) at h
  unfold sessionStep at h
  split at h
  case h_4 _ _ pc => exact sessionMoves_of_onLoop pc (Option.some.inj h)
  case h_6 _ _ pc => exact sessionMoves_of_onTimeout pc (Option.some.inj h)
  case h_8 _ _ pc => exact sessionMoves_of_onReceive pc h
  case h_11 => exact sessionMoves_of_onAnswer h
  case h_14 => cases h
  all_goals
    rename_i pc
    simp only [giveUp, Option.some.injEq, Prod.mk.injEq] at h
    obtain ⟨rfl, rfl⟩ := h
  · exact .setTimeout _ pc
  · exact .setRetries _ pc
  · exact .call _ _ pc
  · exact .pollError pc
  · exact .pollReady pc
  · exact .receiveError pc
  · exact .interrupt
  · exact .loseRequest _
  · exact .loseReply _

end ZmqTest.Mdp
