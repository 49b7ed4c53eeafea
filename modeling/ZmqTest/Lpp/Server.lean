/-
# The Lazy Pirate server

The server of `lpp/server.c` receives a request into a buffer of 32 bytes and sends
back the string in it. After three cycles it may draw a crash, which ends it with the
request unanswered, or an overload, which only delays the reply. It handles no signals,
so that its receives do not fail.
-/

import ZmqTest.Base
import ZmqTest.Lib.Machine

namespace ZmqTest.Lpp

/-- The bytes of the buffer a request is received into. -/
def serverSize : Nat := 32

/-- Where `main` stands: the receive, the send behind the sleeps, past the loop. -/
inductive ServerPc
  | recv
  | send
  | crashed
  deriving DecidableEq

/-- The locals of `main`, and the peer its reply socket will reply to. -/
structure ServerState where
  pc : ServerPc
  cycles : Int
  request : List UInt8
  peer : Nat
  deriving DecidableEq

inductive ServerEvent
  | /-- `s_recv` and the branches, with the two values that may be drawn. -/
    recv (peer : Nat) (frame : Frame) (crash overload : Random)
  | /-- `s_send`. -/
    send
  deriving DecidableEq

inductive ServerOutput
  | received (peer : Nat) (frame : Frame)
  | sleep (seconds : Nat)
  | sent (peer : Nat) (frame : Frame)
  deriving DecidableEq

/-- The request is in the buffer and counted. -/
def ServerState.take (s : ServerState) (peer : Nat) (frame : Frame) (pc : ServerPc) :
    ServerState :=
  { pc := pc
    cycles := (s.cycles + 1).bmod 4294967296
    request := sRecv s.request serverSize (some frame)
    peer := peer }

/-- The branches on what is drawn, with the sleep of every normal request. -/
def onRequest (s : ServerState) (peer : Nat) (frame : Frame) (crash overload : Random) :
    ServerState × List ServerOutput :=
  let cycles := (s.cycles + 1).bmod 4294967296
  if 3 < cycles ∧ randof 3 crash = 0 then
    (s.take peer frame .crashed, [.received peer frame])
  else if 3 < cycles ∧ randof 3 overload = 0 then
    (s.take peer frame .send, [.received peer frame, .sleep 2, .sleep 1])
  else (s.take peer frame .send, [.received peer frame, .sleep 1])

/-- One step of `main`. -/
def serverStep (s : ServerState) (e : ServerEvent) :
    Option (ServerState × List ServerOutput) :=
  match s.pc, e with
  | .recv, .recv peer frame crash overload => some (onRequest s peer frame crash overload)
  | .send, .send => some ({ s with pc := .recv }, [.sent s.peer (cstr s.request)])
  | _, _ => none

/-- The server when its socket is bound; what is in the buffer then is never read. -/
def serverInit : ServerState := { pc := .recv, cycles := 0, request := [], peer := 0 }

/-- The server of `lpp/server.c`. -/
def server : Machine ServerState ServerEvent ServerOutput where
  init := serverInit
  step := serverStep

/-- The steps of the server. -/
inductive ServerMoves (s : ServerState) :
    ServerEvent → ServerState → List ServerOutput → Prop
  | crashed (peer : Nat) (frame : Frame) (crash overload : Random) (pc : s.pc = .recv)
      (drawn : 3 < (s.cycles + 1).bmod 4294967296 ∧ randof 3 crash = 0) :
      ServerMoves s (.recv peer frame crash overload) (s.take peer frame .crashed)
        [.received peer frame]
  | received (peer : Nat) (frame : Frame) (crash overload : Random) (pc : s.pc = .recv)
      (drawn : ¬ (3 < (s.cycles + 1).bmod 4294967296 ∧ randof 3 crash = 0))
      (sleeps : List Nat) :
      ServerMoves s (.recv peer frame crash overload) (s.take peer frame .send)
        (.received peer frame :: sleeps.map .sleep)
  | sent (pc : s.pc = .send) :
      ServerMoves s .send { s with pc := .recv } [.sent s.peer (cstr s.request)]

theorem serverMoves_of_step {s t : ServerState} {e : ServerEvent} {out : List ServerOutput}
    (h : server.step s e = some (t, out)) : ServerMoves s e t out := by
  change serverStep s e = some (t, out) at h
  unfold serverStep at h
  split at h
  case h_1 peer frame crash overload pc =>
    simp only [onRequest] at h
    split at h
    case isTrue drawn =>
      cases h
      exact .crashed peer frame crash overload pc drawn
    case isFalse drawn =>
      split at h
      case isTrue =>
        cases h
        exact .received peer frame crash overload pc drawn [2, 1]
      case isFalse =>
        cases h
        exact .received peer frame crash overload pc drawn [1]
  case h_2 pc =>
    cases h
    exact .sent pc
  case h_3 => cases h

/-- A text that fits is in the buffer as it came. -/
theorem cstr_request_take {frame : Frame} (fits : frame.length + 1 ≤ serverSize)
    (text : 0 ∉ frame) (s : ServerState) (peer : Nat) (pc : ServerPc) :
    cstr (s.take peer frame pc).request = frame := by
  rw [ServerState.take, cstr_sRecv, received_eq_self fits text]

end ZmqTest.Lpp
