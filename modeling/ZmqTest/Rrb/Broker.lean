/-
# The request-reply broker

`rrb/broker.c` relays frame by frame between a router and a dealer socket. One pass of
its macro receives a frame, asks whether more frames follow, and sends the frame on
with the same flag; the send empties the message, so that the flag has to be read
before. The broker polls again when a message has been relayed to its end, and what
the poll said of the backend is remembered while the frontend is served.

A message arrives at a socket whole, at any time. Receives do not fail.
-/

import Mathlib.Logic.Function.Basic
import ZmqTest.Lib.Framing
import ZmqTest.Lib.Machine
import ZmqTest.Lib.Multipart

namespace ZmqTest.Rrb

open Framing

/-- A frame with its flag: do more frames of the message follow? -/
abbrev Part := Frame × Bool

/-- The two sockets. -/
inductive Side
  | frontend
  | backend
  deriving DecidableEq

/-- The socket on the other side. -/
def Side.other : Side → Side
  | .frontend => .backend
  | .backend => .frontend

/-- `zmq_msg_t`. -/
structure ZmqMsg where
  data : Frame
  more : Bool

/-- `zmq_msg_recv`. -/
def zmqMsgRecv (part : Part) : ZmqMsg := { data := part.1, more := part.2 }

/-- `zmq_msg_send` hands the data to the socket and leaves an empty message. -/
def zmqMsgSend (msg : ZmqMsg) (sndmore : Bool) : ZmqMsg × Part :=
  ({ data := [], more := false }, (msg.data, sndmore))

/-- One pass of `recv_multipart_msg`: what is sent, and whether the loop goes on. -/
def recvMultipartPass (part : Part) : Part × Bool :=
  let msg := zmqMsgRecv part
  let more := msg.more
  let (_, sent) := zmqMsgSend msg more
  (sent, more)

/-- Where the broker stands: at its poll, or in the macro. -/
inductive BrokerPc
  | poll
  | frontend (revents1 : Bool)
  | backend
  deriving DecidableEq

structure BrokerState where
  pc : BrokerPc
  /-- The frames that have arrived at a socket and have not been received. -/
  waiting : Side → List Part

inductive BrokerEvent
  | /-- A message arrives at a socket. -/
    arrive (side : Side) (msg : Zmsg)
  | poll (revents0 revents1 : Bool)
  | /-- One pass of the macro. -/
    pass
  deriving DecidableEq

inductive BrokerOutput
  | received (side : Side) (part : Part)
  | sent (side : Side) (part : Part)
  deriving DecidableEq

/-- The second branch: the backend is served when the poll has said so. -/
def afterFrontend (revents1 : Bool) : BrokerPc := if revents1 then .backend else .poll

def afterPoll (revents0 revents1 : Bool) : BrokerPc :=
  if revents0 then .frontend revents1 else afterFrontend revents1

/-- A pass of the macro over the frames of `source`; `next` is where the loop leaves. -/
def onPass (s : BrokerState) (source : Side) (next : BrokerPc) :
    Option (BrokerState × List BrokerOutput) :=
  match s.waiting source with
  | [] => none
  | part :: rest =>
      let (sent, more) := recvMultipartPass part
      some ({ pc := if more then s.pc else next
              waiting := Function.update s.waiting source rest },
        [.received source part, .sent source.other sent])

/-- One step of `main`, or of the peers. -/
def brokerStep (s : BrokerState) (e : BrokerEvent) :
    Option (BrokerState × List BrokerOutput) :=
  match e, s.pc with
  | .arrive side msg, _ =>
      if msg = [] then none
      else
        some ({ s with
            waiting := Function.update s.waiting side (s.waiting side ++ flagged msg) }, [])
  | .poll revents0 revents1, .poll => some ({ s with pc := afterPoll revents0 revents1 }, [])
  | .pass, .frontend revents1 => onPass s .frontend (afterFrontend revents1)
  | .pass, .backend => onPass s .backend .poll
  | _, _ => none

/-- The broker when its sockets are bound. -/
def brokerInit : BrokerState := { pc := .poll, waiting := fun _ => [] }

/-- The broker of `rrb/broker.c`. -/
def broker : Machine BrokerState BrokerEvent BrokerOutput where
  init := brokerInit
  step := brokerStep

/-- The socket whose frames are being relayed. -/
def BrokerPc.serves : BrokerPc → Option Side
  | .poll => none
  | .frontend _ => some .frontend
  | .backend => some .backend

/-- The steps of the broker and of its peers. -/
inductive BrokerMoves (s : BrokerState) :
    BrokerEvent → BrokerState → List BrokerOutput → Prop
  | arrive (side : Side) (msg : Zmsg) (hne : msg ≠ []) :
      BrokerMoves s (.arrive side msg)
        { s with waiting := Function.update s.waiting side (s.waiting side ++ flagged msg) } []
  | poll (revents0 revents1 : Bool) (pc : s.pc = .poll) :
      BrokerMoves s (.poll revents0 revents1) { s with pc := afterPoll revents0 revents1 } []
  | pass (source : Side) (frame : Frame) (more : Bool) (rest : List Part) (next : BrokerPc)
      (serves : s.pc.serves = some source) (waits : s.waiting source = (frame, more) :: rest) :
      BrokerMoves s .pass
        { pc := if more then s.pc else next
          waiting := Function.update s.waiting source rest }
        [.received source (frame, more), .sent source.other (frame, more)]

theorem brokerMoves_of_onPass {s t : BrokerState} {source : Side} {next : BrokerPc}
    {out : List BrokerOutput} (serves : s.pc.serves = some source)
    (h : onPass s source next = some (t, out)) : BrokerMoves s .pass t out := by
  unfold onPass at h
  split at h
  case h_1 => cases h
  case h_2 part rest waits =>
    obtain ⟨frame, more⟩ := part
    cases h
    exact .pass source frame more rest next serves waits

/-- Every step is one of the listed ones. -/
theorem brokerMoves_of_step {s t : BrokerState} {e : BrokerEvent} {out : List BrokerOutput}
    (h : broker.step s e = some (t, out)) : BrokerMoves s e t out := by
  change brokerStep s e = some (t, out) at h
  unfold brokerStep at h
  split at h
  case h_1 side msg =>
    split at h
    case isTrue => cases h
    case isFalse hne =>
      cases h
      exact .arrive side msg hne
  case h_2 revents0 revents1 pc =>
    cases h
    exact .poll revents0 revents1 pc
  case h_3 revents1 pc => exact brokerMoves_of_onPass (by rw [pc]; rfl) h
  case h_4 pc => exact brokerMoves_of_onPass (by rw [pc]; rfl) h
  case h_5 => cases h

end ZmqTest.Rrb
