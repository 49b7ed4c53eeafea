/-
# Request and reply sockets

A request socket puts an empty delimiter in front of what is sent and takes it off the
reply. A reply socket keeps what stands in front of the delimiter of a request, and puts
it in front of what is sent. A call out of turn is refused, a message without a delimiter
is dropped while the receive goes on waiting, and the frames of a message are received
one by one: the turn changes with the last one.

Two programs run on these sockets. The requester sends the same text and receives a frame
as often as its loop says. The replier receives a frame and sends the same text for ever.
Neither looks at what its calls come to; on messages of several frames they are out of
turn at times, and yet every message that is read to its end is replied to once.
-/

import ZmqTest.Lib.Machine
import ZmqTest.Lib.Multipart

namespace Reqrep

/-- What a receive comes to. -/
inductive Receipt (Socket : Type)
  | received (frame : Frame) (socket : Socket)
  | /-- The message is not for the caller, who goes on waiting. -/
    dropped
  | /-- It is not the turn of a receive. -/
    refused

/-- A request socket. -/
structure Req where
  receivingReply : Bool
  unread : Zmsg
  deriving DecidableEq

/-- The frames of a reply behind its delimiter, of which there is at least one. -/
def replyBody : Zmsg → Option (Frame × Zmsg)
  | [] :: part :: rest => some (part, rest)
  | _ => none

/-- Send one frame. -/
def Req.send (s : Req) (part : Frame) : Option (Req × Zmsg) :=
  if s.receivingReply then none else some ({ s with receivingReply := true }, [[], part])

/-- A frame of the reply has been read; the last one ends the turn. -/
def Req.read (rest : Zmsg) : Req := { receivingReply := rest ≠ [], unread := rest }

/-- Receive one frame, of the message `msg` when no other has been read in part. -/
def Req.recv (s : Req) (msg : Option Zmsg) : Option (Receipt Req) :=
  match s.receivingReply, s.unread, msg with
  | false, _, none => some .refused
  | true, part :: rest, none => some (.received part (Req.read rest))
  | true, [], some msg =>
      match replyBody msg with
      | none => some .dropped
      | some (part, rest) => some (.received part (Req.read rest))
  | _, _, _ => none

/-- A reply socket. -/
structure Rep where
  sendingReply : Bool
  envelope : Zmsg
  unread : Zmsg
  deriving DecidableEq

/-- The frames of a request in front of its delimiter and those behind it, of which there
is at least one. -/
def openRequest : Zmsg → Option (Zmsg × Frame × Zmsg)
  | [] => none
  | [] :: part :: rest => some ([], part, rest)
  | frame :: rest =>
      if frame = [] then none
      else (openRequest rest).map fun (envelope, body) => (frame :: envelope, body)

/-- A frame of a request has been read; the last one makes it the turn of a send. -/
def Rep.read (envelope rest : Zmsg) : Rep :=
  { sendingReply := rest = [], envelope := envelope, unread := rest }

/-- Receive one frame, of the message `msg` when no other has been read in part. -/
def Rep.recv (s : Rep) (msg : Option Zmsg) : Option (Receipt Rep) :=
  match s.sendingReply, s.unread, msg with
  | true, _, none => some .refused
  | false, part :: rest, none => some (.received part (Rep.read s.envelope rest))
  | false, [], some msg =>
      match openRequest msg with
      | none => some .dropped
      | some (envelope, part, rest) => some (.received part (Rep.read envelope rest))
  | _, _, _ => none

/-- A reply behind the envelope of its request. -/
def enclose (envelope : Zmsg) (part : Frame) : Zmsg := envelope ++ [[], part]

/-- Send one frame. -/
def Rep.send (s : Rep) (part : Frame) : Option (Rep × Zmsg) :=
  if s.sendingReply then
    some ({ s with sendingReply := false }, enclose s.envelope part)
  else none

/-- An envelope is found again when none of its frames is empty. -/
theorem openRequest_enclose {envelope : Zmsg} (h : [] ∉ envelope) (part : Frame) :
    openRequest (enclose envelope part) = some (envelope, part, []) := by
  induction envelope with
  | nil => rfl
  | cons frame envelope ih =>
      have rest := ih fun hmem => h (List.mem_cons_of_mem frame hmem)
      cases frame with
      | nil => exact absurd List.mem_cons_self h
      | cons byte bytes =>
          change (openRequest (enclose envelope part)).map _ = _
          rw [rest]
          rfl

/-- The call that comes next, and how often the loop has been passed. -/
inductive RequesterPc
  | send (requestNbr : Nat)
  | recv (requestNbr : Nat)
  | done
  deriving DecidableEq

structure RequesterState where
  pc : RequesterPc
  socket : Req
  deriving DecidableEq

inductive RequesterEvent
  | send
  | recv (msg : Option Zmsg)
  deriving DecidableEq

inductive RequesterOutput
  | transmitted (msg : Zmsg)
  | received (frame : Frame)
  | /-- A message without a delimiter is dropped. -/
    dropped
  | /-- A send out of turn. -/
    refused
  | /-- A receive out of turn. -/
    failed
  deriving DecidableEq

/-- The head of the loop. -/
def loopHead (again : Nat → Bool) (requestNbr : Nat) : RequesterPc :=
  if again requestNbr then .send requestNbr else .done

/-- One call. -/
def requesterStep (request : Frame) (again : Nat → Bool) (s : RequesterState)
    (e : RequesterEvent) : Option (RequesterState × List RequesterOutput) :=
  match s.pc, e with
  | .send requestNbr, .send =>
      match s.socket.send request with
      | none => some ({ s with pc := .recv requestNbr }, [.refused])
      | some (socket, msg) =>
          some ({ pc := .recv requestNbr, socket := socket }, [.transmitted msg])
  | .recv requestNbr, .recv msg =>
      match s.socket.recv msg with
      | none => none
      | some .dropped => some (s, [.dropped])
      | some .refused => some ({ s with pc := loopHead again (requestNbr + 1) }, [.failed])
      | some (.received frame socket) =>
          some ({ pc := loopHead again (requestNbr + 1), socket := socket }, [.received frame])
  | _, _ => none

/-- A program that sends `request` and receives a frame while `again` of the number of
times it has done so. -/
def requester (request : Frame) (again : Nat → Bool) :
    Machine RequesterState RequesterEvent RequesterOutput where
  init := { pc := loopHead again 0, socket := { receivingReply := false, unread := [] } }
  step := requesterStep request again

/-- The call that comes next. -/
inductive ReplierPc
  | recv
  | send
  deriving DecidableEq

structure ReplierState where
  pc : ReplierPc
  socket : Rep
  deriving DecidableEq

inductive ReplierEvent
  | recv (msg : Option Zmsg)
  | send
  deriving DecidableEq

inductive ReplierOutput
  | received (envelope : Zmsg) (frame : Frame)
  | transmitted (msg : Zmsg)
  | dropped
  | refused
  | failed
  deriving DecidableEq

/-- One call. -/
def replierStep (reply : Frame) (s : ReplierState) (e : ReplierEvent) :
    Option (ReplierState × List ReplierOutput) :=
  match s.pc, e with
  | .recv, .recv msg =>
      match s.socket.recv msg with
      | none => none
      | some .dropped => some (s, [.dropped])
      | some .refused => some ({ s with pc := .send }, [.failed])
      | some (.received frame socket) =>
          some ({ pc := .send, socket := socket }, [.received socket.envelope frame])
  | .send, .send =>
      match s.socket.send reply with
      | none => some ({ s with pc := .recv }, [.refused])
      | some (socket, msg) => some ({ pc := .recv, socket := socket }, [.transmitted msg])
  | _, _ => none

/-- A program that receives a frame and sends `reply`, for ever. -/
def replier (reply : Frame) : Machine ReplierState ReplierEvent ReplierOutput where
  init := { pc := .recv, socket := { sendingReply := false, envelope := [], unread := [] } }
  step := replierStep reply

/-- The calls of a replier. -/
inductive ReplierMoves (reply : Frame) (s : ReplierState) :
    ReplierEvent → ReplierState → List ReplierOutput → Prop
  | drop (msg : Zmsg) (pc : s.pc = .recv) (turn : s.socket.sendingReply = false)
      (unread : s.socket.unread = []) (malformed : openRequest msg = none) :
      ReplierMoves reply s (.recv (some msg)) s [.dropped]
  | first (msg envelope : Zmsg) (part : Frame) (rest : Zmsg) (pc : s.pc = .recv)
      (turn : s.socket.sendingReply = false) (unread : s.socket.unread = [])
      (opens : openRequest msg = some (envelope, part, rest)) :
      ReplierMoves reply s (.recv (some msg))
        { pc := .send, socket := Rep.read envelope rest } [.received envelope part]
  | next (part : Frame) (rest : Zmsg) (pc : s.pc = .recv)
      (turn : s.socket.sendingReply = false) (unread : s.socket.unread = part :: rest) :
      ReplierMoves reply s (.recv none)
        { pc := .send, socket := Rep.read s.socket.envelope rest }
        [.received s.socket.envelope part]
  | fail (pc : s.pc = .recv) (turn : s.socket.sendingReply = true) :
      ReplierMoves reply s (.recv none) { s with pc := .send } [.failed]
  | transmit (pc : s.pc = .send) (turn : s.socket.sendingReply = true) :
      ReplierMoves reply s .send
        { pc := .recv, socket := { s.socket with sendingReply := false } }
        [.transmitted (enclose s.socket.envelope reply)]
  | refuse (pc : s.pc = .send) (turn : s.socket.sendingReply = false) :
      ReplierMoves reply s .send { s with pc := .recv } [.refused]

theorem replierMoves_of_step {reply : Frame} {s t : ReplierState} {e : ReplierEvent}
    {out : List ReplierOutput} (h : (replier reply).step s e = some (t, out)) :
    ReplierMoves reply s e t out := by
  obtain ⟨pc, ⟨sendingReply, envelope, unread⟩⟩ := s
  change replierStep reply _ e = some (t, out) at h
  unfold replierStep at h
  split at h
  case h_1 msg hpc =>
    obtain rfl : pc = .recv := hpc
    simp only [Rep.recv] at h
    split at h
    case h_1 => cases h
    case h_2 hrecv =>
      split at hrecv
      case h_3 other =>
        split at hrecv
        case h_1 malformed =>
          cases h
          exact .drop other rfl rfl rfl malformed
        case h_2 => cases hrecv
      all_goals cases hrecv
    case h_3 hrecv =>
      split at hrecv
      case h_1 =>
        cases h
        exact .fail rfl rfl
      case h_3 =>
        split at hrecv <;> cases hrecv
      all_goals cases hrecv
    case h_4 frame socket hrecv =>
      split at hrecv
      case h_2 =>
        cases hrecv
        cases h
        exact .next _ _ rfl rfl rfl
      case h_3 other =>
        split at hrecv
        case h_1 => cases hrecv
        case h_2 opens =>
          cases hrecv
          cases h
          exact .first other _ _ _ rfl rfl rfl opens
      all_goals cases hrecv
  case h_2 hpc =>
    obtain rfl : pc = .send := hpc
    cases sendingReply with
    | true =>
        cases h
        exact .transmit rfl rfl
    | false =>
        cases h
        exact .refuse rfl rfl
  case h_3 => cases h

/-- The messages that have been taken from the queue. -/
def offered (es : List ReplierEvent) : List Zmsg :=
  es.filterMap fun
    | .recv msg => msg
    | _ => none

/-- The replies that have been transmitted. -/
def replies (os : List ReplierOutput) : List Zmsg :=
  os.filterMap fun
    | .transmitted msg => some msg
    | _ => none

/-- The reply to a request; nothing for a message without a delimiter. -/
def replyTo (reply : Frame) (msg : Zmsg) : Option Zmsg :=
  (openRequest msg).map fun (envelope, _) => enclose envelope reply

/-- The reply that is due, to a message that has been read at least in part. -/
def ReplierState.due (reply : Frame) (s : ReplierState) : List Zmsg :=
  if s.socket.sendingReply ∨ s.socket.unread ≠ [] then [enclose s.socket.envelope reply] else []

/-- A replier is in turn except between the frames of a message. -/
structure Replies (reply : Frame) (es : List ReplierEvent) (os : List ReplierOutput)
    (s : ReplierState) : Prop where
  turn : s.pc = .recv → s.socket.sendingReply = false
  read : s.pc = .send → (s.socket.sendingReply = true ↔ s.socket.unread = [])
  sound : .failed ∉ os
  each : replies os ++ s.due reply = (offered es).filterMap (replyTo reply)

@[simp]
theorem offered_append (es fs : List ReplierEvent) :
    offered (es ++ fs) = offered es ++ offered fs :=
  List.filterMap_append

@[simp]
theorem replies_append (os out : List ReplierOutput) :
    replies (os ++ out) = replies os ++ replies out :=
  List.filterMap_append

theorem due_read (reply : Frame) (envelope rest : Zmsg) (pc : ReplierPc) :
    ReplierState.due reply { pc := pc, socket := Rep.read envelope rest } =
      [enclose envelope reply] := by
  by_cases h : rest = [] <;> simp [ReplierState.due, Rep.read, h]

theorem replies_of_run {reply : Frame} {es : List ReplierEvent} {os : List ReplierOutput}
    {s : ReplierState} (run : (replier reply).Run es os s) : Replies reply es os s := by
  induction run with
  | start => exact ⟨fun _ => rfl, by simp [replier], by simp, rfl⟩
  | @extend es os s t e out prior taken ih =>
      cases replierMoves_of_step taken with
      | drop msg pc turn unread malformed =>
          refine ⟨ih.turn, ih.read, by simpa using ih.sound, ?_⟩
          have each := ih.each
          simp only [replies_append, offered_append, List.filterMap_append, ← each]
          simp [replies, offered, replyTo, malformed]
      | first msg envelope part rest pc turn unread opens =>
          have none : s.due reply = [] := by simp [ReplierState.due, turn, unread]
          have each := ih.each
          rw [none, List.append_nil] at each
          refine ⟨by simp, by simp [Rep.read], by simpa using ih.sound, ?_⟩
          rw [due_read, replies_append, each]
          simp [replies, offered, replyTo, opens]
      | next part rest pc turn unread =>
          have pending : s.due reply = [enclose s.socket.envelope reply] := by
            simp [ReplierState.due, unread]
          have each := ih.each
          rw [pending] at each
          refine ⟨by simp, by simp [Rep.read], by simpa using ih.sound, ?_⟩
          rw [due_read, replies_append, offered_append, List.filterMap_append, ← each]
          simp [replies, offered]
      | fail pc turn => exact absurd ((ih.turn pc).symm.trans turn) Bool.false_ne_true
      | transmit pc turn =>
          have last := (ih.read pc).mp turn
          have pending : s.due reply = [enclose s.socket.envelope reply] := by
            simp [ReplierState.due, turn]
          have each := ih.each
          rw [pending] at each
          refine ⟨fun _ => rfl, by simp, by simpa using ih.sound, ?_⟩
          rw [replies_append, offered_append, List.filterMap_append, ← each]
          simp [replies, offered, ReplierState.due, last]
      | refuse pc turn =>
          refine ⟨fun _ => turn, by simp, by simpa using ih.sound, ?_⟩
          rw [replies_append, offered_append, List.filterMap_append, ← ih.each]
          simp [replies, offered, ReplierState.due]

end Reqrep
