/-
# Clients and workers around the broker

`rrb/client.c` and `rrb/worker.c` on both sides of `rrb/broker.c`. What an end sends is on
its way until it arrives at the broker, whole and in any order; the broker relays it
frame by frame, and what it sends comes out when the last frame of a message has been
sent. The broker polls without a timeout: the poll returns when a message waits, and a
socket it finds readable has one.

Read as a conduit, the broker holds the messages on their way to it and those it has not
sent to their end. It has something to do as long as it holds one.
-/

import ZmqTest.Hello.Completion
import ZmqTest.Rrb.Broker

namespace ZmqTest.Rrb

open Framing Hello

/-- `"Hello"`. -/
def request : Frame := [72, 101, 108, 108, 111]

/-- `"World!"`. -/
def reply : Frame := [87, 111, 114, 108, 100, 33]

/-- The condition of the loop of `rrb/client.c`. -/
def again (requestNbr : Nat) : Bool := requestNbr < 10

/-- `rrb/client.c`. -/
def client : Machine Reqrep.RequesterState Reqrep.RequesterEvent Reqrep.RequesterOutput :=
  Reqrep.requester request again

/-- `rrb/worker.c`. -/
def worker : Machine Reqrep.ReplierState Reqrep.ReplierEvent Reqrep.ReplierOutput :=
  Reqrep.replier reply

def programs : Programs where
  request := request
  reply := reply
  again := again
  limit := 10
  loops := fun _ _ => rfl

/-- The socket at which messages of a way arrive. -/
def side : Leg → Side
  | .request => .frontend
  | .reply => .backend

/-- The way of what is sent on a socket. -/
def leg : Side → Leg
  | .frontend => .reply
  | .backend => .request

structure BrokerEnds where
  /-- The messages on their way to the broker. -/
  flight : List Packet
  broker : BrokerState
  /-- The frames that have been sent on a socket, of a message that is not complete. -/
  opened : Side → Zmsg

inductive BrokerMove
  | arrive (index : Nat)
  | poll (revents0 revents1 : Bool)
  | pass
  deriving DecidableEq

/-- What is sent is put together; a complete message comes out. -/
def collect (opened : Side → Zmsg) : List BrokerOutput → (Side → Zmsg) × List Packet
  | [] => (opened, [])
  | .received _ _ :: rest => collect opened rest
  | .sent side (frame, true) :: rest =>
      collect (Function.update opened side (opened side ++ [frame])) rest
  | .sent side (frame, false) :: rest =>
      let (opened', out) := collect (Function.update opened side []) rest
      (opened', (leg side, opened side ++ [frame]) :: out)

/-- The poll returns when it has something to say, and says nothing wrong. -/
def Readable (s : BrokerState) (revents0 revents1 : Bool) : Prop :=
  (revents0 = true ∨ revents1 = true) ∧ (revents0 = true → s.waiting .frontend ≠ []) ∧
    (revents1 = true → s.waiting .backend ≠ [])

instance (s : BrokerState) (revents0 revents1 : Bool) : Decidable (Readable s revents0 revents1) :=
  inferInstanceAs (Decidable (_ ∧ _ ∧ _))

/-- One step of the broker, or the arrival of a message. -/
def endsStep (s : BrokerEnds) : BrokerMove → Option (BrokerEnds × List Packet)
  | .arrive index =>
      match s.flight[index]? with
      | none => none
      | some (way, msg) =>
          match brokerStep s.broker (.arrive (side way) msg) with
          | none => none
          | some (broker, _) =>
              some ({ s with flight := s.flight.eraseIdx index, broker := broker }, [])
  | .poll revents0 revents1 =>
      if Readable s.broker revents0 revents1 then
        match brokerStep s.broker (.poll revents0 revents1) with
        | none => none
        | some (broker, _) => some ({ s with broker := broker }, [])
      else none
  | .pass =>
      match brokerStep s.broker .pass with
      | none => none
      | some (broker, sent) =>
          let (opened, out) := collect s.opened sent
          some ({ s with broker := broker, opened := opened }, out)

def endsInit : BrokerEnds := { flight := [], broker := brokerInit, opened := fun _ => [] }

/-- Where the macro leaves. -/
def BrokerPc.next : BrokerPc → BrokerPc
  | .frontend revents1 => afterFrontend revents1
  | _ => .poll

/-- The steps between the peers. -/
inductive EndsMoves (s : BrokerEnds) : BrokerMove → BrokerEnds → List Packet → Prop
  | arrive (index : Nat) (way : Leg) (msg : Zmsg) (hne : msg ≠ [])
      (picked : s.flight.Perm ((way, msg) :: s.flight.eraseIdx index)) :
      EndsMoves s (.arrive index)
        { s with
          flight := s.flight.eraseIdx index
          broker := { s.broker with
            waiting := Function.update s.broker.waiting (side way)
              (s.broker.waiting (side way) ++ flagged msg) } } []
  | poll (revents0 revents1 : Bool) (readable : Readable s.broker revents0 revents1)
      (pc : s.broker.pc = .poll) :
      EndsMoves s (.poll revents0 revents1)
        { s with broker := { s.broker with pc := afterPoll revents0 revents1 } } []
  | more (source : Side) (frame : Frame) (rest : List Part)
      (serves : s.broker.pc.serves = some source)
      (waits : s.broker.waiting source = (frame, true) :: rest) :
      EndsMoves s .pass
        { s with
          broker := { s.broker with waiting := Function.update s.broker.waiting source rest }
          opened :=
            Function.update s.opened source.other (s.opened source.other ++ [frame]) } []
  | last (source : Side) (frame : Frame) (rest : List Part)
      (serves : s.broker.pc.serves = some source)
      (waits : s.broker.waiting source = (frame, false) :: rest) :
      EndsMoves s .pass
        { s with
          broker :=
            { pc := s.broker.pc.next
              waiting := Function.update s.broker.waiting source rest }
          opened := Function.update s.opened source.other [] }
        [(leg source.other, s.opened source.other ++ [frame])]

/-- In the macro, the next step is a pass over the socket that is served. -/
theorem brokerStep_pass {s : BrokerState} {source : Side} (serves : s.pc.serves = some source) :
    brokerStep s .pass = onPass s source s.pc.next := by
  obtain ⟨pc, waiting⟩ := s
  cases pc with
  | poll => cases serves
  | frontend revents1 =>
      obtain rfl : Side.frontend = source := Option.some.inj serves
      rfl
  | backend =>
      obtain rfl : Side.backend = source := Option.some.inj serves
      rfl

theorem endsMoves_of_step {s t : BrokerEnds} {move : BrokerMove} {out : List Packet}
    (h : endsStep s move = some (t, out)) : EndsMoves s move t out := by
  unfold endsStep at h
  split at h
  case h_1 index =>
    split at h
    case h_1 => cases h
    case h_2 way msg hget =>
      by_cases hne : msg = []
      · simp [brokerStep, hne] at h
      · simp only [brokerStep, hne, if_false, Option.some.injEq, Prod.mk.injEq] at h
        obtain ⟨rfl, rfl⟩ := h
        obtain ⟨hlt, hget⟩ := List.getElem?_eq_some_iff.mp hget
        refine .arrive index way msg hne ?_
        rw [← hget]
        exact (List.getElem_cons_eraseIdx_perm hlt).symm
  case h_2 revents0 revents1 =>
    split at h
    case isTrue readable =>
      cases hpc : s.broker.pc with
      | poll =>
          simp only [brokerStep, hpc, Option.some.injEq, Prod.mk.injEq] at h
          obtain ⟨rfl, rfl⟩ := h
          exact .poll revents0 revents1 readable hpc
      | _ => simp [brokerStep, hpc] at h
    case isFalse => cases h
  case h_3 =>
    cases hserves : s.broker.pc.serves with
    | none =>
        cases hpc : s.broker.pc with
        | poll => simp [brokerStep, hpc] at h
        | frontend revents1 => simp [hpc, BrokerPc.serves] at hserves
        | backend => simp [hpc, BrokerPc.serves] at hserves
    | some source =>
        rw [brokerStep_pass hserves, onPass] at h
        cases waits : s.broker.waiting source with
        | nil => simp [waits] at h
        | cons part rest =>
            obtain ⟨frame, more⟩ := part
            rw [waits] at h
            cases more with
            | true =>
                simp only [Option.some.injEq, Prod.mk.injEq] at h
                obtain ⟨rfl, rfl⟩ := h
                exact .more source frame rest hserves waits
            | false =>
                simp only [Option.some.injEq, Prod.mk.injEq] at h
                obtain ⟨rfl, rfl⟩ := h
                exact .last source frame rest hserves waits

end ZmqTest.Rrb
