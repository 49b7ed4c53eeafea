/-
# The asynchronous clients and server

The clients of `cs.c` poll for replies and send a numbered request from time to time
without waiting for the last. The server's proxy passes each message whole to one of
the worker threads, with the identity of the client in front, and what a worker sends
back to the client named by its first frame. A worker draws how many replies it sends
and sends them all from the two frames it has popped.

What is on its way through the proxy stands in one network, requests for any worker
and replies for the client they name, so that every order is a run. A counter of
requests that is full cannot be increased. `main` ends the process after five seconds; a
run is what has happened up to any moment before.
-/

import Mathlib.Logic.Function.Basic
import ZmqTest.Base
import ZmqTest.Lib.Decimal
import ZmqTest.Lib.Pool

namespace ZmqTest.Async

open Pool (Place)

/-- The clients with the identities of their sockets. -/
structure Clients (Client : Type) where
  identity : Client → Frame
  distinct : Function.Injective identity

/-- `"request #%d"`. -/
def requestText (requestNbr : Nat) : Frame :=
  [114, 101, 113, 117, 101, 115, 116, 32, 35] ++ decimal requestNbr

/-- Where `_client_task` stands in its loop over the centiticks. -/
inductive ClientPc
  | poll (centitick : Nat)
  | recv (centitick : Nat)
  | send
  deriving DecidableEq

structure ClientState where
  pc : ClientPc
  requestNbr : Nat
  deriving DecidableEq

/-- The end of one centitick. -/
def afterCentitick (centitick : Nat) : ClientPc :=
  if centitick + 1 < 100 then .poll (centitick + 1) else .send

/-- `zmq_poll` over the socket. -/
def clientPoll (s : ClientState) (revents : Bool) : Option ClientState :=
  match s.pc with
  | .poll centitick =>
      some { s with pc := if revents then .recv centitick else afterCentitick centitick }
  | _ => none

/-- A message is received, and its last frame printed. -/
def clientRecv (s : ClientState) : Option ClientState :=
  match s.pc with
  | .recv centitick => some { s with pc := afterCentitick centitick }
  | _ => none

/-- The next request is sent. -/
def clientSend (s : ClientState) : Option (ClientState × Frame) :=
  if s.pc = .send ∧ s.requestNbr < 2147483647 then
    some ({ pc := .poll 0, requestNbr := s.requestNbr + 1 }, requestText (s.requestNbr + 1))
  else none

def clientInit : ClientState := { pc := .poll 0, requestNbr := 0 }

/-- The call of `_server_worker` that comes next. -/
inductive WorkerPc
  | recv
  | sendIdentity
  | sendContent
  | aborted
  deriving DecidableEq

structure WorkerState where
  pc : WorkerPc
  identity : Option Frame
  content : Option Frame
  reply : Nat
  replies : Nat
  /-- The frames of the message that has been started. -/
  sending : Zmsg
  deriving DecidableEq

/-- The head of the loop over the replies; both frames are destroyed behind it. -/
def WorkerState.loop (s : WorkerState) : WorkerState :=
  if s.reply < s.replies then { s with pc := .sendIdentity }
  else { s with pc := .recv, identity := none, content := none }

/-- A message is received and its frames are popped. The number of replies is drawn
when there is a content. -/
def serverWorkerRecv (s : WorkerState) (msg : Zmsg) (value : Random) : WorkerState :=
  let s := { s with identity := msg.head?, content := msg.tail.head?, reply := 0, replies := 0 }
  if s.content = none then { s with pc := .aborted }
  else WorkerState.loop { s with replies := randof 5 value }

/-- One of the two frames is sent; the second one finishes a message. -/
def serverWorkerSend (s : WorkerState) : Option (WorkerState × Option Zmsg) :=
  match s.pc, s.identity, s.content with
  | .sendIdentity, some identity, _ =>
      some ({ s with pc := .sendContent, sending := s.sending ++ [identity] }, none)
  | .sendContent, _, some content =>
      some (WorkerState.loop { s with reply := s.reply + 1, sending := [] },
        some (s.sending ++ [content]))
  | _, _, _ => none

def workerInit : WorkerState where
  pc := .recv
  identity := none
  content := none
  reply := 0
  replies := 0
  sending := []

structure SystemState (Client Worker : Type) where
  client : Client → ClientState
  worker : Worker → WorkerState
  net : Network Place Zmsg

inductive SystemEvent (Client Worker : Type)
  | clientPoll (client : Client) (revents : Bool)
  | clientRecv (client : Client) (index : Nat)
  | clientSend (client : Client)
  | workerRecv (worker : Worker) (index : Nat) (value : Random)
  | workerSend (worker : Worker)

inductive SystemOutput (Client Worker : Type)
  | requested (client : Client) (body : Frame)
  | handled (worker : Worker) (msg : Zmsg) (replies : Nat)
  | replied (worker : Worker) (msg : Zmsg)
  | received (client : Client) (msg : Zmsg)
  deriving DecidableEq

variable {Client Worker : Type} [DecidableEq Client] [DecidableEq Worker]

/-- One step of a client or of a worker. -/
def systemStep (clients : Clients Client) (s : SystemState Client Worker) :
    SystemEvent Client Worker →
      Option (SystemState Client Worker × List (SystemOutput Client Worker))
  | .clientPoll client revents =>
      (clientPoll (s.client client) revents).map fun c =>
        ({ s with client := Function.update s.client client c }, [])
  | .clientRecv client index =>
      match clientRecv (s.client client), s.net.pick .answered index with
      | some c, some (address :: msg, left) =>
          -- the router finds the client by the first frame and takes it off
          if address = clients.identity client then
            some ({ s with client := Function.update s.client client c, net := left },
              [.received client msg])
          else none
      | _, _ => none
  | .clientSend client =>
      (clientSend (s.client client)).map fun (c, body) =>
        ({ s with
            client := Function.update s.client client c
            net := s.net.send .posted [clients.identity client, body] },
          [.requested client body])
  | .workerRecv worker index value =>
      match (s.worker worker).pc, s.net.pick .posted index with
      | .recv, some (msg, left) =>
          let w := serverWorkerRecv (s.worker worker) msg value
          some ({ s with worker := Function.update s.worker worker w, net := left },
            [.handled worker msg w.replies])
      | _, _ => none
  | .workerSend worker =>
      match serverWorkerSend (s.worker worker) with
      | none => none
      | some (w, none) =>
          some ({ s with worker := Function.update s.worker worker w }, [])
      | some (w, some msg) =>
          some ({ s with
              worker := Function.update s.worker worker w
              net := s.net.send .answered msg },
            [.replied worker msg])

/-- Nothing has been sent. -/
def systemInit : SystemState Client Worker where
  client := fun _ => clientInit
  worker := fun _ => workerInit
  net := []

/-- The clients and the workers behind the proxy. -/
def system (Worker : Type) [DecidableEq Worker] (clients : Clients Client) :
    Machine (SystemState Client Worker) (SystemEvent Client Worker)
      (SystemOutput Client Worker) where
  init := systemInit
  step := systemStep clients

end ZmqTest.Async
