/-
# Clients that say Hello to workers

The request-reply programs of the repository have one shape. Clients send a text a number
of times on request sockets and wait for a frame each time; workers receive a frame and
send a text on reply sockets, for ever; between them stands something that carries the
messages, a router socket for the clients and a dealer socket for the workers. A router
names the client in front of what it receives, and finds the client by the first frame
of what it sends. A dealer hands a message to any of the workers.

What has come out between the ends stands in a network, requests for any worker and
replies for the client they name. Receives are not interrupted.
-/

import Mathlib.Data.Finset.Basic
import ZmqTest.Lib.Conduit
import ZmqTest.Lib.Network
import ZmqTest.Lib.Reqrep

namespace ZmqTest.Hello

open Reqrep

/-- The two ways of a message. -/
inductive Leg
  | request
  | reply
  deriving DecidableEq

/-- A message with its way. -/
abbrev Packet := Leg × Zmsg

/-- What the clients and the workers send, and how often a client does. -/
structure Programs where
  request : Frame
  reply : Frame
  /-- The condition of the client's loop. -/
  again : Nat → Bool
  limit : Nat
  loops : ∀ requestNbr ≤ limit, again requestNbr = decide (requestNbr < limit)

/-- The identities that the router gives to its peers; none of them is empty. -/
structure Clients where
  identities : Finset Frame
  nonempty : [] ∉ identities

structure SystemState (Inside Worker : Type) where
  client : Frame → RequesterState
  worker : Worker → ReplierState
  /-- What stands between the ends. -/
  inside : Inside
  net : Network Leg Zmsg

inductive SystemEvent (Move Worker : Type)
  | clientSend (client : Frame)
  | /-- A receive; `index` is the place of the message, when one is taken. -/
    clientRecv (client : Frame) (index : Option Nat)
  | workerRecv (worker : Worker) (index : Option Nat)
  | workerSend (worker : Worker)
  | carry (move : Move)
  deriving DecidableEq

inductive SystemOutput (Worker : Type)
  | client (client : Frame) (o : RequesterOutput)
  | worker (worker : Worker) (o : ReplierOutput)
  deriving DecidableEq

/-- What the router receives from a client. -/
def request? (client : Frame) : RequesterOutput → Option Packet
  | .transmitted msg => some (.request, client :: msg)
  | _ => none

/-- What the dealer receives from a worker. -/
def reply? : ReplierOutput → Option Packet
  | .transmitted msg => some (.reply, msg)
  | _ => none

section

variable {Inside Move Worker : Type} [DecidableEq Worker]

/-- A call of a client; `left` is what is left in the network. -/
def byClient (programs : Programs) (conduit : Conduit Inside Move Packet)
    (s : SystemState Inside Worker) (client : Frame) (e : RequesterEvent)
    (left : Network Leg Zmsg) :
    Option (SystemState Inside Worker × List (SystemOutput Worker)) :=
  match requesterStep programs.request programs.again (s.client client) e with
  | none => none
  | some (c, out) =>
      some ({ s with
          client := Function.update s.client client c
          inside := (out.filterMap (request? client)).foldl conduit.accept s.inside
          net := left },
        out.map (.client client))

/-- A call of a worker. -/
def byWorker (programs : Programs) (conduit : Conduit Inside Move Packet)
    (s : SystemState Inside Worker) (worker : Worker) (e : ReplierEvent)
    (left : Network Leg Zmsg) :
    Option (SystemState Inside Worker × List (SystemOutput Worker)) :=
  match replierStep programs.reply (s.worker worker) e with
  | none => none
  | some (w, out) =>
      some ({ s with
          worker := Function.update s.worker worker w
          inside := (out.filterMap reply?).foldl conduit.accept s.inside
          net := left },
        out.map (.worker worker))

/-- One step of a client, of a worker, or between them. -/
def systemStep (programs : Programs) (clients : Clients) (conduit : Conduit Inside Move Packet)
    (s : SystemState Inside Worker) :
    SystemEvent Move Worker →
      Option (SystemState Inside Worker × List (SystemOutput Worker))
  | .clientSend client =>
      if client ∈ clients.identities then byClient programs conduit s client .send s.net else none
  | .clientRecv client none =>
      if client ∈ clients.identities then byClient programs conduit s client (.recv none) s.net
      else none
  | .clientRecv client (some index) =>
      match s.net.pick .reply index with
      | some (address :: msg, left) =>
          if address = client then byClient programs conduit s client (.recv (some msg)) left
          else none
      | _ => none
  | .workerRecv worker none => byWorker programs conduit s worker (.recv none) s.net
  | .workerRecv worker (some index) =>
      match s.net.pick .request index with
      | some (msg, left) => byWorker programs conduit s worker (.recv (some msg)) left
      | none => none
  | .workerSend worker => byWorker programs conduit s worker .send s.net
  | .carry move =>
      match conduit.step s.inside move with
      | none => none
      | some (inside, out) => some ({ s with inside := inside, net := s.net ++ out }, [])

/-- The clients, the workers and what stands between them. -/
def system (Worker : Type) [DecidableEq Worker] (programs : Programs) (clients : Clients)
    (conduit : Conduit Inside Move Packet) :
    Machine (SystemState Inside Worker) (SystemEvent Move Worker) (SystemOutput Worker) where
  init :=
    { client := fun _ => (requester programs.request programs.again).init
      worker := fun _ => (replier programs.reply).init
      inside := conduit.init
      net := [] }
  step := systemStep programs clients conduit

variable {programs : Programs} {clients : Clients} {conduit : Conduit Inside Move Packet}
  {s t : SystemState Inside Worker} {left : Network Leg Zmsg}
  {out : List (SystemOutput Worker)}

omit [DecidableEq Worker] in
theorem byClient_eq_some {client : Frame} {e : RequesterEvent}
    (h : byClient programs conduit s client e left = some (t, out)) :
    ∃ c os, requesterStep programs.request programs.again (s.client client) e = some (c, os) ∧
      t = { s with
        client := Function.update s.client client c
        inside := (os.filterMap (request? client)).foldl conduit.accept s.inside
        net := left } ∧
      out = os.map (.client client) := by
  unfold byClient at h
  split at h
  case h_1 => cases h
  case h_2 c os taken =>
    cases h
    exact ⟨c, os, taken, rfl, rfl⟩

theorem byWorker_eq_some {worker : Worker} {e : ReplierEvent}
    (h : byWorker programs conduit s worker e left = some (t, out)) :
    ∃ w os, replierStep programs.reply (s.worker worker) e = some (w, os) ∧
      t = { s with
        worker := Function.update s.worker worker w
        inside := (os.filterMap reply?).foldl conduit.accept s.inside
        net := left } ∧
      out = os.map (.worker worker) := by
  unfold byWorker at h
  split at h
  case h_1 => cases h
  case h_2 w os taken =>
    cases h
    exact ⟨w, os, taken, rfl, rfl⟩

/-- The steps of the system: a call of a client or of a worker, with what it takes from the
network, or a step between them. -/
inductive SystemMoves (programs : Programs) (clients : Clients)
    (conduit : Conduit Inside Move Packet) (s : SystemState Inside Worker) :
    SystemEvent Move Worker → SystemState Inside Worker → List (SystemOutput Worker) → Prop
  | clientSend (client : Frame) {t out} (known : client ∈ clients.identities)
      (taken : byClient programs conduit s client .send s.net = some (t, out)) :
      SystemMoves programs clients conduit s (.clientSend client) t out
  | clientReads (client : Frame) {t out}
      (taken : byClient programs conduit s client (.recv none) s.net = some (t, out)) :
      SystemMoves programs clients conduit s (.clientRecv client none) t out
  | clientRecv (client : Frame) (index : Nat) (msg : Zmsg) (left : Network Leg Zmsg) {t out}
      (picked : s.net.Perm ((.reply, client :: msg) :: left))
      (taken : byClient programs conduit s client (.recv (some msg)) left = some (t, out)) :
      SystemMoves programs clients conduit s (.clientRecv client (some index)) t out
  | workerReads (worker : Worker) {t out}
      (taken : byWorker programs conduit s worker (.recv none) s.net = some (t, out)) :
      SystemMoves programs clients conduit s (.workerRecv worker none) t out
  | workerRecv (worker : Worker) (index : Nat) (msg : Zmsg) (left : Network Leg Zmsg) {t out}
      (picked : s.net.Perm ((.request, msg) :: left))
      (taken : byWorker programs conduit s worker (.recv (some msg)) left = some (t, out)) :
      SystemMoves programs clients conduit s (.workerRecv worker (some index)) t out
  | workerSend (worker : Worker) {t out}
      (taken : byWorker programs conduit s worker .send s.net = some (t, out)) :
      SystemMoves programs clients conduit s (.workerSend worker) t out
  | carry (move : Move) {inside : Inside} {packets : List Packet}
      (taken : conduit.step s.inside move = some (inside, packets)) :
      SystemMoves programs clients conduit s (.carry move)
        { s with inside := inside, net := s.net ++ packets } []

theorem systemMoves_of_step {e : SystemEvent Move Worker}
    (h : (system Worker programs clients conduit).step s e = some (t, out)) :
    SystemMoves programs clients conduit s e t out := by
  change systemStep programs clients conduit s e = some (t, out) at h
  unfold systemStep at h
  split at h
  case h_1 client =>
    split at h
    case isTrue known => exact .clientSend client known h
    case isFalse => cases h
  case h_2 client =>
    split at h
    case isTrue => exact .clientReads client h
    case isFalse => cases h
  case h_3 client index =>
    split at h
    case h_1 address msg left hpick =>
      split at h
      case isTrue heq =>
        subst address
        exact .clientRecv client index msg left (Network.perm_of_pick hpick) h
      case isFalse => cases h
    case h_2 => cases h
  case h_4 worker => exact .workerReads worker h
  case h_5 worker index =>
    split at h
    case h_1 msg left hpick =>
      exact .workerRecv worker index msg left (Network.perm_of_pick hpick) h
    case h_2 => cases h
  case h_6 worker => exact .workerSend worker h
  case h_7 move =>
    split at h
    case h_1 => cases h
    case h_2 inside packets taken =>
      cases h
      exact .carry move taken

end

end ZmqTest.Hello
