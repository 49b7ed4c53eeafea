/-
# A cloud of brokers

Any number of brokers of `lcflow.c` with their clients and workers, and the
messages between them. A broker is known by its name, and the brokers whose
command lines name each other are connected: the `cloudbe` of either to the
`cloudfe` of the other, both under the broker's name. A router socket names the
peer in front of what it receives and takes the name off what it sends. A worker
has a request socket, which takes the delimiter off and puts it back.

A message carries the request it is about, which no program looks at. It stays
with the message a broker has read while that broker sends it on. Messages may
be lost anywhere.
-/

import Mathlib.Logic.Function.Basic
import ZmqTest.Cloud.Lcflow
import ZmqTest.Lib.Network

namespace ZmqTest.Cloud

/-- The command lines. Names are not empty and do not start with the READY byte,
and whom a broker names is a broker that names it too. -/
structure Topology where
  names : List Frame
  peers : Frame → List Frame
  named : ∀ name ∈ names, name ≠ [] ∧ Frame.startsWith name 1 = false
  listed : ∀ name ∈ names, ∀ peer ∈ peers name, peer ∈ names ∧ name ∈ peers peer

def Topology.argv (cloud : Topology) (name : Frame) : Argv :=
  { self := name, peers := cloud.peers name }

@[simp]
theorem Topology.argv_peers (cloud : Topology) (name : Frame) :
    (cloud.argv name).peers = cloud.peers name := rfl

/-- The identity of a client is not empty, does not start with the READY byte and
is not the name of a broker. -/
def Topology.IsClient (cloud : Topology) (client : Frame) : Prop :=
  client ≠ [] ∧ Frame.startsWith client 1 = false ∧ client ∉ cloud.names

instance (cloud : Topology) (client : Frame) : Decidable (cloud.IsClient client) :=
  inferInstanceAs (Decidable (client ≠ [] ∧ Frame.startsWith client 1 = false ∧
    client ∉ cloud.names))

/-- A request, as its client sent it: where, who, which and what. -/
structure Request where
  origin : Frame
  client : Frame
  serial : Nat
  body : Zmsg
  deriving DecidableEq

/-- A message with the request it is about. -/
structure Parcel where
  frames : Zmsg
  request : Option Request
  deriving DecidableEq

/-- Where a message is: on its way to a socket of a broker or to a client or
worker of a broker, or in the hands of a worker. The peer of a cloud socket is
the broker at the other end. -/
inductive Loc
  | localfe (broker client : Frame)
  | localbe (broker worker : Frame)
  | cloudfe (broker peer : Frame)
  | cloudbe (broker peer : Frame)
  | client (broker client : Frame)
  | worker (broker worker : Frame)
  | working (broker worker : Frame)
  deriving DecidableEq

structure SystemState where
  broker : Frame → LcflowState
  started : Frame × Frame → Bool
  net : Network Loc Parcel
  serial : Nat

inductive SystemEvent
  | clientSend (broker client : Frame) (body : Zmsg)
  | clientRecv (broker client : Frame)
  | workerStart (broker worker : Frame)
  | workerTakes (broker worker : Frame)
  | /-- A worker answers, with `last` in place of the last frame. -/
    workerAnswers (broker worker : Frame) (last : Frame)
  | /-- A broker polls, or its receive is interrupted. -/
    poll (broker : Frame) (e : LcflowEvent)
  | /-- A broker reads the next message of a peer from the socket it waits at. -/
    recv (broker peer : Frame) (draws : Draws)
  | lose (index : Nat)
  deriving DecidableEq

inductive SystemOutput
  | asked (request : Request)
  | /-- A message goes from the `cloudbe` of a broker to the `cloudfe` of another. -/
    crossed (source target : Frame) (parcel : Parcel)
  | answered (broker client : Frame) (parcel : Parcel)
  deriving DecidableEq

/-- What a router socket of a broker makes of a message: the first frame names
the peer. -/
def Topology.route (cloud : Topology) (name : Frame) (request : Option Request) :
    LcflowEffect → Option (Loc × Parcel)
  | .toLocalbe (worker :: frames) => some (.worker name worker, ⟨frames, request⟩)
  | .toLocalfe (client :: frames) => some (.client name client, ⟨frames, request⟩)
  | .toCloudbe (peer :: frames) =>
      if peer ∈ cloud.peers name then some (.cloudfe peer name, ⟨frames, request⟩) else none
  | .toCloudfe (peer :: frames) =>
      if name ∈ cloud.peers peer then some (.cloudbe peer name, ⟨frames, request⟩) else none
  | _ => none

/-- A message to another broker's `cloudfe` is noted. -/
def note : Loc × Parcel → Option SystemOutput
  | (.cloudfe target source, parcel) => some (.crossed source target parcel)
  | _ => none

/-- The socket a broker reads from, and the peer's end of it. -/
def LcflowPc.inbox (broker peer : Frame) : LcflowPc → Option Loc
  | .localfe => some (.localfe broker peer)
  | .localbe => some (.localbe broker peer)
  | .cloudfe => some (.cloudfe broker peer)
  | .cloudbe => some (.cloudbe broker peer)
  | _ => none

/-- Does the event take a message from a socket? -/
def LcflowEvent.receives : LcflowEvent → Bool
  | .recv (some _) _ => true
  | _ => false

/-- A broker takes a step with `net` left of the messages; what it sends is about
`request`. -/
def Topology.stepBroker (cloud : Topology) (s : SystemState) (net : Network Loc Parcel)
    (name : Frame) (request : Option Request) (e : LcflowEvent) :
    Option (SystemState × List SystemOutput) :=
  match lcflowStep (cloud.argv name) (s.broker name) e with
  | none => none
  | some (next, out) =>
      some ({ s with
          broker := Function.update s.broker name next
          net := net ++ out.filterMap (cloud.route name request) },
        (out.filterMap (cloud.route name request)).filterMap note)

/-- A broker reads the next message of a peer. -/
def Topology.recv (cloud : Topology) (s : SystemState) (name peer : Frame) (draws : Draws) :
    Option (SystemState × List SystemOutput) :=
  match (s.broker name).pc.inbox name peer with
  | none => none
  | some loc =>
      match s.net.recv loc with
      | none => none
      | some (parcel, net) =>
          cloud.stepBroker s net name parcel.request (.recv (some (peer :: parcel.frames)) draws)

/-- A client sends a request. -/
def SystemState.clientSend (s : SystemState) (broker client : Frame) (body : Zmsg) :
    SystemState × List SystemOutput :=
  let request : Request := { origin := broker, client := client, serial := s.serial, body := body }
  ({ s with
      net := s.net.send (.localfe broker client) ⟨body, some request⟩
      serial := s.serial + 1 },
    [.asked request])

/-- A worker takes the next request when it has none. -/
def SystemState.workerTakes (s : SystemState) (broker worker : Frame) : Option SystemState :=
  if s.started (broker, worker) ∧ s.net.contents (.working broker worker) = [] then
    match s.net.recv (.worker broker worker) with
    | some (⟨[] :: frames, request⟩, net) =>
        some { s with net := net.send (.working broker worker) ⟨frames, request⟩ }
    | some (_, net) => some { s with net := net }
    | none => none
  else none

/-- A worker answers its request with the same frames and the last one replaced. -/
def SystemState.workerAnswers (s : SystemState) (broker worker last : Frame) :
    Option SystemState :=
  match s.net.recv (.working broker worker) with
  | some (parcel, net) =>
      some { s with
        net := net.send (.localbe broker worker)
          ⟨[] :: parcel.frames.resetLast last, parcel.request⟩ }
  | none => none

/-- One step of the system. -/
def systemStep (cloud : Topology) (s : SystemState) :
    SystemEvent → Option (SystemState × List SystemOutput)
  | .clientSend broker client body =>
      if broker ∈ cloud.names ∧ cloud.IsClient client ∧ body ≠ [] then
        some (s.clientSend broker client body)
      else none
  | .clientRecv broker client =>
      match s.net.recv (.client broker client) with
      | none => none
      | some (parcel, net) => some ({ s with net := net }, [.answered broker client parcel])
  | .workerStart broker worker =>
      if broker ∈ cloud.names ∧ s.started (broker, worker) = false then
        some ({ s with
            started := Function.update s.started (broker, worker) true
            net := s.net.send (.localbe broker worker) ⟨[[], workerReady], none⟩ }, [])
      else none
  | .workerTakes broker worker => (s.workerTakes broker worker).map (·, [])
  | .workerAnswers broker worker last => (s.workerAnswers broker worker last).map (·, [])
  | .poll broker e =>
      if broker ∈ cloud.names ∧ e.receives = false then cloud.stepBroker s s.net broker none e
      else none
  | .recv broker peer draws =>
      if broker ∈ cloud.names then cloud.recv s broker peer draws else none
  | .lose index => some ({ s with net := s.net.eraseIdx index }, [])

/-- The brokers have not begun their loops. -/
def systemInit : SystemState where
  broker := fun _ => lcflowInit
  started := fun _ => false
  net := []
  serial := 0

/-- The cloud with its clients and workers. -/
def system (cloud : Topology) : Machine SystemState SystemEvent SystemOutput where
  init := systemInit
  step := systemStep cloud

end ZmqTest.Cloud
