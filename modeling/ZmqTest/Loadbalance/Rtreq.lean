/-
# Request sockets and a router

The broker of `rtreq.c` with its worker threads. A worker sends a request and waits
for the answer until the answer is "exit". The broker reads a request frame by frame
and starts the answer with the identity it has read before it reads the rest; what
it answers depends on the clock, and it leaves its loop after as many "exit" as there
are workers.

On the wire a message of a request socket starts with an empty delimiter, and a
router socket names the peer in front of what it receives and takes the name off
what it sends. Receives do not fail here, and the clock can show anything. That `main`
returns after its loop, without waiting for its threads, is not a step: the workers go on,
and what is true of every state from then on is true whenever the process ends.
-/

import Mathlib.Logic.Function.Basic
import ZmqTest.Base
import ZmqTest.Lib.RollCall

namespace ZmqTest.Rtreq

open RollCall

/-- `NBR_WORKERS`. -/
def nbrWorkers : Nat := 3

/-- The text of every request. -/
def helloText : Frame := [72, 101, 108, 108, 111]

def okText : Frame := [111, 107]

def exitText : Frame := [101, 120, 105, 116]

/-- The worker threads that are started, by the identities of their sockets: no two
are the same, and none has a NUL byte. -/
structure Workers where
  ids : List Frame
  length : ids.length = nbrWorkers
  nodup : ids.Nodup
  ne_nil : ∀ id ∈ ids, id ≠ []
  short : ∀ id ∈ ids, id.length < 256
  text : ∀ id ∈ ids, 0 ∉ id

/-- Workers with the identities "1", "2" and "3". -/
def Workers.digits : Workers where
  ids := [[49], [50], [51]]
  length := rfl
  nodup := by decide
  ne_nil := by decide
  short := by decide
  text := by decide

/-- The call of `s_clock` or `s_recv` that comes next. -/
inductive RtreqPc
  | setup
  | identity
  | delimiter
  | body
  | clock
  | closed
  deriving DecidableEq

structure RtreqState where
  pc : RtreqPc
  endTime : Int
  workersExited : Nat
  str : List UInt8
  /-- The frames of the answer that has been started. -/
  sending : Zmsg
  deriving DecidableEq

/-- A frame is received. The identity is sent on at once, the delimiter when the
request has been read. -/
def rtreqRecv (s : RtreqState) (frame : Frame) : Option RtreqState :=
  let str := sRecv s.str 256 (some frame)
  match s.pc with
  | .identity => some { s with pc := .delimiter, str := str, sending := [cstr str] }
  | .delimiter => some { s with pc := .body, str := str }
  | .body => some { s with pc := .clock, str := str, sending := s.sending ++ [[]] }
  | _ => none

/-- The clock is read: at the start, or to finish an answer, which comes with the
new state. -/
def rtreqClock (s : RtreqState) (now : Int) : Option (RtreqState × Option Zmsg) :=
  match s.pc with
  | .setup => some ({ s with pc := .identity, endTime := now + 500 }, none)
  | .clock =>
      if now < s.endTime then
        some ({ s with pc := .identity, sending := [] }, some (s.sending ++ [okText]))
      else
        let exited := s.workersExited + 1
        some ({ s with
            pc := if exited = nbrWorkers then .closed else .identity
            workersExited := exited
            sending := [] },
          some (s.sending ++ [exitText]))
  | _ => none

/-- The broker when its threads are started. -/
def rtreqInit : RtreqState where
  pc := .setup
  endTime := 0
  workersExited := 0
  str := []
  sending := []

/-- Where `worker_task` stands. -/
inductive WorkerPc
  | send
  | recv
  | finished
  deriving DecidableEq

/-- A worker thread with the channels of its connection. -/
structure WorkerEnd where
  pc : WorkerPc
  total : Nat
  up : List Zmsg
  down : List Zmsg
  deriving DecidableEq

def workerEndInit : WorkerEnd := { pc := .send, total := 0, up := [], down := [] }

/-- A worker sends its request. -/
def WorkerEnd.send (e : WorkerEnd) : Option WorkerEnd :=
  if e.pc = .send then some { e with pc := .recv, up := e.up ++ [[[], helloText]] } else none

/-- A worker receives an answer and looks whether it is "exit". A message without a
delimiter is dropped by its socket. -/
def WorkerEnd.recv (e : WorkerEnd) : Option WorkerEnd :=
  match e.pc, e.down with
  | .recv, ([] :: frame :: _) :: more =>
      if received 256 frame = exitText then some { e with pc := .finished, down := more }
      else some { e with pc := .send, total := e.total + 1, down := more }
  | .recv, _ :: more => some { e with down := more }
  | _, _ => none

structure SystemState where
  broker : RtreqState
  /-- The frames left of the message the broker is reading. -/
  unread : List Frame
  worker : Frame → WorkerEnd

inductive SystemEvent
  | workerSend (worker : Frame)
  | workerRecv (worker : Frame)
  | /-- The broker receives a frame; `peer` is whose message it is when a new one is
    started. -/
    brokerRecv (peer : Frame)
  | brokerClock (now : Int)
  deriving DecidableEq

/-- The requests of the workers and the answers of the broker. -/
abbrev SystemOutput := Entry Frame Frame

/-- A router socket sends to the peer named by the first frame. -/
def SystemState.post (s : SystemState) (workers : Workers) :
    Zmsg → SystemState × List SystemOutput
  | [] => (s, [])
  | identity :: msg =>
      (if identity ∈ workers.ids then
          { s with
            worker := Function.update s.worker identity
              { s.worker identity with down := (s.worker identity).down ++ [msg] } }
        else s,
        [.answered identity (msg.getLastD [])])

/-- One step of the system. The workers take theirs after the broker's last one as well. -/
def systemStep (workers : Workers) (s : SystemState) :
    SystemEvent → Option (SystemState × List SystemOutput)
  | .workerSend worker =>
      if worker ∈ workers.ids then
        (s.worker worker).send.map fun e =>
          ({ s with worker := Function.update s.worker worker e }, [.asked worker])
      else none
  | .workerRecv worker =>
      (s.worker worker).recv.map fun e =>
        ({ s with worker := Function.update s.worker worker e }, [])
  | .brokerRecv peer =>
      match s.unread, (s.worker peer).up with
      | frame :: rest, _ =>
          (rtreqRecv s.broker frame).map fun broker =>
            ({ s with broker := broker, unread := rest }, [])
      | [], msg :: more =>
          (rtreqRecv s.broker peer).map fun broker =>
            ({ broker := broker
               unread := msg
               worker := Function.update s.worker peer { s.worker peer with up := more } }, [])
      | [], [] => none
  | .brokerClock now =>
      match rtreqClock s.broker now with
      | none => none
      | some (broker, none) => some ({ s with broker := broker }, [])
      | some (broker, some msg) => some ({ s with broker := broker }.post workers msg)

/-- The threads have not run yet. -/
def systemInit : SystemState where
  broker := rtreqInit
  unread := []
  worker := fun _ => workerEndInit

/-- The broker of `rtreq.c` with its threads. -/
def system (workers : Workers) : Machine SystemState SystemEvent SystemOutput where
  init := systemInit
  step := systemStep workers

end ZmqTest.Rtreq
