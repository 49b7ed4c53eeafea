/-
# The load balancer that reads frame by frame

`lbbroker.c` receives every frame with a call of its own and never asks whether
a message has more frames: what the next frame is follows from where the program
stands. The available workers are C strings in an array of ten pointers with a
counter beside it; taking the first one moves the others down. A READY is told
from a reply by the first character of its third frame.
-/

import ZmqTest.Base
import ZmqTest.Lib.Machine

namespace ZmqTest.Loadbalance

/-- `NBR_CLIENTS`. -/
def nbrClients : Nat := 10

/-- `NBR_WORKERS`. -/
def nbrWorkers : Nat := 3

/-- The call of `s_recv` or `zmq_poll` that comes next. Within the backend
branch `items[1].revents` is remembered. -/
inductive LbbrokerPc
  | poll
  | workerId (revents1 : Bool)
  | backendEmpty (revents1 : Bool)
  | backendClientId (revents1 : Bool)
  | replyEmpty (revents1 : Bool)
  | reply (revents1 : Bool)
  | frontendClientId
  | requestEmpty
  | request
  | /-- Left through `--client_nbr==0`. -/
    done
  | /-- Left through an error of `zmq_poll`. -/
    stopped
  | /-- A failing assertion, or `strlen` of a null pointer. -/
    aborted
  deriving DecidableEq

/-- The variables of `main`. A buffer is the bytes written to it so far. -/
structure LbbrokerState where
  pc : LbbrokerPc
  availableWorkers : Nat
  workerQueue : List (Option (List UInt8))
  clientNbr : Int
  empty : List UInt8
  workerId : List UInt8
  clientId : List UInt8
  msg : List UInt8
  deriving DecidableEq

inductive LbbrokerEvent
  | /-- `zmq_poll`: an error, or the readiness of the backend and the frontend. -/
    poll (rc : Option (Bool × Bool))
  | /-- `s_recv`; `none` is a failed receive. -/
    recv (frame : Option Frame)
  deriving DecidableEq

inductive LbbrokerEffect
  | toBackend (msg : Zmsg)
  | toFrontend (msg : Zmsg)
  deriving DecidableEq

/-- `DEQUEUE`: all pointers but the first move down by one place. -/
def dequeue (queue : List (Option (List UInt8))) : List (Option (List UInt8)) :=
  queue.drop 1 ++ queue.drop (queue.length - 1)

/-- `zmq_poll` over two items when a worker is available and over one otherwise;
the item that is not polled keeps `revents` zero. -/
def afterPoll (available revents0 revents1 : Bool) : LbbrokerPc :=
  let revents1 := revents1 && available
  if revents0 then .workerId revents1 else if revents1 then .frontendClientId else .poll

/-- Where the backend branch ends. -/
def afterBackend (revents1 : Bool) : LbbrokerPc :=
  if revents1 then .frontendClientId else .poll

/-- `_recv_empty`, and on to `next` when the assertion holds. -/
def recvEmpty (s : LbbrokerState) (frame : Option Frame) (next : LbbrokerPc) : LbbrokerState :=
  let empty := sRecv s.empty 2 frame
  if empty.headD 0 = 0 then { s with empty := empty, pc := next }
  else { s with empty := empty, pc := .aborted }

/-- The identity of a worker is received and entered into the array. -/
def onWorkerId (s : LbbrokerState) (revents1 : Bool) (frame : Option Frame) : LbbrokerState :=
  let workerId := sRecv s.workerId 256 frame
  if s.availableWorkers < nbrWorkers then
    { s with
      pc := .backendEmpty revents1
      workerId := workerId
      workerQueue := s.workerQueue.set s.availableWorkers (some (cstr workerId))
      availableWorkers := s.availableWorkers + 1 }
  else { s with workerId := workerId, pc := .aborted }

/-- The third frame: a READY starts with `w`, anything else is a client. -/
def onBackendClientId (s : LbbrokerState) (revents1 : Bool) (frame : Option Frame) :
    LbbrokerState :=
  let clientId := sRecv s.clientId 256 frame
  if clientId.headD 0 ≠ 119 then { s with clientId := clientId, pc := .replyEmpty revents1 }
  else { s with clientId := clientId, pc := afterBackend revents1 }

/-- The body of a reply: forward it and count it. -/
def onReply (s : LbbrokerState) (revents1 : Bool) (frame : Option Frame) :
    LbbrokerState × List LbbrokerEffect :=
  let msg := sRecv s.msg 256 frame
  ({ s with
      msg := msg
      clientNbr := s.clientNbr - 1
      pc := if s.clientNbr - 1 = 0 then .done else afterBackend revents1 },
    [.toFrontend (sSendlists [(s.clientId, 0), ([], 0), (msg, 0)])])

/-- The body of a request: send it to the first worker of the array. -/
def onRequest (s : LbbrokerState) (frame : Option Frame) : LbbrokerState × List LbbrokerEffect :=
  let msg := sRecv s.msg 256 frame
  match s.workerQueue.head?.join with
  | none => ({ s with msg := msg, pc := .aborted }, [])
  | some worker =>
      ({ s with
          msg := msg
          workerQueue := dequeue s.workerQueue
          availableWorkers := s.availableWorkers - 1
          pc := .poll },
        [.toBackend (sSendlists [(worker, 0), ([], 0), (s.clientId, 0), ([], 0), (msg, 0)])])

/-- One step of `main`. -/
def lbbrokerStep (s : LbbrokerState) (e : LbbrokerEvent) :
    Option (LbbrokerState × List LbbrokerEffect) :=
  match s.pc, e with
  | .poll, .poll none => some ({ s with pc := .stopped }, [])
  | .poll, .poll (some (revents0, revents1)) =>
      some ({ s with pc := afterPoll (s.availableWorkers ≠ 0) revents0 revents1 }, [])
  | .workerId revents1, .recv frame => some (onWorkerId s revents1 frame, [])
  | .backendEmpty revents1, .recv frame =>
      some (recvEmpty s frame (.backendClientId revents1), [])
  | .backendClientId revents1, .recv frame => some (onBackendClientId s revents1 frame, [])
  | .replyEmpty revents1, .recv frame => some (recvEmpty s frame (.reply revents1), [])
  | .reply revents1, .recv frame => some (onReply s revents1 frame)
  | .frontendClientId, .recv frame =>
      some ({ s with clientId := sRecv s.clientId 256 frame, pc := .requestEmpty }, [])
  | .requestEmpty, .recv frame => some (recvEmpty s frame .request, [])
  | .request, .recv frame => some (onRequest s frame)
  | _, _ => none

/-- The broker when its threads are started. -/
def lbbrokerInit : LbbrokerState where
  pc := .poll
  availableWorkers := 0
  workerQueue := List.replicate 10 none
  clientNbr := nbrClients
  empty := []
  workerId := []
  clientId := []
  msg := []

/-- The broker of `lbbroker.c`. -/
def lbbroker : Machine LbbrokerState LbbrokerEvent LbbrokerEffect where
  init := lbbrokerInit
  step := lbbrokerStep

/-- Where `_worker_task` stands. -/
inductive WorkerTaskPc
  | start
  | id
  | empty
  | request
  | aborted
  deriving DecidableEq

structure WorkerTask where
  pc : WorkerTaskPc
  id : List UInt8
  empty : List UInt8
  request : List UInt8
  deriving DecidableEq

def workerTaskInit : WorkerTask := { pc := .start, id := [], empty := [], request := [] }

/-- `c[...]:hello` of a client; `clientId` is the buffer its identity is in. -/
def helloText (clientId : List UInt8) : Frame :=
  strcat [[99, 91], clientId, [93, 58, 104, 101, 108, 108, 111]]

/-- `w[...]:ready` of a worker. -/
def readyText (workerId : List UInt8) : Frame :=
  strcat [[119, 91], workerId, [93, 58, 114, 101, 97, 100, 121]]

/-- `w[...]:ok` of a worker. -/
def okText (workerId : List UInt8) : Frame :=
  strcat [[119, 91], workerId, [93, 58, 111, 107]]

/-- `_worker_task` up to its loop: it sends its READY. -/
def workerTaskStart (t : WorkerTask) (workerId : List UInt8) : WorkerTask × Zmsg :=
  ({ t with pc := .id }, [readyText workerId])

/-- `_worker_task` receives a frame, and may send a message. -/
def workerTaskRecv (t : WorkerTask) (workerId : List UInt8) (frame : Frame) :
    Option (WorkerTask × Option Zmsg) :=
  match t.pc with
  | .id => some ({ t with id := sRecv t.id 256 (some frame), pc := .empty }, none)
  | .empty =>
      let empty := sRecv t.empty 2 (some frame)
      some ({ t with
          empty := empty
          pc := if empty.headD 0 = 0 then .request else .aborted }, none)
  | .request =>
      some ({ t with request := sRecv t.request 256 (some frame), pc := .id },
        some (sSendlists [(t.id, 0), ([], 0), (okText workerId, 0)]))
  | _ => none

/-- Where `_client_task` stands; it sends once and receives once. -/
inductive ClientTask
  | start
  | waiting
  | finished (reply : List UInt8)
  deriving DecidableEq

end ZmqTest.Loadbalance
