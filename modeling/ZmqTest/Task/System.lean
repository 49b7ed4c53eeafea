/-
# The ventilator, the workers and the sink

The ventilator sends a start signal to the sink and then its tasks to the workers.
A worker polls for a task and for the end, executes one task at a time and sends
the text on to the sink. The sink takes whatever comes first for the start signal,
counts as many messages as there are tasks, and publishes the end.

What is pushed stands in the network until some puller takes it, any message at any
time, so every order of arrival and every way of sharing the tasks is a run. A
message carries the number of its task, which no program reads.
-/

import Mathlib.Logic.Function.Basic
import ZmqTest.Base
import ZmqTest.Lib.Decimal
import ZmqTest.Lib.Machine
import ZmqTest.Lib.Network

namespace ZmqTest.Task

/-- The tasks of one run of the ventilator. -/
def nbrTasks : Nat := 100

/-- A text with the task it stands for; the start signal stands for none. -/
structure Message where
  number : Option Nat
  text : Frame
  deriving DecidableEq

/-- The message that tells the sink that a batch starts. -/
def startSignal : Message := { number := none, text := [48] }

/-- A task is the text of its workload in milliseconds. -/
def task (taskNbr : Nat) (draw : Random) : Message :=
  { number := some taskNbr, text := decimal (randof 100 draw + 1) }

/-- A message as it is after `s_recv` into a buffer of 256 bytes. -/
def Message.buffered (msg : Message) : Message := { msg with text := received 256 msg.text }

/-- Where the ventilator stands: before the start signal, or in its loop. -/
inductive VentilatorPc
  | start
  | loop (taskNbr : Nat)
  deriving DecidableEq

/-- Where a worker stands. The readiness of the controller is that of the last poll. -/
inductive WorkerPc
  | poll
  | recv (revents1 : Bool)
  | work (revents1 : Bool)
  | stopped
  deriving DecidableEq

/-- Where the sink stands: before the start signal, in its loop, or after the end is
published. -/
inductive SinkPc
  | start
  | loop (taskNbr : Nat)
  | killed
  deriving DecidableEq

/-- The end of an iteration of a worker. -/
def afterTask (revents1 : Bool) : WorkerPc := if revents1 then .stopped else .poll

/-- `zmq_poll` over the receiver and the controller. -/
def afterPoll (revents0 revents1 : Bool) : WorkerPc :=
  if revents0 then .recv revents1 else afterTask revents1

/-- A message is received: the start signal, or one more result. -/
def SinkPc.count : SinkPc → Option SinkPc
  | .start => some (.loop 0)
  | .loop taskNbr => if taskNbr < nbrTasks then some (.loop (taskNbr + 1)) else none
  | .killed => none

/-- Where a message can be. -/
inductive Loc (Worker : Type)
  | tasks
  | hands (worker : Worker)
  | results
  deriving DecidableEq

structure SystemState (Worker : Type) where
  ventilator : VentilatorPc
  worker : Worker → WorkerPc
  sink : SinkPc
  net : Network (Loc Worker) Message

inductive SystemEvent (Worker : Type)
  | ventilatorStart
  | ventilatorTask (draw : Random)
  | workerPoll (worker : Worker) (revents0 revents1 : Bool)
  | workerRecv (worker : Worker) (index : Nat)
  | /-- The worker sleeps for the workload and sends the text to the sink. -/
    workerSend (worker : Worker)
  | sinkRecv (index : Nat)
  | sinkKill

inductive SystemOutput (Worker : Type)
  | sent (msg : Message)
  | executed (worker : Worker) (msg : Message)
  | received (msg : Message)
  | killed
  deriving DecidableEq

variable {Worker : Type} [DecidableEq Worker]

/-- One step of one of the programs. -/
def systemStep (s : SystemState Worker) :
    SystemEvent Worker → Option (SystemState Worker × List (SystemOutput Worker))
  | .ventilatorStart =>
      match s.ventilator with
      | .start =>
          some ({ s with ventilator := .loop 0, net := s.net.send .results startSignal },
            [.sent startSignal])
      | .loop _ => none
  | .ventilatorTask draw =>
      match s.ventilator with
      | .start => none
      | .loop taskNbr =>
          if taskNbr < nbrTasks then
            some ({ s with
                ventilator := .loop (taskNbr + 1)
                net := s.net.send .tasks (task taskNbr draw) },
              [.sent (task taskNbr draw)])
          else none
  | .workerPoll worker revents0 revents1 =>
      -- the controller is readable only when the end has been published
      if s.worker worker = .poll ∧ (revents1 = true → s.sink = .killed) then
        some ({ s with
          worker := Function.update s.worker worker (afterPoll revents0 revents1) }, [])
      else none
  | .workerRecv worker index =>
      match s.worker worker, s.net.pick .tasks index with
      | .recv revents1, some (msg, left) =>
          some ({ s with
            worker := Function.update s.worker worker (.work revents1)
            net := left.send (.hands worker) msg.buffered }, [])
      | _, _ => none
  | .workerSend worker =>
      match s.worker worker, s.net.recv (.hands worker) with
      | .work revents1, some (msg, left) =>
          some ({ s with
              worker := Function.update s.worker worker (afterTask revents1)
              net := left.send .results msg },
            [.executed worker msg])
      | _, _ => none
  | .sinkRecv index =>
      match s.sink.count, s.net.pick .results index with
      | some sink, some (msg, left) =>
          some ({ s with sink := sink, net := left }, [.received msg.buffered])
      | _, _ => none
  | .sinkKill =>
      if s.sink = .loop nbrTasks then some ({ s with sink := .killed }, [.killed]) else none

/-- Nothing has been sent. -/
def systemInit : SystemState Worker where
  ventilator := .start
  worker := fun _ => .poll
  sink := .start
  net := []

/-- The ventilator, the workers and the sink. -/
def system (Worker : Type) [DecidableEq Worker] :
    Machine (SystemState Worker) (SystemEvent Worker) (SystemOutput Worker) where
  init := systemInit
  step := systemStep

/-- The steps of the system. -/
inductive SystemMoves (s : SystemState Worker) :
    SystemEvent Worker → SystemState Worker → List (SystemOutput Worker) → Prop
  | ventilatorStart (pc : s.ventilator = .start) :
      SystemMoves s .ventilatorStart
        { s with ventilator := .loop 0, net := s.net.send .results startSignal }
        [.sent startSignal]
  | ventilatorTask (draw : Random) (taskNbr : Nat) (pc : s.ventilator = .loop taskNbr)
      (more : taskNbr < nbrTasks) :
      SystemMoves s (.ventilatorTask draw)
        { s with
          ventilator := .loop (taskNbr + 1)
          net := s.net.send .tasks (task taskNbr draw) }
        [.sent (task taskNbr draw)]
  | workerPoll (worker : Worker) (revents0 revents1 : Bool) (pc : s.worker worker = .poll)
      (published : revents1 = true → s.sink = .killed) :
      SystemMoves s (.workerPoll worker revents0 revents1)
        { s with worker := Function.update s.worker worker (afterPoll revents0 revents1) } []
  | workerRecv (worker : Worker) (index : Nat) (revents1 : Bool) (msg : Message)
      (left : Network (Loc Worker) Message) (pc : s.worker worker = .recv revents1)
      (taken : s.net.Perm ((.tasks, msg) :: left)) :
      SystemMoves s (.workerRecv worker index)
        { s with
          worker := Function.update s.worker worker (.work revents1)
          net := left.send (.hands worker) msg.buffered } []
  | workerSend (worker : Worker) (revents1 : Bool) (msg : Message)
      (left : Network (Loc Worker) Message) (pc : s.worker worker = .work revents1)
      (taken : s.net.Perm ((.hands worker, msg) :: left)) :
      SystemMoves s (.workerSend worker)
        { s with
          worker := Function.update s.worker worker (afterTask revents1)
          net := left.send .results msg }
        [.executed worker msg]
  | sinkRecv (index : Nat) (sink : SinkPc) (msg : Message)
      (left : Network (Loc Worker) Message) (counted : s.sink.count = some sink)
      (taken : s.net.Perm ((.results, msg) :: left)) :
      SystemMoves s (.sinkRecv index) { s with sink := sink, net := left }
        [.received msg.buffered]
  | sinkKill (pc : s.sink = .loop nbrTasks) :
      SystemMoves s .sinkKill { s with sink := .killed } [.killed]

/-- Every step of the system is one of the listed ones. -/
theorem systemMoves_of_step {s t : SystemState Worker} {e : SystemEvent Worker}
    {out : List (SystemOutput Worker)} (h : (system Worker).step s e = some (t, out)) :
    SystemMoves s e t out := by
  change systemStep s e = some (t, out) at h
  cases e with
  | ventilatorStart =>
      simp only [systemStep] at h
      split at h
      case h_1 pc =>
        cases h
        exact .ventilatorStart pc
      case h_2 => cases h
  | ventilatorTask draw =>
      simp only [systemStep] at h
      split at h
      case h_1 => cases h
      case h_2 taskNbr pc =>
        split at h
        case isTrue more =>
          cases h
          exact .ventilatorTask draw taskNbr pc more
        case isFalse => cases h
  | workerPoll worker revents0 revents1 =>
      simp only [systemStep] at h
      split at h
      case isTrue ready =>
        cases h
        exact .workerPoll worker revents0 revents1 ready.1 ready.2
      case isFalse => cases h
  | workerRecv worker index =>
      simp only [systemStep] at h
      split at h
      case h_1 revents1 msg left pc hpick =>
        cases h
        exact .workerRecv worker index revents1 msg left pc (Network.perm_of_pick hpick)
      case h_2 => cases h
  | workerSend worker =>
      simp only [systemStep] at h
      split at h
      case h_1 revents1 msg left pc hrecv =>
        cases h
        exact .workerSend worker revents1 msg left pc (Network.perm_of_recv hrecv)
      case h_2 => cases h
  | sinkRecv index =>
      simp only [systemStep] at h
      split at h
      case h_1 sink msg left counted hpick =>
        cases h
        exact .sinkRecv index sink msg left counted (Network.perm_of_pick hpick)
      case h_2 => cases h
  | sinkKill =>
      simp only [systemStep] at h
      split at h
      case isTrue pc =>
        cases h
        exact .sinkKill pc
      case isFalse => cases h

end ZmqTest.Task
