/-
# The sink when receives fail

`task/sink.c` takes one message for the start of a batch and counts a hundred more. It
is not told when a receive fails, and counts the failed ones too: a receive that fails
in place of the start signal, or one in the loop, is made up for by the start signal,
which is not counted, and from the second on results are counted that never came.
-/

import ZmqTest.Lib.Machine
import ZmqTest.Task.System

namespace ZmqTest.Task

inductive SinkEvent
  | /-- `s_recv`, with what follows; `none` is a failed receive. -/
    recv (frame : Option Frame)
  | /-- The end is published. -/
    kill
  deriving DecidableEq

inductive SinkOutput
  | received
  | /-- A result is counted, and a mark printed for it. -/
    counted (mark : UInt8)
  | killed
  deriving DecidableEq

/-- What the loop prints for a result: a colon for every tenth, a dot for the others. -/
def progress : SinkPc → List SinkOutput
  | .loop taskNbr => [.counted (if taskNbr % 10 = 0 then 58 else 46)]
  | _ => []

/-- One step of `main`. What follows a receive does not depend on its success. -/
def sinkStep (s : SinkPc) : SinkEvent → Option (SinkPc × List SinkOutput)
  | .recv frame =>
      match s.count with
      | none => none
      | some next =>
          some (next, (if frame.isSome then [.received] else []) ++ progress s)
  | .kill => if s = .loop nbrTasks then some (.killed, [.killed]) else none

/-- The sink of `task/sink.c`. -/
def sink : Machine SinkPc SinkEvent SinkOutput where
  init := .start
  step := sinkStep

/-- The results that have been counted. -/
def countedResults (os : List SinkOutput) : Nat :=
  os.countP fun
    | .counted _ => true
    | _ => false

/-- The messages that have been received. -/
def receivedMessageCount (os : List SinkOutput) : Nat := os.count .received

/-- The receives that have failed. -/
def failedReceives (es : List SinkEvent) : Nat := es.count (.recv none)

/-- Every receive but the first counts a result, and every one gives a message or
fails. -/
def Tallied (es : List SinkEvent) (os : List SinkOutput) : SinkPc → Prop
  | .start => countedResults os = 0 ∧ receivedMessageCount os + failedReceives es = 0
  | .loop taskNbr =>
      countedResults os = taskNbr ∧ receivedMessageCount os + failedReceives es = taskNbr + 1
  | .killed =>
      countedResults os = nbrTasks ∧
        receivedMessageCount os + failedReceives es = nbrTasks + 1

/-- A receive gives a message or fails. -/
theorem received_add_failed (s : SinkPc) (frame : Option Frame) :
    receivedMessageCount ((if frame.isSome then [.received] else []) ++ progress s) +
      failedReceives [.recv frame] = 1 := by
  have none : (progress s).count .received = 0 := by cases s <;> simp [progress]
  cases frame <;> simp [receivedMessageCount, failedReceives, none]

/-- What is counted for a receive is counted by the loop. -/
theorem counted_of_recv (s : SinkPc) (frame : Option Frame) :
    countedResults ((if frame.isSome then [.received] else []) ++ progress s) =
      countedResults (progress s) := by
  cases frame <;> simp [countedResults]

theorem Tallied.recv {es : List SinkEvent} {os : List SinkOutput} {s t : SinkPc}
    (h : Tallied es os s) (frame : Option Frame) (counted : s.count = some t) :
    Tallied (es ++ [.recv frame])
      (os ++ ((if frame.isSome then [.received] else []) ++ progress s)) t := by
  have hresults : countedResults (os ++ ((if frame.isSome then [.received] else []) ++
      progress s)) = countedResults os + countedResults (progress s) := by
    rw [← counted_of_recv s frame, countedResults, List.countP_append]
    rfl
  have hmessages : receivedMessageCount (os ++ ((if frame.isSome then [.received] else []) ++
      progress s)) + failedReceives (es ++ [.recv frame]) =
      receivedMessageCount os + failedReceives es + 1 := by
    have one := received_add_failed s frame
    simp only [receivedMessageCount, failedReceives, List.count_append] at one ⊢
    omega
  cases s with
  | start =>
      cases counted
      obtain ⟨results, messages⟩ := h
      exact ⟨by rw [hresults, results]; rfl, by rw [hmessages, messages]⟩
  | loop taskNbr =>
      simp only [SinkPc.count] at counted
      split at counted <;> cases counted
      obtain ⟨results, messages⟩ := h
      exact ⟨by rw [hresults, results]; rfl, by rw [hmessages, messages]⟩
  | killed => cases counted

theorem tallied_of_run {es : List SinkEvent} {os : List SinkOutput} {s : SinkPc}
    (run : sink.Run es os s) : Tallied es os s := by
  induction run with
  | start => exact ⟨rfl, rfl⟩
  | @extend es os s t e out prior taken ih =>
      change sinkStep s e = some (t, out) at taken
      cases e with
      | recv frame =>
          simp only [sinkStep] at taken
          split at taken
          case h_1 => cases taken
          case h_2 next counted =>
            cases taken
            exact ih.recv frame counted
      | kill =>
          simp only [sinkStep] at taken
          split at taken
          case isTrue pc =>
            cases taken
            subst pc
            simpa [Tallied, countedResults, receivedMessageCount, failedReceives] using ih
          case isFalse => cases taken

/-- No more results are counted than messages received exactly when at most one receive
has failed. -/
theorem countedResults_le_iff {es : List SinkEvent} {os : List SinkOutput} {s : SinkPc}
    (run : sink.Run es os s) :
    countedResults os ≤ receivedMessageCount os ↔ failedReceives es ≤ 1 := by
  have tallied := tallied_of_run run
  cases s with
  | start =>
      obtain ⟨results, messages⟩ := tallied
      omega
  | loop taskNbr =>
      obtain ⟨results, messages⟩ := tallied
      omega
  | killed =>
      obtain ⟨results, messages⟩ := tallied
      omega

end ZmqTest.Task
