/-
# Every batch comes to its end

A batch is one start signal and a hundred tasks, and each of them goes through the
programs once. Every step but a poll takes one message one place further, so a batch is
403 such steps, whatever their order and whoever the workers are, and polls. Until then
the next such step can be taken, at once or after a poll.
-/

import Mathlib.Algebra.BigOperators.Group.List.Basic
import ZmqTest.Lib.Progress
import ZmqTest.Task.Shutdown

namespace ZmqTest.Task

variable {Worker : Type}

/-- Everything but a poll. -/
def productive : SystemEvent Worker → Bool
  | .workerPoll _ _ _ => false
  | _ => true

/-- How many places a message has before it. -/
def Loc.ahead : Loc Worker → Nat
  | .tasks => 3
  | .hands _ => 2
  | .results => 1

/-- What the ventilator has still to send, with the way that it goes. -/
def VentilatorPc.ahead : VentilatorPc → Nat
  | .start => 4 * nbrTasks + 2
  | .loop taskNbr => 4 * (nbrTasks - taskNbr)

/-- The end has still to be published. -/
def SinkPc.ahead : SinkPc → Nat
  | .killed => 0
  | _ => 1

/-- The ways of all messages together. -/
def ways (net : Network (Loc Worker) Message) : Nat :=
  (net.map fun packet => packet.1.ahead).sum

/-- The steps of the batch that are still to be taken. -/
def SystemState.ahead (s : SystemState Worker) : Nat :=
  s.ventilator.ahead + ways s.net + s.sink.ahead

variable {net left : Network (Loc Worker) Message} {loc place : Loc Worker} {msg : Message}

@[simp]
theorem ways_send : ways (net.send loc msg) = ways net + loc.ahead := by
  simp [ways, Network.send]

theorem ways_of_perm (found : net.Perm ((loc, msg) :: left)) :
    ways net = loc.ahead + ways left := by
  have sums := (found.map fun packet => packet.1.ahead).sum_eq
  rwa [List.map_cons, List.sum_cons] at sums

theorem ahead_of_count {sink next : SinkPc} (counted : sink.count = some next) :
    sink.ahead = 1 ∧ next.ahead = 1 := by
  cases sink with
  | start =>
      cases counted
      exact ⟨rfl, rfl⟩
  | loop taskNbr =>
      simp only [SinkPc.count] at counted
      split at counted <;> cases counted
      exact ⟨rfl, rfl⟩
  | killed => cases counted

variable [DecidableEq Worker] {es : List (SystemEvent Worker)}
  {os out : List (SystemOutput Worker)} {s t : SystemState Worker} {e : SystemEvent Worker}

/-- Every step but a poll is one of those that are to be taken. -/
theorem ahead_of_moves (moves : SystemMoves s e t out) :
    t.ahead + (if productive e then 1 else 0) = s.ahead := by
  cases moves with
  | ventilatorStart pc =>
      simp only [SystemState.ahead, pc, VentilatorPc.ahead, ways_send, Loc.ahead, productive,
        if_true]
      omega
  | ventilatorTask draw taskNbr pc more =>
      simp only [SystemState.ahead, pc, VentilatorPc.ahead, ways_send, Loc.ahead, productive,
        if_true]
      omega
  | workerPoll worker revents0 revents1 pc published => rfl
  | workerRecv worker index revents1 msg left pc found =>
      have before := ways_of_perm found
      simp only [SystemState.ahead, before, ways_send, Loc.ahead, productive, if_true]
      omega
  | workerSend worker revents1 msg left pc found =>
      have before := ways_of_perm found
      simp only [SystemState.ahead, before, ways_send, Loc.ahead, productive, if_true]
      omega
  | sinkRecv index sink msg left counted found =>
      have before := ways_of_perm found
      obtain ⟨here, there⟩ := ahead_of_count counted
      simp only [SystemState.ahead, before, here, there, Loc.ahead, productive, if_true]
      omega
  | sinkKill pc =>
      simp only [SystemState.ahead, pc, SinkPc.ahead, productive, if_true]

/-- A batch is 403 steps besides the polls. -/
theorem countP_add_ahead (run : (system Worker).Run es os s) :
    es.countP productive + s.ahead = 403 := by
  induction run with
  | start => rfl
  | extend prior taken ih =>
      have step := ahead_of_moves (systemMoves_of_step taken)
      rw [List.countP_append, List.countP_singleton]
      omega

/-- Nothing is to be done when the end is published, and only then. -/
theorem killed_iff_ahead (run : (system Worker).Run es os s) :
    s.sink = .killed ↔ s.ahead = 0 := by
  constructor
  · intro killed
    obtain ⟨hnet, hpc⟩ := (accounted_of_run run).complete killed
    simp [SystemState.ahead, hnet, hpc, killed, VentilatorPc.ahead, SinkPc.ahead, ways]
  · intro done
    cases hsink : s.sink with
    | start => simp [SystemState.ahead, hsink, SinkPc.ahead] at done
    | loop taskNbr => simp [SystemState.ahead, hsink, SinkPc.ahead] at done
    | killed => rfl

/-- The tasks in the hands of a worker. -/
def WorkerPc.hands : WorkerPc → Nat
  | .work _ => 1
  | _ => 0

/-- A worker has a task in its hands while it works, and at no other time. -/
def Held (s : SystemState Worker) : Prop :=
  ∀ worker, (s.net.contents (.hands worker)).length = (s.worker worker).hands

theorem length_contents_of_perm (found : net.Perm ((place, msg) :: left)) (loc : Loc Worker) :
    (net.contents loc).length =
      (if place = loc then 1 else 0) + (left.contents loc).length := by
  rw [(Network.contents_of_perm found loc).length_eq, List.length_append]
  split <;> rfl

theorem length_contents_send (loc place : Loc Worker) :
    ((net.send place msg).contents loc).length =
      (net.contents loc).length + if place = loc then 1 else 0 := by
  rw [Network.contents_send, List.length_append]
  split <;> rfl

theorem hands_afterTask (revents1 : Bool) : (afterTask revents1).hands = 0 := by
  cases revents1 <;> rfl

theorem hands_afterPoll (revents0 revents1 : Bool) : (afterPoll revents0 revents1).hands = 0 := by
  cases revents0 <;> cases revents1 <;> rfl

theorem held_of_moves (held : Held s) (moves : SystemMoves s e t out) : Held t := by
  intro other
  have before := held other
  cases moves with
  | ventilatorStart pc => simpa [length_contents_send] using before
  | ventilatorTask draw taskNbr pc more => simpa [length_contents_send] using before
  | workerPoll worker revents0 revents1 pc published =>
      by_cases heq : other = worker
      · subst heq
        rw [pc] at before
        simp only [Function.update_self, hands_afterPoll]
        exact before
      · simpa [heq] using before
  | workerRecv worker index revents1 msg left pc found =>
      rw [length_contents_of_perm found] at before
      by_cases heq : other = worker
      · subst heq
        rw [pc] at before
        simpa [length_contents_send, WorkerPc.hands] using before
      · simpa [length_contents_send, heq, Ne.symm heq] using before
  | workerSend worker revents1 msg left pc found =>
      rw [length_contents_of_perm found] at before
      by_cases heq : other = worker
      · subst heq
        rw [pc] at before
        simp only [if_true, WorkerPc.hands] at before
        have none : (left.contents (.hands other)).length = 0 := by omega
        simp [length_contents_send, hands_afterTask, List.eq_nil_of_length_eq_zero none]
      · simpa [length_contents_send, heq, Ne.symm heq] using before
  | sinkRecv index sink msg left counted found =>
      rw [length_contents_of_perm found] at before
      simpa using before
  | sinkKill pc => exact before

theorem held_of_run (run : (system Worker).Run es os s) : Held s :=
  run.invariant (fun _ => rfl) fun _ _ _ _ held taken =>
    held_of_moves held (systemMoves_of_step taken)

/-- A step that is to be taken can be taken, at once or after a poll. -/
def MovesOn (s : SystemState Worker) : Prop :=
  ∃ polls e t rest, polls.length ≤ 1 ∧ polls.countP productive = 0 ∧ productive e = true ∧
    (system Worker).exec s (polls ++ [e]) = some (t, rest)

theorem movesOn_of_step (own : productive e = true) (enabled : (systemStep s e).isSome) :
    MovesOn s := by
  obtain ⟨⟨t, out⟩, taken⟩ := Option.isSome_iff_exists.mp enabled
  exact ⟨[], e, t, out, Nat.zero_le 1, rfl, own,
    Machine.exec_singleton (m := system Worker) taken⟩

/-- A worker that works can send its result. -/
theorem movesOn_of_work (h : Accounted os s) {worker : Worker} {revents1 : Bool}
    (pc : s.worker worker = .work revents1) : MovesOn s := by
  obtain ⟨msg, hmem⟩ := h.working worker revents1 pc
  obtain ⟨found, left, hrecv⟩ := Network.exists_recv hmem
  exact movesOn_of_step (e := .workerSend worker) rfl (by simp [systemStep, pc, hrecv])

/-- A task can be taken, or the worker that is asked to take it has another one. -/
theorem movesOn_of_task [Nonempty Worker] (h : Accounted os s) (unpublished : s.sink ≠ .killed)
    (hmem : (.tasks, msg) ∈ s.net) : MovesOn s := by
  obtain ⟨worker⟩ := ‹Nonempty Worker›
  obtain ⟨index, left, hpick⟩ := Network.exists_pick hmem
  cases pc : s.worker worker with
  | poll =>
      have polled : systemStep s (.workerPoll worker true false) =
          some ({ s with worker := Function.update s.worker worker (.recv false) }, []) := by
        simp [systemStep, pc, afterPoll]
      have ready : (systemStep
          { s with worker := Function.update s.worker worker (.recv false) }
          (.workerRecv worker index)).isSome := by
        simp [systemStep, hpick]
      obtain ⟨⟨t, out⟩, taken⟩ := Option.isSome_iff_exists.mp ready
      refine ⟨[.workerPoll worker true false], .workerRecv worker index, t, [] ++ out,
        Nat.le_refl 1, rfl, rfl, ?_⟩
      exact Machine.exec_append (Machine.exec_singleton (m := system Worker) polled)
        (Machine.exec_singleton taken)
  | recv revents1 =>
      exact movesOn_of_step (e := .workerRecv worker index) rfl (by simp [systemStep, pc, hpick])
  | work revents1 => exact movesOn_of_work h pc
  | stopped => exact absurd (h.ended worker (by rw [pc]; rfl)) unpublished

/-- What stands in the network and what has been received has been sent. -/
theorem Accounted.length_add_taken (h : Accounted os s) :
    s.net.length + s.sink.taken = s.ventilator.numbers.length := by
  have hlength := h.conserved.length_eq
  have hnumbers := congrArg List.length h.numbered
  rw [List.length_map] at hnumbers
  rw [List.length_append, List.length_map, h.counted, hnumbers] at hlength
  exact hlength

/-- A result can be received: the sink has not received everything yet. -/
theorem movesOn_of_result (h : Accounted os s) (hmem : (.results, msg) ∈ s.net) :
    MovesOn s := by
  obtain ⟨index, left, hpick⟩ := Network.exists_pick hmem
  have some_left := List.length_pos_of_mem hmem
  have all := h.length_add_taken
  have bounded := h.bounded
  refine movesOn_of_step (e := .sinkRecv index) rfl ?_
  cases hsink : s.sink with
  | start => simp [systemStep, hsink, SinkPc.count, hpick]
  | loop taskNbr =>
      rw [hsink, SinkPc.taken] at all
      have more : taskNbr < nbrTasks := by omega
      simp [systemStep, hsink, SinkPc.count, more, hpick]
  | killed =>
      rw [hsink, SinkPc.taken] at all
      omega

/-- Nothing is under way: the ventilator goes on, or the end can be published. -/
theorem movesOn_of_empty (h : Accounted os s) (unpublished : s.sink ≠ .killed)
    (empty : s.net = []) : MovesOn s := by
  have all := h.length_add_taken
  have bounded := h.bounded
  rw [empty, List.length_nil, Nat.zero_add] at all
  cases pc : s.ventilator with
  | start => exact movesOn_of_step (e := .ventilatorStart) rfl (by simp [systemStep, pc])
  | loop taskNbr =>
      by_cases more : taskNbr < nbrTasks
      · exact movesOn_of_step (e := .ventilatorTask 0) rfl (by simp [systemStep, pc, more])
      · simp only [pc, VentilatorPc.numbers, List.length_cons, List.length_map,
          List.length_range] at all bounded
        have full : s.sink = .loop nbrTasks := by
          cases hsink : s.sink with
          | start =>
              rw [hsink, SinkPc.taken] at all
              omega
          | loop received =>
              rw [hsink, SinkPc.taken] at all
              have last : received = nbrTasks := by omega
              rw [last]
          | killed => exact absurd hsink unpublished
        exact movesOn_of_step (e := .sinkKill) rfl (by simp [systemStep, full])

theorem movesOn_of_run [Nonempty Worker] (run : (system Worker).Run es os s)
    (unpublished : s.sink ≠ .killed) : MovesOn s := by
  have h := accounted_of_run run
  by_cases empty : s.net = []
  · exact movesOn_of_empty h unpublished empty
  · obtain ⟨⟨loc, msg⟩, hmem⟩ := List.exists_mem_of_ne_nil s.net empty
    cases loc with
    | tasks => exact movesOn_of_task h unpublished hmem
    | results => exact movesOn_of_result h hmem
    | hands worker =>
        have busy := held_of_run run worker
        have some_held : 0 < (s.net.contents (.hands worker)).length :=
          List.length_pos_of_mem (List.mem_filterMap.mpr ⟨_, hmem, if_pos rfl⟩)
        cases pc : s.worker worker with
        | work revents1 => exact movesOn_of_work h pc
        | poll => simp [busy, pc, WorkerPc.hands] at some_held
        | recv revents1 => simp [busy, pc, WorkerPc.hands] at some_held
        | stopped => simp [busy, pc, WorkerPc.hands] at some_held

/-- What is to be done gets less. -/
theorem MovesOn.lowers (run : (system Worker).Run es os s) (h : MovesOn s) :
    ∃ fs rest t, (system Worker).exec s fs = some (t, rest) ∧ fs.length ≤ 2 ∧
      t.ahead < s.ahead := by
  obtain ⟨polls, e, t, out, few, idle, own, hexec⟩ := h
  have one : (polls ++ [e]).countP productive = 1 := by
    rw [List.countP_append, idle, List.countP_singleton, own]
    rfl
  have before := countP_add_ahead run
  have after := countP_add_ahead (run.append_exec hexec)
  rw [List.countP_append, one] at after
  refine ⟨polls ++ [e], out, t, hexec, ?_, by omega⟩
  rw [List.length_append, List.length_singleton]
  omega

/-- However the programs take their turns, a batch is 403 steps besides the polls of the
workers, and the end is published with the last of them. Until then the next one can be
taken, at once or after one poll, whatever the number of workers, and so the end can be
reached from everywhere. -/
theorem completes [Nonempty Worker] (run : (system Worker).Run es os s) :
    es.countP productive ≤ 403 ∧ (s.sink = .killed ↔ es.countP productive = 403) ∧
      (s.sink ≠ .killed → MovesOn s) ∧
      ∃ fs rest t, (system Worker).exec s fs = some (t, rest) ∧ t.sink = .killed ∧
        fs.length + 2 * es.countP productive ≤ 806 := by
  have total := countP_add_ahead run
  obtain ⟨fs, rest, t, hexec, killed, short⟩ := run.reaches fun _ _ _ reached unpublished =>
    (movesOn_of_run reached unpublished).lowers reached
  refine ⟨by omega, ?_, movesOn_of_run run, fs, rest, t, hexec, killed, by omega⟩
  rw [killed_iff_ahead run]
  omega

/-- Two workers, one of them waiting for a task that the other took. -/
def sharedRun : List (SystemEvent Bool) :=
  [.ventilatorStart, .ventilatorTask 0, .workerPoll true true false, .workerPoll false true false,
    .workerRecv true 1]

theorem completes_shared :
    ∃ os s, (system Bool).Run sharedRun os s ∧ sharedRun.countP productive = 3 ∧
      s.sink ≠ .killed ∧ MovesOn s := by
  have hexec : ((system Bool).exec (system Bool).init sharedRun).map (fun r => r.1.sink) =
      some .start := by decide
  obtain ⟨os, s, run, hsink⟩ := Machine.run_of_map_exec hexec
  obtain ⟨-, -, goes, -⟩ := completes run
  have unpublished : s.sink ≠ .killed := by
    rw [hsink]
    simp
  exact ⟨os, s, run, rfl, unpublished, goes unpublished⟩

end ZmqTest.Task
