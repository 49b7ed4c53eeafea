/-
# The cost of a batch

The ventilator adds up the workloads it draws in an `int` and prints the sum as the
expected cost. A worker reads the text of a workload with `atoi` and sleeps for so many
milliseconds, which `s_sleep` splits into seconds and nanoseconds. Nothing is lost on the
way from the draw to the sleep: when the end is published, the workers have together
slept for exactly the cost that was printed, however the tasks were shared.
-/

import Mathlib.Algebra.BigOperators.Group.List.Basic
import Mathlib.Algebra.Ring.Int.Defs
import ZmqTest.Randof
import ZmqTest.Task.Shutdown

namespace ZmqTest.Task

/-- `struct timespec`. -/
structure Timespec where
  tvSec : Int
  tvNsec : Int

/-- What `nanosleep` accepts. -/
def Timespec.Valid (t : Timespec) : Prop := 0 ≤ t.tvSec ∧ 0 ≤ t.tvNsec ∧ t.tvNsec < 1000000000

/-- The time in nanoseconds. -/
def Timespec.nanos (t : Timespec) : Int := t.tvSec * 1000000000 + t.tvNsec

/-- `s_sleep`: the time it asks for. Division truncates. -/
def sSleep (msecs : Int) : Timespec :=
  { tvSec := msecs.tdiv 1000, tvNsec := msecs.tmod 1000 * 1000000 }

/-- The time is the one asked for, whatever its sign. -/
theorem nanos_sSleep (msecs : Int) : (sSleep msecs).nanos = msecs * 1000000 := by
  have h := Int.mul_tdiv_add_tmod msecs 1000
  simp only [Timespec.nanos, sSleep]
  omega

/-- It is accepted exactly when it is not negative. -/
theorem valid_sSleep_iff (msecs : Int) : (sSleep msecs).Valid ↔ 0 ≤ msecs := by
  have h := Int.mul_tdiv_add_tmod msecs 1000
  constructor
  · rintro ⟨sec, nsec, -⟩
    simp only [sSleep] at sec nsec
    omega
  · intro positive
    have rest := Int.tmod_nonneg 1000 positive
    have less := Int.tmod_lt_of_pos msecs (by decide : (0 : Int) < 1000)
    refine ⟨Int.tdiv_nonneg positive (by decide), ?_, ?_⟩
    · simp only [sSleep]
      omega
    · simp only [sSleep]
      omega

/-- `workload` of the ventilator. -/
def workload (draw : Random) : Nat := randof 100 draw + 1

/-- `total_msec` after some draws, as an `int`. -/
def totalMsec (draws : List Random) : Int :=
  draws.foldl (fun total draw => (total + workload draw).bmod 4294967296) 0

/-- What the ventilator has drawn in a run. -/
def draws {Worker : Type} (es : List (SystemEvent Worker)) : List Random :=
  es.filterMap fun
    | .ventilatorTask draw => some draw
    | _ => none

theorem workload_bounds (draw : Random) : 1 ≤ workload draw ∧ workload draw ≤ 101 := by
  have drawn := randof_le_self (by decide : 1 ≤ 100) (by decide) draw
  exact ⟨Nat.le_add_left 1 _, Nat.succ_le_succ drawn⟩

theorem sum_workload_le (drawn : List Random) :
    drawn.length ≤ (drawn.map workload).sum ∧ (drawn.map workload).sum ≤ 101 * drawn.length := by
  induction drawn with
  | nil => exact ⟨Nat.le_refl 0, Nat.le_refl 0⟩
  | cons draw drawn ih =>
      have bounds := workload_bounds draw
      rw [List.map_cons, List.sum_cons, List.length_cons]
      omega

/-- The sum of a batch does not leave the range of `int`. -/
theorem totalMsec_eq_sum {drawn : List Random} (few : drawn.length ≤ nbrTasks) :
    totalMsec drawn = (drawn.map workload).sum := by
  induction drawn using List.reverseRecOn with
  | nil => rfl
  | append_singleton drawn draw ih =>
      rw [List.length_append, List.length_singleton] at few
      have earlier := ih (Nat.le_of_succ_le few)
      have bounds := workload_bounds draw
      have small := sum_workload_le drawn
      have limit : nbrTasks = 100 := rfl
      have step : totalMsec (drawn ++ [draw]) =
          (totalMsec drawn + workload draw).bmod 4294967296 := by
        simp [totalMsec]
      rw [step, earlier, List.map_append, List.sum_append, List.map_singleton,
        List.sum_singleton, Int.bmod_eq_of_le (by omega) (by omega)]
      omega

/-- How long a worker sleeps for a text, in nanoseconds. -/
def slept (msg : Message) : Int := (sSleep (atoi msg.text)).nanos

theorem slept_task (taskNbr : Nat) (draw : Random) :
    slept (task taskNbr draw) = workload draw * 1000000 := by
  have bounds := workload_bounds draw
  have reads : atoi (task taskNbr draw).text = workload draw :=
    atoi_decimal (n := workload draw) (by omega)
  rw [slept, nanos_sSleep, reads]

theorem slept_startSignal : slept startSignal = 0 := by decide

variable {Worker : Type} [DecidableEq Worker]

/-- The ventilator sends the start signal and then what it draws. -/
def Drawn (es : List (SystemEvent Worker)) (os : List (SystemOutput Worker)) :
    VentilatorPc → Prop
  | .start => draws es = [] ∧ sentMessages os = []
  | .loop taskNbr => (draws es).length = taskNbr ∧ taskNbr ≤ nbrTasks ∧
      (sentMessages os).map slept = 0 :: (draws es).map fun draw => (workload draw * 1000000 : Int)

omit [DecidableEq Worker] in
/-- A step that neither draws nor sends. -/
theorem Drawn.keep {es : List (SystemEvent Worker)} {os out : List (SystemOutput Worker)}
    {pc : VentilatorPc} {e : SystemEvent Worker} (h : Drawn es os pc) (idle : draws [e] = [])
    (silent : sentMessages out = []) : Drawn (es ++ [e]) (os ++ out) pc := by
  have hdraws : draws (es ++ [e]) = draws es := by
    rw [draws, List.filterMap_append, ← draws, ← draws, idle, List.append_nil]
  have hsent : sentMessages (os ++ out) = sentMessages os := by
    rw [sentMessages_append, silent, List.append_nil]
  cases pc with
  | start => simpa [Drawn, hdraws, hsent] using h
  | loop taskNbr => simpa only [Drawn, hdraws, hsent] using h

theorem drawn_of_run {es : List (SystemEvent Worker)} {os : List (SystemOutput Worker)}
    {s : SystemState Worker} (run : (system Worker).Run es os s) : Drawn es os s.ventilator := by
  induction run with
  | start => exact ⟨rfl, rfl⟩
  | @extend es os s t e out prior taken ih =>
      cases systemMoves_of_step taken with
      | ventilatorStart pc =>
          rw [pc] at ih
          obtain ⟨hdraws, hsent⟩ := ih
          have none : draws (es ++ [.ventilatorStart]) = [] := by simpa [draws] using hdraws
          refine ⟨by rw [none]; rfl, Nat.zero_le _, ?_⟩
          rw [none, sentMessages_append, hsent]
          simp [slept_startSignal]
      | ventilatorTask draw taskNbr pc more =>
          rw [pc] at ih
          obtain ⟨hlength, -, hsent⟩ := ih
          have new : draws (es ++ [.ventilatorTask draw]) = draws es ++ [draw] := by simp [draws]
          refine ⟨by simp [new, hlength], more, ?_⟩
          rw [new, sentMessages_append, List.map_append, hsent]
          simp [slept_task]
      | workerPoll worker revents0 revents1 pc published => exact ih.keep rfl rfl
      | workerRecv worker index revents1 msg left pc found => exact ih.keep rfl rfl
      | workerSend worker revents1 msg left pc found => exact ih.keep rfl rfl
      | sinkRecv index sink msg left counted found => exact ih.keep rfl rfl
      | sinkKill pc => exact ih.keep rfl rfl

theorem sum_costs (drawn : List Random) :
    (drawn.map fun draw => (workload draw * 1000000 : Int)).sum =
      (drawn.map workload).sum * 1000000 := by
  induction drawn with
  | nil => rfl
  | cons draw drawn ih =>
      rw [List.map_cons, List.sum_cons, ih, List.map_cons, List.sum_cons]
      omega

/-- When the end is published, the cost the ventilator has printed is the sum of a hundred
workloads of 1 to 101 milliseconds, and the times for which the workers have slept add up
to it exactly; each of these times was accepted by the system. -/
theorem cost_is_slept {es : List (SystemEvent Worker)} {os : List (SystemOutput Worker)}
    {s : SystemState Worker} (run : (system Worker).Run es os s) (killed : s.sink = .killed) :
    ((executedMessages os).map fun entry => slept entry.2).sum =
        totalMsec (draws es) * 1000000 ∧
      (∀ entry ∈ executedMessages os, (sSleep (atoi entry.2.text)).Valid) ∧
      (draws es).length = nbrTasks ∧ 100 ≤ totalMsec (draws es) ∧
      totalMsec (draws es) ≤ 10100 := by
  have accounted := accounted_of_run run
  obtain ⟨hnet, hpc⟩ := accounted.complete killed
  have drawn := drawn_of_run run
  rw [hpc] at drawn
  obtain ⟨hlength, -, hsent⟩ := drawn
  have total := totalMsec_eq_sum (Nat.le_of_eq hlength)
  have bounds := sum_workload_le (draws es)
  have limit : nbrTasks = 100 := rfl
  -- what was executed, and the start signal, is what was sent
  have all : (startSignal :: (executedMessages os).map Prod.snd).Perm (sentMessages os) := by
    have conserved := accounted.conserved
    rw [hnet] at conserved
    exact (accounted.received_perm killed).symm.trans conserved
  have times := all.map slept
  rw [hsent, List.map_cons, slept_startSignal, List.map_map] at times
  have same := times.cons_inv
  refine ⟨?_, ?_, hlength, by omega, by omega⟩
  · have sums := same.sum_eq
    rw [sum_costs] at sums
    rw [total]
    exact sums
  · intro entry hmem
    rw [valid_sSleep_iff]
    have hcost : slept entry.2 ∈ (executedMessages os).map (slept ∘ Prod.snd) :=
      List.mem_map_of_mem (f := slept ∘ Prod.snd) hmem
    obtain ⟨draw, -, hdraw⟩ := List.mem_map.mp (same.mem_iff.mp hcost)
    rw [slept, nanos_sSleep] at hdraw
    omega

theorem cost_is_slept_batch : ∃ os s, (system Unit).Run batchRun os s ∧
    ((executedMessages os).map fun entry => slept entry.2).sum =
      totalMsec (draws batchRun) * 1000000 ∧ totalMsec (draws batchRun) = 100 := by
  have hexec : ((system Unit).exec (system Unit).init batchRun).map (fun r => r.1.sink) =
      some .killed := by decide +kernel
  obtain ⟨os, s, run, killed⟩ := Machine.run_of_map_exec hexec
  obtain ⟨all, -⟩ := cost_is_slept run killed
  exact ⟨os, s, run, all, by decide +kernel⟩

end ZmqTest.Task
