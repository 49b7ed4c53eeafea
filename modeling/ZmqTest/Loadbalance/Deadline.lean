/-
# What happens after the deadline

The broker of `rtreq.c` answers "ok" while its clock shows less than five hundred
milliseconds after its start, and "exit" from then on. Once the clock stays there the
roll is called to its end: wherever the broker and its workers are, each of their steps
leaves less to do, and they come to a halt only when the broker has left its loop and
every worker has read the one "exit" it was sent. `main` does not wait for its threads
when it has left the loop; they are taken to run on, and what holds from that moment on,
whenever the process ends, is that each "exit" has been read or is in its channel.
-/

import Mathlib.Algebra.Order.BigOperators.Group.List
import Mathlib.Algebra.Order.Ring.Nat
import ZmqTest.Lib.Progress
import ZmqTest.Loadbalance.Dismissal

namespace ZmqTest.Rtreq

open RollCall

/-- The clock shows the deadline or more, but for the reading that sets it. -/
def Late (s : SystemState) : SystemEvent → Prop
  | .brokerClock now => s.broker.pc = .setup ∨ s.broker.endTime ≤ now
  | _ => True

instance (s : SystemState) (e : SystemEvent) : Decidable (Late s e) :=
  match e with
  | .brokerClock now =>
      inferInstanceAs (Decidable (s.broker.pc = .setup ∨ s.broker.endTime ≤ now))
  | .workerSend _ => inferInstanceAs (Decidable True)
  | .workerRecv _ => inferInstanceAs (Decidable True)
  | .brokerRecv _ => inferInstanceAs (Decidable True)

/-- The broker and its workers, going on in some state after the deadline. -/
def lateFrom (workers : Workers) (s : SystemState) :
    Machine SystemState SystemEvent SystemOutput :=
  ((system workers).resume s).restrict Late

/-- The steps that a worker and what it has sent or been sent are still good for, with those
of the broker. -/
def WorkerEnd.ahead (e : WorkerEnd) : Nat :=
  match e.pc with
  | .send => 6
  | .recv =>
      5 * e.up.length + (e.down.map fun msg => if msg = [[], exitText] then 1 else 7).sum
  | .finished => 0

/-- Those of the broker with a request before it, which end with the worker's last one. -/
def RtreqPc.ahead : RtreqPc → Nat
  | .setup => 1
  | .delimiter => 4
  | .body => 3
  | .clock => 2
  | _ => 0

def SystemState.ahead (s : SystemState) (workers : Workers) : Nat :=
  (workers.ids.map fun worker => (s.worker worker).ahead).sum + s.broker.pc.ahead

/-- The same, by the stage of the worker. -/
def stageAhead : Stage → Nat
  | .asking => 6
  | .queued => 5
  | .handling => 0
  | .answered => 7
  | .dismissed => 1
  | .gone => 0

theorem AtStage.ahead {stage : Stage} {e : WorkerEnd} (h : AtStage stage e) :
    e.ahead = stageAhead stage := by
  obtain ⟨pc, up, down⟩ := h
  cases stage <;>
    simp [WorkerEnd.ahead, pc, up, down, stagePc, stageUp, stageDown, stageAhead, exitText,
      okText]

section

variable {workers : Workers} {stage next : Frame → Stage} {s t : SystemState} {e : SystemEvent}
  {os out : List SystemOutput}

theorem ahead_update (s : SystemState) {worker : Frame} (member : worker ∈ workers.ids)
    (next : WorkerEnd) :
    (workers.ids.map fun v => (Function.update s.worker worker next v).ahead).sum +
        (s.worker worker).ahead =
      (workers.ids.map fun v => (s.worker v).ahead).sum + next.ahead :=
  Machine.sum_map_update WorkerEnd.ahead s.worker workers.nodup member next

/-- A worker that sends has less to do. -/
theorem AtStage.send {w : Stage} {e next : WorkerEnd} (h : AtStage w e)
    (taken : e.send = some next) : e.ahead = 6 ∧ next.ahead = 5 := by
  have before := h.ahead
  obtain ⟨pc, up, down⟩ := h
  simp only [WorkerEnd.send, Option.ite_none_right_eq_some, Option.some.injEq] at taken
  obtain ⟨sends, rfl⟩ := taken
  cases w <;> simp_all [stagePc, stageUp, stageDown, stageAhead, WorkerEnd.ahead]

/-- So has one that receives. -/
theorem AtStage.recv {w : Stage} {e next : WorkerEnd} (h : AtStage w e)
    (taken : e.recv = some next) : next.ahead < e.ahead ∧ w ≠ .asking := by
  have before := h.ahead
  obtain ⟨pc, up, down⟩ := h
  have hok : received 256 okText ≠ exitText := by decide
  have hexit : received 256 exitText = exitText := by decide
  cases w with
  | answered =>
      simp only [WorkerEnd.recv, pc, stagePc, down, stageDown, if_neg hok,
        Option.some.injEq] at taken
      subst taken
      rw [before]
      exact ⟨by simp [WorkerEnd.ahead, stageAhead], by simp⟩
  | dismissed =>
      simp only [WorkerEnd.recv, pc, stagePc, down, stageDown, if_pos hexit,
        Option.some.injEq] at taken
      subst taken
      rw [before]
      exact ⟨by simp [WorkerEnd.ahead, stageAhead], by simp⟩
  | _ => simp [WorkerEnd.recv, pc, stagePc, down, stageDown] at taken

/-- What a worker has sent is good for five steps of it and the broker; those of the broker
are no longer counted here when it has begun to read. -/
theorem AtStage.emptied {e : WorkerEnd} (h : AtStage .queued e) {msg : Zmsg} {more : List Zmsg}
    (waiting : e.up = msg :: more) :
    e.ahead = 5 ∧ WorkerEnd.ahead { e with up := more } = 0 := by
  have before := h.ahead
  obtain ⟨pc, up, down⟩ := h
  obtain ⟨-, rfl⟩ := List.cons.inj (waiting.symm.trans up)
  refine ⟨before, ?_⟩
  simp [WorkerEnd.ahead, pc, down, stagePc, stageDown]

/-- A worker that is sent "exit" has to read it. -/
theorem AtStage.told {e : WorkerEnd} (h : AtStage .handling e) :
    e.ahead = 0 ∧ WorkerEnd.ahead { e with down := e.down ++ [[[], exitText]] } = 1 := by
  have before := h.ahead
  obtain ⟨pc, up, down⟩ := h
  refine ⟨before, ?_⟩
  simp [WorkerEnd.ahead, pc, up, down, stagePc, stageUp, stageDown]

/-- The broker that reads on in a request has less to do. -/
theorem ahead_of_readOn {broker next : RtreqState} {frame : Frame}
    (engaged : broker.pc = .delimiter ∨ broker.pc = .body)
    (read : rtreqRecv broker frame = some next) : next.pc.ahead < broker.pc.ahead := by
  rcases engaged with pc | pc <;>
    · simp only [rtreqRecv, pc, Option.some.injEq] at read
      subst read
      simp [pc, RtreqPc.ahead]

theorem Follows.ahead_of_brokerRecv (h : Follows workers stage s) {peer : Frame}
    (taken : systemStep workers s (.brokerRecv peer) = some (t, out)) :
    t.ahead workers < s.ahead workers := by
  have hunread := h.unread
  simp only [systemStep] at taken
  split at taken
  case h_3 => cases taken
  case h_1 frame rest left =>
    obtain ⟨broker, read, heq⟩ := Option.map_eq_some_iff.mp taken
    cases heq
    rw [left] at hunread
    have engaged : s.broker.pc = .delimiter ∨ s.broker.pc = .body := by
      cases pc : s.broker.pc <;> simp [pc, RtreqPc.unread] at hunread ⊢
    have lower := ahead_of_readOn engaged read
    simp only [SystemState.ahead]
    omega
  case h_2 msg more free waiting =>
    obtain ⟨broker, read, heq⟩ := Option.map_eq_some_iff.mp taken
    cases heq
    have queued : stage peer = .queued := by
      have hup := (h.ends peer).up
      rw [waiting] at hup
      cases hstage : stage peer <;> simp [hstage, stageUp] at hup ⊢
    have member := h.members peer (by simp [queued])
    have asked := h.ends peer
    rw [queued] at asked
    obtain ⟨before, after⟩ := asked.emptied waiting
    have sum := ahead_update s member
      ⟨(s.worker peer).pc, (s.worker peer).total, more, (s.worker peer).down⟩
    rw [free] at hunread
    have begins : s.broker.pc.ahead = 0 ∧ broker.pc.ahead = 4 := by
      cases pc : s.broker.pc <;> simp [rtreqRecv, pc, RtreqPc.unread] at read hunread
      subst read
      exact ⟨rfl, rfl⟩
    simp only [SystemState.ahead]
    omega

/-- An answer after the deadline is a worker's last. -/
theorem Follows.ahead_of_brokerClock (h : Follows workers stage s) {now : Int}
    (late : Late s (.brokerClock now))
    (taken : systemStep workers s (.brokerClock now) = some (t, out)) :
    t.ahead workers < s.ahead workers := by
  cases hpc : s.broker.pc with
  | identity | delimiter | body | closed => simp [systemStep, rtreqClock, hpc] at taken
  | setup =>
      simp only [systemStep, rtreqClock, hpc, Option.some.injEq, Prod.mk.injEq] at taken
      obtain ⟨rfl, rfl⟩ := taken
      have before : s.broker.pc.ahead = 1 := by rw [hpc]; rfl
      have after : RtreqPc.identity.ahead = 0 := rfl
      simp only [SystemState.ahead]
      omega
  | clock =>
      obtain ⟨worker, hsending⟩ := h.sending (by rw [hpc]; rfl)
      rw [hpc] at hsending
      have served : s.broker.serving = some worker := by
        simp [RtreqState.serving, hpc, RtreqPc.engaged, hsending]
      have source : stage worker = .handling := (h.serving worker).mpr served
      have member := h.members worker (by simp [source])
      have expired : ¬ now < s.broker.endTime := by
        have deadline := late.resolve_left (by simp [hpc])
        omega
      simp only [systemStep, rtreqClock, hpc, expired, if_false, hsending, RtreqPc.sent,
        List.cons_append, List.nil_append, SystemState.post, member, if_true, Option.some.injEq,
        Prod.mk.injEq] at taken
      obtain ⟨rfl, rfl⟩ := taken
      have asked := h.ends worker
      rw [source] at asked
      obtain ⟨before, after⟩ := asked.told
      have sum := ahead_update s member ⟨(s.worker worker).pc, (s.worker worker).total,
        (s.worker worker).up, (s.worker worker).down ++ [[[], exitText]]⟩
      have answering : s.broker.pc.ahead = 2 := by rw [hpc]; rfl
      have free (last : Prop) [Decidable last] :
          (if last then RtreqPc.closed else RtreqPc.identity).ahead = 0 := by
        split <;> rfl
      simp only [SystemState.ahead, free]
      omega

/-- Every step after the deadline leaves less to do. -/
theorem Follows.ahead_lt (h : Follows workers stage s) (late : Late s e)
    (taken : (system workers).step s e = some (t, out)) : t.ahead workers < s.ahead workers := by
  cases e with
  | workerSend worker =>
      simp only [system, systemStep, Option.ite_none_right_eq_some, Option.map_eq_some_iff] at taken
      obtain ⟨member, next, sends, heq⟩ := taken
      cases heq
      obtain ⟨before, after⟩ := (h.ends worker).send sends
      have sum := ahead_update s member next
      simp only [SystemState.ahead]
      omega
  | workerRecv worker =>
      simp only [system, systemStep, Option.map_eq_some_iff] at taken
      obtain ⟨next, receives, heq⟩ := taken
      cases heq
      obtain ⟨lower, asked⟩ := (h.ends worker).recv receives
      have sum := ahead_update s (h.members worker asked) next
      simp only [SystemState.ahead]
      omega
  | brokerRecv peer => exact h.ahead_of_brokerRecv taken
  | brokerClock now => exact h.ahead_of_brokerClock late taken

/-- What can be left to do. -/
theorem Follows.ahead_le (h : Follows workers stage s) : s.ahead workers ≤ 25 := by
  have each : ∀ n ∈ workers.ids.map fun worker => (s.worker worker).ahead, n ≤ 7 := by
    intro n hmem
    obtain ⟨worker, -, rfl⟩ := List.mem_map.mp hmem
    rw [(h.ends worker).ahead]
    cases stage worker <;> decide
  have total := List.sum_le_card_nsmul _ 7 each
  rw [List.length_map, workers.length, nbrWorkers, Nat.nsmul_eq_mul] at total
  have broker : s.broker.pc.ahead ≤ 4 := by cases s.broker.pc <;> decide
  simp only [SystemState.ahead]
  omega

theorem enabled_of_stuck {u : SystemState} (stuck : (lateFrom workers u).Stuck s)
    (late : Late s e) : ¬ (systemStep workers s e).isSome :=
  Machine.Stuck.not_isSome stuck late

/-- A worker that cannot go on has left or waits for the broker. -/
theorem Follows.worker_of_stuck (h : Follows workers stage s) {u : SystemState}
    (stuck : (lateFrom workers u).Stuck s) {worker : Frame} (member : worker ∈ workers.ids) :
    stage worker = .gone ∨ stage worker = .queued ∨ stage worker = .handling := by
  have send := enabled_of_stuck (e := .workerSend worker) stuck trivial
  have recv := enabled_of_stuck (e := .workerRecv worker) stuck trivial
  obtain ⟨pc, up, down⟩ := h.ends worker
  cases hstage : stage worker with
  | gone => exact Or.inl rfl
  | queued => exact Or.inr (Or.inl rfl)
  | handling => exact Or.inr (Or.inr rfl)
  | asking =>
      rw [hstage] at pc
      simp [systemStep, member, WorkerEnd.send, pc, stagePc] at send
  | answered =>
      rw [hstage] at pc down
      simp [systemStep, WorkerEnd.recv, pc, stagePc, down, stageDown] at recv
      split at recv <;> simp at recv
  | dismissed =>
      rw [hstage] at pc down
      simp [systemStep, WorkerEnd.recv, pc, stagePc, down, stageDown] at recv
      split at recv <;> simp at recv

/-- The broker cannot stop in the middle of a request, nor while one is waiting. -/
theorem Follows.broker_of_stuck (h : Follows workers stage s) {u : SystemState}
    (stuck : (lateFrom workers u).Stuck s) :
    s.broker.pc = .closed ∨ s.broker.pc = .identity ∧ ∀ worker, stage worker ≠ .queued := by
  have clock := enabled_of_stuck (e := .brokerClock s.broker.endTime) stuck (Or.inr (Int.le_refl _))
  have recv := fun peer => enabled_of_stuck (e := .brokerRecv peer) stuck trivial
  have hunread := h.unread
  cases pc : s.broker.pc with
  | closed => exact Or.inl rfl
  | setup => simp [systemStep, rtreqClock, pc] at clock
  | clock => simp [systemStep, rtreqClock, pc] at clock
  | delimiter =>
      rw [pc] at hunread
      simp [systemStep, hunread, RtreqPc.unread, rtreqRecv, pc] at recv
  | body =>
      rw [pc] at hunread
      simp [systemStep, hunread, RtreqPc.unread, rtreqRecv, pc] at recv
  | identity =>
      refine Or.inr ⟨rfl, fun worker queued => ?_⟩
      have hup := (h.ends worker).up
      rw [pc] at hunread
      rw [queued] at hup
      have receives := recv worker
      simp [systemStep, hunread, RtreqPc.unread, hup, stageUp, rtreqRecv, pc] at receives

/-- When nothing can be done, every worker has left. -/
theorem Follows.gone_of_stuck (h : Follows workers stage s) {u : SystemState}
    (stuck : (lateFrom workers u).Stuck s) {worker : Frame} (member : worker ∈ workers.ids) :
    stage worker = .gone := by
  rcases h.worker_of_stuck stuck member with gone | queued | handling
  · exact gone
  · rcases h.broker_of_stuck stuck with closed | ⟨-, none⟩
    · have out := h.closed_iff.mp closed worker member
      simp [queued, Stage.out] at out
    · exact absurd queued (none worker)
  · have serving := (h.serving worker).mp handling
    rcases h.broker_of_stuck stuck with pc | ⟨pc, -⟩ <;>
      simp [RtreqState.serving, pc, RtreqPc.engaged] at serving

end

/-- The broker has left its loop, and every worker has read the one "exit" it was sent, with
all that it has asked answered. -/
def Dismissed (workers : Workers) (os : List SystemOutput) (s : SystemState) : Prop :=
  s.broker.pc = .closed ∧ ∀ worker ∈ workers.ids, (s.worker worker).pc = .finished ∧
    dismissals isExit os worker = 1 ∧ asks os worker = answers os worker

/-- A worker has read its "exit", or it waits and the "exit" is the one message in its
channel. -/
def HasExit (e : WorkerEnd) : Prop :=
  e.pc = .finished ∨ e.pc = .recv ∧ e.down = [[[], exitText]]

/-- A worker that has been sent its "exit" has read it, or will read it next. -/
theorem AtStage.hasExit {stage : Stage} {e : WorkerEnd} (h : AtStage stage e)
    (out : stage.out = true) : HasExit e := by
  cases stage with
  | dismissed => exact Or.inr ⟨h.pc, h.down⟩
  | gone => exact Or.inl h.pc
  | asking | queued | handling | answered => cases out

/-- From every state that a run reaches, whatever the clock has shown before, the broker and
its workers come to an end after 25 steps at most once the clock stays past the deadline,
however they take their turns; and then every worker has been dismissed. From the moment the
loop is left, when `main` may end the process at any time, every worker has been sent its
"exit" and has read it or has it in its channel. -/
theorem dismisses_everyone {workers : Workers} {es : List SystemEvent} {os : List SystemOutput}
    {s : SystemState} (run : (system workers).Run es os s) :
    (lateFrom workers s).Finishes 25 (fun more t => Dismissed workers (os ++ more) t) ∧
    ∀ fs more t, (lateFrom workers s).Run fs more t → t.broker.pc = .closed →
      ∀ worker ∈ workers.ids, dismissals isExit (os ++ more) worker = 1 ∧
        asks (os ++ more) worker = answers (os ++ more) worker ∧ HasExit (t.worker worker) := by
  refine ⟨⟨?_, ?_⟩, ?_⟩
  · intro fs more t late
    have bound : fs.length + t.ahead workers ≤ s.ahead workers := by
      induction late with
      | start => exact Nat.le_of_eq (Nat.zero_add _)
      | extend prior taken ih =>
          obtain ⟨stage, -, follows⟩ := follows_of_run (run.append_resumed prior.of_restrict)
          obtain ⟨deadline, taken⟩ := Machine.step_restrict.mp taken
          have lower := follows.ahead_lt deadline taken
          rw [List.length_append, List.length_singleton]
          omega
    obtain ⟨stage, -, follows⟩ := follows_of_run run
    have start := follows.ahead_le
    omega
  · intro fs more t late stuck
    obtain ⟨stage, tally, follows⟩ := follows_of_run (run.append_resumed late.of_restrict)
    have gone : ∀ worker ∈ workers.ids, stage worker = .gone :=
      fun _ member => follows.gone_of_stuck stuck member
    refine ⟨follows.closed_iff.mpr fun worker member => by rw [gone worker member]; rfl, ?_⟩
    intro worker member
    have asked := tally.asked worker
    have dismissed := tally.dismissed worker
    rw [gone worker member] at asked dismissed
    exact ⟨by rw [(follows.ends worker).pc, gone worker member]; rfl, dismissed, asked⟩
  · intro fs more t late closed worker member
    obtain ⟨stage, tally, follows⟩ := follows_of_run (run.append_resumed late.of_restrict)
    have out := follows.closed_iff.mp closed worker member
    have dismissed := tally.dismissed worker
    have asked := tally.asked worker
    rw [Stage.dismissals, out] at dismissed
    rw [← follows.outstanding_eq worker, follows.outstanding_of_closed closed worker] at asked
    exact ⟨dismissed, asked, (follows.ends worker).hasExit out⟩

/-- One worker has been dismissed, and the clock has gone back; another has been told to go
on. After the deadline the loop is left when the third has not read its "exit". -/
theorem dismisses_everyone_backwards :
    ∃ os s, (system Workers.digits).Run (backwardsRun.take 13) os s ∧
      dismissals isExit os [49] = 1 ∧ answers os [50] = 1 ∧
      ((lateFrom Workers.digits s).Finishes 25 fun more t =>
        Dismissed Workers.digits (os ++ more) t) ∧
      ∃ more t, (lateFrom Workers.digits s).Run (backwardsRun.drop 13).dropLast more t ∧
        t.broker.pc = .closed ∧ (t.worker [51]).pc = .recv ∧
        ∀ worker ∈ Workers.digits.ids, HasExit (t.worker worker) := by
  have hexec : ((system Workers.digits).exec (system Workers.digits).init
      (backwardsRun.take 13)).bind (fun r =>
        ((lateFrom Workers.digits r.1).exec r.1 (backwardsRun.drop 13).dropLast).map fun q =>
          (dismissals isExit r.2 [49], answers r.2 [50], q.1.broker.pc, (q.1.worker [51]).pc)) =
      some (1, 1, .closed, .recv) := by decide +kernel
  obtain ⟨⟨s, os⟩, first, rest⟩ := Option.bind_eq_some_iff.mp hexec
  have run := Machine.run_of_exec first
  obtain ⟨more, t, late, hsee⟩ := Machine.run_of_map_exec rest
  simp only [Prod.mk.injEq] at hsee
  obtain ⟨dismissed, answered, closed, waiting⟩ := hsee
  obtain ⟨finishes, left⟩ := dismisses_everyone run
  exact ⟨os, s, run, dismissed, answered, finishes, more, t, late, closed, waiting,
    fun worker member => (left _ more t late closed worker member).2.2⟩

end ZmqTest.Rtreq
