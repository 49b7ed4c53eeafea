/-
# When the end is published

The sink counts one message more than there are tasks, and that is all the
ventilator ever sends. So when it publishes the end, everything that was sent has
been received, nothing stands anywhere between the programs, and each task has been
executed once, by one worker. Which of the messages the sink took for the start
signal makes no difference to this.
-/

import Mathlib.Data.List.Perm.Basic
import ZmqTest.Task.System

namespace ZmqTest.Task

variable {Worker : Type}

@[simp]
def SystemOutput.sent? : SystemOutput Worker → Option Message
  | .sent msg => some msg
  | _ => none

@[simp]
def SystemOutput.executed? : SystemOutput Worker → Option (Worker × Message)
  | .executed worker msg => some (worker, msg)
  | _ => none

@[simp]
def SystemOutput.received? : SystemOutput Worker → Option Message
  | .received msg => some msg
  | _ => none

/-- What the ventilator has sent, in order. -/
def sentMessages (os : List (SystemOutput Worker)) : List Message :=
  os.filterMap SystemOutput.sent?

/-- What the workers have executed, in order. -/
def executedMessages (os : List (SystemOutput Worker)) : List (Worker × Message) :=
  os.filterMap SystemOutput.executed?

/-- What the sink has received, in order. -/
def receivedMessages (os : List (SystemOutput Worker)) : List Message :=
  os.filterMap SystemOutput.received?

/-- The workers that have executed a task, one entry for each time. -/
def executors (os : List (SystemOutput Worker)) (taskNbr : Nat) : List Worker :=
  (executedMessages os).filterMap fun (worker, msg) =>
    if msg.number = some taskNbr then some worker else none

@[simp]
theorem sentMessages_append (os out : List (SystemOutput Worker)) :
    sentMessages (os ++ out) = sentMessages os ++ sentMessages out :=
  List.filterMap_append

@[simp]
theorem executedMessages_append (os out : List (SystemOutput Worker)) :
    executedMessages (os ++ out) = executedMessages os ++ executedMessages out :=
  List.filterMap_append

@[simp]
theorem receivedMessages_append (os out : List (SystemOutput Worker)) :
    receivedMessages (os ++ out) = receivedMessages os ++ receivedMessages out :=
  List.filterMap_append

@[simp]
theorem sentMessages_singleton (output : SystemOutput Worker) :
    sentMessages [output] = output.sent?.toList := by
  cases output <;> rfl

@[simp]
theorem executedMessages_singleton (output : SystemOutput Worker) :
    executedMessages [output] = output.executed?.toList := by
  cases output <;> rfl

@[simp]
theorem receivedMessages_singleton (output : SystemOutput Worker) :
    receivedMessages [output] = output.received?.toList := by
  cases output <;> rfl

def Message.isStart (msg : Message) : Bool := msg.number = none

/-- What the ventilator has sent by now. -/
def VentilatorPc.numbers : VentilatorPc → List (Option Nat)
  | .start => []
  | .loop taskNbr => none :: (List.range taskNbr).map some

/-- The start signal, when it has been sent. -/
def VentilatorPc.signals : VentilatorPc → List Message
  | .start => []
  | .loop _ => [startSignal]

/-- How many messages the sink has received by now. -/
def SinkPc.taken : SinkPc → Nat
  | .start => 0
  | .loop taskNbr => taskNbr + 1
  | .killed => nbrTasks + 1

/-- The worker has seen that the end is published. -/
def WorkerPc.ending : WorkerPc → Bool
  | .poll => false
  | .recv revents1 => revents1
  | .work revents1 => revents1
  | .stopped => true

theorem SinkPc.taken_of_count {sink next : SinkPc} (h : sink.count = some next) :
    next.taken = sink.taken + 1 := by
  cases sink with
  | start =>
      obtain rfl := Option.some.inj h
      rfl
  | loop taskNbr =>
      obtain ⟨-, rfl⟩ : taskNbr < nbrTasks ∧ .loop (taskNbr + 1) = next := by
        simpa [SinkPc.count] using h
      rfl
  | killed => cases h

/-- A text that fits the buffer and has no NUL byte survives it. -/
theorem buffered_eq_self {msg : Message} (fits : msg.text.length < 256) (text : 0 ∉ msg.text) :
    msg.buffered = msg := by
  rw [Message.buffered, received_eq_self fits text]

theorem randof_hundred_lt (draw : Random) : randof 100 draw + 1 < 1000 := by
  have h := randof_le (by decide : rnd24 100 = 100) draw
  omega

theorem startSignal_buffered : startSignal.buffered = startSignal := by decide

theorem task_buffered (taskNbr : Nat) (draw : Random) :
    (task taskNbr draw).buffered = task taskNbr draw := by
  apply buffered_eq_self
  · have h : (decimal (randof 100 draw + 1)).length ≤ 2 + 1 :=
      length_decimal_le_iff.mpr (randof_hundred_lt draw)
    exact Nat.lt_of_le_of_lt h (by decide)
  · intro hzero
    have hmem : 0 ∈ decimal (randof 100 draw + 1) := hzero
    exact absurd (isDigit_of_mem_decimal hmem) (by decide)

variable [DecidableEq Worker]

/-- Where everything is: what was sent stands in the network or has been received,
and what was executed, besides the start signal, stands in front of the sink or has
been received. -/
structure Accounted (os : List (SystemOutput Worker)) (s : SystemState Worker) : Prop where
  numbered : (sentMessages os).map Message.number = s.ventilator.numbers
  signals : (sentMessages os).filter Message.isStart = s.ventilator.signals
  bounded : s.ventilator.numbers.length ≤ nbrTasks + 1
  intact : ∀ msg ∈ sentMessages os, msg.buffered = msg
  conserved : (s.net.map Prod.snd ++ receivedMessages os).Perm (sentMessages os)
  worked : ((executedMessages os).map Prod.snd ++ (sentMessages os).filter Message.isStart).Perm
    (s.net.contents .results ++ receivedMessages os)
  counted : (receivedMessages os).length = s.sink.taken
  ended : ∀ worker, (s.worker worker).ending = true → s.sink = .killed
  working : ∀ worker revents1, s.worker worker = .work revents1 →
    ∃ msg, (.hands worker, msg) ∈ s.net

theorem Accounted.init : Accounted [] (system Worker).init where
  numbered := rfl
  signals := rfl
  bounded := Nat.zero_le _
  intact := by simp [sentMessages]
  conserved := List.Perm.nil
  worked := List.Perm.nil
  counted := rfl
  ended := by simp [system, systemInit, WorkerPc.ending]
  working := by simp [system, systemInit]

section

variable {os out : List (SystemOutput Worker)} {s t : SystemState Worker}
  {e : SystemEvent Worker}

/-- What is taken from the network is intact. -/
theorem Accounted.intact_of_perm (h : Accounted os s) {loc : Loc Worker} {msg : Message}
    {left : Network (Loc Worker) Message} (taken : s.net.Perm ((loc, msg) :: left)) :
    msg.buffered = msg := by
  apply h.intact
  apply h.conserved.mem_iff.mp
  apply List.mem_append_left
  exact List.mem_map_of_mem (taken.mem_iff.mpr List.mem_cons_self)

/-- What is sent, put somewhere, and taken from somewhere stays accounted for. -/
theorem Accounted.conserved_of {net : Network (Loc Worker) Message} (h : Accounted os s)
    {sent received : List Message}
    (moved : (net.map Prod.snd ++ received).Perm (s.net.map Prod.snd ++ sent))
    (hsent : sentMessages out = sent) (hreceived : receivedMessages out = received) :
    (net.map Prod.snd ++ receivedMessages (os ++ out)).Perm (sentMessages (os ++ out)) := by
  rw [List.perm_iff_count]
  intro other
  have hcount := h.conserved.count_eq other
  have hmoved := moved.count_eq other
  simp only [receivedMessages_append, sentMessages_append, hsent, hreceived,
    List.count_append] at hcount hmoved ⊢
  omega

/-- So does what is executed and what the sink finds. -/
theorem Accounted.worked_of {net : Network (Loc Worker) Message} (h : Accounted os s)
    {executed sent received : List Message}
    (moved : (net.contents .results ++ received).Perm
      (s.net.contents .results ++ (executed ++ sent.filter Message.isStart)))
    (hexecuted : (executedMessages out).map Prod.snd = executed)
    (hsent : sentMessages out = sent) (hreceived : receivedMessages out = received) :
    ((executedMessages (os ++ out)).map Prod.snd ++
      (sentMessages (os ++ out)).filter Message.isStart).Perm
        (net.contents .results ++ receivedMessages (os ++ out)) := by
  rw [List.perm_iff_count]
  intro other
  have hcount := h.worked.count_eq other
  have hmoved := moved.count_eq other
  simp only [receivedMessages_append, sentMessages_append, executedMessages_append, hsent,
    hreceived, hexecuted, List.map_append, List.filter_append, List.count_append] at hcount hmoved ⊢
  omega

/-- A step of one worker that knows of the end only when it is published. -/
theorem Accounted.ended_update (h : Accounted os s) {worker : Worker} {pc : WorkerPc}
    (known : pc.ending = true → s.sink = .killed) (other : Worker)
    (ending : (Function.update s.worker worker pc other).ending = true) : s.sink = .killed := by
  by_cases same : other = worker
  · subst same
    exact known (by simpa using ending)
  · exact h.ended other (by simpa [same] using ending)

omit [DecidableEq Worker] in
/-- What is somewhere else is left. -/
theorem mem_left_of_ne {net left : Network (Loc Worker) Message} {loc place : Loc Worker}
    {msg held : Message} (found : net.Perm ((loc, msg) :: left)) (hmem : (place, held) ∈ net)
    (hne : place ≠ loc) : (place, held) ∈ left := by
  rcases List.mem_cons.mp (found.mem_iff.mp hmem) with heq | hmem
  · exact absurd (congrArg Prod.fst heq) hne
  · exact hmem

/-- A worker that works has a task in its hands, when it is in those of one worker that
something has changed. -/
theorem Accounted.working_update (h : Accounted os s) {worker : Worker} {pc : WorkerPc}
    {net : Network (Loc Worker) Message}
    (here : ∀ revents1, pc = .work revents1 → ∃ msg, (.hands worker, msg) ∈ net)
    (kept : ∀ other msg, other ≠ worker → (.hands other, msg) ∈ s.net →
      (.hands other, msg) ∈ net)
    (other : Worker) (revents1 : Bool)
    (hpc : Function.update s.worker worker pc other = .work revents1) :
    ∃ msg, (.hands other, msg) ∈ net := by
  by_cases same : other = worker
  · subst same
    exact here revents1 (by simpa using hpc)
  · obtain ⟨msg, hmem⟩ := h.working other revents1 (by simpa [same] using hpc)
    exact ⟨msg, kept other msg same hmem⟩

omit [DecidableEq Worker] in
/-- A message goes from one place to another. -/
theorem map_snd_of_moved {net left : Network (Loc Worker) Message} {loc place : Loc Worker}
    {msg : Message} (found : net.Perm ((loc, msg) :: left)) :
    ((left.send place msg).map Prod.snd).Perm (net.map Prod.snd) := by
  rw [Network.send, List.map_append]
  exact List.perm_append_comm.trans (found.map Prod.snd).symm

/-- The ventilator sends its next message. -/
theorem Accounted.send (h : Accounted os s) {msg : Message} {loc : Loc Worker}
    {pc : VentilatorPc} (numbers : pc.numbers = s.ventilator.numbers ++ [msg.number])
    (signals : pc.signals = s.ventilator.signals ++ [msg].filter Message.isStart)
    (bounded : pc.numbers.length ≤ nbrTasks + 1) (intact : msg.buffered = msg)
    (place : (if loc = .results then [msg] else []) = [msg].filter Message.isStart) :
    Accounted (os ++ [.sent msg])
      { s with ventilator := pc, net := s.net.send loc msg } := by
  have sent : sentMessages [(.sent msg : SystemOutput Worker)] = [msg] := rfl
  refine ⟨?_, ?_, bounded, ?_, h.conserved_of ?_ rfl rfl, h.worked_of ?_ rfl rfl rfl, ?_, h.ended,
    ?_⟩
  · rw [sentMessages_append, List.map_append, h.numbered, sent, numbers]
    rfl
  · rw [sentMessages_append, List.filter_append, h.signals, sent, signals]
  · intro other hmem
    rw [sentMessages_append, List.mem_append, sent] at hmem
    rcases hmem with hold | hnew
    · exact h.intact other hold
    · rw [List.mem_singleton.mp hnew, intact]
  · simp [Network.send]
  · rw [Network.contents_send, place]
    simp
  · simpa using h.counted
  · intro worker revents1 hpc
    obtain ⟨held, hmem⟩ := h.working worker revents1 hpc
    exact ⟨held, List.mem_append_left _ hmem⟩

theorem Accounted.step (h : Accounted os s) (taken : (system Worker).step s e = some (t, out)) :
    Accounted (os ++ out) t := by
  cases systemMoves_of_step taken with
  | ventilatorStart pc =>
      refine h.send ?_ ?_ (by simp [VentilatorPc.numbers]) startSignal_buffered ?_
      · simp [pc, VentilatorPc.numbers, startSignal]
      · simp [pc, VentilatorPc.signals, startSignal, Message.isStart]
      · simp [startSignal, Message.isStart]
  | ventilatorTask draw taskNbr pc more =>
      refine h.send ?_ ?_ ?_ (task_buffered taskNbr draw) ?_
      · simp [pc, VentilatorPc.numbers, task, List.range_succ]
      · simp [pc, VentilatorPc.signals, task, Message.isStart]
      · simpa [VentilatorPc.numbers] using Nat.succ_le_of_lt more
      · simp [task, Message.isStart]
  | workerPoll worker revents0 revents1 pc published =>
      rw [List.append_nil]
      refine ⟨h.numbered, h.signals, h.bounded, h.intact, h.conserved, h.worked, h.counted, ?_, ?_⟩
      · apply h.ended_update
        intro ending
        apply published
        cases revents0 <;> cases revents1 <;> simp_all [afterPoll, afterTask, WorkerPc.ending]
      · apply h.working_update
        · intro flag hpc
          cases revents0 <;> cases revents1 <;> simp [afterPoll, afterTask] at hpc
        · exact fun _ _ _ hmem => hmem
  | workerRecv worker index revents1 msg left pc found =>
      rw [List.append_nil, h.intact_of_perm found]
      have hresults := Network.contents_of_perm found .results
      refine ⟨h.numbered, h.signals, h.bounded, h.intact, ?_, ?_, h.counted, ?_, ?_⟩
      · exact ((map_snd_of_moved found).append_right _).trans h.conserved
      · apply h.worked.trans
        apply List.Perm.append_right
        simpa [Network.contents_send] using hresults
      · apply h.ended_update
        intro ending
        exact h.ended worker (by rw [pc]; exact ending)
      · apply h.working_update
        · exact fun _ _ => ⟨msg, List.mem_append_right _ List.mem_cons_self⟩
        · intro other held hne hmem
          exact List.mem_append_left _ (mem_left_of_ne found hmem (by simp))
  | workerSend worker revents1 msg left pc found =>
      have hresults := Network.contents_of_perm found .results
      refine ⟨by simpa using h.numbered, by simpa using h.signals, h.bounded,
        by simpa using h.intact, h.conserved_of ?_ rfl rfl, h.worked_of ?_ rfl rfl rfl,
        by simpa using h.counted, ?_, ?_⟩
      · simpa using map_snd_of_moved found
      · rw [Network.contents_send, if_pos rfl]
        simpa using hresults.symm.append_right [msg]
      · apply h.ended_update
        intro ending
        apply h.ended worker
        rw [pc]
        cases revents1 <;> simp_all [afterTask, WorkerPc.ending]
      · apply h.working_update
        · intro flag hpc
          cases revents1 <;> simp [afterTask] at hpc
        · intro other held hne hmem
          exact List.mem_append_left _ (mem_left_of_ne found hmem (by simp [hne]))
  | sinkRecv index sink msg left counted found =>
      rw [h.intact_of_perm found]
      have hresults := Network.contents_of_perm found .results
      refine ⟨by simpa using h.numbered, by simpa using h.signals, h.bounded,
        by simpa using h.intact, h.conserved_of ?_ rfl rfl, h.worked_of ?_ rfl rfl rfl, ?_, ?_, ?_⟩
      · simpa using List.perm_append_comm.trans (found.map Prod.snd).symm
      · simpa using List.perm_append_comm.trans hresults.symm
      · simpa [SinkPc.taken_of_count counted] using h.counted
      · intro other ending
        rw [h.ended other ending] at counted
        cases counted
      · intro other flag hpc
        obtain ⟨held, hmem⟩ := h.working other flag hpc
        exact ⟨held, mem_left_of_ne found hmem (by simp)⟩
  | sinkKill pc =>
      have hcounted : (receivedMessages os).length = SinkPc.killed.taken := by
        rw [h.counted, pc]
        rfl
      exact ⟨by simpa using h.numbered, by simpa using h.signals, h.bounded,
        by simpa using h.intact, by simpa using h.conserved, by simpa using h.worked,
        by simpa using hcounted, fun _ _ => rfl, h.working⟩

theorem accounted_of_run {es : List (SystemEvent Worker)} (run : (system Worker).Run es os s) :
    Accounted os s :=
  run.output_invariant Accounted.init fun _ _ _ _ _ h taken => h.step taken

/-! ## The end -/

/-- When the end is published everything has been sent and nothing stands anywhere. -/
theorem Accounted.complete (h : Accounted os s) (killed : s.sink = .killed) :
    s.net = [] ∧ s.ventilator = .loop nbrTasks := by
  have hlength := h.conserved.length_eq
  have hsent := congrArg List.length h.numbered
  have hbounded := h.bounded
  have hcounted := h.counted
  rw [killed, SinkPc.taken] at hcounted
  rw [List.length_append, List.length_map] at hlength
  rw [List.length_map] at hsent
  have hnet : s.net.length = 0 := by omega
  refine ⟨List.eq_nil_of_length_eq_zero hnet, ?_⟩
  cases hpc : s.ventilator with
  | start =>
      simp only [hpc, VentilatorPc.numbers, List.length_nil] at hsent
      omega
  | loop taskNbr =>
      simp only [hpc, VentilatorPc.numbers, List.length_cons, List.length_map,
        List.length_range] at hsent hbounded
      have hall : taskNbr = nbrTasks := by omega
      rw [hall]

/-- Then the sink has received the start signal and what was executed. -/
theorem Accounted.received_perm (h : Accounted os s) (killed : s.sink = .killed) :
    (receivedMessages os).Perm (startSignal :: (executedMessages os).map Prod.snd) := by
  obtain ⟨hnet, hpc⟩ := h.complete killed
  have hworked := h.worked
  rw [h.signals, hnet, hpc] at hworked
  exact hworked.symm.trans List.perm_append_comm

/-- And the executed tasks are those that were sent, by their numbers. -/
theorem Accounted.executed_numbers (h : Accounted os s) (killed : s.sink = .killed) :
    ((executedMessages os).map fun entry => entry.2.number).Perm
      ((List.range nbrTasks).map some) := by
  obtain ⟨hnet, hpc⟩ := h.complete killed
  have hconserved := h.conserved
  rw [hnet, List.map_nil, List.nil_append] at hconserved
  have hnumbers := ((h.received_perm killed).symm.trans hconserved).map Message.number
  rw [h.numbered, hpc, List.map_cons, List.map_map] at hnumbers
  exact hnumbers.cons_inv

omit [DecidableEq Worker] in
/-- A number that occurs once among the executed tasks has one executor. -/
theorem exists_executor {numbers : List (Option Nat)} {taskNbr : Nat}
    (all : ((executedMessages os).map fun entry => entry.2.number).Perm numbers)
    (once : numbers.count (some taskNbr) = 1) : ∃ worker, executors os taskNbr = [worker] := by
  apply List.length_eq_one_iff.mp
  rw [← once, ← all.count_eq, List.count, List.countP_map, executors,
    List.length_filterMap_eq_countP]
  apply List.countP_congr
  intro entry _
  by_cases h : entry.2.number = some taskNbr <;> simp [h]

/-- The sink publishes the end only when each task has been executed once, by one
worker, and everything that was sent has been received; then no task and no result is
on its way or being worked on. A worker leaves its loop only after that. -/
theorem killed_when_done {es : List (SystemEvent Worker)}
    (run : (system Worker).Run es os s) :
    (s.sink = .killed →
      s.net = [] ∧ s.ventilator = .loop nbrTasks ∧
      (∀ worker revents1, s.worker worker ≠ .work revents1) ∧
      (∀ taskNbr < nbrTasks, ∃ worker, executors os taskNbr = [worker]) ∧
      (receivedMessages os).Perm
        (startSignal :: (executedMessages os).map Prod.snd)) ∧
    ∀ worker, s.worker worker = .stopped → s.sink = .killed := by
  have h := accounted_of_run run
  constructor
  · intro killed
    obtain ⟨hnet, hpc⟩ := h.complete killed
    refine ⟨hnet, hpc, ?_, ?_, ?_⟩
    · intro worker revents1 hwork
      obtain ⟨msg, hmem⟩ := h.working worker revents1 hwork
      rw [hnet] at hmem
      cases hmem
    · intro taskNbr hlt
      apply exists_executor (h.executed_numbers killed)
      rw [List.count_map_of_injective _ _ (Option.some_injective Nat)]
      exact List.count_eq_one_of_mem List.nodup_range (List.mem_range.mpr hlt)
    · exact h.received_perm killed
  · intro worker stopped
    exact h.ended worker (by rw [stopped]; rfl)

end

/-- One worker executes all the tasks, and every result reaches the sink before the
start signal, so that the first one is taken for it. -/
def batchRun : List (SystemEvent Unit) :=
  .ventilatorStart :: (List.replicate nbrTasks
    [.ventilatorTask 0, .workerPoll () true false, .workerRecv () 1, .workerSend (),
      .sinkRecv 1]).flatten ++ [.sinkRecv 0, .sinkKill, .workerPoll () false true]

theorem killed_when_done_batch :
    ∃ os s, (system Unit).Run batchRun os s ∧ s.sink = .killed ∧ s.worker () = .stopped ∧
      s.net = [] ∧ (∀ taskNbr < nbrTasks, ∃ worker, executors os taskNbr = [worker]) ∧
      ∀ worker, s.worker worker = .stopped → s.sink = .killed := by
  have h : ((system Unit).exec (system Unit).init batchRun).map
      (fun r => (r.1.sink, r.1.worker ())) = some (.killed, .stopped) := by decide +kernel
  obtain ⟨os, s, run, hsee⟩ := Machine.run_of_map_exec h
  obtain ⟨killed, stopped⟩ := Prod.mk.inj hsee
  obtain ⟨done, left⟩ := killed_when_done run
  obtain ⟨hnet, -, -, once, -⟩ := done killed
  exact ⟨os, s, run, killed, stopped, hnet, once, left⟩

end ZmqTest.Task
