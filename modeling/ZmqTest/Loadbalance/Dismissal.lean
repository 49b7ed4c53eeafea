/-
# The clean shutdown of rtreq.c

The broker and its workers call a roll: a worker asks and waits, the broker takes one
request at a time and answers it, and "exit" is the last answer a worker gets. Every
state of the system is that of a roll call, seen from each worker and from the frames
the broker has read and sent, and the broker's counter is the number of workers that
are out.
-/

import ZmqTest.Loadbalance.Rtreq

namespace ZmqTest.Rtreq

open RollCall

/-- "exit" is the last answer. -/
def isExit (text : Frame) : Bool := text = exitText

/-- Where a worker stands at each stage. -/
def stagePc : Stage → WorkerPc
  | .asking => .send
  | .gone => .finished
  | _ => .recv

/-- The channel from a worker at each stage. -/
def stageUp : Stage → List Zmsg
  | .queued => [[[], helloText]]
  | _ => []

/-- The channel to a worker at each stage. -/
def stageDown : Stage → List Zmsg
  | .answered => [[[], okText]]
  | .dismissed => [[[], exitText]]
  | _ => []

/-- A worker and its channels are as the stage has them. -/
structure AtStage (stage : Stage) (e : WorkerEnd) : Prop where
  pc : e.pc = stagePc stage
  up : e.up = stageUp stage
  down : e.down = stageDown stage

/-- The frames of a request that the broker still has to read. -/
def RtreqPc.unread : RtreqPc → List Frame
  | .delimiter => [[], helloText]
  | .body => [helloText]
  | _ => []

/-- The broker has begun to read a request and not answered it. -/
def RtreqPc.engaged : RtreqPc → Bool
  | .delimiter => true
  | .body => true
  | .clock => true
  | _ => false

/-- The worker whose request that is. -/
def RtreqState.serving (s : RtreqState) : Option Frame :=
  if s.pc.engaged then s.sending.head? else none

/-- How many requests of a worker have been sent and not answered. -/
def SystemState.outstanding (s : SystemState) (worker : Frame) : Nat :=
  (s.worker worker).up.length + if s.broker.serving = some worker then 1 else 0

/-- The frames of the answer behind the identity. -/
def RtreqPc.sent : RtreqPc → Zmsg
  | .clock => [[]]
  | _ => []

/-- The system is at a roll call with the workers at these stages. -/
structure Follows (workers : Workers) (stage : Frame → Stage) (s : SystemState) : Prop where
  ends : ∀ worker, AtStage (stage worker) (s.worker worker)
  members : ∀ worker, stage worker ≠ .asking → worker ∈ workers.ids
  serving : ∀ worker, stage worker = .handling ↔ s.broker.serving = some worker
  unread : s.unread = s.broker.pc.unread
  sending : s.broker.pc.engaged = true →
    ∃ worker, s.broker.sending = worker :: s.broker.pc.sent
  exited : s.broker.workersExited = workers.ids.countP fun worker => (stage worker).out
  closed : s.broker.pc = .closed ↔ s.broker.workersExited = nbrWorkers

theorem Follows.init (workers : Workers) :
    Follows workers (rollCall isExit).init (system workers).init where
  ends := fun _ => ⟨rfl, rfl, rfl⟩
  members := by simp [rollCall]
  serving := by simp [rollCall, system, systemInit, rtreqInit, RtreqState.serving,
    RtreqPc.engaged]
  unread := rfl
  sending := by simp [system, systemInit, rtreqInit, RtreqPc.engaged]
  exited := by simp [rollCall, system, systemInit, rtreqInit, Stage.out]
  closed := by simp [system, systemInit, rtreqInit, nbrWorkers]

section

variable {workers : Workers} {stage : Frame → Stage} {s t : SystemState} {e : SystemEvent}
  {os out : List SystemOutput}

theorem Follows.members_update (h : Follows workers stage s) {worker : Frame} {target : Stage}
    (member : worker ∈ workers.ids) (v : Frame)
    (hne : Function.update stage worker target v ≠ .asking) : v ∈ workers.ids := by
  by_cases hv : v = worker
  · exact hv ▸ member
  · exact h.members v (by simpa [hv] using hne)

/-- A step of one worker, with the broker left out of it. -/
theorem Follows.move (h : Follows workers stage s) {worker : Frame} {next : WorkerEnd}
    {target : Stage} (moved : AtStage target next) (member : worker ∈ workers.ids)
    (source : stage worker ≠ .handling) (other : target ≠ .handling)
    (same : target.out = (stage worker).out) :
    Follows workers (Function.update stage worker target)
      { s with worker := Function.update s.worker worker next } := by
  refine ⟨related_update (fun _ => AtStage) h.ends moved, h.members_update member, ?_,
    h.unread, h.sending, ?_, h.closed⟩
  · intro v
    by_cases hv : v = worker
    · subst hv
      have hnot : s.broker.serving ≠ some v := fun hserving => source ((h.serving v).mpr hserving)
      simp [other, hnot]
    · simpa [hv] using h.serving v
  · rw [h.exited, countP_update_of_eq same]

theorem Follows.workerSend (h : Follows workers stage s) {worker : Frame}
    (taken : systemStep workers s (.workerSend worker) = some (t, out)) :
    ∃ fs next, (rollCall isExit).exec stage fs = some (next, out) ∧ Follows workers next t := by
  simp only [systemStep, Option.ite_none_right_eq_some, Option.map_eq_some_iff] at taken
  obtain ⟨member, next, hsend, heq⟩ := taken
  obtain ⟨rfl, rfl⟩ := Prod.mk.inj heq
  simp only [WorkerEnd.send, Option.ite_none_right_eq_some, Option.some.injEq] at hsend
  obtain ⟨hpc, hnext⟩ := hsend
  have source : stage worker = .asking := by
    have hstage := (h.ends worker).pc
    rw [hpc] at hstage
    cases hw : stage worker <;> simp [hw, stagePc] at hstage ⊢
  have hup := (h.ends worker).up
  have hdown := (h.ends worker).down
  rw [source] at hup hdown
  have exec := exec_event isExit (.ask worker) source
  have moved : Follows workers (Function.update stage worker .queued)
      { s with worker := Function.update s.worker worker next } :=
    h.move ⟨by rw [← hnext]; rfl, by rw [← hnext, hup]; rfl, by rw [← hnext]; exact hdown⟩ member
      (by simp [source]) (by simp) (by simp [source, Stage.out])
  exact ⟨_, _, exec, moved⟩

theorem Follows.workerRecv (h : Follows workers stage s) {worker : Frame}
    (taken : systemStep workers s (.workerRecv worker) = some (t, out)) :
    ∃ fs next, (rollCall isExit).exec stage fs = some (next, out) ∧ Follows workers next t := by
  simp only [systemStep, Option.map_eq_some_iff] at taken
  obtain ⟨next, hrecv, heq⟩ := taken
  obtain ⟨rfl, rfl⟩ := Prod.mk.inj heq
  obtain ⟨hpc, hup, hdown⟩ := h.ends worker
  have hok : received 256 okText ≠ exitText := by decide
  have hexit : received 256 exitText = exitText := by decide
  cases source : stage worker with
  | answered =>
      rw [source] at hpc hup hdown
      have member := h.members worker (by simp [source])
      simp only [WorkerEnd.recv, hpc, hdown, stagePc, stageDown, hok, if_false,
        Option.some.injEq] at hrecv
      have exec := exec_event isExit (.resume worker) source
      have moved : Follows workers (Function.update stage worker .asking)
          { s with worker := Function.update s.worker worker next } :=
        h.move ⟨by rw [← hrecv]; rfl, by rw [← hrecv]; exact hup, by rw [← hrecv]; rfl⟩ member
          (by simp [source]) (by simp) (by simp [source, Stage.out])
      exact ⟨_, _, exec, moved⟩
  | dismissed =>
      rw [source] at hpc hup hdown
      have member := h.members worker (by simp [source])
      simp only [WorkerEnd.recv, hpc, hdown, stagePc, stageDown, hexit, if_true,
        Option.some.injEq] at hrecv
      have exec := exec_event isExit (.leave worker) source
      have moved : Follows workers (Function.update stage worker .gone)
          { s with worker := Function.update s.worker worker next } :=
        h.move ⟨by rw [← hrecv]; rfl, by rw [← hrecv]; exact hup, by rw [← hrecv]; rfl⟩ member
          (by simp [source]) (by simp) (by simp [source, Stage.out])
      exact ⟨_, _, exec, moved⟩
  | asking | queued | handling | gone =>
      rw [source] at hpc hdown
      simp [WorkerEnd.recv, hpc, hdown, stagePc, stageDown] at hrecv

/-- A step of the broker that the workers do not see. -/
theorem Follows.alone (h : Follows workers stage s) {broker : RtreqState}
    {unread : List Frame} (serving : broker.serving = s.broker.serving)
    (left : unread = broker.pc.unread)
    (sending : broker.pc.engaged = true → ∃ worker, broker.sending = worker :: broker.pc.sent)
    (exited : broker.workersExited = s.broker.workersExited)
    (closed : s.broker.pc ≠ .closed) (still : broker.pc ≠ .closed) :
    Follows workers stage { s with broker := broker, unread := unread } := by
  refine ⟨h.ends, h.members, ?_, left, sending, ?_, ?_⟩
  · intro worker
    rw [serving]
    exact h.serving worker
  · rw [exited]
    exact h.exited
  · rw [exited, ← h.closed]
    exact iff_of_false still closed

/-- The broker begins to read a request and to answer it. -/
theorem Follows.begin (h : Follows workers stage s) {peer : Frame} {broker : RtreqState}
    {msg : Zmsg} {more : List Zmsg} (waiting : (s.worker peer).up = msg :: more)
    (free : s.unread = []) (read : rtreqRecv s.broker peer = some broker) :
    (rollCall isExit).exec stage [.take peer] = some (Function.update stage peer .handling, []) ∧
      Follows workers (Function.update stage peer .handling)
        { broker := broker
          unread := msg
          worker := Function.update s.worker peer { s.worker peer with up := more } } := by
  obtain ⟨hwaiting, hup, hdown⟩ := h.ends peer
  rw [waiting] at hup
  have source : stage peer = .queued := by
    cases hw : stage peer <;> simp [hw, stageUp] at hup ⊢
  rw [source] at hwaiting hdown
  simp only [source, stageUp, List.cons.injEq] at hup
  obtain ⟨rfl, rfl⟩ := hup
  have member := h.members peer (by simp [source])
  have intact : received 256 peer = peer :=
    received_eq_self (workers.short peer member) (workers.text peer member)
  refine ⟨exec_event isExit (.take peer) source, ?_⟩
  have hunread := h.unread
  cases hpc : s.broker.pc with
  | setup | clock | closed => simp [rtreqRecv, hpc] at read
  | delimiter | body => simp [free, hpc, RtreqPc.unread] at hunread
  | identity =>
      simp only [rtreqRecv, hpc, Option.some.injEq] at read
      subst read
      have nobody : s.broker.serving = none := by simp [RtreqState.serving, hpc, RtreqPc.engaged]
      have moved : AtStage .handling { s.worker peer with up := [] } := ⟨hwaiting, rfl, hdown⟩
      refine ⟨related_update (fun _ => AtStage) h.ends moved, h.members_update member, ?_, rfl,
        ?_, ?_, ?_⟩
      · intro v
        by_cases hv : v = peer
        · subst hv
          simp [RtreqState.serving, RtreqPc.engaged, intact]
        · have hnot : stage v ≠ .handling := by simp [h.serving, nobody]
          simp [RtreqState.serving, RtreqPc.engaged, hv, hnot, intact, Ne.symm hv]
      · exact fun _ => ⟨peer, by simp [intact, RtreqPc.sent]⟩
      · rw [h.exited]
        have same : Stage.handling.out = (stage peer).out := by rw [source]; rfl
        exact (countP_update_of_eq same).symm
      · rw [← h.closed, hpc]
        simp

/-- The broker reads on: nothing that a worker sees. -/
theorem Follows.readOn (h : Follows workers stage s) {frame : Frame} {rest : List Frame}
    {broker : RtreqState} (left : s.unread = frame :: rest)
    (read : rtreqRecv s.broker frame = some broker) :
    Follows workers stage { s with broker := broker, unread := rest } := by
  have hunread := h.unread
  rw [left] at hunread
  cases hpc : s.broker.pc with
  | setup | identity | clock | closed => simp [hpc, RtreqPc.unread] at hunread
  | delimiter | body =>
      simp only [hpc, RtreqPc.unread, List.cons.injEq] at hunread
      simp only [rtreqRecv, hpc, Option.some.injEq] at read
      subst read
      obtain ⟨worker, hsending⟩ := h.sending (by rw [hpc]; rfl)
      refine h.alone ?_ hunread.2 ?_ rfl (by simp [hpc]) (by simp)
      · simp [RtreqState.serving, hpc, RtreqPc.engaged, hsending]
      · exact fun _ => ⟨worker, by rw [hsending, hpc]; rfl⟩

theorem Follows.brokerRecv (h : Follows workers stage s) {peer : Frame}
    (taken : systemStep workers s (.brokerRecv peer) = some (t, out)) :
    ∃ fs next, (rollCall isExit).exec stage fs = some (next, out) ∧ Follows workers next t := by
  simp only [systemStep] at taken
  split at taken
  case h_3 => cases taken
  case h_1 frame rest left =>
    obtain ⟨broker, read, heq⟩ := Option.map_eq_some_iff.mp taken
    cases heq
    exact ⟨[], stage, rfl, h.readOn left read⟩
  case h_2 msg more free waiting =>
    obtain ⟨broker, read, heq⟩ := Option.map_eq_some_iff.mp taken
    cases heq
    obtain ⟨exec, begun⟩ := h.begin waiting free read
    exact ⟨_, _, exec, begun⟩

/-- A finished answer leaves nobody served. -/
theorem Follows.free (h : Follows workers stage s) {worker : Frame}
    (source : stage worker = .handling) {target : Stage} (other : target ≠ .handling)
    (v : Frame) : Function.update stage worker target v ≠ .handling := by
  by_cases hv : v = worker
  · rw [hv, Function.update_self]
    exact other
  · rw [Function.update_of_ne hv, Ne, h.serving v, (h.serving worker).mp source, Option.some.injEq]
    exact fun heq => hv heq.symm

/-- An answer is finished and sent. -/
theorem Follows.answer (h : Follows workers stage s) {worker text : Frame} {broker : RtreqState}
    (source : stage worker = .handling) (read : s.unread = []) {target : Stage}
    (told : stageDown target = [[[], text]]) (waiting : stagePc target = .recv)
    (sent : stageUp target = []) (engaged : broker.pc.engaged = false)
    (exited : broker.workersExited =
      workers.ids.countP fun v => (Function.update stage worker target v).out)
    (closed : broker.pc = .closed ↔ broker.workersExited = nbrWorkers) :
    Follows workers (Function.update stage worker target)
      { broker := broker
        unread := s.unread
        worker := Function.update s.worker worker
          { s.worker worker with down := (s.worker worker).down ++ [[[], text]] } } := by
  obtain ⟨hpc, hup, hdown⟩ := h.ends worker
  rw [source] at hpc hup hdown
  have member := h.members worker (by simp [source])
  have other : target ≠ .handling := by
    rintro rfl
    cases told
  refine ⟨?_, h.members_update member, ?_, ?_, ?_, exited, closed⟩
  · have moved : AtStage target
        { s.worker worker with down := (s.worker worker).down ++ [[[], text]] } :=
      ⟨by rw [waiting]; exact hpc, by rw [sent]; exact hup, by rw [told, hdown]; rfl⟩
    exact related_update (fun _ => AtStage) h.ends moved
  · intro v
    have nobody : broker.serving = none := by simp [RtreqState.serving, engaged]
    simp [h.free source other v, nobody]
  · rw [read]
    cases hnext : broker.pc <;> simp [hnext, RtreqPc.engaged] at engaged <;> rfl
  · simp [engaged]

theorem Follows.brokerClock (h : Follows workers stage s) {now : Int}
    (taken : systemStep workers s (.brokerClock now) = some (t, out)) :
    ∃ fs next, (rollCall isExit).exec stage fs = some (next, out) ∧ Follows workers next t := by
  cases hpc : s.broker.pc with
  | identity | delimiter | body | closed => simp [systemStep, rtreqClock, hpc] at taken
  | setup =>
      simp only [systemStep, rtreqClock, hpc, Option.some.injEq, Prod.mk.injEq] at taken
      obtain ⟨rfl, rfl⟩ := taken
      have hunread := h.unread
      rw [hpc] at hunread
      refine ⟨[], stage, rfl, h.alone ?_ hunread ?_ rfl (by simp [hpc]) (by simp)⟩
      · simp [RtreqState.serving, hpc, RtreqPc.engaged]
      · simp [RtreqPc.engaged]
  | clock =>
      obtain ⟨worker, hsending⟩ := h.sending (by rw [hpc]; rfl)
      rw [hpc] at hsending
      have served : s.broker.serving = some worker := by
        simp [RtreqState.serving, hpc, RtreqPc.engaged, hsending]
      have source : stage worker = .handling := (h.serving worker).mpr served
      have member := h.members worker (by simp [source])
      have read : s.unread = [] := by rw [h.unread, hpc]; rfl
      have open' : s.broker.workersExited ≠ nbrWorkers := by simp [← h.closed, hpc]
      by_cases early : now < s.broker.endTime
      · simp only [systemStep, rtreqClock, hpc, early, if_true, hsending, RtreqPc.sent,
          List.cons_append, List.nil_append, SystemState.post, member, Option.some.injEq,
          Prod.mk.injEq] at taken
        obtain ⟨rfl, rfl⟩ := taken
        have exec := exec_event isExit (.answer worker okText) source
        have same : Stage.answered.out = (stage worker).out := by rw [source]; rfl
        refine ⟨_, _, exec, h.answer source read rfl rfl rfl rfl ?_ ?_⟩
        · rw [h.exited]
          exact (countP_update_of_eq same).symm
        · simpa using open'
      · simp only [systemStep, rtreqClock, hpc, early, if_false, hsending, RtreqPc.sent,
          List.cons_append, List.nil_append, SystemState.post, member, if_true, Option.some.injEq,
          Prod.mk.injEq] at taken
        obtain ⟨rfl, rfl⟩ := taken
        have exec := exec_event isExit (.answer worker exitText) source
        have before : (stage worker).out = false := by rw [source]; rfl
        refine ⟨_, _, exec, h.answer source read rfl rfl rfl ?_ ?_ ?_⟩
        · split <;> rfl
        · rw [h.exited]
          exact (countP_update workers.nodup member before rfl).symm
        · by_cases done : s.broker.workersExited + 1 = nbrWorkers <;> simp [done]

/-- Every step of the system is matched by the roll call. -/
theorem Follows.step (h : Follows workers stage s)
    (taken : (system workers).step s e = some (t, out)) :
    ∃ fs next, (rollCall isExit).exec stage fs = some (next, out) ∧ Follows workers next t := by
  cases e with
  | workerSend worker => exact h.workerSend taken
  | workerRecv worker => exact h.workerRecv taken
  | brokerRecv peer => exact h.brokerRecv taken
  | brokerClock now => exact h.brokerClock taken

/-- Every run of the system is a roll call. -/
theorem follows_of_run {es : List SystemEvent} (run : (system workers).Run es os s) :
    ∃ stage, Tally isExit os stage ∧ Follows workers stage s := by
  obtain ⟨es', stage, matched, follows⟩ :=
    run.refine id (fun s stage => Follows workers stage s) (Follows.init workers) (by
      intro s stage e t out follows taken
      rw [List.map_id]
      exact follows.step taken)
  rw [List.map_id] at matched
  exact ⟨stage, tally_of_run matched, follows⟩

theorem Follows.outstanding_eq (h : Follows workers stage s) (worker : Frame) :
    s.outstanding worker = (stage worker).waiting := by
  have hserving := h.serving worker
  rw [SystemState.outstanding, (h.ends worker).up]
  cases hstage : stage worker <;> simp [hstage] at hserving <;>
    simp [hserving, stageUp, Stage.waiting]

/-- The broker is done when all its workers are out. -/
theorem Follows.closed_iff (h : Follows workers stage s) :
    s.broker.pc = .closed ↔ ∀ worker ∈ workers.ids, (stage worker).out = true := by
  rw [h.closed, h.exited, ← workers.length, List.countP_eq_length]

/-- Then none of them has a request left. -/
theorem Follows.outstanding_of_closed (h : Follows workers stage s)
    (hclosed : s.broker.pc = .closed) (worker : Frame) : s.outstanding worker = 0 := by
  rw [h.outstanding_eq worker]
  by_cases member : worker ∈ workers.ids
  · have hout := h.closed_iff.mp hclosed worker member
    cases hstage : stage worker <;> simp [hstage, Stage.out] at hout <;> rfl
  · have asking : stage worker = .asking := by
      by_contra hne
      exact member (h.members worker hne)
    rw [asking]
    rfl

/-- The broker leaves its loop exactly when it has sent each worker one "exit", and
after its "exit" a worker is sent nothing. Of what a worker has asked, everything has
been answered once, to that worker, but a request that is still on its way or before
the broker; when the broker has left its loop there is none. -/
theorem dismissed_cleanly {es : List SystemEvent} (run : (system workers).Run es os s) :
    (s.broker.pc = .closed ↔ ∀ worker ∈ workers.ids, dismissals isExit os worker = 1) ∧
    (∀ worker, dismissals isExit os worker ≤ 1) ∧
    os.Pairwise (fun first later =>
      ∀ worker text, first = .answered worker exitText → later ≠ .answered worker text) ∧
    (∀ worker, asks os worker = answers os worker + s.outstanding worker ∧
      s.outstanding worker ≤ 1) ∧
    (s.broker.pc = .closed → ∀ worker, asks os worker = answers os worker ∧
      (s.worker worker).up = [] ∧ s.broker.serving ≠ some worker) := by
  obtain ⟨stage, tally, follows⟩ := follows_of_run run
  have one : ∀ worker, dismissals isExit os worker = 1 ↔ (stage worker).out = true := by
    intro worker
    rw [tally.dismissed worker, Stage.dismissals]
    cases (stage worker).out <;> simp
  have waits : ∀ worker, asks os worker = answers os worker + s.outstanding worker := by
    intro worker
    rw [follows.outstanding_eq worker]
    exact tally.asked worker
  refine ⟨?_, ?_, ?_, ?_, ?_⟩
  · rw [follows.closed_iff]
    exact forall₂_congr fun worker _ => (one worker).symm
  · intro worker
    rw [tally.dismissed worker, Stage.dismissals]
    split <;> decide
  · apply tally.quiet.imp
    intro first later h worker text hfirst
    exact h worker exitText text hfirst rfl
  · intro worker
    refine ⟨waits worker, ?_⟩
    rw [follows.outstanding_eq worker]
    cases stage worker <;> decide
  · intro hclosed worker
    have none := follows.outstanding_of_closed hclosed worker
    have hasked := waits worker
    rw [none, Nat.add_zero] at hasked
    simp only [SystemState.outstanding, Nat.add_eq_zero_iff, List.length_eq_zero_iff] at none
    refine ⟨hasked, none.1, fun hserving => ?_⟩
    simp [hserving] at none

end

/-- A worker asks and is answered when the clock shows `now`. -/
def served (worker : Frame) (now : Int) : List SystemEvent :=
  [.workerSend worker, .brokerRecv worker, .brokerRecv worker, .brokerRecv worker,
    .brokerClock now, .workerRecv worker]

/-- The clock goes back after the first "exit". -/
def backwardsRun : List SystemEvent :=
  .brokerClock 0 :: (served [49] 600 ++ served [50] 100 ++ served [50] 700 ++ served [51] 500)

theorem dismissed_cleanly_backwards :
    ∃ os s, (system Workers.digits).Run backwardsRun os s ∧ s.broker.pc = .closed ∧
      asks os [50] = 2 ∧ answers os [50] = 2 ∧
      ∀ worker ∈ Workers.digits.ids, dismissals isExit os worker = 1 := by
  have h : ((system Workers.digits).exec (system Workers.digits).init backwardsRun).map
      (fun r => (r.1.broker.pc, asks r.2 [50])) = some (.closed, 2) := by decide +kernel
  obtain ⟨os, s, run, hsee⟩ := Machine.run_of_map_exec h
  obtain ⟨hclosed, hasks⟩ := Prod.mk.inj hsee
  obtain ⟨closed_iff, -, -, -, answered⟩ := dismissed_cleanly run
  obtain ⟨heq, -⟩ := answered hclosed [50]
  exact ⟨os, s, run, hclosed, hasks, heq.symm.trans hasks, closed_iff.mp hclosed⟩

end ZmqTest.Rtreq
