/-
# A pool of servers

Jobs are posted, any server that is free takes any of them, and answers it as often as
it has drawn before it takes the next. What is posted and what is answered stand in a
network, in no order. The entries of a run are counted job by job: whatever has been
taken was posted, whatever has been delivered was answered, and a server answers only
the job it took last. A job that is posted once is therefore answered by one server.
-/

import Mathlib.Algebra.Ring.Nat
import Mathlib.Data.List.Count
import Mathlib.Logic.Function.Basic
import ZmqTest.Lib.Machine
import ZmqTest.Lib.Network

universe u v

namespace Pool

/-- Where a job is: waiting for a server, or answered. -/
inductive Place
  | posted
  | answered
  deriving DecidableEq

structure State (Job : Type u) (Server : Type v) where
  net : Network Place Job
  /-- The answers a server still has to give. -/
  hands : Server → List Job

inductive Event (Job : Type u) (Server : Type v)
  | post (job : Job)
  | take (server : Server) (index : Nat) (answers : Nat)
  | answer (server : Server)
  | deliver (index : Nat)

/-- What the servers and their customers do. -/
inductive Entry (Job : Type u) (Server : Type v)
  | posted (job : Job)
  | taken (server : Server) (job : Job) (answers : Nat)
  | answered (server : Server) (job : Job)
  | delivered (job : Job)
  deriving DecidableEq

section

variable {Job : Type u} {Server : Type v}

section

variable [DecidableEq Server]

def step (s : State Job Server) :
    Event Job Server → Option (State Job Server × List (Entry Job Server))
  | .post job => some ({ s with net := s.net.send .posted job }, [.posted job])
  | .take server index answers =>
      match s.hands server, s.net.pick .posted index with
      | [], some (job, left) =>
          some ({ net := left
                  hands := Function.update s.hands server (List.replicate answers job) },
            [.taken server job answers])
      | _, _ => none
  | .answer server =>
      match s.hands server with
      | job :: more =>
          some ({ net := s.net.send .answered job
                  hands := Function.update s.hands server more },
            [.answered server job])
      | [] => none
  | .deliver index =>
      match s.net.pick .answered index with
      | some (job, left) => some ({ s with net := left }, [.delivered job])
      | none => none

variable (Job Server) in
/-- A pool in which all servers are free. -/
def pool : Machine (State Job Server) (Event Job Server) (Entry Job Server) where
  init := { net := [], hands := fun _ => [] }
  step := step

/-- The steps of a pool. -/
inductive Moves (s : State Job Server) :
    Event Job Server → State Job Server → List (Entry Job Server) → Prop
  | post (job : Job) :
      Moves s (.post job) { s with net := s.net.send .posted job } [.posted job]
  | take (server : Server) (index answers : Nat) (job : Job) (left : Network Place Job)
      (free : s.hands server = []) (taken : s.net.Perm ((.posted, job) :: left)) :
      Moves s (.take server index answers)
        { net := left, hands := Function.update s.hands server (List.replicate answers job) }
        [.taken server job answers]
  | answer (server : Server) (job : Job) (more : List Job)
      (busy : s.hands server = job :: more) :
      Moves s (.answer server)
        { net := s.net.send .answered job, hands := Function.update s.hands server more }
        [.answered server job]
  | deliver (index : Nat) (job : Job) (left : Network Place Job)
      (taken : s.net.Perm ((.answered, job) :: left)) :
      Moves s (.deliver index) { s with net := left } [.delivered job]

theorem moves_of_step {s t : State Job Server} {e : Event Job Server}
    {out : List (Entry Job Server)} (h : (pool Job Server).step s e = some (t, out)) :
    Moves s e t out := by
  change step s e = some (t, out) at h
  cases e with
  | post job =>
      cases h
      exact .post job
  | take server index answers =>
      simp only [step] at h
      split at h
      case h_1 job left free hpick =>
        cases h
        exact .take server index answers job left free (Network.perm_of_pick hpick)
      case h_2 => cases h
  | answer server =>
      simp only [step] at h
      split at h
      case h_1 job more busy =>
        cases h
        exact .answer server job more busy
      case h_2 => cases h
  | deliver index =>
      simp only [step] at h
      split at h
      case h_1 job left hpick =>
        cases h
        exact .deliver index job left (Network.perm_of_pick hpick)
      case h_2 => cases h

end

/-! ## Counting -/

section

variable [DecidableEq Job]

/-- The server that takes the job, with the number of answers it has drawn. -/
def Entry.taker? (job : Job) : Entry Job Server → Option (Server × Nat)
  | .taken server other answers => if other = job then some (server, answers) else none
  | _ => none

/-- The servers that have taken a job, with the number of answers each has drawn. -/
def takers (os : List (Entry Job Server)) (job : Job) : List (Server × Nat) :=
  os.filterMap (Entry.taker? job)

/-- The job is answered. -/
def Entry.answers (job : Job) : Entry Job Server → Bool
  | .answered _ other => other = job
  | _ => false

/-- How often a job has been answered. -/
def answers (os : List (Entry Job Server)) (job : Job) : Nat := os.countP (Entry.answers job)

theorem takers_append (os : List (Entry Job Server)) (o : Entry Job Server) (job : Job) :
    takers (os ++ [o]) job = takers os job ++ (o.taker? job).toList := by
  rw [takers, List.filterMap_append]
  cases h : o.taker? job <;> simp [takers, h]

theorem answers_append (os : List (Entry Job Server)) (o : Entry Job Server) (job : Job) :
    answers (os ++ [o]) job = answers os job + if o.answers job then 1 else 0 := by
  rw [answers, List.countP_append, List.countP_singleton, answers]

/-- The jobs at a place, one taken from the network. -/
theorem count_contents_of_perm {net left : Network Place Job} {place : Place} {job : Job}
    (h : net.Perm ((place, job) :: left)) (loc : Place) (other : Job) :
    (net.contents loc).count other =
      (left.contents loc).count other + if place = loc ∧ job = other then 1 else 0 := by
  rw [(Network.contents_of_perm h loc).count_eq, List.count_append]
  by_cases hplace : place = loc <;> by_cases hjob : job = other <;>
    simp [hplace, hjob, Nat.add_comm]

theorem count_contents_send (net : Network Place Job) (place loc : Place) (job other : Job) :
    ((net.send place job).contents loc).count other =
      (net.contents loc).count other + if place = loc ∧ job = other then 1 else 0 := by
  rw [Network.contents_send, List.count_append]
  by_cases hplace : place = loc <;> by_cases hjob : job = other <;> simp [hplace, hjob]

end

section

variable [DecidableEq Server]

/-- The job the server takes. -/
def Entry.taken? (server : Server) : Entry Job Server → Option Job
  | .taken other job _ => if other = server then some job else none
  | _ => none

/-- The job a server has taken last. -/
def lastTaken (os : List (Entry Job Server)) (server : Server) : Option Job :=
  (os.filterMap (Entry.taken? server)).getLast?

theorem lastTaken_append (os : List (Entry Job Server)) (o : Entry Job Server)
    (server : Server) : lastTaken (os ++ [o]) server =
      (o.taken? server).or (lastTaken os server) := by
  rw [lastTaken, List.filterMap_append, List.getLast?_append]
  cases h : o.taken? server <;> simp [lastTaken, h]

end

variable [DecidableEq Job] [DecidableEq Server]

/-- The answers a taker has drawn, if it is the server. -/
def share (server : Server) (taker : Server × Nat) : Nat :=
  if taker.1 = server then taker.2 else 0

/-- The answers a server has drawn for a job. -/
def drawn (os : List (Entry Job Server)) (server : Server) (job : Job) : Nat :=
  ((takers os job).map (share server)).sum

theorem drawn_append (os : List (Entry Job Server)) (o : Entry Job Server) (server : Server)
    (job : Job) : drawn (os ++ [o]) server job =
      drawn os server job + ((o.taker? job).map (share server)).getD 0 := by
  rw [drawn, takers_append, List.map_append, List.sum_append, drawn]
  cases o.taker? job <;> simp

/-- The entries of a run add up, job by job and server by server. -/
structure Tally (os : List (Entry Job Server)) (s : State Job Server) : Prop where
  posted : ∀ job, os.count (.posted job) =
    (takers os job).length + (s.net.contents .posted).count job
  drawn : ∀ server job, drawn os server job =
    os.count (.answered server job) + (s.hands server).count job
  answered : ∀ job, answers os job =
    os.count (.delivered job) + (s.net.contents .answered).count job
  last : ∀ server, ∀ job ∈ s.hands server, lastTaken os server = some job

variable {os out : List (Entry Job Server)} {s t : State Job Server} {e : Event Job Server}

theorem Tally.post (h : Tally os s) (job : Job) :
    Tally (os ++ [.posted job]) { s with net := s.net.send .posted job } := by
  refine ⟨?_, ?_, ?_, ?_⟩
  · intro other
    have hposted := h.posted other
    rw [List.count_append, takers_append, count_contents_send]
    simp [Entry.taker?, List.count_singleton]
    omega
  · intro server other
    rw [List.count_append, drawn_append]
    simpa [Entry.taker?] using h.drawn server other
  · intro other
    rw [List.count_append, answers_append, count_contents_send]
    simpa [Entry.answers] using h.answered other
  · intro server other hmem
    rw [lastTaken_append]
    exact h.last server other hmem

theorem Tally.take (h : Tally os s) {server : Server} {job : Job} {left : Network Place Job}
    (free : s.hands server = []) (picked : s.net.Perm ((.posted, job) :: left)) (answers : Nat) :
    Tally (os ++ [.taken server job answers])
      { net := left, hands := Function.update s.hands server (List.replicate answers job) } := by
  refine ⟨?_, ?_, ?_, ?_⟩
  · intro other
    have hposted := h.posted other
    rw [count_contents_of_perm picked] at hposted
    rw [List.count_append, takers_append]
    by_cases hjob : job = other <;> simp [Entry.taker?, hjob] at hposted ⊢ <;> omega
  · intro worker other
    have hdrawn := h.drawn worker other
    rw [List.count_append, drawn_append]
    by_cases hworker : server = worker
    · subst hworker
      rw [free] at hdrawn
      by_cases hjob : job = other <;>
        simp [Entry.taker?, share, hjob, List.count_replicate] at hdrawn ⊢ <;> omega
    · by_cases hjob : job = other <;>
        simp [Entry.taker?, share, hjob, hworker, Ne.symm hworker] at hdrawn ⊢ <;> omega
  · intro other
    have hanswered := h.answered other
    rw [count_contents_of_perm picked] at hanswered
    rw [List.count_append, answers_append]
    simpa [Entry.answers] using hanswered
  · intro worker other hmem
    rw [lastTaken_append]
    by_cases hworker : server = worker
    · subst hworker
      have heq : other = job := by
        simp only [Function.update_self] at hmem
        exact List.eq_of_mem_replicate hmem
      simp [Entry.taken?, heq]
    · simp only [Function.update_of_ne (Ne.symm hworker)] at hmem
      simpa [Entry.taken?, hworker] using h.last worker other hmem

theorem Tally.answer (h : Tally os s) {server : Server} {job : Job} {more : List Job}
    (busy : s.hands server = job :: more) :
    Tally (os ++ [.answered server job])
      { net := s.net.send .answered job, hands := Function.update s.hands server more } := by
  refine ⟨?_, ?_, ?_, ?_⟩
  · intro other
    rw [List.count_append, takers_append, count_contents_send]
    simpa [Entry.taker?] using h.posted other
  · intro worker other
    have hdrawn := h.drawn worker other
    rw [List.count_append, drawn_append]
    by_cases hworker : server = worker
    · subst hworker
      rw [busy] at hdrawn
      by_cases hjob : job = other <;> simp [Entry.taker?, hjob] at hdrawn ⊢ <;> omega
    · simpa [Entry.taker?, hworker, Ne.symm hworker] using hdrawn
  · intro other
    have hanswered := h.answered other
    rw [List.count_append, answers_append, count_contents_send]
    by_cases hjob : job = other <;> simp [Entry.answers, hjob] at hanswered ⊢ <;> omega
  · intro worker other hmem
    rw [lastTaken_append]
    by_cases hworker : server = worker
    · subst hworker
      simp only [Function.update_self] at hmem
      exact h.last server other (by rw [busy]; exact List.mem_cons_of_mem job hmem)
    · simp only [Function.update_of_ne (Ne.symm hworker)] at hmem
      exact h.last worker other hmem

theorem Tally.deliver (h : Tally os s) {job : Job} {left : Network Place Job}
    (picked : s.net.Perm ((.answered, job) :: left)) :
    Tally (os ++ [.delivered job]) { s with net := left } := by
  refine ⟨?_, ?_, ?_, ?_⟩
  · intro other
    have hposted := h.posted other
    rw [count_contents_of_perm picked] at hposted
    rw [List.count_append, takers_append]
    simpa [Entry.taker?] using hposted
  · intro server other
    rw [List.count_append, drawn_append]
    simpa [Entry.taker?] using h.drawn server other
  · intro other
    have hanswered := h.answered other
    rw [count_contents_of_perm picked] at hanswered
    rw [List.count_append, answers_append]
    by_cases hjob : job = other <;> simp [Entry.answers, hjob] at hanswered ⊢ <;> omega
  · intro server other hmem
    rw [lastTaken_append]
    exact h.last server other hmem

theorem Tally.step (h : Tally os s) (taken : (pool Job Server).step s e = some (t, out)) :
    Tally (os ++ out) t := by
  cases moves_of_step taken with
  | post job => exact h.post job
  | take server index answers job left free picked => exact h.take free picked answers
  | answer server job more busy => exact h.answer busy
  | deliver index job left picked => exact h.deliver picked

theorem tally_of_run {es : List (Event Job Server)} (run : (pool Job Server).Run es os s) :
    Tally os s := by
  apply run.output_invariant
  · exact ⟨fun _ => rfl, fun _ _ => rfl, fun _ => rfl, fun _ _ hmem => by cases hmem⟩
  · exact fun _ _ _ _ _ h taken => Tally.step h taken

variable {job : Job} {server : Server}

/-- Who has answered a job has taken it. -/
theorem Tally.taker_of_answered (h : Tally os s) (hmem : .answered server job ∈ os) :
    ∃ answers, (server, answers) ∈ takers os job := by
  have hpos : 0 < Pool.drawn os server job := by
    rw [h.drawn]
    exact Nat.add_pos_left (List.count_pos_iff.mpr hmem) _
  obtain ⟨part, hpart, hlt⟩ := List.sum_pos_iff_exists_pos_nat.mp hpos
  obtain ⟨taker, htaker, rfl⟩ := List.mem_map.mp hpart
  by_cases heq : taker.1 = server
  · exact ⟨taker.2, heq ▸ htaker⟩
  · simp [share, heq] at hlt

/-- A job that is in the hands of a server, or has been, was posted. -/
theorem Tally.posted_of_taker (h : Tally os s) {taker : Server × Nat}
    (hmem : taker ∈ takers os job) : .posted job ∈ os := by
  rw [← List.count_pos_iff, h.posted]
  exact Nat.add_pos_left (List.length_pos_of_mem hmem) _

/-- Every answer to a job is given by one of its takers. -/
theorem Tally.taker_of_answers (h : Tally os s) {o : Entry Job Server} (hmem : o ∈ os)
    (hanswers : o.answers job = true) :
    ∃ taker ∈ takers os job, o = .answered taker.1 job := by
  cases o with
  | answered server other =>
      have heq : other = job := by simpa [Entry.answers] using hanswers
      subst heq
      obtain ⟨answers, htaker⟩ := h.taker_of_answered hmem
      exact ⟨_, htaker, rfl⟩
  | _ => cases hanswers

theorem Tally.posted_of_answers (h : Tally os s) (hpos : 0 < answers os job) :
    .posted job ∈ os := by
  obtain ⟨o, hmem, hanswers⟩ := List.countP_pos_iff.mp hpos
  obtain ⟨taker, htaker, -⟩ := h.taker_of_answers hmem hanswers
  exact h.posted_of_taker htaker

theorem taker_of_lastTaken (h : lastTaken os server = some job) :
    ∃ answers, (server, answers) ∈ takers os job := by
  obtain ⟨o, hmem, htaken⟩ := List.mem_filterMap.mp (List.mem_of_getLast? h)
  cases o with
  | taken other found answers =>
      by_cases hother : other = server
      · subst hother
        simp only [Entry.taken?, if_true, Option.some.injEq] at htaken
        subst htaken
        exact ⟨answers, List.mem_filterMap.mpr ⟨_, hmem, by simp [Entry.taker?]⟩⟩
      · simp [Entry.taken?, hother] at htaken
  | _ => cases htaken

/-- What an entry of a run says of those before it. -/
def Due (before : List (Entry Job Server)) : Entry Job Server → Prop
  | .posted _ => True
  | .taken _ job _ => .posted job ∈ before
  | .answered server job => lastTaken before server = some job ∧ .posted job ∈ before
  | .delivered job => .posted job ∈ before

omit [DecidableEq Job] in
/-- An entry by itself has nothing before it. -/
theorem due_singleton {head o : Entry Job Server} (h : Due os head)
    {first rest : List (Entry Job Server)} (heq : [head] = first ++ o :: rest) :
    Due (os ++ first) o := by
  obtain ⟨rfl, hrest⟩ | ⟨more, rfl, hnil⟩ := List.cons_eq_append_iff.mp heq
  · obtain ⟨rfl, -⟩ := List.cons.inj hrest
    rwa [List.append_nil]
  · simp at hnil

theorem due_of_run {es : List (Event Job Server)} (run : (pool Job Server).Run es os s)
    {before after : List (Entry Job Server)} {o : Entry Job Server}
    (heq : os = before ++ o :: after) : Due before o := by
  apply run.outputs_meet _ heq
  intro es os s e t out prior taken first o rest
  have tally := tally_of_run prior
  cases moves_of_step taken with
  | post job =>
      apply due_singleton
      exact trivial
  | take server index answers job left free picked =>
      apply due_singleton
      have hposted := tally.posted job
      rw [count_contents_of_perm picked] at hposted
      rw [Due, ← List.count_pos_iff]
      simp at hposted
      omega
  | answer server job more busy =>
      apply due_singleton
      have last := tally.last server job (by simp [busy])
      obtain ⟨answers, htaker⟩ := taker_of_lastTaken last
      exact ⟨last, tally.posted_of_taker htaker⟩
  | deliver index job left picked =>
      apply due_singleton
      have hanswered := tally.answered job
      rw [count_contents_of_perm picked] at hanswered
      apply tally.posted_of_answers
      simp at hanswered
      omega

/-- A job that is posted once is taken by one server at most, and is not delivered
more often than that server has drawn answers for it. -/
theorem Tally.deliveries_le (h : Tally os s) (once : os.count (.posted job) ≤ 1) :
    (takers os job).length ≤ 1 ∧
      os.count (.delivered job) ≤ ((takers os job).map Prod.snd).sum := by
  have hposted := h.posted job
  have hanswered := h.answered job
  have hlength : (takers os job).length ≤ 1 := by omega
  refine ⟨hlength, ?_⟩
  cases htakers : takers os job with
  | nil =>
      have hnone : answers os job = 0 := by
        apply List.countP_eq_zero.mpr
        intro o hmem hanswers
        obtain ⟨taker, htaker, -⟩ := h.taker_of_answers hmem hanswers
        simp [htakers] at htaker
      omega
  | cons taker more =>
      have hmore : more = [] := by
        rw [htakers, List.length_cons] at hlength
        exact List.eq_nil_of_length_eq_zero (by omega)
      have hall : answers os job ≤ os.count (.answered taker.1 job) := by
        apply List.countP_mono_left
        intro o hmem hanswers
        obtain ⟨other, hother, rfl⟩ := h.taker_of_answers hmem hanswers
        rw [htakers, hmore, List.mem_singleton] at hother
        simp [hother]
      have hdrawn := h.drawn taker.1 job
      simp only [Pool.drawn, htakers, hmore, List.map_cons, List.map_nil, List.sum_cons,
        List.sum_nil, share, if_true] at hdrawn ⊢
      omega

/-- A job with one taker is answered by nobody else. -/
theorem Tally.answers_eq (h : Tally os s) {taker : Server × Nat}
    (only : takers os job = [taker]) : answers os job = os.count (.answered taker.1 job) := by
  apply Nat.le_antisymm
  · apply List.countP_mono_left
    intro o hmem hanswers
    obtain ⟨other, hother, rfl⟩ := h.taker_of_answers hmem hanswers
    rw [only, List.mem_singleton] at hother
    simp [hother]
  · apply List.countP_mono_left
    intro o _ heq
    simp only [beq_iff_eq] at heq
    simp [heq, Entry.answers]

/-- A job that is posted once waits, or one server has taken it, and the answers that it has
drawn are delivered, under way, or still in its hands. -/
theorem Tally.balance (h : Tally os s) (once : os.count (.posted job) = 1) :
    takers os job = [] ∧ (.posted, job) ∈ s.net ∨
      ∃ taker, takers os job = [taker] ∧
        taker.2 = os.count (.delivered job) + (s.net.contents .answered).count job +
          (s.hands taker.1).count job := by
  have hposted := h.posted job
  rw [once] at hposted
  cases htakers : takers os job with
  | nil =>
      have waits : 0 < (s.net.contents .posted).count job := by
        rw [htakers, List.length_nil] at hposted
        omega
      obtain ⟨⟨place, other⟩, hmem, hjob⟩ :=
        List.mem_filterMap.mp (List.count_pos_iff.mp waits)
      obtain ⟨rfl, same⟩ := Option.ite_none_right_eq_some.mp hjob
      cases same
      exact Or.inl ⟨rfl, hmem⟩
  | cons taker more =>
      have none : more = [] := by
        rw [htakers, List.length_cons] at hposted
        exact List.eq_nil_of_length_eq_zero (by omega)
      subst none
      refine Or.inr ⟨taker, rfl, ?_⟩
      have hdrawn := h.drawn taker.1 job
      simp only [Pool.drawn, htakers, List.map_cons, List.map_nil, List.sum_cons, List.sum_nil,
        share, if_true, Nat.add_zero] at hdrawn
      rw [hdrawn, ← h.answers_eq htakers, h.answered]

end

end Pool
