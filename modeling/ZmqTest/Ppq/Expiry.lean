/-
# Expiry of the available workers

The purge looks at the front of the list and stops at the first worker that has
not expired. It finds every expired worker because the list is sorted by expiry
in every reachable state, as long as the clock does not run backwards: a worker
is registered at the end with the latest expiry so far, and nothing else adds to
the list. A worker that a request is dispatched to has therefore survived the
purge that ended the iteration before.
-/

import Mathlib.Data.List.Induction
import ZmqTest.Ppq.Available

namespace ZmqTest.Ppq

/-- How long a registration lasts, in milliseconds. -/
abbrev lifetime : Int := heartbeatInterval * heartbeatLiveness

/-- The last reading of the most recent purge; `none` when there was no purge yet
or it looked at no worker. -/
def purgeReading (es : List QueueEvent) : Option Int :=
  es.foldl (fun reading e =>
    match e with
    | .purge readings => readings.getLast?
    | _ => reading) none

/-- The clock reading with which the most recent backend message of an identity was
read; whose message it is its first frame says. -/
def heardAt (es : List QueueEvent) (identity : Frame) : Option Int :=
  es.reverse.findSome? fun
    | .recvBackend (some msg) now => if msg.first = some identity then some now else none
    | _ => none

@[simp]
theorem clock_append (es fs : List QueueEvent) : clock (es ++ fs) = clock es ++ clock fs :=
  List.flatMap_append

@[simp]
theorem clock_singleton (e : QueueEvent) : clock [e] = e.readings := by
  simp [clock]

theorem purgeReading_append_purge (es : List QueueEvent) (readings : List Int) :
    purgeReading (es ++ [.purge readings]) = readings.getLast? := by
  simp [purgeReading]

theorem purgeReading_append_of_ne {es : List QueueEvent} {e : QueueEvent}
    (h : ∀ readings, e ≠ .purge readings) : purgeReading (es ++ [e]) = purgeReading es := by
  cases e with
  | purge readings => exact absurd rfl (h readings)
  | _ => simp [purgeReading]

/-- The reading a purge ended with is one of the readings of the run. -/
theorem purgeReading_mem_clock {es : List QueueEvent} {reading : Int}
    (h : purgeReading es = some reading) : reading ∈ clock es := by
  induction es using List.reverseRecOn with
  | nil => cases h
  | append_singleton es e ih =>
      rw [clock_append, List.mem_append]
      cases e with
      | purge readings =>
          rw [purgeReading_append_purge] at h
          have hmem : reading ∈ readings := List.mem_of_getLast? h
          right
          simpa [QueueEvent.readings] using hmem
      | _ =>
          rw [purgeReading_append_of_ne (by simp)] at h
          exact Or.inl (ih h)

theorem heardAt_append_recvBackend {msg body : Zmsg} {sender : Frame} (es : List QueueEvent)
    (now : Int) (unwrapped : msg.unwrap = some (sender, body)) (identity : Frame) :
    heardAt (es ++ [.recvBackend (some msg) now]) identity =
      if sender = identity then some now else heardAt es identity := by
  obtain ⟨rest, rfl⟩ := Zmsg.eq_cons_of_unwrap unwrapped
  by_cases hsame : sender = identity
  · simp [heardAt, Zmsg.first, hsame]
  · simp [heardAt, Zmsg.first, hsame]

/-- Without a backend message nobody is heard. -/
theorem heardAt_append_of_ne {es : List QueueEvent} {e : QueueEvent}
    (h : ∀ msg now, e ≠ .recvBackend (some msg) now) (identity : Frame) :
    heardAt (es ++ [e]) identity = heardAt es identity := by
  cases e with
  | recvBackend msg now =>
      cases msg with
      | none => simp [heardAt]
      | some msg => exact absurd rfl (h msg now)
  | _ => simp [heardAt]

/-- The purge that ended the previous iteration looked at the clock, and every
worker expires later than its last reading. -/
def Survived (es : List QueueEvent) (workers : List Worker) : Prop :=
  ∃ reading, purgeReading es = some reading ∧ ∀ worker ∈ workers, reading < worker.expiry

/-- The list is sorted by expiry, every expiry comes from the latest message of its
worker, and whoever can be dispatched to has survived the last purge. -/
structure Expiring (es : List QueueEvent) (s : QueueState) : Prop where
  fresh : s.pc = .setup → s.workers = []
  sorted : s.workers.Pairwise fun first second => first.expiry ≤ second.expiry
  heard : ∀ worker ∈ s.workers, ∃ now ∈ clock es,
    worker.expiry = now + lifetime ∧ heardAt es worker.identity = some now
  polled : s.pc = .poll → s.workers = [] ∨ Survived es s.workers
  gated : s.pc = .backend true ∨ s.pc = .frontend → Survived es s.workers

theorem Survived.keep {es : List QueueEvent} {e : QueueEvent} {workers kept : List Worker}
    (h : Survived es workers) (hne : ∀ readings, e ≠ .purge readings)
    (sub : ∀ worker ∈ kept, worker ∈ workers) : Survived (es ++ [e]) kept := by
  obtain ⟨reading, hreading, hlt⟩ := h
  refine ⟨reading, ?_, fun worker hworker => hlt worker (sub worker hworker)⟩
  rw [purgeReading_append_of_ne hne, hreading]

/-- Readings and messages survive a step that reads no backend message. -/
theorem Expiring.heard_keep {es : List QueueEvent} {s : QueueState} {e : QueueEvent}
    {kept : List Worker} (h : Expiring es s) (silent : ∀ msg now, e ≠ .recvBackend (some msg) now)
    (sub : ∀ worker ∈ kept, worker ∈ s.workers) :
    ∀ worker ∈ kept, ∃ now ∈ clock (es ++ [e]),
      worker.expiry = now + lifetime ∧ heardAt (es ++ [e]) worker.identity = some now := by
  intro worker hworker
  obtain ⟨now, hmem, hexpiry, hheard⟩ := h.heard worker (sub worker hworker)
  refine ⟨now, ?_, hexpiry, ?_⟩
  · rw [clock_append]
    exact List.mem_append_left _ hmem
  · rw [heardAt_append_of_ne silent, hheard]

/-- A step that reads no backend message and adds nobody to the list keeps the
invariant, given what its new program counter needs. -/
theorem Expiring.keep {es : List QueueEvent} {s t : QueueState} {e : QueueEvent}
    (h : Expiring es s) (silent : ∀ msg now, e ≠ .recvBackend (some msg) now)
    (started : t.pc ≠ .setup) (sub : t.workers.Sublist s.workers)
    (polled : t.pc = .poll → t.workers = [] ∨ Survived (es ++ [e]) t.workers)
    (gated : t.pc = .backend true ∨ t.pc = .frontend → Survived (es ++ [e]) t.workers) :
    Expiring (es ++ [e]) t where
  fresh := fun hpc => absurd hpc started
  sorted := h.sorted.sublist sub
  heard := h.heard_keep silent fun _ hworker => sub.subset hworker
  polled := polled
  gated := gated

theorem Expiring.init : Expiring [] queue.init where
  fresh := fun _ => rfl
  sorted := List.Pairwise.nil
  heard := by simp [queue, queueInit]
  polled := by simp [queue, queueInit]
  gated := by simp [queue, queueInit]

/-- Registering a worker at a reading that no earlier reading exceeds. -/
theorem Expiring.register {es : List QueueEvent} {s : QueueState} {msg body : Zmsg}
    {identity : Frame} {now : Int} (h : Expiring es s)
    (unwrapped : msg.unwrap = some (identity, body))
    (latest : ∀ earlier ∈ clock es, earlier ≤ now) (nodup : (identities s.workers).Nodup) :
    (workerReady (workerNew identity now) s.workers).Pairwise
        (fun first second => first.expiry ≤ second.expiry) ∧
    ∀ worker ∈ workerReady (workerNew identity now) s.workers,
      ∃ reading ∈ clock (es ++ [.recvBackend (some msg) now]),
        worker.expiry = reading + lifetime ∧
          heardAt (es ++ [.recvBackend (some msg) now]) worker.identity = some reading := by
  have kept := List.eraseP_subset (p := fun worker : Worker =>
    (workerNew identity now).idString = worker.idString) (l := s.workers)
  constructor
  · rw [workerReady, List.pairwise_append]
    refine ⟨h.sorted.sublist List.eraseP_sublist, List.pairwise_singleton _ _, ?_⟩
    intro worker hworker last hlast
    rw [List.mem_singleton] at hlast
    subst last
    obtain ⟨reading, hmem, hexpiry, -⟩ := h.heard worker (kept hworker)
    rw [hexpiry]
    exact Int.add_le_add_right (latest reading hmem) lifetime
  · intro worker hworker
    rw [workerReady, List.mem_append, List.mem_singleton] at hworker
    rcases hworker with hold | rfl
    · obtain ⟨reading, hmem, hexpiry, hheard⟩ := h.heard worker (kept hold)
      have hne : worker.identity ≠ identity := by
        have hid := List.mem_map_of_mem (f := Worker.identity) hold
        rw [← identities, identities_eraseP _ nodup] at hid
        exact of_decide_eq_true (List.mem_filter.mp hid).2
      refine ⟨reading, ?_, hexpiry, ?_⟩
      · rw [clock_append]
        exact List.mem_append_left _ hmem
      · rw [heardAt_append_recvBackend es now unwrapped, if_neg hne.symm, hheard]
    · refine ⟨now, ?_, rfl, ?_⟩
      · rw [clock_append, clock_singleton]
        exact List.mem_append_right _ (List.mem_singleton_self now)
      · have hself : (workerNew identity now).identity = identity := rfl
        rw [hself, heardAt_append_recvBackend es now unwrapped, if_pos rfl]

/-- A purge keeps exactly the workers that its last reading has not reached. -/
theorem Expiring.purged {es : List QueueEvent} {s : QueueState}
    (h : Expiring es s) {readings : List Int} {destroyed kept : List Worker}
    (purged : workerPurge s.workers readings = some (destroyed, kept)) :
    ∀ worker ∈ kept, ∃ last, readings.getLast? = some last ∧ last < worker.expiry := by
  obtain ⟨happend, early, last, hreadings, -, hstop⟩ := workerPurge_spec purged
  rcases hstop with ⟨rfl, -⟩ | ⟨first, rest, now, rfl, rfl, hlt⟩
  · simp
  · have sorted := h.sorted
    rw [happend] at sorted
    have tail := (List.pairwise_append.mp sorted).2.1
    intro worker hworker
    refine ⟨now, by simp [hreadings], ?_⟩
    rcases List.mem_cons.mp hworker with rfl | hrest
    · exact hlt
    · exact Int.lt_of_lt_of_le hlt ((List.pairwise_cons.mp tail).1 worker hrest)

/-- Every step of a run with a monotone clock keeps the invariant. -/
theorem Expiring.step {es : List QueueEvent} {out : List QueueEffect} {s t : QueueState}
    {e : QueueEvent} (h : Expiring es s) (available : Available es s)
    (monotone : (clock (es ++ [e])).Pairwise (· ≤ ·))
    (taken : queue.step s e = some (t, out)) : Expiring (es ++ [e]) t := by
  cases queueMoves_of_step taken with
  | setup now pc =>
      exact h.keep (by simp) (by simp) (List.Sublist.refl _)
        (fun _ => Or.inl (h.fresh pc)) (by simp)
  | pollError pc => exact h.keep (by simp) (by simp) (List.Sublist.refl _) (by simp) (by simp)
  | polled revents0 revents1 pc =>
      refine h.keep (by simp) ?_ (List.Sublist.refl _) ?_ ?_
      · cases revents0 <;> cases revents1 <;> cases s.workers <;> simp [afterPoll]
      · cases revents0 <;> cases revents1 <;> cases s.workers <;> simp [afterPoll]
      · intro hpc
        have survived := (h.polled pc).resolve_left (afterPoll_gate hpc)
        exact survived.keep (by simp) fun _ hworker => hworker
  | backendError revents1 now pc =>
      exact h.keep (by simp) (by simp) (List.Sublist.refl _) (by simp) (by simp)
  | backend revents1 msg now identity body pc unwrapped =>
      rw [clock_append, clock_singleton, List.pairwise_append] at monotone
      have latest : ∀ earlier ∈ clock es, earlier ≤ now := fun earlier hmem =>
        monotone.2.2 earlier hmem now (List.mem_singleton_self now)
      have registered := h.register unwrapped latest available.tracks.nodup
      refine ⟨by cases revents1 <;> simp, registered.1, registered.2,
        by cases revents1 <;> simp, ?_⟩
      intro hpc
      cases revents1 with
      | false => simp at hpc
      | true =>
          obtain ⟨reading, hreading, hlt⟩ := h.gated (Or.inl pc)
          refine ⟨reading, ?_, ?_⟩
          · rw [purgeReading_append_of_ne (by simp), hreading]
          · intro worker hworker
            rw [workerReady, List.mem_append, List.mem_singleton] at hworker
            rcases hworker with hold | rfl
            · exact hlt worker (List.eraseP_subset hold)
            · have hle := latest reading (purgeReading_mem_clock hreading)
              simp only [workerNew, heartbeatInterval, heartbeatLiveness]
              omega
  | frontendError pc => exact h.keep (by simp) (by simp) (List.Sublist.refl _) (by simp) (by simp)
  | frontend msg worker rest pc listed =>
      refine h.keep (by simp) (by simp) ?_ (by simp) (by simp)
      rw [listed]
      exact List.sublist_cons_self worker rest
  | underflow msg pc listed =>
      exact h.keep (by simp) (by simp) (List.Sublist.refl _) (by simp) (by simp)
  | quiet now pc => exact h.keep (by simp) (by simp) (List.Sublist.refl _) (by simp) (by simp)
  | beat now later pc =>
      exact h.keep (by simp) (by simp) (List.Sublist.refl _) (by simp) (by simp)
  | purge readings destroyed kept pc purged =>
      refine h.keep (by simp) (by simp) ?_ (fun _ => ?_) (by simp)
      · rw [(workerPurge_spec purged).1]
        exact List.sublist_append_right destroyed kept
      · have survivors := h.purged purged
        cases kept with
        | nil => exact Or.inl rfl
        | cons first rest =>
            right
            obtain ⟨last, hlast, -⟩ := survivors first List.mem_cons_self
            refine ⟨last, by rw [purgeReading_append_purge, hlast], ?_⟩
            intro worker hworker
            obtain ⟨same, hsame, hlt⟩ := survivors worker hworker
            rw [hlast, Option.some.injEq] at hsame
            exact hsame ▸ hlt

theorem expiring_of_run {es : List QueueEvent} {os : List QueueEffect} {s : QueueState}
    (run : queue.Run es os s) (monotone : (clock es).Pairwise (· ≤ ·)) : Expiring es s := by
  induction run with
  | start => exact Expiring.init
  | @extend es os s t e out prior taken ih =>
      have earlier : (clock es).Pairwise (· ≤ ·) := by
        rw [clock_append] at monotone
        exact (List.pairwise_append.mp monotone).1
      exact (ih earlier).step (available_of_run prior) monotone taken

/-- In every run with a clock that does not run backwards, a purge destroys only
workers whose expiry a reading has reached and keeps none whose expiry its last
reading has reached. A worker that a request is dispatched to therefore expires
later than the last reading of the purge before; when at most `D` milliseconds
pass from that reading to the dispatch, the last message of the worker was read less
than its lifetime and `D` ago. -/
theorem purge_and_dispatch_by_expiry {es : List QueueEvent} {os : List QueueEffect}
    {s : QueueState} (run : queue.Run es os s) (monotone : (clock es).Pairwise (· ≤ ·)) :
    (∀ readings t out, queue.step s (.purge readings) = some (t, out) →
      ∃ destroyed early last, s.workers = destroyed ++ t.workers ∧
        out = destroyed.map (fun worker => .purged worker.identity) ∧
        readings = early ++ last ∧
        List.Forall₂ (fun (worker : Worker) now => worker.expiry ≤ now) destroyed early ∧
        ∀ worker ∈ t.workers, ∃ now, readings.getLast? = some now ∧ now < worker.expiry) ∧
    (∀ msg t out, queue.step s (.recvFrontend (some msg)) = some (t, out) →
      ∃ worker reading heard, s.workers.head? = some worker ∧
        out = [.next worker.identity, .toBackend (worker.identity :: msg)] ∧
        purgeReading es = some reading ∧ reading < worker.expiry ∧
        heardAt es worker.identity = some heard ∧
        ∀ D dispatched : Int, dispatched ≤ reading + D →
          dispatched - heard < heartbeatInterval * heartbeatLiveness + D) := by
  have h := expiring_of_run run monotone
  constructor
  · intro readings t out taken
    cases queueMoves_of_step taken with
    | purge readings destroyed kept pc purged =>
        obtain ⟨happend, early, last, hreadings, hexpired, -⟩ := workerPurge_spec purged
        exact ⟨destroyed, early, last, happend, rfl, hreadings, hexpired, h.purged purged⟩
  · intro msg t out taken
    have pc := pc_of_recvFrontend taken
    obtain ⟨worker, rest, listed, hout⟩ :=
      dispatch_head taken ((available_of_run run).gate (Or.inr pc))
    have hmem : worker ∈ s.workers := by
      rw [listed]
      exact List.mem_cons_self
    obtain ⟨reading, hreading, hlt⟩ := h.gated (Or.inr pc)
    obtain ⟨heard, -, hexpiry, hheard⟩ := h.heard worker hmem
    refine ⟨worker, reading, heard, by rw [listed]; rfl, hout, hreading, hlt worker hmem,
      hheard, ?_⟩
    intro D dispatched hle
    have hworker := hlt worker hmem
    have hlife : lifetime = heartbeatInterval * heartbeatLiveness := rfl
    rw [hexpiry] at hworker
    omega

/-- The bound on the sample run: the worker at the front was heard at 3060, the purge
before the dispatch read 3071 last. -/
theorem purge_and_dispatch_by_expiry_sample :
    ∃ os s, queue.Run sampleRun os s ∧ (clock sampleRun).Pairwise (· ≤ ·) ∧
      heardAt sampleRun [6] = some 3060 ∧
      ∀ msg t out, queue.step s (.recvFrontend (some msg)) = some (t, out) →
        ∃ worker reading heard, s.workers.head? = some worker ∧
          out = [.next worker.identity, .toBackend (worker.identity :: msg)] ∧
          purgeReading sampleRun = some reading ∧ reading < worker.expiry ∧
          heardAt sampleRun worker.identity = some heard ∧
          ∀ D dispatched : Int, dispatched ≤ reading + D →
            dispatched - heard < heartbeatInterval * heartbeatLiveness + D := by
  obtain ⟨os, s, run, -⟩ := Machine.run_of_map_exec sampleRun_exec
  have monotone : (clock sampleRun).Pairwise (· ≤ ·) := by decide
  exact ⟨os, s, run, monotone, by decide, (purge_and_dispatch_by_expiry run monotone).2⟩

end ZmqTest.Ppq
