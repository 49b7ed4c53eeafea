/-
# How long a worker waits before it reconnects

A worker that has lost the queue sleeps before it makes a new socket, each time twice
as long as the time before until `INTERVAL_MAX` is reached, and starts again from
`INTERVAL_INIT` when any message comes. The test against the maximum is made before
the doubling; the maximum is a power of two times the first interval, so that it is
met exactly.
-/

import Mathlib.Data.List.Induction
import ZmqTest.Ppq.Liveness

namespace ZmqTest.Ppq

/-- A message is received, whatever it is. -/
def WorkerEvent.hears : WorkerEvent → Bool
  | .recv (some _) _ _ => true
  | _ => false

/-- The last event, if there is one, is a message. -/
def Heard (before : List WorkerEvent) : Prop :=
  before.getLast?.all WorkerEvent.hears = true

instance (before : List WorkerEvent) : Decidable (Heard before) :=
  inferInstanceAs (Decidable (_ = true))

/-- Every run is taken up to its last message, and on from there in silence. -/
theorem exists_heard (es : List WorkerEvent) :
    ∃ before after, es = before ++ after ∧ Heard before ∧ ∀ e ∈ after, e.hears = false := by
  induction es using List.reverseRecOn with
  | nil => exact ⟨[], [], rfl, by simp [Heard], by simp⟩
  | append_singleton es e ih =>
      cases he : e.hears with
      | true =>
          refine ⟨es ++ [e], [], (List.append_nil _).symm, ?_, by simp⟩
          simp [Heard, he]
      | false =>
          obtain ⟨before, after, rfl, heard, quiet⟩ := ih
          refine ⟨before, after ++ [e], List.append_assoc _ _ _, heard, ?_⟩
          intro f hf
          rcases List.mem_append.mp hf with earlier | last
          · exact quiet f earlier
          · rw [List.mem_singleton.mp last]
            exact he

/-- Doubling below a bound that is a power of two away stops at the bound. -/
theorem double_min (init steps n : Nat) :
    (if min (init * 2 ^ n) (init * 2 ^ steps) < init * 2 ^ steps
      then min (init * 2 ^ n) (init * 2 ^ steps) * 2
      else min (init * 2 ^ n) (init * 2 ^ steps)) =
      min (init * 2 ^ (n + 1)) (init * 2 ^ steps) := by
  rcases Nat.lt_or_ge n steps with hlt | hge
  · have hnow : init * 2 ^ n ≤ init * 2 ^ steps :=
      Nat.mul_le_mul_left init (Nat.pow_le_pow_right (by decide) (Nat.le_of_lt hlt))
    have hnext : init * 2 ^ (n + 1) ≤ init * 2 ^ steps :=
      Nat.mul_le_mul_left init (Nat.pow_le_pow_right (by decide) hlt)
    rw [Nat.min_eq_left hnow, Nat.min_eq_left hnext]
    rw [Nat.pow_succ, ← Nat.mul_assoc] at hnext ⊢
    split <;> omega
  · have hnow : init * 2 ^ steps ≤ init * 2 ^ n :=
      Nat.mul_le_mul_left init (Nat.pow_le_pow_right (by decide) hge)
    have hnext : init * 2 ^ steps ≤ init * 2 ^ (n + 1) :=
      Nat.mul_le_mul_left init (Nat.pow_le_pow_right (by decide) (Nat.le_succ_of_le hge))
    rw [Nat.min_eq_right hnow, Nat.min_eq_right hnext, if_neg (Nat.lt_irrefl _)]

/-- The sleep after so many reconnects without a message. -/
def backoff (reconnects : Nat) : Nat := min (intervalInit * 2 ^ reconnects) intervalMax

theorem backoff_succ (n : Nat) :
    (if backoff n < intervalMax then backoff n * 2 % 2 ^ 64 else backoff n) =
      backoff (n + 1) := by
  have hmax : intervalMax = intervalInit * 2 ^ 5 := rfl
  have hdouble := double_min intervalInit 5 n
  rw [← hmax] at hdouble
  rw [backoff, backoff, ← hdouble]
  split
  case isTrue small =>
    rw [intervalMax] at small
    exact Nat.mod_eq_of_lt (by omega)
  case isFalse => rfl

/-- The interval is that of the reconnects since the last message; a worker that has
stopped uses it no more. -/
def BackedOff (reconnects : Nat) (s : WorkerState) : Prop :=
  s.pc = .stopped ∨ s.interval = backoff reconnects

/-- A message starts the back-off again. -/
theorem backedOff_of_hears {s t : WorkerState} {e : WorkerEvent} {out : List WorkerEffect}
    (hears : e.hears = true) (taken : worker.step s e = some (t, out)) :
    BackedOff 0 t := by
  have fresh (s : WorkerState) (interrupted : Bool) : BackedOff 0 (afterSleep s interrupted) := by
    cases interrupted with
    | true => exact Or.inl rfl
    | false => exact Or.inr rfl
  cases workerMoves_of_step taken with
  | crash => exact Or.inl rfl
  | overload => exact fresh _ _
  | reply => exact fresh _ _
  | control => exact Or.inr rfl
  | invalid => exact Or.inr rfl
  | _ => cases hears

/-- A step without a message moves the interval on by the reconnects it makes. -/
theorem BackedOff.step {n : Nat} {s t : WorkerState} {e : WorkerEvent} {out : List WorkerEffect}
    (h : BackedOff n s) (silent : e.hears = false)
    (taken : worker.step s e = some (t, out)) :
    BackedOff (n + out.count .close) t := by
  have interval := h.resolve_left (running_of_step taken)
  cases workerMoves_of_step taken with
  | setup now pc => exact Or.inr interval
  | pollError pc => exact Or.inl rfl
  | polled pc => exact Or.inr interval
  | silence liveness pc left alive => exact Or.inr interval
  | reconnect pc dead =>
      right
      change (if s.interval < intervalMax then _ else _) = backoff (n + 1)
      rw [interval]
      exact backoff_succ n
  | recvError draws interrupted pc => exact Or.inl rfl
  | quiet now pc => exact Or.inr interval
  | beat now later pc => exact Or.inr interval
  | _ => cases silent

/-- Without a message, the reconnects of a run add up. -/
theorem BackedOff.exec {n : Nat} {s t : WorkerState} {es : List WorkerEvent}
    {os : List WorkerEffect} (h : BackedOff n s) (silent : ∀ e ∈ es, e.hears = false)
    (exec : worker.exec s es = some (t, os)) : BackedOff (n + os.count .close) t := by
  induction es generalizing n s os with
  | nil =>
      simp only [Machine.exec, Option.some.injEq, Prod.mk.injEq] at exec
      obtain ⟨rfl, rfl⟩ := exec
      exact h
  | cons e es ih =>
      obtain ⟨u, out, rest, taken, hrest, rfl⟩ := Machine.exec_cons_eq_some.mp exec
      have next := h.step (silent e List.mem_cons_self) taken
      have last := ih next (fun f hf => silent f (List.mem_cons_of_mem e hf)) hrest
      rwa [List.count_append, ← Nat.add_assoc]

theorem backedOff_of_heard {before : List WorkerEvent} {os : List WorkerEffect}
    {s : WorkerState} (run : worker.Run before os s) (heard : Heard before) : BackedOff 0 s := by
  cases run with
  | start => exact Or.inr rfl
  | extend prior taken =>
      rw [Heard, List.getLast?_concat] at heard
      exact backedOff_of_hears heard taken

/-- The only sleep before a reconnect is the current interval. -/
theorem sleep_of_close {s t : WorkerState} {e : WorkerEvent} {out : List WorkerEffect}
    (taken : worker.step s e = some (t, out)) (close : .close ∈ out) :
    out = .sleep s.interval :: .close :: workerSocket := by
  cases workerMoves_of_step taken with
  | reconnect pc dead => rfl
  | setup now pc => simp [workerSocket] at close
  | _ => simp at close

/-- Wherever the worker stands, its count is between one and `HEARTBEAT_LIVENESS`, so
that the decrement does not wrap; and a run that is taken up to a message, or from the
start, and then on without one sleeps before its next reconnect for the first interval
doubled as often as it has reconnected since, up to `INTERVAL_MAX`. Every run can be
so taken. -/
theorem backs_off {es : List WorkerEvent} {os : List WorkerEffect} {t : WorkerState}
    (run : worker.Run es os t) :
    (1 ≤ t.liveness ∧ t.liveness ≤ heartbeatLiveness ∧
      (t.liveness + (2 ^ 64 - 1)) % 2 ^ 64 = t.liveness - 1) ∧
    (∃ before after, es = before ++ after ∧ Heard before ∧ ∀ e ∈ after, e.hears = false) ∧
    ∀ before after first s, es = before ++ after → worker.Run before first s → Heard before →
      (∀ e ∈ after, e.hears = false) →
      ∃ since, os = first ++ since ∧
        ∀ e u out, worker.step t e = some (u, out) → .close ∈ out →
          out = .sleep (min (intervalInit * 2 ^ since.count .close) intervalMax) :: .close ::
            workerSocket := by
  have counting := counting_of_run run
  refine ⟨⟨counting.1, counting.2, pred_of_counting counting⟩, exists_heard es, ?_⟩
  rintro before after first s rfl prior heard silent
  obtain ⟨u, start, since, hprior, hexec, rfl⟩ := run.exists_prefix
  obtain ⟨rfl, rfl⟩ := hprior.unique prior
  refine ⟨since, rfl, ?_⟩
  intro e v out taken close
  have backedOff := (backedOff_of_heard prior heard).exec silent hexec
  rw [Nat.zero_add] at backedOff
  rw [sleep_of_close taken close, backedOff.resolve_left (running_of_step taken), backoff]

/-- A heartbeat arrives. -/
def heartbeatRun : List WorkerEvent :=
  [.setup 0, .poll (some true), .recv (some [pppHeartbeat]) [] false]

/-- Five polls time out, so that the worker reconnects once and is about to again. -/
def quietRun : List WorkerEvent :=
  [.tick [0], .poll (some false), .tick [0], .poll (some false), .tick [0], .poll (some false),
    .tick [0], .poll (some false), .tick [0], .poll (some false), .tick [0]]

theorem backs_off_quiet :
    ∃ first since s t, worker.Run heartbeatRun first s ∧
      worker.Run (heartbeatRun ++ quietRun) (first ++ since) t ∧ since.count .close = 1 ∧
      t.liveness = 1 ∧ t.liveness ≤ heartbeatLiveness ∧
      ∀ u out, worker.step t (.poll (some false)) = some (u, out) → .close ∈ out →
        out = .sleep 2000 :: .close :: workerSocket := by
  have prior : worker.Run heartbeatRun (workerSocket ++ [.destroyed [pppHeartbeat]])
      ⟨.tick, 3, 1000, 1000, 0⟩ := Machine.run_of_exec (by decide)
  have run : worker.Run (heartbeatRun ++ quietRun)
      ((workerSocket ++ [.destroyed [pppHeartbeat]]) ++ .sleep 1000 :: .close :: workerSocket)
      ⟨.poll, 1, 2000, 1000, 0⟩ := Machine.run_of_exec (by decide)
  obtain ⟨count, -, sleeps⟩ := backs_off run
  obtain ⟨since, heq, sleep⟩ :=
    sleeps heartbeatRun quietRun _ _ rfl prior (by decide) (by decide)
  obtain rfl := List.append_cancel_left heq
  exact ⟨_, _, _, _, prior, run, rfl, rfl, count.2.1, fun u out => sleep _ u out⟩

end ZmqTest.Ppq
