/-
# When a worker takes the queue for lost

A worker counts the polls that end without a message and replaces its socket
when the count is used up. A heartbeat restores the count; a request, which is as
good a sign of the queue, does not. So a worker that hears requests only can take
the queue for lost, and it never does as long as no request finds the count
lowered.
-/

import ZmqTest.Ppq.Worker

namespace ZmqTest.Ppq

/-- A poll that times out. -/
def WorkerEvent.timesOut (e : WorkerEvent) : Bool := e = .poll (some false)

/-- A message of three frames. -/
def WorkerEvent.isRequest : WorkerEvent → Bool
  | .recv (some msg) _ _ => msg.length = 3
  | _ => false

/-- A single frame that starts with `PPP_HEARTBEAT`. -/
def WorkerEvent.isHeartbeat : WorkerEvent → Bool
  | .recv (some [frame]) _ _ => frame.startsWith 2
  | _ => false

/-- The polls that have timed out since the last request or heartbeat. -/
def silentPolls : List WorkerEvent → Nat :=
  List.foldl (fun count e =>
    if e.isRequest || e.isHeartbeat then 0 else if e.timesOut then count + 1 else count) 0

theorem silentPolls_append (es : List WorkerEvent) (e : WorkerEvent) :
    silentPolls (es ++ [e]) =
      if e.isRequest || e.isHeartbeat then 0
      else if e.timesOut then silentPolls es + 1 else silentPolls es := by
  rw [silentPolls, List.foldl_append]
  rfl

@[simp]
theorem silentPolls_timeout (es : List WorkerEvent) :
    silentPolls (es ++ [.poll (some false)]) = silentPolls es + 1 := by
  rw [silentPolls_append]
  rfl

/-- A request finds the count full, unless the worker stops with it. -/
def HeardInFull (s : WorkerState) : WorkerEvent → Prop
  | .recv (some [_, _, _]) draws interrupted =>
      s.liveness = heartbeatLiveness ∨ fate (s.cycles + 1) draws = some .crash ∨
        interrupted = true
  | _ => True

instance (s : WorkerState) (e : WorkerEvent) : Decidable (HeardInFull s e) :=
  match e with
  | .recv (some [_, _, _]) _ _ => inferInstanceAs (Decidable (_ ∨ _))
  | .recv (some []) _ _ | .recv (some [_]) _ _ | .recv (some [_, _]) _ _
  | .recv (some (_ :: _ :: _ :: _ :: _)) _ _ | .recv none _ _ | .setup _ | .poll _
  | .tick _ => isTrue trivial

/-- `liveness` is between one and `HEARTBEAT_LIVENESS` wherever it is counted down. -/
def Counting (s : WorkerState) : Prop := 1 ≤ s.liveness ∧ s.liveness ≤ heartbeatLiveness

theorem afterSleep_liveness (s : WorkerState) (interrupted : Bool) :
    (afterSleep s interrupted).liveness = s.liveness := by
  cases interrupted <;> rfl

/-- The unsigned decrement of a count that is not zero. -/
theorem pred_of_counting {s : WorkerState} (h : Counting s) :
    (s.liveness + (2 ^ 64 - 1)) % 2 ^ 64 = s.liveness - 1 := by
  obtain ⟨hlow, hhigh⟩ := h
  simp only [heartbeatLiveness] at hhigh
  omega

theorem Counting.step {s t : WorkerState} {e : WorkerEvent} {out : List WorkerEffect}
    (h : Counting s) (taken : worker.step s e = some (t, out)) : Counting t := by
  cases workerMoves_of_step taken with
  | silence liveness pc left alive =>
      have hleft := pred_of_counting h
      rw [left] at hleft
      obtain ⟨hlow, hhigh⟩ := h
      constructor
      · exact Nat.one_le_iff_ne_zero.mpr alive
      · change liveness ≤ heartbeatLiveness
        omega
  | reconnect pc dead => exact ⟨Nat.le_add_left 1 2, Nat.le_refl _⟩
  | overload a b c draws interrupted pc drawn =>
      rw [Counting, afterSleep_liveness]
      exact h
  | reply a b c draws interrupted pc drawn =>
      rw [Counting, afterSleep_liveness]
      exact h
  | control frame draws interrupted pc =>
      by_cases beat : frame.startsWith 2
      · simp only [Counting, beat, if_true]
        exact ⟨by decide, Nat.le_refl _⟩
      · simp only [Counting, beat]
        exact h
  | _ => exact h

theorem counting_of_run {es : List WorkerEvent} {os : List WorkerEffect} {s : WorkerState}
    (run : worker.Run es os s) : Counting s := by
  apply run.invariant
  · exact ⟨by decide, Nat.le_refl _⟩
  · exact fun _ _ _ _ h taken => h.step taken

/-- Only a poll that times out with one poll left to count replaces the socket. -/
theorem liveness_of_close {s t : WorkerState} {e : WorkerEvent} {out : List WorkerEffect}
    (h : Counting s) (taken : worker.step s e = some (t, out)) (close : .close ∈ out) :
    e = .poll (some false) ∧ s.liveness = 1 := by
  cases workerMoves_of_step taken with
  | reconnect pc dead =>
      refine ⟨rfl, ?_⟩
      rw [pred_of_counting h] at dead
      exact Nat.le_antisymm (Nat.sub_eq_zero_iff_le.mp dead) h.1
  | setup now pc => simp [workerSocket] at close
  | _ => simp at close

/-- The polls that are counted down have all timed out since the last sign. -/
def Silent (es : List WorkerEvent) (s : WorkerState) : Prop :=
  s.pc = .stopped ∨ heartbeatLiveness ≤ s.liveness + silentPolls es

/-- A step that is neither a sign of the queue nor a timeout. -/
theorem Silent.keep {es : List WorkerEvent} {s t : WorkerState} {e : WorkerEvent}
    (h : Silent es s) (running : s.pc ≠ .stopped) (liveness : t.liveness = s.liveness)
    (request : e.isRequest = false) (heartbeat : e.isHeartbeat = false)
    (poll : e.timesOut = false) : Silent (es ++ [e]) t := by
  right
  rw [silentPolls_append, request, heartbeat, poll, liveness]
  exact h.resolve_left running

/-- A request that is answered or dropped finds the count full, unless the worker
stops after it. -/
theorem Silent.request {es : List WorkerEvent} {s : WorkerState} {a b c : Frame}
    {draws : List Random} {interrupted : Bool}
    (heard : HeardInFull s (.recv (some [a, b, c]) draws interrupted))
    (survives : fate (s.cycles + 1) draws ≠ some .crash) :
    Silent (es ++ [.recv (some [a, b, c]) draws interrupted])
      (afterSleep { s with cycles := s.cycles + 1 } interrupted) := by
  rcases heard with full | crash | interruption
  · right
    rw [afterSleep_liveness]
    exact full ▸ Nat.le_add_right _ _
  · exact absurd crash survives
  · rw [interruption]
    exact Or.inl rfl

theorem Silent.step {es : List WorkerEvent} {s t : WorkerState} {e : WorkerEvent}
    {out : List WorkerEffect} (h : Silent es s) (counting : Counting s)
    (heard : HeardInFull s e) (taken : worker.step s e = some (t, out)) :
    Silent (es ++ [e]) t := by
  cases workerMoves_of_step taken with
  | setup now pc => exact h.keep (by simp [pc]) rfl rfl rfl rfl
  | pollError pc => exact Or.inl rfl
  | polled pc => exact h.keep (by simp [pc]) rfl rfl rfl rfl
  | silence liveness pc left alive =>
      have silent := h.resolve_left (by simp [pc])
      rw [pred_of_counting counting] at left
      right
      rw [silentPolls_timeout]
      change heartbeatLiveness ≤ liveness + _
      have low := counting.1
      omega
  | reconnect pc dead => exact Or.inr (Nat.le_add_right _ _)
  | recvError draws interrupted pc => exact Or.inl rfl
  | crash a b c draws interrupted pc drawn => exact Or.inl rfl
  | overload a b c draws interrupted pc drawn =>
      exact Silent.request heard (by simp [drawn])
  | reply a b c draws interrupted pc drawn =>
      exact Silent.request heard (by simp [drawn])
  | control frame draws interrupted pc =>
      by_cases beat : frame.startsWith 2
      · right
        simp only [beat, if_true]
        exact Nat.le_add_right _ _
      · have other : frame.startsWith 2 = false := by simpa using beat
        exact h.keep (by simp [pc]) (by simp [other]) rfl other rfl
  | invalid msg draws interrupted pc request single =>
      refine h.keep (by simp [pc]) rfl ?_ ?_ rfl
      · simpa [WorkerEvent.isRequest] using request
      · unfold WorkerEvent.isHeartbeat
        split
        · next heq =>
            simp only [WorkerEvent.recv.injEq, Option.some.injEq] at heq
            exact absurd (by rw [heq.1]; rfl) single
        · rfl
  | quiet now pc => exact h.keep (by simp [pc]) rfl rfl rfl rfl
  | beat now later pc => exact h.keep (by simp [pc]) rfl rfl rfl rfl

theorem silent_of_run {es : List WorkerEvent} {os : List WorkerEffect} {s : WorkerState}
    (run : worker.Run es os s) (heard : worker.StepsMeet HeardInFull es) : Silent es s := by
  induction run with
  | start => exact Or.inr (Nat.le_refl _)
  | extend prior taken ih =>
      exact (ih heard.prior).step (counting_of_run prior) (heard.last prior) taken

/-- In every run whose requests all find the count full, the socket is replaced
only after three polls have timed out with no request and no heartbeat between
them. -/
theorem reconnects_after_silence {es : List WorkerEvent} {os : List WorkerEffect}
    {s : WorkerState} (run : worker.Run es os s) (heard : worker.StepsMeet HeardInFull es) :
    ∀ e t out, worker.step s e = some (t, out) → .close ∈ out →
      heartbeatLiveness ≤ silentPolls (es ++ [e]) := by
  intro e t out taken close
  obtain ⟨rfl, last⟩ := liveness_of_close (counting_of_run run) taken close
  have silent := (silent_of_run run heard).resolve_left (running_of_step taken)
  rw [last] at silent
  rw [silentPolls_timeout]
  omega

/-- A request is answered at once, and then the queue has nothing more to say. -/
def deafRun : List WorkerEvent :=
  [.setup 0, .poll (some true), .recv (some [[67], [], [72]]) [] false, .tick [0],
    .poll (some false), .tick [0], .poll (some false), .tick [0]]

/-- The third timeout after the request replaces the socket. -/
theorem reconnects_after_silence_deaf :
    ∃ os s t out, worker.Run deafRun os s ∧ worker.StepsMeet HeardInFull deafRun ∧
      .send [[67], [], [72]] ∈ os ∧
      worker.step s (.poll (some false)) = some (t, out) ∧ .close ∈ out ∧
      heartbeatLiveness ≤ silentPolls (deafRun ++ [.poll (some false)]) := by
  have run : worker.Run deafRun (workerSocket ++ [.send [[67], [], [72]], .sleep 1000])
      ⟨.poll, 1, 1000, 1000, 1⟩ := Machine.run_of_exec (by decide)
  have heard : worker.StepsMeet HeardInFull deafRun := Machine.stepsMeet_of_check (by decide)
  have taken : worker.step ⟨.poll, 1, 1000, 1000, 1⟩ (.poll (some false)) =
      some (⟨.tick, 3, 2000, 1000, 1⟩, .sleep 1000 :: .close :: workerSocket) := by decide
  exact ⟨_, _, _, _, run, heard, by decide, taken, by decide,
    reconnects_after_silence run heard _ _ _ taken (by decide)⟩

/-! ## A request that finds the count lowered -/

/-- Two polls time out, a request is answered, and one more poll times out. -/
def busyRun : List WorkerEvent :=
  [.setup 0, .poll (some false), .tick [0], .poll (some false), .tick [0], .poll (some true),
    .recv (some [[67], [], [72]]) [] false, .tick [0]]

/-- Without the condition, the socket is replaced one timeout after a request. -/
theorem reconnects_while_served :
    ¬ ∀ es os s, worker.Run es os s →
      ∀ e t out, worker.step s e = some (t, out) → .close ∈ out →
        heartbeatLiveness ≤ silentPolls (es ++ [e]) := by
  intro claim
  have run : worker.Run busyRun (workerSocket ++ [.send [[67], [], [72]], .sleep 1000])
      ⟨.poll, 1, 1000, 1000, 1⟩ := Machine.run_of_exec (by decide)
  have taken : worker.step ⟨.poll, 1, 1000, 1000, 1⟩ (.poll (some false)) =
      some (⟨.tick, 3, 2000, 1000, 1⟩, .sleep 1000 :: .close :: workerSocket) := by decide
  have silent := claim _ _ _ run _ _ _ taken (by decide)
  exact absurd silent (by decide)

/-- Where the worker stands after such a request. -/
theorem goes_on_of_unheard {s t : WorkerState} {e : WorkerEvent} {out : List WorkerEffect}
    (unheard : ¬ HeardInFull s e) (taken : worker.step s e = some (t, out)) :
    e.isRequest = true ∧ s.liveness ≠ heartbeatLiveness ∧ t.pc = .tick ∧
      t.liveness = s.liveness := by
  unfold HeardInFull at unheard
  split at unheard
  case h_1 a b c draws interrupted =>
    simp only [not_or, Bool.not_eq_true] at unheard
    obtain ⟨low, survives, quiet⟩ := unheard
    cases workerMoves_of_step taken with
    | crash _ _ _ _ _ pc drawn => exact absurd drawn survives
    | overload _ _ _ _ _ pc drawn =>
        rw [quiet]
        exact ⟨rfl, low, rfl, rfl⟩
    | reply _ _ _ _ _ pc drawn =>
        rw [quiet]
        exact ⟨rfl, low, rfl, rfl⟩
    | invalid _ _ _ pc request single => exact absurd rfl request
  case h_2 => exact absurd trivial unheard

/-- The heartbeat branch can be passed without a heartbeat. -/
theorem step_quiet {t : WorkerState} (pc : t.pc = .tick) :
    worker.step t (.tick [0]) = some ({ t with pc := .poll }, []) := by
  have early : ¬ t.heartbeatAt < toUint64 0 := Nat.not_lt_zero _
  simp only [worker, workerStep, pc, onTick, if_neg early]

/-- A timeout that leaves something to count. -/
theorem step_silence {t : WorkerState} (pc : t.pc = .poll) (counting : Counting t)
    (more : 1 < t.liveness) :
    worker.step t (.poll (some false)) =
      some ({ t with pc := .tick, liveness := t.liveness - 1 }, []) := by
  have alive : t.liveness - 1 ≠ 0 := Nat.sub_ne_zero_of_lt more
  simp only [worker, workerStep, pc, onSilence, pred_of_counting counting, if_neg alive]

/-- The timeout that uses up the count. -/
theorem step_reconnect {t : WorkerState} (pc : t.pc = .poll) (last : t.liveness = 1) :
    ∃ u, worker.step t (.poll (some false)) =
      some (u, .sleep t.interval :: .close :: workerSocket) := by
  have dead : (1 + (2 ^ 64 - 1)) % 2 ^ 64 = 0 := rfl
  simp only [worker, workerStep, pc, onSilence, last, dead, if_pos]
  exact ⟨_, rfl⟩

/-- A worker that hears nothing replaces its socket once the count is used up. -/
theorem reconnects_of_silence {t : WorkerState} (pc : t.pc = .tick) (counting : Counting t) :
    ∃ fs u v outs out, worker.exec t fs = some (u, outs) ∧
      worker.step u (.poll (some false)) = some (v, out) ∧ .close ∈ out ∧
      ∀ es, silentPolls (es ++ fs ++ [.poll (some false)]) = silentPolls es + t.liveness := by
  obtain ⟨n, hn⟩ : ∃ n, t.liveness = n + 1 :=
    Nat.exists_eq_succ_of_ne_zero (Nat.one_le_iff_ne_zero.mp counting.1)
  induction n generalizing t with
  | zero =>
      have quiet := step_quiet pc
      obtain ⟨v, dead⟩ := step_reconnect (t := { t with pc := .poll }) rfl hn
      refine ⟨[.tick [0]], _, v, _, _, Machine.exec_singleton quiet, dead, ?_, ?_⟩
      · exact List.mem_cons_of_mem _ List.mem_cons_self
      · intro es
        rw [silentPolls_timeout, silentPolls_append, hn]
        rfl
  | succ n ih =>
      have quiet := step_quiet pc
      have silence := step_silence (t := { t with pc := .poll }) rfl counting (by rw [hn]; omega)
      have left : Counting { t with pc := .tick, liveness := t.liveness - 1 } :=
        ⟨by simp [hn], Nat.le_trans (Nat.sub_le _ _) counting.2⟩
      obtain ⟨fs, u, v, outs, out, exec, dead, close, count⟩ := ih rfl left (by simp [hn])
      refine ⟨.tick [0] :: .poll (some false) :: fs, u, v, outs, out, ?_, dead, close, ?_⟩
      · exact Machine.exec_append (Machine.exec_append (Machine.exec_singleton quiet)
          (Machine.exec_singleton silence)) exec
      · intro es
        have one : silentPolls (es ++ [.tick [0]] ++ [.poll (some false)]) =
            silentPolls es + 1 := by
          rw [silentPolls_timeout, silentPolls_append]
          rfl
        have split : es ++ .tick [0] :: .poll (some false) :: fs =
            es ++ [.tick [0]] ++ [.poll (some false)] ++ fs := by simp
        rw [split, count, one, hn]
        simp only [Nat.add_sub_cancel]
        omega

/-- The condition leaves out nothing but the defect: after a request that finds
the count lowered and does not stop the worker, fewer than three timeouts replace
the socket. -/
theorem early_reconnect_possible {es : List WorkerEvent} {os : List WorkerEffect}
    {s t : WorkerState} {e : WorkerEvent} {out : List WorkerEffect}
    (run : worker.Run es os s) (unheard : ¬ HeardInFull s e)
    (taken : worker.step s e = some (t, out)) :
    ∃ fs u v outs last, worker.exec t fs = some (u, outs) ∧
      worker.step u (.poll (some false)) = some (v, last) ∧ .close ∈ last ∧
      silentPolls (es ++ [e] ++ fs ++ [.poll (some false)]) < heartbeatLiveness := by
  obtain ⟨request, low, pc, same⟩ := goes_on_of_unheard unheard taken
  have counting := counting_of_run (run.extend taken)
  obtain ⟨fs, u, v, outs, last, exec, dead, close, count⟩ := reconnects_of_silence pc counting
  refine ⟨fs, u, v, outs, last, exec, dead, close, ?_⟩
  have silent : silentPolls (es ++ [e]) = 0 := by
    rw [silentPolls_append, request]
    rfl
  rw [count, silent, Nat.zero_add, same]
  exact Nat.lt_of_le_of_ne (same ▸ counting.2) low

end ZmqTest.Ppq
