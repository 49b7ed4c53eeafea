/-
# Every message is sent once

What the cloud broker does with each message it reads, over every run: the
counter is the length of the list, a worker is taken from the list only where
there is one, and no message is dropped or sent twice. All of this holds as long
as the draws of `randof(argc-2)` stay below `argc-2`. They need not: `randof`
reaches its argument, the chosen peer is then `argv[argc]`, and the request at
hand is lost with the broker.
-/

import ZmqTest.Cloud.Lcflow

namespace ZmqTest.Cloud

/-- Receives are not interrupted, and behind the envelope of a worker's or a
peer's message comes a frame that is not empty. -/
def WellFormed (s : LcflowState) : LcflowEvent → Prop
  | .recv none _ => False
  | .recv (some msg) _ =>
      s.pc = .localbe ∨ s.pc = .cloudbe →
        match msg.unwrap with
        | some (_, first :: _) => first ≠ []
        | _ => False
  | _ => True

instance (s : LcflowState) (e : LcflowEvent) : Decidable (WellFormed s e) := by
  unfold WellFormed
  split
  · infer_instance
  · split <;> infer_instance
  · infer_instance

theorem WellFormed.unwrap {s : LcflowState} {msg : Zmsg} {draws : Draws}
    (h : WellFormed s (.recv (some msg) draws)) (hpc : s.pc = .localbe ∨ s.pc = .cloudbe) :
    ∃ id first rest, msg.unwrap = some (id, first :: rest) := by
  have frames := h hpc
  split at frames
  case h_1 id first rest hunwrap => exact ⟨id, first, rest, hunwrap⟩
  case h_2 => cases frames

/-- Whenever a request is to be sent to a peer, the second draw names one. -/
def DrawsPeer (argv : Argv) (s : LcflowState) : LcflowEvent → Prop
  | .recv (some _) draws =>
      s.pc = .localfe → argv.peers ≠ [] → randof 5 draws.reroute = 0 →
        randof argv.peers.length draws.peer < argv.peers.length
  | _ => True

instance (argv : Argv) (s : LcflowState) (e : LcflowEvent) : Decidable (DrawsPeer argv s e) := by
  unfold DrawsPeer
  split <;> infer_instance

/-- What becomes of a message, by the socket it is read from. -/
def Disposed (argv : Argv) (s t : LcflowState) (out : List LcflowEffect) (msg : Zmsg) : Prop :=
  match s.pc with
  | .localbe =>
      ∃ id first rest, msg.unwrap = some (id, first :: rest) ∧ t.workers = s.workers ++ [id] ∧
        if first.startsWith 1 then out = []
        else out = [.toCloudfe (first :: rest)] ∨ out = [.toLocalfe (first :: rest)]
  | .cloudbe =>
      ∃ id body, msg.unwrap = some (id, body) ∧ t.workers = s.workers ∧
        (out = [.toCloudfe body] ∨ out = [.toLocalfe body])
  | .cloudfe => ∃ worker, s.workers = worker :: t.workers ∧ out = [.toLocalbe (msg.wrap worker)]
  | .localfe =>
      (t.workers = s.workers ∧ ∃ peer ∈ argv.peers, out = [.toCloudbe (msg.push peer)]) ∨
        ∃ worker, s.workers = worker :: t.workers ∧ out = [.toLocalbe (msg.wrap worker)]
  | _ => False

/-- The counter is right before and after the step, there is a worker wherever
one may be taken, and a message that is read is disposed of. A poll sends
nothing. -/
def Kept (argv : Argv) (s : LcflowState) (e : LcflowEvent) : Prop :=
  s.capacity = s.workers.length ∧
    (s.pc = .cloudfe ∨ s.pc = .localfe → s.workers ≠ []) ∧
      ∀ t out, (lcflow argv).step s e = some (t, out) →
        t.capacity = t.workers.length ∧
          match e with
          | .recv (some msg) _ => Disposed argv s t out msg
          | _ => out = []

/-- The counter is the length of the list, which is not empty in the inner loop. -/
structure Accounted (s : LcflowState) : Prop where
  capacity : s.capacity = s.workers.length
  inner : s.pc = .pollFrontends ∨ s.pc = .cloudfe ∨ s.pc = .localfe → s.workers ≠ []

section

variable {argv : Argv} {s t : LcflowState} {out : List LcflowEffect} {e : LcflowEvent} {msg : Zmsg}

theorem accounted_innerLoop (h : s.capacity = s.workers.length) : Accounted s.innerLoop where
  capacity := h
  inner := by
    intro inner hnil
    have hzero : s.capacity = 0 := by
      rw [h]
      exact congrArg (fun workers : List Frame => (workers.length : Int)) hnil
    simp [LcflowState.innerLoop, hzero] at inner

/-- A broker that has ended, or is at a backend, has only its counter to keep. -/
theorem accounted_of_outer {pc : LcflowPc} (h : s.capacity = s.workers.length)
    (outer : pc ≠ .pollFrontends ∧ pc ≠ .cloudfe ∧ pc ≠ .localfe) :
    Accounted { s with pc := pc } where
  capacity := h
  inner := by
    intro inner
    exact absurd inner (by simp [outer])

theorem routeReply_workers (argv : Argv) (s : LcflowState) (msg : Option Zmsg) :
    ∃ pc, (routeReply argv s msg).1 = { s with pc := pc } ∧
      (pc = .aborted ∨ (routeReply argv s msg).1 = s.innerLoop) := by
  unfold routeReply
  split
  · exact ⟨.aborted, rfl, Or.inl rfl⟩
  · exact ⟨_, rfl, Or.inr rfl⟩
  · exact ⟨_, rfl, Or.inr rfl⟩

theorem accounted_routeReply (h : s.capacity = s.workers.length) (argv : Argv)
    (msg : Option Zmsg) : Accounted (routeReply argv s msg).1 := by
  obtain ⟨pc, hstate, rfl | hinner⟩ := routeReply_workers argv s msg
  · rw [hstate]
    exact accounted_of_outer h (by decide)
  · rw [hinner]
    exact accounted_innerLoop h

theorem accounted_onLocalbe (h : s.capacity = s.workers.length) (argv : Argv) (msg : Zmsg) :
    Accounted (onLocalbe argv s msg).1 := by
  unfold onLocalbe
  split
  case h_1 => exact accounted_of_outer h (by decide)
  case h_2 id body _ =>
    have hnext : s.capacity + 1 = (s.workers ++ [id]).length := by simp [h]
    dsimp only
    split
    case h_1 =>
      exact accounted_of_outer
        (s := { s with workers := s.workers ++ [id], capacity := s.capacity + 1 }) hnext (by decide)
    case h_2 frame _ => exact accounted_routeReply hnext argv _

theorem accounted_onCloudbe (h : s.capacity = s.workers.length) (argv : Argv) (msg : Zmsg) :
    Accounted (onCloudbe argv s msg).1 := by
  unfold onCloudbe
  split
  case h_1 => exact accounted_of_outer h (by decide)
  case h_2 id body _ => exact accounted_routeReply h argv (some body)

theorem accounted_toWorker (h : s.capacity = s.workers.length) (msg : Zmsg) :
    Accounted (toWorker s msg).1 := by
  unfold toWorker
  split
  case h_1 => exact accounted_of_outer h (by decide)
  case h_2 worker workers hworkers =>
    apply accounted_innerLoop
    rw [h, hworkers]
    simp

theorem accounted_onLocalfe (h : s.capacity = s.workers.length) (argv : Argv) (msg : Zmsg)
    (draws : Draws) : Accounted (onLocalfe argv s msg draws).1 := by
  unfold onLocalfe
  split
  · split
    · exact accounted_of_outer h (by decide)
    · exact accounted_innerLoop h
  · exact accounted_toWorker h msg

/-- Every step keeps the counter right, whatever is read. -/
theorem Accounted.step (h : Accounted s) (taken : (lcflow argv).step s e = some (t, out)) :
    Accounted t := by
  change lcflowStep argv s e = some (t, out) at taken
  unfold lcflowStep at taken
  split at taken
  case h_2 localbe cloudbe _ =>
    split at taken
    · cases taken
      exact accounted_of_outer h.capacity (by decide)
    · split at taken
      · cases taken
        exact accounted_of_outer h.capacity (by decide)
      · simp only [Option.some.injEq] at taken
        have hrest := accounted_routeReply h.capacity argv none
        rwa [taken] at hrest
  case h_4 msg _ _ =>
    simp only [Option.some.injEq] at taken
    have hrest := accounted_onLocalbe h.capacity argv msg
    rwa [taken] at hrest
  case h_6 msg _ _ =>
    simp only [Option.some.injEq] at taken
    have hrest := accounted_onCloudbe h.capacity argv msg
    rwa [taken] at hrest
  case h_8 localfe cloudfe hpc =>
    have hworkers := h.inner (Or.inl hpc)
    split at taken
    · cases taken
      exact ⟨h.capacity, fun _ => hworkers⟩
    · split at taken
      · cases taken
        exact ⟨h.capacity, fun _ => hworkers⟩
      · cases taken
        exact ⟨h.capacity, fun _ => hworkers⟩
  case h_10 msg _ _ =>
    simp only [Option.some.injEq] at taken
    have hrest := accounted_toWorker h.capacity msg
    rwa [taken] at hrest
  case h_12 msg draws _ =>
    simp only [Option.some.injEq] at taken
    have hrest := accounted_onLocalfe h.capacity argv msg draws
    rwa [taken] at hrest
  case h_13 => cases taken
  all_goals
    cases taken
    exact accounted_of_outer h.capacity (by decide)

theorem accounted_of_run {es : List LcflowEvent} {os : List LcflowEffect}
    (run : (lcflow argv).Run es os s) : Accounted s := by
  apply run.invariant
  · exact ⟨rfl, by simp [lcflow, lcflowInit]⟩
  · intro s e t out accounted taken
    exact accounted.step taken

theorem disposed_onLocalbe (argv : Argv) (hpc : s.pc = .localbe) {id first : Frame} {rest : Zmsg}
    (hmsg : msg.unwrap = some (id, first :: rest)) :
    Disposed argv s (onLocalbe argv s msg).1 (onLocalbe argv s msg).2 msg := by
  simp only [Disposed, hpc]
  refine ⟨id, first, rest, hmsg, ?_⟩
  simp only [onLocalbe, hmsg, Zmsg.first, List.head?_cons]
  by_cases hready : first.startsWith 1
  · simp only [hready, if_true, routeReply_none, LcflowState.innerLoop, and_self]
  · simp only [hready, Bool.false_eq_true, if_false, routeReply_cons, LcflowState.innerLoop,
      true_and]
    by_cases hpeer : first ∈ argv.peers
    · rw [if_pos hpeer]
      exact Or.inl rfl
    · rw [if_neg hpeer]
      exact Or.inr rfl

theorem disposed_onCloudbe (argv : Argv) (hpc : s.pc = .cloudbe) {id first : Frame} {rest : Zmsg}
    (hmsg : msg.unwrap = some (id, first :: rest)) :
    Disposed argv s (onCloudbe argv s msg).1 (onCloudbe argv s msg).2 msg := by
  simp only [Disposed, hpc]
  refine ⟨id, first :: rest, hmsg, ?_⟩
  simp only [onCloudbe, hmsg, routeReply_cons, LcflowState.innerLoop, true_and]
  by_cases hpeer : first ∈ argv.peers
  · rw [if_pos hpeer]
    exact Or.inl rfl
  · rw [if_neg hpeer]
    exact Or.inr rfl

/-- The first worker of the list is taken, and the request goes to it. -/
theorem toWorker_takes (hworkers : s.workers ≠ []) (msg : Zmsg) :
    ∃ worker, s.workers = worker :: (toWorker s msg).1.workers ∧
      (toWorker s msg).2 = [.toLocalbe (msg.wrap worker)] := by
  cases hlist : s.workers with
  | nil => exact absurd hlist hworkers
  | cons worker rest =>
      refine ⟨worker, ?_, ?_⟩
      · simp [toWorker, hlist, LcflowState.innerLoop]
      · simp [toWorker, hlist]

theorem disposed_onLocalfe (msg : Zmsg) (hpc : s.pc = .localfe) (hworkers : s.workers ≠ [])
    {draws : Draws}
    (hdraws : argv.peers ≠ [] → randof 5 draws.reroute = 0 →
      randof argv.peers.length draws.peer < argv.peers.length) :
    Disposed argv s (onLocalfe argv s msg draws).1 (onLocalfe argv s msg draws).2 msg := by
  simp only [Disposed, hpc]
  by_cases hreroute : argv.peers ≠ [] ∧ randof 5 draws.reroute = 0
  · left
    have hlt := hdraws hreroute.1 hreroute.2
    simp only [onLocalfe, if_pos hreroute, List.getElem?_eq_getElem hlt]
    exact ⟨rfl, _, List.getElem_mem hlt, rfl⟩
  · right
    simp only [onLocalfe, if_neg hreroute]
    exact toWorker_takes hworkers msg

/-- The request is lost when the draws name no peer. -/
theorem onLocalfe_overrun {draws : Draws} (hpeers : argv.peers ≠ [])
    (hreroute : randof 5 draws.reroute = 0)
    (hdraws : ¬ randof argv.peers.length draws.peer < argv.peers.length) :
    onLocalfe argv s msg draws = ({ s with pc := .aborted }, []) := by
  have hnone : argv.peers[randof argv.peers.length draws.peer]? = none :=
    List.getElem?_eq_none (Nat.le_of_not_lt hdraws)
  rw [onLocalfe, if_pos ⟨hpeers, hreroute⟩, hnone]

theorem step_recv_localfe (argv : Argv) (hpc : s.pc = .localfe) (msg : Zmsg) (draws : Draws) :
    (lcflow argv).step s (.recv (some msg) draws) = some (onLocalfe argv s msg draws) := by
  simp [lcflow, lcflowStep, hpc]

/-- A message that is read is disposed of when the draws are in range. -/
theorem Accounted.disposed (h : Accounted s) {draws : Draws}
    (formed : WellFormed s (.recv (some msg) draws))
    (peer : DrawsPeer argv s (.recv (some msg) draws))
    (taken : (lcflow argv).step s (.recv (some msg) draws) = some (t, out)) :
    Disposed argv s t out msg := by
  change lcflowStep argv s (.recv (some msg) draws) = some (t, out) at taken
  cases hpc : s.pc with
  | localbe =>
      obtain ⟨id, first, rest, hunwrap⟩ := formed.unwrap (Or.inl hpc)
      have disposed := disposed_onLocalbe argv hpc hunwrap
      simp only [lcflowStep, hpc, Option.some.injEq] at taken
      rwa [taken] at disposed
  | cloudbe =>
      obtain ⟨id, first, rest, hunwrap⟩ := formed.unwrap (Or.inr hpc)
      have disposed := disposed_onCloudbe argv hpc hunwrap
      simp only [lcflowStep, hpc, Option.some.injEq] at taken
      rwa [taken] at disposed
  | cloudfe =>
      have takes := toWorker_takes (h.inner (Or.inr (Or.inl hpc))) msg
      simp only [lcflowStep, hpc, Option.some.injEq] at taken
      rw [taken] at takes
      simp only [Disposed, hpc]
      exact takes
  | localfe =>
      have disposed := disposed_onLocalfe msg hpc (h.inner (Or.inr (Or.inr hpc)))
        (peer hpc)
      simp only [lcflowStep, hpc, Option.some.injEq] at taken
      rwa [taken] at disposed
  | _ => simp [lcflowStep, hpc] at taken

/-- A step keeps everything exactly when its draws name a peer. -/
theorem Accounted.kept_iff (h : Accounted s) (formed : WellFormed s e) :
    Kept argv s e ↔ DrawsPeer argv s e := by
  constructor
  · intro kept
    cases e with
    | recv msg draws =>
        cases msg with
        | none => trivial
        | some msg =>
            intro hpc hpeers hreroute
            by_contra hdraws
            have taken := step_recv_localfe argv hpc msg draws
            rw [onLocalfe_overrun hpeers hreroute hdraws] at taken
            have disposed := (kept.2.2 _ _ taken).2
            simp [Disposed, hpc] at disposed
    | _ => trivial
  · intro peer
    refine ⟨h.capacity, fun hpc => h.inner (Or.inr hpc), ?_⟩
    intro t out taken
    refine ⟨(h.step taken).capacity, ?_⟩
    cases e with
    | recv msg draws =>
        cases msg with
        | none => exact poll_sends_nothing (by simp) taken
        | some msg => exact h.disposed formed peer taken
    | _ => exact poll_sends_nothing (by simp) taken

/-- Along a list of events everything is kept exactly when all draws name a peer. -/
theorem stepsMeet_kept_iff {es : List LcflowEvent}
    (formed : (lcflow argv).StepsMeet WellFormed es) :
    (lcflow argv).StepsMeet (Kept argv) es ↔ (lcflow argv).StepsMeet (DrawsPeer argv) es := by
  constructor
  · intro kept before e after os s heq prior
    exact ((accounted_of_run prior).kept_iff (formed before e after os s heq prior)).mp
      (kept before e after os s heq prior)
  · intro peer before e after os s heq prior
    exact ((accounted_of_run prior).kept_iff (formed before e after os s heq prior)).mpr
      (peer before e after os s heq prior)

end

/-- On a run over well-formed messages the counter is right, and everything is
kept in every step if and only if every request that is to be sent to a peer is
sent to one. -/
theorem kept_iff_draws_peer {argv : Argv} {es : List LcflowEvent} {os : List LcflowEffect}
    {s : LcflowState} (run : (lcflow argv).Run es os s)
    (formed : (lcflow argv).StepsMeet WellFormed es) :
    s.capacity = s.workers.length ∧
      ((lcflow argv).StepsMeet (Kept argv) es ↔ (lcflow argv).StepsMeet (DrawsPeer argv) es) :=
  ⟨(accounted_of_run run).capacity, stepsMeet_kept_iff formed⟩

/-- A worker announces itself, and then a client asks. -/
def readyThenRequest (draws : Draws) : List LcflowEvent :=
  [.pollBackends (some (true, false)), .recv (some [[87], [], workerReady]) ⟨0, 0⟩,
    .pollFrontends (some (true, false)), .recv (some [[67], [], [72, 69, 76, 76, 79]]) draws]

/-- The request goes to the only peer. -/
theorem kept_iff_draws_peer_sample : ∃ s,
    (lcflow ⟨[65], [[66]]⟩).Run (readyThenRequest ⟨0, 0⟩)
      [.toCloudbe [[66], [67], [], [72, 69, 76, 76, 79]]] s ∧
    s.capacity = s.workers.length ∧
      (lcflow ⟨[65], [[66]]⟩).StepsMeet (Kept ⟨[65], [[66]]⟩) (readyThenRequest ⟨0, 0⟩) := by
  have hexec : (lcflow ⟨[65], [[66]]⟩).exec lcflowInit (readyThenRequest ⟨0, 0⟩) =
      some ({ pc := .pollFrontends, capacity := 1, workers := [[87]] },
        [.toCloudbe [[66], [67], [], [72, 69, 76, 76, 79]]]) := by decide
  have run := Machine.run_of_exec hexec
  obtain ⟨hcapacity, hkept⟩ := kept_iff_draws_peer run (Machine.stepsMeet_of_check (by decide))
  exact ⟨_, run, hcapacity, hkept.mpr (Machine.stepsMeet_of_check (by decide))⟩

/-- With the greatest value of `random()` the peer is `argv[argc]`, and the
request goes nowhere. -/
theorem request_lost : ¬ ∀ (argv : Argv) (es : List LcflowEvent) (os : List LcflowEffect)
    (s : LcflowState), (lcflow argv).Run es os s → (lcflow argv).StepsMeet WellFormed es →
      s.capacity = s.workers.length ∧ (lcflow argv).StepsMeet (Kept argv) es := by
  intro claim
  have hexec : (lcflow ⟨[65], [[66]]⟩).exec lcflowInit (readyThenRequest ⟨0, 2147483647⟩) =
      some ({ pc := .aborted, capacity := 1, workers := [[87]] }, []) := by decide
  have hprior : (lcflow ⟨[65], [[66]]⟩).exec lcflowInit
      ((readyThenRequest ⟨0, 2147483647⟩).take 3) =
        some ({ pc := .localfe, capacity := 1, workers := [[87]] }, []) := by decide
  have formed : (lcflow ⟨[65], [[66]]⟩).StepsMeet WellFormed
      (readyThenRequest ⟨0, 2147483647⟩) := Machine.stepsMeet_of_check (by decide)
  have kept := (claim _ _ _ _ (Machine.run_of_exec hexec) formed).2
  have peer := (stepsMeet_kept_iff formed).mp kept
  have last := peer _ _ [] _ _ rfl (Machine.run_of_exec hprior)
  revert last
  decide

end ZmqTest.Cloud
