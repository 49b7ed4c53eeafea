/-
# Every request is answered

From any state of a cloud in which nothing goes wrong, once no client asks anything new, the
messages under way can be passed on at most seven times each, a request that is sent to a
peer and its answer that comes back included. As long as a request is under way, one of the
messages can be passed on, at once or after two polls of a broker: a broker that has no worker
left for a request has a worker with a message on its way, or at work. So every request is
answered, each of them once.
-/

import ZmqTest.Cloud.Staff

namespace ZmqTest.Cloud

/-- The cloud when nothing goes wrong, no client asks and no worker is started. -/
def calmCloud (cloud : Topology) : Machine SystemState SystemEvent SystemOutput :=
  (fairCloud cloud).restrict fun _ e => productive e = true ∨ polls e = true

/-- A message can be passed on, after some polls at most. -/
abbrev PassesOn (cloud : Topology) (pace : Nat) (s : SystemState) : Prop :=
  (calmCloud cloud).MovesOn productive pace s

section

variable {cloud : Topology} {s t : SystemState} {e : SystemEvent} {os out : List SystemOutput}
  {broker worker peer : Frame} {pc : LcflowPc} {b : LcflowState} {loc : Loc} {parcel : Parcel}
  {pace : Nat}

theorem calm_step (fair : Fair cloud s e) (calm : productive e = true ∨ polls e = true)
    (taken : systemStep cloud s e = some (t, out)) :
    (calmCloud cloud).step s e = some (t, out) :=
  Machine.step_restrict.mpr ⟨calm, Machine.step_restrict.mpr ⟨fair, taken⟩⟩

theorem passesOn_of_step (own : productive e = true) (fair : Fair cloud s e)
    (enabled : (systemStep cloud s e).isSome) : PassesOn cloud 0 s := by
  obtain ⟨⟨t, out⟩, taken⟩ := Option.isSome_iff_exists.mp enabled
  exact Machine.movesOn_of_step own (calm_step fair (Or.inl own) taken)

/-- After a poll of a broker, which changes nothing but where the broker is. -/
theorem passesOn_of_poll (hbroker : broker ∈ cloud.names) {e : LcflowEvent}
    (fair : Fair cloud s (.poll broker e))
    (polled : lcflowStep (cloud.argv broker) (s.broker broker) e = some (b, []))
    (h : PassesOn cloud pace { s with broker := Function.update s.broker broker b }) :
    PassesOn cloud (pace + 1) s := by
  have silent : e.receives = false := by
    cases e with
    | recv msg draws => exact fair.elim
    | _ => rfl
  have taken : systemStep cloud s (.poll broker e) =
      some ({ s with broker := Function.update s.broker broker b }, []) := by
    simp [systemStep, hbroker, silent, Topology.stepBroker, polled]
  exact h.after rfl (calm_step fair (Or.inr rfl) taken)

/-- A socket from which a broker reads is at the end of a peer. -/
theorem inbox_of_socket (socket : loc.socket = some (broker, pc)) :
    ∃ peer, pc.inbox broker peer = some loc := by
  cases loc <;> simp only [Loc.socket, Option.some.injEq, Prod.mk.injEq, reduceCtorEq] at socket
  all_goals
    obtain ⟨rfl, rfl⟩ := socket
    exact ⟨_, rfl⟩

/-- Whatever is read, the broker goes on with it. -/
theorem recv_isSome (argv : Argv) (inbox : b.pc.inbox broker peer = some loc)
    (msg : Zmsg) (draws : Draws) : (lcflowStep argv b (.recv (some msg) draws)).isSome := by
  cases pc : b.pc <;> simp [lcflowStep, pc, LcflowPc.inbox] at inbox ⊢

/-- A broker that waits at a socket to which a message has come can read it. -/
theorem passesOn_of_receiving (hbroker : broker ∈ cloud.names)
    (come : readable s.net broker (s.broker broker).pc = true) : PassesOn cloud 0 s := by
  obtain ⟨packet, hmem, socket⟩ := readable_iff.mp come
  obtain ⟨peer, inbox⟩ := inbox_of_socket socket
  obtain ⟨parcel, left, found⟩ := Network.exists_recv hmem
  have draw : randof 5 1073741824 ≠ 0 := by decide
  have fair : Fair cloud s (.recv broker peer ⟨1073741824, 0⟩) :=
    fun _ _ reroute => absurd reroute draw
  obtain ⟨⟨next, effects⟩, taken⟩ := Option.isSome_iff_exists.mp
    (recv_isSome (cloud.argv broker) inbox (peer :: parcel.frames) ⟨1073741824, 0⟩)
  refine passesOn_of_step rfl fair ?_
  simp [systemStep, hbroker, Topology.recv, inbox, found, Topology.stepBroker, taken]

/-- At the backends a broker reads what has come. -/
theorem passesOn_of_pollBackends (hbroker : broker ∈ cloud.names)
    (pc : (s.broker broker).pc = .pollBackends)
    (come : readable s.net broker .localbe = true ∨ readable s.net broker .cloudbe = true) :
    PassesOn cloud 1 s := by
  have fair : Fair cloud s (.poll broker (.pollBackends
      (some (readable s.net broker .localbe, readable s.net broker .cloudbe)))) :=
    ⟨rfl, fun _ => come⟩
  cases here : readable s.net broker .localbe with
  | true =>
      refine passesOn_of_poll hbroker fair
        (b := { s.broker broker with pc := .localbe }) (by simp [lcflowStep, pc, here]) ?_
      exact passesOn_of_receiving hbroker (by simpa using here)
  | false =>
      have there : readable s.net broker .cloudbe = true := come.resolve_left (by simp [here])
      refine passesOn_of_poll hbroker fair
        (b := { s.broker broker with pc := .cloudbe }) (by simp [lcflowStep, pc, here, there]) ?_
      exact passesOn_of_receiving hbroker (by simpa using there)

/-- In the inner loop a broker reads what has come to the frontends. -/
theorem passesOn_of_pollFrontends (hbroker : broker ∈ cloud.names)
    (pc : (s.broker broker).pc = .pollFrontends)
    (come : readable s.net broker .localfe = true ∨ readable s.net broker .cloudfe = true) :
    PassesOn cloud 1 s := by
  have fair : Fair cloud s (.poll broker (.pollFrontends
      (some (readable s.net broker .localfe, readable s.net broker .cloudfe)))) := rfl
  cases there : readable s.net broker .cloudfe with
  | true =>
      refine passesOn_of_poll hbroker fair
        (b := { s.broker broker with pc := .cloudfe }) (by simp [lcflowStep, pc, there]) ?_
      exact passesOn_of_receiving hbroker (by simpa using there)
  | false =>
      have here : readable s.net broker .localfe = true := come.resolve_right (by simp [there])
      refine passesOn_of_poll hbroker fair
        (b := { s.broker broker with pc := .localfe }) (by simp [lcflowStep, pc, here, there]) ?_
      exact passesOn_of_receiving hbroker (by simpa using here)

/-- What has come to the backends of a broker can be read, after the end of its inner loop if
need be. -/
theorem Orderly.passesOn_of_backends (h : Orderly cloud s) (hbroker : broker ∈ cloud.names)
    (come : readable s.net broker .localbe = true ∨ readable s.net broker .cloudbe = true) :
    PassesOn cloud 2 s := by
  have goes := h.goes broker
  cases pc : (s.broker broker).pc with
  | pollBackends => exact (passesOn_of_pollBackends hbroker pc come).mono (by decide)
  | pollFrontends =>
      by_cases front : readable s.net broker .localfe = true ∨ readable s.net broker .cloudfe = true
      · exact (passesOn_of_pollFrontends hbroker pc front).mono (by decide)
      · obtain ⟨here, there⟩ := not_or.mp front
        refine passesOn_of_poll hbroker (e := .pollFrontends
          (some (readable s.net broker .localfe, readable s.net broker .cloudfe))) rfl
          (b := { s.broker broker with pc := .pollBackends })
          (by simp [lcflowStep, pc, here, there]) ?_
        exact passesOn_of_pollBackends hbroker (by simp) come
  | stopped =>
      rw [pc] at goes
      exact goes.elim
  | aborted =>
      rw [pc] at goes
      exact goes.elim
  | _ =>
      refine (passesOn_of_receiving hbroker ?_).mono (by decide)
      rw [pc] at goes ⊢
      exact goes

/-- What has come to the frontends of a broker with a worker can be read. -/
theorem Orderly.passesOn_of_frontends (h : Orderly cloud s) (hbroker : broker ∈ cloud.names)
    (some_worker : (s.broker broker).workers ≠ [])
    (come : readable s.net broker .localfe = true ∨ readable s.net broker .cloudfe = true) :
    PassesOn cloud 2 s := by
  have goes := h.goes broker
  cases pc : (s.broker broker).pc with
  | pollFrontends => exact (passesOn_of_pollFrontends hbroker pc come).mono (by decide)
  | pollBackends =>
      by_cases back : readable s.net broker .localbe = true ∨ readable s.net broker .cloudbe = true
      · exact (passesOn_of_pollBackends hbroker pc back).mono (by decide)
      · obtain ⟨here, there⟩ := not_or.mp back
        have capacity : (s.broker broker).capacity ≠ 0 := by
          have some_length := List.length_pos_iff.mpr some_worker
          rw [(h.accounted broker).capacity]
          omega
        refine passesOn_of_poll hbroker (e := .pollBackends
          (some (readable s.net broker .localbe, readable s.net broker .cloudbe)))
          ⟨rfl, fun zero => absurd zero capacity⟩ (b := (s.broker broker).innerLoop)
          (by simp [lcflowStep, pc, here, there, routeReply_none]) ?_
        exact passesOn_of_pollFrontends hbroker (by simp [LcflowState.innerLoop, capacity]) come
  | stopped =>
      rw [pc] at goes
      exact goes.elim
  | aborted =>
      rw [pc] at goes
      exact goes.elim
  | _ =>
      refine (passesOn_of_receiving hbroker ?_).mono (by decide)
      rw [pc] at goes ⊢
      exact goes

theorem passesOn_of_working (hmem : (.working broker worker, parcel) ∈ s.net) :
    PassesOn cloud 0 s := by
  obtain ⟨other, left, found⟩ := Network.exists_recv hmem
  exact passesOn_of_step (e := .workerAnswers broker worker []) rfl trivial
    (by simp [systemStep, SystemState.workerAnswers, found])

/-- A worker takes the request that is sent to it, or is at work. -/
theorem Orderly.passesOn_of_worker (h : Orderly cloud s)
    (hmem : (.worker broker worker, parcel) ∈ s.net) : PassesOn cloud 0 s := by
  have started : s.started (broker, worker) = true := by
    have staff := h.staff broker worker
    have some_token : 0 < tokens s.net broker worker :=
      List.countP_pos_iff.mpr ⟨_, hmem, by simp [Loc.token]⟩
    cases hstarted : s.started (broker, worker) with
    | true => rfl
    | false =>
        rw [hstarted, Bool.toNat_false] at staff
        omega
  by_cases idle : s.net.contents (.working broker worker) = []
  · obtain ⟨⟨frames, request⟩, left, found⟩ := Network.exists_recv hmem
    refine passesOn_of_step (e := .workerTakes broker worker) rfl trivial ?_
    rcases frames with _ | ⟨_ | ⟨_, _⟩, _⟩ <;>
      simp [systemStep, SystemState.workerTakes, started, idle, found]
  · obtain ⟨other, hcontents⟩ := List.exists_mem_of_ne_nil _ idle
    obtain ⟨⟨loc, msg⟩, hpacket, hloc⟩ := List.mem_filterMap.mp hcontents
    obtain ⟨rfl, -⟩ := Option.ite_none_right_eq_some.mp hloc
    exact passesOn_of_working hpacket

/-- The worker of a message can do something about it, or its broker can. -/
theorem Orderly.passesOn_of_token (h : Orderly cloud s) (hbroker : broker ∈ cloud.names)
    (some_token : 0 < tokens s.net broker worker) : PassesOn cloud 2 s := by
  obtain ⟨⟨loc, parcel⟩, hmem, token⟩ := List.countP_pos_iff.mp some_token
  rw [decide_eq_true_eq] at token
  cases loc <;> simp only [Loc.token, Option.some.injEq, Prod.mk.injEq, reduceCtorEq] at token
  all_goals obtain ⟨rfl, rfl⟩ := token
  · exact h.passesOn_of_backends hbroker (Or.inl (readable_iff.mpr ⟨_, hmem, rfl⟩))
  · exact (h.passesOn_of_worker hmem).mono (by decide)
  · exact (passesOn_of_working hmem).mono (by decide)

/-- A broker that has no worker for a request waits for one that is on its way. -/
theorem Orderly.passesOn_of_waiting (h : Orderly cloud s) (hbroker : broker ∈ cloud.names)
    (started : s.started (broker, worker) = true)
    (come : readable s.net broker .localfe = true ∨ readable s.net broker .cloudfe = true) :
    PassesOn cloud 2 s := by
  by_cases some_worker : (s.broker broker).workers = []
  · have staff := h.staff broker worker
    rw [some_worker, List.count_nil, started, Bool.toNat_true] at staff
    have some_token : 0 < tokens s.net broker worker := by omega
    exact h.passesOn_of_token hbroker some_token
  · exact h.passesOn_of_frontends hbroker some_worker come

theorem Orderly.passesOn (h : Orderly cloud s)
    (staffed : ∀ name ∈ cloud.names, ∃ worker, s.started (name, worker) = true)
    (pending : requests s.net ≠ []) : PassesOn cloud 2 s := by
  obtain ⟨request, hrequest⟩ := List.exists_mem_of_ne_nil _ pending
  obtain ⟨⟨loc, parcel⟩, hmem, -⟩ := List.mem_filterMap.mp hrequest
  have hbroker := h.placed _ hmem
  obtain ⟨worker, started⟩ := staffed _ hbroker
  cases loc with
  | localfe broker client =>
      exact h.passesOn_of_waiting hbroker started (Or.inl (readable_iff.mpr ⟨_, hmem, rfl⟩))
  | cloudfe broker peer =>
      exact h.passesOn_of_waiting hbroker started (Or.inr (readable_iff.mpr ⟨_, hmem, rfl⟩))
  | localbe broker worker =>
      exact h.passesOn_of_backends hbroker (Or.inl (readable_iff.mpr ⟨_, hmem, rfl⟩))
  | cloudbe broker peer =>
      exact h.passesOn_of_backends hbroker (Or.inr (readable_iff.mpr ⟨_, hmem, rfl⟩))
  | worker broker worker => exact (h.passesOn_of_worker hmem).mono (by decide)
  | working broker worker => exact (passesOn_of_working hmem).mono (by decide)
  | client broker client =>
      obtain ⟨other, left, found⟩ := Network.exists_recv hmem
      exact (passesOn_of_step (e := .clientRecv broker client) rfl trivial
        (by simp [systemStep, found])).mono (by decide)

end

section

variable {cloud : Topology} {s t : SystemState} {es fs : List SystemEvent}
  {os more : List SystemOutput}

theorem fair_of_calm (run : ((calmCloud cloud).resume s).Run fs more t) :
    ((fairCloud cloud).resume s).Run fs more t :=
  Machine.Run.of_restrict (m := (fairCloud cloud).resume s) run

/-- The end of a calm run is that of a run in which nothing goes wrong. -/
theorem run_of_calm (run : (fairCloud cloud).Run es os s)
    (calm : ((calmCloud cloud).resume s).Run fs more t) :
    (fairCloud cloud).Run (es ++ fs) (os ++ more) t :=
  run.append_resumed (fair_of_calm calm)

theorem moves_of_calm (run : (fairCloud cloud).Run es os s) {e : SystemEvent}
    {out : List SystemOutput} (taken : (calmCloud cloud).step s e = some (t, out)) :
    (productive e = true ∨ polls e = true) ∧ Moves cloud s e t out := by
  obtain ⟨calm, taken⟩ := Machine.step_restrict.mp taken
  obtain ⟨fair, taken⟩ := Machine.step_restrict.mp taken
  have sound := sound_of_run run.of_restrict
  exact ⟨calm, moves_of_step sound (orderly_of_run run).accounted fair taken⟩

/-- What has been asked is answered or under way. -/
theorem asks_perm (run : (fairCloud cloud).Run es os s) :
    (asks os).Perm (answers os ++ requests s.net) := by
  induction run with
  | start => exact List.Perm.refl _
  | @extend es os s t e out prior taken ih =>
      obtain ⟨fair, taken⟩ := Machine.step_restrict.mp taken
      have accounted := (orderly_of_run prior).accounted
      have moves := moves_of_step (sound_of_run prior.of_restrict) accounted fair taken
      calc (asks (os ++ out)).Perm (asks out ++ asks os) := by
            rw [asks_append]
            exact List.perm_append_comm
        _ |>.Perm (asks out ++ (answers os ++ requests s.net)) := ih.append_left _
        _ |>.Perm (answers os ++ (asks out ++ requests s.net)) := List.perm_append_comm_assoc ..
        _ |>.Perm (answers os ++ (answers out ++ requests t.net)) := moves.requests.append_left _
        _ |>.Perm (answers (os ++ out) ++ requests t.net) := by
            rw [answers_append, List.append_assoc]

theorem countP_productive_le (run : (fairCloud cloud).Run es os s)
    (calm : ((calmCloud cloud).resume s).Run fs more t) :
    fs.countP productive + ways t.net ≤ ways s.net := by
  have reached (fs more t) (calm : ((calmCloud cloud).resume s).Run fs more t) :
      ∃ es os, (fairCloud cloud).Run es os t := ⟨_, _, run_of_calm run calm⟩
  have step (t e u out) (h : ∃ es os, (fairCloud cloud).Run es os t)
      (taken : ((calmCloud cloud).resume s).step t e = some (u, out)) :
      ways u.net + (if productive e then 1 else 0) ≤ ways t.net := by
    obtain ⟨es, os, run⟩ := h
    obtain ⟨calm, moves⟩ := moves_of_calm run taken
    exact moves.ahead calm
  exact calm.countP_add_rank_le reached step

theorem asks_of_calm (run : (fairCloud cloud).Run es os s)
    (calm : ((calmCloud cloud).resume s).Run fs more t) : asks more = [] := by
  induction calm with
  | start => rfl
  | extend prior taken ih =>
      obtain ⟨calm, moves⟩ := moves_of_calm (run_of_calm run prior) taken
      rw [asks_append, ih, moves.silent calm, List.append_nil]

/-- From then on what is under way is answered, or is still under way. -/
theorem requests_of_calm (run : (fairCloud cloud).Run es os s)
    (calm : ((calmCloud cloud).resume s).Run fs more t) :
    (requests s.net).Perm (answers more ++ requests t.net) := by
  have before := asks_perm run
  have after := asks_perm (run_of_calm run calm)
  rw [asks_append, asks_of_calm run calm, List.append_nil, answers_append,
    List.append_assoc] at after
  exact (List.perm_append_left_iff (answers os)).mp (before.symm.trans after)

theorem started_of_calm (run : (fairCloud cloud).Run es os s)
    (calm : ((calmCloud cloud).resume s).Run fs more t) {name worker : Frame}
    (h : s.started (name, worker) = true) : t.started (name, worker) = true := by
  induction calm with
  | start => exact h
  | extend prior taken ih => exact (moves_of_calm (run_of_calm run prior) taken).2.started ih

/-- When a message is passed on, less is ahead. -/
theorem lowers_of_passesOn (run : (fairCloud cloud).Run es os s) {pace : Nat}
    (h : PassesOn cloud pace s) :
    ∃ fs more t, (calmCloud cloud).exec s fs = some (t, more) ∧ fs.length ≤ pace + 1 ∧
      ways t.net < ways s.net := by
  obtain ⟨before, e, t, more, few, idle, own, hexec⟩ := h
  have calm : ((calmCloud cloud).resume s).Run (before ++ [e]) more t :=
    Machine.run_of_exec (Machine.exec_resume.trans hexec)
  have bound := countP_productive_le run calm
  rw [List.countP_append, idle, List.countP_singleton, own, if_pos rfl] at bound
  refine ⟨before ++ [e], more, t, hexec, ?_, by omega⟩
  rw [List.length_append, List.length_singleton]
  omega

end

/-- From any state of a cloud in which nothing goes wrong and every broker has a worker, once
no client asks anything new, the messages under way are passed on at most seven times each, in
whatever order; every request is answered once or still under way, and as long as one is, a
message can be passed on after two polls at most. So all of them can be answered, and are, as
soon as nothing is passed on any more. -/
theorem answers_every_request {cloud : Topology} {es : List SystemEvent} {os : List SystemOutput}
    {s : SystemState} (run : (fairCloud cloud).Run es os s)
    (staffed : ∀ name ∈ cloud.names, ∃ worker, s.started (name, worker) = true) :
    (asks os).Perm (answers os ++ requests s.net) ∧
      (∀ fs more t, ((calmCloud cloud).resume s).Run fs more t →
        fs.countP productive ≤ 7 * s.net.length ∧
          (requests s.net).Perm (answers more ++ requests t.net) ∧
          (requests t.net ≠ [] → PassesOn cloud 2 t)) ∧
      ∃ fs more t, ((calmCloud cloud).resume s).Run fs more t ∧
        (answers more).Perm (requests s.net) ∧ requests t.net = [] := by
  have goes_on (fs more t) (calm : ((calmCloud cloud).resume s).Run fs more t)
      (pending : requests t.net ≠ []) : PassesOn cloud 2 t := by
    refine (orderly_of_run (run_of_calm run calm)).passesOn (fun name hname => ?_) pending
    obtain ⟨worker, started⟩ := staffed name hname
    exact ⟨worker, started_of_calm run calm started⟩
  refine ⟨asks_perm run, fun fs more t calm => ⟨?_, requests_of_calm run calm,
    goes_on fs more t calm⟩, ?_⟩
  · have bound := countP_productive_le run calm
    have total := ways_le s.net
    omega
  · have begun : ((calmCloud cloud).resume s).Run [] [] s := Machine.Run.start
    obtain ⟨fs, more, t, hexec, done, -⟩ := begun.reaches fun fs more t calm pending => by
      obtain ⟨gs, rest, u, hexec, few, lower⟩ := lowers_of_passesOn
        (run_of_calm run calm) (goes_on fs more t calm pending)
      exact ⟨gs, rest, u, Machine.exec_resume.trans hexec, few, lower⟩
    have calm : ((calmCloud cloud).resume s).Run fs more t := Machine.run_of_exec hexec
    have kept := requests_of_calm run calm
    rw [done, List.append_nil] at kept
    exact ⟨fs, more, t, calm, kept.symm, done⟩

/-- The request of a client of the one broker has crossed to the other. -/
theorem answers_every_request_crossed : ∃ os s,
    (fairCloud pair).Run (thereAndBack.take 8) os s ∧
    (requests s.net).length = 1 ∧ ∃ fs more t, ((calmCloud pair).resume s).Run fs more t ∧
      (answers more).Perm (requests s.net) ∧ requests t.net = [] := by
  have hexec : ((fairCloud pair).exec (fairCloud pair).init (thereAndBack.take 8)).map
      (fun r => (r.1.started ([65], [87]), r.1.started ([66], [86]),
        (requests r.1.net).length)) = some (true, true, 1) := by decide +kernel
  obtain ⟨os, s, run, hsee⟩ := Machine.run_of_map_exec hexec
  simp only [Prod.mk.injEq] at hsee
  obtain ⟨first, second, one⟩ := hsee
  have staffed : ∀ name ∈ pair.names, ∃ worker, s.started (name, worker) = true := by
    intro name hname
    rcases List.mem_pair.mp hname with rfl | rfl
    · exact ⟨[87], first⟩
    · exact ⟨[86], second⟩
  exact ⟨os, s, run, one, (answers_every_request run staffed).2.2⟩

end ZmqTest.Cloud
