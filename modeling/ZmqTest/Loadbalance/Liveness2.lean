/-
# Who gets a reply from the message-wise load balancer

When nothing is interrupted and `zmq_poll` tells the truth, the threads and the broker of
`lbbroker2.c` come to a halt only when all workers are ready again and no request is left.
Every client thread has received its reply by then, except one whose identity starts with
the READY byte: its reply was taken for a READY, and it waits for ever.
-/

import ZmqTest.Loadbalance.Progress2
import ZmqTest.Loadbalance.Simulation

namespace ZmqTest.Loadbalance2

open Balancer
open ZmqTest.Loadbalance (LbbrokerEffect repliesTo repliesTo_append repliesTo_reply nbrClients
  nbrWorkers)

section

variable {peers : Peers} {s t : SystemState} {out os : List LbbrokerEffect} {e : SystemEvent}
  {answered : List Frame} {a : State Frame Frame}

/-- The worker thread has the request of a client, or has replied to it. -/
def WorkerEnd.Holds (e : WorkerEnd) (c : Frame) : Prop :=
  e.down = [[[], c, [], hello]] ∨ e.task = .working [c, [], hello] ∨ e.up = [[[], c, [], ok]]

/-- What was sent to a client thread is under way or is what ended it. -/
structure Heard (os : List LbbrokerEffect) (c : Frame) (e : ClientEnd) : Prop where
  replies : repliesTo c os = [] ∨ c.startsWith 1 = false ∧ repliesTo c os = [[[], ok]]
  fresh : e.task = .start → e = clientEndInit ∧ repliesTo c os = []
  waiting : e.task = .waiting → e.down = repliesTo c os
  finished : e.task = .finished → e.down = [] ∧ repliesTo c os ≠ []

/-- A client thread that has sent its request and not been answered. -/
def ClientEnd.Served (e : ClientEnd) : Prop := e = { task := .waiting, up := [], down := [] }

theorem Heard.append {c : Frame} {e : ClientEnd} (h : Heard os c e) (other : repliesTo c out = []) :
    Heard (os ++ out) c e := by
  have same : repliesTo c (os ++ out) = repliesTo c os := by
    rw [repliesTo_append, other, List.append_nil]
  exact ⟨same ▸ h.replies, same ▸ h.fresh, same ▸ h.waiting, same ▸ h.finished⟩

/-- What the thread receives is its reply. -/
theorem Heard.recv {c : Frame} {e next : ClientEnd} (h : Heard os c e)
    (taken : e.recv = some next) :
    repliesTo c os = [[[], ok]] ∧ next = { e with task := .finished, down := [] } := by
  have waits : e.task = .waiting := by
    cases task : e.task with
    | waiting => rfl
    | start => simp [ClientEnd.recv, task] at taken
    | finished => simp [ClientEnd.recv, task] at taken
  have down := h.waiting waits
  rcases h.replies with none | ⟨-, one⟩
  · simp [ClientEnd.recv, waits, down, none] at taken
  · rw [one] at down
    simp only [ClientEnd.recv, waits, down, Option.some.injEq] at taken
    exact ⟨one, taken.symm⟩

theorem SystemMoves.heard (moves : SystemMoves peers s e t out)
    (h : ∀ c, Heard os c (s.client c)) (c : Frame) : Heard (os ++ out) c (t.client c) := by
  have before := h c
  cases moves with
  | workerStart w known fresh => exact before.append rfl
  | workerRecv w d known assigned => exact before.append rfl
  | workerReply w d known working => exact before.append rfl
  | poll revents0 revents1 pc => exact before.append rfl
  | ready w revents1 pc known sent => exact before.append rfl
  | mistaken w d revents1 pc known sent same => exact before.append rfl
  | clientSend d known fresh =>
      apply Heard.append _ rfl
      by_cases heq : c = d
      · subst heq
        obtain ⟨-, none⟩ := before.fresh (by rw [fresh]; rfl)
        simp only [Function.update_self]
        exact ⟨Or.inl none, by simp, fun _ => none.symm, by simp⟩
      · simpa [heq] using before
  | clientRecv d next taken =>
      apply Heard.append _ rfl
      by_cases heq : c = d
      · subst heq
        obtain ⟨one, rfl⟩ := before.recv taken
        simp only [Function.update_self]
        exact ⟨before.replies, by simp, by simp, fun _ => ⟨rfl, by simp [one]⟩⟩
      · simpa [heq] using before
  | reply w d revents1 pc known sent waits told =>
      by_cases heq : c = d
      · subst heq
        have none : repliesTo c os = [] := by
          rw [← before.waiting (by rw [waits]), waits]
        have one : repliesTo c (os ++ [.toFrontend [c, [], ok]]) = [[[], ok]] := by
          rw [repliesTo_append, none, repliesTo_reply, if_pos rfl, List.nil_append]
        simp only [Function.update_self]
        exact ⟨Or.inr ⟨told, one⟩, by simp, fun _ => one.symm, by simp⟩
      · have other : repliesTo c [LbbrokerEffect.toFrontend [d, [], ok]] = [] := by
          rw [repliesTo_reply, if_neg (Ne.symm heq)]
        simpa [heq] using before.append other
  | request d w rest pc sent ready known idle =>
      apply Heard.append _ rfl
      by_cases heq : c = d
      · subst heq
        simp only [Function.update_self]
        have asked : (s.client c).task = .start → False := by
          intro task
          rw [(before.fresh task).1] at sent
          cases sent
        exact ⟨before.replies, fun task => (asked task).elim, before.waiting, before.finished⟩
      · simpa [heq] using before

/-! ## Where the requests are -/

/-- A worker thread keeps the request of a client until the broker sends its reply on, or
takes it for a READY. -/
theorem SystemMoves.holds (moves : SystemMoves peers s e t out) {w c : Frame}
    (h : (s.worker w).Holds c) :
    (t.worker w).Holds c ∨ repliesTo c out ≠ [] ∨ c.startsWith 1 = true := by
  cases moves with
  | clientSend d known fresh => exact Or.inl h
  | clientRecv d next taken => exact Or.inl h
  | poll revents0 revents1 pc => exact Or.inl h
  | workerStart v known fresh =>
      by_cases heq : w = v
      · subst heq
        simp [WorkerEnd.Holds, fresh, workerEndInit] at h
      · exact Or.inl (by simpa [heq] using h)
  | workerRecv v d known assigned =>
      by_cases heq : w = v
      · subst heq
        simp [WorkerEnd.Holds, assigned] at h
        simp [WorkerEnd.Holds, h]
      · exact Or.inl (by simpa [heq] using h)
  | workerReply v d known working =>
      by_cases heq : w = v
      · subst heq
        simp [WorkerEnd.Holds, working] at h
        simp [WorkerEnd.Holds, h]
      · exact Or.inl (by simpa [heq] using h)
  | ready v revents1 pc known sent =>
      by_cases heq : w = v
      · subst heq
        left
        simpa [WorkerEnd.Holds, WorkerEnd.emptied, sent] using h
      · exact Or.inl (by simpa [heq] using h)
  | reply v d revents1 pc known sent waits told =>
      by_cases heq : w = v
      · subst heq
        rcases h with down | task | up
        · exact Or.inl (Or.inl (by simpa [WorkerEnd.emptied] using down))
        · exact Or.inl (Or.inr (Or.inl (by simpa [WorkerEnd.emptied] using task)))
        · obtain rfl : d = c := by simpa [sent] using up
          exact Or.inr (Or.inl (by simp [repliesTo_reply]))
      · exact Or.inl (by simpa [heq] using h)
  | mistaken v d revents1 pc known sent same =>
      by_cases heq : w = v
      · subst heq
        rcases h with down | task | up
        · exact Or.inl (Or.inl (by simpa [WorkerEnd.emptied] using down))
        · exact Or.inl (Or.inr (Or.inl (by simpa [WorkerEnd.emptied] using task)))
        · obtain rfl : d = c := by simpa [sent] using up
          exact Or.inr (Or.inr same)
      · exact Or.inl (by simpa [heq] using h)
  | request d v rest pc sent ready known idle =>
      by_cases heq : w = v
      · subst heq
        obtain ⟨waits, up, down⟩ := idle
        rcases waits with waits | waits <;> simp [WorkerEnd.Holds, up, down, waits] at h
      · exact Or.inl (by simpa [heq] using h)

/-- The request of a client that waits is with a worker, unless it was lost with a reply that
was taken for a READY. -/
def Requested (s : SystemState) (c : Frame) : Prop :=
  c.startsWith 1 = false → (s.client c).Served → ∃ w, (s.worker w).Holds c

/-- A client that has been served was so before the step, but for the one whose request is
received by the broker in it. -/
theorem SystemMoves.served (moves : SystemMoves peers s e t out)
    (heard : ∀ c, Heard os c (s.client c)) {c : Frame} (served : (t.client c).Served) :
    (s.client c).Served ∧ repliesTo c out = [] ∨ ∃ w, (t.worker w).Holds c := by
  cases moves with
  | workerStart w known fresh => exact Or.inl ⟨served, rfl⟩
  | workerRecv w d known assigned => exact Or.inl ⟨served, rfl⟩
  | workerReply w d known working => exact Or.inl ⟨served, rfl⟩
  | poll revents0 revents1 pc => exact Or.inl ⟨served, rfl⟩
  | ready w revents1 pc known sent => exact Or.inl ⟨served, rfl⟩
  | mistaken w d revents1 pc known sent same => exact Or.inl ⟨served, rfl⟩
  | clientSend d known fresh =>
      by_cases heq : c = d
      · subst heq
        simp [ClientEnd.Served] at served
      · exact Or.inl ⟨by simpa [heq] using served, rfl⟩
  | clientRecv d next taken =>
      by_cases heq : c = d
      · subst heq
        obtain ⟨-, rfl⟩ := (heard c).recv taken
        simp [ClientEnd.Served] at served
      · exact Or.inl ⟨by simpa [heq] using served, rfl⟩
  | reply w d revents1 pc known sent waits told =>
      by_cases heq : c = d
      · subst heq
        simp [ClientEnd.Served] at served
      · refine Or.inl ⟨by simpa [heq] using served, ?_⟩
        rw [repliesTo_reply, if_neg (Ne.symm heq)]
  | request d w rest pc sent ready known idle =>
      by_cases heq : c = d
      · subst heq
        exact Or.inr ⟨w, Or.inl (by simp [WorkerEnd.given])⟩
      · exact Or.inl ⟨by simpa [heq] using served, rfl⟩

theorem SystemMoves.requested (moves : SystemMoves peers s e t out)
    (heard : ∀ c, Heard os c (s.client c)) {c : Frame} (h : Requested s c) : Requested t c := by
  intro told served
  rcases moves.served heard served with ⟨before, silent⟩ | held
  · obtain ⟨w, hw⟩ := h told before
    rcases moves.holds hw with hw | sent | same
    · exact ⟨w, hw⟩
    · exact absurd silent sent
    · simp [told] at same
  · exact held

/-- The workers that were sent the request of a client. -/
def assignees (client : Frame) (os : List LbbrokerEffect) : List Frame :=
  os.filterMap fun
    | .toBackend [worker, [], address, [], _] => if address = client then some worker else none
    | _ => none

theorem assignees_append (c : Frame) (os out : List LbbrokerEffect) :
    assignees c (os ++ out) = assignees c os ++ assignees c out :=
  List.filterMap_append

theorem assignees_request (w c d : Frame) :
    assignees d [.toBackend [w, [], c, [], hello]] = if c = d then [w] else [] := by
  by_cases h : c = d <;> simp [assignees, h]

/-- The request of a client thread has been received by the broker. -/
def ClientEnd.asked (e : ClientEnd) : Bool := e.task ≠ .start && e.up.isEmpty

/-- A request that was received was sent to one worker. -/
def Handed (peers : Peers) (os : List LbbrokerEffect) (c : Frame) (e : ClientEnd) : Prop :=
  if e.asked then ∃ w ∈ peers.workers, assignees c os = [w] else assignees c os = []

theorem Handed.append {c : Frame} {e : ClientEnd} (h : Handed peers os c e)
    (other : assignees c out = []) : Handed peers (os ++ out) c e := by
  unfold Handed at h ⊢
  rwa [assignees_append, other, List.append_nil]

theorem SystemMoves.handed (moves : SystemMoves peers s e t out)
    (heard : ∀ c, Heard os c (s.client c)) (h : ∀ c, Handed peers os c (s.client c)) (c : Frame) :
    Handed peers (os ++ out) c (t.client c) := by
  have before := h c
  cases moves with
  | workerStart w known fresh => exact before.append rfl
  | workerRecv w d known assigned => exact before.append rfl
  | workerReply w d known working => exact before.append rfl
  | poll revents0 revents1 pc => exact before.append rfl
  | ready w revents1 pc known sent => exact before.append rfl
  | mistaken w d revents1 pc known sent same => exact before.append rfl
  | clientSend d known fresh =>
      apply Handed.append _ rfl
      by_cases heq : c = d
      · subst heq
        have none : assignees c os = [] := by
          simpa [Handed, fresh, clientEndInit, ClientEnd.asked] using before
        simpa [Handed, ClientEnd.asked] using none
      · simpa [heq] using before
  | clientRecv d next taken =>
      apply Handed.append _ rfl
      by_cases heq : c = d
      · subst heq
        have started : (s.client c).task ≠ .start := by
          intro start
          simp [ClientEnd.recv, start] at taken
        obtain ⟨-, rfl⟩ := (heard c).recv taken
        simpa [Handed, ClientEnd.asked, started] using before
      · simpa [heq] using before
  | reply w d revents1 pc known sent waits told =>
      apply Handed.append _ rfl
      by_cases heq : c = d
      · subst heq
        simpa [Handed, ClientEnd.asked, waits] using before
      · simpa [heq] using before
  | request d w rest pc sent ready known idle =>
      by_cases heq : c = d
      · subst heq
        have started : (s.client c).task ≠ .start := by
          intro start
          rw [((heard c).fresh start).1] at sent
          cases sent
        have none : assignees c os = [] := by
          simpa [Handed, ClientEnd.asked, sent] using before
        have now : assignees c (os ++ [.toBackend [w, [], c, [], hello]]) = [w] := by
          rw [assignees_append, none, assignees_request, if_pos rfl, List.nil_append]
        simp only [Function.update_self, Handed, ClientEnd.asked, ClientEnd.emptied]
        simp [started, now, known]
      · have other : assignees c [LbbrokerEffect.toBackend [w, [], d, [], hello]] = [] := by
          rw [assignees_request, if_neg (Ne.symm heq)]
        simpa [heq] using before.append other

/-- What a client thread has sent is there until the broker receives it. -/
theorem ClientEnd.up_of_recv {e next : ClientEnd} (taken : e.recv = some next) :
    next.up = e.up := by
  simp only [ClientEnd.recv] at taken
  split at taken <;> cases taken <;> rfl

/-- The points at which a message of a worker is read next. -/
def Lbbroker2Pc.turnsToBackend : Lbbroker2Pc → Bool
  | .backend _ => true
  | _ => false

/-- Those from which a message of a client is read next or next but one. -/
def Lbbroker2Pc.turnsToFrontend : Lbbroker2Pc → Bool
  | .backend revents1 => revents1
  | .frontend => true
  | _ => false

/-- What holds between the steps when the poll tells the truth and nothing is interrupted. -/
structure Attended (peers : Peers) (os : List LbbrokerEffect) (s : SystemState) : Prop where
  running : ∀ w, (s.worker w).task ≠ .stopped
  going : s.broker.pc ≠ .stopped
  backend : s.broker.pc.turnsToBackend → s.backendReadable peers
  frontend : s.broker.pc.turnsToFrontend → s.frontendReadable peers
  known : ∀ c, s.client c ≠ clientEndInit → c ∈ peers.clients
  heard : ∀ c, Heard os c (s.client c)
  handed : ∀ c, Handed peers os c (s.client c)
  requested : ∀ c, Requested s c

theorem Attended.init (peers : Peers) : Attended peers [] systemInit where
  running := fun _ => by simp [systemInit, workerEndInit]
  going := by decide
  backend := by simp [systemInit, lbbroker2Init, Lbbroker2Pc.turnsToBackend]
  frontend := by simp [systemInit, lbbroker2Init, Lbbroker2Pc.turnsToFrontend]
  known := fun _ some_state => absurd rfl some_state
  heard := fun _ => ⟨Or.inl rfl, fun _ => ⟨rfl, rfl⟩, fun _ => rfl, by
    simp [systemInit, clientEndInit]⟩
  handed := fun _ => by simp [Handed, systemInit, clientEndInit, ClientEnd.asked, assignees]
  requested := fun _ _ served => by simp [ClientEnd.Served, systemInit, clientEndInit] at served

theorem backendReadable_iff :
    s.backendReadable peers = true ↔ ∃ w ∈ peers.workers, (s.worker w).up ≠ [] := by
  simp [SystemState.backendReadable]

theorem frontendReadable_iff :
    s.frontendReadable peers = true ↔ ∃ c ∈ peers.clients, (s.client c).up ≠ [] := by
  simp [SystemState.frontendReadable]

/-- A step of a worker thread that has sent nothing leaves what can be read. -/
theorem backendReadable_update {w : Frame} {next : WorkerEnd} (silent : (s.worker w).up = [])
    (readable : s.backendReadable peers = true) : SystemState.backendReadable
      { s with worker := Function.update s.worker w next } peers = true :=
  Machine.any_update (fun e : WorkerEnd => !e.up.isEmpty) s.worker (by simp [silent]) readable

/-- So does a step of a client thread. -/
theorem frontendReadable_update {c : Frame} {next : ClientEnd} (silent : (s.client c).up = [])
    (readable : s.frontendReadable peers = true) : SystemState.frontendReadable
      { s with client := Function.update s.client c next } peers = true :=
  Machine.any_update (fun e : ClientEnd => !e.up.isEmpty) s.client (by simp [silent]) readable

theorem turnsToBackend_afterBackend (revents1 : Bool) :
    (afterBackend revents1).turnsToBackend = false := by
  cases revents1 <;> rfl

theorem turnsToFrontend_afterBackend {revents1 : Bool}
    (h : (afterBackend revents1).turnsToFrontend) : revents1 := by
  cases revents1 with
  | false => cases h
  | true => rfl

/-- What the last poll has told of the workers is there until the broker makes use of it. -/
theorem SystemMoves.backend (moves : SystemMoves peers s e t out) (truthful : Truthful peers s e)
    (h : s.broker.pc.turnsToBackend → s.backendReadable peers) :
    t.broker.pc.turnsToBackend → t.backendReadable peers := by
  cases moves with
  | workerStart w known fresh =>
      exact fun turns => backendReadable_update (by rw [fresh]; rfl) (h turns)
  | workerRecv w d known assigned =>
      exact fun turns => backendReadable_update (by rw [assigned]) (h turns)
  | workerReply w d known working =>
      exact fun turns => backendReadable_update (by rw [working]) (h turns)
  | clientSend d known fresh => exact h
  | clientRecv d next taken => exact h
  | poll revents0 revents1 pc =>
      intro turns
      rw [truthful.afterPoll] at turns
      obtain ⟨backend, -, -⟩ := truthful
      cases revents0 with
      | true => exact backend.symm
      | false => cases turns
  | ready w revents1 pc known sent => simp [turnsToBackend_afterBackend]
  | reply w d revents1 pc known sent waits told => simp [turnsToBackend_afterBackend]
  | mistaken w d revents1 pc known sent same => simp [turnsToBackend_afterBackend]
  | request d w rest pc sent ready known idle => simp [Lbbroker2Pc.turnsToBackend]

/-- So is what it has told of the clients. -/
theorem SystemMoves.frontend (moves : SystemMoves peers s e t out) (truthful : Truthful peers s e)
    (h : s.broker.pc.turnsToFrontend → s.frontendReadable peers) :
    t.broker.pc.turnsToFrontend → t.frontendReadable peers := by
  have turned {revents1 : Bool} (pc : s.broker.pc = .backend revents1)
      (turns : (afterBackend revents1).turnsToFrontend) : s.frontendReadable peers := by
    apply h
    rw [pc]
    exact turnsToFrontend_afterBackend turns
  cases moves with
  | workerStart w known fresh => exact h
  | workerRecv w d known assigned => exact h
  | workerReply w d known working => exact h
  | clientSend d known fresh =>
      exact fun turns => frontendReadable_update (by rw [fresh]; rfl) (h turns)
  | clientRecv d next taken =>
      intro turns
      have same : next.up = (s.client d).up := ClientEnd.up_of_recv taken
      obtain ⟨c, known, some_sent⟩ := frontendReadable_iff.mp (h turns)
      refine frontendReadable_iff.mpr ⟨c, known, ?_⟩
      by_cases heq : c = d
      · subst heq
        simpa [same] using some_sent
      · simpa [heq] using some_sent
  | poll revents0 revents1 pc =>
      intro turns
      rw [truthful.afterPoll] at turns
      obtain ⟨-, frontend, promised⟩ := truthful
      have read : revents1 = true := by
        cases revents0 with
        | true => exact (Bool.and_eq_true_iff.mp turns).1
        | false => exact (promised.resolve_left (by simp)).2
      exact frontend ▸ read
  | ready w revents1 pc known sent => exact turned pc
  | reply w d revents1 pc known sent waits told =>
      exact fun turns => frontendReadable_update (by rw [waits]) (turned pc turns)
  | mistaken w d revents1 pc known sent same => exact turned pc
  | request d w rest pc sent ready known idle => simp [Lbbroker2Pc.turnsToFrontend]

/-- Nothing is interrupted. -/
theorem SystemMoves.goes_on (moves : SystemMoves peers s e t out) (truthful : Truthful peers s e)
    (running : ∀ w, (s.worker w).task ≠ .stopped) (going : s.broker.pc ≠ .stopped) :
    (∀ w, (t.worker w).task ≠ .stopped) ∧ t.broker.pc ≠ .stopped := by
  have worker {v : Frame} {next : WorkerEnd} (h : next.task ≠ .stopped) (w : Frame) :
      (Function.update s.worker v next w).task ≠ .stopped := by
    by_cases heq : w = v
    · subst heq
      simpa using h
    · simpa [heq] using running w
  have backend (revents1 : Bool) : afterBackend revents1 ≠ .stopped := by
    cases revents1 <;> simp [afterBackend]
  cases moves with
  | workerStart w known fresh => exact ⟨worker (by simp), going⟩
  | workerRecv w d known assigned => exact ⟨worker (by simp), going⟩
  | workerReply w d known working => exact ⟨worker (by simp), going⟩
  | clientSend d known fresh => exact ⟨running, going⟩
  | clientRecv d next taken => exact ⟨running, going⟩
  | poll revents0 revents1 pc =>
      refine ⟨running, ?_⟩
      rw [truthful.afterPoll]
      cases revents0 <;> simp
  | ready w revents1 pc known sent => exact ⟨worker (running w), backend revents1⟩
  | reply w d revents1 pc known sent waits told => exact ⟨worker (running w), backend revents1⟩
  | mistaken w d revents1 pc known sent same => exact ⟨worker (running w), backend revents1⟩
  | request d w rest pc sent ready known idle => exact ⟨worker (running w), by simp⟩

/-- Only the clients that were started take part. -/
theorem SystemMoves.known (moves : SystemMoves peers s e t out)
    (h : ∀ c, s.client c ≠ clientEndInit → c ∈ peers.clients) (c : Frame)
    (some_state : t.client c ≠ clientEndInit) : c ∈ peers.clients := by
  have client {d : Frame} {next : ClientEnd} (before : s.client d ≠ clientEndInit)
      (after : Function.update s.client d next c ≠ clientEndInit) : c ∈ peers.clients := by
    by_cases heq : c = d
    · exact h c (heq ▸ before)
    · exact h c (by simpa [heq] using after)
  cases moves with
  | clientSend d known fresh =>
      by_cases heq : c = d
      · exact heq ▸ known
      · exact h c (by simpa [heq] using some_state)
  | clientRecv d next taken =>
      refine client (fun fresh => ?_) some_state
      rw [fresh] at taken
      cases taken
  | reply w d revents1 pc known sent waits told =>
      exact client (by simp [waits, clientEndInit]) some_state
  | request d w rest pc sent ready known idle =>
      refine client (fun fresh => ?_) some_state
      rw [fresh] at sent
      cases sent
  | _ => exact h c some_state

theorem Attended.step (h : Attended peers os s) (moves : SystemMoves peers s e t out)
    (truthful : Truthful peers s e) : Attended peers (os ++ out) t := by
  obtain ⟨running, going⟩ := moves.goes_on truthful h.running h.going
  exact ⟨running, going, moves.backend truthful h.backend, moves.frontend truthful h.frontend,
    moves.known h.known, moves.heard h.heard, moves.handed h.heard h.handed,
    fun c => moves.requested h.heard (h.requested c)⟩

theorem attended_of_run {es : List SystemEvent} (run : (attentive peers).Run es os s) :
    Attended peers os s ∧ es.length + s.ahead peers ≤ 90 := by
  induction run with
  | start =>
      refine ⟨Attended.init peers, ?_⟩
      have workers : (peers.workers.map fun _ => workerEndInit.ahead).sum = 9 := by
        simp [WorkerEnd.ahead, workerEndInit, peers.workers_length, nbrWorkers]
      have clients : (peers.clients.map fun _ => clientEndInit.ahead).sum = 80 := by
        simp [ClientEnd.ahead, clientEndInit, peers.clients_length, nbrClients]
      show 0 + ((peers.workers.map fun _ => workerEndInit.ahead).sum +
        (peers.clients.map fun _ => clientEndInit.ahead).sum + 1) ≤ 90
      omega
  | extend prior taken ih =>
      obtain ⟨attended, bound⟩ := ih
      have truthful := (Machine.step_restrict.mp taken).1
      obtain ⟨answered, a, balanced, related⟩ := simulates_of_run prior.of_restrict
      have moves := related.moves balanced taken
      have lower := moves.ahead_lt truthful attended.known
      refine ⟨attended.step moves truthful, ?_⟩
      rw [List.length_append, List.length_singleton]
      omega

/-! ## Something can be done -/

theorem enabled_of_stuck (stuck : (attentive peers).Stuck s) (truthful : Truthful peers s e) :
    ¬ (systemStep peers s e).isSome :=
  Machine.Stuck.not_isSome stuck truthful

/-- A worker thread that cannot go on is idle or has sent something. -/
theorem Attended.worker_of_stuck (h : Attended peers os s) (related : Simulates peers s a)
    (stuck : (attentive peers).Stuck s) {w : Frame} (known : w ∈ peers.workers) :
    a.worker w = .idle ∨ (s.worker w).up ≠ [] := by
  have start := enabled_of_stuck (e := .workerStart w) stuck trivial
  have recv := enabled_of_stuck (e := .workerRecv w) stuck trivial
  have reply := enabled_of_stuck (e := .workerReply w) stuck trivial
  have worker := related.worker w
  cases hplace : a.worker w with
  | idle => exact Or.inl rfl
  | away =>
      rw [hplace] at worker
      have fresh : s.worker w = workerEndInit := worker
      simp [systemStep, known, fresh, WorkerEnd.start, workerEndInit] at start
  | announcing =>
      rw [hplace] at worker
      exact Or.inr (by simp [worker.2.2.1])
  | replying c =>
      rw [hplace] at worker
      exact Or.inr (by simp [worker.2.2.1])
  | assigned c =>
      rw [hplace] at worker
      obtain ⟨-, waits, -, down⟩ := worker
      have task := waits.resolve_right (h.running w)
      simp [systemStep, WorkerEnd.recv, task, down] at recv
  | working c =>
      rw [hplace] at worker
      simp [systemStep, WorkerEnd.reply, worker.2.1] at reply

/-- A client thread that cannot go on has sent its request and read what it was sent. -/
theorem Attended.client_of_stuck (h : Attended peers os s) (stuck : (attentive peers).Stuck s)
    {c : Frame} (known : c ∈ peers.clients) :
    (s.client c).task ≠ .start ∧ (s.client c).down = [] := by
  have send := enabled_of_stuck (e := .clientSend c) stuck trivial
  have recv := enabled_of_stuck (e := .clientRecv c) stuck trivial
  have heard := h.heard c
  cases task : (s.client c).task with
  | start => simp [systemStep, known, ClientEnd.send, task] at send
  | finished => exact ⟨by simp, (heard.finished task).1⟩
  | waiting =>
      refine ⟨by simp, ?_⟩
      rw [heard.waiting task]
      rcases heard.replies with none | ⟨-, one⟩
      · exact none
      · simp [systemStep, ClientEnd.recv, task, heard.waiting task, one] at recv

/-- The broker comes to a halt only at its poll, with nothing to read. -/
theorem Attended.poll_of_stuck (h : Attended peers os s) (related : Simulates peers s a)
    (stuck : (attentive peers).Stuck s) :
    s.broker.pc = .poll ∧ ∀ w ∈ peers.workers, (s.worker w).up = [] := by
  cases pc : s.broker.pc with
  | stopped => exact absurd pc h.going
  | aborted => exact absurd pc related.alive
  | backend revents1 =>
      obtain ⟨w, -, some_sent⟩ := backendReadable_iff.mp (h.backend (by rw [pc]; rfl))
      obtain ⟨msg, more, hup⟩ := List.exists_cons_of_ne_nil some_sent
      have recv := enabled_of_stuck (e := .recv w) stuck trivial
      simp [systemStep, SystemState.recv, pc, hup, SystemState.stepBroker, lbbroker2Step] at recv
  | frontend =>
      obtain ⟨c, -, some_sent⟩ := frontendReadable_iff.mp (h.frontend (by rw [pc]; rfl))
      obtain ⟨msg, more, hup⟩ := List.exists_cons_of_ne_nil some_sent
      have recv := enabled_of_stuck (e := .recv c) stuck trivial
      simp [systemStep, SystemState.recv, pc, hup, SystemState.stepBroker, lbbroker2Step] at recv
  | poll =>
      refine ⟨rfl, fun w known => ?_⟩
      by_contra some_sent
      have readable := backendReadable_iff.mpr ⟨w, known, some_sent⟩
      have polls := enabled_of_stuck (e := .poll (some (true, s.frontendReadable peers))) stuck
        ⟨readable.symm, rfl, Or.inl rfl⟩
      simp [systemStep, SystemState.stepBroker, lbbroker2Step, pc] at polls

/-- Then every worker is listed, and every request has been received. -/
theorem Attended.idle_of_stuck (h : Attended peers os s) (related : Simulates peers s a)
    (balanced : Balanced answered a.worker a.client a.ready)
    (stuck : (attentive peers).Stuck s) :
    (∀ w ∈ peers.workers, w ∈ s.broker.workers) ∧ ∀ c ∈ peers.clients, (s.client c).up = [] := by
  obtain ⟨pc, silent⟩ := h.poll_of_stuck related stuck
  have listed : ∀ w ∈ peers.workers, w ∈ s.broker.workers := by
    intro w known
    rw [related.queue, balanced.ready_iff]
    exact (h.worker_of_stuck related stuck known).resolve_right fun sent => sent (silent w known)
  have available : s.broker.workers ≠ [] := by
    have some_worker : 0 < peers.workers.length := by
      rw [peers.workers_length]
      decide
    obtain ⟨w, known⟩ := List.exists_mem_of_length_pos some_worker
    exact List.ne_nil_of_mem (listed w known)
  refine ⟨listed, fun c known => ?_⟩
  by_contra some_sent
  have readable := frontendReadable_iff.mpr ⟨c, known, some_sent⟩
  have nothing : s.backendReadable peers = false := by
    rw [← Bool.not_eq_true, backendReadable_iff]
    rintro ⟨w, known, sent⟩
    exact sent (silent w known)
  have polls := enabled_of_stuck (e := .poll (some (false, true))) stuck
    ⟨nothing.symm, readable.symm, Or.inr ⟨available, rfl⟩⟩
  simp [systemStep, SystemState.stepBroker, lbbroker2Step, pc] at polls

/-- Nobody holds a request any more. -/
theorem not_holds_of_stuck (related : Simulates peers s a)
    (balanced : Balanced answered a.worker a.client a.ready)
    (listed : ∀ w ∈ peers.workers, w ∈ s.broker.workers) (w c : Frame) :
    ¬ (s.worker w).Holds c := by
  have worker := related.worker w
  have idle : w ∈ peers.workers → a.worker w = .idle := by
    intro known
    rw [← balanced.ready_iff, ← related.queue]
    exact listed w known
  cases hplace : a.worker w with
  | away =>
      rw [hplace] at worker
      have fresh : s.worker w = workerEndInit := worker
      simp [WorkerEnd.Holds, fresh, workerEndInit]
  | idle =>
      rw [hplace] at worker
      obtain ⟨-, waits, up, down⟩ := worker
      rcases waits with waits | waits <;> simp [WorkerEnd.Holds, up, down, waits]
  | _ =>
      rw [hplace] at worker
      have other := idle worker.1
      rw [hplace] at other
      cases other

end

/-- The broker waits at its poll with all its workers ready. Every request was sent to one
worker; and every client thread has received its one reply, but for those whose identity
starts with the READY byte: they were sent nothing and wait for it. -/
def EveryoneHeard (peers : Peers) (os : List LbbrokerEffect) (s : SystemState) : Prop :=
  s.broker.pc = .poll ∧ (∀ w ∈ peers.workers, w ∈ s.broker.workers) ∧
    ∀ c ∈ peers.clients, (∃ w ∈ peers.workers, assignees c os = [w]) ∧
      if c.startsWith 1 then (s.client c).task = .waiting ∧ repliesTo c os = []
      else (s.client c).task = .finished ∧ repliesTo c os = [[[], ok]]

/-- A client thread that still waits is one whose reply was taken for a READY. -/
theorem Attended.outcome_of_stuck {peers : Peers} {os : List LbbrokerEffect} {s : SystemState}
    {answered : List Frame} {a : State Frame Frame} (h : Attended peers os s)
    (related : Simulates peers s a) (balanced : Balanced answered a.worker a.client a.ready)
    (stuck : (attentive peers).Stuck s) {c : Frame} (known : c ∈ peers.clients) :
    if c.startsWith 1 then (s.client c).task = .waiting ∧ repliesTo c os = []
    else (s.client c).task = .finished ∧ repliesTo c os = [[[], ok]] := by
  obtain ⟨started, read⟩ := h.client_of_stuck stuck known
  obtain ⟨listed, asked⟩ := h.idle_of_stuck related balanced stuck
  have heard := h.heard c
  cases task : (s.client c).task with
  | start => exact absurd task started
  | finished =>
      obtain ⟨told, one⟩ := heard.replies.resolve_left (heard.finished task).2
      simp [told, one]
  | waiting =>
      have none : repliesTo c os = [] := by rw [← heard.waiting task, read]
      cases told : c.startsWith 1 with
      | true => simp [none]
      | false =>
          have served : (s.client c).Served := by
            have up := asked c known
            cases heq : s.client c
            simp_all [ClientEnd.Served]
          obtain ⟨w, held⟩ := h.requested c told served
          exact absurd held (not_holds_of_stuck related balanced listed w c)

/-- However the threads take their turns, the load balancer and its threads come to a halt
after 90 steps at most, when nothing is interrupted and the polls tell the truth; then every
request was sent to one worker and replied to once, and the replies to the clients whose
identities start with the READY byte, and only these, have been lost. -/
theorem everyone_heard (peers : Peers) :
    (attentive peers).Finishes 90 (EveryoneHeard peers) where
  bounded := by
    intro es os s run
    have bound := (attended_of_run run).2
    omega
  goal := by
    intro es os s run stuck
    have h := (attended_of_run run).1
    obtain ⟨answered, a, balanced, related⟩ := simulates_of_run run.of_restrict
    obtain ⟨listed, asked⟩ := h.idle_of_stuck related balanced stuck
    refine ⟨(h.poll_of_stuck related stuck).1, listed, fun c known => ⟨?_, ?_⟩⟩
    · have handed := h.handed c
      have received : (s.client c).asked = true := by
        simp [ClientEnd.asked, (h.client_of_stuck stuck known).1, asked c known]
      rwa [Handed, if_pos received] at handed
    · exact h.outcome_of_stuck related balanced stuck known

end ZmqTest.Loadbalance2
