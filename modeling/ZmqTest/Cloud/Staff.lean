/-
# Where the workers and the requests are

When nothing goes wrong in a cloud, a worker that has been started is in the list of its
broker or has one message, and is nowhere twice; a request that has been asked is answered or
under way; and a message that is passed on is nearer to its end. All of this is read off
the steps one by one.
-/

import ZmqTest.Cloud.Moves

namespace ZmqTest.Cloud

/-- The worker a message is on its way to, is with, or comes from. -/
def Loc.token : Loc → Option (Frame × Frame)
  | .localbe name id => some (name, id)
  | .worker name id => some (name, id)
  | .working name id => some (name, id)
  | _ => none

/-- A message for which a worker is responsible counts for one. -/
def Loc.tokens (loc : Loc) (broker worker : Frame) : Nat :=
  if loc.token = some (broker, worker) then 1 else 0

/-- How many messages there are for which a worker is responsible. -/
def tokens (net : Network Loc Parcel) (broker worker : Frame) : Nat :=
  net.countP fun packet => packet.1.token = some (broker, worker)

/-- Whose socket a message is at, or whose client or worker it is with. -/
def Loc.broker : Loc → Frame
  | .localfe broker _ => broker
  | .localbe broker _ => broker
  | .cloudfe broker _ => broker
  | .cloudbe broker _ => broker
  | .client broker _ => broker
  | .worker broker _ => broker
  | .working broker _ => broker

/-- What is so between the steps. A worker that has been started is in the list of its broker,
or has one message, and is nowhere twice. -/
structure Orderly (cloud : Topology) (s : SystemState) : Prop where
  accounted : ∀ name, Accounted (s.broker name)
  goes : ∀ name, Open s.net name (s.broker name).pc
  placed : ∀ packet ∈ s.net, packet.1.broker ∈ cloud.names
  staff : ∀ name worker, (s.broker name).workers.count worker + tokens s.net name worker =
    (s.started (name, worker)).toNat

section

variable {cloud : Topology} {s t : SystemState} {e : SystemEvent} {os out : List SystemOutput}
  {name broker worker peer : Frame} {b next : LcflowState} {loc : Loc} {parcel : Parcel}
  {net left new : Network Loc Parcel} {pc : LcflowPc}

theorem readable_iff :
    readable net name pc = true ↔ ∃ packet ∈ net, packet.1.socket = some (name, pc) := by
  simp only [readable, List.any_eq_true, decide_eq_true_eq]

theorem socket_of_inbox (inbox : pc.inbox broker peer = some loc) :
    loc.socket = some (broker, pc) := by
  cases pc <;> cases inbox <;> rfl

/-- What a broker has been told of stays there until the broker reads it. -/
theorem Open.mono (h : Open net name pc)
    (kept : ∀ packet ∈ net, ∀ pc, packet.1.socket = some (name, pc) → packet ∈ new) :
    Open new name pc := by
  have still (at_pc : readable net name pc = true) : readable new name pc = true := by
    obtain ⟨packet, hmem, hsocket⟩ := readable_iff.mp at_pc
    exact readable_iff.mpr ⟨packet, kept packet hmem pc hsocket, hsocket⟩
  cases pc with
  | pollBackends => trivial
  | pollFrontends => trivial
  | stopped => exact h.elim
  | aborted => exact h.elim
  | localbe => exact still h
  | cloudbe => exact still h
  | cloudfe => exact still h
  | localfe => exact still h

/-- A message that is read from elsewhere takes nothing from the sockets of a broker. -/
theorem Open.of_recv (h : Open net name pc) (found : net.recv loc = some (parcel, left))
    (elsewhere : ∀ pc, loc.socket ≠ some (name, pc)) (added : Network Loc Parcel) :
    Open (left ++ added) name pc := by
  refine h.mono fun packet hmem pc hsocket => List.mem_append_left _ ?_
  refine (List.mem_cons.mp ((Network.perm_of_recv found).mem_iff.mp hmem)).resolve_left ?_
  rintro rfl
  exact elsewhere pc hsocket

@[simp]
theorem tokens_append : tokens (net ++ new) name worker =
    tokens net name worker + tokens new name worker :=
  List.countP_append

@[simp]
theorem tokens_singleton : tokens [(loc, parcel)] name worker = loc.tokens name worker := by
  simp [tokens, Loc.tokens, List.countP_singleton]

theorem tokens_of_recv (found : net.recv loc = some (parcel, left)) :
    tokens net name worker = loc.tokens name worker + tokens left name worker := by
  have perm := (Network.perm_of_recv found).countP_eq
    fun packet => packet.1.token = some (name, worker)
  rw [List.countP_cons] at perm
  simp only [tokens, Loc.tokens, perm, decide_eq_true_eq]
  omega

theorem Relays.goes (h : Relays cloud broker b loc parcel next new)
    (net : Network Loc Parcel) : Open net broker next.pc := by
  cases h <;> exact goes_innerLoop

theorem Relays.accounted (h : Relays cloud broker b loc parcel next new)
    (before : Accounted b) : Accounted next := by
  have capacity := before.capacity
  cases h with
  | ready worker frames => exact accounted_innerLoop (by simp [LcflowState.available, capacity])
  | answered worker client frames answer request =>
      exact accounted_innerLoop (by simp [LcflowState.available, capacity])
  | sentBack worker peer listed frames answer request =>
      exact accounted_innerLoop (by simp [LcflowState.available, capacity])
  | cameBack peer client frames answer request => exact accounted_innerLoop capacity
  | handed waits worker first frames handed request =>
      exact accounted_innerLoop (by simp [capacity, first])
  | crossed client peer listed frames sent request => exact accounted_innerLoop capacity

/-- A worker leaves the list when a message is sent to it, and enters it when its message is
read. -/
theorem Relays.staff (h : Relays cloud broker b loc parcel next new) (worker : Frame) :
    next.workers.count worker + tokens new broker worker =
      b.workers.count worker + loc.tokens broker worker := by
  cases h with
  | ready other frames =>
      simp [LcflowState.innerLoop, LcflowState.available, Loc.tokens, Loc.token, tokens,
        List.count_singleton]
  | answered other client frames answer request =>
      simp [LcflowState.innerLoop, LcflowState.available, Loc.tokens, Loc.token, tokens,
        List.count_singleton]
  | sentBack other peer listed frames answer request =>
      simp [LcflowState.innerLoop, LcflowState.available, Loc.tokens, Loc.token, tokens,
        List.count_singleton]
  | cameBack peer client frames answer request =>
      simp [LcflowState.innerLoop, Loc.tokens, Loc.token, tokens]
  | handed waits other first frames handed request =>
      rcases waits with rfl | rfl <;>
        simp [LcflowState.innerLoop, Loc.tokens, Loc.token, tokens, first, List.count_cons]
  | crossed client peer listed frames sent request =>
      simp [LcflowState.innerLoop, Loc.tokens, Loc.token, tokens]

/-- The workers of the other brokers have nothing to do with it. -/
theorem Relays.elsewhere (h : Relays cloud broker b loc parcel next new) (hne : broker ≠ name)
    (worker : Frame) : loc.tokens name worker = 0 ∧ tokens new name worker = 0 := by
  cases h with
  | handed waits other first frames handed request =>
      rcases waits with rfl | rfl <;> simp [Loc.tokens, Loc.token, tokens, hne]
  | _ => simp [Loc.tokens, Loc.token, tokens, hne]

theorem Relays.placed (h : Relays cloud broker b loc parcel next new)
    (hbroker : broker ∈ cloud.names) : ∀ packet ∈ new, packet.1.broker ∈ cloud.names := by
  cases h with
  | ready worker frames => simp
  | answered worker client frames answer request => simpa [Loc.broker] using hbroker
  | sentBack worker peer listed frames answer request =>
      simpa [Loc.broker] using (cloud.listed broker hbroker peer listed).1
  | cameBack peer client frames answer request => simpa [Loc.broker] using hbroker
  | handed waits worker first frames handed request => simpa [Loc.broker] using hbroker
  | crossed client peer listed frames sent request =>
      simpa [Loc.broker] using (cloud.listed broker hbroker peer listed).1

/-! ## Every step keeps the order -/

theorem accounted_of_moves (h : Orderly cloud s) (moves : Moves cloud s e t out) (name : Frame) :
    Accounted (t.broker name) := by
  have before := h.accounted name
  cases moves with
  | poll broker e goes accounted =>
      dsimp only
      by_cases heq : name = broker
      · subst heq
        rwa [Function.update_self]
      · rwa [Function.update_of_ne heq]
  | recv broker peer draws hbroker inbox found relays =>
      dsimp only
      by_cases heq : name = broker
      · subst heq
        rw [Function.update_self]
        exact relays.accounted before
      · rwa [Function.update_of_ne heq]
  | _ => exact before

theorem goes_of_moves (h : Orderly cloud s) (moves : Moves cloud s e t out) (name : Frame) :
    Open t.net name (t.broker name).pc := by
  have before := h.goes name
  cases moves with
  | clientSend broker client body hbroker =>
      exact before.mono fun _ hmem _ _ => List.mem_append_left _ hmem
  | @clientRecv broker client parcel left found =>
      rw [← List.append_nil left]
      exact before.of_recv found (by simp [Loc.socket]) []
  | workerStart broker worker hbroker unstarted =>
      exact before.mono fun _ hmem _ _ => List.mem_append_left _ hmem
  | workerTakes broker worker found => exact before.of_recv found (by simp [Loc.socket]) _
  | workerAnswers broker worker last found answer =>
      exact before.of_recv found (by simp [Loc.socket]) _
  | poll broker e goes accounted =>
      dsimp only
      by_cases heq : name = broker
      · subst heq
        rwa [Function.update_self]
      · rwa [Function.update_of_ne heq]
  | @recv broker peer draws hbroker loc parcel left new next inbox found relays =>
      dsimp only
      by_cases heq : name = broker
      · subst heq
        rw [Function.update_self]
        exact relays.goes _
      · rw [Function.update_of_ne heq]
        refine before.of_recv found ?_ new
        simp [socket_of_inbox inbox, Ne.symm heq]

theorem placed_of_recv (placed : ∀ packet ∈ net, packet.1.broker ∈ cloud.names)
    (found : net.recv loc = some (parcel, left))
    (added : ∀ packet ∈ new, packet.1.broker ∈ cloud.names) :
    ∀ packet ∈ left ++ new, packet.1.broker ∈ cloud.names := by
  intro packet hmem
  cases List.mem_append.mp hmem with
  | inl old => exact placed packet (Network.mem_of_mem_left found old)
  | inr sent => exact added packet sent

theorem placed_of_moves (h : Orderly cloud s) (moves : Moves cloud s e t out) :
    ∀ packet ∈ t.net, packet.1.broker ∈ cloud.names := by
  have before := h.placed
  cases moves with
  | clientSend broker client body hbroker =>
      intro packet hmem
      cases List.mem_append.mp hmem with
      | inl old => exact before packet old
      | inr sent => rwa [List.mem_singleton.mp sent]
  | @clientRecv broker client parcel left found =>
      rw [← List.append_nil left]
      exact placed_of_recv before found (by simp)
  | workerStart broker worker hbroker unstarted =>
      intro packet hmem
      cases List.mem_append.mp hmem with
      | inl old => exact before packet old
      | inr sent => rwa [List.mem_singleton.mp sent]
  | workerTakes broker worker found =>
      have hbroker := before _ (Network.mem_of_recv found)
      exact placed_of_recv before found fun packet sent => by rwa [List.mem_singleton.mp sent]
  | workerAnswers broker worker last found answer =>
      have hbroker := before _ (Network.mem_of_recv found)
      exact placed_of_recv before found fun packet sent => by rwa [List.mem_singleton.mp sent]
  | poll broker e goes accounted => exact before
  | recv broker peer draws hbroker inbox found relays =>
      exact placed_of_recv before found (relays.placed hbroker)

theorem staff_of_moves (h : Orderly cloud s) (moves : Moves cloud s e t out)
    (name worker : Frame) :
    (t.broker name).workers.count worker + tokens t.net name worker =
      (t.started (name, worker)).toNat := by
  have before := h.staff name worker
  cases moves with
  | clientSend broker client body hbroker =>
      simpa [SystemState.clientSend, Network.send, Loc.tokens, Loc.token] using before
  | clientRecv broker client found =>
      rw [tokens_of_recv found] at before
      simpa [Loc.tokens, Loc.token] using before
  | workerStart broker other hbroker unstarted =>
      dsimp only
      rw [Network.send, tokens_append, tokens_singleton]
      by_cases heq : (name, worker) = (broker, other)
      · obtain ⟨rfl, rfl⟩ := Prod.mk.inj heq
        have one : (Loc.localbe name worker).tokens name worker = 1 := by
          simp [Loc.tokens, Loc.token]
        rw [unstarted] at before
        rw [one, Function.update_self, ← Nat.add_assoc, before]
        rfl
      · have none : (Loc.localbe broker other).tokens name worker = 0 := by
          simpa [Loc.tokens, Loc.token, eq_comm] using heq
        rw [none, Function.update_of_ne heq]
        exact before
  | workerTakes broker other found =>
      have same : (Loc.working broker other).tokens name worker =
          (Loc.worker broker other).tokens name worker := rfl
      rw [tokens_of_recv found] at before
      dsimp only
      rw [Network.send, tokens_append, tokens_singleton, same]
      omega
  | workerAnswers broker other last found answer =>
      have same : (Loc.localbe broker other).tokens name worker =
          (Loc.working broker other).tokens name worker := rfl
      rw [tokens_of_recv found] at before
      dsimp only
      rw [Network.send, tokens_append, tokens_singleton, same]
      omega
  | poll broker e goes accounted =>
      by_cases heq : name = broker
      · subst heq
        simpa using before
      · simpa [Function.update_of_ne heq] using before
  | recv broker peer draws hbroker inbox found relays =>
      rw [tokens_of_recv found] at before
      dsimp only
      rw [tokens_append]
      by_cases heq : name = broker
      · subst heq
        have staff := relays.staff worker
        rw [Function.update_self]
        omega
      · obtain ⟨other, none⟩ := relays.elsewhere (Ne.symm heq) worker
        rw [Function.update_of_ne heq]
        omega

theorem Orderly.step (h : Orderly cloud s) (moves : Moves cloud s e t out) : Orderly cloud t where
  accounted := accounted_of_moves h moves
  goes := goes_of_moves h moves
  placed := placed_of_moves h moves
  staff := staff_of_moves h moves

theorem orderly_init : Orderly cloud systemInit where
  accounted := fun _ => ⟨rfl, by simp [systemInit, lcflowInit]⟩
  goes := fun _ => trivial
  placed := by simp [systemInit]
  staff := fun _ _ => rfl

theorem orderly_of_run {es : List SystemEvent} (run : (fairCloud cloud).Run es os s) :
    Orderly cloud s := by
  induction run with
  | start => exact orderly_init
  | extend prior taken ih =>
      obtain ⟨fair, taken⟩ := Machine.step_restrict.mp taken
      exact ih.step (moves_of_step (sound_of_run prior.of_restrict) ih.accounted fair taken)

/-- The requests of the messages under way. -/
def requests (net : Network Loc Parcel) : List Request :=
  net.filterMap fun packet => packet.2.request

/-- The requests that have been asked. -/
def asks (os : List SystemOutput) : List Request :=
  os.filterMap fun
    | .asked request => some request
    | _ => none

/-- The requests that have been answered. -/
def answers (os : List SystemOutput) : List Request :=
  os.filterMap fun
    | .answered _ _ parcel => parcel.request
    | _ => none

/-- How often a message can be passed on. -/
def Loc.ahead : Loc → Nat
  | .localfe _ _ => 7
  | .cloudfe _ _ => 6
  | .worker _ _ => 5
  | .working _ _ => 4
  | .localbe _ _ => 3
  | .cloudbe _ _ => 2
  | .client _ _ => 1

/-- The ways of all messages together. -/
def ways (net : Network Loc Parcel) : Nat := (net.map fun packet => packet.1.ahead).sum

/-- A message is passed on. -/
def productive : SystemEvent → Bool
  | .clientRecv _ _ => true
  | .workerTakes _ _ => true
  | .workerAnswers _ _ _ => true
  | .recv _ _ _ => true
  | _ => false

def polls : SystemEvent → Bool
  | .poll _ _ => true
  | _ => false

@[simp]
theorem requests_append : requests (net ++ new) = requests net ++ requests new :=
  List.filterMap_append

theorem requests_singleton : requests [(loc, parcel)] = parcel.request.toList := by
  cases h : parcel.request <;> simp [requests, h]

theorem requests_of_recv (found : net.recv loc = some (parcel, left)) :
    (requests net).Perm (parcel.request.toList ++ requests left) :=
  Network.filterMap_of_recv found fun packet => packet.2.request

theorem asks_append : asks (os ++ out) = asks os ++ asks out := List.filterMap_append

theorem answers_append : answers (os ++ out) = answers os ++ answers out := List.filterMap_append

theorem answers_singleton : answers [.answered broker peer parcel] = parcel.request.toList := by
  cases h : parcel.request <;> simp [answers, h]

/-- What crosses to another broker is neither asked nor answered. -/
theorem asks_note : asks (net.filterMap note) = [] := by
  rw [asks, List.filterMap_filterMap, List.filterMap_eq_nil_iff]
  rintro ⟨loc, parcel⟩ -
  cases loc <;> rfl

theorem answers_note : answers (net.filterMap note) = [] := by
  rw [answers, List.filterMap_filterMap, List.filterMap_eq_nil_iff]
  rintro ⟨loc, parcel⟩ -
  cases loc <;> rfl

@[simp]
theorem ways_append : ways (net ++ new) = ways net + ways new := by simp [ways]

@[simp]
theorem ways_singleton : ways [(loc, parcel)] = loc.ahead := by simp [ways]

theorem ways_of_recv (found : net.recv loc = some (parcel, left)) :
    ways net = loc.ahead + ways left := by
  have sums := ((Network.perm_of_recv found).map fun packet => packet.1.ahead).sum_eq
  rwa [List.map_cons, List.sum_cons] at sums

theorem Loc.ahead_le (loc : Loc) : loc.ahead ≤ 7 := by cases loc <;> simp [Loc.ahead]

theorem ways_le (net : Network Loc Parcel) : ways net ≤ 7 * net.length := by
  induction net with
  | nil => exact Nat.le_refl _
  | cons packet net ih =>
      have first := packet.1.ahead_le
      simp only [ways, List.map_cons, List.sum_cons, List.length_cons] at ih ⊢
      omega

/-- The message a broker makes is about the same request, and nearer to its end. -/
theorem Relays.requests (h : Relays cloud broker b loc parcel next new) :
    Cloud.requests new = parcel.request.toList := by
  cases h <;> simp [Cloud.requests]

theorem Relays.ahead (h : Relays cloud broker b loc parcel next new) : ways new < loc.ahead := by
  cases h with
  | handed waits worker first frames handed request =>
      rcases waits with rfl | rfl <;> simp [Loc.ahead]
  | _ => simp [ways, Loc.ahead]

/-- What is asked comes under way, and what is under way stays so until it is answered. -/
theorem Moves.requests (moves : Moves cloud s e t out) :
    (asks out ++ Cloud.requests s.net).Perm (answers out ++ Cloud.requests t.net) := by
  cases moves with
  | clientSend broker client body hbroker =>
      simp only [SystemState.clientSend, Network.send, requests_append, requests_singleton]
      exact List.perm_append_comm
  | clientRecv broker client found =>
      rw [answers_singleton]
      exact requests_of_recv found
  | workerStart broker worker hbroker unstarted =>
      simp only [Network.send, requests_append, requests_singleton, Option.toList_none,
        List.append_nil]
      exact List.Perm.refl _
  | workerTakes broker worker found =>
      simp only [Network.send, requests_append, requests_singleton]
      exact (requests_of_recv found).trans List.perm_append_comm
  | workerAnswers broker worker last found answer =>
      simp only [Network.send, requests_append, requests_singleton]
      exact (requests_of_recv found).trans List.perm_append_comm
  | poll broker e goes accounted => exact List.Perm.refl _
  | recv broker peer draws hbroker inbox found relays =>
      rw [asks_note, answers_note, requests_append, relays.requests]
      exact (requests_of_recv found).trans List.perm_append_comm

/-- Whatever is passed on is nearer to its end, and a poll leaves everything where it is. -/
theorem Moves.ahead (moves : Moves cloud s e t out) (calm : productive e = true ∨ polls e = true) :
    ways t.net + (if productive e then 1 else 0) ≤ ways s.net := by
  cases moves with
  | clientSend broker client body hbroker => simp [productive, polls] at calm
  | workerStart broker worker hbroker unstarted => simp [productive, polls] at calm
  | clientRecv broker client found =>
      simp only [ways_of_recv found, Loc.ahead, productive, if_true]
      omega
  | workerTakes broker worker found =>
      simp only [ways_of_recv found, Network.send, ways_append, ways_singleton, Loc.ahead,
        productive, if_true]
      omega
  | workerAnswers broker worker last found answer =>
      simp only [ways_of_recv found, Network.send, ways_append, ways_singleton, Loc.ahead,
        productive, if_true]
      omega
  | poll broker e goes accounted => exact Nat.le_refl _
  | recv broker peer draws hbroker inbox found relays =>
      have nearer := relays.ahead
      simp only [ways_of_recv found, ways_append, productive, if_true]
      omega

theorem Moves.silent (moves : Moves cloud s e t out)
    (calm : productive e = true ∨ polls e = true) : asks out = [] := by
  cases moves with
  | clientSend broker client body hbroker => simp [productive, polls] at calm
  | recv broker peer draws hbroker inbox found relays => exact asks_note
  | _ => rfl

/-- A worker that has been started stays so. -/
theorem Moves.started (moves : Moves cloud s e t out)
    (h : s.started (name, worker) = true) : t.started (name, worker) = true := by
  cases moves with
  | workerStart broker other hbroker unstarted =>
      have hne : (name, worker) ≠ (broker, other) := by
        intro heq
        rw [heq, unstarted] at h
        cases h
      exact (Function.update_of_ne hne _ _).trans h
  | _ => exact h

end

end ZmqTest.Cloud
