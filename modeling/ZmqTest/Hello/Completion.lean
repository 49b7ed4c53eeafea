/-
# Every client is done in the end

What every run of the clients and the workers comes to, whatever carries their messages.
The trail of a client is that of requests served one at a time; the steps are bounded;
and when nothing can be done any more, every client has been answered as often as its
loop says. Something can be done while a client is not done: it can send, or its message
can be carried on, or taken, or replied to, or received.
-/

import ZmqTest.Hello.Conversations

namespace ZmqTest.Hello

open Reqrep Service

section

variable {Inside Move Worker : Type} [DecidableEq Worker] {programs : Programs}
  {clients : Clients} {conduit : Conduit Inside Move Packet} {cost : Nat}
  {es : List (SystemEvent Move Worker)} {os : List (SystemOutput Worker)}
  {s : SystemState Inside Worker} {a : Frame → Standing Worker}

theorem Simulates.init : Simulates programs clients conduit
    (system Worker programs clients conduit).init
    (Service.machine clients.identities programs.limit).init where
  within := fun _ => ⟨Nat.zero_le _, by simp [Service.machine]⟩
  known := by simp [Service.machine]
  client := fun _ => rfl
  worker := fun _ => ⟨rfl, rfl, by simp [Service.machine]⟩
  carried := by
    refine ⟨[], conduit.holds_init, ⟨List.nodup_nil, ?_⟩⟩
    simp [system, letters, letter, Service.machine]

/-- What is read off a run. -/
structure Reads (programs : Programs) (clients : Clients) (conduit : Conduit Inside Move Packet)
    (cost : Nat) (es : List (SystemEvent Move Worker)) (os : List (SystemOutput Worker))
    (s : SystemState Inside Worker) (a : Frame → Standing Worker) : Prop where
  simulates : Simulates programs clients conduit s a
  trails : ∀ client, trail client os = (a client).trail
  bounded : es.length + rank programs clients conduit cost s a ≤
    (cost + 1) * (4 * programs.limit * clients.identities.card) + conduit.rank conduit.init

theorem reads_of_run (admits : ∀ leg client part, conduit.Admits (leg, [client, [], part]))
    (costs : ∀ leg client part, conduit.cost (leg, [client, [], part]) ≤ cost)
    (run : (system Worker programs clients conduit).Run es os s) :
    (∀ o ∈ os, Regular programs clients o) ∧
      ∃ a, Reads programs clients conduit cost es os s a := by
  obtain ⟨regular, es', a, matched, simulates, bounded⟩ :=
    run.refine_ranked mark? (Simulates programs clients conduit) (Regular programs clients)
      (rank programs clients conduit cost) Simulates.init
      fun _ _ _ _ _ related taken => related.step admits costs taken
  refine ⟨regular, a, simulates, fun client => (trails_of_run matched client).1, ?_⟩
  simpa only [rank, left_init, system] using bounded

/-- What a step needs to be enabled. -/
theorem not_stuck {e : SystemEvent Move Worker} {r : SystemState Inside Worker × _}
    (taken : (system Worker programs clients conduit).step s e = some r) :
    ¬ (system Worker programs clients conduit).Stuck s := by
  intro stuck
  rw [stuck e] at taken
  cases taken

/-- What is held between the ends can be carried on. -/
theorem Simulates.carries_on (h : Simulates programs clients conduit s a) {packet : Packet}
    {client : Frame} (mine : letters programs a client = some packet)
    (absent : packet ∉ s.net) : ¬ (system Worker programs clients conduit).Stuck s := by
  obtain ⟨held, holds, carries⟩ := h.carried
  have hmem := (List.mem_append.mp (carries.mem mine)).resolve_right absent
  obtain ⟨move, inside, out, taken⟩ := conduit.progress holds (List.ne_nil_of_mem hmem)
  apply not_stuck (e := .carry move) (r := ({ s with inside := inside, net := s.net ++ out }, []))
  simp [system, systemStep, taken]

/-- A worker that has a request can reply. -/
theorem Simulates.replies_on (h : Simulates programs clients conduit s a) {worker : Worker}
    (pc : (s.worker worker).pc = .send) :
    ¬ (system Worker programs clients conduit).Stuck s := by
  have place := h.worker worker
  simp only [WorkerAt, pc] at place
  obtain ⟨client, -, -, socket⟩ := place
  intro stuck
  have none := stuck (.workerSend worker)
  simp [system, systemStep, byWorker, replierStep, pc, Rep.send, socket] at none

theorem Simulates.moves_on (h : Simulates programs clients conduit s a) [Nonempty Worker]
    {client : Frame} (known : client ∈ clients.identities)
    (stuck : (system Worker programs clients conduit).Stuck s) :
    (a client).stage = .idle ∧ (a client).rounds.length = programs.limit := by
  have standing := h.client client
  cases hstage : (a client).stage with
  | idle =>
      refine ⟨rfl, ?_⟩
      by_contra hne
      have more : (a client).rounds.length < programs.limit :=
        Nat.lt_of_le_of_ne (h.within client).rounds hne
      have none := stuck (.clientSend client)
      simp [system, systemStep, known, byClient, standing, clientAt, hstage, loopHead,
        programs.loops _ (h.within client).rounds, more, requesterStep, Req.send] at none
  | asking =>
      have mine : letters programs a client = some (.request, [client, [], programs.request]) := by
        simp [letters, letter, hstage]
      by_cases hmem : (.request, [client, [], programs.request]) ∈ s.net
      · obtain ⟨index, left, picked⟩ := Network.exists_pick hmem
        have worker := Classical.arbitrary Worker
        cases hpc : (s.worker worker).pc with
        | send => exact absurd stuck (h.replies_on hpc)
        | recv =>
            have place := h.worker worker
            simp only [WorkerAt, hpc] at place
            have none := stuck (.workerRecv worker (some index))
            simp [system, systemStep, picked, byWorker, replierStep, hpc, Rep.recv, place.1,
              place.2.1, openRequest_known known] at none
      · exact absurd stuck (h.carries_on mine hmem)
  | taken worker =>
      have place := h.worker worker
      cases hpc : (s.worker worker).pc with
      | send => exact absurd stuck (h.replies_on hpc)
      | recv =>
          simp only [WorkerAt, hpc] at place
          exact absurd hstage (place.2.2 client)
  | served worker =>
      have mine : letters programs a client = some (.reply, [client, [], programs.reply]) := by
        simp [letters, letter, hstage]
      by_cases hmem : (.reply, [client, [], programs.reply]) ∈ s.net
      · obtain ⟨index, left, picked⟩ := Network.exists_pick hmem
        have none := stuck (.clientRecv client (some index))
        simp [system, systemStep, picked, byClient, standing, clientAt, hstage, requesterStep,
          Req.recv, replyBody] at none
      · exact absurd stuck (h.carries_on mine hmem)

/-- The client has run through its loop, and has been served and answered each time. -/
def Done (programs : Programs) (clients : Clients) (os : List (SystemOutput Worker))
    (s : SystemState Inside Worker) : Prop :=
  ∀ client ∈ clients.identities, (s.client client).pc = .done ∧
    ∃ rounds : List Worker, rounds.length = programs.limit ∧
      trail client os = conversation rounds

theorem Reads.done (h : Reads programs clients conduit cost es os s a) [Nonempty Worker]
    (stuck : (system Worker programs clients conduit).Stuck s) : Done programs clients os s := by
  intro client known
  obtain ⟨idle, all⟩ := h.simulates.moves_on known stuck
  constructor
  · have leaves : programs.again programs.limit = false := by
      rw [programs.loops _ (Nat.le_refl _)]
      simp
    rw [h.simulates.client client, clientAt, idle]
    simp [loopHead, all, leaves]
  · refine ⟨(a client).rounds, all, ?_⟩
    rw [h.trails client, Standing.trail, idle]
    exact List.append_nil _

/-- The requests of a client are served one at a time. -/
def Converses (programs : Programs) (os : List (SystemOutput Worker))
    (s : SystemState Inside Worker) (client : Frame) : Prop :=
  ∃ st : Standing Worker, st.Within programs.limit ∧ trail client os = st.trail ∧
    s.client client = clientAt programs st

theorem converses_of_run (admits : ∀ leg client part, conduit.Admits (leg, [client, [], part]))
    (costs : ∀ leg client part, conduit.cost (leg, [client, [], part]) ≤ cost)
    (run : (system Worker programs clients conduit).Run es os s) :
    (∀ o ∈ os, Regular programs clients o) ∧ ∀ client, Converses programs os s client := by
  obtain ⟨regular, a, reads⟩ := reads_of_run admits costs run
  refine ⟨regular, fun client => ⟨a client, reads.simulates.within client, ?_, ?_⟩⟩
  · exact reads.trails client
  · exact reads.simulates.client client

theorem finishes_of_contract [Nonempty Worker]
    (admits : ∀ leg client part, conduit.Admits (leg, [client, [], part]))
    (costs : ∀ leg client part, conduit.cost (leg, [client, [], part]) ≤ cost) :
    (system Worker programs clients conduit).Finishes
      ((cost + 1) * (4 * programs.limit * clients.identities.card) + conduit.rank conduit.init)
      (Done programs clients) where
  bounded := by
    intro es os s run
    obtain ⟨-, a, reads⟩ := reads_of_run admits costs run
    exact Nat.le_trans (Nat.le_add_right _ _) reads.bounded
  goal := by
    intro es os s run stuck
    obtain ⟨-, a, reads⟩ := reads_of_run admits costs run
    exact reads.done stuck

end

end ZmqTest.Hello
