/-
# Every client converses

Whatever carries the messages, the clients and the workers behave as the service does: a
step of one of them is a mark on the trail of a client, and a step between them is none.
A client has at most one message under way, a request while it is asking and a reply once
it has been served, so the messages under way are the letters of the clients. No call is
out of turn. A rank bounds the steps, and as long as a client is not done, some step can
be taken.
-/

import ZmqTest.Hello.System
import ZmqTest.Lib.Progress
import ZmqTest.Lib.Service

namespace ZmqTest.Hello

open Reqrep Service

section

variable {Worker : Type}

/-- The mark an output leaves on the trail of a client. -/
def mark? : SystemOutput Worker → Option (Frame × Mark Worker)
  | .client client (.transmitted _) => some (client, .asked)
  | .client client (.received _) => some (client, .answered)
  | .worker worker (.received [client] _) => some (client, .taken worker)
  | .worker worker (.transmitted (client :: _)) => some (client, .served worker)
  | _ => none

/-- The trail of a client in a run. -/
def trail (client : Frame) (os : List (SystemOutput Worker)) : List (Mark Worker) :=
  trailOf client (os.filterMap mark?)

/-- What the programs do: nothing is out of turn, nothing is dropped, and what is sent and
received is what the programs send. -/
def Regular (programs : Programs) (clients : Clients) : SystemOutput Worker → Prop
  | .client client (.transmitted msg) =>
      client ∈ clients.identities ∧ msg = [[], programs.request]
  | .client _ (.received part) => part = programs.reply
  | .worker _ (.received envelope part) =>
      (∃ client ∈ clients.identities, envelope = [client]) ∧ part = programs.request
  | .worker _ (.transmitted msg) =>
      ∃ client ∈ clients.identities, msg = [client, [], programs.reply]
  | _ => False

/-- Where a client stands. -/
def clientAt (programs : Programs) (st : Standing Worker) : RequesterState :=
  match st.stage with
  | .idle =>
      { pc := loopHead programs.again st.rounds.length
        socket := { receivingReply := false, unread := [] } }
  | _ =>
      { pc := .recv st.rounds.length, socket := { receivingReply := true, unread := [] } }

/-- Where a worker stands: waiting, or about to reply to the one client whose request it
has taken. -/
def WorkerAt (clients : Clients) (a : Frame → Standing Worker) (worker : Worker)
    (s : ReplierState) : Prop :=
  match s.pc with
  | .recv =>
      s.socket.sendingReply = false ∧ s.socket.unread = [] ∧
        ∀ client, (a client).stage ≠ .taken worker
  | .send =>
      ∃ client ∈ clients.identities, (∀ other, (a other).stage = .taken worker ↔ other = client) ∧
        s.socket = { sendingReply := true, envelope := [client], unread := [] }

/-- The message of a client that is under way. -/
def letter (programs : Programs) (client : Frame) : Stage Worker → Option Packet
  | .asking => some (.request, [client, [], programs.request])
  | .served _ => some (.reply, [client, [], programs.reply])
  | _ => none

/-- The letters of the clients. -/
def letters (programs : Programs) (a : Frame → Standing Worker) (client : Frame) :
    Option Packet :=
  letter programs client (a client).stage

theorem letters_update (programs : Programs) (a : Frame → Standing Worker) (client : Frame)
    (st : Standing Worker) :
    letters programs (Function.update a client st) =
      Function.update (letters programs a) client (letter programs client st.stage) := by
  funext other
  by_cases heq : other = client
  · subst other
    simp [letters]
  · simp [letters, Function.update_of_ne heq]

/-- A letter names its client. -/
theorem eq_of_letter {programs : Programs} {client other : Frame} {stage : Stage Worker}
    {leg : Leg} {rest : Zmsg}
    (h : letter programs client stage = some (leg, other :: rest)) : client = other := by
  cases stage <;> simp [letter] at h
  · exact h.2.1
  · exact h.2.1

/-- A worker finds the client in front of the delimiter. -/
theorem openRequest_known {clients : Clients} {client : Frame}
    (known : client ∈ clients.identities) (part : Frame) :
    openRequest [client, [], part] = some ([client], part, []) := by
  have named : [] ∉ [client] := by
    rw [List.mem_singleton]
    exact fun empty => clients.nonempty (empty ▸ known)
  exact openRequest_enclose named part

/-- A client that is about to send asks again. -/
theorem requesterStep_send {programs : Programs} {st : Standing Worker} {c : RequesterState}
    {os : List RequesterOutput} (within : st.Within programs.limit)
    (h : requesterStep programs.request programs.again (clientAt programs st) .send =
      some (c, os)) :
    st.stage = .idle ∧ st.rounds.length < programs.limit ∧
      c = clientAt programs { st with stage := .asking } ∧
      os = [.transmitted [[], programs.request]] := by
  obtain ⟨rounds, stage⟩ := st
  cases stage with
  | idle =>
      simp only [clientAt, loopHead, programs.loops _ within.rounds, decide_eq_true_eq] at h
      by_cases more : rounds.length < programs.limit
      · simp only [more, if_true] at h
        cases h
        exact ⟨rfl, more, rfl, rfl⟩
      · simp only [more, if_false] at h
        cases h
  | _ => cases h

theorem requesterStep_recv_none {programs : Programs} (st : Standing Worker) :
    requesterStep programs.request programs.again (clientAt programs st) (.recv none) = none := by
  obtain ⟨rounds, stage⟩ := st
  cases stage with
  | idle =>
      simp only [clientAt, loopHead]
      split <;> rfl
  | _ => rfl

end

section

variable {Inside Move Worker : Type} {programs : Programs} {clients : Clients}
  {conduit : Conduit Inside Move Packet} {s t : SystemState Inside Worker}
  {a : Frame → Standing Worker} {out : List (SystemOutput Worker)}

/-- A state of the system stands for a state of the service. -/
structure Simulates (programs : Programs) (clients : Clients)
    (conduit : Conduit Inside Move Packet) (s : SystemState Inside Worker)
    (a : Frame → Standing Worker) : Prop where
  within : ∀ client, (a client).Within programs.limit
  known : ∀ client, (a client).stage ≠ .idle → client ∈ clients.identities
  client : ∀ client, s.client client = clientAt programs (a client)
  worker : ∀ worker, WorkerAt clients a worker (s.worker worker)
  carried : ∃ held, conduit.Holds s.inside held ∧ Carries (letters programs a) (held ++ s.net)

theorem WorkerAt.update {a : Frame → Standing Worker} {worker : Worker} {w : ReplierState}
    (h : WorkerAt clients a worker w) {client : Frame} {st : Standing Worker}
    (before : (a client).stage ≠ .taken worker) (after : st.stage ≠ .taken worker) :
    WorkerAt clients (Function.update a client st) worker w := by
  have same : ∀ other, (Function.update a client st other).stage = .taken worker ↔
      (a other).stage = .taken worker := by
    intro other
    by_cases heq : other = client
    · subst other
      rw [Function.update_self]
      exact iff_of_false after before
    · rw [Function.update_of_ne heq]
  unfold WorkerAt at h ⊢
  split at h
  case h_1 => exact ⟨h.1, h.2.1, fun other hother => h.2.2 other ((same other).mp hother)⟩
  case h_2 =>
    obtain ⟨mine, known, only, socket⟩ := h
    exact ⟨mine, known, fun other => (same other).trans (only other), socket⟩

/-- The parts of the relation that a mark on one trail changes at that client only. -/
theorem Simulates.within_update (h : Simulates programs clients conduit s a) {client : Frame}
    {st : Standing Worker}
    (within : (Function.update a client st client).Within programs.limit) (other : Frame) :
    (Function.update a client st other).Within programs.limit := by
  by_cases heq : other = client
  · exact heq ▸ within
  · rw [Function.update_of_ne heq]
    exact h.within other

theorem Simulates.known_update (h : Simulates programs clients conduit s a) {client : Frame}
    (known : client ∈ clients.identities) (st : Standing Worker) (other : Frame)
    (busy : (Function.update a client st other).stage ≠ .idle) : other ∈ clients.identities := by
  by_cases heq : other = client
  · exact heq ▸ known
  · rw [Function.update_of_ne heq] at busy
    exact h.known other busy

theorem Simulates.client_update (h : Simulates programs clients conduit s a) {client : Frame}
    {c : RequesterState} {st : Standing Worker} (here : c = clientAt programs st)
    (other : Frame) :
    Function.update s.client client c other =
      clientAt programs (Function.update a client st other) := by
  apply related_update (fun _ c st => c = clientAt programs st) h.client here

/-- What is on its way to the workers, or to the clients, is the letter of a client. -/
theorem Simulates.exists_letter (h : Simulates programs clients conduit s a)
    {packet : Packet} {left : Network Leg Zmsg} (picked : s.net.Perm (packet :: left)) :
    ∃ client, letters programs a client = some packet := by
  obtain ⟨held, -, carries⟩ := h.carried
  apply (carries.mem_iff packet).mp
  exact List.mem_append_right _ (picked.mem_iff.mpr List.mem_cons_self)

/-- The letter of a client is taken from the network. -/
theorem Simulates.take (h : Simulates programs clients conduit s a) {client : Frame}
    {leg : Leg} {rest : Zmsg} {left : Network Leg Zmsg} {st : Standing Worker}
    (picked : s.net.Perm ((leg, client :: rest) :: left))
    (mine : letters programs a client = some (leg, client :: rest))
    (taken : letter programs client st.stage = none) :
    ∃ held, conduit.Holds s.inside held ∧
      Carries (letters programs (Function.update a client st)) (held ++ left) := by
  obtain ⟨held, holds, carries⟩ := h.carried
  refine ⟨held, holds, ?_⟩
  rw [letters_update, taken]
  apply (carries.perm ((picked.append_left held).trans List.perm_middle)).take mine
  exact fun other hother => eq_of_letter hother

/-- A client that has no letter under way sends one, or is sent one. -/
theorem Simulates.post (h : Simulates programs clients conduit s a) {client : Frame}
    {leg : Leg} {rest : Zmsg} {st : Standing Worker}
    (admits : conduit.Admits (leg, client :: rest))
    (silent : letters programs a client = none)
    (posted : letter programs client st.stage = some (leg, client :: rest)) :
    ∃ held, conduit.Holds (conduit.accept s.inside (leg, client :: rest)) held ∧
      Carries (letters programs (Function.update a client st)) (held ++ s.net) := by
  obtain ⟨held, holds, carries⟩ := h.carried
  refine ⟨_, conduit.holds_accept holds admits, ?_⟩
  rw [letters_update, posted, List.cons_append]
  apply carries.post silent
  intro other hother
  obtain rfl : other = client := eq_of_letter hother
  rw [silent] at hother
  cases hother

/-- No client and no worker has read a message in part. -/
theorem Simulates.workerReads (h : Simulates programs clients conduit s a) {worker : Worker} :
    replierStep programs.reply (s.worker worker) (.recv none) = none := by
  have place := h.worker worker
  cases hpc : (s.worker worker).pc with
  | send => simp [replierStep, hpc]
  | recv =>
      simp only [WorkerAt, hpc] at place
      simp [replierStep, hpc, Rep.recv, place.1, place.2.1]

variable [DecidableEq Worker] {cost : Nat}

/-- The rank of a state: the marks still to come, each worth more than what it costs to
carry a message, and the rank of what stands between the ends. -/
def rank (programs : Programs) (clients : Clients) (conduit : Conduit Inside Move Packet)
    (cost : Nat) (s : SystemState Inside Worker) (a : Frame → Standing Worker) : Nat :=
  (cost + 1) * left clients.identities programs.limit a + conduit.rank s.inside

/-- A step emits what the programs send, leaves the marks of some events of the service, and
lowers the rank. -/
def Matched (programs : Programs) (clients : Clients) (conduit : Conduit Inside Move Packet)
    (cost : Nat) (s t : SystemState Inside Worker) (a : Frame → Standing Worker)
    (out : List (SystemOutput Worker)) : Prop :=
  (∀ o ∈ out, Regular programs clients o) ∧ ∃ fs b,
    (Service.machine clients.identities programs.limit).exec a fs =
      some (b, out.filterMap mark?) ∧
    Simulates programs clients conduit t b ∧
    rank programs clients conduit cost t b < rank programs clients conduit cost s a

/-- One mark, on the trail of one client, for a step that gives the conduit at most `cost`. -/
theorem Simulates.matched (h : Simulates programs clients conduit s a) {client : Frame}
    {mark : Mark Worker} {st : Standing Worker} {o : SystemOutput Worker}
    (known : client ∈ clients.identities)
    (marked : (a client).mark programs.limit mark = some st)
    (seen : mark? o = some (client, mark)) (regular : Regular programs clients o)
    (inside : conduit.rank t.inside ≤ conduit.rank s.inside + cost)
    (next : (Function.update a client st client).Within programs.limit →
      Simulates programs clients conduit t (Function.update a client st)) :
    Matched programs clients conduit cost s t a [o] := by
  have within := h.within client
  obtain ⟨-, after, -⟩ := Standing.mark_spec marked within
  have less := left_update known within marked
  refine ⟨by simpa using regular, [(client, mark)], Function.update a client st, ?_, ?_, ?_⟩
  · have hexec := Service.exec_mark known marked
    simpa [seen] using hexec
  · exact next (by rwa [Function.update_self])
  · rw [rank, rank, ← less, Nat.mul_add, Nat.mul_one]
    omega

/-! ## The steps -/

section

variable (admits : ∀ leg client part, conduit.Admits (leg, [client, [], part]))
  (costs : ∀ leg client part, conduit.cost (leg, [client, [], part]) ≤ cost)

include admits costs

theorem Simulates.clientSend (h : Simulates programs clients conduit s a) {client : Frame}
    (known : client ∈ clients.identities)
    (taken : byClient programs conduit s client .send s.net = some (t, out)) :
    Matched programs clients conduit cost s t a out := by
  obtain ⟨c, os, hstep, rfl, rfl⟩ := byClient_eq_some taken
  rw [h.client client] at hstep
  obtain ⟨idle, more, here, rfl⟩ := requesterStep_send (h.within client) hstep
  have marked : (a client).mark programs.limit .asked =
      some { a client with stage := .asking } := by simp [Standing.mark, idle, more]
  apply h.matched known marked
  · rfl
  · exact ⟨known, rfl⟩
  · apply Nat.le_trans (conduit.rank_accept _ _)
    exact Nat.add_le_add_left (costs _ _ _) _
  · intro within
    refine ⟨h.within_update within, h.known_update known _, h.client_update here, ?_, ?_⟩
    · exact fun worker => (h.worker worker).update (by simp [idle]) (by simp)
    · exact h.post (admits _ _ _) (by simp [letters, letter, idle]) rfl

theorem Simulates.workerSend (h : Simulates programs clients conduit s a) {worker : Worker}
    (taken : byWorker programs conduit s worker .send s.net = some (t, out)) :
    Matched programs clients conduit cost s t a out := by
  obtain ⟨w, os, hstep, rfl, rfl⟩ := byWorker_eq_some taken
  have place := h.worker worker
  cases hpc : (s.worker worker).pc with
  | recv => simp [replierStep, hpc] at hstep
  | send =>
      simp only [WorkerAt, hpc] at place
      obtain ⟨client, known, only, socket⟩ := place
      simp only [replierStep, hpc, Rep.send, socket, if_true, Option.some.injEq,
        Prod.mk.injEq] at hstep
      obtain ⟨rfl, rfl⟩ := hstep
      have busy := (only client).mpr rfl
      have marked : (a client).mark programs.limit (.served worker) =
          some { a client with stage := .served worker } := by simp [Standing.mark, busy]
      apply h.matched known marked
      · rfl
      · exact ⟨client, known, rfl⟩
      · apply Nat.le_trans (conduit.rank_accept _ _)
        exact Nat.add_le_add_left (costs _ _ _) _
      · intro within
        refine ⟨h.within_update within, h.known_update known _, ?_, ?_, ?_⟩
        · intro other
          rw [h.client other]
          by_cases heq : other = client
          · subst other
            simp [clientAt, busy]
          · rw [Function.update_of_ne heq]
        · intro other
          dsimp only
          by_cases heq : other = worker
          · subst other
            rw [Function.update_self]
            refine ⟨rfl, rfl, fun found => ?_⟩
            by_cases hfound : found = client
            · subst found
              simp
            · rw [Function.update_of_ne hfound]
              exact fun stage => hfound ((only found).mp stage)
          · rw [Function.update_of_ne heq]
            apply (h.worker other).update
            · rw [busy]
              exact fun same => heq (Stage.taken.inj same).symm
            · simp
        · exact h.post (admits _ _ _) (by simp [letters, letter, busy]) rfl

end

theorem Simulates.clientRecv (h : Simulates programs clients conduit s a) {client : Frame}
    {msg : Zmsg} {left : Network Leg Zmsg} (picked : s.net.Perm ((.reply, client :: msg) :: left))
    (taken : byClient programs conduit s client (.recv (some msg)) left = some (t, out)) :
    Matched programs clients conduit cost s t a out := by
  obtain ⟨c, os, hstep, rfl, rfl⟩ := byClient_eq_some taken
  obtain ⟨found, mine⟩ := h.exists_letter picked
  obtain rfl : found = client := eq_of_letter mine
  cases hstage : (a found).stage with
  | served worker =>
      have known := h.known found (by simp [hstage])
      obtain rfl : msg = [[], programs.reply] := by
        simpa [letters, letter, hstage, eq_comm] using mine
      have standing : s.client found =
          { pc := .recv (a found).rounds.length
            socket := { receivingReply := true, unread := [] } } := by
        rw [h.client found, clientAt, hstage]
      rw [standing] at hstep
      simp only [requesterStep, Req.recv, replyBody, Req.read, Option.some.injEq,
        Prod.mk.injEq] at hstep
      obtain ⟨rfl, rfl⟩ := hstep
      have marked : (a found).mark programs.limit .answered =
          some { rounds := (a found).rounds ++ [worker], stage := .idle } := by
        simp [Standing.mark, hstage]
      apply h.matched known marked
      · rfl
      · rfl
      · exact Nat.le_add_right _ _
      · intro within
        refine ⟨h.within_update within, h.known_update known _, h.client_update ?_, ?_, ?_⟩
        · simp [clientAt]
        · exact fun worker => (h.worker worker).update (by simp [hstage]) (by simp)
        · exact h.take picked mine rfl
  | _ => simp [letters, letter, hstage] at mine

theorem Simulates.workerRecv (h : Simulates programs clients conduit s a) {worker : Worker}
    {msg : Zmsg} {left : Network Leg Zmsg} (picked : s.net.Perm ((.request, msg) :: left))
    (taken : byWorker programs conduit s worker (.recv (some msg)) left = some (t, out)) :
    Matched programs clients conduit cost s t a out := by
  obtain ⟨w, os, hstep, rfl, rfl⟩ := byWorker_eq_some taken
  obtain ⟨client, mine⟩ := h.exists_letter picked
  cases hstage : (a client).stage with
  | asking =>
      have known := h.known client (by simp [hstage])
      obtain rfl : msg = [client, [], programs.request] := by
        simpa [letters, letter, hstage, eq_comm] using mine
      have place := h.worker worker
      cases hpc : (s.worker worker).pc with
      | send => simp [replierStep, hpc] at hstep
      | recv =>
          simp only [WorkerAt, hpc] at place
          obtain ⟨turn, unread, free⟩ := place
          simp only [replierStep, hpc, Rep.recv, turn, unread, openRequest_known known, Rep.read,
            Option.some.injEq, Prod.mk.injEq] at hstep
          obtain ⟨rfl, rfl⟩ := hstep
          have marked : (a client).mark programs.limit (.taken worker) =
              some { a client with stage := .taken worker } := by simp [Standing.mark, hstage]
          apply h.matched known marked
          · rfl
          · exact ⟨⟨client, known, rfl⟩, rfl⟩
          · exact Nat.le_add_right _ _
          · intro within
            refine ⟨h.within_update within, h.known_update known _, ?_, ?_, ?_⟩
            · intro other
              rw [h.client other]
              by_cases heq : other = client
              · subst other
                simp [clientAt, hstage]
              · rw [Function.update_of_ne heq]
            · intro other
              dsimp only
              by_cases heq : other = worker
              · subst other
                rw [Function.update_self]
                refine ⟨client, known, fun found => ?_, rfl⟩
                by_cases hfound : found = client
                · subst found
                  simp
                · rw [Function.update_of_ne hfound]
                  exact iff_of_false (free found) hfound
              · rw [Function.update_of_ne heq]
                apply (h.worker other).update
                · simp [hstage]
                · exact fun same => heq (Stage.taken.inj same).symm
            · exact h.take picked mine rfl
  | served worker => simp [letters, letter, hstage] at mine
  | _ => simp [letters, letter, hstage] at mine

theorem Simulates.carry (h : Simulates programs clients conduit s a) {move : Move}
    {inside : Inside} {packets : List Packet}
    (taken : conduit.step s.inside move = some (inside, packets)) :
    Matched programs clients conduit cost s
      { s with inside := inside, net := s.net ++ packets } a [] := by
  obtain ⟨held, holds, carries⟩ := h.carried
  obtain ⟨⟨left, next, moved⟩, lower⟩ := conduit.holds_step holds taken
  refine ⟨by simp, [], a, rfl, ⟨h.within, h.known, h.client, h.worker, left, next, ?_⟩, ?_⟩
  · apply carries.perm
    have shifted := (moved.append_right s.net).trans
      (List.perm_append_comm.append_right s.net)
    rw [List.append_assoc] at shifted
    exact shifted.trans (List.perm_append_comm.append_left left)
  · exact Nat.add_lt_add_left lower _

/-- Every step is matched. -/
theorem Simulates.step (admits : ∀ leg client part, conduit.Admits (leg, [client, [], part]))
    (costs : ∀ leg client part, conduit.cost (leg, [client, [], part]) ≤ cost)
    (h : Simulates programs clients conduit s a) {e : SystemEvent Move Worker}
    (taken : (system Worker programs clients conduit).step s e = some (t, out)) :
    Matched programs clients conduit cost s t a out := by
  cases systemMoves_of_step taken with
  | clientSend client known call => exact h.clientSend admits costs known call
  | clientReads client call =>
      obtain ⟨c, os, hstep, -⟩ := byClient_eq_some call
      rw [h.client client, requesterStep_recv_none] at hstep
      cases hstep
  | clientRecv client index msg left picked call => exact h.clientRecv picked call
  | workerReads worker call =>
      obtain ⟨w, os, hstep, -⟩ := byWorker_eq_some call
      rw [h.workerReads] at hstep
      cases hstep
  | workerRecv worker index msg left picked call => exact h.workerRecv picked call
  | workerSend worker call => exact h.workerSend admits costs call
  | carry move call => exact h.carry call

end

end ZmqTest.Hello
