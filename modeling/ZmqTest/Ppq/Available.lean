/-
# The list of available workers is a recency list

Registering a worker removes at most one entry, the first with the same printed
identity, so that no identity is listed twice rests on no identity being listed
twice before. The invariant says more: the identities in the list are the
recency list of the messages received, the workers popped and the workers
purged. The poll gate adds that the frontend branch is only ever entered with a
worker in the list.
-/

import ZmqTest.Lib.Recency
import ZmqTest.Ppq.Queue

namespace ZmqTest.Ppq

open Recency

/-- The identities in a list of workers, in order. -/
def identities (workers : List Worker) : List Frame := workers.map Worker.identity

/-- Whom a message is sent to, or who is destroyed. -/
def QueueEffect.dropped : QueueEffect → Option (Act Frame)
  | .toBackend (identity :: _) => some (.drop identity)
  | .purged identity => some (.drop identity)
  | _ => none

/-- What a step means for recency. A backend message touches the identity it was read
from, its first frame; a dispatch drops the worker that is sent the request, and a purge
those it destroys. -/
def stepActs : QueueEvent × List QueueEffect → List (Act Frame)
  | (.recvBackend (some msg) _, _) => (msg.first.map .touch).toList
  | (.recvFrontend _, out) => out.filterMap QueueEffect.dropped
  | (.purge _, out) => out.filterMap QueueEffect.dropped
  | _ => []

/-- The touches and drops of a run, in order. -/
def acts (es : List QueueEvent) : List (Act Frame) := (queue.log queue.init es).flatMap stepActs

theorem acts_concat {es : List QueueEvent} {os out : List QueueEffect} {s t : QueueState}
    {e : QueueEvent} (run : queue.Run es os s) (taken : queue.step s e = some (t, out)) :
    acts (es ++ [e]) = acts es ++ stepActs (e, out) := by
  simp [acts, run.log_concat taken]

theorem stepActs_recvBackend {msg body : Zmsg} {identity : Frame} (now : Int)
    (out : List QueueEffect) (unwrapped : msg.unwrap = some (identity, body)) :
    stepActs (.recvBackend (some msg) now, out) = [.touch identity] := by
  obtain ⟨rest, rfl⟩ := Zmsg.eq_cons_of_unwrap unwrapped
  rfl

theorem stepActs_purge (readings : List Int) (workers : List Worker) :
    stepActs (.purge readings, workers.map fun worker => .purged worker.identity) =
      (identities workers).map .drop := by
  induction workers with
  | nil => rfl
  | cons worker workers ih => exact congrArg (Act.drop worker.identity :: ·) ih

/-- Printed identities agree exactly when the identities do. -/
theorem idString_eq_iff (first second : Worker) :
    first.idString = second.idString ↔ first.identity = second.identity := by
  rw [first.idString_eq, second.idString_eq]
  exact zframeStrhex_injective.eq_iff

/-- When no identity is listed twice, removing the first entry with an identity
removes them all. -/
theorem identities_eraseP (self : Worker) {workers : List Worker}
    (nodup : (identities workers).Nodup) :
    identities (workers.eraseP fun worker => self.idString = worker.idString) =
      (identities workers).filter (· ≠ self.identity) := by
  induction workers with
  | nil => rfl
  | cons worker workers ih =>
      obtain ⟨hnot, hrest⟩ := List.nodup_cons.mp nodup
      by_cases hsame : self.idString = worker.idString
      · have hid := (idString_eq_iff self worker).mp hsame
        have hkeep : (workers.map Worker.identity).filter (· ≠ self.identity) =
            workers.map Worker.identity := by
          rw [List.filter_eq_self]
          intro other hother
          have hne : other ≠ self.identity := fun h => hnot (hid ▸ h ▸ hother)
          simpa using hne
        simpa [identities, hsame, hid] using hkeep.symm
      · have hid : worker.identity ≠ self.identity := fun h =>
          hsame ((idString_eq_iff self worker).mpr h.symm)
        simpa [identities, hsame, hid] using ih hrest

/-- Registering a worker moves its identity to the end. -/
theorem identities_workerReady (self : Worker) {workers : List Worker}
    (nodup : (identities workers).Nodup) :
    identities (workerReady self workers) =
      (identities workers).filter (· ≠ self.identity) ++ [self.identity] := by
  rw [← identities_eraseP self nodup]
  simp [workerReady, identities]

/-- What holds of the list between any two steps. -/
structure Available (es : List QueueEvent) (s : QueueState) : Prop where
  tracks : Tracks (acts es) (identities s.workers)
  gate : s.pc = .backend true ∨ s.pc = .frontend → s.workers ≠ []
  alive : s.pc ≠ .aborted

theorem Available.init : Available [] queue.init where
  tracks := Tracks.nil
  gate := by simp [queue, queueInit]
  alive := by simp [queue, queueInit]

/-- The gate of the poll: the frontend is only read with a worker available. -/
theorem afterPoll_gate {workers : List Worker} {revents0 revents1 : Bool}
    (h : afterPoll workers revents0 revents1 = .backend true ∨
      afterPoll workers revents0 revents1 = .frontend) : workers ≠ [] := by
  rintro rfl
  cases revents0 <;> cases revents1 <;> simp [afterPoll] at h

theorem workerReady_ne_nil (self : Worker) (workers : List Worker) :
    workerReady self workers ≠ [] := by
  simp [workerReady]

/-- Without a touch or a drop the list is still the recency list. -/
theorem Available.tracks_keep {es : List QueueEvent} {os out : List QueueEffect}
    {s t : QueueState} {e : QueueEvent} (h : Available es s) (run : queue.Run es os s)
    (taken : queue.step s e = some (t, out)) (silent : stepActs (e, out) = [])
    (same : t.workers = s.workers) : Tracks (acts (es ++ [e])) (identities t.workers) := by
  rw [acts_concat run taken, silent, List.append_nil, same]
  exact h.tracks

/-- Every step keeps the invariant. -/
theorem Available.step {es : List QueueEvent} {os out : List QueueEffect} {s t : QueueState}
    {e : QueueEvent} (h : Available es s) (run : queue.Run es os s)
    (taken : queue.step s e = some (t, out)) : Available (es ++ [e]) t := by
  have keep := h.tracks_keep run taken
  have grown := acts_concat run taken
  cases queueMoves_of_step taken with
  | setup now pc => exact ⟨keep rfl rfl, by simp, by simp⟩
  | pollError pc => exact ⟨keep rfl rfl, by simp, by simp⟩
  | polled revents0 revents1 pc =>
      refine ⟨keep rfl rfl, afterPoll_gate, ?_⟩
      cases revents0 <;> cases hlist : s.workers <;> cases revents1 <;> simp [afterPoll]
  | backendError revents1 now pc => exact ⟨keep rfl rfl, by simp, by simp⟩
  | backend revents1 msg now identity body pc unwrapped =>
      refine ⟨?_, fun _ => workerReady_ne_nil _ _, by cases revents1 <;> simp⟩
      rw [grown, stepActs_recvBackend now _ unwrapped, identities_workerReady _ h.tracks.nodup]
      exact h.tracks.touch identity
  | frontendError pc => exact ⟨keep rfl rfl, by simp, by simp⟩
  | frontend msg worker rest pc listed =>
      refine ⟨?_, by simp, by simp⟩
      have tracks := h.tracks
      rw [listed] at tracks
      rw [grown]
      exact tracks.drop_head
  | underflow msg pc listed => exact absurd listed (h.gate (Or.inr pc))
  | quiet now pc => exact ⟨keep rfl rfl, by simp, by simp⟩
  | beat now later pc => exact ⟨keep rfl rfl, by simp, by simp⟩
  | purge readings destroyed kept pc purged =>
      refine ⟨?_, by simp, by simp⟩
      have tracks := h.tracks
      rw [(workerPurge_spec purged).1, identities, List.map_append] at tracks
      rw [grown, stepActs_purge]
      exact tracks.drop_front

theorem available_of_run {es : List QueueEvent} {os : List QueueEffect} {s : QueueState}
    (run : queue.Run es os s) : Available es s := by
  induction run with
  | start => exact Available.init
  | extend prior taken ih => exact ih.step prior taken

/-- A request is handed to the worker at the front of the list. -/
theorem dispatch_head {s t : QueueState} {msg : Zmsg} {out : List QueueEffect}
    (taken : queue.step s (.recvFrontend (some msg)) = some (t, out))
    (alive : s.workers ≠ []) :
    ∃ worker rest, s.workers = worker :: rest ∧
      out = [.next worker.identity, .toBackend (worker.identity :: msg)] := by
  cases queueMoves_of_step taken with
  | frontend msg worker rest pc listed => exact ⟨worker, rest, listed, rfl⟩
  | underflow msg pc listed => exact absurd listed alive

theorem pc_of_recvFrontend {s t : QueueState} {msg : Option Zmsg} {out : List QueueEffect}
    (taken : queue.step s (.recvFrontend msg) = some (t, out)) : s.pc = .frontend := by
  cases queueMoves_of_step taken <;> assumption

/-- In every run and at every point of it, the list holds each identity at most
once, exactly those a message was read from more recently than they were popped or
purged, the longest silent first. So each request goes to the listed worker that
has been silent the longest, and the assertion of `_worker_next` never fails. -/
theorem workers_by_recency {es : List QueueEvent} {os : List QueueEffect} {s : QueueState}
    (run : queue.Run es os s) :
    (identities s.workers).Nodup ∧
    (∀ identity, identity ∈ identities s.workers ↔
      latest (acts es) (.drop identity) < latest (acts es) (.touch identity)) ∧
    (identities s.workers).Pairwise (fun first second =>
      latest (acts es) (.touch first) < latest (acts es) (.touch second)) ∧
    (∀ msg t out, queue.step s (.recvFrontend (some msg)) = some (t, out) →
      ∃ identity, out = [.next identity, .toBackend (identity :: msg)] ∧
        identity ∈ identities s.workers ∧
        ∀ other ∈ identities s.workers, other ≠ identity →
          latest (acts es) (.touch identity) < latest (acts es) (.touch other)) ∧
    s.pc ≠ .aborted := by
  have h := available_of_run run
  refine ⟨h.tracks.nodup, h.tracks.mem_iff, h.tracks.ordered, ?_, h.alive⟩
  intro msg t out taken
  have gate := h.gate (Or.inr (pc_of_recvFrontend taken))
  obtain ⟨worker, rest, listed, hout⟩ := dispatch_head taken gate
  have tracks := h.tracks
  rw [listed] at tracks ⊢
  refine ⟨worker.identity, hout, by simp [identities], ?_⟩
  intro other hother hne
  have hrest : other ∈ identities rest := by
    simpa [identities, hne] using hother
  exact tracks.head_oldest hrest

/-- Two workers announce themselves; a heartbeat of the first puts it behind the second,
which is handed a request. A third worker comes, the first falls silent and is purged, the
second answers, and another request waits. -/
def sampleRun : List QueueEvent :=
  [.setup 0, .poll (some (true, false)), .recvBackend (some [[7], pppReady]) 10,
    .heartbeat [20], .purge [30], .poll (some (true, false)),
    .recvBackend (some [[8], pppReady]) 40, .heartbeat [50], .purge [60],
    .poll (some (true, true)), .recvBackend (some [[7], pppHeartbeat]) 70,
    .recvFrontend (some [[1], [], [9]]), .heartbeat [80], .purge [90],
    .poll (some (true, false)), .recvBackend (some [[6], pppReady]) 3060,
    .heartbeat [3065, 3065], .purge [3070, 3071], .poll (some (true, true)),
    .recvBackend (some [[8], [1], [], [9]]) 3080]

theorem sampleRun_exec : (queue.exec queue.init sampleRun).map
    (fun r => (r.1.pc, identities r.1.workers)) = some (.frontend, [[6], [8]]) := by
  decide

/-- The worker whose message is the older one is first, and is handed the request. -/
theorem workers_by_recency_sample :
    ∃ os s, queue.Run sampleRun os s ∧ identities s.workers = [[6], [8]] ∧
      acts sampleRun = [.touch [7], .touch [8], .touch [7], .drop [8], .touch [6], .drop [7],
        .touch [8]] ∧
      (identities s.workers).Nodup ∧
      (∀ identity, identity ∈ identities s.workers ↔
        latest (acts sampleRun) (.drop identity) < latest (acts sampleRun) (.touch identity)) ∧
      (∀ msg t out, queue.step s (.recvFrontend (some msg)) = some (t, out) →
        ∃ identity, out = [.next identity, .toBackend (identity :: msg)] ∧
          identity ∈ identities s.workers ∧
          ∀ other ∈ identities s.workers, other ≠ identity →
            latest (acts sampleRun) (.touch identity) < latest (acts sampleRun) (.touch other)) ∧
      s.pc ≠ .aborted := by
  obtain ⟨os, s, run, hsee⟩ := Machine.run_of_map_exec sampleRun_exec
  obtain ⟨-, hlist⟩ := Prod.mk.inj hsee
  obtain ⟨nodup, listed, -, dispatched, alive⟩ := workers_by_recency run
  exact ⟨os, s, run, hlist, by decide, nodup, listed, dispatched, alive⟩

end ZmqTest.Ppq
