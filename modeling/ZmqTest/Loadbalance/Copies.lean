/-
# The copies the load balancer makes

Every frame `lbbroker.c` receives is copied into one of its buffers, and the identity
of a worker once more into a block of its own. The buffers are no shorter than `s_recv`
is told; the block is as long as the string without its NUL, and `strcpy` writes that too.
So the copies fit in exactly the runs in which no identity is stored.
-/

import ZmqTest.Buffers
import ZmqTest.Loadbalance.Lbbroker

namespace ZmqTest.Loadbalance

/-- A copy: the bytes written, and those there are. -/
structure Copy where
  written : Nat
  capacity : Nat
  deriving DecidableEq

/-- The buffers on the stack of `main`. -/
inductive Buffer
  | empty
  | workerId
  | clientId
  | msg
  deriving DecidableEq

/-- The bytes each buffer is declared with. -/
def Buffer.size : Buffer → Nat
  | .empty => 2
  | .workerId => 256
  | .clientId => 256
  | .msg => 256

/-- `s_recv` into a buffer, with the length it is told. -/
def recvCopy (buffer : Buffer) (len : Nat) (frame : Option Frame) : Copy :=
  { written := (sRecvWrites (BitVec.ofNat 32 len) frame).length, capacity := buffer.size }

/-- `strcpy` into a block of `strlen` bytes. -/
def strcpyCopy (workerId : List UInt8) : Copy :=
  { written := (cstr workerId).length + 1, capacity := (cstr workerId).length }

/-- The copies of one step of the broker. The identity is stored behind the
assertion. -/
def copies (s : LbbrokerState) (e : LbbrokerEvent) : List Copy :=
  match s.pc, e with
  | .workerId _, .recv frame =>
      recvCopy .workerId 256 frame ::
        if s.availableWorkers < nbrWorkers then [strcpyCopy (sRecv s.workerId 256 frame)] else []
  | .backendEmpty _, .recv frame => [recvCopy .empty 2 frame]
  | .backendClientId _, .recv frame => [recvCopy .clientId 256 frame]
  | .replyEmpty _, .recv frame => [recvCopy .empty 2 frame]
  | .reply _, .recv frame => [recvCopy .msg 256 frame]
  | .frontendClientId, .recv frame => [recvCopy .clientId 256 frame]
  | .requestEmpty, .recv frame => [recvCopy .empty 2 frame]
  | .request, .recv frame => [recvCopy .msg 256 frame]
  | _, _ => []

/-- No copy of a step writes more than there is room for. -/
def CopiesFit (s : LbbrokerState) (e : LbbrokerEvent) : Prop :=
  ∀ copy ∈ copies s e, copy.written ≤ copy.capacity

/-- The step does not store the identity of a worker: it does not receive one, or the
assertion before the copy fails. -/
def StoresNoWorker (s : LbbrokerState) (e : LbbrokerEvent) : Prop :=
  match s.pc, e with
  | .workerId _, .recv _ => nbrWorkers ≤ s.availableWorkers
  | _, _ => True

/-- The step does not receive the identity of a worker. -/
def ReadsNoWorker (s : LbbrokerState) (e : LbbrokerEvent) : Prop :=
  match s.pc, e with
  | .workerId _, .recv _ => False
  | _, _ => True

instance (s : LbbrokerState) (e : LbbrokerEvent) : Decidable (ReadsNoWorker s e) := by
  unfold ReadsNoWorker
  split <;> infer_instance

/-- A frame that can be reported. -/
def Sized : LbbrokerEvent → Prop
  | .recv (some frame) => frame.length ≤ intMax
  | _ => True

/-- A receive that is told no more than the size of its buffer fits it. -/
theorem recvCopy_fits {buffer : Buffer} {len : Nat} (positive : 1 ≤ len)
    (within : len ≤ buffer.size) {frame : Option Frame} (sized : Sized (.recv frame)) :
    (recvCopy buffer len frame).written ≤ (recvCopy buffer len frame).capacity := by
  have small : len < 2 ^ 32 := by
    have h : buffer.size ≤ 256 := by cases buffer <;> decide
    omega
  have hlen : (BitVec.ofNat 32 len).toNat = len := by
    rw [BitVec.toNat_ofNat]
    exact Nat.mod_eq_of_lt small
  cases frame with
  | none => exact Nat.zero_le _
  | some frame =>
      rw [← hlen] at positive
      have fits := length_sRecvWrites_le positive sized
      rw [hlen] at fits
      exact fits.trans within

/-- The copy of an identity is one byte too long. -/
theorem strcpyCopy_overruns (workerId : List UInt8) :
    ¬ (strcpyCopy workerId).written ≤ (strcpyCopy workerId).capacity :=
  Nat.not_succ_le_self _

theorem copiesFit_of_storesNoWorker {s : LbbrokerState} {e : LbbrokerEvent} (sized : Sized e)
    (h : StoresNoWorker s e) : CopiesFit s e := by
  have fits {buffer : Buffer} {len : Nat} {frame : Option Frame} (positive : 1 ≤ len)
      (within : len ≤ buffer.size) (sized : Sized (.recv frame)) (copy : Copy)
      (hmem : copy ∈ [recvCopy buffer len frame]) : copy.written ≤ copy.capacity :=
    List.mem_singleton.mp hmem ▸ recvCopy_fits positive within sized
  intro copy hmem
  unfold copies at hmem
  split at hmem
  case h_1 revents1 frame pc =>
    have full : nbrWorkers ≤ s.availableWorkers := by simpa only [StoresNoWorker, pc] using h
    rw [if_neg (Nat.not_lt.mpr full)] at hmem
    exact fits (by decide) (by decide) sized copy hmem
  case h_9 => cases hmem
  all_goals exact fits (by decide) (by decide) sized copy hmem

theorem storesNoWorker_of_copiesFit {s : LbbrokerState} {e : LbbrokerEvent}
    (h : CopiesFit s e) : StoresNoWorker s e := by
  unfold StoresNoWorker
  split
  case h_2 => trivial
  case h_1 revents1 frame pc =>
    by_contra room
    apply strcpyCopy_overruns (sRecv s.workerId 256 frame)
    apply h
    simp only [copies, pc, if_pos (Nat.lt_of_not_le room)]
    exact List.mem_cons_of_mem _ List.mem_cons_self

/-- With no worker available, the assertion does not keep an identity out. -/
theorem readsNoWorker_of_storesNoWorker {s : LbbrokerState} {e : LbbrokerEvent}
    (none : s.availableWorkers = 0) (stores : StoresNoWorker s e) : ReadsNoWorker s e := by
  unfold StoresNoWorker at stores
  unfold ReadsNoWorker
  split
  case h_1 revents1 frame pc =>
    simp [pc, none, nbrWorkers] at stores
  case h_2 => trivial

theorem storesNoWorker_of_readsNoWorker {s : LbbrokerState} {e : LbbrokerEvent}
    (reads : ReadsNoWorker s e) : StoresNoWorker s e := by
  unfold ReadsNoWorker at reads
  unfold StoresNoWorker
  split
  case h_1 revents1 frame pc => simp [pc] at reads
  case h_2 => trivial

/-- The counter goes up only when an identity is read. -/
theorem availableWorkers_step {s t : LbbrokerState} {e : LbbrokerEvent}
    {out : List LbbrokerEffect} (none : s.availableWorkers = 0) (reads : ReadsNoWorker s e)
    (taken : lbbroker.step s e = some (t, out)) : t.availableWorkers = 0 := by
  have empty (frame : Option Frame) (next : LbbrokerPc) :
      (recvEmpty s frame next).availableWorkers = 0 := by
    unfold recvEmpty
    dsimp only
    split <;> exact none
  change lbbrokerStep s e = some (t, out) at taken
  unfold lbbrokerStep at taken
  split at taken
  case h_3 revents1 frame pc => simp [ReadsNoWorker, pc] at reads
  case h_5 revents1 frame pc =>
    cases taken
    unfold onBackendClientId
    dsimp only
    split <;> exact none
  case h_10 frame pc =>
    simp only [onRequest, Option.some.injEq] at taken
    split at taken
    case h_1 =>
      cases taken
      exact none
    case h_2 =>
      cases taken
      dsimp only
      rw [none]
  case h_11 => cases taken
  all_goals
    cases taken
    first
    | exact none
    | exact empty _ _

/-- The first identity that is read is stored. -/
theorem stepsMeet_readsNoWorker {es : List LbbrokerEvent} {os : List LbbrokerEffect}
    {s : LbbrokerState} (run : lbbroker.Run es os s)
    (stores : lbbroker.StepsMeet StoresNoWorker es) :
    lbbroker.StepsMeet ReadsNoWorker es ∧ s.availableWorkers = 0 := by
  induction run with
  | start => exact ⟨by simp [Machine.StepsMeet], rfl⟩
  | extend prior taken ih =>
      obtain ⟨reads, none⟩ := ih stores.prior
      have last := readsNoWorker_of_storesNoWorker none (stores.last prior)
      exact ⟨(prior.stepsMeet_concat _).mpr ⟨reads, last⟩, availableWorkers_step none last taken⟩

theorem stepsMeet_readsNoWorker_iff {es : List LbbrokerEvent} {os : List LbbrokerEffect}
    {s : LbbrokerState} (run : lbbroker.Run es os s) :
    lbbroker.StepsMeet StoresNoWorker es ↔ lbbroker.StepsMeet ReadsNoWorker es := by
  constructor
  · exact fun stores => (stepsMeet_readsNoWorker run stores).1
  · intro reads before e after first t heq prior
    exact storesNoWorker_of_readsNoWorker (reads before e after first t heq prior)

/-- A receive into a buffer of any size writes within it, for every frame that can be
reported; and in every run of the broker all copies fit if and only if it receives the
identity of no worker. -/
theorem copies_fit_iff {es : List LbbrokerEvent} {os : List LbbrokerEffect} {s : LbbrokerState}
    (run : lbbroker.Run es os s) (sized : ∀ e ∈ es, Sized e) :
    (∀ (len : BitVec 32) (frame : Frame), 1 ≤ len.toNat → frame.length ≤ intMax →
      (sRecvWrites len (some frame)).length ≤ len.toNat ∧
      ∀ write ∈ sRecvWrites len (some frame), 0 ≤ write.index ∧ write.index < len.toNat) ∧
    (lbbroker.StepsMeet CopiesFit es ↔ lbbroker.StepsMeet ReadsNoWorker es) := by
  have pointwise : lbbroker.StepsMeet CopiesFit es ↔ lbbroker.StepsMeet StoresNoWorker es := by
    apply Machine.stepsMeet_congr_on
    intro e he s
    exact ⟨storesNoWorker_of_copiesFit, copiesFit_of_storesNoWorker (sized e he)⟩
  refine ⟨?_, pointwise.trans ?_⟩
  · intro len frame positive reported
    exact ⟨length_sRecvWrites_le positive reported,
      fun write => index_of_mem_sRecvWrites positive reported⟩
  · exact stepsMeet_readsNoWorker_iff run

/-- A frame that is longer than any of the buffers. -/
def longFrame : Frame := List.replicate 300 119

theorem longFrame_reported : longFrame.length ≤ intMax := by
  rw [longFrame, List.length_replicate]
  decide

/-- A worker is read with such an identity. -/
def longRun : List LbbrokerEvent := [.poll (some (true, false)), .recv (some longFrame)]

/-- What is received is cut to the buffer, but the copy of it does not fit its block. -/
theorem copies_fit_iff_long :
    ∃ os s, lbbroker.Run longRun os s ∧
      (sRecvWrites 256 (some longFrame)).length ≤ 256 ∧
      ¬ lbbroker.StepsMeet CopiesFit longRun := by
  have hexec : (lbbroker.exec lbbroker.init longRun).map (fun r => r.1.pc) =
      some (.backendEmpty false) := by decide +kernel
  obtain ⟨os, s, run, -⟩ := Machine.run_of_map_exec hexec
  have sized : ∀ e ∈ longRun, Sized e := by simpa [longRun, Sized] using longFrame_reported
  obtain ⟨received, iff⟩ := copies_fit_iff run sized
  refine ⟨os, s, run, (received 256 _ (by decide) longFrame_reported).1, ?_⟩
  rw [iff]
  intro reads
  have polled : lbbroker.Run [.poll (some (true, false))] []
      { lbbrokerInit with pc := .workerId false } := Machine.run_of_exec (by decide)
  exact reads [.poll (some (true, false))] _ [] _ _ rfl polled

/-- The identity of the first worker does not fit the block that is allocated for it. -/
theorem identity_overruns :
    ¬ ∀ es os s, lbbroker.Run es os s → (∀ e ∈ es, Sized e) →
      lbbroker.StepsMeet CopiesFit es := by
  intro claim
  have run : (lbbroker.exec lbbrokerInit [.poll (some (true, false)), .recv (some [119])]).map
      (fun r => r.1.pc) = some (.backendEmpty false) := by decide
  obtain ⟨os, s, run, -⟩ := Machine.run_of_map_exec run
  have fits := claim _ _ _ run (by simp [Sized, intMax])
  have polled : lbbroker.Run [.poll (some (true, false))] []
      { lbbrokerInit with pc := .workerId false } := Machine.run_of_exec (by decide)
  have copy := fits [.poll (some (true, false))] _ [] _ _ rfl polled
  exact strcpyCopy_overruns [119, 0] (copy ⟨2, 1⟩ (by decide))

end ZmqTest.Loadbalance
