/-
# Balancing requests over lock-step workers

The purpose of a load balancer, apart from how its messages are written down.
Every worker is in one place: it announces itself, stands idle in the list of
ready workers, has a request assigned, works on it, or has its reply under way.
A request is assigned to the worker that has been ready for longest. Every
client asks once and is served by one worker, whose reply answers it. The
invariant ties the list, the places of the workers and the standing of the
clients together.
-/

import Mathlib.Data.List.Basic
import Mathlib.Data.List.Nodup
import Mathlib.Logic.Function.Basic
import ZmqTest.Lib.Machine

universe u v

namespace Balancer

variable {W : Type u} {C : Type v}

/-- Where a worker is. -/
inductive Place (C : Type v)
  | away
  | announcing
  | idle
  | assigned (client : C)
  | working (client : C)
  | replying (client : C)

/-- How far the request of a client is. A request or a reply that the balancer
has read and not yet passed on is held or returning. -/
inductive Standing (W : Type u)
  | away
  | asking
  | held
  | served (worker : W)
  | returning (worker : W)
  | answered (worker : W)

structure State (W : Type u) (C : Type v) where
  worker : W → Place C
  client : C → Standing W
  ready : List W

inductive Event (W : Type u) (C : Type v)
  | announce (worker : W)
  | register (worker : W)
  | ask (client : C)
  | hold (client : C)
  | assign (client : C)
  | take (worker : W)
  | finish (worker : W)
  | collect (worker : W)
  | answer (client : C)

/-- The client whose request a worker has. -/
def Place.client? : Place C → Option C
  | .assigned client => some client
  | .working client => some client
  | .replying client => some client
  | _ => none

/-- A step emits the client it answers. -/
def step [DecidableEq W] [DecidableEq C] (s : State W C) : Event W C → Option (State W C × List C)
  | .announce w =>
      match s.worker w with
      | .away => some ({ s with worker := Function.update s.worker w .announcing }, [])
      | _ => none
  | .register w =>
      match s.worker w with
      | .announcing =>
          some ({ s with
              worker := Function.update s.worker w .idle
              ready := s.ready ++ [w] }, [])
      | _ => none
  | .ask c =>
      match s.client c with
      | .away => some ({ s with client := Function.update s.client c .asking }, [])
      | _ => none
  | .hold c =>
      match s.client c with
      | .asking => some ({ s with client := Function.update s.client c .held }, [])
      | _ => none
  | .assign c =>
      match s.client c, s.ready with
      | .held, w :: rest =>
          some ({ s with
              worker := Function.update s.worker w (.assigned c)
              client := Function.update s.client c (.served w)
              ready := rest }, [])
      | _, _ => none
  | .take w =>
      match s.worker w with
      | .assigned c => some ({ s with worker := Function.update s.worker w (.working c) }, [])
      | _ => none
  | .finish w =>
      match s.worker w with
      | .working c => some ({ s with worker := Function.update s.worker w (.replying c) }, [])
      | _ => none
  | .collect w =>
      match s.worker w with
      | .replying c =>
          some ({ s with
              worker := Function.update s.worker w .idle
              client := Function.update s.client c (.returning w)
              ready := s.ready ++ [w] }, [])
      | _ => none
  | .answer c =>
      match s.client c with
      | .returning w => some ({ s with client := Function.update s.client c (.answered w) }, [c])
      | _ => none

/-- Nobody has connected yet. -/
def init : State W C where
  worker := fun _ => .away
  client := fun _ => .away
  ready := []

/-- The load balancer, with the clients answered as its outputs. -/
def machine [DecidableEq W] [DecidableEq C] : Machine (State W C) (Event W C) C where
  init := init
  step := step

section

variable [DecidableEq W] [DecidableEq C] {s : State W C}

theorem step_announce {w : W} (away : s.worker w = .away) :
    machine.step s (.announce w) =
      some ({ s with worker := Function.update s.worker w .announcing }, []) := by
  simp [machine, step, away]

theorem step_register {w : W} (announcing : s.worker w = .announcing) :
    machine.step s (.register w) =
      some ({ s with worker := Function.update s.worker w .idle, ready := s.ready ++ [w] },
        []) := by
  simp [machine, step, announcing]

theorem step_ask {c : C} (away : s.client c = .away) :
    machine.step s (.ask c) =
      some ({ s with client := Function.update s.client c .asking }, []) := by
  simp [machine, step, away]

theorem step_hold {c : C} (asking : s.client c = .asking) :
    machine.step s (.hold c) =
      some ({ s with client := Function.update s.client c .held }, []) := by
  simp [machine, step, asking]

theorem step_assign {c : C} {w : W} {rest : List W} (held : s.client c = .held)
    (ready : s.ready = w :: rest) :
    machine.step s (.assign c) =
      some ({ s with
        worker := Function.update s.worker w (.assigned c)
        client := Function.update s.client c (.served w)
        ready := rest }, []) := by
  simp [machine, step, held, ready]

theorem step_take {w : W} {c : C} (assigned : s.worker w = .assigned c) :
    machine.step s (.take w) =
      some ({ s with worker := Function.update s.worker w (.working c) }, []) := by
  simp [machine, step, assigned]

theorem step_finish {w : W} {c : C} (working : s.worker w = .working c) :
    machine.step s (.finish w) =
      some ({ s with worker := Function.update s.worker w (.replying c) }, []) := by
  simp [machine, step, working]

theorem step_collect {w : W} {c : C} (replying : s.worker w = .replying c) :
    machine.step s (.collect w) =
      some ({ s with
        worker := Function.update s.worker w .idle
        client := Function.update s.client c (.returning w)
        ready := s.ready ++ [w] }, []) := by
  simp [machine, step, replying]

theorem step_answer {c : C} {w : W} (returning : s.client c = .returning w) :
    machine.step s (.answer c) =
      some ({ s with client := Function.update s.client c (.answered w) }, [c]) := by
  simp [machine, step, returning]

end

/-! ## The invariant -/

/-- What holds between any two steps. -/
structure Balanced (answered : List C) (worker : W → Place C) (client : C → Standing W)
    (ready : List W) : Prop where
  ready_nodup : ready.Nodup
  ready_iff : ∀ w, w ∈ ready ↔ worker w = .idle
  served : ∀ w c, (worker w).client? = some c → client c = .served w
  answered_nodup : answered.Nodup
  answered_iff : ∀ c, c ∈ answered ↔ ∃ w, client c = .answered w

variable {answered : List C} {worker : W → Place C} {client : C → Standing W} {ready : List W}

section

variable [DecidableEq W]

/-- A worker that is not listed goes on, with the same client or with none. -/
theorem Balanced.place (h : Balanced answered worker client ready) {w : W} {place : Place C}
    (busy : worker w ≠ .idle) (still : place ≠ .idle)
    (same : ∀ c, place.client? = some c → (worker w).client? = some c) :
    Balanced answered (Function.update worker w place) client ready where
  ready_nodup := h.ready_nodup
  ready_iff := by
    intro v
    rw [h.ready_iff, Function.update_apply]
    split
    case isTrue heq => exact heq ▸ iff_of_false busy still
    case isFalse _ => exact Iff.rfl
  served := by
    intro v c hclient
    rw [Function.update_apply] at hclient
    split at hclient
    case isTrue heq => exact heq ▸ h.served w c (same c hclient)
    case isFalse _ => exact h.served v c hclient
  answered_nodup := h.answered_nodup
  answered_iff := h.answered_iff

/-- A worker without a request joins the list. -/
theorem Balanced.join (h : Balanced answered worker client ready) {w : W}
    (busy : worker w ≠ .idle) :
    Balanced answered (Function.update worker w .idle) client (ready ++ [w]) where
  ready_nodup := by
    have hnot : w ∉ ready := fun hmem => busy ((h.ready_iff w).mp hmem)
    have hnew : (w :: ready).Nodup := List.nodup_cons.mpr ⟨hnot, h.ready_nodup⟩
    exact List.nodup_append_comm.mp hnew
  ready_iff := by
    intro v
    rw [List.mem_append, List.mem_singleton, h.ready_iff, Function.update_apply]
    split
    case isTrue heq => exact iff_of_true (Or.inr heq) rfl
    case isFalse hne => exact or_iff_left hne
  served := by
    intro v c hclient
    rw [Function.update_apply] at hclient
    split at hclient
    case isTrue _ => cases hclient
    case isFalse _ => exact h.served v c hclient
  answered_nodup := h.answered_nodup
  answered_iff := h.answered_iff

/-- Nobody is listed twice. -/
theorem Balanced.countP_ready_le_one (h : Balanced answered worker client ready) (w : W) :
    ready.countP (· = w) ≤ 1 := by
  have hnodup := h.ready_nodup
  clear h
  induction ready with
  | nil => exact Nat.zero_le 1
  | cons v ready ih =>
      obtain ⟨hnot, hrest⟩ := List.nodup_cons.mp hnodup
      rw [List.countP_cons]
      by_cases heq : v = w
      · have hzero : ready.countP (· = w) = 0 := by
          rw [List.countP_eq_zero]
          intro x hx hxw
          apply hnot
          rwa [heq, ← of_decide_eq_true hxw]
        simp [hzero, heq]
      · simpa [heq] using ih hrest

/-- Whoever is not idle is not listed. -/
theorem Balanced.countP_ready_eq_zero (h : Balanced answered worker client ready) {w : W}
    (busy : worker w ≠ .idle) : ready.countP (· = w) = 0 := by
  rw [List.countP_eq_zero]
  intro x hx hxw
  apply busy
  rwa [← h.ready_iff, ← of_decide_eq_true hxw]

end

section

variable [DecidableEq C]

/-- A client that no worker serves goes on, without an answer. -/
theorem Balanced.standing (h : Balanced answered worker client ready) {c : C}
    {standing : Standing W} (free : ∀ w, client c ≠ .served w)
    (before : ∀ w, client c ≠ .answered w) (after : ∀ w, standing ≠ .answered w) :
    Balanced answered worker (Function.update client c standing) ready where
  ready_nodup := h.ready_nodup
  ready_iff := h.ready_iff
  served := by
    intro w d hclient
    have hserved := h.served w d hclient
    rw [Function.update_of_ne]
    · exact hserved
    · intro heq
      exact free w (heq ▸ hserved)
  answered_nodup := h.answered_nodup
  answered_iff := by
    intro d
    rw [h.answered_iff, Function.update_apply]
    split
    case isTrue heq =>
      apply iff_of_false
      · rintro ⟨w, hw⟩
        exact before w (heq ▸ hw)
      · rintro ⟨w, hw⟩
        exact after w hw
    case isFalse _ => exact Iff.rfl

/-- The client is answered, which it was not before. -/
theorem Balanced.answer (h : Balanced answered worker client ready) {w : W} {c : C}
    (returning : client c = .returning w) :
    Balanced (answered ++ [c]) worker (Function.update client c (.answered w)) ready where
  ready_nodup := h.ready_nodup
  ready_iff := h.ready_iff
  served := by
    intro v d hclient
    have hserved := h.served v d hclient
    rw [Function.update_of_ne]
    · exact hserved
    · rintro rfl
      rw [returning] at hserved
      cases hserved
  answered_nodup := by
    have hnot : c ∉ answered := by simp [h.answered_iff, returning]
    have hnew : (c :: answered).Nodup := List.nodup_cons.mpr ⟨hnot, h.answered_nodup⟩
    exact List.nodup_append_comm.mp hnew
  answered_iff := by
    intro d
    rw [List.mem_append, List.mem_singleton, h.answered_iff, Function.update_apply]
    split
    case isTrue heq => exact iff_of_true (Or.inr heq) ⟨w, rfl⟩
    case isFalse hne => exact or_iff_left hne

end

variable [DecidableEq W] [DecidableEq C]

/-- The first worker of the list leaves it with a request that was held. -/
theorem Balanced.assign {w : W} {c : C} (h : Balanced answered worker client (w :: ready))
    (held : client c = .held) :
    Balanced answered (Function.update worker w (.assigned c))
      (Function.update client c (.served w)) ready where
  ready_nodup := (List.nodup_cons.mp h.ready_nodup).2
  ready_iff := by
    intro v
    have hv := h.ready_iff v
    rw [List.mem_cons] at hv
    rw [Function.update_apply]
    split
    case isTrue heq =>
      apply iff_of_false
      · exact heq ▸ (List.nodup_cons.mp h.ready_nodup).1
      · exact nofun
    case isFalse hne => rw [← hv, or_iff_right hne]
  served := by
    intro v d hclient
    rw [Function.update_apply] at hclient
    split at hclient
    case isTrue heq =>
      obtain rfl := Option.some.inj hclient
      rw [heq, Function.update_self]
    case isFalse _ =>
      have hserved := h.served v d hclient
      rw [Function.update_of_ne]
      · exact hserved
      · rintro rfl
        rw [held] at hserved
        cases hserved
  answered_nodup := h.answered_nodup
  answered_iff := by
    intro d
    rw [h.answered_iff, Function.update_apply]
    split
    case isTrue heq => simp [heq, held]
    case isFalse _ => exact Iff.rfl

/-- A client's reply is read: nobody serves it any more. -/
theorem Balanced.collect (h : Balanced answered worker client ready) {w : W} {c : C}
    (replies : worker w = .replying c) :
    Balanced answered (Function.update worker w .idle)
      (Function.update client c (.returning w)) (ready ++ [w]) := by
  have hserved : client c = .served w := h.served w c (by rw [replies]; rfl)
  have busy : worker w ≠ .idle := by simp [replies]
  have joined := h.join busy
  refine ⟨joined.ready_nodup, joined.ready_iff, ?_, h.answered_nodup, ?_⟩
  · intro v d hclient
    have hold := joined.served v d hclient
    rw [Function.update_of_ne]
    · exact hold
    · rintro rfl
      rw [hserved, Standing.served.injEq] at hold
      rw [← hold, Function.update_self] at hclient
      cases hclient
  · intro d
    rw [h.answered_iff, Function.update_apply]
    split
    case isTrue heq => simp [heq, hserved]
    case isFalse _ => exact Iff.rfl

/-- Every step keeps the invariant. -/
theorem Balanced.step {answered out : List C} {s t : State W C} {e : Event W C}
    (h : Balanced answered s.worker s.client s.ready)
    (taken : Balancer.step s e = some (t, out)) :
    Balanced (answered ++ out) t.worker t.client t.ready := by
  cases e with
  | announce w =>
      simp only [Balancer.step] at taken
      split at taken
      case h_2 => cases taken
      case h_1 away =>
        cases taken
        rw [List.append_nil]
        exact h.place (by simp [away]) (by simp) (by simp [Place.client?])
  | register w =>
      simp only [Balancer.step] at taken
      split at taken
      case h_2 => cases taken
      case h_1 announcing =>
        cases taken
        rw [List.append_nil]
        exact h.join (by simp [announcing])
  | ask c =>
      simp only [Balancer.step] at taken
      split at taken
      case h_2 => cases taken
      case h_1 away =>
        cases taken
        rw [List.append_nil]
        exact h.standing (by simp [away]) (by simp [away]) (by simp)
  | hold c =>
      simp only [Balancer.step] at taken
      split at taken
      case h_2 => cases taken
      case h_1 asking =>
        cases taken
        rw [List.append_nil]
        exact h.standing (by simp [asking]) (by simp [asking]) (by simp)
  | assign c =>
      simp only [Balancer.step] at taken
      split at taken
      case h_2 => cases taken
      case h_1 w rest held ready =>
        cases taken
        rw [List.append_nil]
        rw [ready] at h
        exact h.assign held
  | take w =>
      simp only [Balancer.step] at taken
      split at taken
      case h_2 => cases taken
      case h_1 c assigned =>
        cases taken
        rw [List.append_nil]
        exact h.place (by simp [assigned]) (by simp) (by simp [Place.client?, assigned])
  | finish w =>
      simp only [Balancer.step] at taken
      split at taken
      case h_2 => cases taken
      case h_1 c working =>
        cases taken
        rw [List.append_nil]
        exact h.place (by simp [working]) (by simp) (by simp [Place.client?, working])
  | collect w =>
      simp only [Balancer.step] at taken
      split at taken
      case h_2 => cases taken
      case h_1 c replying =>
        cases taken
        rw [List.append_nil]
        exact h.collect replying
  | answer c =>
      simp only [Balancer.step] at taken
      split at taken
      case h_2 => cases taken
      case h_1 w returning =>
        cases taken
        exact h.answer returning

theorem balanced_of_run {es : List (Event W C)} {answered : List C} {s : State W C}
    (run : (machine : Machine (State W C) (Event W C) C).Run es answered s) :
    Balanced answered s.worker s.client s.ready := by
  induction run with
  | start =>
      constructor <;> simp [machine, init, Place.client?]
  | extend prior taken ih => exact ih.step taken

end Balancer
