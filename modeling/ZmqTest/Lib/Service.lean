/-
# Clients that are served one request at a time

What a request-reply service is for, apart from how its messages travel. A client asks,
one of the servers takes the request and serves it, and the client is answered; only
then it asks again, until it has been answered as often as it wants to be. The trail of
a client is what happens to its requests, in order.
-/

import Mathlib.Algebra.BigOperators.Group.Finset.Basic
import Mathlib.Algebra.Ring.Nat
import Mathlib.Logic.Function.Basic
import ZmqTest.Lib.Machine

universe u v

namespace Service

variable {Client : Type u} {Server : Type v}

/-- What happens to a request. -/
inductive Mark (Server : Type v)
  | asked
  | taken (server : Server)
  | served (server : Server)
  | answered
  deriving DecidableEq

/-- How far the current request of a client is. -/
inductive Stage (Server : Type v)
  | idle
  | asking
  | taken (server : Server)
  | served (server : Server)
  deriving DecidableEq

/-- A client with the servers of its past requests. -/
structure Standing (Server : Type v) where
  rounds : List Server
  stage : Stage Server

/-- The trail of one request. -/
def round (server : Server) : List (Mark Server) :=
  [.asked, .taken server, .served server, .answered]

/-- The trail of a client whose requests are all answered. -/
def conversation (rounds : List Server) : List (Mark Server) := rounds.flatMap round

/-- The trail of a request that is not answered yet. -/
def Stage.marks : Stage Server → List (Mark Server)
  | .idle => []
  | .asking => [.asked]
  | .taken server => [.asked, .taken server]
  | .served server => [.asked, .taken server, .served server]

def Standing.trail (st : Standing Server) : List (Mark Server) :=
  conversation st.rounds ++ st.stage.marks

theorem conversation_concat (rounds : List Server) (server : Server) :
    conversation (rounds ++ [server]) = conversation rounds ++ round server := by
  simp [conversation]

/-- The next mark on the trail of a client that asks `limit` times. -/
def Standing.mark [DecidableEq Server] (limit : Nat) (st : Standing Server) :
    Mark Server → Option (Standing Server)
  | .asked =>
      if st.stage = .idle ∧ st.rounds.length < limit then some { st with stage := .asking }
      else none
  | .taken server =>
      if st.stage = .asking then some { st with stage := .taken server } else none
  | .served server =>
      if st.stage = .taken server then some { st with stage := .served server } else none
  | .answered =>
      match st.stage with
      | .served server => some { rounds := st.rounds ++ [server], stage := .idle }
      | _ => none

/-- The service: an event leaves a mark on the trail of one of the clients. -/
def machine [DecidableEq Client] [DecidableEq Server] (clients : Finset Client) (limit : Nat) :
    Machine (Client → Standing Server) (Client × Mark Server) (Client × Mark Server) where
  init := fun _ => { rounds := [], stage := .idle }
  step := fun a (client, mark) =>
    if client ∈ clients then
      ((a client).mark limit mark).map fun st => (Function.update a client st, [(client, mark)])
    else none

/-- The requests of a client that asks `limit` times. -/
structure Standing.Within (limit : Nat) (st : Standing Server) : Prop where
  rounds : st.rounds.length ≤ limit
  current : st.stage ≠ .idle → st.rounds.length < limit

/-- The marks that are still to come. -/
def Standing.left (limit : Nat) (st : Standing Server) : Nat :=
  4 * (limit - st.rounds.length) - st.stage.marks.length

theorem Standing.mark_spec [DecidableEq Server] {limit : Nat} {st next : Standing Server}
    {mark : Mark Server} (h : st.mark limit mark = some next) (within : st.Within limit) :
    next.trail = st.trail ++ [mark] ∧ next.Within limit ∧
      next.left limit + 1 = st.left limit := by
  obtain ⟨rounds, stage⟩ := st
  cases mark with
  | asked =>
      simp only [Standing.mark, Option.ite_none_right_eq_some, Option.some.injEq] at h
      obtain ⟨⟨rfl, more⟩, rfl⟩ := h
      refine ⟨by simp [Standing.trail, Stage.marks], ⟨within.rounds, fun _ => more⟩, ?_⟩
      simp only [Standing.left, Stage.marks, List.length_cons, List.length_nil]
      omega
  | taken server =>
      simp only [Standing.mark, Option.ite_none_right_eq_some, Option.some.injEq] at h
      obtain ⟨rfl, rfl⟩ := h
      have more := within.current (by simp)
      refine ⟨by simp [Standing.trail, Stage.marks], ⟨within.rounds, fun _ => more⟩, ?_⟩
      simp only [Standing.left, Stage.marks, List.length_cons, List.length_nil] at more ⊢
      omega
  | served server =>
      simp only [Standing.mark, Option.ite_none_right_eq_some, Option.some.injEq] at h
      obtain ⟨rfl, rfl⟩ := h
      have more := within.current (by simp)
      refine ⟨by simp [Standing.trail, Stage.marks], ⟨within.rounds, fun _ => more⟩, ?_⟩
      simp only [Standing.left, Stage.marks, List.length_cons, List.length_nil] at more ⊢
      omega
  | answered =>
      cases stage with
      | served server =>
          simp only [Standing.mark, Option.some.injEq] at h
          subst next
          have more := within.current (by simp)
          refine ⟨?_, ⟨by simpa using Nat.succ_le_of_lt more, by simp⟩, ?_⟩
          · simp [Standing.trail, Stage.marks, conversation_concat, round]
          · simp only [Standing.left, Stage.marks, List.length_append, List.length_cons,
              List.length_nil] at more ⊢
            omega
      | _ => simp [Standing.mark] at h

/-- The marks of one client. -/
def trailOf [DecidableEq Client] (client : Client) (os : List (Client × Mark Server)) :
    List (Mark Server) :=
  os.filterMap fun (other, mark) => if other = client then some mark else none

section

variable [DecidableEq Client] [DecidableEq Server] {clients : Finset Client} {limit : Nat}
  {os : List (Client × Mark Server)} {a b : Client → Standing Server}

/-- The one step there is. -/
theorem step_eq_some {e : Client × Mark Server} {out : List (Client × Mark Server)}
    (h : (machine clients limit).step a e = some (b, out)) :
    e.1 ∈ clients ∧ out = [e] ∧ ∃ st, (a e.1).mark limit e.2 = some st ∧
      b = Function.update a e.1 st := by
  simp only [machine, Option.ite_none_right_eq_some, Option.map_eq_some_iff,
    Prod.mk.injEq] at h
  obtain ⟨known, st, hst, rfl, rfl⟩ := h
  exact ⟨known, rfl, st, hst, rfl⟩

theorem exec_mark {client : Client} {mark : Mark Server} {st : Standing Server}
    (known : client ∈ clients) (h : (a client).mark limit mark = some st) :
    (machine clients limit).exec a [(client, mark)] =
      some (Function.update a client st, [(client, mark)]) := by
  apply Machine.exec_singleton
  simp [machine, known, h]

/-- The trails of all clients are those of their standings. -/
def Trails (limit : Nat) (os : List (Client × Mark Server)) (a : Client → Standing Server) :
    Prop :=
  ∀ client, trailOf client os = (a client).trail ∧ (a client).Within limit

theorem trails_of_run {es : List (Client × Mark Server)}
    (run : (machine clients limit).Run es os a) : Trails limit os a := by
  apply run.output_invariant
  · exact fun _ => ⟨rfl, ⟨Nat.zero_le _, by simp [machine]⟩⟩
  · intro os a e b out trails taken client
    obtain ⟨-, rfl, st, hst, rfl⟩ := step_eq_some taken
    obtain ⟨htrail, within⟩ := trails client
    by_cases heq : e.1 = client
    · subst client
      obtain ⟨next, inside, -⟩ := Standing.mark_spec hst within
      rw [Function.update_self, next, ← htrail]
      exact ⟨by simp [trailOf], inside⟩
    · rw [Function.update_of_ne (Ne.symm heq), ← htrail]
      exact ⟨by simp [trailOf, heq], within⟩

/-- The marks that are still to come, over all clients. -/
def left (clients : Finset Client) (limit : Nat) (a : Client → Standing Server) : Nat :=
  ∑ client ∈ clients, (a client).left limit

/-- One mark on the trail of one client leaves one mark less to come. -/
theorem left_update {client : Client} {mark : Mark Server} {st : Standing Server}
    (known : client ∈ clients) (within : (a client).Within limit)
    (h : (a client).mark limit mark = some st) :
    left clients limit (Function.update a client st) + 1 = left clients limit a := by
  obtain ⟨-, -, less⟩ := Standing.mark_spec h within
  have others : ∀ other ∈ clients.erase client,
      (Function.update a client st other).left limit = (a other).left limit := by
    intro other hmem
    rw [Function.update_of_ne (Finset.ne_of_mem_erase hmem)]
  rw [left, left, ← Finset.add_sum_erase clients _ known, ← Finset.add_sum_erase clients _ known,
    Finset.sum_congr rfl others, Function.update_self]
  omega

/-- Four marks for every request of every client. -/
theorem left_init :
    left clients limit (machine clients limit : Machine (Client → Standing Server) _ _).init =
      4 * limit * clients.card := by
  rw [Nat.mul_comm]
  exact Finset.sum_const_nat fun _ _ => rfl

end

end Service
