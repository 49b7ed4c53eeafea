/-
# Machines that finish

A rank that every step lowers bounds the length of every run, and a machine that
can always take a step until a goal is reached then reaches it however its events
are chosen. The rank may speak of an abstract machine as well, so that a refinement
is proved and the runs are bounded in one induction.

What a machine does only with the help of its surroundings is said of the machine
restricted to the events in which they help, and what it does from then on, of the machine
that goes on in the state it has reached. A rank is mostly a sum over the parties,
of which a step changes one.
-/

import Mathlib.Algebra.BigOperators.Group.List.Basic
import Mathlib.Algebra.Ring.Nat
import ZmqTest.Lib.Machine

universe u v w

namespace Machine

variable {State : Type u} {Event : Type v} {Output : Type w} {m : Machine State Event Output}

/-- When one party of a list without duplicates changes, a sum over them changes by what
that party adds to it. -/
theorem sum_map_update {Key Part : Type*} [DecidableEq Key] (weight : Part → Nat)
    (parts : Key → Part) {keys : List Key} (nodup : keys.Nodup) {key : Key} (hmem : key ∈ keys)
    (part : Part) :
    (keys.map fun k => weight (Function.update parts key part k)).sum + weight (parts key) =
      (keys.map fun k => weight (parts k)).sum + weight part := by
  have others : (keys.erase key).map (fun k => weight (Function.update parts key part k)) =
      (keys.erase key).map fun k => weight (parts k) := by
    apply List.map_congr_left
    intro k hk
    have hne : k ≠ key := fun heq => nodup.not_mem_erase (heq ▸ hk)
    rw [Function.update_of_ne hne]
  rw [← List.sum_map_erase _ hmem, ← List.sum_map_erase (fun k => weight (parts k)) hmem, others,
    Function.update_self]
  omega

/-- When a party for which nothing is there changes, something is still there for another. -/
theorem any_update {Key Part : Type*} [DecidableEq Key] (waits : Part → Bool) (parts : Key → Part)
    {keys : List Key} {key : Key} {part : Part} (idle : waits (parts key) = false)
    (h : keys.any (fun k => waits (parts k)) = true) :
    keys.any (fun k => waits (Function.update parts key part k)) = true := by
  obtain ⟨k, hmem, hwaits⟩ := List.any_eq_true.mp h
  have hne : k ≠ key := by
    rintro rfl
    rw [idle] at hwaits
    cases hwaits
  refine List.any_eq_true.mpr ⟨k, hmem, ?_⟩
  rwa [Function.update_of_ne hne]

/-- The machine that takes only events that meet a condition on the state before them. -/
def restrict (m : Machine State Event Output) (P : State → Event → Prop)
    [∀ s e, Decidable (P s e)] : Machine State Event Output where
  init := m.init
  step := fun s e => if P s e then m.step s e else none

theorem step_restrict {P : State → Event → Prop} [∀ s e, Decidable (P s e)] {s t : State}
    {e : Event} {out : List Output} :
    (m.restrict P).step s e = some (t, out) ↔ P s e ∧ m.step s e = some (t, out) :=
  Option.ite_none_right_eq_some

/-- The restricted machine adds no run. -/
theorem Run.of_restrict {P : State → Event → Prop} [∀ s e, Decidable (P s e)] {es : List Event}
    {os : List Output} {s : State} (run : (m.restrict P).Run es os s) : m.Run es os s := by
  induction run with
  | start => exact Run.start
  | extend prior taken ih => exact ih.extend (step_restrict.mp taken).2

/-- The machine that goes on in a given state. -/
def resume (m : Machine State Event Output) (s : State) : Machine State Event Output where
  init := s
  step := m.step

theorem exec_resume {s t : State} {es : List Event} : (m.resume s).exec t es = m.exec t es := by
  induction es generalizing t with
  | nil => rfl
  | cons e es ih => simp only [exec, resume, ← ih]

theorem Run.append_resumed {s : State} {es : List Event} {os : List Output}
    (run : m.Run es os s) {fs : List Event} {outs : List Output} {t : State}
    (more : (m.resume s).Run fs outs t) : m.Run (es ++ fs) (os ++ outs) t := by
  induction more with
  | start =>
      rw [List.append_nil, List.append_nil]
      exact run
  | extend prior taken ih =>
      rw [← List.append_assoc, ← List.append_assoc]
      exact ih.extend taken

/-- The refinement rule with a rank: every step emits what it may, is what some events of
the other machine are, seen abstractly, and lowers the rank of the two states together. -/
theorem Run.refine_ranked {Abstract Event' Output' : Type*}
    {spec : Machine Abstract Event' Output'} (view : Output → Option Output')
    (Rel : State → Abstract → Prop) (Ok : Output → Prop) (rank : State → Abstract → Nat)
    (init : Rel m.init spec.init)
    (step : ∀ s a e t out, Rel s a → m.step s e = some (t, out) →
      (∀ o ∈ out, Ok o) ∧ ∃ fs b, spec.exec a fs = some (b, out.filterMap view) ∧ Rel t b ∧
        rank t b < rank s a)
    {es : List Event} {os : List Output} {s : State} (run : m.Run es os s) :
    (∀ o ∈ os, Ok o) ∧ ∃ es' a, spec.Run es' (os.filterMap view) a ∧ Rel s a ∧
      es.length + rank s a ≤ rank m.init spec.init := by
  induction run with
  | start => exact ⟨by simp, [], spec.init, Run.start, init, Nat.le_of_eq (Nat.zero_add _)⟩
  | extend prior taken ih =>
      obtain ⟨earlier, es', a, matched, related, bound⟩ := ih
      obtain ⟨last, fs, b, hexec, next, lower⟩ := step _ _ _ _ _ related taken
      refine ⟨?_, es' ++ fs, b, ?_, next, ?_⟩
      · exact fun o hmem => (List.mem_append.mp hmem).elim (earlier o) (last o)
      · rw [List.filterMap_append]
        exact matched.append_exec hexec
      · rw [List.length_append, List.length_singleton]
        omega

/-- No step can be taken. -/
def Stuck (m : Machine State Event Output) (s : State) : Prop := ∀ e, m.step s e = none

/-- What is allowed in a state in which a restricted machine is stuck cannot be done there. -/
theorem Stuck.not_isSome {P : State → Event → Prop} [∀ s e, Decidable (P s e)] {s : State}
    {e : Event} (stuck : (m.restrict P).Stuck s) (allowed : P s e) : ¬ (m.step s e).isSome := by
  intro enabled
  obtain ⟨⟨t, out⟩, taken⟩ := Option.isSome_iff_exists.mp enabled
  have both : (m.restrict P).step s e = some (t, out) := step_restrict.mpr ⟨allowed, taken⟩
  rw [stuck e] at both
  cases both

/-- However its events are chosen, the machine comes to an end, and then the goal is
reached. -/
structure Finishes (m : Machine State Event Output) (bound : Nat)
    (Goal : List Output → State → Prop) : Prop where
  bounded : ∀ es os s, m.Run es os s → es.length ≤ bound
  goal : ∀ es os s, m.Run es os s → m.Stuck s → Goal os s

/-- An event of a kind can be taken, after some few of other kinds. -/
def MovesOn (m : Machine State Event Output) (own : Event → Bool) (pace : Nat) (s : State) :
    Prop :=
  ∃ before e t rest, before.length ≤ pace ∧ before.countP own = 0 ∧ own e = true ∧
    m.exec s (before ++ [e]) = some (t, rest)

section

variable {own : Event → Bool} {pace : Nat} {s t : State} {e : Event} {out : List Output}

theorem movesOn_of_step (kind : own e = true) (taken : m.step s e = some (t, out)) :
    m.MovesOn own 0 s :=
  ⟨[], e, t, out, Nat.le_refl 0, rfl, kind, exec_singleton taken⟩

theorem MovesOn.mono (h : m.MovesOn own pace s) {slower : Nat} (le : pace ≤ slower) :
    m.MovesOn own slower s := by
  obtain ⟨before, e, t, rest, few, others, kind, hexec⟩ := h
  exact ⟨before, e, t, rest, Nat.le_trans few le, others, kind, hexec⟩

/-- One step of another kind may come first. -/
theorem MovesOn.after (h : m.MovesOn own pace t) (other : own e = false)
    (taken : m.step s e = some (t, out)) : m.MovesOn own (pace + 1) s := by
  obtain ⟨before, last, u, rest, few, others, kind, hexec⟩ := h
  refine ⟨e :: before, last, u, out ++ rest, Nat.succ_le_succ few, ?_, kind, ?_⟩
  · rw [List.countP_cons_of_neg (by simp [other])]
    exact others
  · exact exec_cons_eq_some.mpr ⟨t, out, rest, taken, hexec, rfl⟩

end

/-- The rule for goals that can be reached: wherever the goal is not reached, some few
events lower a rank. -/
theorem Run.reaches {Goal : State → Prop} {rank : State → Nat} {pace : Nat}
    (moves : ∀ es os s, m.Run es os s → ¬ Goal s →
      ∃ fs rest t, m.exec s fs = some (t, rest) ∧ fs.length ≤ pace ∧ rank t < rank s)
    {es : List Event} {os : List Output} {s : State} (run : m.Run es os s) :
    ∃ fs rest t, m.exec s fs = some (t, rest) ∧ Goal t ∧ fs.length ≤ pace * rank s := by
  by_cases reached : Goal s
  · exact ⟨[], [], s, rfl, reached, Nat.zero_le _⟩
  · obtain ⟨first, out, t, hfirst, few, lower⟩ := moves es os s run reached
    obtain ⟨fs, rest, u, hrest, goal, short⟩ := (run.append_exec hfirst).reaches moves
    refine ⟨first ++ fs, out ++ rest, u, exec_append hfirst hrest, goal, ?_⟩
    calc (first ++ fs).length = first.length + fs.length := List.length_append
      _ ≤ pace + pace * rank t := Nat.add_le_add few short
      _ = pace * (rank t + 1) := by rw [Nat.mul_succ, Nat.add_comm]
      _ ≤ pace * rank s := Nat.mul_le_mul_left pace lower
termination_by rank s

end Machine
