/-
# Partial machines and their runs

A machine takes events one at a time and emits outputs. An event that is not
enabled in a state has no successor there, so the choice of events is the whole
nondeterminism of the machine: a schedule of several parties, what a network
does and what a clock shows are all events. A run is a finite list of events
taken from the initial state together with everything that was emitted.

Runs extend at their end, which is the shape every invariant proof needs. The
executable runner is the same relation read from the front; it is what a
concrete run is computed with.
-/

import Mathlib.Data.List.Basic
import Mathlib.Logic.Function.Basic

universe u v w

/-- A partial deterministic machine with outputs. `step s e = none` says that
`e` cannot happen in `s`. -/
structure Machine (State : Type u) (Event : Type v) (Output : Type w) where
  /-- The state a run starts from. -/
  init : State
  /-- The successor of an enabled event, with what the step emits, in order. -/
  step : State → Event → Option (State × List Output)

/-- Two families that are related pointwise stay so when both change at one key. -/
theorem related_update {Key : Type*} {A B : Type*} [DecidableEq Key]
    (Rel : Key → A → B → Prop) {f : Key → A} {g : Key → B} {key : Key} {a : A} {b : B}
    (h : ∀ k, Rel k (f k) (g k)) (new : Rel key a b) :
    ∀ k, Rel k (Function.update f key a k) (Function.update g key b k) := by
  intro k
  by_cases heq : k = key
  · subst k
    rw [Function.update_self, Function.update_self]
    exact new
  · rw [Function.update_of_ne heq, Function.update_of_ne heq]
    exact h k

namespace Machine

variable {State : Type u} {Event : Type v} {Output : Type w}

/-- The finite runs of a machine, with the events taken and the outputs emitted. -/
inductive Run (m : Machine State Event Output) :
    List Event → List Output → State → Prop
  | /-- Nothing has happened yet. -/
    start : Run m [] [] m.init
  | /-- One more enabled event. -/
    extend {es : List Event} {os : List Output} {s t : State} {e : Event}
      {out : List Output} (prior : Run m es os s) (taken : m.step s e = some (t, out)) :
      Run m (es ++ [e]) (os ++ out) t

variable {m : Machine State Event Output}

/-- Take the events of a list in turn. -/
def exec (m : Machine State Event Output) (s : State) :
    List Event → Option (State × List Output)
  | [] => some (s, [])
  | e :: es =>
      match m.step s e with
      | none => none
      | some (t, out) =>
          match exec m t es with
          | none => none
          | some (u, outs) => some (u, out ++ outs)

theorem exec_cons_eq_some {s u : State} {e : Event} {es : List Event}
    {outs : List Output} :
    m.exec s (e :: es) = some (u, outs) ↔
      ∃ t out rest, m.step s e = some (t, out) ∧ m.exec t es = some (u, rest) ∧
        outs = out ++ rest := by
  constructor
  · intro h
    cases hstep : m.step s e with
    | none => simp [exec, hstep] at h
    | some r =>
        obtain ⟨t, out⟩ := r
        cases hrest : m.exec t es with
        | none => simp [exec, hstep, hrest] at h
        | some q =>
            obtain ⟨v, rest⟩ := q
            simp only [exec, hstep, hrest, Option.some.injEq, Prod.mk.injEq] at h
            obtain ⟨rfl, rfl⟩ := h
            exact ⟨t, out, rest, rfl, hrest, rfl⟩
  · rintro ⟨t, out, rest, hstep, hrest, rfl⟩
    simp [exec, hstep, hrest]

/-- One event is executed by its step. -/
theorem exec_singleton {s t : State} {e : Event} {out : List Output}
    (h : m.step s e = some (t, out)) : m.exec s [e] = some (t, out) :=
  exec_cons_eq_some.mpr ⟨t, out, [], h, rfl, (List.append_nil out).symm⟩

/-- Executing two lists of events one after the other is executing both. -/
theorem exec_append {s t u : State} {es fs : List Event} {os rest : List Output}
    (first : m.exec s es = some (t, os)) (second : m.exec t fs = some (u, rest)) :
    m.exec s (es ++ fs) = some (u, os ++ rest) := by
  induction es generalizing s os with
  | nil =>
      simp only [exec, Option.some.injEq, Prod.mk.injEq] at first
      obtain ⟨rfl, rfl⟩ := first
      exact second
  | cons e es ih =>
      obtain ⟨v, out, outs, hstep, hexec, rfl⟩ := exec_cons_eq_some.mp first
      rw [List.cons_append, exec_cons_eq_some]
      exact ⟨v, out, outs ++ rest, hstep, ih hexec, List.append_assoc _ _ _⟩

/-- A list of events is executed up to any point of it, and from there. -/
theorem exec_append_eq_some {s u : State} {es fs : List Event} {outs : List Output} :
    m.exec s (es ++ fs) = some (u, outs) ↔
      ∃ t os rest, m.exec s es = some (t, os) ∧ m.exec t fs = some (u, rest) ∧
        outs = os ++ rest := by
  constructor
  · intro h
    induction es generalizing s outs with
    | nil => exact ⟨s, [], outs, rfl, h, rfl⟩
    | cons e es ih =>
        obtain ⟨t, out, rest, hstep, hexec, rfl⟩ := exec_cons_eq_some.mp h
        obtain ⟨v, os, last, hfirst, hlast, rfl⟩ := ih hexec
        have first := exec_cons_eq_some.mpr ⟨t, out, os, hstep, hfirst, rfl⟩
        exact ⟨v, out ++ os, last, first, hlast, (List.append_assoc _ _ _).symm⟩
  · rintro ⟨t, os, rest, first, second, rfl⟩
    exact exec_append first second

/-- A run goes on with whatever its last state can execute. -/
theorem Run.append_exec {es fs : List Event} {os outs : List Output} {s t : State}
    (run : m.Run es os s) (rest : m.exec s fs = some (t, outs)) :
    m.Run (es ++ fs) (os ++ outs) t := by
  induction fs generalizing es os s outs with
  | nil =>
      simp only [exec, Option.some.injEq, Prod.mk.injEq] at rest
      obtain ⟨rfl, rfl⟩ := rest
      simpa using run
  | cons e fs ih =>
      obtain ⟨u, out, outs, hstep, hrest, rfl⟩ := exec_cons_eq_some.mp rest
      have next := ih (run.extend hstep) hrest
      simpa using next

/-- An execution from the initial state is a run. -/
theorem run_of_exec {es : List Event} {os : List Output} {s : State}
    (h : m.exec m.init es = some (s, os)) : m.Run es os s := by
  simpa using Run.start.append_exec h

/-- What is computed of an execution holds of a run. -/
theorem run_of_map_exec {Value : Type*} {es : List Event} {see : State × List Output → Value}
    {value : Value} (h : (m.exec m.init es).map see = some value) :
    ∃ os s, m.Run es os s ∧ see (s, os) = value := by
  cases hexec : m.exec m.init es with
  | none => simp [hexec] at h
  | some r =>
      obtain ⟨s, os⟩ := r
      rw [hexec, Option.map_some, Option.some.injEq] at h
      exact ⟨os, s, run_of_exec hexec, h⟩

/-- A run is an execution: the two descriptions agree. -/
theorem Run.exec_eq {es : List Event} {os : List Output} {s : State}
    (run : m.Run es os s) : m.exec m.init es = some (s, os) := by
  induction run with
  | start => rfl
  | extend prior taken ih => exact exec_append ih (exec_singleton taken)

/-- The events of a run determine its outputs and its last state. -/
theorem Run.unique {es : List Event} {os os' : List Output} {s s' : State}
    (first : m.Run es os s) (second : m.Run es os' s') : s = s' ∧ os = os' := by
  have h := first.exec_eq.symm.trans second.exec_eq
  simpa using h

/-- A run is taken up to any point of it, and from there. -/
theorem Run.exists_prefix {es fs : List Event} {os : List Output} {s : State}
    (run : m.Run (es ++ fs) os s) :
    ∃ t first rest, m.Run es first t ∧ m.exec t fs = some (s, rest) ∧ os = first ++ rest := by
  obtain ⟨t, first, rest, hfirst, hrest, heq⟩ := exec_append_eq_some.mp run.exec_eq
  exact ⟨t, first, rest, run_of_exec hfirst, hrest, heq⟩

/-- The event after a part of a run is taken in the state that part reaches. -/
theorem Run.next {before after : List Event} {e : Event} {first os : List Output} {s t : State}
    (run : m.Run (before ++ e :: after) os s) (prior : m.Run before first t) :
    ∃ u out rest, m.step t e = some (u, out) ∧ m.exec u after = some (s, rest) ∧
      os = first ++ (out ++ rest) := by
  obtain ⟨v, start, last, hprior, hexec, rfl⟩ := run.exists_prefix
  obtain ⟨rfl, rfl⟩ := hprior.unique prior
  obtain ⟨u, out, rest, taken, hrest, rfl⟩ := exec_cons_eq_some.mp hexec
  exact ⟨u, out, rest, taken, hrest, rfl⟩

/-! ## Invariants -/

/-- The invariant rule: what holds at the start and survives every step holds in
every state a run reaches. -/
theorem Run.invariant {Inv : State → Prop} (init : Inv m.init)
    (step : ∀ s e t out, Inv s → m.step s e = some (t, out) → Inv t)
    {es : List Event} {os : List Output} {s : State} (run : m.Run es os s) : Inv s := by
  induction run with
  | start => exact init
  | extend prior taken ih => exact step _ _ _ _ ih taken

/-- The invariant rule for properties that also speak of what has been emitted. -/
theorem Run.output_invariant {Inv : List Output → State → Prop} (init : Inv [] m.init)
    (step : ∀ os s e t out, Inv os s → m.step s e = some (t, out) → Inv (os ++ out) t)
    {es : List Event} {os : List Output} {s : State} (run : m.Run es os s) :
    Inv os s := by
  induction run with
  | start => exact init
  | extend prior taken ih => exact step _ _ _ _ _ ih taken

/-- The rule for logs: what the outputs of every step say of the outputs before them,
every output of a run says of those before it. -/
theorem Run.outputs_meet {P : List Output → Output → Prop}
    (step : ∀ es os s e t out, m.Run es os s → m.step s e = some (t, out) →
      ∀ first o rest, out = first ++ o :: rest → P (os ++ first) o)
    {es : List Event} {os : List Output} {s : State} (run : m.Run es os s)
    {before after : List Output} {o : Output} (heq : os = before ++ o :: after) :
    P before o := by
  induction run generalizing after with
  | start => simp at heq
  | @extend es os s t e out prior taken ih =>
      rcases List.append_eq_append_iff.mp heq with ⟨first, rfl, hout⟩ | ⟨rest, hos, hrest⟩
      · exact step es os s e t out prior taken first o after hout
      · cases rest with
        | nil =>
            have hbefore : os = before := by simpa using hos
            have hP := step es os s e t out prior taken [] o after hrest.symm
            rwa [List.append_nil, hbefore] at hP
        | cons head rest =>
            obtain ⟨rfl, -⟩ := List.cons.inj hrest
            exact ih hos

/-- The ranking rule: when the steps that are counted lower a rank and the others do
not raise it, the rank of the first state bounds their number. -/
theorem Run.countP_add_rank_le {Inv : State → Prop} {rank : State → Nat} {own : Event → Bool}
    (reached : ∀ es os s, m.Run es os s → Inv s)
    (step : ∀ s e t out, Inv s → m.step s e = some (t, out) →
      rank t + (if own e then 1 else 0) ≤ rank s)
    {es : List Event} {os : List Output} {s : State} (run : m.Run es os s) :
    es.countP own + rank s ≤ rank m.init := by
  induction run with
  | start => simp
  | extend prior taken ih =>
      have lower := step _ _ _ _ (reached _ _ _ prior) taken
      rw [List.countP_append, List.countP_singleton]
      omega

/-- What a part of the state sees of a run is a run of the machine whose steps
the part takes. -/
theorem Run.project {Part Event' Output' : Type*} {part : Machine Part Event' Output'}
    (see : State → Part) (init : see m.init = part.init)
    (step : ∀ s e t out, m.step s e = some (t, out) →
      see t = see s ∨ ∃ e' out', part.step (see s) e' = some (see t, out'))
    {es : List Event} {os : List Output} {s : State} (run : m.Run es os s) :
    ∃ es' os', part.Run es' os' (see s) := by
  induction run with
  | start => exact ⟨[], [], init ▸ Run.start⟩
  | extend prior taken ih =>
      obtain ⟨es', os', seen⟩ := ih
      cases step _ _ _ _ taken with
      | inl same => exact ⟨es', os', same ▸ seen⟩
      | inr moved =>
          obtain ⟨e', out', moved⟩ := moved
          exact ⟨es' ++ [e'], os' ++ out', seen.extend moved⟩

/-- What a part of the state sees of a run, and what the part emits in it, is a run of the
machine whose steps the part takes. -/
theorem Run.component {Part Event' Output' : Type*} {part : Machine Part Event' Output'}
    (see : State → Part) (view : Output → Option Output') (init : see m.init = part.init)
    (step : ∀ s e t out, m.step s e = some (t, out) →
      (see t = see s ∧ out.filterMap view = []) ∨
        ∃ e', part.step (see s) e' = some (see t, out.filterMap view))
    {es : List Event} {os : List Output} {s : State} (run : m.Run es os s) :
    ∃ es', part.Run es' (os.filterMap view) (see s) := by
  induction run with
  | start => exact ⟨[], init ▸ Run.start⟩
  | extend prior taken ih =>
      obtain ⟨es', seen⟩ := ih
      rw [List.filterMap_append]
      rcases step _ _ _ _ taken with ⟨same, silent⟩ | ⟨e', moved⟩
      · exact ⟨es', by rwa [same, silent, List.append_nil]⟩
      · exact ⟨es' ++ [e'], seen.extend moved⟩

/-- The simulation rule: when every step from related states is matched by some
events of the other machine, every run is matched by a run of it. -/
theorem Run.simulate {Abstract Event' Output' : Type*}
    {spec : Machine Abstract Event' Output'}
    (Rel : List Output → State → List Output' → Abstract → Prop)
    (init : Rel [] m.init [] spec.init)
    (step : ∀ os s es' os' a e t out, spec.Run es' os' a → Rel os s os' a →
      m.step s e = some (t, out) →
      ∃ fs out' b, spec.exec a fs = some (b, out') ∧ Rel (os ++ out) t (os' ++ out') b)
    {es : List Event} {os : List Output} {s : State} (run : m.Run es os s) :
    ∃ es' os' a, spec.Run es' os' a ∧ Rel os s os' a := by
  induction run with
  | start => exact ⟨[], [], spec.init, Run.start, init⟩
  | extend prior taken ih =>
      obtain ⟨es', os', a, matched, related⟩ := ih
      obtain ⟨fs, out', b, hexec, hrel⟩ := step _ _ _ _ _ _ _ _ matched related taken
      exact ⟨es' ++ fs, os' ++ out', b, matched.append_exec hexec, hrel⟩

/-- The refinement rule: when what every step emits is, seen abstractly, what some
events of the other machine emit, then so is what every run emits. -/
theorem Run.refine {Abstract Event' Output' : Type*}
    {spec : Machine Abstract Event' Output'} (view : Output → Output')
    (Rel : State → Abstract → Prop) (init : Rel m.init spec.init)
    (step : ∀ s a e t out, Rel s a → m.step s e = some (t, out) →
      ∃ fs b, spec.exec a fs = some (b, out.map view) ∧ Rel t b)
    {es : List Event} {os : List Output} {s : State} (run : m.Run es os s) :
    ∃ es' a, spec.Run es' (os.map view) a ∧ Rel s a := by
  have simulated : ∃ es' os' a, spec.Run es' os' a ∧ (os' = os.map view ∧ Rel s a) := by
    apply run.simulate fun os s os' a => os' = os.map view ∧ Rel s a
    · exact ⟨rfl, init⟩
    · rintro os s es' os' a e t out matched ⟨rfl, related⟩ taken
      obtain ⟨fs, b, hexec, hrel⟩ := step s a e t out related taken
      exact ⟨fs, _, b, hexec, List.map_append.symm, hrel⟩
  obtain ⟨es', os', a, matched, rfl, related⟩ := simulated
  exact ⟨es', a, matched, related⟩

/-! ## Runs whose steps all meet a condition -/

/-- Every step of the run on `es` meets `P`, a condition on an event and on the
state before it. -/
def StepsMeet (m : Machine State Event Output) (P : State → Event → Prop)
    (es : List Event) : Prop :=
  ∀ before e after os s, es = before ++ e :: after → m.Run before os s → P s e

theorem StepsMeet.prior {P : State → Event → Prop} {es : List Event} {e : Event}
    (h : m.StepsMeet P (es ++ [e])) : m.StepsMeet P es := by
  intro before f after os s heq
  exact h before f (after ++ [e]) os s (by simp [heq])

theorem StepsMeet.last {P : State → Event → Prop} {es : List Event} {e : Event}
    (h : m.StepsMeet P (es ++ [e])) {os : List Output} {s : State}
    (run : m.Run es os s) : P s e :=
  h es e [] os s rfl run

/-- Conditions that agree on the events of a run are both met by it or neither. -/
theorem stepsMeet_congr_on {P Q : State → Event → Prop} {es : List Event}
    (h : ∀ e ∈ es, ∀ s, P s e ↔ Q s e) : m.StepsMeet P es ↔ m.StepsMeet Q es := by
  have mem {before after : List Event} {e : Event} (heq : es = before ++ e :: after) : e ∈ es := by
    rw [heq]
    exact List.mem_append_right before List.mem_cons_self
  constructor
  · intro meets before e after os s heq prior
    exact (h e (mem heq) s).mp (meets before e after os s heq prior)
  · intro meets before e after os s heq prior
    exact (h e (mem heq) s).mpr (meets before e after os s heq prior)

/-- Conditions that agree everywhere are met by the same runs. -/
theorem stepsMeet_congr {P Q : State → Event → Prop} (h : ∀ s e, P s e ↔ Q s e)
    {es : List Event} : m.StepsMeet P es ↔ m.StepsMeet Q es :=
  stepsMeet_congr_on fun e _ s => h s e

/-- The steps of a longer run: those of the shorter one, and the last. -/
theorem Run.stepsMeet_concat {P : State → Event → Prop} {es : List Event} {os : List Output}
    {s : State} (prior : m.Run es os s) (e : Event) :
    m.StepsMeet P (es ++ [e]) ↔ m.StepsMeet P es ∧ P s e := by
  constructor
  · exact fun meets => ⟨meets.prior, meets.last prior⟩
  · rintro ⟨meets, last⟩ before f after os' s' heq run
    rcases List.eq_nil_or_concat' after with rfl | ⟨rest, g, rfl⟩
    · obtain ⟨rfl, hlast⟩ := List.append_inj' heq rfl
      obtain ⟨rfl, -⟩ := List.cons.inj hlast
      rw [(run.unique prior).1]
      exact last
    · have hinit : es = before ++ f :: rest := by
        rw [← List.cons_append, ← List.append_assoc] at heq
        exact (List.append_inj' heq rfl).1
      exact meets before f rest os' s' hinit run

/-- The excess rule: when steps that meet a condition add as much to one count of the
outputs as to another, and the other steps add more to the first, then the first count
is not ahead exactly in the runs whose steps all meet the condition. -/
theorem Run.countP_le_iff_stepsMeet {P : State → Event → Prop} {first second : Output → Bool}
    (meets : ∀ s e t out, P s e → m.step s e = some (t, out) →
      out.countP first = out.countP second)
    (breaks : ∀ s e t out, ¬ P s e → m.step s e = some (t, out) →
      out.countP second < out.countP first)
    {es : List Event} {os : List Output} {s : State} (run : m.Run es os s) :
    os.countP first ≤ os.countP second ↔ m.StepsMeet P es := by
  have counted : os.countP second ≤ os.countP first ∧
      (os.countP first ≤ os.countP second ↔ m.StepsMeet P es) := by
    induction run with
    | start => exact ⟨Nat.le_refl _, iff_of_true (Nat.le_refl _) (by simp [StepsMeet])⟩
    | @extend es os s t e out prior taken ih =>
        obtain ⟨behind, iff⟩ := ih
        rw [prior.stepsMeet_concat, ← iff, List.countP_append, List.countP_append]
        by_cases h : P s e
        · have same := meets s e t out h taken
          exact ⟨by omega, by simp only [h, and_true]; omega⟩
        · have more := breaks s e t out h taken
          exact ⟨by omega, by simp only [h, and_false, iff_false]; omega⟩
  exact counted.2

/-- Check the condition along the steps that can be taken. -/
def checkSteps (m : Machine State Event Output) (P : State → Event → Prop)
    [∀ s e, Decidable (P s e)] (s : State) : List Event → Bool
  | [] => true
  | e :: es =>
      decide (P s e) &&
        match m.step s e with
        | none => true
        | some (t, _) => checkSteps m P t es

theorem checkSteps_meets {P : State → Event → Prop} [∀ s e, Decidable (P s e)]
    {before after : List Event} {e : Event} {s t : State} {os : List Output}
    (h : m.checkSteps P s (before ++ e :: after)) (hexec : m.exec s before = some (t, os)) :
    P t e := by
  induction before generalizing s os with
  | nil =>
      simp only [exec, Option.some.injEq, Prod.mk.injEq] at hexec
      simp only [List.nil_append, checkSteps, Bool.and_eq_true, decide_eq_true_eq] at h
      exact hexec.1 ▸ h.1
  | cons f before ih =>
      obtain ⟨u, out, rest, hstep, hrest, -⟩ := exec_cons_eq_some.mp hexec
      simp only [List.cons_append, checkSteps, hstep, Bool.and_eq_true] at h
      exact ih h.2 hrest

/-- A condition that is checked is met. -/
theorem stepsMeet_of_check {P : State → Event → Prop} [∀ s e, Decidable (P s e)]
    {es : List Event} (h : m.checkSteps P m.init es) : m.StepsMeet P es := by
  intro before e after os s heq prior
  exact checkSteps_meets (heq ▸ h) prior.exec_eq

/-- The invariant rule along runs whose steps all meet a condition. -/
theorem Run.invariant_of_stepsMeet {P : State → Event → Prop}
    {Inv : List Output → State → Prop} (init : Inv [] m.init)
    (step : ∀ os s e t out, Inv os s → P s e → m.step s e = some (t, out) →
      Inv (os ++ out) t)
    {es : List Event} {os : List Output} {s : State} (run : m.Run es os s)
    (meets : m.StepsMeet P es) : Inv os s := by
  induction run with
  | start => exact init
  | extend prior taken ih =>
      exact step _ _ _ _ _ (ih meets.prior) (meets.last prior) taken

/-- The events of an execution, each with what its step emits, in order. -/
def log (m : Machine State Event Output) (s : State) :
    List Event → List (Event × List Output)
  | [] => []
  | e :: es =>
      match m.step s e with
      | none => []
      | some (t, out) => (e, out) :: log m t es

/-- The log of an execution, and behind it the log of what follows. -/
theorem log_append {s t : State} {es fs : List Event} {os : List Output}
    (first : m.exec s es = some (t, os)) : m.log s (es ++ fs) = m.log s es ++ m.log t fs := by
  induction es generalizing s os with
  | nil =>
      simp only [exec, Option.some.injEq, Prod.mk.injEq] at first
      rw [first.1]
      rfl
  | cons e es ih =>
      obtain ⟨u, out, rest, hstep, hexec, -⟩ := exec_cons_eq_some.mp first
      simp only [List.cons_append, log, hstep, ih hexec]

/-- One more step is one more entry of the log. -/
theorem Run.log_concat {es : List Event} {os out : List Output} {s t : State} {e : Event}
    (prior : m.Run es os s) (taken : m.step s e = some (t, out)) :
    m.log m.init (es ++ [e]) = m.log m.init es ++ [(e, out)] := by
  have last : m.log s [e] = [(e, out)] := by simp only [log, taken]
  rw [log_append prior.exec_eq, last]

/-- The machine together with a variable that notes what its steps do and has no
influence on them. -/
def observe {History : Type*} (m : Machine State Event Output) (start : History)
    (note : History → State → Event → State → History) :
    Machine (State × History) Event Output where
  init := (m.init, start)
  step := fun (s, past) e =>
    match m.step s e with
    | none => none
    | some (t, out) => some ((t, note past s e t), out)

variable {History : Type*} {start past later : History}
  {note : History → State → Event → State → History}

theorem step_of_observe {s t : State} {e : Event} {out : List Output}
    (h : (m.observe start note).step (s, past) e = some ((t, later), out)) :
    m.step s e = some (t, out) ∧ later = note past s e t := by
  simp only [observe] at h
  split at h
  case h_1 => cases h
  case h_2 u os hstep =>
    simp only [Option.some.injEq, Prod.mk.injEq] at h
    obtain ⟨⟨rfl, rfl⟩, rfl⟩ := h
    exact ⟨hstep, rfl⟩

/-- Observing a machine takes no run away from it. -/
theorem Run.observe {es : List Event} {os : List Output} {s : State} (run : m.Run es os s)
    (start : History) (note : History → State → Event → State → History) :
    ∃ past, (m.observe start note).Run es os (s, past) := by
  induction run with
  | start => exact ⟨start, Run.start⟩
  | @extend es os s t e out prior taken ih =>
      obtain ⟨past, observed⟩ := ih
      refine ⟨note past s e t, observed.extend ?_⟩
      simp [Machine.observe, taken]

/-- Observing a machine adds no run to it. -/
theorem Run.of_observe {es : List Event} {os : List Output} {pair : State × History}
    (run : (m.observe start note).Run es os pair) : m.Run es os pair.1 := by
  induction run with
  | start => exact Run.start
  | extend prior taken ih => exact ih.extend (step_of_observe taken).1

end Machine
