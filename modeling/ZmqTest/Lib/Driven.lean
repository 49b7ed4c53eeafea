/-
# Machines in an environment

An environment offers inputs to a machine: which ones depends on the inputs it
has offered and on the outputs it has seen. A machine that waits for an input is
handed the events it consists of and takes them one after the other. Two
machines that understand the same inputs, each in its own events, are compared
by driving both with one environment.
-/

import ZmqTest.Lib.Machine

universe u v w

/-- Who offers the inputs, and how it goes on with what comes back. -/
structure Environment (Env : Type u) (Input : Type v) (Output : Type w) where
  init : Env
  offers : Env → Input → Bool
  after : Env → Input → List Output → Env

namespace Machine

variable {Env Input Output : Type*} {State₁ State₂ Event₁ Event₂ : Type*}

/-- Take the events of an input; `encode` gives them when they are waited for. -/
def respond {State Event : Type*} (m : Machine State Event Output)
    (encode : State → Input → Option (List Event)) (s : State) (input : Input) :
    Option (State × List Output) :=
  match encode s input with
  | none => none
  | some es => m.exec s es

/-- The machine with its environment. -/
def driven {State Event : Type*} (m : Machine State Event Output)
    (world : Environment Env Input Output) (encode : State → Input → Option (List Event)) :
    Machine (State × Env) Input Output where
  init := (m.init, world.init)
  step := fun (s, env) input =>
    if world.offers env input then
      match m.respond encode s input with
      | none => none
      | some (t, out) => some ((t, world.after env input out), out)
    else none

section

variable {State Event : Type*} {m : Machine State Event Output}
  {world : Environment Env Input Output} {encode : State → Input → Option (List Event)}

theorem step_driven {s t : State} {env later : Env} {input : Input} {out : List Output} :
    (m.driven world encode).step (s, env) input = some ((t, later), out) ↔
      world.offers env input ∧ m.respond encode s input = some (t, out) ∧
        later = world.after env input out := by
  simp only [driven, Option.ite_none_right_eq_some]
  cases m.respond encode s input with
  | none => simp
  | some r =>
      obtain ⟨u, outs⟩ := r
      simp only [Option.some.injEq, Prod.mk.injEq]
      constructor
      · rintro ⟨offered, ⟨rfl, rfl⟩, rfl⟩
        exact ⟨offered, ⟨rfl, rfl⟩, rfl⟩
      · rintro ⟨offered, ⟨rfl, rfl⟩, rfl⟩
        exact ⟨offered, ⟨rfl, rfl⟩, rfl⟩

end

/-- Two machines agree on every input of the environment as long as they are
related, and they stay related until the first is finished, when it takes no
input any more. -/
structure Agree (m₁ : Machine State₁ Event₁ Output) (m₂ : Machine State₂ Event₂ Output)
    (world : Environment Env Input Output) (encode₁ : State₁ → Input → Option (List Event₁))
    (encode₂ : State₂ → Input → Option (List Event₂))
    (Rel : List Output → State₁ → Env → State₂ → Prop)
    (Finished : List Output → State₁ → Prop) : Prop where
  init : Rel [] m₁.init world.init m₂.init
  step : ∀ {os s env t input}, Rel os s env t → world.offers env input →
    (m₁.respond encode₁ s input = none ∧ m₂.respond encode₂ t input = none) ∨
      ∃ s' t' out, m₁.respond encode₁ s input = some (s', out) ∧
        m₂.respond encode₂ t input = some (t', out) ∧
        (Rel (os ++ out) s' (world.after env input out) t' ∨ Finished (os ++ out) s')
  finished : ∀ {os s input}, Finished os s → m₁.respond encode₁ s input = none

variable {m₁ : Machine State₁ Event₁ Output} {m₂ : Machine State₂ Event₂ Output}
  {world : Environment Env Input Output} {encode₁ : State₁ → Input → Option (List Event₁)}
  {encode₂ : State₂ → Input → Option (List Event₂)}
  {Rel : List Output → State₁ → Env → State₂ → Prop} {Finished : List Output → State₁ → Prop}

/-- What the first machine does the second does. -/
theorem Agree.forward (agree : Agree m₁ m₂ world encode₁ encode₂ Rel Finished)
    {inputs : List Input} {os : List Output} {p : State₁ × Env}
    (run : (m₁.driven world encode₁).Run inputs os p) :
    ∃ t, (m₂.driven world encode₂).Run inputs os (t, p.2) ∧
      (Rel os p.1 p.2 t ∨ Finished os p.1) := by
  induction run with
  | start => exact ⟨m₂.init, Run.start, Or.inl agree.init⟩
  | @extend inputs os p q input out prior taken ih =>
      obtain ⟨t, matched, related⟩ := ih
      obtain ⟨offered, hexec, hlater⟩ := step_driven.mp taken
      cases related with
      | inr finished => rw [agree.finished finished] at hexec; cases hexec
      | inl related =>
          rcases agree.step related offered with ⟨hnone, -⟩ | ⟨s', t', out', hs, ht, next⟩
          · rw [hnone] at hexec
            cases hexec
          · rw [hs, Option.some.injEq, Prod.mk.injEq] at hexec
            obtain ⟨hstate, rfl⟩ := hexec
            rw [hstate, ← hlater] at next
            exact ⟨t', matched.extend (step_driven.mpr ⟨offered, ht, hlater⟩), next⟩

/-- What the second machine does the first does, or it is finished after a part
of the inputs and has done the same for them. -/
theorem Agree.backward (agree : Agree m₁ m₂ world encode₁ encode₂ Rel Finished)
    {inputs : List Input} {os : List Output} {q : State₂ × Env}
    (run : (m₂.driven world encode₂).Run inputs os q) :
    (∃ s, (m₁.driven world encode₁).Run inputs os (s, q.2) ∧ Rel os s q.2 q.1) ∨
      ∃ first rest done later p, inputs = first ++ rest ∧ os = done ++ later ∧
        (m₁.driven world encode₁).Run first done p ∧ Finished done p.1 := by
  induction run with
  | start => exact Or.inl ⟨m₁.init, Run.start, agree.init⟩
  | @extend inputs os q r input out prior taken ih =>
      rcases ih with ⟨s, matched, related⟩ | ⟨first, rest, done, later, p, rfl, rfl, hrun, hfin⟩
      · obtain ⟨offered, hexec, hlater⟩ := step_driven.mp taken
        rcases agree.step related offered with ⟨-, hnone⟩ | ⟨s', t', out', hs, ht, next⟩
        · rw [hnone] at hexec
          cases hexec
        · rw [ht, Option.some.injEq, Prod.mk.injEq] at hexec
          obtain ⟨hstate, rfl⟩ := hexec
          rw [hstate, ← hlater] at next
          have extended := matched.extend (step_driven.mpr ⟨offered, hs, hlater⟩)
          cases next with
          | inl related => exact Or.inl ⟨s', extended, related⟩
          | inr finished =>
              exact Or.inr ⟨inputs ++ [input], [], os ++ out', [], _, by simp, by simp,
                extended, finished⟩
      · exact Or.inr ⟨first, rest ++ [input], done, later ++ out, p, by simp, by simp,
          hrun, hfin⟩

end Machine
