/-
# What carries messages between the ends of a system

A conduit accepts items at any time and lets each of them out again once, after steps of
its own. Its contract says what it holds: the items it has accepted and not let out. It
can take a step as long as it holds an item, and a rank bounds the steps it takes, with
a cost for every item. A system is proved about the contract, and a proxy or a broker
is shown to keep it.

Where every key has one letter under way at most, what is under way is a list without
repetitions whose members are the letters of the keys.
-/

import Mathlib.Data.List.Nodup
import Mathlib.Data.List.Perm.Basic
import Mathlib.Logic.Function.Basic

universe u v w

/-- A component that carries items, with its contract. -/
structure Conduit (State : Type u) (Event : Type v) (Item : Type w) where
  init : State
  accept : State → Item → State
  /-- A step of its own, with the items it lets out. -/
  step : State → Event → Option (State × List Item)
  /-- The items that may be given to it. -/
  Admits : Item → Prop
  /-- The state holds the items, in some order. -/
  Holds : State → List Item → Prop
  rank : State → Nat
  cost : Item → Nat
  holds_init : Holds init []
  holds_accept {s : State} {items : List Item} {item : Item} (holds : Holds s items)
    (admits : Admits item) : Holds (accept s item) (item :: items)
  rank_accept (s : State) (item : Item) : rank (accept s item) ≤ rank s + cost item
  holds_step {s t : State} {items out : List Item} {e : Event} (holds : Holds s items)
    (taken : step s e = some (t, out)) :
    (∃ left, Holds t left ∧ items.Perm (out ++ left)) ∧ rank t < rank s
  progress {s : State} {items : List Item} (holds : Holds s items) (some_item : items ≠ []) :
    ∃ e t out, step s e = some (t, out)

namespace Conduit

variable {Item : Type w}

/-- Items that are passed on whole, one at a time and in any order. -/
def bag : Conduit (List Item) Nat Item where
  init := []
  accept := fun items item => item :: items
  step := fun items index =>
    match items[index]? with
    | none => none
    | some item => some (items.eraseIdx index, [item])
  Admits := fun _ => True
  Holds := fun held items => held = items
  rank := List.length
  cost := fun _ => 1
  holds_init := rfl
  holds_accept := fun holds _ => by rw [holds]
  rank_accept := fun _ _ => Nat.le_refl _
  holds_step := by
    rintro held left _ out index rfl taken
    split at taken
    case h_1 => cases taken
    case h_2 item hget =>
      obtain ⟨hlt, hget⟩ := List.getElem?_eq_some_iff.mp hget
      simp only [Option.some.injEq, Prod.mk.injEq] at taken
      obtain ⟨rfl, rfl⟩ := taken
      refine ⟨⟨_, rfl, ?_⟩, ?_⟩
      · rw [← hget]
        exact (List.getElem_cons_eraseIdx_perm hlt).symm
      · rw [List.length_eraseIdx_of_lt hlt]
        omega
  progress := by
    rintro held _ rfl some_item
    obtain ⟨item, more, rfl⟩ := List.exists_cons_of_ne_nil some_item
    exact ⟨0, more, [item], rfl⟩

end Conduit

/-- The letters of the keys are under way, each once, and nothing else is. -/
structure Carries {Key : Type u} {Letter : Type v} (letter : Key → Option Letter)
    (traffic : List Letter) : Prop where
  nodup : traffic.Nodup
  mem_iff : ∀ item, item ∈ traffic ↔ ∃ key, letter key = some item

namespace Carries

variable {Key : Type u} {Letter : Type v} {letter : Key → Option Letter}
  {traffic other : List Letter} {key : Key} {item : Letter}

theorem perm (h : Carries letter traffic) (same : traffic.Perm other) : Carries letter other :=
  ⟨same.nodup_iff.mp h.nodup, fun item => same.mem_iff.symm.trans (h.mem_iff item)⟩

theorem mem (h : Carries letter traffic) (mine : letter key = some item) : item ∈ traffic :=
  (h.mem_iff item).mpr ⟨key, mine⟩

variable [DecidableEq Key]

/-- A key that has no letter is given one. -/
theorem post (h : Carries letter traffic) (silent : letter key = none)
    (fresh : ∀ k, letter k ≠ some item) :
    Carries (Function.update letter key (some item)) (item :: traffic) := by
  have absent : item ∉ traffic := by
    intro hmem
    obtain ⟨k, hk⟩ := (h.mem_iff item).mp hmem
    exact fresh k hk
  refine ⟨List.nodup_cons.mpr ⟨absent, h.nodup⟩, fun found => ?_⟩
  rw [List.mem_cons]
  constructor
  · rintro (rfl | hmem)
    · exact ⟨key, Function.update_self _ _ _⟩
    · obtain ⟨k, hk⟩ := (h.mem_iff found).mp hmem
      refine ⟨k, ?_⟩
      rw [Function.update_of_ne, hk]
      rintro rfl
      rw [silent] at hk
      cases hk
  · rintro ⟨k, hk⟩
    by_cases heq : k = key
    · subst k
      rw [Function.update_self, Option.some.injEq] at hk
      exact Or.inl hk.symm
    · rw [Function.update_of_ne heq] at hk
      exact Or.inr (h.mem hk)

/-- The letter of a key is taken. -/
theorem take (h : Carries letter (item :: traffic)) (mine : letter key = some item)
    (only : ∀ k, letter k = some item → k = key) :
    Carries (Function.update letter key none) traffic := by
  obtain ⟨absent, nodup⟩ := List.nodup_cons.mp h.nodup
  refine ⟨nodup, fun found => ?_⟩
  constructor
  · intro hmem
    obtain ⟨k, hk⟩ := (h.mem_iff found).mp (List.mem_cons_of_mem _ hmem)
    refine ⟨k, ?_⟩
    rw [Function.update_of_ne, hk]
    rintro rfl
    rw [mine, Option.some.injEq] at hk
    exact absent (hk ▸ hmem)
  · rintro ⟨k, hk⟩
    have hne : k ≠ key := by
      rintro rfl
      rw [Function.update_self] at hk
      cases hk
    rw [Function.update_of_ne hne] at hk
    refine (List.mem_cons.mp (h.mem hk)).resolve_left fun heq => ?_
    exact hne (only k (heq ▸ hk))

end Carries
