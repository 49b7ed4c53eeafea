/-
# Texts that can be told apart

A printer is delimited when what it prints can be told from whatever is printed behind it:
two texts that start with a printed value start with the same value. Values of one length
are delimited, texts with a mark behind them that they do not contain, and sequences of
delimited values. A list of delimited values is then determined by its text, and a list of
groups by the marks between them.
-/

import Mathlib.Data.List.Basic
import Mathlib.Logic.Function.Basic

universe u v w

namespace Delimited

variable {Value : Type u} {Other : Type v} {Symbol : Type w}

/-- What is printed of a value ends where it ends. -/
def Ends (print : Value → List Symbol) : Prop :=
  ∀ ⦃first second : Value⦄ ⦃rest more : List Symbol⦄,
    print first ++ rest = print second ++ more → first = second ∧ rest = more

variable {print : Value → List Symbol} {other : Other → List Symbol}

/-- Texts of one length end where they end. -/
theorem ends_of_length {length : Nat} (each : ∀ value, (print value).length = length)
    (inj : Function.Injective print) : Ends print := by
  intro first second rest more h
  obtain ⟨same, hrest⟩ := List.append_inj h ((each first).trans (each second).symm)
  exact ⟨inj same, hrest⟩

/-- A text ends at the first mark when it does not contain any. -/
theorem append_mark {mark : Symbol} {first second rest more : List Symbol}
    (hfirst : mark ∉ first) (hsecond : mark ∉ second)
    (h : first ++ mark :: rest = second ++ mark :: more) : first = second ∧ rest = more := by
  induction first generalizing second with
  | nil =>
      cases second with
      | nil => exact ⟨rfl, (List.cons.inj h).2⟩
      | cons symbol second => exact absurd (List.cons.inj h).1 (List.ne_of_not_mem_cons hsecond)
  | cons symbol first ih =>
      cases second with
      | nil => exact absurd (List.cons.inj h).1.symm (List.ne_of_not_mem_cons hfirst)
      | cons next second =>
          obtain ⟨rfl, htail⟩ := List.cons.inj h
          obtain ⟨rfl, hrest⟩ := ih (List.not_mem_of_not_mem_cons hfirst)
            (List.not_mem_of_not_mem_cons hsecond) htail
          exact ⟨rfl, hrest⟩

theorem ends_of_mark {mark : Symbol} (free : ∀ value, mark ∉ print value)
    (inj : Function.Injective print) : Ends fun value => print value ++ [mark] := by
  intro first second rest more h
  rw [List.append_assoc, List.append_assoc] at h
  obtain ⟨same, hrest⟩ := append_mark (free first) (free second) h
  exact ⟨inj same, hrest⟩

theorem Ends.prefixed (h : Ends print) (text : List Symbol) :
    Ends fun value => text ++ print value := by
  intro first second rest more heq
  rw [List.append_assoc, List.append_assoc] at heq
  exact h (List.append_cancel_left heq)

/-- One value behind the other. -/
theorem Ends.pair (h : Ends print) (hother : Ends other) :
    Ends fun values : Value × Other => print values.1 ++ other values.2 := by
  intro first second rest more heq
  rw [List.append_assoc, List.append_assoc] at heq
  obtain ⟨hfirst, htail⟩ := h heq
  obtain ⟨hsecond, hrest⟩ := hother htail
  exact ⟨Prod.ext hfirst hsecond, hrest⟩

theorem Ends.comp (h : Ends print) {see : Other → Value} (inj : Function.Injective see) :
    Ends fun value => print (see value) := by
  intro first second rest more heq
  obtain ⟨same, hrest⟩ := h heq
  exact ⟨inj same, hrest⟩

/-- Values of either kind, when the first symbols tell the kinds apart. -/
theorem Ends.sum (h : Ends print) (hother : Ends other) {a b : Symbol} (ne : a ≠ b)
    (starts : ∀ value, ∃ tail, print value = a :: tail)
    (otherStarts : ∀ value, ∃ tail, other value = b :: tail) : Ends (Sum.elim print other) := by
  have apart : ∀ value next rest more, print value ++ rest ≠ other next ++ more := by
    intro value next rest more heq
    obtain ⟨tail, htail⟩ := starts value
    obtain ⟨last, hlast⟩ := otherStarts next
    rw [htail, hlast] at heq
    exact ne (List.cons.inj heq).1
  intro first second rest more heq
  cases first with
  | inl value =>
      cases second with
      | inl next =>
          obtain ⟨same, hrest⟩ := h heq
          exact ⟨congrArg _ same, hrest⟩
      | inr next => exact absurd heq (apart value next rest more)
  | inr value =>
      cases second with
      | inl next => exact absurd heq.symm (apart next value more rest)
      | inr next =>
          obtain ⟨same, hrest⟩ := hother heq
          exact ⟨congrArg _ same, hrest⟩

/-- A list of values is determined by its text. -/
theorem Ends.flatMap_injective (h : Ends print) (nonempty : ∀ value, print value ≠ []) :
    Function.Injective (List.flatMap print) := by
  intro first
  induction first with
  | nil =>
      intro second heq
      cases second with
      | nil => rfl
      | cons value second =>
          rw [List.flatMap_cons] at heq
          exact absurd (List.append_eq_nil_iff.mp heq.symm).1 (nonempty value)
  | cons value first ih =>
      intro second heq
      cases second with
      | nil =>
          rw [List.flatMap_cons] at heq
          exact absurd (List.append_eq_nil_iff.mp heq).1 (nonempty value)
      | cons next second =>
          rw [List.flatMap_cons, List.flatMap_cons] at heq
          obtain ⟨rfl, hrest⟩ := h heq
          rw [ih hrest]

/-- A group: a head, and the members behind it. -/
def group (block : Value × List Other) : List (Value ⊕ Other) :=
  .inl block.1 :: block.2.map .inr

/-- Members do not run over into the next group. -/
theorem map_inr_append {first second : List Other} {rest more : List (Value × List Other)}
    (h : first.map Sum.inr ++ rest.flatMap group = second.map Sum.inr ++ more.flatMap group) :
    first = second ∧ rest.flatMap group = more.flatMap group := by
  induction first generalizing second with
  | nil =>
      cases second with
      | nil => exact ⟨rfl, h⟩
      | cons member second => cases rest <;> simp [group] at h
  | cons member first ih =>
      cases second with
      | nil => cases more <;> simp [group] at h
      | cons next second =>
          obtain ⟨hmember, htail⟩ := List.cons.inj h
          obtain ⟨rfl, hrest⟩ := ih htail
          exact ⟨congrArg (· :: first) (Sum.inr.inj hmember), hrest⟩

/-- Groups that are put together come apart in one way. -/
theorem flatMap_group_injective :
    Function.Injective (List.flatMap (group : Value × List Other → _)) := by
  intro first
  induction first with
  | nil =>
      intro second h
      cases second with
      | nil => rfl
      | cons block second => simp [group] at h
  | cons block first ih =>
      intro second h
      cases second with
      | nil => simp [group] at h
      | cons next second =>
          rw [List.flatMap_cons, List.flatMap_cons, group, group, List.cons_append,
            List.cons_append] at h
          obtain ⟨hhead, htail⟩ := List.cons.inj h
          obtain ⟨hmembers, hrest⟩ := map_inr_append htail
          rw [Prod.ext (Sum.inl.inj hhead) hmembers, ih hrest]

end Delimited
