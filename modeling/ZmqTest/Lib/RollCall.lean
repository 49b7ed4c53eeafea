/-
# Asking until dismissed

The members of a group ask a coordinator, each one question at a time, and are
answered one after the other. Some answers are last ones: whoever gets one asks no
more. The machine keeps for each member how far it is in this round; what its runs
say about the questions and the answers of a member is read off that stage. A
coordinator that only counts its last answers therefore knows when it has dismissed
the whole group.
-/

import Mathlib.Data.List.Count
import Mathlib.Data.List.Nodup
import Mathlib.Logic.Function.Basic
import ZmqTest.Lib.Machine

universe u v

namespace RollCall

/-- How far a member is: about to ask, its question waiting, its question before the
coordinator, with an answer, with a last answer, gone. -/
inductive Stage
  | asking
  | queued
  | handling
  | answered
  | dismissed
  | gone
  deriving DecidableEq

inductive Event (Member : Type u) (Answer : Type v)
  | ask (member : Member)
  | take (member : Member)
  | answer (member : Member) (answer : Answer)
  | resume (member : Member)
  | leave (member : Member)

/-- What passes between the members and the coordinator. -/
inductive Entry (Member : Type u) (Answer : Type v)
  | asked (member : Member)
  | answered (member : Member) (answer : Answer)
  deriving DecidableEq

section

variable {Member : Type u} {Answer : Type v} (last : Answer → Bool)

def Event.member : Event Member Answer → Member
  | .ask who => who
  | .take who => who
  | .answer who _ => who
  | .resume who => who
  | .leave who => who

/-- The stage a member is in when something happens to it. -/
def Event.source : Event Member Answer → Stage
  | .ask _ => .asking
  | .take _ => .queued
  | .answer _ _ => .handling
  | .resume _ => .answered
  | .leave _ => .dismissed

/-- The stage it goes to. -/
def Event.target : Event Member Answer → Stage
  | .ask _ => .queued
  | .take _ => .handling
  | .answer _ given => if last given then .dismissed else .answered
  | .resume _ => .asking
  | .leave _ => .gone

def Event.entries : Event Member Answer → List (Entry Member Answer)
  | .ask who => [.asked who]
  | .answer who given => [.answered who given]
  | _ => []

/-- A question of the member has no answer yet. -/
def Stage.waiting : Stage → Nat
  | .queued => 1
  | .handling => 1
  | _ => 0

/-- The member has a last answer. -/
def Stage.out : Stage → Bool
  | .dismissed => true
  | .gone => true
  | _ => false

variable [DecidableEq Member]

/-- A group in which every member is about to ask. -/
def rollCall : Machine (Member → Stage) (Event Member Answer) (Entry Member Answer) where
  init := fun _ => .asking
  step := fun stage e =>
    if stage e.member = e.source then
      some (Function.update stage e.member (e.target last), e.entries)
    else none

/-- How often a member has asked. -/
def asks (os : List (Entry Member Answer)) (member : Member) : Nat :=
  os.countP fun
    | .asked other => other = member
    | .answered _ _ => false

/-- How often a member has been answered. -/
def answers (os : List (Entry Member Answer)) (member : Member) : Nat :=
  os.countP fun
    | .asked _ => false
    | .answered other _ => other = member

/-- How often a member has been given a last answer. -/
def dismissals (os : List (Entry Member Answer)) (member : Member) : Nat :=
  os.countP fun
    | .asked _ => false
    | .answered other answer => other = member && last answer

/-- A member that is out counts for one last answer. -/
def Stage.dismissals (stage : Stage) : Nat := if stage.out then 1 else 0

/-- The entries of a run, member by member: every question but the one that waits has
been answered, the members that are out have been given one last answer, and nobody
is answered after it. -/
structure Tally (os : List (Entry Member Answer)) (stage : Member → Stage) : Prop where
  asked : ∀ member, asks os member = answers os member + (stage member).waiting
  dismissed : ∀ member, dismissals last os member = (stage member).dismissals
  quiet : os.Pairwise fun first later => ∀ member answer other,
    first = .answered member answer → last answer = true → later ≠ .answered member other

variable {last} {stage next : Member → Stage} {e : Event Member Answer}
  {os out : List (Entry Member Answer)}

theorem step_eq_some :
    (rollCall last).step stage e = some (next, out) ↔
      stage e.member = e.source ∧ next = Function.update stage e.member (e.target last) ∧
        out = e.entries := by
  simp only [rollCall, Option.ite_none_right_eq_some, Option.some.injEq, Prod.mk.injEq]
  exact ⟨fun ⟨h, heq, hout⟩ => ⟨h, heq.symm, hout.symm⟩,
    fun ⟨h, heq, hout⟩ => ⟨h, heq.symm, hout.symm⟩⟩

variable (last) in
/-- An event happens to a member at its stage. -/
theorem exec_event (e : Event Member Answer) (source : stage e.member = e.source) :
    (rollCall last).exec stage [e] =
      some (Function.update stage e.member (e.target last), e.entries) :=
  Machine.exec_singleton (step_eq_some.mpr ⟨source, rfl, rfl⟩)

/-- Who has been given a last answer is out. -/
theorem Tally.out_of_mem (h : Tally last os stage) {member : Member} {answer : Answer}
    (hmem : .answered member answer ∈ os) (hlast : last answer = true) :
    (stage member).out = true := by
  have hpos : 0 < dismissals last os member :=
    List.countP_pos_iff.mpr ⟨_, hmem, by simp [hlast]⟩
  rw [h.dismissed] at hpos
  by_contra hout
  simp [Stage.dismissals, hout] at hpos

variable (last) in
/-- What an event adds to the questions and answers of its member. -/
theorem Event.waiting_target (e : Event Member Answer) :
    asks e.entries e.member + e.source.waiting =
      answers e.entries e.member + (e.target last).waiting := by
  cases e with
  | answer who given =>
      cases hlast : last given <;>
        simp [asks, answers, Event.entries, Event.member, Event.source, Event.target, hlast,
          Stage.waiting]
  | _ => simp [asks, answers, Event.entries, Event.member, Event.source, Event.target,
      Stage.waiting]

variable (last) in
theorem Event.dismissals_target (e : Event Member Answer) :
    dismissals last e.entries e.member + e.source.dismissals =
      (e.target last).dismissals := by
  cases e with
  | answer who given =>
      cases hlast : last given <;>
        simp [RollCall.dismissals, Event.entries, Event.member, Event.source, Event.target, hlast,
          Stage.dismissals, Stage.out]
  | _ => simp [RollCall.dismissals, Event.entries, Event.source, Event.target, Stage.dismissals,
      Stage.out]

variable (last) in
/-- And to those of the others: nothing. -/
theorem Event.entries_of_ne {member : Member} (hne : e.member ≠ member) :
    asks e.entries member = 0 ∧ answers e.entries member = 0 ∧
      dismissals last e.entries member = 0 := by
  cases e with
  | ask who | answer who =>
      have hwho : who ≠ member := hne
      simp [asks, answers, RollCall.dismissals, Event.entries, hwho]
  | take | resume | leave => exact ⟨rfl, rfl, rfl⟩

theorem Tally.step (h : Tally last os stage)
    (taken : (rollCall last).step stage e = some (next, out)) : Tally last (os ++ out) next := by
  obtain ⟨source, rfl, rfl⟩ := step_eq_some.mp taken
  refine ⟨?_, ?_, ?_⟩
  · intro member
    have hasked := h.asked member
    rw [asks, answers, List.countP_append, List.countP_append, ← asks, ← answers, ← asks, ← answers]
    by_cases same : e.member = member
    · have hevent := e.waiting_target last
      rw [← same, source] at hasked
      rw [← same, Function.update_self]
      omega
    · obtain ⟨hnoasks, hnoanswers, -⟩ := Event.entries_of_ne last same
      rw [Function.update_of_ne (Ne.symm same)]
      omega
  · intro member
    have hdismissed := h.dismissed member
    rw [dismissals, List.countP_append, ← dismissals, ← dismissals]
    by_cases same : e.member = member
    · have hevent := e.dismissals_target last
      rw [← same, source] at hdismissed
      rw [← same, Function.update_self]
      omega
    · obtain ⟨-, -, hnone⟩ := Event.entries_of_ne last same
      rw [Function.update_of_ne (Ne.symm same)]
      omega
  · rw [List.pairwise_append]
    refine ⟨h.quiet, ?_, ?_⟩
    · cases e <;> simp [Event.entries]
    · rintro first hfirst later hlater member given other rfl hlast rfl
      have hout := h.out_of_mem hfirst hlast
      cases e <;> simp [Event.entries] at hlater
      obtain ⟨rfl, rfl⟩ := hlater
      rw [show stage member = .handling from source] at hout
      cases hout

theorem tally_of_run {es : List (Event Member Answer)}
    (run : (rollCall last).Run es os stage) : Tally last os stage := by
  apply run.output_invariant
  · exact ⟨fun _ => rfl, fun _ => rfl, List.Pairwise.nil⟩
  · exact fun _ _ _ _ _ h taken => Tally.step h taken

/-- A member that goes out is one more. -/
theorem countP_update {members : List Member} {member : Member} {stage : Member → Stage}
    {target : Stage} (nodup : members.Nodup) (hmem : member ∈ members)
    (before : (stage member).out = false) (after : target.out = true) :
    members.countP (fun other => (Function.update stage member target other).out) =
      members.countP (fun other => (stage other).out) + 1 := by
  induction members with
  | nil => cases hmem
  | cons first rest ih =>
      obtain ⟨hnot, hrest⟩ := List.nodup_cons.mp nodup
      rw [List.countP_cons, List.countP_cons]
      rcases List.mem_cons.mp hmem with rfl | hmem
      · have others : rest.countP (fun other => (Function.update stage member target other).out) =
            rest.countP (fun other => (stage other).out) := by
          apply List.countP_congr
          intro other hother
          have hne : other ≠ member := fun heq => hnot (heq ▸ hother)
          simp [hne]
        simp [others, before, after]
      · have hne : first ≠ member := fun heq => hnot (heq ▸ hmem)
        rw [ih hrest hmem, Function.update_of_ne hne]
        omega

/-- A member that does not go out or come back changes nothing. -/
theorem countP_update_of_eq {members : List Member} {member : Member} {stage : Member → Stage}
    {target : Stage} (same : target.out = (stage member).out) :
    members.countP (fun other => (Function.update stage member target other).out) =
      members.countP (fun other => (stage other).out) := by
  apply List.countP_congr
  intro other _
  by_cases h : other = member
  · subst h
    simp [same]
  · simp [h]

end

end RollCall
