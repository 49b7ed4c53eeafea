/-
# Messages at locations

All messages that are somewhere in a system stand in one list, in the order in
which they got there, each with its location: a channel between two parties or
the hands of one of them. Taking the oldest message of a location makes every
channel first in, first out, whatever is taken from the others; where the order of
arrival is arbitrary, a message is taken by its place in the list. What has to be
counted over all locations is counted in the list itself.
-/

import Mathlib.Data.List.Basic
import Mathlib.Data.List.Perm.Basic

universe u v w

/-- The messages of a system with their locations, the oldest first. -/
abbrev Network (Loc : Type u) (Msg : Type v) := List (Loc × Msg)

namespace Network

variable {Loc : Type u} {Msg : Type v} [DecidableEq Loc]

/-- Put a message at a location. -/
def send (net : Network Loc Msg) (loc : Loc) (msg : Msg) : Network Loc Msg :=
  net ++ [(loc, msg)]

/-- Take the oldest message of a location. -/
def recv : Network Loc Msg → Loc → Option (Msg × Network Loc Msg)
  | [], _ => none
  | (place, msg) :: rest, loc =>
      if place = loc then some (msg, rest)
      else
        match recv rest loc with
        | none => none
        | some (found, left) => some (found, (place, msg) :: left)

/-- The messages at a location, the oldest first. -/
def contents (net : Network Loc Msg) (loc : Loc) : List Msg :=
  net.filterMap fun packet => if packet.1 = loc then some packet.2 else none

theorem contents_cons (place : Loc) (msg : Msg) (net : Network Loc Msg) (loc : Loc) :
    contents ((place, msg) :: net) loc =
      if place = loc then msg :: contents net loc else contents net loc := by
  by_cases h : place = loc <;> simp [contents, h]

theorem contents_cons_of_ne {place loc : Loc} (hne : place ≠ loc) (msg : Msg)
    (net : Network Loc Msg) : contents ((place, msg) :: net) loc = contents net loc := by
  rw [contents_cons, if_neg hne]

theorem contents_send (net : Network Loc Msg) (place loc : Loc) (msg : Msg) :
    contents (send net place msg) loc =
      contents net loc ++ if place = loc then [msg] else [] := by
  by_cases h : place = loc <;> simp [send, contents, h]

/-- The message taken is the first one at its location. -/
theorem split_of_recv {net left : Network Loc Msg} {loc : Loc} {msg : Msg}
    (h : recv net loc = some (msg, left)) :
    ∃ before after, net = before ++ (loc, msg) :: after ∧ left = before ++ after ∧
      contents before loc = [] := by
  induction net generalizing left with
  | nil => cases h
  | cons packet rest ih =>
      obtain ⟨place, other⟩ := packet
      unfold recv at h
      split at h
      case isTrue heq =>
        simp only [Option.some.injEq, Prod.mk.injEq] at h
        obtain ⟨rfl, rfl⟩ := h
        exact ⟨[], rest, by rw [heq, List.nil_append], rfl, rfl⟩
      case isFalse hne =>
        cases hrest : recv rest loc with
        | none => simp [hrest] at h
        | some r =>
            obtain ⟨found, remaining⟩ := r
            simp only [hrest, Option.some.injEq, Prod.mk.injEq] at h
            obtain ⟨rfl, rfl⟩ := h
            obtain ⟨before, after, hnet, hleft, hnone⟩ := ih hrest
            refine ⟨(place, other) :: before, after, ?_, ?_, ?_⟩
            · rw [hnet, List.cons_append]
            · rw [hleft, List.cons_append]
            · rw [contents_cons_of_ne hne, hnone]

/-- The message taken and the messages left are the messages there were. -/
theorem perm_of_recv {net left : Network Loc Msg} {loc : Loc} {msg : Msg}
    (h : recv net loc = some (msg, left)) : net.Perm ((loc, msg) :: left) := by
  obtain ⟨before, after, rfl, rfl, -⟩ := split_of_recv h
  exact List.perm_middle

theorem mem_of_recv {net left : Network Loc Msg} {loc : Loc} {msg : Msg}
    (h : recv net loc = some (msg, left)) : (loc, msg) ∈ net :=
  (perm_of_recv h).mem_iff.mpr List.mem_cons_self

theorem mem_of_mem_left {net left : Network Loc Msg} {loc : Loc} {msg : Msg}
    (h : recv net loc = some (msg, left)) {packet : Loc × Msg} (hmem : packet ∈ left) :
    packet ∈ net :=
  (perm_of_recv h).mem_iff.mpr (List.mem_cons_of_mem _ hmem)

/-- Messages selected from the whole network, one taken and the others left. -/
theorem filterMap_of_recv {Item : Type w} {net left : Network Loc Msg} {loc : Loc} {msg : Msg}
    (h : recv net loc = some (msg, left)) (select : Loc × Msg → Option Item) :
    (net.filterMap select).Perm ((select (loc, msg)).toList ++ left.filterMap select) := by
  have hperm := (perm_of_recv h).filterMap select
  cases hselect : select (loc, msg) with
  | none => simpa [hselect] using hperm
  | some item => simpa [hselect] using hperm

/-- The messages at a location, one message taken from somewhere. -/
theorem contents_of_perm {net left : Network Loc Msg} {place : Loc} {msg : Msg}
    (h : net.Perm ((place, msg) :: left)) (loc : Loc) :
    (contents net loc).Perm ((if place = loc then [msg] else []) ++ contents left loc) := by
  have hperm : (contents net loc).Perm (contents ((place, msg) :: left) loc) := h.filterMap _
  rw [contents_cons] at hperm
  by_cases hplace : place = loc
  · simpa [hplace] using hperm
  · simpa [hplace] using hperm

/-- Take any message of a location, given by its place among all messages. -/
def pick (net : Network Loc Msg) (loc : Loc) (index : Nat) : Option (Msg × Network Loc Msg) :=
  match net[index]? with
  | none => none
  | some (place, msg) => if place = loc then some (msg, net.eraseIdx index) else none

theorem perm_of_pick {net left : Network Loc Msg} {loc : Loc} {msg : Msg} {index : Nat}
    (h : pick net loc index = some (msg, left)) : net.Perm ((loc, msg) :: left) := by
  unfold pick at h
  split at h
  case h_1 => cases h
  case h_2 place other hget =>
    split at h
    case isTrue heq =>
      simp only [Option.some.injEq, Prod.mk.injEq] at h
      obtain ⟨rfl, rfl⟩ := h
      obtain ⟨hlt, hget⟩ := List.getElem?_eq_some_iff.mp hget
      rw [← heq, ← hget]
      exact (List.getElem_cons_eraseIdx_perm hlt).symm
    case isFalse => cases h

theorem mem_of_pick {net left : Network Loc Msg} {loc : Loc} {msg : Msg} {index : Nat}
    (h : pick net loc index = some (msg, left)) : (loc, msg) ∈ net :=
  (perm_of_pick h).mem_iff.mpr List.mem_cons_self

/-- There is one way to take the only message. -/
theorem eq_of_pick_singleton {place loc : Loc} {other msg : Msg} {left : Network Loc Msg}
    {index : Nat} (h : pick [(place, other)] loc index = some (msg, left)) :
    place = loc ∧ other = msg ∧ left = [] := by
  have perm := perm_of_pick h
  have none : left = [] := by
    have length := perm.length_eq
    rw [List.length_cons, List.length_cons, List.length_nil] at length
    exact List.length_eq_zero_iff.mp (by omega)
  subst none
  have same := List.perm_singleton.mp perm
  simp only [List.cons.injEq, Prod.mk.injEq, and_true] at same
  exact ⟨same.1, same.2, rfl⟩

theorem mem_of_mem_pick {net left : Network Loc Msg} {loc : Loc} {msg : Msg} {index : Nat}
    (h : pick net loc index = some (msg, left)) {packet : Loc × Msg} (hmem : packet ∈ left) :
    packet ∈ net :=
  (perm_of_pick h).mem_iff.mpr (List.mem_cons_of_mem _ hmem)

/-- What stands at a location can be taken. -/
theorem exists_recv {net : Network Loc Msg} {loc : Loc} {msg : Msg} (hmem : (loc, msg) ∈ net) :
    ∃ found left, recv net loc = some (found, left) := by
  induction net with
  | nil => cases hmem
  | cons packet rest ih =>
      obtain ⟨place, other⟩ := packet
      by_cases heq : place = loc
      · exact ⟨other, rest, by simp [recv, heq]⟩
      · have behind : (loc, msg) ∈ rest := by
          refine (List.mem_cons.mp hmem).resolve_left fun same => ?_
          exact heq (Prod.mk.inj same).1.symm
        obtain ⟨found, left, hrecv⟩ := ih behind
        exact ⟨found, (place, other) :: left, by simp [recv, heq, hrecv]⟩

/-- Any message that stands at a location can be picked. -/
theorem exists_pick {net : Network Loc Msg} {loc : Loc} {msg : Msg} (hmem : (loc, msg) ∈ net) :
    ∃ index left, pick net loc index = some (msg, left) := by
  obtain ⟨index, hget⟩ := List.getElem?_of_mem hmem
  exact ⟨index, net.eraseIdx index, by simp [pick, hget]⟩

end Network
