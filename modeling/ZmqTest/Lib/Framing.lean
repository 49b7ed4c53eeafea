/-
# Messages on a stream of flagged parts

A message of several parts crosses a stream part by part, and a flag on each part says
whether more parts of the same message follow. Putting the parts together again needs
nothing but the flags: whatever has come is a list of complete messages and the parts
of one that is still open, and no stream can be read in two ways.
-/

import Mathlib.Data.List.Basic
import Mathlib.Data.List.Induction

namespace Framing

universe u

variable {α : Type u}

/-- The parts of a message with their flags: all but the last are followed by more. -/
def flagged : List α → List (α × Bool)
  | [] => []
  | [part] => [(part, false)]
  | part :: next :: rest => (part, true) :: flagged (next :: rest)

/-- Messages one after the other. -/
def stream (msgs : List (List α)) : List (α × Bool) := msgs.flatMap flagged

theorem flagged_concat (parts : List α) (last : α) :
    flagged (parts ++ [last]) = parts.map (·, true) ++ [(last, false)] := by
  induction parts with
  | nil => rfl
  | cons part parts ih =>
      cases parts with
      | nil => rfl
      | cons next rest =>
          change (part, true) :: flagged (next :: rest ++ [last]) = _
          rw [ih]
          rfl

theorem stream_append (first second : List (List α)) :
    stream (first ++ second) = stream first ++ stream second :=
  List.flatMap_append

@[simp]
theorem stream_singleton (msg : List α) : stream [msg] = flagged msg := by
  simp [stream]

/-- What has come so far: the complete messages, and the parts of the open one. -/
structure Assembly (α : Type u) where
  complete : List (List α)
  opened : List α
  deriving DecidableEq

/-- One more part: it ends the message unless it is flagged. -/
def Assembly.add (a : Assembly α) (part : α × Bool) : Assembly α :=
  if part.2 then { a with opened := a.opened ++ [part.1] }
  else { complete := a.complete ++ [a.opened ++ [part.1]], opened := [] }

/-- The messages on a stream. -/
def assemble (parts : List (α × Bool)) : Assembly α := parts.foldl Assembly.add ⟨[], []⟩

theorem assemble_concat (parts : List (α × Bool)) (part : α × Bool) :
    assemble (parts ++ [part]) = (assemble parts).add part := by
  simp [assemble]

/-- Messages that are complete stay as they are. -/
theorem foldl_add (a : Assembly α) (parts : List (α × Bool)) :
    parts.foldl Assembly.add a =
      { complete := a.complete ++ (parts.foldl Assembly.add ⟨[], a.opened⟩).complete
        opened := (parts.foldl Assembly.add ⟨[], a.opened⟩).opened } := by
  induction parts using List.reverseRecOn with
  | nil => simp
  | append_singleton parts part ih =>
      simp only [List.foldl_append, List.foldl_cons, List.foldl_nil]
      rw [ih]
      by_cases more : part.2 <;> simp [Assembly.add, more]

/-- After complete messages, the rest of a stream is read on its own. -/
theorem assemble_append {first : List (α × Bool)} (closed : (assemble first).opened = [])
    (second : List (α × Bool)) :
    assemble (first ++ second) =
      { complete := (assemble first).complete ++ (assemble second).complete
        opened := (assemble second).opened } := by
  rw [assemble, List.foldl_append, foldl_add]
  change Assembly.mk (_ ++ (second.foldl Assembly.add ⟨[], (assemble first).opened⟩).complete)
    (second.foldl Assembly.add ⟨[], (assemble first).opened⟩).opened = _
  rw [closed]
  rfl

/-- Flagged parts leave the message open. -/
theorem assemble_map_true (parts : List α) :
    assemble (parts.map (·, true)) = ⟨[], parts⟩ := by
  induction parts using List.reverseRecOn with
  | nil => rfl
  | append_singleton parts part ih =>
      rw [List.map_append, List.map_singleton, assemble_concat, ih]
      rfl

theorem assemble_flagged {msg : List α} (hne : msg ≠ []) :
    assemble (flagged msg) = ⟨[msg], []⟩ := by
  obtain ⟨parts, last, rfl⟩ := (List.eq_nil_or_concat' msg).resolve_left hne
  rw [flagged_concat, assemble_concat, assemble_map_true]
  rfl

/-- Messages with at least one part each come out as they went in. -/
theorem assemble_stream {msgs : List (List α)} (hne : ∀ msg ∈ msgs, msg ≠ []) :
    assemble (stream msgs) = ⟨msgs, []⟩ := by
  induction msgs using List.reverseRecOn with
  | nil => rfl
  | append_singleton msgs msg ih =>
      have earlier := ih fun m hm => hne m (List.mem_append_left _ hm)
      rw [stream_append, stream_singleton, assemble_append (by rw [earlier]), earlier,
        assemble_flagged (hne msg (by simp))]

/-- Every stream is that of its complete messages, and of the open parts behind them. -/
theorem stream_assemble (parts : List (α × Bool)) :
    parts = stream (assemble parts).complete ++ (assemble parts).opened.map (·, true) := by
  induction parts using List.reverseRecOn with
  | nil => rfl
  | append_singleton parts part ih =>
      obtain ⟨part, more⟩ := part
      rw [assemble_concat]
      conv_lhs => rw [ih]
      cases more with
      | true => simp [Assembly.add]
      | false => simp [Assembly.add, stream_append, flagged_concat]

/-- A complete message has a part. -/
theorem ne_nil_of_mem_complete {parts : List (α × Bool)} {msg : List α}
    (hmem : msg ∈ (assemble parts).complete) : msg ≠ [] := by
  induction parts using List.reverseRecOn with
  | nil => cases hmem
  | append_singleton parts part ih =>
      rw [assemble_concat, Assembly.add] at hmem
      split at hmem
      case isTrue => exact ih hmem
      case isFalse =>
        rcases List.mem_append.mp hmem with earlier | last
        · exact ih earlier
        · rw [List.mem_singleton.mp last]
          simp

/-- A beginning of a stream of messages has the first of them complete; what is open
and what is still to come are the others. -/
theorem complete_of_append_eq {parts rest : List (α × Bool)} {msgs : List (List α)}
    (hne : ∀ msg ∈ msgs, msg ≠ []) (h : parts ++ rest = stream msgs) :
    ∃ later, msgs = (assemble parts).complete ++ later ∧
      (assemble parts).opened.map (·, true) ++ rest = stream later := by
  let pending := (assemble parts).opened.map (·, true) ++ rest
  have split : stream msgs = stream (assemble parts).complete ++ pending := by
    rw [← h, ← List.append_assoc, ← stream_assemble parts]
  have first : assemble (stream (assemble parts).complete) = ⟨(assemble parts).complete, []⟩ :=
    assemble_stream fun _ => ne_nil_of_mem_complete
  have whole := assemble_stream hne
  rw [split, assemble_append (by rw [first]), first, Assembly.mk.injEq] at whole
  refine ⟨(assemble pending).complete, whole.1.symm, ?_⟩
  have canonical := stream_assemble pending
  rwa [whole.2, List.map_nil, List.append_nil] at canonical

/-- What is open is a beginning of the next message, and not all of it. -/
theorem exists_of_opened {opened : List α} {rest : List (α × Bool)} {msg : List α}
    {later : List (List α)} (hne : msg ≠ [])
    (h : opened.map (·, true) ++ rest = stream (msg :: later)) :
    ∃ more, more ≠ [] ∧ msg = opened ++ more := by
  obtain ⟨parts, last, rfl⟩ := (List.eq_nil_or_concat' msg).resolve_left hne
  have hstream : stream ((parts ++ [last]) :: later) =
      parts.map (·, true) ++ ((last, false) :: stream later) := by
    rw [stream, List.flatMap_cons, flagged_concat, List.append_assoc]
    rfl
  rw [hstream, List.append_eq_append_iff] at h
  rcases h with ⟨between, hparts, -⟩ | ⟨between, hopened, hrest⟩
  · -- the open parts end before the last one
    obtain ⟨first, second, rfl, hfirst, -⟩ := List.map_eq_append_iff.mp hparts
    have hsame : first = opened :=
      List.map_injective_iff.mpr (fun _ _ heq => congrArg Prod.fst heq) hfirst
    exact ⟨second ++ [last], by simp, by rw [hsame, List.append_assoc]⟩
  · cases between with
    | nil =>
        rw [List.append_nil] at hopened
        have hsame : opened = parts :=
          List.map_injective_iff.mpr (fun _ _ heq => congrArg Prod.fst heq) hopened
        exact ⟨[last], by simp, by rw [hsame]⟩
    | cons head between =>
        -- an open part is flagged, the last one is not
        obtain ⟨rfl, -⟩ := List.cons.inj hrest
        have hmem : (last, false) ∈ opened.map (·, true) := by
          rw [hopened]
          exact List.mem_append_right _ List.mem_cons_self
        simp at hmem

end Framing
