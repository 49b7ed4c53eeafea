/-
# Lists ordered by recency

A recency list holds the keys that were touched more recently than they were
dropped, the longest untouched key first. The history of touches and drops
determines it, and two updates maintain it: a touch moves the key to the end, a
drop erases it. Dropping the first key is what serving the longest waiting one
amounts to.
-/

import Mathlib.Data.List.Nodup
import Mathlib.Data.List.Pairwise

universe u

namespace Recency

variable {K : Type u} [DecidableEq K]

/-- One entry of a history. -/
inductive Act (K : Type u)
  | touch (key : K)
  | drop (key : K)
  deriving DecidableEq

/-- The time of the latest occurrence of an act, counted from one; zero when the
history does not contain it. -/
def latest (history : List (Act K)) (act : Act K) : Nat :=
  history.length - history.reverse.findIdx (· = act)

@[simp]
theorem latest_nil (act : Act K) : latest [] act = 0 := rfl

theorem latest_append_self (history : List (Act K)) (act : Act K) :
    latest (history ++ [act]) act = history.length + 1 := by
  simp [latest, List.findIdx_cons]

theorem latest_append_of_ne (history : List (Act K)) {act other : Act K}
    (hne : other ≠ act) : latest (history ++ [other]) act = latest history act := by
  simp [latest, List.findIdx_cons, hne]

theorem latest_le_length (history : List (Act K)) (act : Act K) :
    latest history act ≤ history.length := Nat.sub_le _ _

/-- What a recency list is: no key twice, exactly the keys whose latest touch is
more recent than their latest drop, in the order of their latest touch. -/
structure Tracks (history : List (Act K)) (keys : List K) : Prop where
  nodup : keys.Nodup
  mem_iff : ∀ key, key ∈ keys ↔ latest history (.drop key) < latest history (.touch key)
  ordered : keys.Pairwise fun first second =>
    latest history (.touch first) < latest history (.touch second)

theorem Tracks.nil : Tracks ([] : List (Act K)) [] where
  nodup := List.nodup_nil
  mem_iff := by simp
  ordered := List.Pairwise.nil

/-- Only an act of the key itself moves its latest touch. -/
private theorem latest_touch_of_mem_filter {history : List (Act K)} {keys : List K}
    {key other : K} (hmem : other ∈ keys.filter (· ≠ key)) :
    latest (history ++ [.touch key]) (.touch other) = latest history (.touch other) := by
  have hne : other ≠ key := by simpa using (List.mem_filter.mp hmem).2
  exact latest_append_of_ne history (by simpa using hne.symm)

/-- Touching a key moves it to the end. -/
theorem Tracks.touch {history : List (Act K)} {keys : List K} (h : Tracks history keys)
    (key : K) : Tracks (history ++ [.touch key]) (keys.filter (· ≠ key) ++ [key]) where
  nodup := by
    rw [List.nodup_append]
    refine ⟨h.nodup.filter _, List.nodup_singleton key, ?_⟩
    intro other hother last hlast
    rw [List.mem_singleton] at hlast
    subst last
    simpa using (List.mem_filter.mp hother).2
  mem_iff := by
    intro other
    rw [latest_append_of_ne history (by simp : Act.touch key ≠ Act.drop other)]
    by_cases heq : other = key
    · subst other
      rw [latest_append_self]
      have hle := latest_le_length history (.drop key)
      simp only [List.mem_append, List.mem_singleton, or_true, true_iff]
      exact Nat.lt_succ_of_le hle
    · rw [latest_append_of_ne history (by simpa using Ne.symm heq), ← h.mem_iff other]
      simp [heq]
  ordered := by
    rw [List.pairwise_append]
    refine ⟨?_, List.pairwise_singleton _ _, ?_⟩
    · have kept := h.ordered.sublist (List.filter_sublist (p := (· ≠ key)))
      refine kept.imp_of_mem ?_
      intro first second hfirst hsecond hlt
      rw [latest_touch_of_mem_filter hfirst, latest_touch_of_mem_filter hsecond]
      exact hlt
    · intro first hfirst last hlast
      rw [List.mem_singleton] at hlast
      subst last
      rw [latest_touch_of_mem_filter hfirst, latest_append_self]
      exact Nat.lt_succ_of_le (latest_le_length history (.touch first))

/-- Dropping the first key leaves the others as they are. -/
theorem Tracks.drop_head {history : List (Act K)} {key : K} {keys : List K}
    (h : Tracks history (key :: keys)) : Tracks (history ++ [.drop key]) keys where
  nodup := (List.nodup_cons.mp h.nodup).2
  mem_iff := by
    intro other
    rw [latest_append_of_ne history (by simp : Act.drop key ≠ Act.touch other)]
    by_cases heq : other = key
    · subst other
      rw [latest_append_self]
      have hle := latest_le_length history (.touch key)
      have hnot := (List.nodup_cons.mp h.nodup).1
      simp only [hnot, false_iff, Nat.not_lt]
      exact Nat.le_succ_of_le hle
    · rw [latest_append_of_ne history (by simpa using Ne.symm heq), ← h.mem_iff other]
      simp [heq]
  ordered := by
    refine (List.pairwise_cons.mp h.ordered).2.imp ?_
    intro first second hlt
    rw [latest_append_of_ne history (by simp), latest_append_of_ne history (by simp)]
    exact hlt

/-- The first key is the one that was touched the longest ago. -/
theorem Tracks.head_oldest {history : List (Act K)} {key other : K} {keys : List K}
    (h : Tracks history (key :: keys)) (hmem : other ∈ keys) :
    latest history (.touch key) < latest history (.touch other) :=
  (List.pairwise_cons.mp h.ordered).1 other hmem

/-- Dropping keys from the front one after the other. -/
theorem Tracks.drop_front {history : List (Act K)} {gone keys : List K}
    (h : Tracks history (gone ++ keys)) : Tracks (history ++ gone.map .drop) keys := by
  induction gone generalizing history with
  | nil => simpa using h
  | cons key gone ih =>
      have next := ih h.drop_head
      simpa using next

end Recency
