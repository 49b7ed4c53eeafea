/-
# Stop and wait

A sender numbers its requests and has one of them open at a time. An open request
is transmitted, and transmitted again on a new channel each time it has expired,
up to a limit; it is closed by a reply that answers it, and only then does the next
number begin. The logs of such senders are described here step by step, with what
every log of this kind has in common.
-/

import Mathlib.Data.List.Basic
import Mathlib.Logic.Function.Basic

universe u v

namespace StopAndWait

/-- What a sender does and sees. -/
inductive Entry (Text : Type u) (Reply : Type v)
  | transmitted (channel : Nat) (text : Text)
  | refused (text : Text)
  | accepted (reply : Reply)
  | rejected (reply : Reply)
  | expired (text : Text)
  deriving DecidableEq

/-- What has become of the last transmission. -/
inductive Phase
  | ready
  | waiting
  | expired
  deriving DecidableEq

/-- How far a sender has come: the number of the last request, the channel it was
last transmitted on, and how often it has expired. -/
structure Progress where
  number : Nat
  channel : Nat
  expirations : Nat
  phase : Phase
  deriving DecidableEq

section

variable {Text : Type u} {Reply : Type v}

/-- The logs of a sender that stops and waits. -/
inductive Orderly (limit : Nat) (encode : Nat → Text) (answers : Nat → Reply → Prop) :
    List (Entry Text Reply) → Progress → Prop
  | start : Orderly limit encode answers [] ⟨0, 0, 0, .ready⟩
  | request {log : List (Entry Text Reply)} {p : Progress} (channel : Nat)
      (prior : Orderly limit encode answers log p) (ready : p.phase = .ready) :
      Orderly limit encode answers (log ++ [.transmitted channel (encode (p.number + 1))])
        ⟨p.number + 1, channel, 0, .waiting⟩
  | accept {log : List (Entry Text Reply)} {p : Progress} (reply : Reply)
      (prior : Orderly limit encode answers log p) (waiting : p.phase = .waiting)
      (answered : answers p.number reply) :
      Orderly limit encode answers (log ++ [.accepted reply]) { p with phase := .ready }
  | reject {log : List (Entry Text Reply)} {p : Progress} (reply : Reply)
      (prior : Orderly limit encode answers log p) (waiting : p.phase = .waiting) :
      Orderly limit encode answers (log ++ [.rejected reply]) p
  | expire {log : List (Entry Text Reply)} {p : Progress}
      (prior : Orderly limit encode answers log p) (waiting : p.phase = .waiting) :
      Orderly limit encode answers (log ++ [.expired (encode p.number)])
        { p with expirations := p.expirations + 1, phase := .expired }
  | again {log : List (Entry Text Reply)} {p : Progress} (channel : Nat)
      (prior : Orderly limit encode answers log p) (expired : p.phase = .expired)
      (more : p.expirations < limit) (new : p.channel < channel) :
      Orderly limit encode answers (log ++ [.transmitted channel (encode p.number)])
        { p with channel := channel, phase := .waiting }

/-- Nothing is refused. -/
theorem Orderly.refused_not_mem {limit : Nat} {encode : Nat → Text}
    {answers : Nat → Reply → Prop} {log : List (Entry Text Reply)} {p : Progress}
    (h : Orderly limit encode answers log p) (text : Text) : .refused text ∉ log := by
  induction h with
  | start => simp
  | request _ _ _ ih | accept _ _ _ _ ih | reject _ _ _ ih | expire _ _ ih
  | again _ _ _ _ _ ih => simpa using ih

@[simp]
def Entry.reply? : Entry Text Reply → Option Reply
  | .accepted reply => some reply
  | _ => none

/-- The replies that closed a request, in order. -/
def acceptedReplies (log : List (Entry Text Reply)) : List Reply := log.filterMap Entry.reply?

@[simp]
theorem acceptedReplies_append (log rest : List (Entry Text Reply)) :
    acceptedReplies (log ++ rest) = acceptedReplies log ++ acceptedReplies rest :=
  List.filterMap_append

@[simp]
theorem acceptedReplies_singleton (entry : Entry Text Reply) :
    acceptedReplies [entry] = entry.reply?.toList := by
  cases entry <;> rfl

variable [DecidableEq Text]

@[simp]
def Entry.channel? (text : Text) : Entry Text Reply → Option Nat
  | .transmitted channel other => if other = text then some channel else none
  | _ => none

/-- The channels a text was transmitted on, in order. -/
def channels (log : List (Entry Text Reply)) (text : Text) : List Nat :=
  log.filterMap (Entry.channel? text)

@[simp]
theorem channels_append (log rest : List (Entry Text Reply)) (text : Text) :
    channels (log ++ rest) text = channels log text ++ channels rest text :=
  List.filterMap_append

@[simp]
theorem channels_singleton (entry : Entry Text Reply) (text : Text) :
    channels [entry] text = (entry.channel? text).toList := by
  rw [channels, List.filterMap_cons, List.filterMap_nil]
  cases entry.channel? text <;> rfl

@[simp]
def Entry.expires (text : Text) : Entry Text Reply → Bool
  | .expired other => other = text
  | _ => false

/-- How often a text has expired. -/
def expirations (log : List (Entry Text Reply)) (text : Text) : Nat :=
  log.countP (Entry.expires text)

@[simp]
theorem expirations_append (log rest : List (Entry Text Reply)) (text : Text) :
    expirations (log ++ rest) text = expirations log text + expirations rest text :=
  List.countP_append

@[simp]
theorem expirations_singleton (entry : Entry Text Reply) (text : Text) :
    expirations [entry] text = if entry.expires text then 1 else 0 :=
  List.countP_singleton

end

section

variable {Text : Type u} {Reply : Type v} [DecidableEq Text] {limit : Nat} {encode : Nat → Text}
  {answers : Nat → Reply → Prop} {log : List (Entry Text Reply)} {p : Progress}

/-- The counts a log has for its last request. -/
structure Tally (limit : Nat) (encode : Nat → Text) (log : List (Entry Text Reply))
    (p : Progress) : Prop where
  accepted : (acceptedReplies log).length + (if p.phase = .ready then 0 else 1) = p.number
  expired : p.phase ≠ .ready → expirations log (encode p.number) = p.expirations
  transmitted : p.phase ≠ .ready → (channels log (encode p.number)).length =
    p.expirations + if p.phase = .waiting then 1 else 0
  limited : p.expirations + (if p.phase = .waiting then 1 else 0) ≤ limit
  future : ∀ k, p.number < k → channels log (encode k) = [] ∧ expirations log (encode k) = 0
  below : ∀ channel ∈ channels log (encode p.number), channel ≤ p.channel

theorem Orderly.tally (positive : 0 < limit) (injective : Function.Injective encode)
    (h : Orderly limit encode answers log p) : Tally limit encode log p := by
  have other {m n : Nat} (hlt : m < n) : encode m ≠ encode n :=
    fun heq => absurd (injective heq) (Nat.ne_of_lt hlt)
  induction h with
  | start => exact ⟨rfl, by simp, by simp, Nat.zero_le _, fun _ _ => ⟨rfl, rfl⟩, by simp [channels]⟩
  | @request log p channel prior ready ih =>
      have fresh := ih.future (p.number + 1) (Nat.lt_succ_self _)
      have count := ih.accepted
      refine ⟨?_, ?_, ?_, ?_, ?_, ?_⟩
      · simpa [ready] using count
      · simp [fresh.2]
      · simp [fresh.1]
      · simpa using Nat.succ_le_of_lt positive
      · intro k hk
        have h := ih.future k (Nat.lt_of_succ_lt hk)
        simp [h, other hk]
      · simp [fresh.1]
  | @accept log p reply prior waiting answered ih =>
      have count := ih.accepted
      have limited := ih.limited
      refine ⟨?_, by simp, by simp, ?_, ?_, ?_⟩
      · simpa [waiting] using count
      · simp only [waiting, if_true] at limited
        exact Nat.le_trans (Nat.le_succ _) limited
      · simpa using ih.future
      · simpa using ih.below
  | @reject log p reply prior waiting ih =>
      exact ⟨by simpa using ih.accepted, by simpa using ih.expired, by simpa using ih.transmitted,
        ih.limited, by simpa using ih.future, by simpa using ih.below⟩
  | @expire log p prior waiting ih =>
      have opened : p.phase ≠ .ready := by simp [waiting]
      refine ⟨?_, ?_, ?_, ?_, ?_, ?_⟩
      · simpa [waiting] using ih.accepted
      · simpa using ih.expired opened
      · simpa [waiting] using ih.transmitted opened
      · simpa [waiting] using ih.limited
      · intro k hk
        simp [ih.future k hk, other hk]
      · simpa using ih.below
  | @again log p channel prior expired more new ih =>
      have opened : p.phase ≠ .ready := by simp [expired]
      refine ⟨?_, ?_, ?_, ?_, ?_, ?_⟩
      · simpa [expired] using ih.accepted
      · simpa using ih.expired opened
      · simpa [expired] using ih.transmitted opened
      · simpa using Nat.succ_le_of_lt more
      · intro k hk
        simp [ih.future k hk, other hk]
      · intro c hmem
        rw [channels_append, List.mem_append] at hmem
        rcases hmem with hold | hnew
        · exact Nat.le_of_lt (Nat.lt_of_le_of_lt (ih.below c hold) new)
        · simp at hnew
          exact Nat.le_of_eq hnew

/-- A reply that is accepted answers the request of its own place in the order. -/
theorem Orderly.answers_of_accepted (positive : 0 < limit) (injective : Function.Injective encode)
    (h : Orderly limit encode answers log p) {i : Nat} {reply : Reply}
    (hi : (acceptedReplies log)[i]? = some reply) : answers (i + 1) reply := by
  induction h with
  | start => cases hi
  | @accept log p last prior waiting answered ih =>
      have count := (prior.tally positive injective).accepted
      simp only [waiting, reduceCtorEq, if_false] at count
      rw [acceptedReplies_append, acceptedReplies_singleton, List.getElem?_append] at hi
      split at hi
      case isTrue => exact ih hi
      case isFalse hge =>
        simp only [Entry.reply?, Option.toList_some, List.getElem?_singleton] at hi
        split at hi
        case isTrue hzero =>
          obtain rfl := Option.some.inj hi
          have hnumber : i + 1 = p.number := by omega
          rw [hnumber]
          exact answered
        case isFalse => cases hi
  | request _ _ _ ih | reject _ _ _ ih | expire _ _ ih | again _ _ _ _ _ ih =>
      exact ih (by simpa using hi)

/-- A list with one more entry is split before the entry or at it. -/
theorem append_singleton_eq_append_cons {α : Type*} {log before after : List α} {last entry : α}
    (heq : log ++ [last] = before ++ entry :: after) :
    log = before ∧ last = entry ∨ ∃ rest, log = before ++ entry :: rest := by
  rcases List.eq_nil_or_concat after with rfl | ⟨rest, final, rfl⟩
  · obtain ⟨hlog, hlast⟩ := List.append_inj' heq rfl
    exact Or.inl ⟨hlog, List.singleton_injective hlast⟩
  · rw [List.concat_eq_append, ← List.cons_append, ← List.append_assoc] at heq
    exact Or.inr ⟨rest, (List.append_inj' heq rfl).1⟩

/-- A request is transmitted when all those before it have been accepted, and its
text is always the same. -/
theorem Orderly.eq_encode_of_transmitted (positive : 0 < limit)
    (injective : Function.Injective encode) (h : Orderly limit encode answers log p)
    {before after : List (Entry Text Reply)} {channel : Nat} {text : Text}
    (heq : log = before ++ .transmitted channel text :: after) :
    text = encode ((acceptedReplies before).length + 1) := by
  induction h generalizing after with
  | start => simp at heq
  | request c prior ready ih =>
      have count := (prior.tally positive injective).accepted
      rcases append_singleton_eq_append_cons heq with ⟨rfl, hlast⟩ | ⟨rest, hlog⟩
      · simp only [ready, if_true, Nat.add_zero] at count
        rw [count]
        cases hlast
        rfl
      · exact ih hlog
  | again c prior expired more new ih =>
      have count := (prior.tally positive injective).accepted
      rcases append_singleton_eq_append_cons heq with ⟨rfl, hlast⟩ | ⟨rest, hlog⟩
      · simp only [expired, reduceCtorEq, if_false] at count
        rw [count]
        cases hlast
        rfl
      · exact ih hlog
  | accept _ _ _ _ ih | reject _ _ _ ih | expire _ _ ih =>
      rcases append_singleton_eq_append_cons heq with ⟨-, hlast⟩ | ⟨rest, hlog⟩
      · cases hlast
      · exact ih hlog

/-- Each request is transmitted no more often than the limit. -/
theorem Orderly.length_channels_le (positive : 0 < limit)
    (injective : Function.Injective encode) (h : Orderly limit encode answers log p) (k : Nat) :
    (channels log (encode k)).length ≤ limit := by
  induction h with
  | start => exact Nat.zero_le _
  | @request log p c prior ready ih =>
      by_cases hk : k = p.number + 1
      · have fresh := ((prior.tally positive injective).future k (by omega)).1
        rw [channels_append, fresh]
        simpa [hk] using Nat.succ_le_of_lt positive
      · have hne : encode (p.number + 1) ≠ encode k := fun heq => hk (injective heq).symm
        simpa [hne] using ih
  | @again log p c prior expired more new ih =>
      by_cases hk : k = p.number
      · have count := (prior.tally positive injective).transmitted (by simp [expired])
        rw [channels_append, List.length_append, hk, count]
        simpa [expired] using Nat.succ_le_of_lt more
      · have hne : encode p.number ≠ encode k := fun heq => hk (injective heq).symm
        simpa [hne] using ih
  | accept _ _ _ _ ih | reject _ _ _ ih | expire _ _ ih => simpa using ih

/-- Each transmission of a request is made on a newer channel than the one before. -/
theorem Orderly.channels_pairwise (positive : 0 < limit)
    (injective : Function.Injective encode) (h : Orderly limit encode answers log p) (k : Nat) :
    (channels log (encode k)).Pairwise (· < ·) := by
  induction h with
  | start => exact List.Pairwise.nil
  | @request log p c prior ready ih =>
      by_cases hk : k = p.number + 1
      · have fresh := ((prior.tally positive injective).future k (by omega)).1
        rw [channels_append, fresh]
        simp [hk]
      · have hne : encode (p.number + 1) ≠ encode k := fun heq => hk (injective heq).symm
        simpa [hne] using ih
  | @again log p c prior expired more new ih =>
      by_cases hk : k = p.number
      · have below := (prior.tally positive injective).below
        rw [channels_append, List.pairwise_append]
        refine ⟨ih, by simp, ?_⟩
        intro old hold last hlast
        simp only [channels_singleton, Entry.channel?, hk, if_true, Option.toList_some,
          List.mem_singleton] at hlast
        rw [hlast]
        exact Nat.lt_of_le_of_lt (below old (hk ▸ hold)) new
      · have hne : encode p.number ≠ encode k := fun heq => hk (injective heq).symm
        simpa [hne] using ih
  | accept _ _ _ _ ih | reject _ _ _ ih | expire _ _ ih => simpa using ih

/-- Each request up to the last has been transmitted. -/
theorem Orderly.channels_ne_nil (h : Orderly limit encode answers log p)
    {k : Nat} (hpos : 1 ≤ k) (hk : k ≤ p.number) : channels log (encode k) ≠ [] := by
  induction h with
  | start => exact absurd (Nat.le_trans hpos hk) (by decide)
  | request c prior ready ih =>
      rcases Nat.lt_or_eq_of_le hk with hlt | rfl
      · simp [ih (Nat.le_of_lt_succ hlt)]
      · simp
  | again c prior expired more new ih => simp [ih hk]
  | accept _ _ _ _ ih | reject _ _ _ ih | expire _ _ ih => simpa using ih hk

end

end StopAndWait
