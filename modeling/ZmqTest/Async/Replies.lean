/-
# Whose reply is whose

The workers of the server are a pool and the messages in the proxy its jobs: a worker
that stands between the two frames of a reply has its identity and its content from
one message. Every run of the system is a run of the pool, entry by entry. Since a
client numbers its requests and no two clients share an identity, a message that names
a client and one of its texts stands for one request.
-/

import ZmqTest.Async.Cs

namespace ZmqTest.Async

open Pool (Place)

variable {Client Worker : Type} [DecidableEq Client] [DecidableEq Worker]

/-- An entry of the system as the pool has it: the message with its identity. -/
def SystemOutput.entry (clients : Clients Client) :
    SystemOutput Client Worker → Pool.Entry Zmsg Worker
  | .requested client body => .posted [clients.identity client, body]
  | .handled worker msg replies => .taken worker msg replies
  | .replied worker msg => .answered worker msg
  | .received client msg => .delivered (clients.identity client :: msg)

/-- A worker has these messages still to send. -/
inductive Holds : List Zmsg → WorkerState → Prop
  | recv (identity content : Option Frame) (reply replies : Nat) :
      Holds [] ⟨.recv, identity, content, reply, replies, []⟩
  | sendIdentity (identity content : Frame) (reply replies : Nat) (more : reply < replies) :
      Holds (List.replicate (replies - reply) [identity, content])
        ⟨.sendIdentity, some identity, some content, reply, replies, []⟩
  | sendContent (identity content : Frame) (reply replies : Nat) (more : reply < replies) :
      Holds (List.replicate (replies - reply) [identity, content])
        ⟨.sendContent, some identity, some content, reply, replies, [identity]⟩

/-- At the head of its loop a worker has the replies left that it has drawn. -/
theorem holds_loop (pc : WorkerPc) (identity content : Frame) (reply replies : Nat) :
    Holds (List.replicate (replies - reply) [identity, content])
      (WorkerState.loop ⟨pc, some identity, some content, reply, replies, []⟩) := by
  by_cases more : reply < replies
  · rw [WorkerState.loop, if_pos more]
    exact .sendIdentity identity content reply replies more
  · rw [WorkerState.loop, if_neg more, Nat.sub_eq_zero_of_le (Nat.le_of_not_lt more)]
    exact .recv none none reply replies

/-- A worker takes a request and draws its replies. -/
theorem Holds.take {jobs : List Zmsg} {w : WorkerState} (h : Holds jobs w) (pc : w.pc = .recv)
    (identity content : Frame) (value : Random) :
    jobs = [] ∧ (serverWorkerRecv w [identity, content] value).replies = randof 5 value ∧
      Holds (List.replicate (randof 5 value) [identity, content])
        (serverWorkerRecv w [identity, content] value) := by
  cases h with
  | recv =>
      refine ⟨rfl, ?_, holds_loop _ identity content 0 (randof 5 value)⟩
      simp only [serverWorkerRecv, List.head?_cons, List.tail_cons, reduceCtorEq, if_false,
        WorkerState.loop]
      split <;> rfl
  | sendIdentity | sendContent => cases pc

/-- A worker sends a frame: the message is unfinished, or it is the next one held. -/
theorem Holds.send {jobs : List Zmsg} {w next : WorkerState} {sent : Option Zmsg}
    (h : Holds jobs w) (taken : serverWorkerSend w = some (next, sent)) :
    sent = none ∧ Holds jobs next ∨
      ∃ msg more, sent = some msg ∧ jobs = msg :: more ∧ Holds more next := by
  cases h with
  | recv => cases taken
  | sendIdentity identity content reply replies more =>
      cases taken
      exact Or.inl ⟨rfl, .sendContent identity content reply replies more⟩
  | sendContent identity content reply replies more =>
      cases taken
      have left : replies - reply = replies - (reply + 1) + 1 := by omega
      refine Or.inr ⟨[identity, content], _, rfl, by rw [left, List.replicate_succ], ?_⟩
      exact holds_loop _ identity content (reply + 1) replies

/-- The system is at this state of the pool. -/
structure Follows (clients : Clients Client) (pool : Pool.State Zmsg Worker)
    (s : SystemState Client Worker) : Prop where
  net : pool.net = s.net
  hands : ∀ worker, Holds (pool.hands worker) (s.worker worker)
  posted : ∀ msg, (Place.posted, msg) ∈ s.net →
    ∃ client body, msg = [clients.identity client, body]

section

variable {clients : Clients Client} {pool : Pool.State Zmsg Worker}
  {s t : SystemState Client Worker} {out : List (SystemOutput Client Worker)}

theorem Follows.init :
    Follows clients (Pool.pool Zmsg Worker).init (system Worker clients).init where
  net := rfl
  hands := fun _ => .recv none none 0 0
  posted := fun _ hmem => by cases hmem

theorem Follows.clientRecv (h : Follows clients pool s) {client : Client} {index : Nat}
    (taken : systemStep clients s (.clientRecv client index) = some (t, out)) :
    ∃ fs next, (Pool.pool Zmsg Worker).exec pool fs =
      some (next, out.map (SystemOutput.entry clients)) ∧ Follows clients next t := by
  simp only [systemStep] at taken
  split at taken
  case h_2 => cases taken
  case h_1 c address msg left hrecv hpick =>
    split at taken
    case isFalse => cases taken
    case isTrue heq =>
      cases taken
      subst heq
      have moved : (Pool.pool Zmsg Worker).step pool (.deliver index) =
          some ({ pool with net := left }, [.delivered (clients.identity client :: msg)]) := by
        simp [Pool.pool, Pool.step, h.net, hpick]
      refine ⟨_, _, Machine.exec_singleton moved, rfl, h.hands, ?_⟩
      intro other hmem
      exact h.posted other (Network.mem_of_mem_pick hpick hmem)

theorem Follows.clientSend (h : Follows clients pool s) {client : Client}
    (taken : systemStep clients s (.clientSend client) = some (t, out)) :
    ∃ fs next, (Pool.pool Zmsg Worker).exec pool fs =
      some (next, out.map (SystemOutput.entry clients)) ∧ Follows clients next t := by
  simp only [systemStep, Option.map_eq_some_iff] at taken
  obtain ⟨⟨c, body⟩, hsend, heq⟩ := taken
  cases heq
  have moved : (Pool.pool Zmsg Worker).step pool (.post [clients.identity client, body]) =
      some ({ pool with net := pool.net.send .posted [clients.identity client, body] },
        [.posted [clients.identity client, body]]) := rfl
  refine ⟨_, _, Machine.exec_singleton moved, ?_, h.hands, ?_⟩
  · rw [h.net]
  · intro msg hmem
    rcases List.mem_append.mp hmem with old | new
    · exact h.posted msg old
    · cases List.mem_singleton.mp new
      exact ⟨client, body, rfl⟩

theorem Follows.workerRecv (h : Follows clients pool s) {worker : Worker} {index : Nat}
    {value : Random}
    (taken : systemStep clients s (.workerRecv worker index value) = some (t, out)) :
    ∃ fs next, (Pool.pool Zmsg Worker).exec pool fs =
      some (next, out.map (SystemOutput.entry clients)) ∧ Follows clients next t := by
  simp only [systemStep] at taken
  split at taken
  case h_2 => cases taken
  case h_1 msg left hpc hpick =>
    cases taken
    obtain ⟨client, body, rfl⟩ := h.posted msg (Network.mem_of_pick hpick)
    obtain ⟨free, hreplies, held⟩ :=
      (h.hands worker).take hpc (clients.identity client) body value
    have moved : (Pool.pool Zmsg Worker).step pool (.take worker index (randof 5 value)) =
        some ({ net := left
                hands := Function.update pool.hands worker
                  (List.replicate (randof 5 value) [clients.identity client, body]) },
          [.taken worker [clients.identity client, body] (randof 5 value)]) := by
      simp [Pool.pool, Pool.step, h.net, free, hpick]
    rw [hreplies]
    refine ⟨_, _, Machine.exec_singleton moved, rfl, ?_, ?_⟩
    · exact related_update (fun _ => Holds) h.hands held
    · intro other hmem
      exact h.posted other (Network.mem_of_mem_pick hpick hmem)

theorem Follows.workerSend (h : Follows clients pool s) {worker : Worker}
    (taken : systemStep clients s (.workerSend worker) = some (t, out)) :
    ∃ fs next, (Pool.pool Zmsg Worker).exec pool fs =
      some (next, out.map (SystemOutput.entry clients)) ∧ Follows clients next t := by
  have held := h.hands worker
  simp only [systemStep] at taken
  split at taken
  case h_1 => cases taken
  case h_2 next hsend =>
    cases taken
    obtain ⟨-, held⟩ | ⟨msg, more, hnone, -⟩ := held.send hsend
    · refine ⟨[], pool, rfl, h.net, ?_, h.posted⟩
      rw [← Function.update_eq_self worker pool.hands]
      exact related_update (fun _ => Holds) h.hands held
    · cases hnone
  case h_3 next msg hsend =>
    cases taken
    obtain ⟨hnone, -⟩ | ⟨_, more, hmsg, busy, held⟩ := held.send hsend
    · cases hnone
    · cases hmsg
      have moved : (Pool.pool Zmsg Worker).step pool (.answer worker) =
          some ({ net := pool.net.send .answered msg
                  hands := Function.update pool.hands worker more },
            [.answered worker msg]) := by
        simp [Pool.pool, Pool.step, busy]
      refine ⟨_, _, Machine.exec_singleton moved, ?_, ?_, ?_⟩
      · rw [h.net]
      · exact related_update (fun _ => Holds) h.hands held
      · intro other hmem
        rcases List.mem_append.mp hmem with old | new
        · exact h.posted other old
        · cases List.mem_singleton.mp new

/-- Every step of the system is matched by the pool. -/
theorem Follows.step {e : SystemEvent Client Worker} (h : Follows clients pool s)
    (taken : (system Worker clients).step s e = some (t, out)) :
    ∃ fs next, (Pool.pool Zmsg Worker).exec pool fs =
      some (next, out.map (SystemOutput.entry clients)) ∧ Follows clients next t := by
  cases e with
  | clientPoll client revents =>
      simp only [system, systemStep, Option.map_eq_some_iff] at taken
      obtain ⟨c, -, heq⟩ := taken
      cases heq
      exact ⟨[], pool, rfl, h.net, h.hands, h.posted⟩
  | clientRecv client index => exact h.clientRecv taken
  | clientSend client => exact h.clientSend taken
  | workerRecv worker index value => exact h.workerRecv taken
  | workerSend worker => exact h.workerSend taken

/-- Every run of the system is a run of the pool. -/
theorem follows_of_run {es : List (SystemEvent Client Worker)}
    {os : List (SystemOutput Client Worker)} (run : (system Worker clients).Run es os s) :
    ∃ fs pool, (Pool.pool Zmsg Worker).Run fs (os.map (SystemOutput.entry clients)) pool := by
  obtain ⟨fs, pool, matched, -⟩ :=
    run.refine (SystemOutput.entry clients) (fun s pool => Follows clients pool s) Follows.init
      fun _ _ _ _ _ follows taken => follows.step taken
  exact ⟨fs, pool, matched⟩

omit [DecidableEq Client] in
theorem requestText_injective : Function.Injective requestText := by
  intro n m h
  exact decimal_injective (List.append_cancel_left h)

theorem requestNbr_clientPoll {c next : ClientState} {revents : Bool}
    (h : clientPoll c revents = some next) : next.requestNbr = c.requestNbr := by
  unfold clientPoll at h
  split at h <;> cases h
  rfl

theorem requestNbr_clientRecv {c next : ClientState} (h : clientRecv c = some next) :
    next.requestNbr = c.requestNbr := by
  unfold clientRecv at h
  split at h <;> cases h
  rfl

/-- A counter that is not lowered is not lowered among the others. -/
theorem requestNbr_update {ends : Client → ClientState} {client : Client} {next : ClientState}
    (h : (ends client).requestNbr ≤ next.requestNbr) (other : Client) :
    (ends other).requestNbr ≤ (Function.update ends client next other).requestNbr := by
  by_cases hother : other = client
  · rw [hother, Function.update_self]
    exact h
  · rw [Function.update_of_ne hother]

/-- What a step adds to the requests. -/
theorem requests_of_step {e : SystemEvent Client Worker}
    (taken : (system Worker clients).step s e = some (t, out)) :
    (∀ client, (s.client client).requestNbr ≤ (t.client client).requestNbr) ∧
      ((∀ client body, .requested client body ∉ out) ∨
        ∃ client, out = [.requested client (requestText ((s.client client).requestNbr + 1))] ∧
          (t.client client).requestNbr = (s.client client).requestNbr + 1) := by
  change systemStep clients s e = some (t, out) at taken
  cases e with
  | clientPoll client revents =>
      simp only [systemStep, Option.map_eq_some_iff] at taken
      obtain ⟨c, hpoll, heq⟩ := taken
      cases heq
      exact ⟨requestNbr_update (requestNbr_clientPoll hpoll).ge, Or.inl (by simp)⟩
  | clientRecv client index =>
      simp only [systemStep] at taken
      split at taken
      case h_2 => cases taken
      case h_1 c address msg left hrecv hpick =>
        split at taken
        case isFalse => cases taken
        case isTrue =>
          cases taken
          exact ⟨requestNbr_update (requestNbr_clientRecv hrecv).ge, Or.inl (by simp)⟩
  | clientSend client =>
      simp only [systemStep, Option.map_eq_some_iff] at taken
      obtain ⟨⟨c, body⟩, hsend, heq⟩ := taken
      cases heq
      simp only [clientSend, Option.ite_none_right_eq_some, Option.some.injEq] at hsend
      obtain ⟨-, hsend⟩ := hsend
      cases hsend
      exact ⟨requestNbr_update (Nat.le_succ _), Or.inr ⟨client, rfl, by simp⟩⟩
  | workerRecv worker index value =>
      simp only [systemStep] at taken
      split at taken <;> cases taken
      exact ⟨fun _ => Nat.le_refl _, Or.inl (by simp)⟩
  | workerSend worker =>
      simp only [systemStep] at taken
      split at taken <;> cases taken
      · exact ⟨fun _ => Nat.le_refl _, Or.inl (by simp)⟩
      · exact ⟨fun _ => Nat.le_refl _, Or.inl (by simp)⟩

/-- The texts of a client's requests are those of the numbers up to its counter, each
used once. -/
structure Numbered (os : List (SystemOutput Client Worker)) (s : SystemState Client Worker) :
    Prop where
  texts : ∀ client body, .requested client body ∈ os →
    ∃ requestNbr ≤ (s.client client).requestNbr, body = requestText requestNbr
  once : ∀ client body, os.count (.requested client body) ≤ 1

theorem numbered_of_run {es : List (SystemEvent Client Worker)}
    {os : List (SystemOutput Client Worker)} (run : (system Worker clients).Run es os s) :
    Numbered os s := by
  apply run.output_invariant
  · exact ⟨fun _ _ hmem => (List.not_mem_nil hmem).elim, fun _ _ => Nat.zero_le 1⟩
  · intro os s e t out h taken
    obtain ⟨grows, none | ⟨client, rfl, hnext⟩⟩ := requests_of_step taken
    · constructor
      · intro client body hmem
        rcases List.mem_append.mp hmem with old | new
        · obtain ⟨requestNbr, hle, rfl⟩ := h.texts client body old
          exact ⟨requestNbr, hle.trans (grows client), rfl⟩
        · exact absurd new (none client body)
      · intro client body
        rw [List.count_append, List.count_eq_zero.mpr (none client body)]
        exact h.once client body
    · constructor
      · intro other body hmem
        rcases List.mem_append.mp hmem with old | new
        · obtain ⟨requestNbr, hle, rfl⟩ := h.texts other body old
          exact ⟨requestNbr, hle.trans (grows other), rfl⟩
        · cases List.mem_singleton.mp new
          exact ⟨_, hnext.ge, rfl⟩
      · intro other body
        rw [List.count_append, List.count_singleton]
        split
        case isFalse => exact h.once other body
        case isTrue same =>
          -- the new number is greater than those of the texts before
          cases eq_of_beq same
          have fresh : os.count (.requested client
              (requestText ((s.client client).requestNbr + 1))) = 0 := by
            apply List.count_eq_zero.mpr
            intro hmem
            obtain ⟨requestNbr, hle, htext⟩ := h.texts client _ hmem
            have heq := requestText_injective htext
            omega
          rw [fresh]

end

/-! ## The replies -/

section

variable (clients : Clients Client)

/-- The workers that have handled a request, with the number of replies each has drawn. -/
def handlers (os : List (SystemOutput Client Worker)) (client : Client) (body : Frame) :
    List (Worker × Nat) :=
  Pool.takers (os.map (SystemOutput.entry clients)) [clients.identity client, body]

/-- The message a worker has received last. -/
def lastHandled (os : List (SystemOutput Client Worker)) (worker : Worker) : Option Zmsg :=
  Pool.lastTaken (os.map (SystemOutput.entry clients)) worker

omit [DecidableEq Client] [DecidableEq Worker] in
/-- No two entries are the same to the pool: the clients' identities are distinct. -/
theorem entry_injective :
    Function.Injective
      (SystemOutput.entry clients : SystemOutput Client Worker → Pool.Entry Zmsg Worker) := by
  intro o o' h
  cases o <;> cases o' <;> simp_all [SystemOutput.entry, clients.distinct.eq_iff]

variable {clients} {s : SystemState Client Worker} {es : List (SystemEvent Client Worker)}
  {os : List (SystemOutput Client Worker)}

/-- What the pool says of an entry and those before it. -/
theorem due_of_run (run : (system Worker clients).Run es os s)
    {before after : List (SystemOutput Client Worker)} {o : SystemOutput Client Worker}
    (heq : os = before ++ o :: after) :
    Pool.Due (before.map (SystemOutput.entry clients)) (o.entry clients) := by
  obtain ⟨fs, pool, matched⟩ := follows_of_run run
  rw [heq, List.map_append, List.map_cons] at matched
  exact Pool.due_of_run matched rfl

omit [DecidableEq Client] [DecidableEq Worker] in
/-- A message that the pool has as posted is the request of a client. -/
theorem requested_of_posted {msg : Zmsg} (h : .posted msg ∈ os.map (SystemOutput.entry clients)) :
    ∃ client body, msg = [clients.identity client, body] ∧ .requested client body ∈ os := by
  obtain ⟨o, hmem, heq⟩ := List.mem_map.mp h
  cases o with
  | requested client body =>
      cases heq
      exact ⟨client, body, rfl, hmem⟩
  | _ => cases heq

/-- What a client receives is the content of a request it has sent before. Of its
requests no two are the same, each is handled by one worker at most, and the client
receives no more replies to it than that worker has drawn. What a worker sends is the
message it has received last, the identity and the content of one request. -/
theorem replies_paired (run : (system Worker clients).Run es os s) :
    (∀ before client msg after, os = before ++ .received client msg :: after →
      ∃ body, msg = [body] ∧ .requested client body ∈ before) ∧
    (∀ client body, os.count (.requested client body) ≤ 1 ∧
      (handlers clients os client body).length ≤ 1 ∧
      os.count (.received client [body]) ≤
        ((handlers clients os client body).map Prod.snd).sum) ∧
    ∀ before worker msg after, os = before ++ .replied worker msg :: after →
      lastHandled clients before worker = some msg ∧
      ∃ client body, msg = [clients.identity client, body] ∧
        .requested client body ∈ before := by
  refine ⟨?_, ?_, ?_⟩
  · intro before client msg after heq
    obtain ⟨other, body, hmsg, hmem⟩ := requested_of_posted (due_of_run run heq)
    obtain ⟨hidentity, rfl⟩ := List.cons.inj hmsg
    cases clients.distinct hidentity
    exact ⟨body, rfl, hmem⟩
  · intro client body
    have once := (numbered_of_run run).once client body
    obtain ⟨fs, pool, matched⟩ := follows_of_run run
    rw [← List.count_map_of_injective os _ (entry_injective clients)] at once ⊢
    rw [← List.count_map_of_injective os _ (entry_injective clients)]
    exact ⟨once, (Pool.tally_of_run matched).deliveries_le once⟩
  · intro before worker msg after heq
    obtain ⟨last, posted⟩ := due_of_run run heq
    exact ⟨last, requested_of_posted posted⟩

end

/-- Two clients, "A" and "B". -/
def Clients.pair : Clients Bool where
  identity := fun client => if client then [66] else [65]
  distinct := by
    intro client other
    cases client <;> cases other <;> decide

/-- A client polls in vain and sends a request. -/
def request (client : Bool) : List (SystemEvent Bool Bool) :=
  List.replicate 100 (.clientPoll client false) ++ [.clientSend client]

/-- One worker answers "B" twice while the other one answers "A". -/
def crossedRun : List (SystemEvent Bool Bool) :=
  request false ++ request true ++
    [.workerRecv false 1 1073741824, .workerRecv true 0 536870912, .workerSend false,
      .workerSend true, .workerSend false, .workerSend true, .workerSend false,
      .workerSend false, .clientPoll true true, .clientRecv true 0, .clientPoll false true,
      .clientRecv false 0]

theorem replies_paired_crossed :
    ∃ os s, (system Bool Clients.pair).Run crossedRun os s ∧
      handlers Clients.pair os true (requestText 1) = [(false, 2)] ∧
      os.count (.received true [requestText 1]) ≤ 2 ∧
      ∀ before client msg after, os = before ++ .received client msg :: after →
        ∃ body, msg = [body] ∧ .requested client body ∈ before := by
  have h : ((system Bool Clients.pair).exec (system Bool Clients.pair).init crossedRun).map
      (fun r => handlers Clients.pair r.2 true (requestText 1)) = some [(false, 2)] := by
    decide +kernel
  obtain ⟨os, s, run, hhandlers⟩ := Machine.run_of_map_exec h
  obtain ⟨delivered, bounded, -⟩ := replies_paired run
  obtain ⟨-, -, hle⟩ := bounded true (requestText 1)
  rw [hhandlers] at hle
  exact ⟨os, s, run, hhandlers, hle, delivered⟩

end ZmqTest.Async
