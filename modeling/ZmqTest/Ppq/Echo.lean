/-
# Which requests a worker answers

A request is sent back in the step that reads it, unless the worker simulates a crash
or an overload. An overload was meant to delay the reply, and drops it: the send
stands in the branch that is not taken. What is sent back is what was received, in
order, exactly as long as no overload is drawn in a step that goes on.
-/

import ZmqTest.Ppq.Worker

namespace ZmqTest.Ppq

/-- The request an event hands to the worker. -/
def WorkerEvent.request? : WorkerEvent → Option Zmsg
  | .recv (some [a, b, c]) _ _ => some [a, b, c]
  | _ => none

/-- A message of three frames that is sent. -/
def WorkerEffect.reply? : WorkerEffect → Option Zmsg
  | .send [a, b, c] => some [a, b, c]
  | _ => none

/-- The requests received in a run, in order. -/
def requestsReceived (es : List WorkerEvent) : List Zmsg := es.filterMap WorkerEvent.request?

/-- The replies sent in a run, in order. -/
def repliesSent (os : List WorkerEffect) : List Zmsg := os.filterMap WorkerEffect.reply?

/-- A step sends back the request it reads, once and unchanged, unless the worker
stops, and it sends no other message of three frames. -/
def Echoes (s : WorkerState) (e : WorkerEvent) : Prop :=
  ∀ t out, worker.step s e = some (t, out) →
    repliesSent out = e.request?.toList ∨ t.pc = .stopped ∧ repliesSent out = []

/-- The replies are the requests in order, up to the one the worker stopped with. -/
def EchoesInOrder (es : List WorkerEvent) (os : List WorkerEffect) (s : WorkerState) : Prop :=
  repliesSent os = requestsReceived es ∨
    s.pc = .stopped ∧
      ∃ early last, es = early ++ [last] ∧ repliesSent os = requestsReceived early

/-- No overload is drawn for a request, unless the sleep that follows is
interrupted. -/
def NotOverloaded (s : WorkerState) : WorkerEvent → Prop
  | .recv (some [_, _, _]) draws interrupted =>
      s.pc = .recv → fate (s.cycles + 1) draws = some .overload → interrupted = true
  | _ => True

instance (s : WorkerState) (e : WorkerEvent) : Decidable (NotOverloaded s e) := by
  unfold NotOverloaded
  split <;> infer_instance

/-- Outside the branch on requests a step receives and sends none. -/
theorem request?_eq_none {msg : Zmsg} (other : msg.length ≠ 3) (draws : List Random)
    (interrupted : Bool) : WorkerEvent.request? (.recv (some msg) draws interrupted) = none := by
  unfold WorkerEvent.request?
  split
  case h_1 heq =>
    simp only [WorkerEvent.recv.injEq, Option.some.injEq] at heq
    exact absurd (by rw [heq.1]; rfl) other
  case h_2 => rfl

theorem echoes_of_notOverloaded {s : WorkerState} {e : WorkerEvent} (h : NotOverloaded s e) :
    Echoes s e := by
  intro t out taken
  cases workerMoves_of_step taken with
  | crash a b c draws interrupted pc drawn => exact Or.inr ⟨rfl, rfl⟩
  | overload a b c draws interrupted pc drawn =>
      rw [h pc drawn]
      exact Or.inr ⟨rfl, rfl⟩
  | invalid msg draws interrupted pc request single =>
      rw [request?_eq_none request]
      exact Or.inl rfl
  | _ => exact Or.inl rfl

/-- An overload that is slept through leaves the request unanswered. -/
theorem notOverloaded_of_echoes {s : WorkerState} {e : WorkerEvent} (h : Echoes s e) :
    NotOverloaded s e := by
  unfold NotOverloaded
  split
  case h_1 a b c draws interrupted =>
    intro pc drawn
    cases interrupted with
    | true => rfl
    | false =>
        have taken : worker.step s (.recv (some [a, b, c]) draws false) =
            some (afterSleep { s with cycles := s.cycles + 1 } false, [.sleep 3000]) := by
          simp [worker, workerStep, pc, onMessage, onRequest, drawn]
        rcases h _ _ taken with answered | ⟨stopped, -⟩
        · cases answered
        · cases stopped
  case h_2 => trivial

theorem echoes_iff {s : WorkerState} {e : WorkerEvent} : Echoes s e ↔ NotOverloaded s e :=
  ⟨notOverloaded_of_echoes, echoes_of_notOverloaded⟩

theorem requestsReceived_append (es : List WorkerEvent) (e : WorkerEvent) :
    requestsReceived (es ++ [e]) = requestsReceived es ++ e.request?.toList := by
  rw [requestsReceived, List.filterMap_append, requestsReceived]
  cases h : e.request? <;> simp [h]

theorem echoesInOrder_of_run {es : List WorkerEvent} {os : List WorkerEffect} {s : WorkerState}
    (run : worker.Run es os s) (echoes : worker.StepsMeet Echoes es) : EchoesInOrder es os s := by
  induction run with
  | start => exact Or.inl rfl
  | @extend es os s t e out prior taken ih =>
      have inOrder : repliesSent os = requestsReceived es :=
        (ih echoes.prior).resolve_right fun ended => running_of_step taken ended.1
      have houtputs : repliesSent (os ++ out) = requestsReceived es ++ repliesSent out := by
        rw [← inOrder, repliesSent, List.filterMap_append, repliesSent, repliesSent]
      rcases echoes.last prior t out taken with answered | ⟨stopped, silent⟩
      · left
        rw [houtputs, answered, requestsReceived_append]
      · right
        refine ⟨stopped, es, e, rfl, ?_⟩
        rw [houtputs, silent, List.append_nil]

/-- Every request is sent back once, and the replies are the requests in order, if
and only if no overload is drawn for a request in a step that goes on. -/
theorem requests_echoed_iff {es : List WorkerEvent} {os : List WorkerEffect} {s : WorkerState}
    (run : worker.Run es os s) :
    (worker.StepsMeet Echoes es ∧ EchoesInOrder es os s) ↔
      worker.StepsMeet NotOverloaded es := by
  have pointwise : worker.StepsMeet Echoes es ↔ worker.StepsMeet NotOverloaded es :=
    Machine.stepsMeet_congr fun s e => echoes_iff
  constructor
  · intro ⟨echoes, _⟩
    exact pointwise.mp echoes
  · intro meets
    have echoes := pointwise.mpr meets
    exact ⟨echoes, echoesInOrder_of_run run echoes⟩

/-- The worker reads a request; the values drawn are those of the event. -/
def requestRound (draws : List Random) : List WorkerEvent :=
  [.poll (some true), .recv (some [[67], [], [72]]) draws false, .tick [0]]

/-- Three requests are answered, and for a fourth two values are drawn. -/
def fourRequests (draws : List Random) : List WorkerEvent :=
  .setup 0 :: (requestRound [] ++ requestRound [] ++ requestRound [] ++ requestRound draws)

/-- All four requests are answered. -/
theorem requests_echoed_iff_answered : ∃ os s,
    worker.Run (fourRequests [1073741824, 1073741824]) os s ∧
      worker.StepsMeet Echoes (fourRequests [1073741824, 1073741824]) ∧
      EchoesInOrder (fourRequests [1073741824, 1073741824]) os s := by
  have hexec : (worker.exec worker.init (fourRequests [1073741824, 1073741824])).isSome = true := by
    decide
  have run := Machine.run_of_exec (Option.some_get hexec).symm
  have meets : worker.StepsMeet NotOverloaded (fourRequests [1073741824, 1073741824]) :=
    Machine.stepsMeet_of_check (by decide)
  exact ⟨_, _, run, (requests_echoed_iff run).mpr meets⟩

/-- The fourth request meets an overload and is never answered. -/
theorem request_dropped : ¬ ∀ es os s, worker.Run es os s →
    worker.StepsMeet Echoes es ∧ EchoesInOrder es os s := by
  intro claim
  have hexec : (worker.exec worker.init (fourRequests [1073741824, 0])).isSome = true := by decide
  have hprior :
      (worker.exec worker.init ((fourRequests [1073741824, 0]).take 11)).isSome = true := by
    decide
  have run := Machine.run_of_exec (Option.some_get hexec).symm
  have prior := Machine.run_of_exec (Option.some_get hprior).symm
  have echoes := (claim _ _ _ run).1
  have last := echoes_iff.mp (echoes _ _ [.tick [0]] _ _ rfl prior)
  exact absurd (last (by decide) (by decide)) (by decide)

end ZmqTest.Ppq
