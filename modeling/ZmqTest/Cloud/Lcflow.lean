/-
# The cloud broker

The main loop of `lcflow.c`. One iteration reads at most one message from the
backends, a worker's or a peer's reply, and sends it to the peer it names or to
a local client; then the inner loop takes requests from the frontends while
there are workers. A request that comes from a peer goes to a worker here; a
local one may be sent on to a peer instead. The list of workers is kept by
hand beside the counter `capacity`.

An event is a poll, or a receive with everything that is done with the message.
-/

import ZmqTest.Base
import ZmqTest.Lib.Machine

namespace ZmqTest.Cloud

/-- `WORKER_READY`. -/
def workerReady : Frame := [1]

/-- The command line: `argv[1]` and those after it. -/
structure Argv where
  self : Frame
  peers : List Frame
  deriving DecidableEq

/-- The call of `zmq_poll` or `zmsg_recv` that comes next. -/
inductive LcflowPc
  | pollBackends
  | localbe
  | cloudbe
  | pollFrontends
  | cloudfe
  | localfe
  | stopped
  | /-- A failing assertion, or the use of a null pointer. -/
    aborted
  deriving DecidableEq

structure LcflowState where
  pc : LcflowPc
  capacity : Int
  workers : List Frame
  deriving DecidableEq

/-- The next two values of `random()`. -/
structure Draws where
  reroute : Random
  peer : Random
  deriving DecidableEq

inductive LcflowEvent
  | /-- An error, or the readiness of `localbe` and `cloudbe`. -/
    pollBackends (rc : Option (Bool × Bool))
  | /-- An error, or the readiness of `localfe` and `cloudfe`. -/
    pollFrontends (rc : Option (Bool × Bool))
  | /-- `zmsg_recv`, which gives `none` when it is interrupted. -/
    recv (msg : Option Zmsg) (draws : Draws)
  deriving DecidableEq

inductive LcflowEffect
  | toLocalbe (msg : Zmsg)
  | toCloudbe (msg : Zmsg)
  | toLocalfe (msg : Zmsg)
  | toCloudfe (msg : Zmsg)
  deriving DecidableEq

/-- The head of the loop `while(capacity)`. -/
def LcflowState.innerLoop (s : LcflowState) : LcflowState :=
  { s with pc := if s.capacity ≠ 0 then .pollFrontends else .pollBackends }

/-- The loop over `argv`: a message whose first frame is the name of a peer goes
to `cloudfe`. What is left of the message comes with what was sent; `none` is
the data of a frame that is not there. -/
def routeToPeer : List Frame → Option Zmsg → Option (Option Zmsg × List LcflowEffect)
  | [], msg => some (msg, [])
  | _ :: _, none => some (none, [])
  | peer :: peers, some msg =>
      match msg.first with
      | none => none
      | some frame =>
          if frame = peer then
            (routeToPeer peers none).map fun (left, sent) => (left, .toCloudfe msg :: sent)
          else routeToPeer peers (some msg)

/-- From the loop over `argv` to the inner loop, with the reply at hand. -/
def routeReply (argv : Argv) (s : LcflowState) (msg : Option Zmsg) :
    LcflowState × List LcflowEffect :=
  match routeToPeer argv.peers msg with
  | none => ({ s with pc := .aborted }, [])
  | some (none, sent) => (s.innerLoop, sent)
  | some (some msg, sent) => (s.innerLoop, sent ++ [.toLocalfe msg])

/-- A message of a worker: it becomes available, and a READY ends here. -/
def onLocalbe (argv : Argv) (s : LcflowState) (msg : Zmsg) : LcflowState × List LcflowEffect :=
  match msg.unwrap with
  | none => ({ s with pc := .aborted }, [])
  | some (id, body) =>
      let s := { s with workers := s.workers ++ [id], capacity := s.capacity + 1 }
      match body.first with
      | none => ({ s with pc := .aborted }, [])
      | some frame => routeReply argv s (if frame.startsWith 1 then none else some body)

/-- A reply from a peer: its name is taken off. -/
def onCloudbe (argv : Argv) (s : LcflowState) (msg : Zmsg) : LcflowState × List LcflowEffect :=
  match msg.unwrap with
  | none => ({ s with pc := .aborted }, [])
  | some (_, body) => routeReply argv s (some body)

/-- A request is sent to the first worker of the list. -/
def toWorker (s : LcflowState) (msg : Zmsg) : LcflowState × List LcflowEffect :=
  match s.workers with
  | [] => ({ s with pc := .aborted }, [])
  | worker :: workers =>
      ({ s with workers := workers, capacity := s.capacity - 1 }.innerLoop,
        [.toLocalbe (msg.wrap worker)])

/-- A request of a client: sometimes it goes to a peer. `argv[argc]` is the null
pointer. -/
def onLocalfe (argv : Argv) (s : LcflowState) (msg : Zmsg) (draws : Draws) :
    LcflowState × List LcflowEffect :=
  if argv.peers ≠ [] ∧ randof 5 draws.reroute = 0 then
    match argv.peers[randof argv.peers.length draws.peer]? with
    | none => ({ s with pc := .aborted }, [])
    | some peer => (s.innerLoop, [.toCloudbe (msg.push peer)])
  else toWorker s msg

/-- One step of `main`. -/
def lcflowStep (argv : Argv) (s : LcflowState) (e : LcflowEvent) :
    Option (LcflowState × List LcflowEffect) :=
  match s.pc, e with
  | .pollBackends, .pollBackends none => some ({ s with pc := .stopped }, [])
  | .pollBackends, .pollBackends (some (localbe, cloudbe)) =>
      if localbe then some ({ s with pc := .localbe }, [])
      else if cloudbe then some ({ s with pc := .cloudbe }, [])
      else some (routeReply argv s none)
  | .localbe, .recv none _ => some ({ s with pc := .stopped }, [])
  | .localbe, .recv (some msg) _ => some (onLocalbe argv s msg)
  | .cloudbe, .recv none _ => some ({ s with pc := .stopped }, [])
  | .cloudbe, .recv (some msg) _ => some (onCloudbe argv s msg)
  | .pollFrontends, .pollFrontends none => some ({ s with pc := .aborted }, [])
  | .pollFrontends, .pollFrontends (some (localfe, cloudfe)) =>
      if cloudfe then some ({ s with pc := .cloudfe }, [])
      else if localfe then some ({ s with pc := .localfe }, [])
      else some ({ s with pc := .pollBackends }, [])
  | .cloudfe, .recv none _ => some ({ s with pc := .aborted }, [])
  | .cloudfe, .recv (some msg) _ => some (toWorker s msg)
  | .localfe, .recv none _ => some ({ s with pc := .aborted }, [])
  | .localfe, .recv (some msg) draws => some (onLocalfe argv s msg draws)
  | _, _ => none

/-- The broker when its threads are started. -/
def lcflowInit : LcflowState := { pc := .pollBackends, capacity := 0, workers := [] }

/-- The broker of `lcflow.c`. -/
def lcflow (argv : Argv) : Machine LcflowState LcflowEvent LcflowEffect where
  init := lcflowInit
  step := lcflowStep argv

@[simp]
theorem routeToPeer_none (peers : List Frame) : routeToPeer peers none = some (none, []) := by
  cases peers <;> rfl

/-- A reply goes to the peer it names, if it names one. -/
theorem routeToPeer_cons (peers : List Frame) (frame : Frame) (rest : Zmsg) :
    routeToPeer peers (some (frame :: rest)) =
      if frame ∈ peers then some (none, [.toCloudfe (frame :: rest)])
      else some (some (frame :: rest), []) := by
  induction peers with
  | nil => rfl
  | cons peer peers ih =>
      by_cases h : frame = peer
      · simp [routeToPeer, Zmsg.first, h]
      · simp [routeToPeer, Zmsg.first, h, ih]

theorem routeReply_none (argv : Argv) (s : LcflowState) :
    routeReply argv s none = (s.innerLoop, []) := by
  simp [routeReply]

/-- A reply is sent to a peer or to a client, and to one of them. -/
theorem routeReply_cons (argv : Argv) (s : LcflowState) (frame : Frame) (rest : Zmsg) :
    routeReply argv s (some (frame :: rest)) =
      (s.innerLoop,
        if frame ∈ argv.peers then [.toCloudfe (frame :: rest)]
        else [.toLocalfe (frame :: rest)]) := by
  rw [routeReply, routeToPeer_cons]
  by_cases h : frame ∈ argv.peers <;> simp [h]

/-- A poll sends nothing. -/
theorem poll_sends_nothing {argv : Argv} {s t : LcflowState} {e : LcflowEvent}
    {out : List LcflowEffect} (poll : ∀ msg draws, e ≠ .recv (some msg) draws)
    (taken : (lcflow argv).step s e = some (t, out)) : out = [] := by
  change lcflowStep argv s e = some (t, out) at taken
  unfold lcflowStep at taken
  split at taken
  case h_2 localbe cloudbe _ =>
    rw [routeReply_none] at taken
    split at taken
    · cases taken
      rfl
    · split at taken <;> cases taken <;> rfl
  case h_4 msg draws _ => exact absurd rfl (poll msg draws)
  case h_6 msg draws _ => exact absurd rfl (poll msg draws)
  case h_8 localfe cloudfe _ =>
    split at taken
    · cases taken
      rfl
    · split at taken <;> cases taken <;> rfl
  case h_10 msg draws _ => exact absurd rfl (poll msg draws)
  case h_12 msg draws _ => exact absurd rfl (poll msg draws)
  case h_13 => cases taken
  all_goals
    cases taken
    rfl

/-- A reply does not go to the backends. -/
theorem routeReply_sends {argv : Argv} {s : LcflowState} {msg : Option Zmsg}
    {effect : LcflowEffect} (hmem : effect ∈ (routeReply argv s msg).2) :
    ∃ sent, effect = .toCloudfe sent ∨ effect = .toLocalfe sent := by
  cases msg with
  | none =>
      rw [routeReply_none] at hmem
      cases hmem
  | some msg =>
      cases msg with
      | nil =>
          cases hpeers : argv.peers with
          | nil =>
              simp only [routeReply, hpeers, routeToPeer, List.nil_append, List.mem_singleton]
                at hmem
              exact ⟨[], Or.inr hmem⟩
          | cons peer peers =>
              simp only [routeReply, hpeers, routeToPeer, Zmsg.first, List.head?_nil] at hmem
              cases hmem
      | cons frame rest =>
          rw [routeReply_cons] at hmem
          by_cases h : frame ∈ argv.peers
          · rw [if_pos h, List.mem_singleton] at hmem
            exact ⟨_, Or.inl hmem⟩
          · rw [if_neg h, List.mem_singleton] at hmem
            exact ⟨_, Or.inr hmem⟩

theorem onLocalbe_sends {argv : Argv} {s : LcflowState} {msg : Zmsg} {effect : LcflowEffect}
    (hmem : effect ∈ (onLocalbe argv s msg).2) :
    ∃ sent, effect = .toCloudfe sent ∨ effect = .toLocalfe sent := by
  unfold onLocalbe at hmem
  split at hmem
  case h_1 => cases hmem
  case h_2 id body _ =>
    dsimp only at hmem
    split at hmem
    case h_1 => cases hmem
    case h_2 frame _ => exact routeReply_sends hmem

theorem onCloudbe_sends {argv : Argv} {s : LcflowState} {msg : Zmsg} {effect : LcflowEffect}
    (hmem : effect ∈ (onCloudbe argv s msg).2) :
    ∃ sent, effect = .toCloudfe sent ∨ effect = .toLocalfe sent := by
  unfold onCloudbe at hmem
  split at hmem
  case h_1 => cases hmem
  case h_2 id body _ => exact routeReply_sends hmem

theorem toWorker_sends {s : LcflowState} {msg : Zmsg} {effect : LcflowEffect}
    (hmem : effect ∈ (toWorker s msg).2) : ∃ sent, effect = .toLocalbe sent := by
  unfold toWorker at hmem
  split at hmem
  · cases hmem
  · exact ⟨_, List.mem_singleton.mp hmem⟩

/-- Only a request of a client goes to a peer, and nothing else is sent with it. -/
theorem eq_singleton_of_toCloudbe {argv : Argv} {s t : LcflowState} {msg sent : Zmsg}
    {draws : Draws} {out : List LcflowEffect}
    (taken : lcflowStep argv s (.recv (some msg) draws) = some (t, out))
    (hmem : .toCloudbe sent ∈ out) : s.pc = .localfe ∧ out = [.toCloudbe sent] := by
  cases hpc : s.pc <;> simp only [lcflowStep, hpc, Option.some.injEq, reduceCtorEq] at taken
  case localbe =>
    obtain rfl : (onLocalbe argv s msg).2 = out := congrArg Prod.snd taken
    obtain ⟨other, h | h⟩ := onLocalbe_sends hmem <;> cases h
  case cloudbe =>
    obtain rfl : (onCloudbe argv s msg).2 = out := congrArg Prod.snd taken
    obtain ⟨other, h | h⟩ := onCloudbe_sends hmem <;> cases h
  case cloudfe =>
    obtain rfl : (toWorker s msg).2 = out := congrArg Prod.snd taken
    obtain ⟨other, h⟩ := toWorker_sends hmem
    cases h
  case localfe =>
    refine ⟨rfl, ?_⟩
    unfold onLocalfe at taken
    split at taken
    · split at taken
      · cases taken
        cases hmem
      · cases taken
        rw [List.mem_singleton.mp hmem]
    · obtain rfl : (toWorker s msg).2 = out := congrArg Prod.snd taken
      obtain ⟨other, h⟩ := toWorker_sends hmem
      cases h

end ZmqTest.Cloud
