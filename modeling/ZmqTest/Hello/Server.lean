/-
# The server that can be interrupted

`helloworld/server.c` looks for a signal before each receive and again behind it, so that a
receive that a signal has ended is never taken for a request. The signal may come at any
time: before a receive that then waits for one more request, or while the server sleeps
before it replies.
-/

import ZmqTest.Lib.Reqrep

namespace ZmqTest.Helloworld

open Reqrep

/-- `"World"`. -/
def reply : Frame := [87, 111, 114, 108, 100]

/-- The condition of the loop, `zmq_recv`, the test of `S_INTERRUPTED` behind it, and
`zmq_send` behind the sleep. -/
inductive ServerPc
  | loop
  | recv
  | test
  | send
  | stopped
  deriving DecidableEq

structure ServerState where
  pc : ServerPc
  /-- `S_INTERRUPTED`. -/
  interrupted : Bool
  socket : Rep
  deriving DecidableEq

inductive ServerEvent
  | /-- `s_signal_handler`. -/
    signal
  | loop
  | recv (msg : Option Zmsg)
  | /-- The receive is ended by a signal. -/
    recvFails
  | test
  | send
  deriving DecidableEq

/-- One step of `main`, or a signal. -/
def serverStep (s : ServerState) (e : ServerEvent) : Option (ServerState × List ReplierOutput) :=
  match s.pc, e with
  | _, .signal => some ({ s with interrupted := true }, [])
  | .loop, .loop => some ({ s with pc := if s.interrupted then .stopped else .recv }, [])
  | .recv, .recv msg =>
      match s.socket.recv msg with
      | none => none
      | some .dropped => some (s, [.dropped])
      | some .refused => some ({ s with pc := .test }, [.failed])
      | some (.received frame socket) =>
          some ({ s with pc := .test, socket := socket }, [.received socket.envelope frame])
  | .recv, .recvFails => if s.interrupted then some ({ s with pc := .test }, []) else none
  | .test, .test => some ({ s with pc := if s.interrupted then .stopped else .send }, [])
  | .send, .send =>
      match s.socket.send reply with
      | none => some ({ s with pc := .loop }, [.refused])
      | some (socket, msg) => some ({ s with pc := .loop, socket := socket }, [.transmitted msg])
  | _, _ => none

/-- The server of `helloworld/server.c`, from `s_catch_signals` on. -/
def server : Machine ServerState ServerEvent ReplierOutput where
  init :=
    { pc := .loop, interrupted := false
      socket := { sendingReply := false, envelope := [], unread := [] } }
  step := serverStep

/-- What a replier does of it. -/
def call? : ServerEvent → Option ReplierEvent
  | .recv msg => some (.recv msg)
  | .send => some .send
  | _ => none

variable {es : List ServerEvent} {os out : List ReplierOutput} {s t : ServerState}
  {e : ServerEvent} {r : ReplierState}

/-- The steps of the server: its calls are those of a replier, and a receive that goes on
waiting leaves it where it is. -/
inductive ServerMoves (s : ServerState) :
    ServerEvent → ServerState → List ReplierOutput → Prop
  | signal : ServerMoves s .signal { s with interrupted := true } []
  | loop (pc : s.pc = .loop) :
      ServerMoves s .loop { s with pc := if s.interrupted then .stopped else .recv } []
  | recv (msg : Option Zmsg) (next : ReplierState) (out : List ReplierOutput)
      (pc : s.pc = .recv)
      (call : (replier reply).step ⟨.recv, s.socket⟩ (.recv msg) = some (next, out)) :
      ServerMoves s (.recv msg)
        { s with pc := if next.pc = .recv then .recv else .test, socket := next.socket } out
  | recvFails (pc : s.pc = .recv) (signalled : s.interrupted = true) :
      ServerMoves s .recvFails { s with pc := .test } []
  | test (pc : s.pc = .test) :
      ServerMoves s .test { s with pc := if s.interrupted then .stopped else .send } []
  | send (next : ReplierState) (out : List ReplierOutput) (pc : s.pc = .send)
      (call : (replier reply).step ⟨.send, s.socket⟩ .send = some (next, out)) :
      ServerMoves s .send { s with pc := .loop, socket := next.socket } out

/-- Every step of the server is one of the listed ones. -/
theorem serverMoves_of_step (taken : server.step s e = some (t, out)) :
    ServerMoves s e t out := by
  obtain ⟨pc, interrupted, socket⟩ := s
  change serverStep _ e = some (t, out) at taken
  unfold serverStep at taken
  split at taken
  case h_1 =>
    cases taken
    exact .signal
  case h_2 hpc =>
    cases taken
    exact .loop hpc
  case h_3 msg hpc =>
    obtain rfl : pc = .recv := hpc
    simp only at taken
    cases received : socket.recv msg with
    | none => simp [received] at taken
    | some receipt =>
        cases receipt with
        | dropped =>
            simp only [received, Option.some.injEq, Prod.mk.injEq] at taken
            obtain ⟨rfl, rfl⟩ := taken
            exact .recv msg ⟨.recv, socket⟩ _ rfl (by simp [replier, replierStep, received])
        | refused =>
            simp only [received, Option.some.injEq, Prod.mk.injEq] at taken
            obtain ⟨rfl, rfl⟩ := taken
            exact .recv msg ⟨.send, socket⟩ _ rfl (by simp [replier, replierStep, received])
        | received frame after =>
            simp only [received, Option.some.injEq, Prod.mk.injEq] at taken
            obtain ⟨rfl, rfl⟩ := taken
            exact .recv msg ⟨.send, after⟩ _ rfl (by simp [replier, replierStep, received])
  case h_4 hpc =>
    split at taken
    case isTrue signalled =>
      cases taken
      exact .recvFails hpc signalled
    case isFalse => cases taken
  case h_5 hpc =>
    cases taken
    exact .test hpc
  case h_6 hpc =>
    simp only at taken
    cases sent : socket.send reply with
    | none =>
        simp only [sent, Option.some.injEq, Prod.mk.injEq] at taken
        obtain ⟨rfl, rfl⟩ := taken
        exact .send ⟨.recv, socket⟩ _ hpc (by simp [replier, replierStep, sent])
    | some next =>
        simp only [sent, Option.some.injEq, Prod.mk.injEq] at taken
        obtain ⟨rfl, rfl⟩ := taken
        exact .send ⟨.recv, next.1⟩ _ hpc (by simp [replier, replierStep, sent])
  case h_7 => cases taken

/-- Where the replier is that the server would be without signals. A receive that a signal
has ended leaves it where it was, and the server stops. -/
structure Plays (s : ServerState) (r : ReplierState) : Prop where
  socket : r.socket = s.socket
  recv : s.pc = .loop ∨ s.pc = .recv → r.pc = .recv
  send : s.pc = .send → r.pc = .send
  test : s.pc = .test → s.interrupted = false → r.pc = .send

/-- A step of the server is a call of the replier, or none. -/
theorem Plays.step (h : Plays s r) (taken : server.step s e = some (t, out)) :
    ∃ u, Plays t u ∧ ((call? e = none ∧ out = [] ∧ u = r) ∨
      ∃ call, call? e = some call ∧ (replier reply).step r call = some (u, out)) := by
  obtain ⟨rpc, rsocket⟩ := r
  obtain ⟨hsocket, hrecv, hsend, htest⟩ := h
  obtain rfl : rsocket = s.socket := hsocket
  cases serverMoves_of_step taken with
  | signal => exact ⟨_, ⟨rfl, hrecv, hsend, by simp⟩, Or.inl ⟨rfl, rfl, rfl⟩⟩
  | loop pc =>
      refine ⟨_, ⟨rfl, fun _ => hrecv (Or.inl pc), ?_, ?_⟩, Or.inl ⟨rfl, rfl, rfl⟩⟩ <;>
        cases s.interrupted <;> simp
  | recv msg next out pc call =>
      obtain rfl : rpc = .recv := hrecv (Or.inr pc)
      refine ⟨next, ⟨rfl, ?_, ?_, ?_⟩, Or.inr ⟨_, rfl, call⟩⟩ <;>
        cases hnext : next.pc <;> simp
  | recvFails pc signalled =>
      exact ⟨_, ⟨rfl, by simp, by simp, by simp [signalled]⟩, Or.inl ⟨rfl, rfl, rfl⟩⟩
  | test pc =>
      cases quiet : s.interrupted with
      | true => exact ⟨_, ⟨rfl, by simp, by simp, by simp⟩, Or.inl ⟨rfl, rfl, rfl⟩⟩
      | false =>
          exact ⟨_, ⟨rfl, by simp, fun _ => htest pc quiet, by simp⟩, Or.inl ⟨rfl, rfl, rfl⟩⟩
  | send next out pc call =>
      obtain rfl : rpc = .send := hsend pc
      have ready : next.pc = .recv := by
        cases replierMoves_of_step call <;> rfl
      exact ⟨next, ⟨rfl, fun _ => ready, by simp, by simp⟩, Or.inr ⟨_, rfl, call⟩⟩

/-- What the server does is what a replier does with the same messages. -/
theorem plays_of_run (run : server.Run es os s) :
    ∃ r, (replier reply).Run (es.filterMap call?) os r ∧ Plays s r := by
  induction run with
  | start => exact ⟨_, .start, ⟨rfl, fun _ => rfl, by simp [server], by simp [server]⟩⟩
  | extend prior taken ih =>
      obtain ⟨r, played, plays⟩ := ih
      obtain ⟨u, next, ⟨none, rfl, rfl⟩ | ⟨call, hcall, hstep⟩⟩ := plays.step taken
      · refine ⟨u, ?_, next⟩
        simpa [none] using played
      · refine ⟨u, ?_, next⟩
        simpa [hcall] using played.extend hstep

/-- The calls that a server makes after a signal. -/
def ServerPc.left : ServerPc → Nat
  | .recv => 1
  | .send => 1
  | _ => 0

/-- A receive that goes on waiting is not counted. -/
def isCall (o : ReplierOutput) : Bool := o ≠ .dropped

theorem left_of_step (signalled : s.interrupted = true)
    (taken : server.step s e = some (t, out)) :
    t.interrupted = true ∧ out.countP isCall + t.pc.left ≤ s.pc.left := by
  cases serverMoves_of_step taken with
  | signal => exact ⟨rfl, Nat.le_of_eq (Nat.zero_add _)⟩
  | loop pc => exact ⟨signalled, by simp [signalled, ServerPc.left]⟩
  | recv msg next out pc call =>
      refine ⟨signalled, ?_⟩
      rw [pc]
      cases replierMoves_of_step call <;> simp [isCall, ServerPc.left]
  | recvFails pc => exact ⟨signalled, by simp [ServerPc.left]⟩
  | test pc => exact ⟨signalled, by simp [signalled, ServerPc.left]⟩
  | send next out pc call =>
      refine ⟨signalled, ?_⟩
      rw [pc]
      cases replierMoves_of_step call <;> simp [isCall, ServerPc.left]

/-- One call at most is made after a signal. -/
theorem countP_isCall_le (signalled : s.interrupted = true)
    (hexec : server.exec s es = some (t, os)) : os.countP isCall + t.pc.left ≤ s.pc.left := by
  induction es generalizing s os with
  | nil =>
      cases hexec
      simp
  | cons e es ih =>
      obtain ⟨u, out, rest, taken, hrest, rfl⟩ := Machine.exec_cons_eq_some.mp hexec
      obtain ⟨still, first⟩ := left_of_step signalled taken
      have later := ih still hrest
      rw [List.countP_append]
      omega

/-- The server replies once to every request that has a delimiter, in the order in which
they come, whenever signals arrive; a receive that a signal has ended is not replied to.
One reply at most is missing, and none when the server is back at its loop and has read
the last request to its end. After a signal it makes one call more at most, besides
receives that go on waiting. -/
theorem replies_until_interrupted (run : server.Run es os s) :
    .failed ∉ os ∧
      (∃ due, due.length ≤ 1 ∧
        replies os ++ due = (offered (es.filterMap call?)).filterMap (replyTo reply) ∧
        (s.pc = .loop → s.socket.unread = [] → due = [])) ∧
      (s.interrupted = true → ∀ fs rest t, server.exec s fs = some (t, rest) →
        rest.countP isCall ≤ 1) := by
  obtain ⟨r, played, plays⟩ := plays_of_run run
  have h := replies_of_run played
  refine ⟨h.sound, ⟨r.due reply, ?_, h.each, fun pc read => ?_⟩, ?_⟩
  · unfold ReplierState.due
    split <;> simp
  · have turn := h.turn (plays.recv (Or.inl pc))
    rw [plays.socket] at turn
    simp [ReplierState.due, plays.socket, turn, read]
  · intro signalled fs rest t hexec
    have few := countP_isCall_le signalled hexec
    have one : s.pc.left ≤ 1 := by cases s.pc <;> simp [ServerPc.left]
    omega

/-- A request is replied to; the signal comes while the next one is waited for, and it is
received without a reply. -/
def interruptedRun : List ServerEvent :=
  [.loop, .recv (some [[65], [], [72]]), .test, .send, .loop, .signal]

theorem replies_until_interrupted_late : ∃ os s, server.Run interruptedRun os s ∧
    s.interrupted = true ∧ replies os = [[[65], [], reply]] ∧
    ∃ t, server.exec s [.recv (some [[66], [], [72]]), .test] = some (t, [.received [[66]] [72]]) ∧
      t.pc = .stopped ∧ [ReplierOutput.received [[66]] [72]].countP isCall ≤ 1 := by
  have hexec : (server.exec server.init interruptedRun).map
      (fun r => (r.1, replies r.2)) =
      some (⟨.recv, true, ⟨false, [[65]], []⟩⟩, [[[65], [], reply]]) := by decide +kernel
  obtain ⟨os, s, run, hsee⟩ := Machine.run_of_map_exec hexec
  obtain ⟨rfl, hreplies⟩ := Prod.mk.inj hsee
  have last : server.exec ⟨.recv, true, ⟨false, [[65]], []⟩⟩
      [.recv (some [[66], [], [72]]), .test] =
        some (⟨.stopped, true, ⟨true, [[66]], []⟩⟩, [.received [[66]] [72]]) := by decide +kernel
  obtain ⟨-, -, few⟩ := replies_until_interrupted run
  exact ⟨os, _, run, rfl, hreplies, _, last, rfl, few rfl _ _ _ last⟩

end ZmqTest.Helloworld
