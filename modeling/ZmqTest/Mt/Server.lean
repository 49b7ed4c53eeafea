/-
# The multithreaded server and its clients

`helloworld/client.c` sends its text ten times; `mt/server.c` has five worker threads
behind a proxy, which passes each message whole, a request to one of the threads and a
reply to the client it names. A thread does not look at what its calls come to. To a
request of several frames it sends too early, and is refused until it has received the
last of them.
-/

import ZmqTest.Hello.Completion

namespace ZmqTest.Helloworld

/-- `"Hello"`. -/
def request : Frame := [72, 101, 108, 108, 111]

/-- The condition of the loop of `helloworld/client.c`. -/
def again (requestNbr : Nat) : Bool := requestNbr ≠ 10

/-- `helloworld/client.c`. -/
def client : Machine Reqrep.RequesterState Reqrep.RequesterEvent Reqrep.RequesterOutput :=
  Reqrep.requester request again

end ZmqTest.Helloworld

namespace ZmqTest.Mt

open Reqrep

/-- `"World"`. -/
def reply : Frame := [87, 111, 114, 108, 100]

/-- `worker_routine`. -/
def workerRoutine : Machine ReplierState ReplierEvent ReplierOutput := replier reply

def programs : Hello.Programs where
  request := Helloworld.request
  reply := reply
  again := Helloworld.again
  limit := 10
  loops := by decide

/-- The threads that are started. -/
abbrev Thread := Fin 5

/-- `mt/server.c` with the clients that are connected to it. -/
def server (clients : Hello.Clients) :
    Machine (Hello.SystemState (List Hello.Packet) Thread) (Hello.SystemEvent Nat Thread)
      (Hello.SystemOutput Thread) :=
  Hello.system Thread programs clients Conduit.bag

/-- In every run of the clients, the proxy and the threads no call is out of turn, every
request is the client's text and every reply the thread's, and what happens to the
requests of a client is that they are sent, taken by one thread, replied to by it and
received, one after the other, ten times at most. -/
theorem served_one_by_one {clients : Hello.Clients} {es : List (Hello.SystemEvent Nat Thread)}
    {os : List (Hello.SystemOutput Thread)} {s : Hello.SystemState (List Hello.Packet) Thread}
    (run : (server clients).Run es os s) :
    (∀ o ∈ os, Hello.Regular programs clients o) ∧
      ∀ client, Hello.Converses programs os s client :=
  Hello.converses_of_run (fun _ _ _ => trivial) (fun _ _ _ => Nat.le_refl 1) run

/-- Two clients; the second is served while the request of the first is on its way. -/
def twoClients : Hello.Clients where
  identities := {[65], [66]}
  nonempty := by decide

def overtakingRun : List (Hello.SystemEvent Nat Thread) :=
  [.clientSend [65], .clientSend [66], .carry 0, .workerRecv 3 (some 0), .carry 0,
    .workerRecv 1 (some 0), .workerSend 3, .carry 0, .clientRecv [66] (some 0), .workerSend 1]

theorem served_one_by_one_overtaking : ∃ os s, (server twoClients).Run overtakingRun os s ∧
    Hello.trail [65] os = [.asked, .taken 1, .served 1] ∧
    Hello.trail [66] os = [.asked, .taken 3, .served 3, .answered] ∧
    (∀ o ∈ os, Hello.Regular programs twoClients o) ∧
    ∀ client, Hello.Converses programs os s client := by
  have hexec : ((server twoClients).exec (server twoClients).init overtakingRun).map
      (fun r => (Hello.trail [65] r.2, Hello.trail [66] r.2)) =
      some ([.asked, .taken 1, .served 1], [.asked, .taken 3, .served 3, .answered]) := by
    decide +kernel
  obtain ⟨os, s, run, hsee⟩ := Machine.run_of_map_exec hexec
  obtain ⟨first, second⟩ := Prod.mk.inj hsee
  obtain ⟨regular, converses⟩ := served_one_by_one run
  exact ⟨os, s, run, first, second, regular, converses⟩

/-- However the clients, the proxy and the threads take their turns, they come to an end
after eighty steps for each client at most, and then every client has been answered
ten times. -/
theorem everyone_answered (clients : Hello.Clients) :
    (server clients).Finishes (80 * clients.identities.card) (Hello.Done programs clients) := by
  have finishes : (server clients).Finishes
      ((1 + 1) * (4 * 10 * clients.identities.card) + 0) (Hello.Done programs clients) :=
    Hello.finishes_of_contract (fun _ _ _ => trivial) fun _ _ _ => Nat.le_refl 1
  have bound : (1 + 1) * (4 * 10 * clients.identities.card) + 0 =
      80 * clients.identities.card := by omega
  rwa [bound] at finishes

/-- A thread replies once to every request that has a delimiter, in the order in which the
requests come, behind the envelope of each, whatever the number of their frames; one
reply at most is still due, to a request that has not been read or replied to. No
receive is out of turn. -/
theorem replies_once {es : List ReplierEvent} {os : List ReplierOutput} {s : ReplierState}
    (run : workerRoutine.Run es os s) :
    .failed ∉ os ∧ replies os ++ s.due reply = (offered es).filterMap (replyTo reply) ∧
      (s.due reply).length ≤ 1 ∧
      (s.pc = .recv → s.socket.unread = [] →
        replies os = (offered es).filterMap (replyTo reply)) := by
  have h := replies_of_run run
  refine ⟨h.sound, h.each, ?_, ?_⟩
  · unfold ReplierState.due
    split <;> simp
  · intro pc read
    have none : s.due reply = [] := by simp [ReplierState.due, h.turn pc, read]
    rw [← h.each, none, List.append_nil]

/-- A request of two frames, a message without a delimiter and a request of one frame. -/
def framesRun : List ReplierEvent :=
  [.recv (some [[65], [], [72], [105]]), .send, .recv none, .send, .recv (some [[66], [72]]),
    .recv (some [[66], [], []]), .send]

theorem replies_once_frames : ∃ os s, workerRoutine.Run framesRun os s ∧ .refused ∈ os ∧
    .failed ∉ os ∧ replies os = [[[65], [], reply], [[66], [], reply]] := by
  have hexec : (workerRoutine.exec workerRoutine.init framesRun).map
      (fun r => (r.1.pc, r.1.socket.unread, decide (ReplierOutput.refused ∈ r.2))) =
      some (.recv, [], true) := by decide +kernel
  obtain ⟨os, s, run, hsee⟩ := Machine.run_of_map_exec hexec
  simp only [Prod.mk.injEq, decide_eq_true_eq] at hsee
  obtain ⟨pc, read, refused⟩ := hsee
  obtain ⟨sound, -, -, all⟩ := replies_once run
  refine ⟨os, s, run, refused, sound, ?_⟩
  rw [all pc read]
  decide

end ZmqTest.Mt
