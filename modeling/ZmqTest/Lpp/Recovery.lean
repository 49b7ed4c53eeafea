/-
# When the Lazy Pirate client gives up

A timeout costs the client of `lpp/client.c` one of its retries, whatever has happened to
the request. When a timeout means that nothing of the attempt is under way any more, each of
them is owed to a fault, a loss or a crash of the server, and the client gives up after three
faults at the earliest. While it waits and nothing else goes wrong, its request is accepted
after six steps at most, a restart of the server and another attempt included.

Of an attempt there is never more than one trace: the request, the request in the server's
hands, or the reply.
-/

import ZmqTest.Lib.Progress
import ZmqTest.Lpp.Echo

namespace ZmqTest.Lpp

/-- Something of what was sent on the client's socket is under way, or with the server. -/
def EchoState.underWay (s : EchoState) : Bool :=
  s.net.any (fun packet => packet.1.socket = s.client.socket) ||
    decide (s.server.pc = .send ∧ s.server.peer = s.client.socket)

/-- A reply has come to the client's socket. -/
def EchoState.readable (s : EchoState) : Bool :=
  s.net.any fun packet => packet.1 = .replies s.client.socket

/-- A poll times out when nothing is under way, and tells of a reply that has come, which is
not lost any more. Calls fail only when they are interrupted. -/
def Fair (s : EchoState) : EchoEvent → Prop
  | .client .pollTimeout => s.underWay = false
  | .client .pollReady => s.readable = true
  | .client e => ErrorsInterrupted s.client e
  | .lose _ => s.client.pc ≠ .recv
  | _ => True

instance (s : EchoState) (e : EchoEvent) : Decidable (Fair s e) :=
  match e with
  | .client .pollTimeout => inferInstanceAs (Decidable (s.underWay = false))
  | .client .pollReady => inferInstanceAs (Decidable (s.readable = true))
  | .client .loop => inferInstanceAs (Decidable True)
  | .client .pollError => inferInstanceAs (Decidable (s.client.interrupted = true))
  | .client (.recv none) => inferInstanceAs (Decidable (s.client.interrupted = true))
  | .client (.recv (some _)) => inferInstanceAs (Decidable True)
  | .client .interrupt => inferInstanceAs (Decidable True)
  | .lose _ => inferInstanceAs (Decidable (s.client.pc ≠ .recv))
  | .clientRecv _ => inferInstanceAs (Decidable True)
  | .serverRecv _ _ _ _ => inferInstanceAs (Decidable True)
  | .serverSend => inferInstanceAs (Decidable True)
  | .serverStart => inferInstanceAs (Decidable True)

/-- The client and the server when timeouts and polls tell the truth. -/
def fairEcho : Machine EchoState EchoEvent EchoOutput := echo.restrict Fair

/-- What has become of what was sent last. -/
inductive Attempt
  | none
  | asked
  | handled
  | replied
  | failed
  deriving DecidableEq

/-- Where the attempt is, and nothing else is under way. -/
def At (s : EchoState) : Attempt → Prop
  | .none => s.client.outstanding = false ∧ s.net = [] ∧ s.server.pc ≠ .send
  | .asked =>
      s.client.outstanding = true ∧ s.net = [(.requests s.client.socket, s.client.request)] ∧
        s.server.pc ≠ .send
  | .handled =>
      s.client.outstanding = true ∧ s.net = [] ∧ s.server.pc = .send ∧
        s.server.peer = s.client.socket ∧ cstr s.server.request = s.client.request
  | .replied =>
      s.client.outstanding = true ∧ s.net = [(.replies s.client.socket, s.client.request)] ∧
        s.server.pc ≠ .send
  | .failed => s.client.outstanding = true ∧ s.net = [] ∧ s.server.pc ≠ .send

/-- What a step does to the attempt. -/
inductive Advances (s : EchoState) :
    Attempt → EchoEvent → EchoState → Attempt → List EchoOutput → Prop
  | stopped (a : Attempt) (pc : s.client.pc = .loop) :
      Advances s a (.client .loop) { s with client := { s.client with pc := .stopped } } a []
  | begun (pc : s.client.pc = .loop) {c : ClientState}
      (next : c = { s.client with
        pc := .poll
        sequence := s.client.sequence + 1
        request := decimal (s.client.sequence + 1)
        outstanding := true }) :
      Advances s .none (.client .loop)
        { s with client := c, net := [(.requests c.socket, c.request)] } .asked
        [.client (.transmitted c.socket c.request)]
  | overrun (a : Attempt) (pc : s.client.pc = .loop) :
      Advances s a (.client .loop)
        { s with
          client := { s.client with pc := .overrun, sequence := s.client.sequence + 1 } } a []
  | error (a : Attempt) (e : ClientEvent) (pc : s.client.pc = .poll ∨ s.client.pc = .recv)
      (interrupted : s.client.interrupted = true) :
      Advances s a (.client e) { s with client := { s.client with pc := .loop } } a []
  | interrupt (a : Attempt) :
      Advances s a (.client .interrupt)
        { s with client := { s.client with interrupted := true } } a []
  | abandoned (pc : s.client.pc = .poll) (last : s.client.retriesLeft - 1 = 0) :
      Advances s .failed (.client .pollTimeout)
        { s with
          client := { s.client with pc := .loop, retriesLeft := s.client.retriesLeft - 1 } }
        .failed [.client (.expired s.client.request)]
  | retried (pc : s.client.pc = .poll) (more : s.client.retriesLeft - 1 ≠ 0) :
      Advances s .failed (.client .pollTimeout)
        { s with
          client := { s.client with
            retriesLeft := s.client.retriesLeft - 1
            socket := s.client.socket + 1
            outstanding := true }
          net := [(.requests (s.client.socket + 1), s.client.request)] } .asked
        [.client (.expired s.client.request),
          .client (.transmitted (s.client.socket + 1) s.client.request)]
  | ready (pc : s.client.pc = .poll) :
      Advances s .replied (.client .pollReady)
        { s with client := { s.client with pc := .recv } } .replied []
  | accepted (index : Nat) (pc : s.client.pc = .recv) :
      Advances s .replied (.clientRecv index)
        { s with
          client := { s.client with
            pc := .loop
            retriesLeft := requestRetries
            outstanding := false }
          net := [] } .none
        [.client (.accepted s.client.request)]
  | crashed (socket index : Nat) (crash overload : Random)
      (drawn : 3 < (s.server.cycles + 1).bmod 4294967296 ∧ randof 3 crash = 0)
      {v : ServerState} (ended : v.pc = .crashed) {out : List ServerOutput}
      (pc : s.server.pc = .recv) :
      Advances s .asked (.serverRecv socket index crash overload)
        { s with server := v, net := [] } .failed (out.map .server)
  | received (socket index : Nat) (crash overload : Random) {v : ServerState}
      (holds : v.pc = .send) {out : List ServerOutput} (pc : s.server.pc = .recv) :
      Advances s .asked (.serverRecv socket index crash overload)
        { s with server := v, net := [] } .handled (out.map .server)
  | sent {v : ServerState} (again : v.pc = .recv) {out : List ServerOutput}
      (holding : s.server.pc = .send) :
      Advances s .handled .serverSend
        { s with server := v, net := [(.replies s.client.socket, s.client.request)] } .replied
        (out.map .server)
  | restarted (a : Attempt) (crashed : s.server.pc = .crashed) :
      Advances s a .serverStart { s with server := serverInit } a []
  | lost (a : Attempt) (index : Nat) (some_trace : a = .asked ∨ a = .replied)
      (pc : s.client.pc ≠ .recv) :
      Advances s a (.lose index) { s with net := [] } .failed []
  | missed (a : Attempt) (index : Nat) : Advances s a (.lose index) s a []

/-- What is so between the steps. -/
structure Standing (s : EchoState) (a : Attempt) : Prop where
  trace : At s a
  loop : s.client.pc = .loop →
    a = .none ∨ s.client.retriesLeft = 0 ∨ s.client.interrupted = true
  poll : s.client.pc = .poll → a ≠ .none
  recv : s.client.pc = .recv → a = .replied

section

variable {s t : EchoState} {a b : Attempt} {e : EchoEvent} {out : List EchoOutput}

theorem At.net_nil_or (h : At s a) : s.net = [] ∨ a = .asked ∨ a = .replied := by
  cases a with
  | asked => exact Or.inr (Or.inl rfl)
  | replied => exact Or.inr (Or.inr rfl)
  | none => exact Or.inl h.2.1
  | handled => exact Or.inl h.2.1
  | failed => exact Or.inl h.2.1

/-- Nothing is under way of an attempt that has failed. -/
theorem Standing.failed_of_not_underWay (h : Standing s a) (pc : s.client.pc = .poll)
    (nothing : s.underWay = false) : a = .failed := by
  have trace := h.trace
  cases a with
  | failed => rfl
  | none => exact absurd rfl (h.poll pc)
  | asked => simp [EchoState.underWay, trace.2.1, Channel.socket] at nothing
  | replied => simp [EchoState.underWay, trace.2.1, Channel.socket] at nothing
  | handled => simp [EchoState.underWay, trace.2.2.1, trace.2.2.2.1] at nothing

theorem At.replied_of_readable (h : At s a) (come : s.readable = true) : a = .replied := by
  cases a with
  | replied => rfl
  | none => simp [EchoState.readable, h.2.1] at come
  | asked => simp [EchoState.readable, h.2.1] at come
  | handled => simp [EchoState.readable, h.2.1] at come
  | failed => simp [EchoState.readable, h.2.1] at come

/-- The client steps and sends nothing. -/
theorem At.client (h : At s a) {c : ClientState}
    (outstanding : c.outstanding = s.client.outstanding)
    (socket : c.socket = s.client.socket) (request : c.request = s.client.request) :
    At { s with client := c } a := by
  cases a <;> simpa only [At, outstanding, socket, request] using h

theorem Standing.advances_client (h : Standing s a) {e : ClientEvent} {c : ClientState}
    {os : List ClientOutput} (fair : Fair s (.client e))
    (unread : ∀ reply, e ≠ .recv (some reply))
    (taken : client.step s.client e = some (c, os)) :
    ∃ b, At { s with client := c, net := s.net ++ os.filterMap transmission? } b ∧
      Advances s a (.client e)
        { s with client := c, net := s.net ++ os.filterMap transmission? } b
        (os.map .client) := by
  have silent : s.net ++ ([] : List ClientOutput).filterMap transmission? = s.net :=
    List.append_nil _
  cases clientMoves_of_step taken with
  | stopped pc finished =>
      rw [silent]
      exact ⟨a, h.trace.client rfl rfl rfl, .stopped a pc⟩
  | begun pc again fits send =>
      obtain rfl : a = .none := (h.loop pc).resolve_right again
      obtain ⟨outstanding, net, served⟩ := h.trace
      simp only [zstrSend, outstanding, Bool.false_eq_true, if_false, Prod.mk.injEq] at send
      obtain ⟨rfl, rfl⟩ := send
      simp only [net, transmission?, List.filterMap_cons, List.filterMap_nil, List.nil_append]
      exact ⟨.asked, ⟨rfl, rfl, served⟩, .begun pc rfl⟩
  | overrun pc again long =>
      rw [silent]
      exact ⟨a, h.trace.client rfl rfl rfl, .overrun a pc⟩
  | pollError pc =>
      rw [silent]
      exact ⟨a, h.trace.client rfl rfl rfl, .error a _ (Or.inl pc) fair⟩
  | recvError pc =>
      rw [silent]
      exact ⟨a, h.trace.client rfl rfl rfl, .error a _ (Or.inr pc) fair⟩
  | interrupt =>
      rw [silent]
      exact ⟨a, h.trace.client rfl rfl rfl, .interrupt a⟩
  | abandoned pc last =>
      obtain rfl := h.failed_of_not_underWay pc fair
      simp only [transmission?, List.filterMap_cons, List.filterMap_nil, List.append_nil]
      exact ⟨.failed, h.trace.client rfl rfl rfl, .abandoned pc last⟩
  | retried pc more =>
      obtain rfl := h.failed_of_not_underWay pc fair
      obtain ⟨-, net, served⟩ := h.trace
      simp only [net, transmission?, List.filterMap_cons, List.filterMap_nil, List.nil_append]
      exact ⟨.asked, ⟨rfl, rfl, served⟩, .retried pc more⟩
  | pollReady pc =>
      obtain rfl := h.trace.replied_of_readable fair
      rw [silent]
      exact ⟨.replied, h.trace.client rfl rfl rfl, .ready pc⟩
  | accepted reply pc ok => exact absurd rfl (unread reply)
  | rejected reply pc malformed => exact absurd rfl (unread reply)

/-- The only reply is that to the request, and it is accepted. -/
theorem Standing.advances_clientRecv (h : Standing s a) (numbered : Numbered s.client)
    {index : Nat} {reply : Frame}
    {left : Network Channel Frame} {c : ClientState} {os : List ClientOutput}
    (found : s.net.pick (.replies s.client.socket) index = some (reply, left))
    (taken : Lpp.client.step s.client (.recv (some reply)) = some (c, os)) :
    ∃ b, At { s with client := c, net := left ++ os.filterMap transmission? } b ∧
      Advances s a (.clientRecv index)
        { s with client := c, net := left ++ os.filterMap transmission? } b
        (os.map .client) := by
  have pc : s.client.pc = .recv := by
    cases clientMoves_of_step taken with
    | accepted _ pc ok => exact pc
    | rejected _ pc malformed => exact pc
  obtain rfl := h.recv pc
  obtain ⟨-, net, served⟩ := h.trace
  rw [net] at found
  obtain ⟨-, rfl, rfl⟩ := Network.eq_of_pick_singleton found
  obtain ⟨-, request⟩ := numbered.request (Or.inr pc)
  have below := numbered.fits (by simp [pc])
  have reads : atoi s.client.request = s.client.sequence := by
    rw [request]
    exact atoi_decimal (by omega)
  cases clientMoves_of_step taken with
  | accepted _ pc ok =>
      simp only [transmission?, List.filterMap_cons, List.filterMap_nil, List.append_nil]
      exact ⟨.none, ⟨rfl, rfl, served⟩, .accepted index pc⟩
  | rejected _ pc malformed => exact absurd reads malformed

/-- The only request is that of the attempt, and fits the server's buffer. -/
theorem Standing.advances_serverRecv (h : Standing s a) {os : List EchoOutput}
    (carried : Carried os s) {socket index : Nat} {crash overload : Random} {text : Frame}
    {left : Network Channel Frame} {v : ServerState} {outs : List ServerOutput}
    (found : s.net.pick (.requests socket) index = some (text, left))
    (taken : server.step s.server (.recv socket text crash overload) = some (v, outs)) :
    ∃ b, At { s with server := v, net := left ++ outs.filterMap reply? } b ∧
      Advances s a (.serverRecv socket index crash overload)
        { s with server := v, net := left ++ outs.filterMap reply? } b (outs.map .server) := by
  obtain rfl : a = .asked := by
    rcases h.trace.net_nil_or with net | rfl | rfl
    · simp [Network.pick, net] at found
    · rfl
    · rw [h.trace.2.1] at found
      obtain ⟨place, -, -⟩ := Network.eq_of_pick_singleton found
      cases place
  have same : cstr (s.server.take socket text .send).request = text := by
    obtain ⟨k, -, -, below, rfl, -⟩ := carried.issued _ (Network.mem_of_pick found)
    exact cstr_request_take (decimal_fits_server (by omega)) (zero_not_mem_decimal k) _ _ _
  obtain ⟨outstanding, net, served⟩ := h.trace
  rw [net] at found
  obtain ⟨place, rfl, rfl⟩ := Network.eq_of_pick_singleton found
  obtain rfl : s.client.socket = socket := by simpa using place
  cases serverMoves_of_step taken with
  | crashed _ _ _ _ pc drawn =>
      refine ⟨.failed, ⟨outstanding, rfl, ?_⟩, .crashed _ index crash overload drawn rfl pc⟩
      simp [ServerState.take]
  | received _ _ _ _ pc drawn sleeps =>
      have silent : (ServerOutput.received s.client.socket s.client.request ::
          sleeps.map ServerOutput.sleep).filterMap reply? = [] := by
        simp [reply?]
      rw [silent]
      exact ⟨.handled, ⟨outstanding, rfl, rfl, rfl, same⟩,
        .received _ index crash overload rfl pc⟩

/-- The server sends back what it has received. -/
theorem Standing.advances_serverSend (h : Standing s a) {v : ServerState}
    {outs : List ServerOutput} (taken : server.step s.server .send = some (v, outs)) :
    ∃ b, At { s with server := v, net := s.net ++ outs.filterMap reply? } b ∧
      Advances s a .serverSend { s with server := v, net := s.net ++ outs.filterMap reply? } b
        (outs.map .server) := by
  cases serverMoves_of_step taken with
  | sent pc =>
      have trace := h.trace
      cases a with
      | handled =>
          obtain ⟨outstanding, net, -, peer, request⟩ := trace
          simp only [net, peer, request, reply?, List.filterMap_cons, List.filterMap_nil,
            List.nil_append]
          exact ⟨.replied, ⟨outstanding, rfl, by simp⟩, .sent rfl pc⟩
      | none => exact absurd pc trace.2.2
      | asked => exact absurd pc trace.2.2
      | replied => exact absurd pc trace.2.2
      | failed => exact absurd pc trace.2.2

/-- A server that is started again holds nothing. -/
theorem Standing.advances_serverStart (h : Standing s a) (crashed : s.server.pc = .crashed) :
    At { s with server := serverInit } a := by
  have trace := h.trace
  cases a with
  | handled => exact absurd (crashed.symm.trans trace.2.2.1) (by simp)
  | none => exact ⟨trace.1, trace.2.1, by simp [serverInit]⟩
  | asked => exact ⟨trace.1, trace.2.1, by simp [serverInit]⟩
  | replied => exact ⟨trace.1, trace.2.1, by simp [serverInit]⟩
  | failed => exact ⟨trace.1, trace.2.1, by simp [serverInit]⟩

/-- What is lost is the trace of the attempt. -/
theorem Standing.advances_lose (h : Standing s a) (pc : s.client.pc ≠ .recv) (index : Nat) :
    ∃ b, At { s with net := s.net.eraseIdx index } b ∧
      Advances s a (.lose index) { s with net := s.net.eraseIdx index } b [] := by
  have trace := h.trace
  have missed (net : s.net.eraseIdx index = s.net) :
      ∃ b, At { s with net := s.net.eraseIdx index } b ∧
        Advances s a (.lose index) { s with net := s.net.eraseIdx index } b [] := by
    rw [net]
    exact ⟨a, trace, .missed a index⟩
  rcases trace.net_nil_or with net | some_trace
  · exact missed (by simp [net])
  · have one : s.net.length = 1 := by
      rcases some_trace with rfl | rfl <;> simp [trace.2.1]
    cases index with
    | succ index => exact missed (List.eraseIdx_of_length_le (by omega))
    | zero =>
        have none : s.net.eraseIdx 0 = [] := by
          rw [← List.length_eq_zero_iff, List.length_eraseIdx, one]
          rfl
        rw [none]
        refine ⟨.failed, ?_, .lost a 0 some_trace pc⟩
        rcases some_trace with rfl | rfl
        · exact ⟨trace.1, rfl, trace.2.2⟩
        · exact ⟨trace.1, rfl, trace.2.2⟩

/-- Every step, when timeouts and polls tell the truth, is one of the listed ones. -/
theorem Standing.advances (h : Standing s a) {os : List EchoOutput} (carried : Carried os s)
    (fair : Fair s e) (taken : echo.step s e = some (t, out)) :
    ∃ b, At t b ∧ Advances s a e t b out := by
  cases echoMoves_of_step taken with
  | client e moved =>
      apply h.advances_client fair _ moved
      rintro reply rfl
      cases taken
  | clientRecv index outstanding found moved =>
      exact h.advances_clientRecv carried.numbered found moved
  | serverRecv socket index crash overload found moved =>
      exact h.advances_serverRecv carried found moved
  | serverSend moved => exact h.advances_serverSend moved
  | serverStart crashed => exact ⟨a, h.advances_serverStart crashed, .restarted a crashed⟩
  | lose index => exact h.advances_lose fair index

/-! ## Faults and timeouts -/

theorem Standing.step (h : Standing s a) (next : At t b) (moved : Advances s a e t b out) :
    Standing t b := by
  cases moved with
  | stopped a pc => exact ⟨next, by simp, by simp, by simp⟩
  | begun pc eq =>
      subst eq
      exact ⟨next, by simp, by simp, by simp⟩
  | overrun a pc => exact ⟨next, by simp, by simp, by simp⟩
  | error a e pc interrupted =>
      exact ⟨next, fun _ => Or.inr (Or.inr interrupted), by simp, by simp⟩
  | interrupt a => exact ⟨next, fun _ => Or.inr (Or.inr rfl), h.poll, h.recv⟩
  | abandoned pc last => exact ⟨next, fun _ => Or.inr (Or.inl last), by simp, by simp⟩
  | retried pc more => exact ⟨next, by simp [pc], by simp, by simp [pc]⟩
  | ready pc => exact ⟨next, by simp, by simp, by simp⟩
  | accepted index pc => exact ⟨next, by simp, by simp, by simp⟩
  | crashed socket index crash overload drawn ended pc =>
      exact ⟨next, fun loop => (h.loop loop).imp_left (by simp), by simp,
        fun recv => absurd (h.recv recv) (by simp)⟩
  | received socket index crash overload holds pc =>
      exact ⟨next, fun loop => (h.loop loop).imp_left (by simp), by simp,
        fun recv => absurd (h.recv recv) (by simp)⟩
  | sent again holding =>
      exact ⟨next, fun loop => (h.loop loop).imp_left (by simp), by simp, fun _ => rfl⟩
  | restarted a crashed => exact ⟨next, h.loop, h.poll, h.recv⟩
  | lost a index some_trace pc =>
      refine ⟨next, fun loop => ?_, by simp, fun recv => absurd recv pc⟩
      rcases h.loop loop with rfl | given
      · simp at some_trace
      · exact Or.inr given
  | missed a index => exact h

end

/-- A loss, or the restart that a crash is counted with once it has come. -/
def isFault : EchoEvent → Bool
  | .lose _ => true
  | .serverStart => true
  | _ => false

/-- The server has crashed and has not been started again. -/
def EchoState.down (s : EchoState) : Nat := if s.server.pc = .crashed then 1 else 0

/-- What has gone wrong: the losses and the crashes. -/
def faults (es : List EchoEvent) (s : EchoState) : Nat := es.countP isFault + s.down

def EchoOutput.expires : EchoOutput → Bool
  | .client (.expired _) => true
  | _ => false

/-- How often the client has waited in vain. -/
def timeouts (os : List EchoOutput) : Nat := os.countP EchoOutput.expires

/-- An attempt has failed and its timeout is still to come. -/
def overdue (s : EchoState) (a : Attempt) : Nat :=
  if s.client.pc = .poll ∧ a = .failed then 1 else 0

section

variable {s t : EchoState} {a b : Attempt} {e : EchoEvent} {es : List EchoEvent}
  {os out : List EchoOutput}

theorem timeouts_append : timeouts (os ++ out) = timeouts os + timeouts out := List.countP_append

@[simp]
theorem timeouts_nil : timeouts [] = 0 := rfl

@[simp]
theorem timeouts_server (out : List ServerOutput) : timeouts (out.map .server) = 0 := by
  rw [timeouts, List.countP_map, List.countP_eq_zero]
  simp [EchoOutput.expires]

theorem overdue_le_one : overdue s a ≤ 1 := by
  unfold overdue
  split <;> decide

theorem overdue_of_ne (h : s.client.pc ≠ .poll ∨ a ≠ .failed) : overdue s a = 0 := by
  rw [overdue, if_neg]
  rintro ⟨pc, failed⟩
  exact h.elim (fun ne => ne pc) (fun ne => ne failed)

/-- A timeout costs one of the retries. -/
theorem Advances.retries (moved : Advances s a e t b out) :
    s.client.retriesLeft ≤ timeouts out + t.client.retriesLeft ∨
      t.client.retriesLeft = requestRetries := by
  cases moved with
  | begun pc eq =>
      subst eq
      exact Or.inl (by simp [timeouts, EchoOutput.expires])
  | abandoned pc last =>
      have one : timeouts [.client (.expired s.client.request)] = 1 := rfl
      left
      dsimp only
      omega
  | retried pc more =>
      have one : timeouts [.client (.expired s.client.request),
          .client (.transmitted (s.client.socket + 1) s.client.request)] = 1 := rfl
      left
      dsimp only
      omega
  | accepted index pc => exact Or.inr rfl
  | _ => exact Or.inl (by simp)

/-- Every timeout is owed to a fault: what was overdue has come, or something has gone
wrong. -/
theorem Advances.owed (moved : Advances s a e t b out) :
    timeouts out + overdue t b + s.down ≤ overdue s a + [e].countP isFault + t.down := by
  cases moved with
  | stopped a pc => simp [overdue, EchoState.down]
  | begun pc eq => simp [overdue, EchoState.down, timeouts, EchoOutput.expires]
  | overrun a pc => simp [overdue, EchoState.down]
  | error a e pc interrupted => simp [overdue, EchoState.down]
  | interrupt a => simp [overdue, EchoState.down]
  | abandoned pc last => simp [overdue, EchoState.down, timeouts, EchoOutput.expires, pc]
  | retried pc more =>
      have one : timeouts [.client (.expired s.client.request),
          .client (.transmitted (s.client.socket + 1) s.client.request)] = 1 := rfl
      simp [overdue, EchoState.down, one, pc]
  | ready pc => simp [overdue, EchoState.down]
  | accepted index pc => simp [overdue, EchoState.down, timeouts, EchoOutput.expires]
  | @crashed socket index crash overload drawn v ended outs pc =>
      have late : overdue { s with server := v, net := [] } .failed ≤ 1 := overdue_le_one
      have before : s.down = 0 := by simp [EchoState.down, pc]
      have after : EchoState.down { s with server := v, net := [] } = 1 := by
        simp [EchoState.down, ended]
      rw [timeouts_server]
      omega
  | received socket index crash overload holds pc => simp [overdue, EchoState.down, pc, holds]
  | @sent v again outs holding =>
      have before : s.down = 0 := by simp [EchoState.down, holding]
      rw [timeouts_server, overdue_of_ne (Or.inr (by simp))]
      omega
  | restarted a crashed => simp [overdue, EchoState.down, serverInit, crashed, isFault]
  | lost a index some_trace pc =>
      have late : overdue { s with net := [] } .failed ≤ 1 := overdue_le_one
      have same : EchoState.down { s with net := [] } = s.down := rfl
      have fault : [EchoEvent.lose index].countP isFault = 1 := rfl
      rw [timeouts_nil]
      omega
  | missed a index => simp [isFault]

/-- What the timeouts of a run are owed to. -/
structure Accounted (es : List EchoEvent) (os : List EchoOutput) (s : EchoState) (a : Attempt) :
    Prop where
  standing : Standing s a
  retries : 3 ≤ timeouts os + s.client.retriesLeft
  owed : timeouts os + overdue s a ≤ faults es s

theorem Accounted.init : Accounted [] [] fairEcho.init .none where
  standing := ⟨⟨rfl, rfl, by simp [fairEcho, Machine.restrict, echo, serverInit]⟩,
    fun _ => Or.inl rfl, by simp [fairEcho, Machine.restrict, echo, clientInit],
    by simp [fairEcho, Machine.restrict, echo, clientInit]⟩
  retries := by decide
  owed := by decide

theorem Accounted.step (h : Accounted es os s a) (next : At t b) (moved : Advances s a e t b out) :
    Accounted (es ++ [e]) (os ++ out) t b := by
  refine ⟨h.standing.step next moved, ?_, ?_⟩
  · have before := h.retries
    rw [timeouts_append]
    rcases moved.retries with kept | restored
    · omega
    · rw [restored, requestRetries]
      omega
  · have before := h.owed
    have balance := moved.owed
    rw [timeouts_append, faults, List.countP_append]
    rw [faults] at before
    omega

theorem accounted_of_run (run : fairEcho.Run es os s) : ∃ a, Accounted es os s a := by
  induction run with
  | start => exact ⟨.none, Accounted.init⟩
  | extend prior taken ih =>
      obtain ⟨a, h⟩ := ih
      obtain ⟨fair, taken⟩ := Machine.step_restrict.mp taken
      have carried := carried_of_run prior.of_restrict
      obtain ⟨b, next, moved⟩ := h.standing.advances carried fair taken
      exact ⟨b, h.step next moved⟩

end

/-- When its timeouts tell the truth, the client has not waited in vain more often than
something has been lost or the server has crashed; and when it gives up, three such faults
have come. -/
theorem gives_up_after_three_faults {es : List EchoEvent} {os : List EchoOutput}
    {s : EchoState} (run : fairEcho.Run es os s) :
    timeouts os ≤ faults es s ∧ (s.client.retriesLeft = 0 → 3 ≤ faults es s) := by
  obtain ⟨a, h⟩ := accounted_of_run run
  have owed := h.owed
  have retries := h.retries
  exact ⟨by omega, fun given_up => by omega⟩

/-- The first request, its second transmission and the reply to its third are lost. -/
def lostRun : List EchoEvent :=
  [.client .loop, .lose 0, .client .pollTimeout, .lose 0, .client .pollTimeout,
    .serverRecv 2 0 0 0, .serverSend, .lose 0, .client .pollTimeout, .client .loop]

theorem gives_up_after_three_faults_lost : ∃ os s, fairEcho.Run lostRun os s ∧
    s.client.pc = .stopped ∧ timeouts os = 3 ∧ 3 ≤ faults lostRun s := by
  have hexec : (fairEcho.exec fairEcho.init lostRun).map
      (fun r => (r.1.client.pc, r.1.client.retriesLeft, timeouts r.2)) =
      some (.stopped, 0, 3) := by decide +kernel
  obtain ⟨os, s, run, hsee⟩ := Machine.run_of_map_exec hexec
  simp only [Prod.mk.injEq] at hsee
  obtain ⟨pc, given_up, count⟩ := hsee
  exact ⟨os, s, run, pc, count, (gives_up_after_three_faults run).2 given_up⟩

/-! ## When nothing else goes wrong -/

/-- Timeouts and polls tell the truth, nothing is lost, the server does not crash, and the
client is neither interrupted nor past its request. -/
def Smooth (s : EchoState) : EchoEvent → Prop
  | .client .loop => False
  | .client .interrupt => False
  | .client e => Fair s (.client e)
  | .serverRecv _ _ crash _ => ¬ (3 < (s.server.cycles + 1).bmod 4294967296 ∧ randof 3 crash = 0)
  | .lose _ => False
  | _ => True

instance (s : EchoState) (e : EchoEvent) : Decidable (Smooth s e) :=
  match e with
  | .client .loop => inferInstanceAs (Decidable False)
  | .client .interrupt => inferInstanceAs (Decidable False)
  | .client .pollTimeout => inferInstanceAs (Decidable (Fair s (.client .pollTimeout)))
  | .client .pollReady => inferInstanceAs (Decidable (Fair s (.client .pollReady)))
  | .client .pollError => inferInstanceAs (Decidable (Fair s (.client .pollError)))
  | .client (.recv reply) => inferInstanceAs (Decidable (Fair s (.client (.recv reply))))
  | .lose _ => inferInstanceAs (Decidable False)
  | .clientRecv _ => inferInstanceAs (Decidable True)
  | .serverRecv _ _ crash _ =>
      inferInstanceAs (Decidable
        (¬ (3 < (s.server.cycles + 1).bmod 4294967296 ∧ randof 3 crash = 0)))
  | .serverSend => inferInstanceAs (Decidable True)
  | .serverStart => inferInstanceAs (Decidable True)

/-- The client and the server, going on without a fault until the request is answered. -/
def smoothFrom (s : EchoState) : Machine EchoState EchoEvent EchoOutput :=
  (echo.resume s).restrict Smooth

theorem Smooth.fair {s : EchoState} {e : EchoEvent} (h : Smooth s e) : Fair s e := by
  cases e with
  | client e => cases e <;> first | exact h | exact h.elim
  | lose index => exact h.elim
  | _ => trivial

/-- The steps that are still to come, with those of the server. -/
def Attempt.ahead : Attempt → Nat
  | .none => 0
  | .replied => 1
  | .handled => 2
  | .asked => 3
  | .failed => 4

/-- What is still to be done until the reply is received. -/
def EchoState.ahead (s : EchoState) (a : Attempt) : Nat :=
  a.ahead + s.down + if s.client.pc = .poll then 1 else 0

/-- What is so while the client waits for a reply and when it has received it. -/
structure Going (request : Frame) (os : List EchoOutput) (s : EchoState) (a : Attempt) : Prop where
  interrupted : s.client.interrupted = false
  waiting : a ≠ .none →
    s.client.request = request ∧ (s.client.pc = .poll ∨ s.client.pc = .recv)
  again : a = .failed → 2 ≤ s.client.retriesLeft
  accepted : a = .none → s.client.pc = .loop ∧ s.client.retriesLeft = requestRetries ∧
    .client (.accepted request) ∈ os

section

variable {s t u : EchoState} {a b : Attempt} {e : EchoEvent} {es : List EchoEvent}
  {os out : List EchoOutput} {request : Frame}

theorem Going.step (h : Going request os s a) (standing : Standing s a) (smooth : Smooth s e)
    (moved : Advances s a e t b out) :
    Going request (os ++ out) t b ∧ t.ahead b < s.ahead a := by
  cases moved with
  | stopped a pc => exact smooth.elim
  | begun pc eq => exact smooth.elim
  | overrun a pc => exact smooth.elim
  | interrupt a => exact smooth.elim
  | lost a index some_trace pc => exact smooth.elim
  | missed a index => exact smooth.elim
  | error a e pc interrupted => simp [h.interrupted] at interrupted
  | abandoned pc last =>
      have more := h.again rfl
      omega
  | retried pc more =>
      obtain ⟨same, -⟩ := h.waiting (by simp)
      refine ⟨⟨h.interrupted, fun _ => ⟨same, Or.inl pc⟩, by simp, by simp⟩, ?_⟩
      simp [EchoState.ahead, Attempt.ahead, EchoState.down]
  | ready pc =>
      obtain ⟨same, -⟩ := h.waiting (by simp)
      refine ⟨⟨h.interrupted, fun _ => ⟨same, Or.inr rfl⟩, by simp, by simp⟩, ?_⟩
      simp [EchoState.ahead, EchoState.down, pc]
  | accepted index pc =>
      obtain ⟨same, -⟩ := h.waiting (by simp)
      have printed : .client (.accepted request) ∈
          os ++ [.client (.accepted s.client.request)] := by simp [same]
      refine ⟨⟨h.interrupted, by simp, by simp, fun _ => ⟨rfl, rfl, printed⟩⟩, ?_⟩
      simp [EchoState.ahead, EchoState.down, Attempt.ahead, pc]
  | crashed socket index crash overload drawn ended pc => exact absurd drawn smooth
  | @received socket index crash overload v holds outs pc =>
      refine ⟨⟨h.interrupted, fun _ => h.waiting (by simp), by simp, by simp⟩, ?_⟩
      simp [EchoState.ahead, EchoState.down, Attempt.ahead, pc, holds]
  | @sent v again outs holding =>
      refine ⟨⟨h.interrupted, fun _ => h.waiting (by simp), by simp, by simp⟩, ?_⟩
      simp [EchoState.ahead, EchoState.down, Attempt.ahead, holding, again]
  | restarted a crashed =>
      rw [List.append_nil]
      refine ⟨⟨h.interrupted, h.waiting, h.again, h.accepted⟩, ?_⟩
      simp [EchoState.ahead, EchoState.down, crashed, serverInit]

/-- What a run without faults keeps, from a state of any fair run. -/
theorem going_of_run (run : fairEcho.Run es os s) (standing : Standing s a)
    (start : Going request [] s a) {fs : List EchoEvent} {more : List EchoOutput}
    (smooth : (smoothFrom s).Run fs more t) :
    ∃ b, Standing t b ∧ Going request more t b ∧ fs.length + t.ahead b ≤ s.ahead a := by
  induction smooth with
  | start => exact ⟨a, standing, start, Nat.le_of_eq (Nat.zero_add _)⟩
  | extend prior taken ih =>
      obtain ⟨b, placed, going, bound⟩ := ih
      obtain ⟨allowed, taken⟩ := Machine.step_restrict.mp taken
      have carried := carried_of_run (run.of_restrict.append_resumed prior.of_restrict)
      obtain ⟨c, next, moved⟩ := placed.advances carried allowed.fair taken
      obtain ⟨goes_on, lower⟩ := going.step placed allowed moved
      refine ⟨c, placed.step next moved, goes_on, ?_⟩
      rw [List.length_append, List.length_singleton]
      omega

theorem enabled_of_stuck (stuck : (smoothFrom u).Stuck s) (smooth : Smooth s e) :
    ¬ (echoStep s e).isSome :=
  Machine.Stuck.not_isSome stuck smooth

/-- Until the reply is received, somebody can go on. -/
theorem Going.received_of_stuck (h : Going request os s a) (standing : Standing s a)
    (stuck : (smoothFrom u).Stuck s) : a = .none := by
  have trace := standing.trace
  cases a with
  | none => rfl
  | failed =>
      have pc : s.client.pc = .poll :=
        (h.waiting (by simp)).2.resolve_right fun recv => by simpa using standing.recv recv
      have nothing : s.underWay = false := by simp [EchoState.underWay, trace.2.1, trace.2.2]
      have waits := enabled_of_stuck (e := .client .pollTimeout) stuck nothing
      simp [echoStep, byClient, client, clientStep, pc] at waits
  | asked =>
      obtain ⟨-, net, served⟩ := trace
      cases pc : s.server.pc with
      | send => exact absurd pc served
      | crashed =>
          have start := enabled_of_stuck (e := .serverStart) stuck trivial
          simp [echoStep, pc] at start
      | recv =>
          have draw : randof 3 1073741824 ≠ 0 := by decide
          have receives := enabled_of_stuck
            (e := .serverRecv s.client.socket 0 1073741824 1073741824) stuck
            fun crash => draw crash.2
          simp [echoStep, net, Network.pick, byServer, server, serverStep, pc] at receives
  | handled =>
      have sends := enabled_of_stuck (e := .serverSend) stuck trivial
      simp [echoStep, byServer, server, serverStep, trace.2.2.1] at sends
  | replied =>
      obtain ⟨outstanding, net, -⟩ := trace
      rcases (h.waiting (by simp)).2 with pc | pc
      · have come : s.readable = true := by simp [EchoState.readable, net]
        have polls := enabled_of_stuck (e := .client .pollReady) stuck come
        simp [echoStep, byClient, client, clientStep, pc] at polls
      · have receives := enabled_of_stuck (e := .clientRecv 0) stuck trivial
        simp [echoStep, outstanding, net, Network.pick, byClient, client, clientStep, pc]
          at receives

end

/-- Wherever the client of a fair run waits for a reply, with the attempt still under way or
with another one left, and nothing goes wrong from then on, its request is accepted after six
steps at most, however the client and the server take their turns; all its retries are
restored. -/
theorem accepted_when_smooth {es : List EchoEvent} {os : List EchoOutput} {s : EchoState}
    (run : fairEcho.Run es os s) (waits : s.client.pc = .poll ∨ s.client.pc = .recv)
    (running : s.client.interrupted = false)
    (hope : s.underWay = true ∨ 2 ≤ s.client.retriesLeft) :
    (smoothFrom s).Finishes 6 fun more t =>
      .client (.accepted s.client.request) ∈ more ∧ t.client.pc = .loop ∧
        t.client.retriesLeft = requestRetries := by
  obtain ⟨a, accounted⟩ := accounted_of_run run
  have standing := accounted.standing
  have sent : a ≠ .none := by
    rcases waits with pc | pc
    · exact standing.poll pc
    · simp [standing.recv pc]
  have again : a = .failed → 2 ≤ s.client.retriesLeft := by
    rintro rfl
    refine hope.resolve_left fun underWay => ?_
    simp [EchoState.underWay, standing.trace.2.1, standing.trace.2.2] at underWay
  have start : Going s.client.request [] s a :=
    ⟨running, fun _ => ⟨rfl, waits⟩, again, fun none => absurd none sent⟩
  constructor
  · intro fs more t smooth
    obtain ⟨b, -, -, bound⟩ := going_of_run run standing start smooth
    have least : a.ahead ≤ 4 := by cases a <;> decide
    have down : s.down ≤ 1 := by
      unfold EchoState.down
      split <;> decide
    have total : s.ahead a ≤ 6 := by
      unfold EchoState.ahead
      split <;> omega
    omega
  · intro fs more t smooth stuck
    obtain ⟨b, placed, going, -⟩ := going_of_run run standing start smooth
    obtain ⟨pc, restored, accepted⟩ := going.accepted (going.received_of_stuck placed stuck)
    exact ⟨accepted, pc, restored⟩

/-- A reply has been lost, and the server has crashed with the third request. -/
theorem accepted_when_smooth_crashed : ∃ os s, fairEcho.Run (crashedRun.take 16) os s ∧
    s.server.pc = .crashed ∧ (smoothFrom s).Finishes 6 fun more t =>
      .client (.accepted s.client.request) ∈ more ∧ t.client.pc = .loop ∧
        t.client.retriesLeft = requestRetries := by
  have hexec : (fairEcho.exec fairEcho.init (crashedRun.take 16)).map
      (fun r => (r.1.server.pc, r.1.client.pc, r.1.client.interrupted, r.1.client.retriesLeft)) =
      some (.crashed, .poll, false, 3) := by decide +kernel
  obtain ⟨os, s, run, hsee⟩ := Machine.run_of_map_exec hexec
  simp only [Prod.mk.injEq] at hsee
  obtain ⟨crashed, pc, running, retries⟩ := hsee
  exact ⟨os, s, run, crashed, accepted_when_smooth run (Or.inl pc) running (Or.inr (by omega))⟩

end ZmqTest.Lpp
