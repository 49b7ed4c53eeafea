/-
# Sequence numbers over the wire

The Lazy Pirate client and its server, with what is under way between them. A request
stands in the channel of the socket it was sent on until the server receives it; the
server replies on the same socket, and the client receives from the socket it has. What
is under way can be lost, as it is with a socket that is destroyed or a server that has
crashed, and a server that has crashed can be started again.

Every text under way is that of a number the client has reached, and is printed, sent
back and read without loss as long as the number has nine digits. The next one is
printed past the end of the client's buffer.
-/

import ZmqTest.Lib.Network
import ZmqTest.Lpp.Client
import ZmqTest.Lpp.Server

namespace ZmqTest.Lpp

/-- The requests and the replies of a socket of the client. -/
inductive Channel
  | requests (socket : Nat)
  | replies (socket : Nat)
  deriving DecidableEq

def Channel.socket : Channel → Nat
  | .requests socket => socket
  | .replies socket => socket

structure EchoState where
  client : ClientState
  server : ServerState
  net : Network Channel Frame
  deriving DecidableEq

inductive EchoEvent
  | /-- The client does something other than receiving a reply. -/
    client (e : ClientEvent)
  | /-- The client receives from its socket. -/
    clientRecv (index : Nat)
  | /-- The server receives, with the values it may draw. -/
    serverRecv (socket index : Nat) (crash overload : Random)
  | serverSend
  | /-- A server that has crashed is started again. -/
    serverStart
  | /-- Something under way is lost. -/
    lose (index : Nat)
  deriving DecidableEq

inductive EchoOutput
  | client (o : ClientOutput)
  | server (o : ServerOutput)
  deriving DecidableEq

/-- What the client puts under way. -/
def transmission? : ClientOutput → Option (Channel × Frame)
  | .transmitted socket text => some (.requests socket, text)
  | _ => none

/-- What the server puts under way. -/
def reply? : ServerOutput → Option (Channel × Frame)
  | .sent socket text => some (.replies socket, text)
  | _ => none

/-- A step of the client; `left` is under way besides what it transmits. -/
def byClient (s : EchoState) (e : ClientEvent) (left : Network Channel Frame) :
    Option (EchoState × List EchoOutput) :=
  match client.step s.client e with
  | none => none
  | some (t, out) =>
      some ({ s with client := t, net := left ++ out.filterMap transmission? }, out.map .client)

/-- A step of the server. -/
def byServer (s : EchoState) (e : ServerEvent) (left : Network Channel Frame) :
    Option (EchoState × List EchoOutput) :=
  match server.step s.server e with
  | none => none
  | some (t, out) =>
      some ({ s with server := t, net := left ++ out.filterMap reply? }, out.map .server)

/-- One step of the client, the server or the network. A request socket gives a reply
only while it waits for one. -/
def echoStep (s : EchoState) : EchoEvent → Option (EchoState × List EchoOutput)
  | .client (.recv (some _)) => none
  | .client e => byClient s e s.net
  | .clientRecv index =>
      if s.client.outstanding then
        match s.net.pick (.replies s.client.socket) index with
        | none => none
        | some (reply, left) => byClient s (.recv (some reply)) left
      else none
  | .serverRecv socket index crash overload =>
      match s.net.pick (.requests socket) index with
      | none => none
      | some (text, left) => byServer s (.recv socket text crash overload) left
  | .serverSend => byServer s .send s.net
  | .serverStart =>
      if s.server.pc = .crashed then some ({ s with server := serverInit }, []) else none
  | .lose index => some ({ s with net := s.net.eraseIdx index }, [])

/-- The client of `lpp/client.c` against the server of `lpp/server.c`. -/
def echo : Machine EchoState EchoEvent EchoOutput where
  init := { client := clientInit, server := serverInit, net := [] }
  step := echoStep

/-- The steps of the system: one of the client or the server, with what it takes from
the network and what it leaves there, or one of the network itself. -/
inductive EchoMoves (s : EchoState) : EchoEvent → EchoState → List EchoOutput → Prop
  | client (e : ClientEvent) {c : ClientState} {out : List ClientOutput}
      (taken : client.step s.client e = some (c, out)) :
      EchoMoves s (.client e) { s with client := c, net := s.net ++ out.filterMap transmission? }
        (out.map .client)
  | clientRecv (index : Nat) {reply : Frame} {left : Network Channel Frame} {c : ClientState}
      {out : List ClientOutput} (outstanding : s.client.outstanding = true)
      (found : s.net.pick (.replies s.client.socket) index = some (reply, left))
      (taken : client.step s.client (.recv (some reply)) = some (c, out)) :
      EchoMoves s (.clientRecv index)
        { s with client := c, net := left ++ out.filterMap transmission? } (out.map .client)
  | serverRecv (socket index : Nat) (crash overload : Random) {text : Frame}
      {left : Network Channel Frame} {v : ServerState} {out : List ServerOutput}
      (found : s.net.pick (.requests socket) index = some (text, left))
      (taken : server.step s.server (.recv socket text crash overload) = some (v, out)) :
      EchoMoves s (.serverRecv socket index crash overload)
        { s with server := v, net := left ++ out.filterMap reply? } (out.map .server)
  | serverSend {v : ServerState} {out : List ServerOutput}
      (taken : server.step s.server .send = some (v, out)) :
      EchoMoves s .serverSend { s with server := v, net := s.net ++ out.filterMap reply? }
        (out.map .server)
  | serverStart (crashed : s.server.pc = .crashed) :
      EchoMoves s .serverStart { s with server := serverInit } []
  | lose (index : Nat) : EchoMoves s (.lose index) { s with net := s.net.eraseIdx index } []

theorem byClient_eq_some {s t : EchoState} {e : ClientEvent} {left : Network Channel Frame}
    {out : List EchoOutput} (h : byClient s e left = some (t, out)) :
    ∃ c os, client.step s.client e = some (c, os) ∧
      t = { s with client := c, net := left ++ os.filterMap transmission? } ∧
      out = os.map .client := by
  unfold byClient at h
  split at h
  case h_1 => cases h
  case h_2 c os taken =>
    cases h
    exact ⟨c, os, taken, rfl, rfl⟩

theorem byServer_eq_some {s t : EchoState} {e : ServerEvent} {left : Network Channel Frame}
    {out : List EchoOutput} (h : byServer s e left = some (t, out)) :
    ∃ v os, server.step s.server e = some (v, os) ∧
      t = { s with server := v, net := left ++ os.filterMap reply? } ∧ out = os.map .server := by
  unfold byServer at h
  split at h
  case h_1 => cases h
  case h_2 v os taken =>
    cases h
    exact ⟨v, os, taken, rfl, rfl⟩

theorem echoMoves_of_step {s t : EchoState} {e : EchoEvent} {out : List EchoOutput}
    (h : echo.step s e = some (t, out)) : EchoMoves s e t out := by
  change echoStep s e = some (t, out) at h
  unfold echoStep at h
  split at h
  case h_1 => cases h
  case h_2 e _ =>
    obtain ⟨c, os, taken, rfl, rfl⟩ := byClient_eq_some h
    exact .client e taken
  case h_3 index =>
    split at h
    case isTrue outstanding =>
      split at h
      case h_1 => cases h
      case h_2 reply left found =>
        obtain ⟨c, os, taken, rfl, rfl⟩ := byClient_eq_some h
        exact .clientRecv index outstanding found taken
    case isFalse => cases h
  case h_4 socket index crash overload =>
    split at h
    case h_1 => cases h
    case h_2 text left found =>
      obtain ⟨v, os, taken, rfl, rfl⟩ := byServer_eq_some h
      exact .serverRecv socket index crash overload found taken
  case h_5 =>
    obtain ⟨v, os, taken, rfl, rfl⟩ := byServer_eq_some h
    exact .serverSend taken
  case h_6 =>
    split at h
    case isTrue crashed =>
      cases h
      exact .serverStart crashed
    case isFalse => cases h
  case h_7 index =>
    cases h
    exact .lose index

/-- What the client prints and holds of its numbers. -/
structure Numbered (s : ClientState) : Prop where
  fits : s.pc ≠ .overrun → s.sequence < 1000000000
  overrun : s.pc = .overrun → s.sequence = 1000000000
  request : s.pc = .poll ∨ s.pc = .recv → 1 ≤ s.sequence ∧ s.request = decimal s.sequence

/-- The event begins the next number. -/
def Begins (s : ClientState) : ClientEvent → Prop
  | .loop => ¬ (s.retriesLeft = 0 ∨ s.interrupted = true)
  | _ => False

instance (s : ClientState) (e : ClientEvent) : Decidable (Begins s e) := by
  unfold Begins
  split <;> infer_instance

/-- A send leaves the socket waiting, whether it is refused or not. -/
theorem zstrSend_cases {s t : ClientState} {out : List ClientOutput}
    (h : zstrSend s = (t, out)) :
    t = { s with outstanding := true } ∧
      (out = [.refused s.request] ∨ out = [.transmitted s.socket s.request]) := by
  unfold zstrSend at h
  split at h
  case isTrue outstanding =>
    cases h
    exact ⟨by rw [← outstanding], Or.inl rfl⟩
  case isFalse =>
    cases h
    exact ⟨rfl, Or.inr rfl⟩

theorem sequence_of_step {s t : ClientState} {e : ClientEvent} {out : List ClientOutput}
    (taken : client.step s e = some (t, out)) :
    t.sequence = s.sequence + if Begins s e then 1 else 0 := by
  cases clientMoves_of_step taken with
  | stopped pc finished =>
      have ends : ¬ Begins s .loop := not_not_intro finished
      rw [if_neg ends]
      rfl
  | begun pc again fits send =>
      have begins : Begins s .loop := again
      rw [(zstrSend_cases send).1, if_pos begins]
  | overrun pc again long =>
      have begins : Begins s .loop := again
      rw [if_pos begins]
  | _ => simp [Begins]

theorem Numbered.step {s t : ClientState} {e : ClientEvent} {out : List ClientOutput}
    (h : Numbered s) (taken : client.step s e = some (t, out)) : Numbered t := by
  cases clientMoves_of_step taken with
  | stopped pc finished => exact ⟨fun _ => h.fits (by simp [pc]), by simp, by simp⟩
  | begun pc again fits send =>
      obtain ⟨rfl, -⟩ := zstrSend_cases send
      exact ⟨fun _ => fits_iff.mp fits, by simp, fun _ => ⟨Nat.le_add_left 1 _, rfl⟩⟩
  | overrun pc again long =>
      have below := h.fits (by simp [pc])
      rw [fits_iff] at long
      exact ⟨by simp, fun _ => by dsimp only; omega, by simp⟩
  | pollError pc => exact ⟨fun _ => h.fits (by simp [pc]), by simp, by simp⟩
  | abandoned pc last => exact ⟨fun _ => h.fits (by simp [pc]), by simp, by simp⟩
  | retried pc more =>
      exact ⟨fun _ => h.fits (by simp [pc]), by simp [pc], fun _ => h.request (Or.inl pc)⟩
  | pollReady pc =>
      exact ⟨fun _ => h.fits (by simp [pc]), by simp, fun _ => h.request (Or.inl pc)⟩
  | recvError pc => exact ⟨fun _ => h.fits (by simp [pc]), by simp, by simp⟩
  | accepted reply pc ok => exact ⟨fun _ => h.fits (by simp [pc]), by simp, by simp⟩
  | rejected reply pc malformed =>
      exact ⟨fun _ => h.fits (by simp [pc]), by simp, fun _ => h.request (Or.inr pc)⟩
  | interrupt => exact ⟨h.fits, h.overrun, h.request⟩

/-- What is transmitted is the text of the number the client has come to, which fits. -/
theorem Numbered.transmitted {s t : ClientState} {e : ClientEvent} {out : List ClientOutput}
    (h : Numbered s) (taken : client.step s e = some (t, out)) {socket : Nat} {text : Frame}
    (hmem : .transmitted socket text ∈ out) :
    1 ≤ t.sequence ∧ t.sequence < 1000000000 ∧ text = decimal t.sequence := by
  cases clientMoves_of_step taken with
  | begun pc again fits send =>
      obtain ⟨rfl, refused | sent⟩ := zstrSend_cases send
      · rw [refused] at hmem
        simp at hmem
      · simp only [sent, List.mem_singleton, StopAndWait.Entry.transmitted.injEq] at hmem
        exact ⟨Nat.le_add_left 1 _, fits_iff.mp fits, hmem.2⟩
  | retried pc more =>
      obtain ⟨positive, request⟩ := h.request (Or.inl pc)
      simp only [List.mem_cons, StopAndWait.Entry.transmitted.injEq, reduceCtorEq, false_or,
        List.not_mem_nil, or_false] at hmem
      exact ⟨positive, h.fits (by simp [pc]), hmem.2.trans request⟩
  | _ => simp at hmem

/-- The text of a number that the client has reached and transmitted on the socket. -/
def Issued (os : List EchoOutput) (reached socket : Nat) (text : Frame) : Prop :=
  ∃ k, 1 ≤ k ∧ k ≤ reached ∧ k < 1000000000 ∧ text = decimal k ∧
    .client (.transmitted socket text) ∈ os

/-- A request the server receives. -/
def request? : EchoOutput → Option (Nat × Frame)
  | .server (.received socket text) => some (socket, text)
  | _ => none

/-- The request the server has received last. -/
def lastRequest (os : List EchoOutput) : Option (Nat × Frame) := (os.filterMap request?).getLast?

theorem Issued.mono {os : List EchoOutput} {reached later socket : Nat} {text : Frame}
    (h : Issued os reached socket text) (le : reached ≤ later) (out : List EchoOutput) :
    Issued (os ++ out) later socket text := by
  obtain ⟨k, positive, hk, below, htext, sent⟩ := h
  exact ⟨k, positive, Nat.le_trans hk le, below, htext, List.mem_append_left out sent⟩

/-- The buffer of the server has room for numbers of 31 digits. -/
theorem decimal_fits_server {k : Nat} (h : k < 10000000000000000000000000000000) :
    (decimal k).length + 1 ≤ serverSize := by
  have hlength : (decimal k).length ≤ 30 + 1 ↔ k < 10 ^ (30 + 1) := length_decimal_le_iff
  exact Nat.succ_le_succ (hlength.mpr h)

theorem zero_not_mem_decimal (k : Nat) : 0 ∉ decimal k :=
  fun hmem => absurd (isDigit_of_mem_decimal hmem) (by decide)

/-- Other outputs do not change which request was the last. -/
theorem lastRequest_append {os out : List EchoOutput} (h : out.filterMap request? = []) :
    lastRequest (os ++ out) = lastRequest os := by
  rw [lastRequest, List.filterMap_append, h, List.append_nil, lastRequest]

theorem lastRequest_received (os : List EchoOutput) (socket : Nat) (text : Frame) :
    lastRequest (os ++ [.server (.received socket text)]) = some (socket, text) := by
  rw [lastRequest, List.filterMap_append]
  exact List.getLast?_concat

theorem filterMap_request?_client (out : List ClientOutput) :
    (out.map EchoOutput.client).filterMap request? = [] := by
  rw [List.filterMap_map]
  exact List.filterMap_eq_nil_iff.mpr fun _ _ => rfl

/-- What is under way and what the server holds has been issued by the client. -/
structure Carried (os : List EchoOutput) (s : EchoState) : Prop where
  numbered : Numbered s.client
  issued : ∀ packet ∈ s.net, Issued os s.client.sequence packet.1.socket packet.2
  held : s.server.pc = .send →
    lastRequest os = some (s.server.peer, cstr s.server.request) ∧
      Issued os s.client.sequence s.server.peer (cstr s.server.request)

theorem Carried.byClient {os : List EchoOutput} {s : EchoState} {e : ClientEvent}
    {c : ClientState} {out : List ClientOutput} {left : Network Channel Frame}
    (h : Carried os s) (remain : ∀ packet ∈ left, packet ∈ s.net)
    (taken : client.step s.client e = some (c, out)) :
    Carried (os ++ out.map .client)
      { s with client := c, net := left ++ out.filterMap transmission? } := by
  have reached : s.client.sequence ≤ c.sequence := by
    rw [sequence_of_step taken]
    exact Nat.le_add_right _ _
  refine ⟨h.numbered.step taken, ?_, ?_⟩
  · intro packet hmem
    rcases List.mem_append.mp hmem with old | new
    · exact (h.issued packet (remain packet old)).mono reached _
    · obtain ⟨o, ho, hpacket⟩ := List.mem_filterMap.mp new
      cases o with
      | transmitted socket text =>
          simp only [transmission?, Option.some.injEq] at hpacket
          obtain ⟨positive, below, htext⟩ := h.numbered.transmitted taken ho
          subst packet
          exact ⟨c.sequence, positive, Nat.le_refl _, below, htext,
            List.mem_append_right os (List.mem_map_of_mem ho)⟩
      | _ => simp [transmission?] at hpacket
  · intro holding
    obtain ⟨last, issued⟩ := h.held holding
    exact ⟨(lastRequest_append (filterMap_request?_client out)).trans last,
      issued.mono reached _⟩

/-- A request that is received survives the buffer. -/
theorem Carried.received {os : List EchoOutput} {s : EchoState} {v : ServerState}
    {socket : Nat} {text : Frame} {crash overload : Random} {out : List ServerOutput}
    {left : Network Channel Frame} (h : Carried os s)
    (remain : ∀ packet ∈ left, packet ∈ s.net) (found : (.requests socket, text) ∈ s.net)
    (taken : server.step s.server (.recv socket text crash overload) = some (v, out)) :
    Carried (os ++ out.map .server)
      { s with server := v, net := left ++ out.filterMap reply? } := by
  have issued := h.issued _ found
  have htext : cstr (s.server.take socket text .send).request = text := by
    obtain ⟨k, -, -, below, rfl, -⟩ := issued
    exact cstr_request_take (decimal_fits_server (by omega)) (zero_not_mem_decimal k) _ _ _
  have net : ∀ packet ∈ left,
      Issued (os ++ out.map .server) s.client.sequence packet.1.socket packet.2 :=
    fun packet hmem => (h.issued packet (remain packet hmem)).mono (Nat.le_refl _) _
  cases serverMoves_of_step taken with
  | crashed _ _ _ _ pc drawn =>
      refine ⟨h.numbered, ?_, fun holding => nomatch holding⟩
      simpa [reply?] using net
  | received _ _ _ _ pc drawn sleeps =>
      refine ⟨h.numbered, ?_, fun _ => ?_⟩
      · simpa [reply?, List.filterMap_map] using net
      · dsimp only
        rw [htext]
        refine ⟨?_, issued.mono (Nat.le_refl _) _⟩
        have quiet : ((sleeps.map ServerOutput.sleep).map EchoOutput.server).filterMap request? =
            [] := by
          rw [List.filterMap_map, List.filterMap_map]
          exact List.filterMap_eq_nil_iff.mpr fun _ _ => rfl
        rw [List.map_cons, List.append_cons, lastRequest_append quiet,
          lastRequest_received]
        rfl

/-- What is sent back is what was received. -/
theorem Carried.sent {os : List EchoOutput} {s : EchoState} {v : ServerState}
    {out : List ServerOutput} (h : Carried os s)
    (taken : server.step s.server .send = some (v, out)) :
    Carried (os ++ out.map .server)
      { s with server := v, net := s.net ++ out.filterMap reply? } := by
  cases serverMoves_of_step taken with
  | sent pc =>
      obtain ⟨-, issued⟩ := h.held pc
      refine ⟨h.numbered, ?_, fun holding => nomatch holding⟩
      intro packet hmem
      rcases List.mem_append.mp hmem with old | new
      · exact (h.issued packet old).mono (Nat.le_refl _) _
      · simp only [reply?, List.filterMap_cons, List.filterMap_nil, List.mem_singleton] at new
        subst packet
        exact issued.mono (Nat.le_refl _) _

theorem Carried.step {os out : List EchoOutput} {s t : EchoState} {e : EchoEvent}
    (h : Carried os s) (taken : echo.step s e = some (t, out)) : Carried (os ++ out) t := by
  cases echoMoves_of_step taken with
  | client e moved => exact h.byClient (fun _ => id) moved
  | clientRecv index outstanding found moved =>
      exact h.byClient (fun _ => Network.mem_of_mem_pick found) moved
  | serverRecv socket index crash overload found moved =>
      exact h.received (fun _ => Network.mem_of_mem_pick found) (Network.mem_of_pick found) moved
  | serverSend moved => exact h.sent moved
  | serverStart crashed =>
      rw [List.append_nil]
      exact ⟨h.numbered, h.issued, fun holding => nomatch holding⟩
  | lose index =>
      rw [List.append_nil]
      exact ⟨h.numbered, fun packet hmem => h.issued packet (List.mem_of_mem_eraseIdx hmem), h.held⟩

theorem carried_of_run {es : List EchoEvent} {os : List EchoOutput} {s : EchoState}
    (run : echo.Run es os s) : Carried os s := by
  have init : Carried [] echo.init := by
    refine ⟨⟨fun _ => by decide, ?_, ?_⟩, ?_, ?_⟩ <;> simp [echo, clientInit, serverInit]
  exact run.output_invariant init fun _ _ _ _ _ h taken => h.step taken

/-! ## The numbers survive -/

/-- What the client makes of the text of a number. -/
def verdict (s : ClientState) (k : Nat) : ClientOutput :=
  if k = s.sequence then .accepted (decimal k) else .rejected (decimal k)

/-- The sequence numbers of a run survive the wire, in the state it reaches. -/
structure SurvivesWire (os : List EchoOutput) (s : EchoState) : Prop where
  /-- The text of every number reached and its NUL fit both buffers. -/
  fits : ∀ k, 1 ≤ k → k ≤ s.client.sequence →
    (decimal k).length + 1 ≤ requestSize ∧ (decimal k).length + 1 ≤ serverSize
  /-- The server sends the text of the request it has received last, which the client
  has transmitted on that socket, back on it. -/
  echoed : ∀ t out, echo.step s .serverSend = some (t, out) →
    ∃ socket k, 1 ≤ k ∧ k ≤ s.client.sequence ∧ lastRequest os = some (socket, decimal k) ∧
      .client (.transmitted socket (decimal k)) ∈ os ∧ out = [.server (.sent socket (decimal k))]
  /-- The text of every number reached reads as the number. -/
  reads : ∀ k, 1 ≤ k → k ≤ s.client.sequence → atoi (decimal k) = k
  /-- A reply is the text of a number the client has transmitted on its socket, and is
  accepted when the number is the current one, and only then. -/
  received : ∀ index t out, echo.step s (.clientRecv index) = some (t, out) →
    ∃ k, 1 ≤ k ∧ k ≤ s.client.sequence ∧
      .client (.transmitted s.client.socket (decimal k)) ∈ os ∧
      out = [.client (verdict s.client k)]
  /-- So is the text of any number an `int` can have. -/
  decided : s.client.pc = .recv → ∀ k, k < 2147483648 →
    ∃ t, client.step s.client (.recv (some (decimal k))) = some (t, [verdict s.client k])

/-- A number that is begun has nine digits at most. -/
def BelowBillion (s : EchoState) : EchoEvent → Prop
  | .client e => Begins s.client e → s.client.sequence + 1 < 1000000000
  | _ => True

instance (s : EchoState) (e : EchoEvent) : Decidable (BelowBillion s e) := by
  unfold BelowBillion
  split <;> infer_instance

/-- The client decides on a text by its number. -/
theorem step_recv_decimal {s : ClientState} (pc : s.pc = .recv) {k : Nat} (h : k < 2147483648) :
    ∃ t, client.step s (.recv (some (decimal k))) = some (t, [verdict s k]) := by
  have reads := atoi_decimal h
  by_cases same : k = s.sequence
  · refine ⟨{ s with pc := .loop, retriesLeft := requestRetries, outstanding := false }, ?_⟩
    subst k
    simp [client, clientStep, pc, onReply, reads, verdict]
  · refine ⟨{ s with pc := .poll, outstanding := false }, ?_⟩
    have malformed : atoi (decimal k) ≠ s.sequence := by
      rw [reads]
      exact fun heq => same (Int.ofNat_inj.mp heq)
    simp [client, clientStep, pc, onReply, malformed, verdict, same]

/-- The number of the client grows only when one is begun. -/
theorem below_iff_of_step {s t : EchoState} {e : EchoEvent} {out : List EchoOutput}
    (taken : echo.step s e = some (t, out)) :
    t.client.sequence < 1000000000 ↔ s.client.sequence < 1000000000 ∧ BelowBillion s e := by
  cases echoMoves_of_step taken with
  | client e moved =>
      have grown := sequence_of_step moved
      simp only [BelowBillion]
      split at grown
      case isTrue begins =>
        simp only [begins, true_imp_iff]
        omega
      case isFalse continues =>
        simp only [continues, false_imp_iff, and_true]
        omega
  | clientRecv index outstanding found moved =>
      have grown := sequence_of_step moved
      rw [if_neg (by exact id)] at grown
      simp only [BelowBillion, and_true]
      omega
  | _ => simp [BelowBillion]

theorem below_iff {es : List EchoEvent} {os : List EchoOutput} {s : EchoState}
    (run : echo.Run es os s) :
    s.client.sequence < 1000000000 ↔ echo.StepsMeet BelowBillion es := by
  induction run with
  | start => exact iff_of_true (by decide) (by simp [Machine.StepsMeet])
  | extend prior taken ih => rw [below_iff_of_step taken, ih, prior.stepsMeet_concat]

/-- Sequence numbers survive the wire exactly in the runs in which every number that is
begun has nine digits at most. -/
theorem survives_wire_iff {es : List EchoEvent} {os : List EchoOutput} {s : EchoState}
    (run : echo.Run es os s) : SurvivesWire os s ↔ echo.StepsMeet BelowBillion es := by
  have carried := carried_of_run run
  rw [← below_iff run]
  constructor
  · intro survives
    rcases Nat.eq_zero_or_pos s.client.sequence with zero | positive
    · omega
    · exact fits_iff.mp (survives.fits _ positive (Nat.le_refl _)).1
  · intro below
    refine ⟨?_, ?_, ?_, ?_, ?_⟩
    · exact fun k _ hk => ⟨fits_iff.mpr (by omega), decimal_fits_server (by omega)⟩
    · intro t out taken
      cases echoMoves_of_step taken with
      | serverSend moved =>
          cases serverMoves_of_step moved with
          | sent pc =>
              obtain ⟨last, k, positive, hk, -, htext, sent⟩ := carried.held pc
              rw [htext] at last sent
              exact ⟨s.server.peer, k, positive, hk, last, sent, by rw [htext]; rfl⟩
    · exact fun k _ hk => atoi_decimal (by omega)
    · intro index t out taken
      cases echoMoves_of_step taken with
      | clientRecv _ outstanding found moved =>
          obtain ⟨k, positive, hk, -, htext, sent⟩ :=
            carried.issued _ (Network.mem_of_pick found)
          dsimp only at htext
          subst htext
          have pc : s.client.pc = .recv := by
            cases clientMoves_of_step moved with
            | accepted reply pc ok => exact pc
            | rejected reply pc malformed => exact pc
          obtain ⟨c, decided⟩ := step_recv_decimal pc (by omega : k < 2147483648)
          rw [decided] at moved
          cases moved
          exact ⟨k, positive, hk, sent, rfl⟩
    · exact fun pc k hk => step_recv_decimal pc hk

/-- The first request is sent twice, since the reply to it is lost, and the server is
started again after it has crashed with the third. -/
def crashedRun : List EchoEvent :=
  [.client .loop, .serverRecv 0 0 0 0, .serverSend, .lose 0, .client .pollTimeout,
    .serverRecv 1 0 0 0, .serverSend, .client .pollReady, .clientRecv 0,
    .client .loop, .serverRecv 1 0 0 0, .serverSend, .client .pollReady, .clientRecv 0,
    .client .loop, .serverRecv 1 0 0 0, .serverStart, .client .pollTimeout,
    .serverRecv 2 0 0 0, .serverSend, .client .pollReady, .clientRecv 0]

theorem survives_wire_iff_crashed : ∃ os s, echo.Run crashedRun os s ∧
    s.client.sequence = 3 ∧ SurvivesWire os s := by
  have hexec : ((echo.exec echo.init crashedRun).map fun r => r.1.client.sequence) = some 3 := by
    decide
  obtain ⟨os, s, run, sequence⟩ := Machine.run_of_map_exec hexec
  have meets : echo.StepsMeet BelowBillion crashedRun := Machine.stepsMeet_of_check (by decide)
  exact ⟨os, s, run, sequence, (survives_wire_iff run).mpr meets⟩

/-- Nothing is under way, and so many numbers have been accepted. -/
structure Idle (n : Nat) (s : EchoState) : Prop where
  atLoop : ∃ request, s.client = ⟨.loop, n, 3, request, false, 0, false⟩
  atRecv : s.server.pc = .recv
  empty : s.net = []

/-- The client waits for the reply to a number. -/
def waiting (n : Nat) (pc : ClientPc) : ClientState := ⟨pc, n, 3, decimal n, false, 0, true⟩

theorem step_transmitted {n : Nat} (below : n + 1 < 1000000000) (request : Frame)
    (v : ServerState) :
    echo.step ⟨⟨.loop, n, 3, request, false, 0, false⟩, v, []⟩ (.client .loop) =
      some (⟨waiting (n + 1) .poll, v, [(.requests 0, decimal (n + 1))]⟩,
        [.client (.transmitted 0 (decimal (n + 1)))]) := by
  have fits : (decimal (n + 1)).length + 1 ≤ requestSize := fits_iff.mpr below
  simp [echo, echoStep, byClient, client, clientStep, onLoop, zstrSend, fits, transmission?,
    waiting]

/-- The values drawn are neither a crash nor an overload. -/
theorem step_received {v : ServerState} (pc : v.pc = .recv) (n : Nat) :
    echo.step ⟨waiting n .poll, v, [(.requests 0, decimal n)]⟩
        (.serverRecv 0 0 1073741824 1073741824) =
      some (⟨waiting n .poll, v.take 0 (decimal n) .send, []⟩,
        [.server (.received 0 (decimal n)), .server (.sleep 1)]) := by
  have draw : randof 3 1073741824 ≠ 0 := by decide
  simp [echo, echoStep, byServer, server, serverStep, pc, onRequest, Network.pick, draw, reply?]

theorem step_sent {n : Nat} (below : n < 1000000000) (v : ServerState) :
    echo.step ⟨waiting n .poll, v.take 0 (decimal n) .send, []⟩ .serverSend =
      some (⟨waiting n .poll, v.take 0 (decimal n) .recv, [(.replies 0, decimal n)]⟩,
        [.server (.sent 0 (decimal n))]) := by
  have pc : (v.take 0 (decimal n) .send).pc = .send := rfl
  have same : cstr (v.take 0 (decimal n) .send).request = decimal n :=
    cstr_request_take (decimal_fits_server (by omega)) (zero_not_mem_decimal n) _ _ _
  simp only [echo, echoStep, byServer, server, serverStep, pc, same]
  rfl

theorem step_ready (n : Nat) (v : ServerState) (net : Network Channel Frame) :
    echo.step ⟨waiting n .poll, v, net⟩ (.client .pollReady) =
      some (⟨waiting n .recv, v, net⟩, []) := by
  simp [echo, echoStep, byClient, client, clientStep, waiting]

theorem step_accepted {n : Nat} (below : n < 1000000000) (v : ServerState) :
    echo.step ⟨waiting n .recv, v, [(.replies 0, decimal n)]⟩ (.clientRecv 0) =
      some (⟨⟨.loop, n, 3, decimal n, false, 0, false⟩, v, []⟩,
        [.client (.accepted (decimal n))]) := by
  have reads : atoi (decimal n) = n := atoi_decimal (by omega)
  simp [echo, echoStep, byClient, client, clientStep, onReply, Network.pick, transmission?,
    waiting, reads, requestRetries]

/-- Every number of nine digits is reached. -/
theorem exists_idle {n : Nat} (below : n < 1000000000) :
    ∃ es os s, echo.Run es os s ∧ Idle n s := by
  induction n with
  | zero => exact ⟨_, _, _, .start, ⟨_, rfl⟩, rfl, rfl⟩
  | succ n ih =>
      obtain ⟨es, os, ⟨c, v, net⟩, run, ⟨request, rfl⟩, atRecv, rfl⟩ :=
        ih (Nat.lt_of_succ_lt below)
      have echoed := ((run.extend (step_transmitted below request v)).extend
        (step_received atRecv _)).extend (step_sent below v)
      have accepted := (echoed.extend (step_ready _ _ _)).extend (step_accepted below _)
      exact ⟨_, _, _, accepted, ⟨_, rfl⟩, rfl, rfl⟩

/-- And so is the first one of ten. -/
theorem exists_billion : ∃ es os s, echo.Run es os s ∧ s.client.sequence = 1000000000 := by
  obtain ⟨es, os, s, run, idle⟩ := exists_idle (by decide : 999999999 < 1000000000)
  obtain ⟨request, hclient⟩ := idle.atLoop
  have long : ¬ (decimal 1000000000).length + 1 ≤ requestSize :=
    fun fits => absurd (fits_iff.mp fits) (by decide)
  have taken : echo.step s (.client .loop) =
      some ({ s with client := ⟨.overrun, 1000000000, 3, request, false, 0, false⟩ }, []) := by
    simp [echo, echoStep, byClient, client, hclient, clientStep, onLoop, long]
  exact ⟨_, _, _, run.extend taken, rfl⟩

/-- The text of the number 1000000000 and its NUL take eleven bytes. -/
theorem billion_overruns : ¬ ∀ es os s, echo.Run es os s → SurvivesWire os s := by
  intro claim
  obtain ⟨es, os, s, run, billion⟩ := exists_billion
  have fits := ((claim es os s run).fits 1000000000 (by decide) (by rw [billion])).1
  exact absurd (fits_iff.mp fits) (by decide)

end ZmqTest.Lpp
