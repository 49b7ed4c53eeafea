/-
# How often a request is executed

A request that is lost is sent again, so the server may receive the same number more than
once; what is sent is lost or received, and is not multiplied on the way. Whatever errors
and signals there are, the retries that are left bound how often one text is transmitted.
A reply that is accepted was sent by the server, for a request with the same text that it
had received. So the Lazy Pirate executes a request whose reply it accepts at least once,
and any request three times at most.
-/

import ZmqTest.Lpp.Echo

namespace ZmqTest.Lpp

open StopAndWait

/-- How often a client can have transmitted the texts of its numbers. -/
structure Tried (os : List ClientOutput) (s : ClientState) : Prop where
  left : 0 ≤ s.retriesLeft ∧ s.retriesLeft ≤ requestRetries
  trying : s.pc = .poll ∨ s.pc = .recv → s.request = decimal s.sequence ∧
    1 ≤ s.retriesLeft ∧ (channels os s.request).length + s.retriesLeft ≤ 4
  future : ∀ k, s.sequence < k → channels os (decimal k) = []
  bounded : ∀ text, (channels os text).length ≤ 3

/-- Outputs that transmit nothing. -/
theorem channels_silent {os out : List ClientOutput} (silent : ∀ text, channels out text = [])
    (text : Frame) : channels (os ++ out) text = channels os text := by
  rw [channels_append, silent, List.append_nil]

/-- A step that transmits nothing and begins nothing. -/
theorem Tried.keep {os out : List ClientOutput} {s t : ClientState} (h : Tried os s)
    (silent : ∀ text, channels out text = []) (sequence : s.sequence ≤ t.sequence)
    (left : 0 ≤ t.retriesLeft ∧ t.retriesLeft ≤ requestRetries)
    (trying : t.pc = .poll ∨ t.pc = .recv → t.request = decimal t.sequence ∧
      1 ≤ t.retriesLeft ∧ (channels os t.request).length + t.retriesLeft ≤ 4) :
    Tried (os ++ out) t where
  left := left
  trying := by
    rw [channels_silent silent]
    exact trying
  future := by
    intro k hk
    rw [channels_silent silent]
    exact h.future k (Nat.lt_of_le_of_lt sequence hk)
  bounded := by
    intro text
    rw [channels_silent silent]
    exact h.bounded text

/-- The first send of a number is refused or transmits it. -/
theorem Tried.begun {os sent : List ClientOutput} {s : ClientState} (h : Tried os s)
    (again : s.retriesLeft ≠ 0)
    (sends : sent = [.refused (decimal (s.sequence + 1))] ∨
      sent = [.transmitted s.socket (decimal (s.sequence + 1))]) :
    Tried (os ++ sent)
      { s with
        pc := .poll
        sequence := s.sequence + 1
        request := decimal (s.sequence + 1)
        outstanding := true } := by
  obtain ⟨low, high⟩ := h.left
  rw [requestRetries] at high
  have fresh := h.future (s.sequence + 1) (Nat.lt_succ_self _)
  have new : (channels sent (decimal (s.sequence + 1))).length ≤ 1 := by
    rcases sends with rfl | rfl <;> simp
  have others : ∀ text, decimal (s.sequence + 1) ≠ text → channels sent text = [] := by
    intro text hne
    rcases sends with rfl | rfl <;> simp [hne]
  refine ⟨h.left, fun _ => ⟨rfl, ?_, ?_⟩, ?_, ?_⟩
  · dsimp only
    omega
  · dsimp only
    rw [channels_append, fresh, List.nil_append]
    omega
  · intro k hk
    have hne : decimal (s.sequence + 1) ≠ decimal k :=
      fun same => absurd (decimal_injective same) (Nat.ne_of_lt hk)
    rw [channels_append, h.future k (Nat.lt_of_succ_lt hk), others _ hne]
    rfl
  · intro text
    by_cases same : decimal (s.sequence + 1) = text
    · subst text
      rw [channels_append, fresh, List.nil_append]
      omega
    · rw [channels_append, others text same, List.append_nil]
      exact h.bounded text

theorem Tried.retried {os : List ClientOutput} {s : ClientState} (h : Tried os s)
    (pc : s.pc = .poll) (more : s.retriesLeft - 1 ≠ 0) :
    Tried (os ++ [.expired s.request, .transmitted (s.socket + 1) s.request])
      { s with
        retriesLeft := s.retriesLeft - 1
        socket := s.socket + 1
        outstanding := true } := by
  obtain ⟨low, high⟩ := h.left
  obtain ⟨request, positive, count⟩ := h.trying (Or.inl pc)
  have added : ∀ text, channels
      (os ++ [.expired s.request, .transmitted (s.socket + 1) s.request]) text =
      channels os text ++ if s.request = text then [s.socket + 1] else [] := by
    intro text
    rw [channels_append, ← List.singleton_append, channels_append [.expired s.request]]
    by_cases same : s.request = text <;> simp [same]
  refine ⟨⟨by dsimp only; omega, by dsimp only; omega⟩, fun _ => ⟨request, ?_, ?_⟩, ?_, ?_⟩
  · dsimp only
    omega
  · rw [added, if_pos rfl, List.length_append, List.length_singleton]
    dsimp only
    omega
  · intro k hk
    have other : s.request ≠ decimal k := by
      rw [request]
      exact fun same => absurd (decimal_injective same) (Nat.ne_of_lt hk)
    rw [added, if_neg other, h.future k hk]
    rfl
  · intro text
    rw [added]
    by_cases same : s.request = text
    · subst text
      rw [if_pos rfl, List.length_append, List.length_singleton]
      omega
    · rw [if_neg same, List.append_nil]
      exact h.bounded text

theorem Tried.step {os out : List ClientOutput} {s t : ClientState} {e : ClientEvent}
    (h : Tried os s) (taken : client.step s e = some (t, out)) : Tried (os ++ out) t := by
  cases clientMoves_of_step taken with
  | stopped pc finished => exact h.keep (fun _ => rfl) (Nat.le_refl _) h.left (by simp)
  | begun pc again fits send =>
      obtain ⟨rfl, sends⟩ := zstrSend_cases send
      exact h.begun (fun none => again (Or.inl none)) sends
  | overrun pc again long => exact h.keep (fun _ => rfl) (Nat.le_succ _) h.left (by simp)
  | pollError pc => exact h.keep (fun _ => rfl) (Nat.le_refl _) h.left (by simp)
  | abandoned pc last =>
      have none : 0 ≤ s.retriesLeft - 1 ∧ s.retriesLeft - 1 ≤ requestRetries := by
        rw [last]
        decide
      exact h.keep (fun _ => rfl) (Nat.le_refl _) none (by simp)
  | retried pc more => exact h.retried pc more
  | pollReady pc =>
      exact h.keep (fun _ => rfl) (Nat.le_refl _) h.left fun _ => h.trying (Or.inl pc)
  | recvError pc => exact h.keep (fun _ => rfl) (Nat.le_refl _) h.left (by simp)
  | accepted reply pc ok =>
      have full : 0 ≤ requestRetries ∧ requestRetries ≤ requestRetries := by decide
      exact h.keep (fun _ => rfl) (Nat.le_refl _) full (by simp)
  | rejected reply pc malformed =>
      exact h.keep (fun _ => rfl) (Nat.le_refl _) h.left fun _ => h.trying (Or.inr pc)
  | interrupt => exact h.keep (fun _ => rfl) (Nat.le_refl _) h.left h.trying

theorem tried_of_run {es : List ClientEvent} {os : List ClientOutput} {s : ClientState}
    (run : client.Run es os s) : Tried os s := by
  apply run.output_invariant
  · exact ⟨by decide, by simp [client, clientInit], fun _ _ => rfl, fun _ => by simp [channels]⟩
  · exact fun _ _ _ _ _ h taken => h.step taken

/-- What the client does and sees. -/
def clientOutputs (os : List EchoOutput) : List ClientOutput :=
  os.filterMap fun
    | .client o => some o
    | .server _ => none

@[simp]
theorem clientOutputs_append (os out : List EchoOutput) :
    clientOutputs (os ++ out) = clientOutputs os ++ clientOutputs out :=
  List.filterMap_append

@[simp]
theorem clientOutputs_client (out : List ClientOutput) :
    clientOutputs (out.map .client) = out := by
  simp [clientOutputs, List.filterMap_map]

@[simp]
theorem clientOutputs_server (out : List ServerOutput) :
    clientOutputs (out.map .server) = [] := by
  rw [clientOutputs, List.filterMap_map]
  exact List.filterMap_eq_nil_iff.mpr fun _ _ => rfl

theorem client_run_of_run {es : List EchoEvent} {os : List EchoOutput} {s : EchoState}
    (run : echo.Run es os s) : ∃ es', client.Run es' (clientOutputs os) s.client := by
  have simulated : ∃ es' os' c, client.Run es' os' c ∧ os' = clientOutputs os ∧ c = s.client := by
    apply run.simulate fun os s os' c => os' = clientOutputs os ∧ c = s.client
    · exact ⟨rfl, rfl⟩
    · rintro os s es' _ _ e t out matched ⟨rfl, rfl⟩ taken
      cases echoMoves_of_step taken with
      | client e moved => exact ⟨[e], _, _, Machine.exec_singleton moved, by simp, rfl⟩
      | clientRecv index outstanding found moved =>
          exact ⟨[_], _, _, Machine.exec_singleton moved, by simp, rfl⟩
      | serverRecv socket index crash overload found moved => exact ⟨[], [], _, rfl, by simp, rfl⟩
      | serverSend moved => exact ⟨[], [], _, rfl, by simp, rfl⟩
      | serverStart crashed => exact ⟨[], [], _, rfl, by simp, rfl⟩
      | lose index => exact ⟨[], [], _, rfl, by simp, rfl⟩
  obtain ⟨es', _, _, matched, rfl, rfl⟩ := simulated
  exact ⟨es', matched⟩

/-! ## Receipts and replies -/

/-- Does the server receive the text? -/
def EchoOutput.executes (text : Frame) : EchoOutput → Bool
  | .server (.received _ frame) => frame = text
  | _ => false

/-- How often the server has received the text. -/
def executions (os : List EchoOutput) (text : Frame) : Nat := os.countP (EchoOutput.executes text)

/-- Is it a request with the text? -/
def asks (text : Frame) : Channel × Frame → Bool
  | (.requests _, frame) => frame = text
  | _ => false

@[simp]
theorem executions_append (os out : List EchoOutput) (text : Frame) :
    executions (os ++ out) text = executions os text + executions out text :=
  List.countP_append

@[simp]
theorem executions_client (out : List ClientOutput) (text : Frame) :
    executions (out.map .client) text = 0 := by
  rw [executions, List.countP_map]
  exact List.countP_eq_zero.mpr fun _ _ => by simp [EchoOutput.executes]

/-- What the client transmits is under way. -/
theorem countP_transmission (out : List ClientOutput) (text : Frame) :
    (out.filterMap transmission?).countP (asks text) = (channels out text).length := by
  induction out with
  | nil => rfl
  | cons o out ih =>
      rw [← List.singleton_append, channels_append, List.filterMap_append, List.countP_append,
        List.length_append, ih]
      cases o with
      | transmitted socket frame =>
          by_cases same : frame = text <;> simp [transmission?, asks, same]
      | _ => simp [transmission?]

theorem countP_reply (out : List ServerOutput) (text : Frame) :
    (out.filterMap reply?).countP (asks text) = 0 := by
  apply List.countP_eq_zero.mpr
  intro packet hmem
  obtain ⟨o, -, hpacket⟩ := List.mem_filterMap.mp hmem
  cases o with
  | sent socket frame =>
      obtain rfl : (.replies socket, frame) = packet := Option.some.inj hpacket
      simp [asks]
  | _ => cases hpacket

/-- What has been received, and what is still under way, has been transmitted; what is sent
back has been received. -/
structure Executed (os : List EchoOutput) (s : EchoState) : Prop where
  transmitted : ∀ text, executions os text + s.net.countP (asks text) ≤
    (channels (clientOutputs os) text).length
  held : s.server.pc = .send →
    .server (.received s.server.peer (cstr s.server.request)) ∈ os
  replied : ∀ socket text, (.replies socket, text) ∈ s.net →
    .server (.received socket text) ∈ os

theorem Executed.byClient {os : List EchoOutput} {s : EchoState} {c : ClientState}
    {out : List ClientOutput} {taken left : Network Channel Frame} (h : Executed os s)
    (remain : s.net.Perm (taken ++ left)) :
    Executed (os ++ out.map .client)
      { s with client := c, net := left ++ out.filterMap transmission? } where
  transmitted := by
    intro text
    have earlier := h.transmitted text
    have fewer := remain.countP_eq (asks text)
    rw [List.countP_append] at fewer
    have new := countP_transmission out text
    simp only [executions_append, executions_client, List.countP_append, clientOutputs_append,
      clientOutputs_client, channels_append, List.length_append]
    omega
  held := fun pc => List.mem_append_left _ (h.held pc)
  replied := by
    intro socket text hmem
    apply List.mem_append_left
    apply h.replied
    rcases List.mem_append.mp hmem with old | new
    · exact remain.mem_iff.mpr (List.mem_append_right taken old)
    · obtain ⟨o, -, hpacket⟩ := List.mem_filterMap.mp new
      cases o <;> simp [transmission?] at hpacket

theorem Executed.received {os : List EchoOutput} {s : EchoState} {v : ServerState}
    {socket : Nat} {text : Frame} {crash overload : Random} {out : List ServerOutput}
    {left : Network Channel Frame} (h : Executed os s) (carried : Carried os s)
    (found : s.net.Perm ((.requests socket, text) :: left))
    (taken : server.step s.server (.recv socket text crash overload) = some (v, out)) :
    Executed (os ++ out.map .server)
      { s with server := v, net := left ++ out.filterMap reply? } := by
  have one : ∃ rest : List ServerOutput, out = .received socket text :: rest ∧
      (∀ other, executions (rest.map .server) other = 0) ∧ rest.filterMap reply? = [] := by
    cases serverMoves_of_step taken with
    | crashed _ _ _ _ pc drawn => exact ⟨[], rfl, fun _ => rfl, rfl⟩
    | received _ _ _ _ pc drawn sleeps =>
        refine ⟨_, rfl, fun other => ?_, ?_⟩
        · rw [executions, List.countP_map, List.countP_map]
          exact List.countP_eq_zero.mpr fun _ _ => by simp [EchoOutput.executes]
        · rw [List.filterMap_map]
          exact List.filterMap_eq_nil_iff.mpr fun _ _ => rfl
  obtain ⟨rest, rfl, quiet, silent⟩ := one
  refine ⟨?_, ?_, ?_⟩
  · intro other
    have earlier := h.transmitted other
    have fewer := found.countP_eq (asks other)
    have none := countP_reply (.received socket text :: rest) other
    have counted : executions ((ServerOutput.received socket text :: rest).map .server) other =
        if asks other (.requests socket, text) then 1 else 0 := by
      have later := quiet other
      rw [executions] at later ⊢
      rw [List.map_cons, List.countP_cons, later, Nat.zero_add]
      rfl
    rw [List.countP_cons] at fewer
    simp only [executions_append, counted, List.countP_append, none, clientOutputs_append,
      clientOutputs_server, List.append_nil]
    omega
  · intro pc
    have issued := carried.issued _ (found.mem_iff.mpr List.mem_cons_self)
    have htext : cstr v.request = text ∧ v.peer = socket := by
      obtain ⟨k, -, -, below, htext, -⟩ := issued
      dsimp only at htext
      subst htext
      cases serverMoves_of_step taken with
      | crashed _ _ _ _ _ drawn => cases pc
      | received _ _ _ _ _ drawn sleeps =>
          exact ⟨cstr_request_take (decimal_fits_server (by omega)) (zero_not_mem_decimal k) _ _ _,
            rfl⟩
    dsimp only
    rw [htext.1, htext.2]
    exact List.mem_append_right _ List.mem_cons_self
  · intro place frame hmem
    have quiet : (ServerOutput.received socket text :: rest).filterMap reply? = [] := silent
    dsimp only at hmem
    rw [quiet, List.append_nil] at hmem
    exact List.mem_append_left _ (h.replied place frame
      (found.mem_iff.mpr (List.mem_cons_of_mem _ hmem)))

theorem Executed.sent {os : List EchoOutput} {s : EchoState} {v : ServerState}
    {out : List ServerOutput} (h : Executed os s)
    (taken : server.step s.server .send = some (v, out)) :
    Executed (os ++ out.map .server)
      { s with server := v, net := s.net ++ out.filterMap reply? } := by
  cases serverMoves_of_step taken with
  | sent pc =>
      refine ⟨?_, fun sending => absurd sending (by simp), ?_⟩
      · intro text
        have earlier := h.transmitted text
        simpa [executions, EchoOutput.executes, reply?, asks, clientOutputs] using earlier
      · intro socket text hmem
        apply List.mem_append_left
        rcases List.mem_append.mp hmem with old | new
        · exact h.replied socket text old
        · simp only [reply?, List.filterMap_cons, List.filterMap_nil, List.mem_singleton,
            Prod.mk.injEq, Channel.replies.injEq] at new
          obtain ⟨rfl, rfl⟩ := new
          exact h.held pc

theorem executed_of_run {es : List EchoEvent} {os : List EchoOutput} {s : EchoState}
    (run : echo.Run es os s) : Executed os s := by
  induction run with
  | start => exact ⟨fun _ => Nat.le_refl _, by simp [echo, serverInit], by simp [echo]⟩
  | @extend es os s t e out prior taken ih =>
      cases echoMoves_of_step taken with
      | client e moved => exact ih.byClient (List.Perm.refl ([] ++ _))
      | clientRecv index outstanding found moved =>
          exact ih.byClient (List.singleton_append ▸ Network.perm_of_pick found)
      | serverRecv socket index crash overload found moved =>
          exact ih.received (carried_of_run prior) (Network.perm_of_pick found) moved
      | serverSend moved => exact ih.sent moved
      | serverStart crashed =>
          rw [List.append_nil]
          exact ⟨ih.transmitted, fun sending => absurd sending (by simp [serverInit]), ih.replied⟩
      | lose index =>
          rw [List.append_nil]
          have remain := List.eraseIdx_sublist s.net index
          refine ⟨fun text => ?_, ih.held, fun socket text hmem => ?_⟩
          · exact Nat.le_trans (Nat.add_le_add_left remain.countP_le _) (ih.transmitted text)
          · exact ih.replied socket text (remain.subset hmem)

/-- What an accepted reply says of what was before it. -/
def Justified (before : List EchoOutput) : EchoOutput → Prop
  | .client (.accepted reply) =>
      1 ≤ executions before reply ∧ ∃ k, 1 ≤ k ∧ k < 1000000000 ∧ reply = decimal k
  | _ => True

theorem executions_pos {os : List EchoOutput} {socket : Nat} {text : Frame}
    (h : .server (.received socket text) ∈ os) : 1 ≤ executions os text :=
  List.countP_pos_iff.mpr ⟨_, h, by simp [EchoOutput.executes]⟩

/-- A reply is accepted from the network. -/
theorem accepted_of_step {s t : EchoState} {e : EchoEvent} {out : List EchoOutput}
    {reply : Frame} (taken : echo.step s e = some (t, out))
    (hmem : .client (.accepted reply) ∈ out) :
    (.replies s.client.socket, reply) ∈ s.net ∧ out = [.client (.accepted reply)] := by
  cases echoMoves_of_step taken with
  | client e moved =>
      cases clientMoves_of_step moved with
      | begun pc again fits send =>
          obtain ⟨-, rfl | rfl⟩ := zstrSend_cases send <;> simp at hmem
      | accepted found pc ok => cases taken
      | _ => simp at hmem
  | clientRecv index outstanding found moved =>
      cases clientMoves_of_step moved with
      | accepted _ pc ok =>
          simp only [List.map_cons, List.map_nil, List.mem_singleton, EchoOutput.client.injEq,
            Entry.accepted.injEq] at hmem
          subst hmem
          exact ⟨Network.mem_of_pick found, rfl⟩
      | rejected _ pc malformed => simp at hmem
  | serverRecv socket index crash overload found moved => simp at hmem
  | serverSend moved => simp at hmem
  | serverStart crashed => simp at hmem
  | lose index => simp at hmem

theorem justified_of_run {es : List EchoEvent} {os : List EchoOutput} {s : EchoState}
    (run : echo.Run es os s) {before after : List EchoOutput} {o : EchoOutput}
    (heq : os = before ++ o :: after) : Justified before o := by
  apply run.outputs_meet _ heq
  intro es os s e t out prior taken first o rest hout
  unfold Justified
  split
  case h_1 reply =>
    have hmem : .client (.accepted reply) ∈ out :=
      hout ▸ List.mem_append_right first List.mem_cons_self
    obtain ⟨found, single⟩ := accepted_of_step taken hmem
    obtain ⟨k, positive, -, below, htext, -⟩ := (carried_of_run prior).issued _ found
    have nothing : first = [] := by
      rw [single] at hout
      cases first with
      | nil => rfl
      | cons head first => simp at hout
    rw [nothing, List.append_nil]
    refine ⟨executions_pos ((executed_of_run prior).replied _ _ found), k, positive, below, htext⟩
  case h_2 => trivial

/-- Every request is received by the server three times at most, in any run of the two
with any losses, errors, crashes and restarts, and a reply that the client accepts is the
text of its number, which the server has received before, once at least. -/
theorem executed_within_retries {es : List EchoEvent} {os : List EchoOutput} {s : EchoState}
    (run : echo.Run es os s) :
    (∀ text, (executions os text : Int) ≤ requestRetries) ∧
      ∀ before reply after, os = before ++ .client (.accepted reply) :: after →
        1 ≤ executions before reply ∧ ∃ k, 1 ≤ k ∧ k < 1000000000 ∧ reply = decimal k := by
  constructor
  · intro text
    obtain ⟨es', matched⟩ := client_run_of_run run
    have few := (tried_of_run matched).bounded text
    have received := (executed_of_run run).transmitted text
    rw [requestRetries]
    omega
  · exact fun before reply after heq => justified_of_run run heq

/-- In the run with a lost reply and a crash, the first and the third number are received
twice. -/
theorem executed_within_retries_crashed : ∃ os s, echo.Run crashedRun os s ∧
    executions os [49] = 2 ∧ executions os [51] = 2 ∧
    (∀ text, (executions os text : Int) ≤ requestRetries) ∧
    ∀ before reply after, os = before ++ .client (.accepted reply) :: after →
      1 ≤ executions before reply ∧ ∃ k, 1 ≤ k ∧ k < 1000000000 ∧ reply = decimal k := by
  have hexec : (echo.exec echo.init crashedRun).map
      (fun r => (executions r.2 [49], executions r.2 [51])) = some (2, 2) := by decide
  obtain ⟨os, s, run, hsee⟩ := Machine.run_of_map_exec hexec
  obtain ⟨first, third⟩ := Prod.mk.inj hsee
  obtain ⟨few, justified⟩ := executed_within_retries run
  exact ⟨os, s, run, first, third, few, justified⟩

end ZmqTest.Lpp
