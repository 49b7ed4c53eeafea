/-
# The weather server with its clients

The server draws an update in each pass of its loop and publishes it; a client receives
the updates with its zip code, unless it misses some, and prints an average after a
hundred. What it prints is the average of temperatures that the server has drawn for this
zip code, in a row when the client has missed nothing.

A draw of the zip code that is rounded up is printed with six digits. The text then starts
with 10000, and would be received by a client that asks for that code.
-/

import ZmqTest.Lib.Pubsub
import ZmqTest.Weather.Average

namespace ZmqTest.Weather

open Pubsub (onSockets lines)

/-- What the server draws in one pass of its loop. -/
structure Draw where
  zipcode : Random
  temperature : Random
  relhumidity : Random

/-- `temperature` of the server. -/
def Draw.degrees (draw : Draw) : Int := randof 215 draw.temperature - 80

/-- `s_send` without a length publishes the string that was printed. -/
def Draw.published (draw : Draw) : Frame :=
  cstr (serverText draw.zipcode draw.temperature draw.relhumidity)

variable {Client : Type}

/-- Every client has a filter, and variables that hold anything at first. -/
structure Clients (Client : Type) where
  filter : Client → List UInt8
  string : Client → List UInt8
  zipcode : Client → Int
  temperature : Client → Int
  relhumidity : Client → Int

/-- The program of a client. -/
def Clients.program (clients : Clients Client) (c : Client) :
    Machine ClientState Frame ClientOutput :=
  client (clients.filter c) (clients.string c) (clients.zipcode c) (clients.temperature c)
    (clients.relhumidity c)

structure SystemState (Client : Type) where
  client : Client → ClientState
  sockets : Pubsub.State Unit Client Frame

inductive SystemEvent (Client : Type)
  | /-- A pass of the loop of the server; some clients miss the update. -/
    publish (draw : Draw) (misses : Client → Bool)
  | recv (c : Client)

/-- What the sockets do, and what the clients print. -/
abbrev SystemOutput (Client : Type) := Pubsub.Entry Unit Client Frame ClientOutput

/-- A client has subscribed to its filter. -/
def Clients.wants (clients : Clients Client) (c : Client) (_ : Unit) (msg : Zmsg) : Bool :=
  (clients.filter c).isPrefixOf (msg.headD [])

/-- One step of one of the programs. A client that has printed the average is gone. -/
def systemStep [DecidableEq Client] (clients : Clients Client) (s : SystemState Client) :
    SystemEvent Client → Option (SystemState Client × List (SystemOutput Client))
  | .publish draw misses =>
      (Pubsub.step clients.wants s.sockets (.send () draw.published misses)).map fun r =>
        ({ s with sockets := r.1 }, r.2.map .socket)
  | .recv c =>
      if (s.client c).updateNbr < nbrUpdates then
        match Pubsub.recv s.sockets c () with
        | none => none
        | some (frame, sockets, out) =>
            ((clients.program c).step (s.client c) frame).map fun r =>
              ({ client := Function.update s.client c r.1, sockets := sockets },
                out.map .socket ++ r.2.map (.printed c))
      else none

/-- The server with any number of clients. -/
def system [DecidableEq Client] (clients : Clients Client) :
    Machine (SystemState Client) (SystemEvent Client) (SystemOutput Client) where
  init := { client := fun c => (clients.program c).init, sockets := Pubsub.init }
  step := systemStep clients

/-- The draws of a run. -/
def draws (es : List (SystemEvent Client)) : List Draw :=
  es.filterMap fun
    | .publish draw _ => some draw
    | .recv _ => none

/-- Those of a zip code. -/
def drawnFor (filter : List UInt8) (drawn : List Draw) : List Draw :=
  drawn.filter fun draw => randof 100000 draw.zipcode = digitsValue filter

section

variable [DecidableEq Client] {clients : Clients Client} {es : List (SystemEvent Client)}
  {os out : List (SystemOutput Client)} {s t : SystemState Client} {e : SystemEvent Client}

/-- The steps of the system. -/
inductive SystemMoves (clients : Clients Client) (s : SystemState Client) :
    SystemEvent Client → SystemState Client → List (SystemOutput Client) → Prop
  | publish (draw : Draw) (misses : Client → Bool) (sockets : Pubsub.State Unit Client Frame)
      (sent : Pubsub.step clients.wants s.sockets (.send () draw.published misses) =
        some (sockets, [.published () (s.sockets.begun () ++ [draw.published]) misses]))
      (none : sockets.begun () = []) :
      SystemMoves clients s (.publish draw misses) { s with sockets := sockets }
        [.socket (.published () (s.sockets.begun () ++ [draw.published]) misses)]
  | recv (c : Client) (frame : Frame) (sockets : Pubsub.State Unit Client Frame)
      (out : List (Pubsub.Output Unit Client Frame)) (next : ClientState)
      (printed : List ClientOutput) (room : (s.client c).updateNbr < nbrUpdates)
      (read : Pubsub.recv s.sockets c () = some (frame, sockets, out))
      (taken : (clients.program c).step (s.client c) frame = some (next, printed)) :
      SystemMoves clients s (.recv c)
        { client := Function.update s.client c next, sockets := sockets }
        (out.map .socket ++ printed.map (.printed c))

/-- Every step of the system is one of the listed ones. -/
theorem systemMoves_of_step (taken : (system clients).step s e = some (t, out)) :
    SystemMoves clients s e t out := by
  cases e with
  | publish draw misses =>
      cases taken
      exact .publish draw misses _ rfl (Function.update_self () [] s.sockets.begun)
  | recv c =>
      simp only [system, systemStep] at taken
      split at taken
      case isTrue room =>
        split at taken
        case h_1 => cases taken
        case h_2 frame sockets out read =>
          simp only [Option.map_eq_some_iff, Prod.mk.injEq] at taken
          obtain ⟨⟨next, printed⟩, hstep, rfl, rfl⟩ := taken
          exact .recv c frame sockets out next printed room read hstep
      case isFalse => cases taken

/-- What the sockets of the system do is a run of sockets. -/
theorem sockets_run (run : (system clients).Run es os s) :
    ∃ es', (Pubsub.sockets clients.wants).Run es' (onSockets os) s.sockets := by
  apply run.component SystemState.sockets Pubsub.Entry.socket? rfl
  intro s e t out taken
  right
  cases systemMoves_of_step taken with
  | publish draw misses sockets sent none => exact ⟨.send () draw.published misses, sent⟩
  | recv c frame sockets out next printed room read taken =>
      refine ⟨.recv c (), ?_⟩
      rw [← Pubsub.onSockets, Pubsub.onSockets_append, Pubsub.onSockets_socket,
        Pubsub.onSockets_printed, List.append_nil]
      exact Option.map_eq_some_iff.mpr ⟨_, read, rfl⟩

/-- The server has published its draws, and a client is in a run of its own, on a hundred
frames at most when all of them pass the filter. -/
structure Follows (clients : Clients Client) (es : List (SystemEvent Client))
    (os : List (SystemOutput Client)) (s : SystemState Client) : Prop where
  published : Pubsub.publishedBy (onSockets os) () = (draws es).map fun draw => [draw.published]
  begun : s.sockets.begun () = []
  client : ∀ c,
    (clients.program c).Run (Pubsub.reads (onSockets os) c) (lines os c) (s.client c)
  counted : ∀ c, (∀ frame ∈ Pubsub.reads (onSockets os) c, clients.filter c <+: frame) →
    (Pubsub.reads (onSockets os) c).length = (s.client c).updateNbr ∧
      (s.client c).updateNbr ≤ nbrUpdates

omit [DecidableEq Client] in
theorem updateNbr_of_step {c : Client} {u next : ClientState} {frame : Frame}
    {printed : List ClientOutput} (room : u.updateNbr < nbrUpdates)
    (passes : clients.filter c <+: frame)
    (taken : (clients.program c).step u frame = some (next, printed)) :
    next.updateNbr = u.updateNbr + 1 := by
  simp only [Clients.program, ZmqTest.Weather.client, clientStep, room, passes, and_self,
    if_true, Option.some.injEq, Prod.mk.injEq] at taken
  rw [← taken.1]
  rfl

theorem Follows.step (h : Follows clients es os s)
    (taken : (system clients).step s e = some (t, out)) :
    Follows clients (es ++ [e]) (os ++ out) t := by
  cases systemMoves_of_step taken with
  | publish draw misses sockets sent none =>
      refine ⟨?_, none, fun c => ?_, fun c => ?_⟩
      · rw [Pubsub.onSockets_append, Pubsub.publishedBy_append, h.published, h.begun]
        simp [draws]
      · simpa using h.client c
      · simpa using h.counted c
  | recv c frame sockets out next printed room read received =>
      obtain ⟨hreads, hbegun, hpublished⟩ := Pubsub.recv_spec read
      refine ⟨?_, ?_, fun peer => ?_, fun peer => ?_⟩
      · simp [hpublished, h.published, draws]
      · rw [hbegun, h.begun]
      · have before := h.client peer
        by_cases heq : c = peer
        · subst heq
          simpa [hreads] using before.extend received
        · simpa [hreads, heq, Ne.symm heq] using before
      · have before := h.counted peer
        by_cases heq : c = peer
        · subst heq
          intro passes
          simp only [Pubsub.onSockets_append, Pubsub.onSockets_socket, Pubsub.onSockets_printed,
            List.append_nil, Pubsub.reads_append, hreads, if_pos] at passes ⊢
          obtain ⟨counted, -⟩ := before fun f hf => passes f (List.mem_append_left _ hf)
          have more := updateNbr_of_step room
            (passes frame (List.mem_append_right _ List.mem_cons_self)) received
          rw [Function.update_self, more, List.length_append, counted]
          exact ⟨rfl, room⟩
        · simpa [hreads, heq, Ne.symm heq] using before

theorem follows_of_run (run : (system clients).Run es os s) : Follows clients es os s := by
  induction run with
  | start => exact ⟨rfl, rfl, fun _ => .start, fun _ _ => ⟨rfl, Nat.zero_le _⟩⟩
  | extend prior taken ih => exact ih.step taken

/-- What a client has subscribed to, of some draws. -/
def Clients.wanted (clients : Clients Client) (c : Client) (drawn : List Draw) : List Draw :=
  drawn.filter fun draw => clients.wants c () [draw.published]

omit [DecidableEq Client] in
theorem flatten_singletons (drawn : List Draw) :
    (drawn.map fun draw => [draw.published]).flatten = drawn.map Draw.published := by
  induction drawn with
  | nil => rfl
  | cons draw drawn ih => rw [List.map_cons, List.flatten_cons, ih]; rfl

/-- What a client has read is some of the draws it wants, and the first of them when it has
missed nothing. -/
theorem Follows.exists_read (h : Follows clients es os s)
    (carried : Pubsub.Carried clients.wants (onSockets os) s.sockets) (c : Client) :
    ∃ got : List Draw, Pubsub.reads (onSockets os) c = got.map Draw.published ∧
      got.Sublist (clients.wanted c (draws es)) ∧
      ((∀ msg misses, .published () msg misses ∈ onSockets os → misses c = false) →
        got <+: clients.wanted c (draws es)) := by
  have wanted : (Pubsub.publishedBy (onSockets os) ()).filter (clients.wants c ()) =
      (clients.wanted c (draws es)).map fun draw => [draw.published] := by
    rw [h.published, List.filter_map]
    rfl
  have first := carried.reads_of_one () (fun _ => rfl) c
  by_cases none : ∀ msg misses, .published () msg misses ∈ onSockets os → misses c = false
  · rw [Pubsub.reaching_eq none, wanted, flatten_singletons] at first
    obtain ⟨got, hgot, hreads⟩ := List.prefix_map_iff.mp first
    exact ⟨got, hreads, hgot.sublist, fun _ => hgot⟩
  · have some_of := wanted ▸ Pubsub.reaching_sublist () c
    obtain ⟨arrived, hsub, harrived⟩ := List.sublist_map_iff.mp some_of
    rw [harrived, flatten_singletons] at first
    obtain ⟨got, hgot, hreads⟩ := List.prefix_map_iff.mp first
    exact ⟨got, hreads, hgot.sublist.trans hsub, fun missed => absurd missed none⟩

end

/-! ## What the averages say -/

/-- The range of the temperatures. -/
theorem Draw.degrees_bounds (draw : Draw) : -80 ≤ draw.degrees ∧ draw.degrees ≤ 135 := by
  have drawn := randof_le_self (by decide : 1 ≤ 215) (by decide) draw.temperature
  unfold Draw.degrees
  omega

/-- And of the average of a hundred of them. -/
theorem average_bounds {drawn : List Draw} (full : drawn.length = nbrUpdates) :
    -80 ≤ (drawn.map Draw.degrees).sum.tdiv nbrUpdates ∧
      (drawn.map Draw.degrees).sum.tdiv nbrUpdates ≤ 135 := by
  have bounds : -80 * (drawn.length : Int) ≤ (drawn.map Draw.degrees).sum ∧
      (drawn.map Draw.degrees).sum ≤ 135 * (drawn.length : Int) := by
    clear full
    induction drawn with
    | nil => simp
    | cons draw drawn ih =>
        have drawn_bounds := draw.degrees_bounds
        rw [List.map_cons, List.sum_cons, List.length_cons]
        push_cast
        omega
  rw [full] at bounds
  obtain ⟨low, high⟩ := bounds
  have lower := Int.tdiv_le_tdiv (by decide : (0 : Int) < nbrUpdates) low
  have upper := Int.tdiv_le_tdiv (by decide : (0 : Int) < nbrUpdates) high
  exact ⟨lower, upper⟩

/-- Draws whose zip code is in range are updates. -/
theorem exists_updates {drawn : List Draw} (below : ∀ draw ∈ drawn, RoundsBelow draw.zipcode) :
    ∃ updates : List Update, updates.map Update.published = drawn.map Draw.published ∧
      updates.map Update.zipcode = drawn.map (fun draw => randof 100000 draw.zipcode) ∧
      updates.map Update.temperature = drawn.map Draw.degrees := by
  induction drawn with
  | nil => exact ⟨[], rfl, rfl, rfl⟩
  | cons draw drawn ih =>
      obtain ⟨updates, published, zipcode, temperature⟩ :=
        ih fun other hmem => below other (List.mem_cons_of_mem draw hmem)
      let update := Update.drawn (below draw List.mem_cons_self) draw.temperature draw.relhumidity
      refine ⟨update :: updates, ?_, ?_, ?_⟩
      · rw [List.map_cons, published]
        rfl
      · rw [List.map_cons, zipcode]
        rfl
      · rw [List.map_cons, temperature]
        rfl

/-- What is printed of a zip code that was rounded up starts with 10000. -/
theorem filter_of_not_below {filter : List UInt8} (five : filter.length = 5) {draw : Draw}
    (above : ¬ RoundsBelow draw.zipcode) (passes : filter <+: draw.published) :
    filter = decimal 10000 := by
  have printed := passes.trans (List.takeWhile_prefix _)
  have six : printPadded 5 (randof 100000 draw.zipcode) = decimal 10000 ++ [48] := by
    rw [randof_of_not_roundsBelow (by decide) above]
    decide
  rw [serverText, six, List.append_assoc] at printed
  have ten : (decimal 10000).length = 5 := by decide
  rw [List.prefix_iff_eq_take.mp printed, five, ← ten, List.take_left]

/-- A client with a filter of five digits wants the draws of its zip code, if the filter is
not 10000 or no draw of a zip code is rounded up. -/
theorem Clients.wanted_eq {clients : Clients Client} {c : Client} {drawn : List Draw}
    (five : (clients.filter c).length = 5)
    (digits : ∀ byte ∈ clients.filter c, isDigit byte = true)
    (below : clients.filter c = decimal 10000 → ∀ draw ∈ drawn, RoundsBelow draw.zipcode) :
    clients.wanted c drawn = drawnFor (clients.filter c) drawn := by
  apply List.filter_congr
  intro draw hmem
  have passes : clients.wants c () [draw.published] = true ↔
      clients.filter c <+: draw.published := List.isPrefixOf_iff_prefix
  rw [Bool.eq_iff_iff, passes, decide_eq_true_eq]
  by_cases inside : RoundsBelow draw.zipcode
  · exact (Update.drawn inside draw.temperature draw.relhumidity).filter_iff five digits
  · constructor
    · intro h
      exact absurd (below (filter_of_not_below five inside h) draw hmem) inside
    · intro h
      have small := digitsValue_lt digits
      rw [← h, randof_of_not_roundsBelow (by decide) inside, five] at small
      exact absurd small (by decide)

/-- The average that a client prints is one of a hundred temperatures that the server has
drawn for its zip code, in the order of the draws; when it has missed nothing, they are the
first hundred. It lies in the range of the temperatures. This holds for any clients with
filters of five digits, whatever they miss; a client with the filter 10000 is right if no
draw of a zip code was rounded up. -/
theorem averages_what_is_drawn [DecidableEq Client] {clients : Clients Client}
    {es : List (SystemEvent Client)} {os : List (SystemOutput Client)} {s : SystemState Client}
    (run : (system clients).Run es os s) {c : Client} (five : (clients.filter c).length = 5)
    (digits : ∀ byte ∈ clients.filter c, isDigit byte = true)
    (below : clients.filter c = decimal 10000 → ∀ draw ∈ draws es, RoundsBelow draw.zipcode) :
    ∃ averaged : List Draw, averaged.Sublist (drawnFor (clients.filter c) (draws es)) ∧
      averaged.length ≤ nbrUpdates ∧
      ((∀ msg misses, .published () msg misses ∈ onSockets os → misses c = false) →
        averaged <+: drawnFor (clients.filter c) (draws es)) ∧
      (lines os c = if averaged.length < nbrUpdates then []
        else [.printed ((averaged.map Draw.degrees).sum.tdiv nbrUpdates)]) ∧
      ∀ average, .printed average ∈ lines os c → -80 ≤ average ∧ average ≤ 135 := by
  obtain ⟨es', sockets⟩ := sockets_run run
  have follows := follows_of_run run
  obtain ⟨got, hreads, hsub, hfirst⟩ :=
    follows.exists_read (Pubsub.carried_of_run sockets) c
  rw [Clients.wanted_eq five digits below] at hsub hfirst
  have zipcode_of_mem : ∀ draw ∈ got, randof 100000 draw.zipcode = digitsValue (clients.filter c) :=
    fun draw hmem => of_decide_eq_true (List.mem_filter.mp (hsub.subset hmem)).2
  have inside : ∀ draw ∈ got, RoundsBelow draw.zipcode := by
    intro draw hmem
    have small := digitsValue_lt digits
    rw [← zipcode_of_mem draw hmem, five] at small
    exact (randof_lt_iff (by decide) (by decide) _).mp small
  obtain ⟨updates, published, zipcode, temperature⟩ := exists_updates inside
  have clientRun := follows.client c
  have counted := follows.counted c
  rw [hreads, ← published] at clientRun counted
  have averages := averages_of_run five digits clientRun
  have asked : ∀ update ∈ updates, update.zipcode = digitsValue (clients.filter c) := by
    intro update hmem
    have hzip := zipcode ▸ List.mem_map_of_mem (f := Update.zipcode) hmem
    obtain ⟨draw, hdraw, heq⟩ := List.mem_map.mp hzip
    exact heq ▸ zipcode_of_mem draw hdraw
  have all : matching (clients.filter c) updates = updates :=
    List.filter_eq_self.mpr fun update hmem => decide_eq_true (asked update hmem)
  have length : updates.length = got.length := by
    have h := congrArg List.length published
    rwa [List.length_map, List.length_map] at h
  have few : got.length ≤ nbrUpdates := by
    rw [List.length_map, length] at counted
    obtain ⟨hlength, room⟩ := counted fun frame hmem => by
      obtain ⟨update, hupdate, rfl⟩ := List.mem_map.mp hmem
      exact (update.filter_iff five digits).mpr (asked update hupdate)
    exact hlength ▸ room
  have printed : lines os c = if got.length < nbrUpdates then []
      else [.printed ((got.map Draw.degrees).sum.tdiv nbrUpdates)] := by
    rw [averages.outputs, all, temperatures, all, length,
      List.take_of_length_le (length ▸ few), temperature]
  refine ⟨got, hsub, few, hfirst, printed, fun average hmem => ?_⟩
  rw [printed] at hmem
  split at hmem
  case isTrue => cases hmem
  case isFalse full =>
    cases List.mem_singleton.mp hmem
    exact average_bounds (by omega)

/-- Two clients, for zip code 0 and for zip code 50000. -/
def twoClients : Clients Bool where
  filter := fun c => if c then [48, 48, 48, 48, 48] else [53, 48, 48, 48, 48]
  string := fun _ => []
  zipcode := fun _ => 0
  temperature := fun _ => 0
  relhumidity := fun _ => 0

/-- A draw of zip code 50000 with a temperature of 27, or of zip code 0 with one of -80. -/
def twoDraws (c : Bool) : Draw :=
  if c then { zipcode := 0, temperature := 0, relhumidity := 0 }
  else { zipcode := 1073741824, temperature := 1073741824, relhumidity := 0 }

/-- Updates of either zip code, of which only those of the second are received. -/
def publishedRun : List (SystemEvent Bool) :=
  (List.replicate 100 [.publish (twoDraws true) fun _ => false,
    .publish (twoDraws false) fun _ => true, .publish (twoDraws false) fun _ => false,
    .recv false]).flatten

theorem averages_what_is_drawn_two : ∃ os s, (system twoClients).Run publishedRun os s ∧
    lines os false = [.printed 27] ∧ lines os true = [] ∧
    ∃ averaged : List Draw, averaged.Sublist (drawnFor (twoClients.filter false)
      (draws publishedRun)) ∧ averaged.length = nbrUpdates := by
  have hexec : ((system twoClients).exec (system twoClients).init publishedRun).map
      (fun r => (lines r.2 false, lines r.2 true)) = some ([.printed 27], []) := by decide +kernel
  obtain ⟨os, s, run, hsee⟩ := Machine.run_of_map_exec hexec
  obtain ⟨printed, nothing⟩ := Prod.mk.inj hsee
  have digits : (twoClients.filter false).all isDigit = true := by decide
  have other : twoClients.filter false ≠ decimal 10000 := by decide
  obtain ⟨averaged, hsub, few, -, hlines, -⟩ :=
    averages_what_is_drawn run (by decide) (List.all_eq_true.mp digits) fun h => absurd h other
  have full : ¬ averaged.length < nbrUpdates := by
    intro h
    rw [hlines, if_pos h] at printed
    cases printed
  exact ⟨os, s, run, printed, nothing, averaged, hsub, by omega⟩

end ZmqTest.Weather
