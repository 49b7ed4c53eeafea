/-
# Messages with a key

The publisher of `envelope` sends three messages in each pass of its loop, frame by
frame: a key, an address and a text. A subscriber subscribes to a key and receives three
frames in each pass of its own. It is told neither where a message ends nor what it has
missed; that the three frames belong together, in this order, follows from every message
having three frames and being delivered as a whole.
-/

import ZmqTest.Base
import ZmqTest.Lib.Pubsub

namespace ZmqTest.Envelope

open Pubsub (onSockets lines)

/-- `"address1"`, `"address2"` or `"address3"`. -/
def address (digit : UInt8) : Frame := [97, 100, 100, 114, 101, 115, 115, digit]

/-- `"msg1"`, `"msg2"` or `"msg3"`. -/
def content (digit : UInt8) : Frame := [109, 115, 103, digit]

/-- The subscription to `FILETER_KEY`: a message matches when its first frame starts with
the key. -/
def subscribed (msg : Zmsg) : Bool := [66].isPrefixOf (msg.headD [])

/-- A pass of the loop of the publisher: the frame of each call, and whether it is one of
`s_sendmore`. -/
def calls : List (Frame × Bool) :=
  [([65], true), (address 49, true), (content 49, false),
    ([66], true), (address 50, true), (content 50, false),
    ([66], true), (address 51, true), (content 51, false)]

/-- Which buffer the subscriber receives into next. -/
inductive SubscriberPc
  | key
  | address
  | content
  deriving DecidableEq

structure SubscriberState where
  pc : SubscriberPc
  key : List UInt8
  address : List UInt8
  content : List UInt8
  deriving DecidableEq

/-- What the subscriber prints: three C strings. -/
structure Line where
  key : List UInt8
  address : List UInt8
  content : List UInt8
  deriving DecidableEq

/-- The subscriber receives a frame, and prints a line after the third. -/
def SubscriberState.recv (s : SubscriberState) (frame : Frame) :
    SubscriberState × Option Line :=
  match s.pc with
  | .key => ({ s with pc := .address, key := sRecv s.key 256 (some frame) }, none)
  | .address => ({ s with pc := .content, address := sRecv s.address 256 (some frame) }, none)
  | .content =>
      let content := sRecv s.content 256 (some frame)
      ({ s with pc := .key, content := content },
        some { key := cstr s.key, address := cstr s.address, content := cstr content })

/-- The strings of a line, in the order in which they were received. -/
def Line.frames (line : Line) : List (List UInt8) := [line.key, line.address, line.content]

/-- The strings the subscriber has received since it last printed. -/
def SubscriberState.held (s : SubscriberState) : List (List UInt8) :=
  match s.pc with
  | .key => []
  | .address => [cstr s.key]
  | .content => [cstr s.key, cstr s.address]

/-- The subscriber prints what it receives. -/
def reader : Pubsub.Reader SubscriberState Line Frame where
  recv := SubscriberState.recv
  held := SubscriberState.held
  frames := Line.frames
  text := received 256
  spec := by
    intro s frame
    cases pc : s.pc <;> simp [SubscriberState.recv, pc, SubscriberState.held, Line.frames]

variable {Subscriber : Type}

structure SystemState (Subscriber : Type) where
  /-- The next call of the publisher. -/
  call : Nat
  subscriber : Subscriber → SubscriberState
  sockets : Pubsub.State Unit Subscriber Frame

inductive SystemEvent (Subscriber : Type)
  | /-- The next call of the publisher; some subscribers miss the message it ends. -/
    send (misses : Subscriber → Bool)
  | recv (subscriber : Subscriber)

/-- What the sockets do, and the lines that are printed. -/
abbrev SystemOutput (Subscriber : Type) := Pubsub.Entry Unit Subscriber Frame Line

/-- Every subscriber is connected to the publisher and has subscribed to the key. -/
def wants (_ : Subscriber) (_ : Unit) (msg : Zmsg) : Bool := subscribed msg

/-- One step of one of the programs. -/
def systemStep [DecidableEq Subscriber] (s : SystemState Subscriber) :
    SystemEvent Subscriber → Option (SystemState Subscriber × List (SystemOutput Subscriber))
  | .send misses =>
      match calls[s.call]? with
      | none => none
      | some (frame, more) =>
          (Pubsub.step wants s.sockets
            (if more then .sendMore () frame else .send () frame misses)).map fun r =>
              ({ s with call := (s.call + 1) % calls.length, sockets := r.1 },
                r.2.map .socket)
  | .recv sub =>
      (Pubsub.recv s.sockets sub ()).map fun (frame, sockets, out) =>
        let next := reader.taken s.subscriber sub frame out
        ({ s with subscriber := next.1, sockets := sockets }, next.2)

/-- Nothing has been sent or received. -/
def systemInit : SystemState Subscriber where
  call := 0
  subscriber := fun _ => { pc := .key, key := [], address := [], content := [] }
  sockets := Pubsub.init

/-- The publisher of `envelope` with any number of subscribers. -/
def system (Subscriber : Type) [DecidableEq Subscriber] :
    Machine (SystemState Subscriber) (SystemEvent Subscriber) (SystemOutput Subscriber) where
  init := systemInit
  step := systemStep

/-- The messages of a pass. -/
def messages : List Zmsg :=
  [[[65], address 49, content 49], [[66], address 50, content 50], [[66], address 51, content 51]]

/-- The frames of the message that is begun before a call. -/
def begunAt (call : Nat) : List Frame :=
  ((calls.map Prod.fst).drop (call / 3 * 3)).take (call % 3)

/-- A call of `s_sendmore` adds a frame to the message. -/
theorem begunAt_more : ∀ call : Fin calls.length, (calls.get call).2 = true →
    begunAt (call + 1) = begunAt call ++ [(calls.get call).1] ∧
      (call.val + 1) / 3 = call / 3 ∧ (call.val + 1) % calls.length = call + 1 := by decide

/-- A call of `s_send` ends it, and it is the next message of the pass. -/
theorem begunAt_last : ∀ call : Fin calls.length, (calls.get call).2 = false →
    begunAt ((call + 1) % calls.length) = [] ∧
      (messages.take (call / 3) ++ [begunAt call ++ [(calls.get call).1]] = messages ∧
          (call.val + 1) % calls.length = 0 ∨
        messages.take (call / 3) ++ [begunAt call ++ [(calls.get call).1]] =
          messages.take ((call + 1) % calls.length / 3)) := by decide

/-- Between two calls: the frames of the message that is begun, and the messages of the
passes that are over and of this one. -/
structure Publishes (os : List (Pubsub.Output Unit Subscriber Frame)) (call : Nat)
    (begun : List Frame) : Prop where
  inside : call < calls.length
  part : begun = begunAt call
  published : ∃ passes, Pubsub.publishedBy os () =
    (List.replicate passes messages).flatten ++ messages.take (call / 3)

variable {os : List (Pubsub.Output Unit Subscriber Frame)} {call : Nat} {begun : List Frame}
  {frame : Frame}

theorem Publishes.more (h : Publishes os call begun) (next : calls[call]? = some (frame, true)) :
    Publishes os ((call + 1) % calls.length) (begun ++ [frame]) := by
  obtain ⟨hlt, hget⟩ := List.getElem?_eq_some_iff.mp next
  have hcall : calls.get ⟨call, hlt⟩ = (frame, true) := hget
  obtain ⟨hbegun, hmessage, hnext⟩ := begunAt_more ⟨call, hlt⟩ (by rw [hcall])
  obtain ⟨passes, published⟩ := h.published
  rw [hcall] at hbegun
  refine ⟨Nat.mod_lt _ (by decide), ?_, passes, ?_⟩
  · rw [hnext, h.part, hbegun]
  · rw [hnext, hmessage, published]

/-- Nothing is published. -/
theorem Publishes.keep {out : List (Pubsub.Output Unit Subscriber Frame)}
    (h : Publishes os call begun) (silent : Pubsub.publishedBy out () = []) :
    Publishes (os ++ out) call begun := by
  refine ⟨h.inside, h.part, ?_⟩
  rw [Pubsub.publishedBy_append, silent, List.append_nil]
  exact h.published

theorem Publishes.last (h : Publishes os call begun) (next : calls[call]? = some (frame, false))
    (misses : Subscriber → Bool) :
    Publishes (os ++ [.published () (begun ++ [frame]) misses]) ((call + 1) % calls.length) [] := by
  obtain ⟨hlt, hget⟩ := List.getElem?_eq_some_iff.mp next
  have hcall : calls.get ⟨call, hlt⟩ = (frame, false) := hget
  obtain ⟨hbegun, hmessage⟩ := begunAt_last ⟨call, hlt⟩ (by rw [hcall])
  obtain ⟨passes, published⟩ := h.published
  rw [hcall] at hmessage
  refine ⟨Nat.mod_lt _ (by decide), hbegun.symm, ?_⟩
  rw [Pubsub.publishedBy_append, Pubsub.publishedBy_published_cons, if_pos rfl,
    Pubsub.publishedBy_nil, published, h.part, List.append_assoc]
  rcases hmessage with ⟨ended, hnext⟩ | going
  · refine ⟨passes + 1, ?_⟩
    rw [ended, hnext, List.replicate_succ', List.flatten_append]
    simp
  · exact ⟨passes, by rw [going]⟩

variable [DecidableEq Subscriber] {es : List (SystemEvent Subscriber)}
  {outs out : List (SystemOutput Subscriber)}
  {s t : SystemState Subscriber} {e : SystemEvent Subscriber}

/-- The steps of the system. -/
inductive SystemMoves (s : SystemState Subscriber) :
    SystemEvent Subscriber → SystemState Subscriber → List (SystemOutput Subscriber) → Prop
  | sendMore (misses : Subscriber → Bool) (frame : Frame)
      (next : calls[s.call]? = some (frame, true)) :
      SystemMoves s (.send misses)
        { s with
          call := (s.call + 1) % calls.length
          sockets :=
            { s.sockets with
              begun := Function.update s.sockets.begun () (s.sockets.begun () ++ [frame]) } } []
  | send (misses : Subscriber → Bool) (frame : Frame) (sockets : Pubsub.State Unit Subscriber Frame)
      (next : calls[s.call]? = some (frame, false))
      (sent : Pubsub.step wants s.sockets (.send () frame misses) =
        some (sockets, [.published () (s.sockets.begun () ++ [frame]) misses]))
      (none : sockets.begun () = []) :
      SystemMoves s (.send misses)
        { s with call := (s.call + 1) % calls.length, sockets := sockets }
        [.socket (.published () (s.sockets.begun () ++ [frame]) misses)]
  | recv (sub : Subscriber) (frame : Frame) (sockets : Pubsub.State Unit Subscriber Frame)
      (out : List (Pubsub.Output Unit Subscriber Frame))
      (read : Pubsub.recv s.sockets sub () = some (frame, sockets, out)) :
      SystemMoves s (.recv sub)
        { s with
          subscriber := (reader.taken s.subscriber sub frame out).1
          sockets := sockets }
        (reader.taken s.subscriber sub frame out).2

/-- Every step of the system is one of the listed ones. -/
theorem systemMoves_of_step (taken : (system Subscriber).step s e = some (t, out)) :
    SystemMoves s e t out := by
  cases e with
  | send misses =>
      simp only [system, systemStep] at taken
      split at taken
      case h_1 => cases taken
      case h_2 frame more next =>
        cases more with
        | true =>
            cases taken
            exact .sendMore misses frame next
        | false =>
            cases taken
            exact .send misses frame _ next rfl (Function.update_self () [] s.sockets.begun)
  | recv sub =>
      simp only [system, systemStep, Option.map_eq_some_iff, Prod.mk.injEq] at taken
      obtain ⟨⟨frame, sockets, out⟩, hrecv, rfl, rfl⟩ := taken
      exact .recv sub frame sockets out hrecv

/-- What the sockets of the system do is a run of sockets. -/
theorem sockets_run (run : (system Subscriber).Run es outs s) :
    ∃ es', (Pubsub.sockets wants).Run es' (onSockets outs) s.sockets := by
  apply run.component SystemState.sockets Pubsub.Entry.socket? rfl
  intro s e t out taken
  right
  cases systemMoves_of_step taken with
  | sendMore misses frame next => exact ⟨.sendMore () frame, rfl⟩
  | send misses frame sockets next sent none => exact ⟨.send () frame misses, sent⟩
  | recv sub frame sockets out read =>
      refine ⟨.recv sub (), ?_⟩
      rw [← Pubsub.onSockets, Pubsub.Reader.onSockets_taken]
      exact Option.map_eq_some_iff.mpr ⟨_, read, rfl⟩

/-- What the publisher has sent and what the subscribers have printed. -/
structure Follows (outs : List (SystemOutput Subscriber)) (s : SystemState Subscriber) :
    Prop where
  publishes : Publishes (onSockets outs) s.call (s.sockets.begun ())
  prints : ∀ sub, reader.Prints outs sub (s.subscriber sub)

theorem Follows.step (h : Follows outs s)
    (taken : (system Subscriber).step s e = some (t, out)) : Follows (outs ++ out) t := by
  cases systemMoves_of_step taken with
  | sendMore misses frame next =>
      rw [List.append_nil]
      refine ⟨?_, h.prints⟩
      simpa using h.publishes.more next
  | send misses frame sockets next sent none =>
      refine ⟨?_, fun sub => (h.prints sub).keep rfl rfl rfl⟩
      rw [Pubsub.onSockets_append, none]
      exact h.publishes.last next misses
  | recv sub frame sockets out read =>
      obtain ⟨-, hbegun, hpublished⟩ := Pubsub.recv_spec read
      refine ⟨?_, Pubsub.Reader.Prints.recv h.prints read⟩
      rw [Pubsub.onSockets_append, Pubsub.Reader.onSockets_taken, hbegun]
      exact h.publishes.keep (hpublished ())

theorem follows_of_run (run : (system Subscriber).Run es outs s) : Follows outs s := by
  apply run.output_invariant _ fun _ _ _ _ _ h taken => h.step taken
  have start : 0 < calls.length := by decide
  exact ⟨⟨start, rfl, 0, by simp [system, systemInit]⟩, fun _ => rfl⟩

/-! ## What the lines say -/

/-- The lines of the messages with the key. -/
def subscribedLines : List Line :=
  [{ key := [66], address := address 50, content := content 50 },
    { key := [66], address := address 51, content := content 51 }]

omit [DecidableEq Subscriber] in
theorem filter_messages (sub : Subscriber) :
    messages.filter (wants sub ()) = subscribedLines.map Line.frames := by
  change messages.filter subscribed = _
  decide

/-- What the subscriber wants of what is published is the lines of some passes, and of a
part of one. -/
theorem Follows.wanted (h : Follows outs s) (sub : Subscriber) :
    ∃ passes, (Pubsub.publishedBy (onSockets outs) ()).filter (wants sub ()) <+:
      ((List.replicate passes subscribedLines).flatten.map Line.frames) := by
  obtain ⟨passes, published⟩ := h.publishes.published
  refine ⟨passes + 1, ?_⟩
  have whole : (Pubsub.publishedBy (onSockets outs) ()) <+:
      (List.replicate (passes + 1) messages).flatten := by
    rw [published, List.replicate_succ', List.flatten_append]
    apply (List.prefix_append_right_inj _).mpr
    simpa using List.take_prefix _ messages
  have wanted := whole.filter (wants sub ())
  rw [List.filter_flatten, List.map_replicate, filter_messages] at wanted
  simpa [List.map_flatten] using wanted

theorem Line.frames_injective : Function.Injective Line.frames := by
  intro line other h
  cases line
  cases other
  simpa [Line.frames] using h

/-- What is read of the messages is received as it is. -/
theorem received_of_subscribed {line : Line} (known : line ∈ subscribedLines) :
    line.frames.map (received 256) = line.frames := by
  revert line
  decide

theorem eq_of_map_frames {first second : List Line}
    (h : first.map Line.frames = second.map Line.frames) : first = second :=
  List.map_injective_iff.mpr Line.frames_injective h

/-- A message that reaches a subscriber is the frames of one of the lines. -/
theorem Follows.line_of_reaching (h : Follows outs s) {sub : Subscriber} {msg : Zmsg}
    (hmem : msg ∈ Pubsub.reaching wants (onSockets outs) () sub) :
    ∃ line ∈ subscribedLines, line.frames = msg := by
  obtain ⟨passes, wanted⟩ := h.wanted sub
  have hline := wanted.subset ((Pubsub.reaching_sublist () sub).subset hmem)
  obtain ⟨line, hflatten, hframes⟩ := List.mem_map.mp hline
  obtain ⟨pass, hpass, hmem⟩ := List.mem_flatten.mp hflatten
  exact ⟨line, (List.mem_replicate.mp hpass).2 ▸ hmem, hframes⟩

/-- The lines of a subscriber are the first messages that have reached it. -/
theorem Follows.lines_prefix (h : Follows outs s)
    (carried : Pubsub.Carried wants (onSockets outs) s.sockets) (sub : Subscriber) :
    (lines outs sub).map Line.frames <+:
      Pubsub.reaching wants (onSockets outs) () sub := by
  have each : ∀ pub, ∀ msg ∈ Pubsub.reaching wants (onSockets outs) pub sub,
      msg.length = 3 ∧ ∀ frame ∈ msg, received 256 frame = frame := by
    intro pub msg hmem
    obtain ⟨line, known, rfl⟩ := h.line_of_reaching hmem
    have same := (received_of_subscribed known).trans (List.map_id _).symm
    exact ⟨rfl, List.map_inj_left.mp same⟩
  have prints := h.prints sub
  have rounds := prints.lines_prefix carried (by decide) (fun _ => rfl) each
  have all := carried.rounds_from rounds () (fun _ => true) (by simp)
  rwa [List.filter_true] at all

/-- Every line that a subscriber prints is a whole message with the key, `address2` with
`msg2` or `address3` with `msg3`; its lines are what has reached it, from the first on and
in order, and when it misses nothing, the two alternate. This holds for any number of
subscribers and whatever they miss. -/
theorem prints_whole_messages (run : (system Subscriber).Run es outs s) (sub : Subscriber) :
    (∀ line ∈ lines outs sub, line ∈ subscribedLines) ∧
      (lines outs sub).map Line.frames <+:
        Pubsub.reaching wants (onSockets outs) () sub ∧
      ∃ passes, (lines outs sub).Sublist (List.replicate passes subscribedLines).flatten ∧
        ((∀ msg misses, .published () msg misses ∈ onSockets outs → misses sub = false) →
          lines outs sub <+: (List.replicate passes subscribedLines).flatten) := by
  obtain ⟨es', sockets⟩ := sockets_run run
  have follows := follows_of_run run
  have first := follows.lines_prefix (Pubsub.carried_of_run sockets) sub
  obtain ⟨passes, wanted⟩ := follows.wanted sub
  refine ⟨?_, first, passes, ?_, ?_⟩
  · intro line hmem
    obtain ⟨other, known, same⟩ :=
      follows.line_of_reaching (first.subset (List.mem_map_of_mem hmem))
    exact Line.frames_injective same ▸ known
  · have some_of := (first.sublist.trans (Pubsub.reaching_sublist () sub)).trans wanted.sublist
    obtain ⟨part, hpart, same⟩ := List.sublist_map_iff.mp some_of
    exact eq_of_map_frames same ▸ hpart
  · intro none
    rw [Pubsub.reaching_eq none] at first
    obtain ⟨part, hpart, same⟩ := List.prefix_map_iff.mp (first.trans wanted)
    exact eq_of_map_frames same ▸ hpart

/-- One pass of the publisher with two subscribers; one of them misses `msg2`. -/
def passRun : List (SystemEvent Bool) :=
  List.replicate 5 (.send fun _ => false) ++ [.send fun sub => !sub] ++
    List.replicate 3 (.send fun _ => false) ++ List.replicate 6 (.recv true) ++
      List.replicate 3 (.recv false)

theorem prints_whole_messages_pass : ∃ os s, (system Bool).Run passRun os s ∧
    lines os true = subscribedLines ∧ lines os false = subscribedLines.drop 1 ∧
      ∀ sub, ∀ line ∈ lines os sub, line ∈ subscribedLines := by
  have hexec : ((system Bool).exec (system Bool).init passRun).map
      (fun r => (lines r.2 true, lines r.2 false)) =
        some (subscribedLines, subscribedLines.drop 1) := by decide +kernel
  obtain ⟨os, s, run, hsee⟩ := Machine.run_of_map_exec hexec
  obtain ⟨all, rest⟩ := Prod.mk.inj hsee
  exact ⟨os, s, run, all, rest, fun sub => (prints_whole_messages run sub).1⟩

end ZmqTest.Envelope
