/-
# Brokers that report their state

A broker of `stateflow.c` publishes how many workers it has free, after a second in which
nothing has arrived, and logs the reports of the brokers on its command line. A report is
two frames, the name of the broker and a number as text, which is a random draw here. The
frames are received by two calls; that a number is logged with the name of the broker that
sent it follows from a report being delivered as a whole.
-/

import ZmqTest.Lib.Decimal
import ZmqTest.Lib.Pubsub
import ZmqTest.Randof

namespace ZmqTest.Stateflow

open Pubsub (onSockets lines)

/-- The name of a broker. It is an argument of the program, and it is sent as a format. -/
structure Name where
  text : List UInt8
  noNul : 0 ∉ text
  noFormat : 37 ∉ text
  deriving DecidableEq

/-- The command lines: whom each broker connects to, nobody twice. -/
structure CommandLines where
  peers : Name → List Name
  once : ∀ self, (peers self).Nodup

/-- What `zstr_recv` returns, read as a C string. -/
def zstrRecv (frame : Frame) : List UInt8 := cstr frame

/-- `"%d"` of `randof(10)`. -/
def available (draw : Random) : List UInt8 := decimal (randof 10 draw)

inductive BrokerPc
  | poll
  | recv
  | sendName
  | sendAvailable
  | stopped
  deriving DecidableEq

/-- Where a broker is, and the name it has received when a number is still to come. -/
structure BrokerState where
  pc : BrokerPc
  peerName : Option (List UInt8)
  deriving DecidableEq

/-- What a broker logs: two C strings. -/
structure Report where
  peerName : List UInt8
  available : List UInt8
  deriving DecidableEq

def Report.frames (report : Report) : List (List UInt8) := [report.peerName, report.available]

/-- The report that a broker sends. -/
def reportOf (self : Name) (draw : Random) : Report :=
  { peerName := self.text, available := available draw }

/-- A broker receives a name, and then a number. -/
def BrokerState.recv (s : BrokerState) (frame : Frame) : BrokerState × Option Report :=
  match s.peerName with
  | none => ({ s with peerName := some (zstrRecv frame) }, none)
  | some peerName =>
      ({ pc := .poll, peerName := none },
        some { peerName := peerName, available := zstrRecv frame })

/-- A broker logs what it receives. -/
def reader : Pubsub.Reader BrokerState Report Frame where
  recv := BrokerState.recv
  held := fun s => s.peerName.toList
  frames := Report.frames
  text := zstrRecv
  spec := by
    intro s frame
    cases name : s.peerName <;> simp [BrokerState.recv, name, Report.frames]

structure SystemState where
  broker : Name → BrokerState
  sockets : Pubsub.State Name Name Frame

inductive SystemEvent
  | /-- The poll of a broker ends: with an error, or with what `statefe` is ready for. -/
    poll (self : Name) (rc : Option Bool)
  | /-- A frame is received; a report that it begins is one of `peer`. -/
    recv (self peer : Name)
  | sendName (self : Name)
  | sendAvailable (self : Name) (draw : Random) (misses : Name → Bool)

/-- What the sockets do, and the reports that are logged. -/
abbrev SystemOutput := Pubsub.Entry Name Name Frame Report

/-- A broker is connected to its peers and has subscribed to everything. -/
def CommandLines.wants (cloud : CommandLines) (self peer : Name) (_ : Zmsg) : Bool :=
  decide (peer ∈ cloud.peers self)

/-- Something is there for `statefe`. -/
def SystemState.readable (s : SystemState) (cloud : CommandLines) (self : Name) : Bool :=
  !(s.sockets.unread self).isEmpty ||
    (cloud.peers self).any fun peer => !(s.sockets.pipe peer self).isEmpty

/-- One broker goes on to another place. -/
def SystemState.goto (s : SystemState) (self : Name) (pc : BrokerPc) : SystemState :=
  { s with broker := Function.update s.broker self { s.broker self with pc := pc } }

/-- A broker sends a frame and goes on. -/
def SystemState.send (s : SystemState) (cloud : CommandLines) (self : Name) (pc : BrokerPc)
    (event : Pubsub.Event Name Name Frame) : Option (SystemState × List SystemOutput) :=
  (Pubsub.step cloud.wants s.sockets event).map fun r =>
    ({ s.goto self pc with sockets := r.1 }, r.2.map .socket)

/-- One step of one of the brokers. A poll reports what is there, or times out. -/
def systemStep (cloud : CommandLines) (s : SystemState) :
    SystemEvent → Option (SystemState × List SystemOutput)
  | .poll self rc =>
      match (s.broker self).pc, rc with
      | .poll, none => some (s.goto self .stopped, [])
      | .poll, some false => some (s.goto self .sendName, [])
      | .poll, some true =>
          if s.readable cloud self then some (s.goto self .recv, []) else none
      | _, _ => none
  | .recv self peer =>
      match (s.broker self).pc with
      | .recv =>
          (Pubsub.recv s.sockets self peer).map fun (frame, sockets, out) =>
            let next := reader.taken s.broker self frame out
            ({ s with broker := next.1, sockets := sockets }, next.2)
      | _ => none
  | .sendName self =>
      match (s.broker self).pc with
      | .sendName => s.send cloud self .sendAvailable (.sendMore self self.text)
      | _ => none
  | .sendAvailable self draw misses =>
      match (s.broker self).pc with
      | .sendAvailable => s.send cloud self .poll (.send self (available draw) misses)
      | _ => none

def systemInit : SystemState where
  broker := fun _ => { pc := .poll, peerName := none }
  sockets := Pubsub.init

/-- Any brokers of `stateflow.c`, each with its command line. -/
def system (cloud : CommandLines) : Machine SystemState SystemEvent SystemOutput where
  init := systemInit
  step := systemStep cloud

variable {cloud : CommandLines} {es : List SystemEvent} {os out : List SystemOutput}
  {s t : SystemState} {e : SystemEvent}

@[simp]
theorem goto_sockets (s : SystemState) (self : Name) (pc : BrokerPc) :
    (s.goto self pc).sockets = s.sockets := rfl

@[simp]
theorem goto_pc (s : SystemState) (self other : Name) (pc : BrokerPc) :
    ((s.goto self pc).broker other).pc = if other = self then pc else (s.broker other).pc := by
  by_cases heq : other = self
  · subst heq
    simp [SystemState.goto]
  · simp [SystemState.goto, heq]

@[simp]
theorem goto_peerName (s : SystemState) (self other : Name) (pc : BrokerPc) :
    ((s.goto self pc).broker other).peerName = (s.broker other).peerName := by
  by_cases heq : other = self
  · subst heq
    simp [SystemState.goto]
  · simp [SystemState.goto, heq]

/-- The steps of the system. -/
inductive SystemMoves (cloud : CommandLines) (s : SystemState) :
    SystemEvent → SystemState → List SystemOutput → Prop
  | poll (self : Name) (rc : Option Bool) (pc : BrokerPc) (here : (s.broker self).pc = .poll)
      (away : pc ≠ .sendAvailable) (ready : pc = .recv → s.readable cloud self = true) :
      SystemMoves cloud s (.poll self rc) (s.goto self pc) []
  | recv (self peer : Name) (frame : Frame) (sockets : Pubsub.State Name Name Frame)
      (out : List (Pubsub.Output Name Name Frame)) (here : (s.broker self).pc = .recv)
      (read : Pubsub.recv s.sockets self peer = some (frame, sockets, out)) :
      SystemMoves cloud s (.recv self peer)
        { s with broker := (reader.taken s.broker self frame out).1, sockets := sockets }
        (reader.taken s.broker self frame out).2
  | sendName (self : Name) (here : (s.broker self).pc = .sendName) :
      SystemMoves cloud s (.sendName self)
        { s.goto self .sendAvailable with
          sockets :=
            { s.sockets with
              begun := Function.update s.sockets.begun self
                (s.sockets.begun self ++ [self.text]) } } []
  | sendAvailable (self : Name) (draw : Random) (misses : Name → Bool)
      (here : (s.broker self).pc = .sendAvailable) :
      SystemMoves cloud s (.sendAvailable self draw misses)
        { s.goto self .poll with
          sockets :=
            { s.sockets with
              begun := Function.update s.sockets.begun self []
              pipe := Function.update s.sockets.pipe self
                (Pubsub.deliver cloud.wants s.sockets self
                  (s.sockets.begun self ++ [available draw]) misses) } }
        [.socket (.published self (s.sockets.begun self ++ [available draw]) misses)]

/-- Every step of the system is one of the listed ones. -/
theorem systemMoves_of_step (taken : (system cloud).step s e = some (t, out)) :
    SystemMoves cloud s e t out := by
  cases e with
  | poll self rc =>
      simp only [system, systemStep] at taken
      split at taken
      case h_1 here =>
        cases taken
        exact .poll self none .stopped here (by decide) (by simp)
      case h_2 here =>
        cases taken
        exact .poll self _ .sendName here (by decide) (by simp)
      case h_3 here =>
        split at taken
        case isTrue ready =>
          cases taken
          exact .poll self _ .recv here (by decide) fun _ => ready
        case isFalse => cases taken
      case h_4 => cases taken
  | recv self peer =>
      simp only [system, systemStep] at taken
      split at taken
      case h_1 here =>
        simp only [Option.map_eq_some_iff, Prod.mk.injEq] at taken
        obtain ⟨⟨frame, sockets, out⟩, hrecv, rfl, rfl⟩ := taken
        exact .recv self peer frame sockets out here hrecv
      case h_2 => cases taken
  | sendName self =>
      simp only [system, systemStep] at taken
      split at taken
      case h_1 here =>
        cases taken
        exact .sendName self here
      case h_2 => cases taken
  | sendAvailable self draw misses =>
      simp only [system, systemStep] at taken
      split at taken
      case h_1 here =>
        cases taken
        exact .sendAvailable self draw misses here
      case h_2 => cases taken

/-- What the sockets of the system do is a run of sockets. -/
theorem sockets_run (run : (system cloud).Run es os s) :
    ∃ es', (Pubsub.sockets cloud.wants).Run es' (onSockets os) s.sockets := by
  apply run.component SystemState.sockets Pubsub.Entry.socket? rfl
  intro s e t out taken
  cases systemMoves_of_step taken with
  | poll self rc pc here away ready => exact Or.inl ⟨rfl, rfl⟩
  | recv self peer frame sockets out here read =>
      refine Or.inr ⟨.recv self peer, ?_⟩
      rw [← Pubsub.onSockets, Pubsub.Reader.onSockets_taken]
      exact Option.map_eq_some_iff.mpr ⟨_, read, rfl⟩
  | sendName self here => exact Or.inr ⟨.sendMore self self.text, rfl⟩
  | sendAvailable self draw misses here => exact Or.inr ⟨.send self (available draw) misses, rfl⟩

/-! ## What is sent and what is logged -/

/-- The draws of a broker in a run. -/
def draws (es : List SystemEvent) (self : Name) : List Random :=
  es.filterMap fun
    | .sendAvailable other draw _ => if other = self then some draw else none
    | _ => none

theorem draws_append (es fs : List SystemEvent) (self : Name) :
    draws (es ++ fs) self = draws es self ++ draws fs self :=
  List.filterMap_append

/-- A broker has published the reports of its draws, and may have begun one. -/
structure Follows (es : List SystemEvent) (os : List SystemOutput) (s : SystemState) : Prop where
  published : ∀ self, Pubsub.publishedBy (onSockets os) self =
    (draws es self).map fun draw => (reportOf self draw).frames
  begun : ∀ self, s.sockets.begun self =
    if (s.broker self).pc = .sendAvailable then [self.text] else []
  prints : ∀ self, reader.Prints os self (s.broker self)

/-- A broker that receives is not sending. -/
theorem pc_of_taken {self : Name} {frame : Frame} {outputs : List (Pubsub.Output Name Name Frame)}
    (here : (s.broker self).pc = .recv) (other : Name) :
    (((reader.taken s.broker self frame outputs).1 other).pc = .sendAvailable ↔
      (s.broker other).pc = .sendAvailable) := by
  by_cases heq : other = self
  · subst heq
    cases name : (s.broker other).peerName <;>
      simp [Pubsub.Reader.taken, reader, BrokerState.recv, name, here]
  · simp [Pubsub.Reader.taken, heq]

theorem prints_goto {other : Name} (h : reader.Prints os other (s.broker other)) (self : Name)
    (pc : BrokerPc) : reader.Prints os other ((s.goto self pc).broker other) := by
  unfold Pubsub.Reader.Prints at h ⊢
  simpa [reader] using h

theorem Follows.step (h : Follows es os s) (taken : (system cloud).step s e = some (t, out)) :
    Follows (es ++ [e]) (os ++ out) t := by
  cases systemMoves_of_step taken with
  | poll self rc pc here away ready =>
      rw [List.append_nil]
      refine ⟨?_, ?_, ?_⟩
      · intro other
        rw [draws_append, h.published]
        exact congrArg _ (List.append_nil _).symm
      · intro other
        rw [goto_sockets, h.begun, goto_pc]
        by_cases heq : other = self
        · subst heq
          simp [here, away]
        · rw [if_neg heq]
      · exact fun other => prints_goto (h.prints other) self _
  | recv self peer frame sockets out here read =>
      obtain ⟨-, hbegun, hpublished⟩ := Pubsub.recv_spec read
      refine ⟨?_, ?_, Pubsub.Reader.Prints.recv h.prints read⟩
      · intro other
        rw [Pubsub.onSockets_append, Pubsub.Reader.onSockets_taken, Pubsub.publishedBy_append,
          hpublished, List.append_nil, draws_append, h.published]
        exact congrArg _ (List.append_nil _).symm
      · intro other
        rw [hbegun, h.begun]
        simp only [pc_of_taken here other]
  | sendName self here =>
      rw [List.append_nil]
      refine ⟨?_, ?_, ?_⟩
      · intro other
        rw [draws_append, h.published]
        exact congrArg _ (List.append_nil _).symm
      · intro other
        by_cases heq : other = self
        · subst heq
          have none := h.begun other
          simp [here] at none
          simp [none]
        · have same := h.begun other
          simp [heq, same]
      · exact fun other => prints_goto (h.prints other) self _
  | sendAvailable self draw misses here =>
      have begun := h.begun self
      rw [here, if_pos rfl] at begun
      refine ⟨?_, ?_, ?_⟩
      · intro other
        rw [Pubsub.onSockets_append, Pubsub.publishedBy_append, draws_append, h.published,
          List.map_append]
        by_cases heq : self = other
        · subst heq
          simp [begun, draws, reportOf, Report.frames]
        · simp [draws, heq]
      · intro other
        by_cases heq : other = self
        · subst heq
          simp
        · have same := h.begun other
          simp [heq, same]
      · intro other
        exact (h.prints other).keep (by simp [reader]) rfl rfl

theorem follows_of_run (run : (system cloud).Run es os s) : Follows es os s := by
  induction run with
  | start => exact ⟨fun _ => rfl, fun _ => rfl, fun _ => rfl⟩
  | extend prior taken ih => exact ih.step taken

theorem zero_not_mem_available (draw : Random) : 0 ∉ available draw := by
  intro hmem
  exact absurd (isDigit_of_mem_decimal hmem) (by decide)

/-- The frames of a report are received as they are. -/
theorem zstrRecv_of_mem {self : Name} {draw : Random} {frame : Frame}
    (hmem : frame ∈ (reportOf self draw).frames) : zstrRecv frame = frame := by
  simp only [reportOf, Report.frames, List.mem_cons, List.not_mem_nil, or_false] at hmem
  rcases hmem with rfl | rfl
  · exact cstr_eq_self self.noNul
  · exact cstr_eq_self (zero_not_mem_available draw)

theorem Name.text_injective : Function.Injective Name.text := by
  intro first second h
  cases first
  cases second
  simpa using h

theorem Report.frames_injective : Function.Injective Report.frames := by
  intro first second h
  cases first
  cases second
  simpa [Report.frames] using h

/-- What reaches a broker from another is a report of one of its draws. -/
theorem Follows.report_of_reaching (h : Follows es os s) {self peer : Name} {msg : Zmsg}
    (hmem : msg ∈ Pubsub.reaching cloud.wants (onSockets os) peer self) :
    peer ∈ cloud.peers self ∧ ∃ draw ∈ draws es peer, msg = (reportOf peer draw).frames := by
  obtain ⟨hpublished, wanted⟩ :=
    List.mem_filter.mp ((Pubsub.reaching_sublist peer self).subset hmem)
  rw [h.published] at hpublished
  obtain ⟨draw, hdraw, rfl⟩ := List.mem_map.mp hpublished
  exact ⟨of_decide_eq_true wanted, draw, hdraw, rfl⟩

/-- What a broker has logged is the first reports that it has begun to read. -/
theorem Follows.logged (h : Follows es os s)
    (carried : Pubsub.Carried cloud.wants (onSockets os) s.sockets) (self : Name) :
    (lines os self).map Report.frames <+:
      (Pubsub.takenBy (onSockets os) self).map Prod.snd := by
  have prints := h.prints self
  apply prints.lines_prefix carried (by decide : 0 < 2) (fun _ => rfl)
  intro peer msg hmem
  obtain ⟨-, draw, -, rfl⟩ := h.report_of_reaching hmem
  exact ⟨rfl, fun _ => zstrRecv_of_mem⟩

/-- The reports under the name of a broker are the first of those that have reached the
logging broker from it. -/
theorem Follows.logged_from (h : Follows es os s)
    (carried : Pubsub.Carried cloud.wants (onSockets os) s.sockets) (self peer : Name) :
    ((lines os self).filter fun report => report.peerName = peer.text).map Report.frames <+:
      Pubsub.reaching cloud.wants (onSockets os) peer self := by
  have marks : ∀ other, ∀ msg ∈ Pubsub.reaching cloud.wants (onSockets os) other self,
      decide (msg.headD [] = peer.text) = true ↔ other = peer := by
    intro other msg hmem
    obtain ⟨-, draw, -, rfl⟩ := h.report_of_reaching hmem
    simp [reportOf, Report.frames, Name.text_injective.eq_iff]
  have first := carried.rounds_from (h.logged carried self) peer _ marks
  rwa [List.filter_map] at first

theorem eq_of_map_frames {first second : List Report}
    (h : first.map Report.frames = second.map Report.frames) : first = second :=
  List.map_injective_iff.mpr Report.frames_injective h

/-- Every report that a broker logs is whole: it has the name of a broker on the command
line and a number that this broker has drawn, ten at most. Those under one name are logged
in the order in which they were sent, and none is left out that the logging broker has not
missed. This holds for any brokers, whoever names whom. -/
theorem logs_whole_reports (run : (system cloud).Run es os s) (self : Name) :
    (∀ report ∈ lines os self, ∃ peer ∈ cloud.peers self, ∃ draw ∈ draws es peer,
      report = reportOf peer draw ∧ ∃ number ≤ 10, report.available = decimal number) ∧
      ∀ peer,
        ((lines os self).filter fun report => report.peerName = peer.text).Sublist
          ((draws es peer).map (reportOf peer)) ∧
        ((∀ msg misses, .published peer msg misses ∈ onSockets os → misses self = false) →
          ((lines os self).filter fun report => report.peerName = peer.text) <+:
            (draws es peer).map (reportOf peer)) := by
  obtain ⟨es', sockets⟩ := sockets_run run
  have follows := follows_of_run run
  have carried := Pubsub.carried_of_run sockets
  refine ⟨?_, fun peer => ⟨?_, ?_⟩⟩
  · intro report hmem
    have hread := (follows.logged carried self).subset (List.mem_map_of_mem hmem)
    obtain ⟨entry, hentry, heq⟩ := List.mem_map.mp hread
    obtain ⟨known, draw, hdraw, hframes⟩ :=
      follows.report_of_reaching (carried.mem_reaching hentry)
    have same := Report.frames_injective (heq.symm.trans hframes)
    have number := randof_le_self (by decide : 1 ≤ 10) (by decide) draw
    exact ⟨entry.1, known, draw, hdraw, same, randof 10 draw, number, same ▸ rfl⟩
  · have some_of := (follows.logged_from carried self peer).sublist.trans
      ((Pubsub.reaching_sublist peer self).trans List.filter_sublist)
    rw [follows.published, ← Function.comp_def, ← List.map_map] at some_of
    obtain ⟨part, hpart, same⟩ := List.sublist_map_iff.mp some_of
    exact eq_of_map_frames same ▸ hpart
  · intro none
    have first := follows.logged_from carried self peer
    rw [Pubsub.reaching_eq none] at first
    by_cases known : peer ∈ cloud.peers self
    · have all : ∀ msg ∈ Pubsub.publishedBy (onSockets os) peer,
          cloud.wants self peer msg = true := fun _ _ => decide_eq_true known
      rw [List.filter_eq_self.mpr all, follows.published, ← Function.comp_def, ← List.map_map]
        at first
      obtain ⟨part, hpart, same⟩ := List.prefix_map_iff.mp first
      exact eq_of_map_frames same ▸ hpart
    · have nobody : ∀ msg ∈ Pubsub.publishedBy (onSockets os) peer,
          ¬ cloud.wants self peer msg = true := fun _ _ h => known (of_decide_eq_true h)
      rw [List.filter_eq_nil_iff.mpr nobody, List.prefix_nil, List.map_eq_nil_iff] at first
      rw [first]
      exact List.nil_prefix

/-- `"a"`, `"b"` and so on. -/
def letter (next : Fin 4) : Name where
  text := [97 + next.val.toUInt8]
  noNul := by revert next; decide
  noFormat := by revert next; decide

/-- The first broker listens to the next two, who do not listen to it. -/
def listening : CommandLines where
  peers := fun self => if self = letter 0 then [letter 1, letter 2] else []
  once := by
    intro self
    split
    · decide
    · exact List.nodup_nil

/-- Both report; the report that is begun last arrives first, and its draw is rounded up. -/
def reportsRun : List SystemEvent :=
  [.poll (letter 1) (some false), .poll (letter 2) (some false), .sendName (letter 1),
    .sendName (letter 2), .sendAvailable (letter 2) 2147483647 fun _ => false,
    .poll (letter 0) (some true), .recv (letter 0) (letter 2),
    .sendAvailable (letter 1) 1073741824 fun _ => false, .recv (letter 0) (letter 1),
    .poll (letter 0) (some true), .recv (letter 0) (letter 1), .recv (letter 0) (letter 2)]

theorem logs_whole_reports_two : ∃ os s, (system listening).Run reportsRun os s ∧
    lines os (letter 0) =
      [{ peerName := [99], available := [49, 48] }, { peerName := [98], available := [53] }] ∧
    ∀ report ∈ lines os (letter 0), ∃ peer ∈ listening.peers (letter 0),
      ∃ draw ∈ draws reportsRun peer, report = reportOf peer draw ∧
        ∃ number ≤ 10, report.available = decimal number := by
  have hexec : ((system listening).exec (system listening).init reportsRun).map
      (fun r => lines r.2 (letter 0)) =
        some [{ peerName := [99], available := [49, 48] },
          { peerName := [98], available := [53] }] := by decide +kernel
  obtain ⟨os, s, run, hsee⟩ := Machine.run_of_map_exec hexec
  exact ⟨os, s, run, hsee, (logs_whole_reports run (letter 0)).1⟩

/-! ## Receiving at once -/

/-- Between the steps of a broker: it has read all of a report or the name only, and it
receives when there is something to receive. -/
structure Turn (s : SystemState) (name : Name) : Prop where
  fresh : (s.broker name).peerName = none → s.sockets.unread name = [] ∧
    ((s.broker name).pc = .recv → ∃ peer, s.sockets.pipe peer name ≠ [])
  half : (s.broker name).peerName ≠ none →
    (s.sockets.unread name).length = 1 ∧ (s.broker name).pc = .recv

variable {self : Name}

/-- A broker that is not receiving has nothing left to read. -/
theorem Turn.idle (h : Turn s self) (away : (s.broker self).pc ≠ .recv) :
    (s.broker self).peerName = none ∧ s.sockets.unread self = [] := by
  have unnamed : (s.broker self).peerName = none := by
    by_contra named
    exact away (h.half named).2
  exact ⟨unnamed, (h.fresh unnamed).1⟩

/-- A broker goes on, and nothing is taken out of a pipe. -/
theorem Turn.goto (h : Turn s self) (other : Name) {pc : BrokerPc}
    {sockets : Pubsub.State Name Name Frame} (away : (s.broker other).pc ≠ .recv)
    (unread : sockets.unread = s.sockets.unread)
    (pipe : ∀ peer name, s.sockets.pipe peer name ≠ [] → sockets.pipe peer name ≠ [])
    (ready : pc = .recv → ∃ peer, s.sockets.pipe peer other ≠ []) :
    Turn { s.goto other pc with sockets := sockets } self := by
  by_cases heq : self = other
  · subst heq
    obtain ⟨unnamed, read⟩ := h.idle away
    refine ⟨fun _ => ⟨?_, fun here => ?_⟩, fun named => ?_⟩
    · rw [unread]
      exact read
    · rw [goto_pc, if_pos rfl] at here
      obtain ⟨peer, hpipe⟩ := ready here
      exact ⟨peer, pipe peer self hpipe⟩
    · rw [goto_peerName] at named
      exact absurd unnamed named
  · refine ⟨fun unnamed => ⟨?_, fun here => ?_⟩, fun named => ?_⟩
    · rw [goto_peerName] at unnamed
      rw [unread]
      exact (h.fresh unnamed).1
    · rw [goto_peerName] at unnamed
      rw [goto_pc, if_neg heq] at here
      obtain ⟨peer, hpipe⟩ := (h.fresh unnamed).2 here
      exact ⟨peer, pipe peer self hpipe⟩
    · rw [goto_peerName] at named
      rw [goto_pc, if_neg heq, unread]
      exact h.half named

/-- Of what a broker receives nobody else sees anything. -/
theorem Turn.recv (h : Turn s self) {name peer : Name} {frame : Frame}
    {sockets : Pubsub.State Name Name Frame} {outputs : List (Pubsub.Output Name Name Frame)}
    (here : (s.broker name).pc = .recv)
    (whole : ∀ peer, ∀ msg ∈ s.sockets.pipe peer name, msg.length = 2)
    (read : Pubsub.recv s.sockets name peer = some (frame, sockets, outputs)) :
    Turn { s with broker := (reader.taken s.broker name frame outputs).1, sockets := sockets }
      self := by
  by_cases heq : self = name
  · subst heq
    rcases Pubsub.recv_cases read with
      ⟨rest, unread, rfl, rfl⟩ | ⟨rest, more, unread, pipe, rfl, rfl⟩
    · cases named : (s.broker self).peerName with
      | none =>
          rw [(h.fresh named).1] at unread
          cases unread
      | some peerName =>
          have last := (h.half (by simp [named])).1
          rw [unread] at last
          have none : rest = [] := List.length_eq_zero_iff.mp (Nat.succ.inj last)
          constructor <;> simp [Pubsub.Reader.taken, reader, BrokerState.recv, named, none]
    · cases named : (s.broker self).peerName with
      | none =>
          have two := whole peer (frame :: rest) (by simp [pipe])
          constructor
          · simp [Pubsub.Reader.taken, reader, BrokerState.recv, named]
          · simpa [Pubsub.Reader.taken, reader, BrokerState.recv, named, here] using two
      | some peerName =>
          have last := (h.half (by simp [named])).1
          rw [unread] at last
          cases last
  · obtain ⟨sameUnread, samePipe⟩ := Pubsub.recv_others read heq
    have sameBroker : (reader.taken s.broker name frame outputs).1 self = s.broker self :=
      Function.update_of_ne heq _ _
    constructor
    · simpa [sameBroker, sameUnread, samePipe] using h.fresh
    · simpa [sameBroker, sameUnread] using h.half

/-- The reports on their way have two frames. -/
theorem length_of_mem_pipe (run : (system cloud).Run es os s) {peer name : Name} {msg : Zmsg}
    (hmem : msg ∈ s.sockets.pipe peer name) : msg.length = 2 := by
  obtain ⟨es', sockets⟩ := sockets_run run
  have arrived := List.mem_append_right
    (Pubsub.takenFrom (onSockets os) peer name) hmem
  rw [(Pubsub.carried_of_run sockets).fifo] at arrived
  obtain ⟨-, draw, -, rfl⟩ := (follows_of_run run).report_of_reaching arrived
  rfl

/-- What a poll finds is in a pipe. -/
theorem Turn.exists_pipe (h : Turn s self) (away : (s.broker self).pc ≠ .recv)
    (ready : s.readable cloud self = true) : ∃ peer, s.sockets.pipe peer self ≠ [] := by
  obtain ⟨-, read⟩ := h.idle away
  simp only [SystemState.readable, read, List.isEmpty_nil, Bool.not_true, Bool.false_or,
    List.any_eq_true, Bool.not_eq_true', List.isEmpty_eq_false_iff] at ready
  obtain ⟨peer, -, hpipe⟩ := ready
  exact ⟨peer, hpipe⟩

theorem turn_of_run (run : (system cloud).Run es os s) : ∀ self, Turn s self := by
  induction run with
  | start =>
      intro self
      exact ⟨fun _ => ⟨rfl, by simp [system, systemInit]⟩, fun named => absurd rfl named⟩
  | extend prior taken ih =>
      intro self
      cases systemMoves_of_step taken with
      | poll name rc pc here away ready =>
          apply (ih self).goto name (by simp [here]) rfl fun _ _ h => h
          exact fun next => (ih name).exists_pipe (by simp [here]) (ready next)
      | recv name peer frame sockets out here read =>
          exact (ih self).recv here (fun _ _ => length_of_mem_pipe prior) read
      | sendName name here =>
          exact (ih self).goto name (by simp [here]) rfl (fun _ _ h => h) (by simp)
      | sendAvailable name draw misses here =>
          refine (ih self).goto name (by simp [here]) rfl ?_ (by simp)
          intro peer other hpipe
          by_cases heq : peer = name
          · subst heq
            simp only [Function.update_self, Pubsub.deliver]
            split <;> simp [hpipe]
          · simpa [heq] using hpipe

variable (cloud) in
/-- The number follows the name, whatever is in the pipes. -/
theorem recv_number {peerName : List UInt8} {frame : Frame} (here : (s.broker self).pc = .recv)
    (named : (s.broker self).peerName = some peerName) (unread : s.sockets.unread self = [frame])
    (peer : Name) :
    ∃ t out, (system cloud).step s (.recv self peer) = some (t, out) ∧
      (t.broker self).pc = .poll ∧
      lines out self = [{ peerName := peerName, available := zstrRecv frame }] := by
  refine ⟨_, _, by
    simp only [system, systemStep, here, Pubsub.recv, unread, Option.map_some,
      Pubsub.Reader.taken, reader, BrokerState.recv, named]
    rfl, ?_⟩
  simp

variable (cloud) in
/-- The name comes first, and leaves the number to be read. -/
theorem recv_name {peer : Name} {frame number : Frame} {more : List Zmsg}
    (here : (s.broker self).pc = .recv) (unnamed : (s.broker self).peerName = none)
    (unread : s.sockets.unread self = [])
    (pipe : s.sockets.pipe peer self = [frame, number] :: more) :
    ∃ t out, (system cloud).step s (.recv self peer) = some (t, out) ∧ lines out self = [] ∧
      (t.broker self).pc = .recv ∧ (t.broker self).peerName = some (zstrRecv frame) ∧
      t.sockets.unread self = [number] := by
  refine ⟨_, _, by
    simp only [system, systemStep, here, Pubsub.recv, unread, pipe, Option.map_some,
      Pubsub.Reader.taken, reader, BrokerState.recv, unnamed]
    rfl, ?_⟩
  simp

/-- A broker that its poll has told of a report receives it without waiting: whatever the
others have done meanwhile, two receives at most take it back to its poll, with a report
logged. -/
theorem receives_at_once (run : (system cloud).Run es os s) (here : (s.broker self).pc = .recv) :
    ∃ peer fs t out report, (system cloud).exec s fs = some (t, out) ∧ fs.length ≤ 2 ∧
      (∀ e ∈ fs, e = .recv self peer) ∧ (t.broker self).pc = .poll ∧
      lines out self = [report] := by
  have turn := turn_of_run run self
  cases named : (s.broker self).peerName with
  | some peerName =>
      have last := (turn.half (by simp [named])).1
      obtain ⟨frame, unread⟩ := List.length_eq_one_iff.mp last
      obtain ⟨t, out, hstep, hpc, logged⟩ := recv_number cloud here named unread self
      exact ⟨self, [.recv self self], t, out, _, Machine.exec_singleton hstep, Nat.le_succ 1,
        by simp, hpc, logged⟩
  | none =>
      obtain ⟨unread, ready⟩ := turn.fresh named
      obtain ⟨peer, hpipe⟩ := ready here
      obtain ⟨msg, more, pipe⟩ := List.exists_cons_of_ne_nil hpipe
      have two := length_of_mem_pipe run (pipe ▸ List.mem_cons_self)
      obtain ⟨frame, number, rfl⟩ := List.length_eq_two.mp two
      obtain ⟨u, first, hname, silent, hpc, hnamed, hunread⟩ :=
        recv_name cloud here named unread pipe
      obtain ⟨t, rest, hnumber, hpoll, logged⟩ :=
        recv_number cloud hpc hnamed hunread peer
      have both := Machine.exec_append (Machine.exec_singleton hname)
        (Machine.exec_singleton hnumber)
      have one := Pubsub.lines_append first rest self
      rw [silent, List.nil_append, logged] at one
      exact ⟨peer, _, t, _, _, both, Nat.le_refl 2, by simp, hpoll, one⟩

/-- Both reports are under way when the first broker receives. -/
theorem receives_at_once_two : ∃ os s, (system listening).Run (reportsRun.take 8) os s ∧
    ∃ peer fs t out report, (system listening).exec s fs = some (t, out) ∧ fs.length ≤ 2 ∧
      (∀ e ∈ fs, e = .recv (letter 0) peer) ∧ (t.broker (letter 0)).pc = .poll ∧
      lines out (letter 0) = [report] := by
  have hexec : ((system listening).exec (system listening).init (reportsRun.take 8)).map
      (fun r => (r.1.broker (letter 0)).pc) = some .recv := by decide +kernel
  obtain ⟨os, s, run, hsee⟩ := Machine.run_of_map_exec hexec
  exact ⟨os, s, run, receives_at_once run hsee⟩

end ZmqTest.Stateflow
