/-
# Publishers and subscribers

A publisher sends frame by frame, and with the last frame of a message the whole
message goes to every subscriber that wants it. A subscriber may miss a message, because
it is not connected yet or its queue is full, but never a part of one; what it gets from
one publisher stays in order, what it gets from several comes in any order. It is read
frame by frame again.

A reader that takes a fixed number of frames in each round reads whole messages, when
every message has that many frames.
-/

import Mathlib.Data.List.Infix
import Mathlib.Logic.Function.Basic
import ZmqTest.Lib.Machine

universe u v w

namespace Pubsub

variable {Pub : Type u} {Sub : Type v} {Frame : Type w}

/-- The sockets: the message a publisher has begun, the messages that are on their way to
a subscriber, and what a subscriber has not read of the message it is reading. -/
structure State (Pub : Type u) (Sub : Type v) (Frame : Type w) where
  begun : Pub → List Frame
  pipe : Pub → Sub → List (List Frame)
  unread : Sub → List Frame

inductive Event (Pub : Type u) (Sub : Type v) (Frame : Type w)
  | sendMore (pub : Pub) (frame : Frame)
  | /-- The last frame of a message; some subscribers miss the message. -/
    send (pub : Pub) (frame : Frame) (misses : Sub → Bool)
  | /-- The next frame, of a message of `pub` when a new one is begun. -/
    recv (sub : Sub) (pub : Pub)

inductive Output (Pub : Type u) (Sub : Type v) (Frame : Type w)
  | published (pub : Pub) (msg : List Frame) (misses : Sub → Bool)
  | taken (sub : Sub) (pub : Pub) (msg : List Frame)
  | read (sub : Sub) (frame : Frame)

/-- A message is put into the pipes of those who want it and do not miss it. -/
def deliver (wants : Sub → Pub → List Frame → Bool) (s : State Pub Sub Frame) (pub : Pub)
    (msg : List Frame) (misses : Sub → Bool) : Sub → List (List Frame) :=
  fun sub => if wants sub pub msg && !misses sub then s.pipe pub sub ++ [msg] else s.pipe pub sub

/-- The next frame a subscriber reads: of the message it is reading, or of a new one. -/
def recv [DecidableEq Pub] [DecidableEq Sub] (s : State Pub Sub Frame) (sub : Sub) (pub : Pub) :
    Option (Frame × State Pub Sub Frame × List (Output Pub Sub Frame)) :=
  match s.unread sub, s.pipe pub sub with
  | frame :: rest, _ =>
      some (frame, { s with unread := Function.update s.unread sub rest }, [.read sub frame])
  | [], (frame :: rest) :: more =>
      some (frame,
        { s with
          pipe := Function.update s.pipe pub (Function.update (s.pipe pub) sub more)
          unread := Function.update s.unread sub rest },
        [.taken sub pub (frame :: rest), .read sub frame])
  | [], _ => none

/-- A receive reads on, or takes the next message of the publisher. -/
theorem recv_cases [DecidableEq Pub] [DecidableEq Sub] {s t : State Pub Sub Frame} {sub : Sub}
    {pub : Pub} {frame : Frame} {out : List (Output Pub Sub Frame)}
    (h : recv s sub pub = some (frame, t, out)) :
    (∃ rest, s.unread sub = frame :: rest ∧
        t = { s with unread := Function.update s.unread sub rest } ∧ out = [.read sub frame]) ∨
      ∃ rest more, s.unread sub = [] ∧ s.pipe pub sub = (frame :: rest) :: more ∧
        t = { s with
          pipe := Function.update s.pipe pub (Function.update (s.pipe pub) sub more)
          unread := Function.update s.unread sub rest } ∧
        out = [.taken sub pub (frame :: rest), .read sub frame] := by
  unfold recv at h
  split at h
  case h_1 first rest unread =>
    cases h
    exact Or.inl ⟨rest, unread, rfl, rfl⟩
  case h_2 first rest more unread pipe =>
    cases h
    exact Or.inr ⟨rest, more, unread, pipe, rfl, rfl⟩
  case h_3 => cases h

/-- The other subscribers are left alone. -/
theorem recv_others [DecidableEq Pub] [DecidableEq Sub] {s t : State Pub Sub Frame}
    {sub peer : Sub} {pub : Pub} {frame : Frame} {out : List (Output Pub Sub Frame)}
    (h : recv s sub pub = some (frame, t, out)) (hne : peer ≠ sub) :
    t.unread peer = s.unread peer ∧ ∀ other, t.pipe other peer = s.pipe other peer := by
  rcases recv_cases h with ⟨rest, -, rfl, -⟩ | ⟨rest, more, -, -, rfl, -⟩
  · exact ⟨Function.update_of_ne hne _ _, fun _ => rfl⟩
  · refine ⟨Function.update_of_ne hne _ _, fun other => ?_⟩
    by_cases heq : other = pub
    · subst heq
      simp [hne]
    · simp [heq]

/-- One step of the sockets. -/
def step [DecidableEq Pub] [DecidableEq Sub] (wants : Sub → Pub → List Frame → Bool)
    (s : State Pub Sub Frame) :
    Event Pub Sub Frame → Option (State Pub Sub Frame × List (Output Pub Sub Frame))
  | .sendMore pub frame =>
      some ({ s with begun := Function.update s.begun pub (s.begun pub ++ [frame]) }, [])
  | .send pub frame misses =>
      let msg := s.begun pub ++ [frame]
      some ({ s with
          begun := Function.update s.begun pub []
          pipe := Function.update s.pipe pub (deliver wants s pub msg misses) },
        [.published pub msg misses])
  | .recv sub pub => (recv s sub pub).map Prod.snd

/-- Nothing has been sent. -/
def init : State Pub Sub Frame where
  begun := fun _ => []
  pipe := fun _ _ => []
  unread := fun _ => []

/-- Publishers and subscribers; `wants` tells which messages of whom a subscriber is
connected for and has subscribed to. -/
def sockets [DecidableEq Pub] [DecidableEq Sub] (wants : Sub → Pub → List Frame → Bool) :
    Machine (State Pub Sub Frame) (Event Pub Sub Frame) (Output Pub Sub Frame) where
  init := init
  step := step wants

section

variable [DecidableEq Pub]

/-- The message, when the publisher has published it and the subscriber wants it and does
not miss it. -/
def Output.reaching? (wants : Sub → Pub → List Frame → Bool) (pub : Pub) (sub : Sub) :
    Output Pub Sub Frame → Option (List Frame)
  | .published other msg misses =>
      if other = pub ∧ (wants sub pub msg && !misses sub) = true then some msg else none
  | _ => none

/-- What has reached the pipe of a subscriber from a publisher, in order. -/
def reaching (wants : Sub → Pub → List Frame → Bool) (os : List (Output Pub Sub Frame))
    (pub : Pub) (sub : Sub) : List (List Frame) :=
  os.filterMap (Output.reaching? wants pub sub)

def Output.published? (pub : Pub) : Output Pub Sub Frame → Option (List Frame)
  | .published other msg _ => if other = pub then some msg else none
  | _ => none

/-- What a publisher has published. -/
def publishedBy (os : List (Output Pub Sub Frame)) (pub : Pub) : List (List Frame) :=
  os.filterMap (Output.published? pub)

variable (wants : Sub → Pub → List Frame → Bool) (os out : List (Output Pub Sub Frame))
  (pub other : Pub) (sub peer : Sub) (msg : List Frame) (frame : Frame) (misses : Sub → Bool)

@[simp]
theorem publishedBy_append :
    publishedBy (os ++ out) pub = publishedBy os pub ++ publishedBy out pub :=
  List.filterMap_append

@[simp]
theorem publishedBy_published_cons :
    publishedBy (.published other msg misses :: os) pub =
      if other = pub then msg :: publishedBy os pub else publishedBy os pub := by
  rw [publishedBy, List.filterMap_cons, Output.published?]
  by_cases h : other = pub
  · rw [if_pos h, if_pos h, publishedBy]
  · rw [if_neg h, if_neg h, publishedBy]

@[simp]
theorem publishedBy_taken_cons :
    publishedBy (.taken peer other msg :: os) pub = publishedBy os pub := rfl

@[simp]
theorem publishedBy_read_cons :
    publishedBy (.read peer frame :: os) pub = publishedBy os pub := rfl

@[simp]
theorem publishedBy_nil : publishedBy ([] : List (Output Pub Sub Frame)) pub = [] := rfl

@[simp]
theorem reaching_append :
    reaching wants (os ++ out) pub sub = reaching wants os pub sub ++ reaching wants out pub sub :=
  List.filterMap_append

@[simp]
theorem reaching_published_cons :
    reaching wants (.published other msg misses :: os) pub sub =
      if other = pub ∧ (wants sub pub msg && !misses sub) = true then
        msg :: reaching wants os pub sub
      else reaching wants os pub sub := by
  rw [reaching, List.filterMap_cons, Output.reaching?]
  by_cases h : other = pub ∧ (wants sub pub msg && !misses sub) = true
  · rw [if_pos h, if_pos h, reaching]
  · rw [if_neg h, if_neg h, reaching]

@[simp]
theorem reaching_taken_cons :
    reaching wants (.taken peer other msg :: os) pub sub = reaching wants os pub sub := rfl

@[simp]
theorem reaching_read_cons :
    reaching wants (.read peer frame :: os) pub sub = reaching wants os pub sub := rfl

@[simp]
theorem reaching_nil : reaching wants ([] : List (Output Pub Sub Frame)) pub sub = [] := rfl

end

section

variable [DecidableEq Sub]

def Output.taken? (sub : Sub) : Output Pub Sub Frame → Option (Pub × List Frame)
  | .taken other pub msg => if other = sub then some (pub, msg) else none
  | _ => none

def Output.read? (sub : Sub) : Output Pub Sub Frame → Option Frame
  | .read other frame => if other = sub then some frame else none
  | _ => none

/-- The messages a subscriber has begun to read, with their publishers. -/
def takenBy (os : List (Output Pub Sub Frame)) (sub : Sub) : List (Pub × List Frame) :=
  os.filterMap (Output.taken? sub)

/-- The frames a subscriber has read. -/
def reads (os : List (Output Pub Sub Frame)) (sub : Sub) : List Frame :=
  os.filterMap (Output.read? sub)

variable (os out : List (Output Pub Sub Frame)) (other : Pub) (sub peer : Sub)
  (msg : List Frame) (frame : Frame) (misses : Sub → Bool)

@[simp]
theorem takenBy_append : takenBy (os ++ out) sub = takenBy os sub ++ takenBy out sub :=
  List.filterMap_append

@[simp]
theorem takenBy_published_cons :
    takenBy (.published other msg misses :: os) sub = takenBy os sub := rfl

@[simp]
theorem takenBy_taken_cons :
    takenBy (.taken peer other msg :: os) sub =
      if peer = sub then (other, msg) :: takenBy os sub else takenBy os sub := by
  rw [takenBy, List.filterMap_cons, Output.taken?]
  by_cases h : peer = sub
  · rw [if_pos h, if_pos h, takenBy]
  · rw [if_neg h, if_neg h, takenBy]

@[simp]
theorem takenBy_read_cons : takenBy (.read peer frame :: os) sub = takenBy os sub := rfl

@[simp]
theorem takenBy_nil : takenBy ([] : List (Output Pub Sub Frame)) sub = [] := rfl

@[simp]
theorem reads_append : reads (os ++ out) sub = reads os sub ++ reads out sub :=
  List.filterMap_append

@[simp]
theorem reads_published_cons :
    reads (.published other msg misses :: os) sub = reads os sub := rfl

@[simp]
theorem reads_taken_cons : reads (.taken peer other msg :: os) sub = reads os sub := rfl

@[simp]
theorem reads_read_cons :
    reads (.read peer frame :: os) sub =
      if peer = sub then frame :: reads os sub else reads os sub := by
  rw [reads, List.filterMap_cons, Output.read?]
  by_cases h : peer = sub
  · rw [if_pos h, if_pos h, reads]
  · rw [if_neg h, if_neg h, reads]

@[simp]
theorem reads_nil : reads ([] : List (Output Pub Sub Frame)) sub = [] := rfl

end

variable [DecidableEq Pub] [DecidableEq Sub]

/-- The messages of one publisher that a subscriber has begun to read. -/
def takenFrom (os : List (Output Pub Sub Frame)) (pub : Pub) (sub : Sub) : List (List Frame) :=
  ((takenBy os sub).filter fun entry => entry.1 = pub).map Prod.snd

variable {wants : Sub → Pub → List Frame → Bool} {os out : List (Output Pub Sub Frame)}
  {s t : State Pub Sub Frame} {e : Event Pub Sub Frame}

theorem takenFrom_append (pub : Pub) (sub : Sub) :
    takenFrom (os ++ out) pub sub = takenFrom os pub sub ++ takenFrom out pub sub := by
  simp [takenFrom]

/-- Nothing is lost on the way from a pipe to the reader, and nothing changes its order. -/
structure Carried (wants : Sub → Pub → List Frame → Bool) (os : List (Output Pub Sub Frame))
    (s : State Pub Sub Frame) : Prop where
  fifo : ∀ pub sub, takenFrom os pub sub ++ s.pipe pub sub = reaching wants os pub sub
  frames : ∀ sub, reads os sub ++ s.unread sub = ((takenBy os sub).map Prod.snd).flatten

theorem Carried.send (h : Carried wants os s) (pub : Pub) (frame : Frame) (misses : Sub → Bool) :
    Carried wants (os ++ [.published pub (s.begun pub ++ [frame]) misses])
      { s with
        begun := Function.update s.begun pub []
        pipe := Function.update s.pipe pub
          (deliver wants s pub (s.begun pub ++ [frame]) misses) } := by
  constructor
  · intro other sub
    rw [takenFrom_append, reaching_append, ← h.fifo]
    by_cases heq : pub = other
    · subst heq
      by_cases gets : (wants sub pub (s.begun pub ++ [frame]) && !misses sub) = true
      · simp [takenFrom, deliver, gets]
      · simp [takenFrom, deliver, gets]
    · simp [takenFrom, heq, Ne.symm heq]
  · intro sub
    simpa using h.frames sub

/-- The next frame of the message that is being read. -/
theorem Carried.read (h : Carried wants os s) {sub : Sub} {frame : Frame} {rest : List Frame}
    (unread : s.unread sub = frame :: rest) :
    Carried wants (os ++ [.read sub frame])
      { s with unread := Function.update s.unread sub rest } := by
  constructor
  · intro pub peer
    rw [takenFrom_append, reaching_append, ← h.fifo]
    simp [takenFrom]
  · intro peer
    have before := h.frames peer
    by_cases heq : sub = peer
    · subst heq
      rw [unread] at before
      simpa using before
    · simpa [heq, Ne.symm heq] using before

/-- The first frame of the next message. -/
theorem Carried.take (h : Carried wants os s) {sub : Sub} {pub : Pub} {frame : Frame}
    {rest : List Frame} {more : List (List Frame)} (unread : s.unread sub = [])
    (pipe : s.pipe pub sub = (frame :: rest) :: more) :
    Carried wants (os ++ [.taken sub pub (frame :: rest), .read sub frame])
      { s with
        pipe := Function.update s.pipe pub (Function.update (s.pipe pub) sub more)
        unread := Function.update s.unread sub rest } := by
  constructor
  · intro other peer
    rw [takenFrom_append, reaching_append, ← h.fifo]
    by_cases hpub : pub = other <;> by_cases hsub : sub = peer
    · subst hpub hsub
      simp [takenFrom, pipe]
    · subst hpub
      simp [takenFrom, hsub, Ne.symm hsub]
    · simp [takenFrom, hpub, Ne.symm hpub, hsub]
    · simp [takenFrom, Ne.symm hpub, hsub]
  · intro peer
    have before := h.frames peer
    by_cases heq : sub = peer
    · subst heq
      rw [unread, List.append_nil] at before
      simp [before]
    · simpa [heq, Ne.symm heq] using before

theorem Carried.step (h : Carried wants os s) (taken : (sockets wants).step s e = some (t, out)) :
    Carried wants (os ++ out) t := by
  cases e with
  | sendMore pub frame =>
      cases taken
      rw [List.append_nil]
      exact ⟨h.fifo, h.frames⟩
  | send pub frame misses =>
      cases taken
      exact h.send pub frame misses
  | recv sub pub =>
      obtain ⟨⟨frame, next⟩, hrecv, rfl⟩ := Option.map_eq_some_iff.mp taken
      rcases recv_cases hrecv with
        ⟨rest, unread, rfl, rfl⟩ | ⟨rest, more, unread, pipe, rfl, rfl⟩
      · exact h.read unread
      · exact h.take unread pipe

/-- What is read is the frame that is returned, and nothing is published. -/
theorem recv_spec {sub : Sub} {pub : Pub} {frame : Frame}
    (h : recv s sub pub = some (frame, t, out)) :
    (∀ peer, reads out peer = if sub = peer then [frame] else []) ∧ t.begun = s.begun ∧
      ∀ other, publishedBy out other = [] := by
  rcases recv_cases h with ⟨rest, -, rfl, rfl⟩ | ⟨rest, more, -, -, rfl, rfl⟩ <;> simp

theorem carried_of_run {es : List (Event Pub Sub Frame)} (run : (sockets wants).Run es os s) :
    Carried wants os s :=
  run.output_invariant ⟨fun _ _ => rfl, fun _ => rfl⟩ fun _ _ _ _ _ h taken => h.step taken

omit [DecidableEq Sub] in
/-- What reaches a subscriber is some of what is published and it wants, in order. -/
theorem reaching_sublist (pub : Pub) (sub : Sub) :
    (reaching wants os pub sub).Sublist ((publishedBy os pub).filter (wants sub pub)) := by
  induction os with
  | nil => exact List.Sublist.refl _
  | cons o os ih =>
      cases o with
      | published other msg misses =>
          rw [reaching_published_cons, publishedBy_published_cons]
          by_cases heq : other = pub
          · by_cases wanted : wants sub pub msg = true
            · cases misses sub <;> simp [heq, wanted, ih]
            · simp [heq, wanted, ih]
          · simpa [heq] using ih
      | taken peer other msg => exact ih
      | read peer frame => exact ih

omit [DecidableEq Sub] in
/-- It is all of that, when the subscriber misses nothing. -/
theorem reaching_eq {pub : Pub} {sub : Sub}
    (none : ∀ msg misses, .published pub msg misses ∈ os → misses sub = false) :
    reaching wants os pub sub = (publishedBy os pub).filter (wants sub pub) := by
  induction os with
  | nil => rfl
  | cons o os ih =>
      have rest := ih fun msg misses hmem => none msg misses (List.mem_cons_of_mem _ hmem)
      cases o with
      | published other msg misses =>
          rw [reaching_published_cons, publishedBy_published_cons, rest]
          by_cases heq : other = pub
          · have got := none msg misses (heq ▸ List.mem_cons_self)
            by_cases wanted : wants sub pub msg = true <;> simp [heq, wanted, got]
          · simp [heq]
      | taken peer other msg => exact rest
      | read peer frame => exact rest

/-- What is read first reached the reader first. -/
theorem Carried.takenFrom_prefix (h : Carried wants os s) (pub : Pub) (sub : Sub) :
    takenFrom os pub sub <+: reaching wants os pub sub :=
  ⟨s.pipe pub sub, h.fifo pub sub⟩

/-- With one publisher, the frames that are read are those that reached the reader first. -/
theorem Carried.reads_of_one (h : Carried wants os s) (pub : Pub) (only : ∀ other, other = pub)
    (sub : Sub) : reads os sub <+: (reaching wants os pub sub).flatten := by
  have all : (takenBy os sub).map Prod.snd = takenFrom os pub sub := by
    rw [takenFrom, List.filter_eq_self.mpr fun entry _ => decide_eq_true (only entry.1)]
  obtain ⟨rest, hrest⟩ := h.takenFrom_prefix pub sub
  refine ⟨s.unread sub ++ rest.flatten, ?_⟩
  rw [← List.append_assoc, h.frames, all, ← hrest, List.flatten_append]

theorem Carried.mem_reaching (h : Carried wants os s) {sub : Sub} {entry : Pub × List Frame}
    (hmem : entry ∈ takenBy os sub) : entry.2 ∈ reaching wants os entry.1 sub := by
  apply (h.takenFrom_prefix entry.1 sub).subset
  exact List.mem_map_of_mem (List.mem_filter.mpr ⟨hmem, by simp⟩)

/-! ## Reading in rounds -/

/-- Lists of one length that are put together come apart in one way. -/
theorem prefix_of_flatten {Item : Type*} {k : Nat} (pos : 0 < k) {first second : List (List Item)}
    (hfirst : ∀ l ∈ first, l.length = k) (hsecond : ∀ l ∈ second, l.length = k)
    (h : first.flatten <+: second.flatten) : first <+: second := by
  induction first generalizing second with
  | nil => exact List.nil_prefix
  | cons l first ih =>
      obtain ⟨rest, heq⟩ := h
      have length := hfirst l List.mem_cons_self
      cases second with
      | nil =>
          have none : l = [] := by simp_all
          simp [none] at length
          omega
      | cons m second =>
          rw [List.flatten_cons, List.flatten_cons, List.append_assoc] at heq
          obtain ⟨rfl, hrest⟩ := List.append_inj heq
            (length.trans (hsecond m List.mem_cons_self).symm)
          exact List.cons_prefix_cons.mpr ⟨rfl,
            ih (fun l hl => hfirst l (List.mem_cons_of_mem _ hl))
              (fun l hl => hsecond l (List.mem_cons_of_mem _ hl)) ⟨rest, hrest⟩⟩

/-- A reader of rounds reads the messages that it takes, when these are of that length. -/
theorem Carried.rounds (h : Carried wants os s) {sub : Sub} {k : Nat} (pos : 0 < k)
    (each : ∀ pub, ∀ msg ∈ reaching wants os pub sub, msg.length = k)
    {rounds : List (List Frame)} (whole : ∀ round ∈ rounds, round.length = k)
    (grouped : rounds.flatten <+: reads os sub) :
    rounds <+: (takenBy os sub).map Prod.snd := by
  apply prefix_of_flatten pos whole
  · intro msg hmem
    obtain ⟨entry, hentry, rfl⟩ := List.mem_map.mp hmem
    exact each entry.1 entry.2 (h.mem_reaching hentry)
  · exact grouped.trans ⟨s.unread sub, h.frames sub⟩

/-- Those of its rounds that are marked as from one publisher are the first messages of
that publisher which have reached it. -/
theorem Carried.rounds_from (h : Carried wants os s) {sub : Sub} {rounds : List (List Frame)}
    (grouped : rounds <+: (takenBy os sub).map Prod.snd) (pub : Pub)
    (marked : List Frame → Bool)
    (marks : ∀ other, ∀ msg ∈ reaching wants os other sub, marked msg = true ↔ other = pub) :
    rounds.filter marked <+: reaching wants os pub sub := by
  have same : ((takenBy os sub).map Prod.snd).filter marked = takenFrom os pub sub := by
    rw [List.filter_map, takenFrom]
    congr 1
    apply List.filter_congr
    intro entry hmem
    have mark := marks entry.1 entry.2 (h.mem_reaching hmem)
    by_cases heq : entry.1 = pub <;> simp_all
  have first := grouped.filter marked
  rw [same] at first
  exact first.trans (h.takenFrom_prefix pub sub)

/-- What a system of publishers and readers emits: what its sockets do, and what the
readers print. -/
inductive Entry (Pub : Type u) (Sub : Type v) (Frame : Type w) (Line : Type*)
  | socket (output : Output Pub Sub Frame)
  | printed (sub : Sub) (line : Line)

section

variable {Pub : Type u} {Sub : Type v} {Frame : Type w} {Line : Type*}

def Entry.socket? : Entry Pub Sub Frame Line → Option (Output Pub Sub Frame)
  | .socket output => some output
  | .printed _ _ => none

def Entry.printed? [DecidableEq Sub] (sub : Sub) : Entry Pub Sub Frame Line → Option Line
  | .printed other line => if other = sub then some line else none
  | .socket _ => none

/-- What the sockets have done. -/
def onSockets (os : List (Entry Pub Sub Frame Line)) : List (Output Pub Sub Frame) :=
  os.filterMap Entry.socket?

/-- The lines a reader has printed. -/
def lines [DecidableEq Sub] (os : List (Entry Pub Sub Frame Line)) (sub : Sub) : List Line :=
  os.filterMap (Entry.printed? sub)

variable (os out : List (Entry Pub Sub Frame Line)) (output : Output Pub Sub Frame)
  (outputs : List (Output Pub Sub Frame)) (line : Line) (printed : List Line) (sub peer : Sub)

@[simp]
theorem onSockets_nil : onSockets ([] : List (Entry Pub Sub Frame Line)) = [] := rfl

@[simp]
theorem onSockets_socket_cons : onSockets (.socket output :: os) = output :: onSockets os := rfl

@[simp]
theorem onSockets_append : onSockets (os ++ out) = onSockets os ++ onSockets out :=
  List.filterMap_append

@[simp]
theorem onSockets_socket :
    onSockets (outputs.map (Entry.socket : _ → Entry Pub Sub Frame Line)) = outputs := by
  simp [onSockets, List.filterMap_map, Function.comp_def, Entry.socket?]

@[simp]
theorem onSockets_printed :
    onSockets (printed.map (Entry.printed sub : _ → Entry Pub Sub Frame Line)) = [] := by
  simp [onSockets, Entry.socket?]

variable [DecidableEq Sub]

@[simp]
theorem lines_nil : lines ([] : List (Entry Pub Sub Frame Line)) sub = [] := rfl

@[simp]
theorem lines_socket_cons : lines (.socket output :: os) sub = lines os sub := rfl

@[simp]
theorem lines_printed_cons :
    lines (.printed peer line :: os) sub = if peer = sub then line :: lines os sub
      else lines os sub := by
  rw [lines, List.filterMap_cons, Entry.printed?]
  by_cases heq : peer = sub
  · rw [if_pos heq, if_pos heq, lines]
  · rw [if_neg heq, if_neg heq, lines]

@[simp]
theorem lines_append : lines (os ++ out) sub = lines os sub ++ lines out sub :=
  List.filterMap_append

@[simp]
theorem lines_socket :
    lines (outputs.map (Entry.socket : _ → Entry Pub Sub Frame Line)) peer = [] := by
  simp [lines, Entry.printed?]

@[simp]
theorem lines_printed :
    lines (printed.map (Entry.printed sub : _ → Entry Pub Sub Frame Line)) peer =
      if sub = peer then printed else [] := by
  by_cases heq : sub = peer <;>
    simp [lines, List.filterMap_map, Function.comp_def, Entry.printed?, heq]

end

/-- A program that reads frame by frame and prints a line now and then. It holds the frames
it has read since, as they are after it has received them. -/
structure Reader (Reading : Type*) (Line : Type*) (Frame : Type w) where
  recv : Reading → Frame → Reading × Option Line
  held : Reading → List Frame
  frames : Line → List Frame
  text : Frame → Frame
  spec : ∀ reading frame, ((recv reading frame).2.toList.map frames).flatten ++
    held (recv reading frame).1 = held reading ++ [text frame]

namespace Reader

variable {Reading Line : Type*} (reader : Reader Reading Line Frame)
  {entries more : List (Entry Pub Sub Frame Line)}

/-- What the reader has printed and what it holds is what it has read. -/
def Prints (entries : List (Entry Pub Sub Frame Line)) (sub : Sub) (reading : Reading) : Prop :=
  ((lines entries sub).map reader.frames).flatten ++ reader.held reading =
    (reads (onSockets entries) sub).map reader.text

/-- The next frame is received. -/
def taken (readings : Sub → Reading) (sub : Sub) (frame : Frame)
    (out : List (Output Pub Sub Frame)) :
    (Sub → Reading) × List (Entry Pub Sub Frame Line) :=
  let next := reader.recv (readings sub) frame
  (Function.update readings sub next.1,
    out.map .socket ++ next.2.toList.map (Entry.printed sub))

variable {reader} {readings : Sub → Reading}

omit [DecidableEq Pub] in
theorem onSockets_taken (sub : Sub) (frame : Frame) :
    onSockets (reader.taken readings sub frame out).2 = out := by
  simp [taken]

omit [DecidableEq Pub] in
/-- Nothing is read or printed. -/
theorem Prints.keep {sub : Sub} {reading after : Reading} (h : reader.Prints entries sub reading)
    (same : reader.held after = reader.held reading) (unread : reads (onSockets more) sub = [])
    (silent : lines more sub = []) : reader.Prints (entries ++ more) sub after := by
  unfold Prints at h ⊢
  rw [lines_append, silent, List.append_nil, onSockets_append, reads_append, unread,
    List.append_nil, same, h]

theorem Prints.recv {sub : Sub} {pub : Pub} {frame : Frame}
    (h : ∀ peer, reader.Prints entries peer (readings peer))
    (read : Pubsub.recv s sub pub = some (frame, t, out)) (peer : Sub) :
    reader.Prints (entries ++ (reader.taken readings sub frame out).2) peer
      ((reader.taken readings sub frame out).1 peer) := by
  have before := h peer
  have hreads := (recv_spec read).1
  unfold Prints at before ⊢
  simp only [taken, lines_append, lines_socket, lines_printed, List.nil_append, onSockets_append,
    onSockets_socket, onSockets_printed, List.append_nil, reads_append, hreads, List.map_append,
    List.flatten_append, ← before]
  by_cases heq : sub = peer
  · subst heq
    simp [reader.spec (readings sub) frame]
  · simp [heq, Ne.symm heq]

/-- A reader of rounds prints the messages that it takes, when these have as many frames as
its lines and are received as they are. -/
theorem Prints.lines_prefix {sub : Sub} {reading : Reading} (h : reader.Prints entries sub reading)
    (carried : Carried wants (onSockets entries) s) {k : Nat} (pos : 0 < k)
    (whole : ∀ line, (reader.frames line).length = k)
    (each : ∀ pub, ∀ msg ∈ reaching wants (onSockets entries) pub sub,
      msg.length = k ∧ ∀ frame ∈ msg, reader.text frame = frame) :
    (lines entries sub).map reader.frames <+: (takenBy (onSockets entries) sub).map Prod.snd := by
  have same : (reads (onSockets entries) sub).map reader.text = reads (onSockets entries) sub := by
    refine (List.map_congr_left fun frame hread => ?_).trans (List.map_id _)
    have hmem := List.mem_append_left (s.unread sub) hread
    rw [carried.frames] at hmem
    obtain ⟨msg, htaken, hframe⟩ := List.mem_flatten.mp hmem
    obtain ⟨entry, hentry, rfl⟩ := List.mem_map.mp htaken
    exact (each entry.1 entry.2 (carried.mem_reaching hentry)).2 frame hframe
  apply carried.rounds pos (fun pub msg hmem => (each pub msg hmem).1)
  · intro round hmem
    obtain ⟨line, -, rfl⟩ := List.mem_map.mp hmem
    exact whole line
  · exact ⟨reader.held reading, Eq.trans h same⟩

end Reader

end Pubsub
