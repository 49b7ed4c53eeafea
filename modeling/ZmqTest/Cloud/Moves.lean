/-
# What happens in a cloud that loses nothing

The brokers of `lcflow.c` when nothing is lost or interrupted, a poll tells what has come, and
a broker that sends a request to a peer draws one it has. The polls with a timeout may find
nothing as often as they like; that without one ends when something has come.

A broker then makes one message of every message it reads, and none of the announcement of a
worker. The worker that stands at the end of its list, that a request is with, or whose
message has still to be read is one worker each time: every worker that has been started is
in one of these places.
-/

import ZmqTest.Cloud.Conservation
import ZmqTest.Cloud.Hops
import ZmqTest.Lib.Progress

namespace ZmqTest.Cloud

/-- The socket of a broker at which a message has arrived. -/
def Loc.socket : Loc → Option (Frame × LcflowPc)
  | .localfe broker _ => some (broker, .localfe)
  | .localbe broker _ => some (broker, .localbe)
  | .cloudfe broker _ => some (broker, .cloudfe)
  | .cloudbe broker _ => some (broker, .cloudbe)
  | _ => none

/-- A message has come to a socket of a broker. -/
def readable (net : Network Loc Parcel) (broker : Frame) (pc : LcflowPc) : Bool :=
  net.any fun packet => packet.1.socket = some (broker, pc)

/-- Nothing is lost or interrupted, polls tell what has come, and `randof(argc-2)` is below
`argc-2` where it is used. -/
def Fair (cloud : Topology) (s : SystemState) : SystemEvent → Prop
  | .poll broker (.pollBackends rc) =>
      rc = some (readable s.net broker .localbe, readable s.net broker .cloudbe) ∧
        ((s.broker broker).capacity = 0 →
          readable s.net broker .localbe = true ∨ readable s.net broker .cloudbe = true)
  | .poll broker (.pollFrontends rc) =>
      rc = some (readable s.net broker .localfe, readable s.net broker .cloudfe)
  | .poll _ (.recv _ _) => False
  | .recv broker _ draws =>
      DrawsPeer (cloud.argv broker) (s.broker broker) (.recv (some []) draws)
  | .lose _ => False
  | _ => True

instance (cloud : Topology) (s : SystemState) (e : SystemEvent) : Decidable (Fair cloud s e) := by
  unfold Fair
  split <;> infer_instance

/-- The cloud when nothing goes wrong. -/
def fairCloud (cloud : Topology) : Machine SystemState SystemEvent SystemOutput :=
  (system cloud).restrict (Fair cloud)

/-- A worker becomes available. -/
def LcflowState.available (b : LcflowState) (worker : Frame) : LcflowState :=
  { b with workers := b.workers ++ [worker], capacity := b.capacity + 1 }

/-- What a broker makes of a message it has read. -/
inductive Relays (cloud : Topology) (name : Frame) (b : LcflowState) :
    Loc → Parcel → LcflowState → Network Loc Parcel → Prop
  | ready (worker : Frame) (frames : Zmsg) :
      Relays cloud name b (.localbe name worker) ⟨frames, none⟩ (b.available worker).innerLoop []
  | answered (worker client : Frame) (frames answer : Zmsg) (request : Request) :
      Relays cloud name b (.localbe name worker) ⟨frames, some request⟩
        (b.available worker).innerLoop [(.client name client, ⟨answer, some request⟩)]
  | sentBack (worker peer : Frame) (listed : peer ∈ cloud.peers name) (frames answer : Zmsg)
      (request : Request) :
      Relays cloud name b (.localbe name worker) ⟨frames, some request⟩
        (b.available worker).innerLoop [(.cloudbe peer name, ⟨answer, some request⟩)]
  | cameBack (peer client : Frame) (frames answer : Zmsg) (request : Request) :
      Relays cloud name b (.cloudbe name peer) ⟨frames, some request⟩ b.innerLoop
        [(.client name client, ⟨answer, some request⟩)]
  | handed {loc : Loc} {peer : Frame} (waits : loc = .localfe name peer ∨ loc = .cloudfe name peer)
      (worker : Frame) {workers : List Frame} (first : b.workers = worker :: workers)
      (frames handed : Zmsg) (request : Request) :
      Relays cloud name b loc ⟨frames, some request⟩
        { b with workers := workers, capacity := b.capacity - 1 }.innerLoop
        [(.worker name worker, ⟨handed, some request⟩)]
  | crossed (client peer : Frame) (listed : peer ∈ cloud.peers name) (frames sent : Zmsg)
      (request : Request) :
      Relays cloud name b (.localfe name client) ⟨frames, some request⟩ b.innerLoop
        [(.cloudfe peer name, ⟨sent, some request⟩)]

section

variable {cloud : Topology} {name peer : Frame} {b next : LcflowState} {loc : Loc}
  {parcel : Parcel} {draws : Draws} {effects : List LcflowEffect}

/-- A worker that announces itself becomes available. -/
theorem onLocalbe_announced (argv : Argv) (b : LcflowState) (worker : Frame) :
    onLocalbe argv b [worker, [], workerReady] = ((b.available worker).innerLoop, []) := by
  have ready : Frame.startsWith workerReady 1 = true := rfl
  simp [onLocalbe, Zmsg.unwrap, Zmsg.first, ready, routeReply_none, LcflowState.available]

/-- A worker that answers becomes available, and its answer goes on. -/
theorem onLocalbe_answered (argv : Argv) (b : LcflowState) (worker : Frame) {first : Frame}
    (notReady : Frame.startsWith first 1 = false) (rest : Zmsg) :
    onLocalbe argv b (worker :: [] :: first :: rest) =
      ((b.available worker).innerLoop,
        if first ∈ argv.peers then [.toCloudfe (first :: rest)]
        else [.toLocalfe (first :: rest)]) := by
  simp [onLocalbe, Zmsg.unwrap, Zmsg.first, notReady, routeReply_cons, LcflowState.available]

theorem onCloudbe_answered (argv : Argv) (b : LcflowState) (peer : Frame) {first : Frame}
    (hne : first ≠ []) (rest : Zmsg) :
    onCloudbe argv b (peer :: first :: rest) =
      (b.innerLoop,
        if first ∈ argv.peers then [.toCloudfe (first :: rest)]
        else [.toLocalfe (first :: rest)]) := by
  simp [onCloudbe, Zmsg.unwrap_of_ne_nil hne, routeReply_cons]

/-- An announcement of a worker, or its answer to a request. -/
theorem Topology.relays_localbe (hname : name ∈ cloud.names)
    (carries : cloud.Carries (.localbe name peer) parcel)
    (read : onLocalbe (cloud.argv name) b (peer :: parcel.frames) = (next, effects)) :
    Relays cloud name b (.localbe name peer) parcel next
      (effects.filterMap (cloud.route name parcel.request)) := by
  obtain ⟨frames, request⟩ := parcel
  cases request with
  | none =>
      obtain ⟨_, _, -, hframes⟩ := carries
      dsimp only at hframes read
      rw [hframes, onLocalbe_announced] at read
      cases read
      exact .ready peer frames
  | some request =>
      obtain ⟨made, addresses, body, addressed, answer, hframes⟩ := carries
      dsimp only at hframes read
      rw [hframes] at read
      cases addressed with
      | here origin =>
          rw [List.singleton_append, onLocalbe_answered _ _ _ made.client.2.1, cloud.argv_peers,
            if_neg (made.client.not_mem_peers hname)] at read
          cases read
          exact .answered peer request.client frames body request
      | peer listed =>
          have named := cloud.named _ made.origin
          have connected := (cloud.listed name hname _ listed).2
          rw [List.cons_append, onLocalbe_answered _ _ _ named.2, cloud.argv_peers,
            if_pos listed] at read
          cases read
          simp only [List.filterMap_cons, List.filterMap_nil, Topology.route, if_pos connected]
          exact .sentBack peer request.origin listed frames _ request

/-- A peer's answer goes to the client. -/
theorem Topology.relays_cloudbe (hname : name ∈ cloud.names)
    (carries : cloud.Carries (.cloudbe name peer) parcel)
    (read : onCloudbe (cloud.argv name) b (peer :: parcel.frames) = (next, effects)) :
    Relays cloud name b (.cloudbe name peer) parcel next
      (effects.filterMap (cloud.route name parcel.request)) := by
  obtain ⟨request, about, made, origin, body, answer, hframes⟩ :=
    carries.exists_request (by simp)
  obtain ⟨frames, _⟩ := parcel
  obtain rfl := about
  dsimp only at hframes read
  rw [hframes, onCloudbe_answered _ _ _ made.client.1, cloud.argv_peers,
    if_neg (made.client.not_mem_peers hname)] at read
  cases read
  exact .cameBack peer request.client frames body request

/-- A request goes to the first worker of the list. -/
theorem Topology.relays_toWorker (carries : cloud.Carries loc parcel)
    (waits : loc = .localfe name peer ∨ loc = .cloudfe name peer) (some_worker : b.workers ≠ [])
    {msg : Zmsg} (read : toWorker b msg = (next, effects)) :
    Relays cloud name b loc parcel next
      (effects.filterMap (cloud.route name parcel.request)) := by
  have away : ∀ broker worker, loc ≠ .localbe broker worker := by
    rcases waits with rfl | rfl <;> simp
  obtain ⟨request, about, -⟩ := carries.exists_request away
  obtain ⟨frames, _⟩ := parcel
  obtain rfl := about
  obtain ⟨worker, workers, first⟩ := List.exists_cons_of_ne_nil some_worker
  simp only [toWorker, first] at read
  cases read
  exact .handed waits worker first frames _ request

/-- A request of a client goes to a worker or to a peer. -/
theorem Topology.relays_localfe
    (carries : cloud.Carries (.localfe name peer) parcel) (some_worker : b.workers ≠ [])
    (draws_peer : cloud.peers name ≠ [] → randof 5 draws.reroute = 0 →
      randof (cloud.peers name).length draws.peer < (cloud.peers name).length)
    (read : onLocalfe (cloud.argv name) b (peer :: parcel.frames) draws = (next, effects)) :
    Relays cloud name b (.localfe name peer) parcel next
      (effects.filterMap (cloud.route name parcel.request)) := by
  by_cases reroute : (cloud.argv name).peers ≠ [] ∧ randof 5 draws.reroute = 0
  · have below := draws_peer reroute.1 reroute.2
    have listed := List.getElem_mem below
    obtain ⟨request, about, -⟩ := carries.exists_request (by simp)
    obtain ⟨frames, _⟩ := parcel
    obtain rfl := about
    have drawn : (cloud.argv name).peers[randof (cloud.argv name).peers.length draws.peer]? =
        some (cloud.peers name)[randof (cloud.peers name).length draws.peer] :=
      List.getElem?_eq_getElem below
    simp only [onLocalfe, if_pos reroute, drawn] at read
    cases read
    simp only [List.filterMap_cons, List.filterMap_nil, Topology.route, Zmsg.push, if_pos listed]
    exact .crossed peer _ listed frames _ request
  · simp only [onLocalfe, if_neg reroute] at read
    exact cloud.relays_toWorker carries (Or.inl rfl) some_worker read

/-- Whatever a broker reads, it makes one message of it, or a worker becomes available. -/
theorem Topology.Carries.relays (carries : cloud.Carries loc parcel) (hname : name ∈ cloud.names)
    (inbox : b.pc.inbox name peer = some loc) (accounted : Accounted b)
    (draws_peer : DrawsPeer (cloud.argv name) b (.recv (some []) draws))
    (taken : lcflowStep (cloud.argv name) b (.recv (some (peer :: parcel.frames)) draws) =
      some (next, effects)) :
    Relays cloud name b loc parcel next
      (effects.filterMap (cloud.route name parcel.request)) := by
  cases pc : b.pc with
  | localbe =>
      simp only [pc, LcflowPc.inbox, Option.some.injEq] at inbox
      subst inbox
      simp only [lcflowStep, pc, Option.some.injEq] at taken
      exact cloud.relays_localbe hname carries taken
  | cloudbe =>
      simp only [pc, LcflowPc.inbox, Option.some.injEq] at inbox
      subst inbox
      simp only [lcflowStep, pc, Option.some.injEq] at taken
      exact cloud.relays_cloudbe hname carries taken
  | cloudfe =>
      simp only [pc, LcflowPc.inbox, Option.some.injEq] at inbox
      subst inbox
      simp only [lcflowStep, pc, Option.some.injEq] at taken
      have some_worker := accounted.inner (Or.inr (Or.inl pc))
      exact cloud.relays_toWorker carries (Or.inr rfl) some_worker taken
  | localfe =>
      simp only [pc, LcflowPc.inbox, Option.some.injEq] at inbox
      subst inbox
      simp only [lcflowStep, pc, Option.some.injEq] at taken
      have some_worker := accounted.inner (Or.inr (Or.inr pc))
      exact cloud.relays_localfe carries some_worker (draws_peer pc) taken
  | _ => simp [pc, LcflowPc.inbox] at inbox

end

/-- A broker goes on, and where it receives a message has come. -/
def Open (net : Network Loc Parcel) (broker : Frame) : LcflowPc → Prop
  | .pollBackends => True
  | .pollFrontends => True
  | .stopped => False
  | .aborted => False
  | pc => readable net broker pc = true

/-- What can happen when nothing goes wrong. -/
inductive Moves (cloud : Topology) (s : SystemState) :
    SystemEvent → SystemState → List SystemOutput → Prop
  | clientSend (broker client : Frame) (body : Zmsg) (hbroker : broker ∈ cloud.names) :
      Moves cloud s (.clientSend broker client body) (s.clientSend broker client body).1
        (s.clientSend broker client body).2
  | clientRecv (broker client : Frame) {parcel : Parcel} {left : Network Loc Parcel}
      (found : s.net.recv (.client broker client) = some (parcel, left)) :
      Moves cloud s (.clientRecv broker client) { s with net := left }
        [.answered broker client parcel]
  | workerStart (broker worker : Frame) (hbroker : broker ∈ cloud.names)
      (unstarted : s.started (broker, worker) = false) :
      Moves cloud s (.workerStart broker worker)
        { s with
          started := Function.update s.started (broker, worker) true
          net := s.net.send (.localbe broker worker) ⟨[[], workerReady], none⟩ } []
  | workerTakes (broker worker : Frame) {frames : Zmsg} {request : Option Request}
      {left : Network Loc Parcel}
      (found : s.net.recv (.worker broker worker) = some (⟨[] :: frames, request⟩, left)) :
      Moves cloud s (.workerTakes broker worker)
        { s with net := left.send (.working broker worker) ⟨frames, request⟩ } []
  | workerAnswers (broker worker last : Frame) {parcel : Parcel} {left : Network Loc Parcel}
      (found : s.net.recv (.working broker worker) = some (parcel, left)) (answer : Zmsg) :
      Moves cloud s (.workerAnswers broker worker last)
        { s with net := left.send (.localbe broker worker) ⟨answer, parcel.request⟩ } []
  | poll (broker : Frame) (e : LcflowEvent) {pc : LcflowPc} (goes : Open s.net broker pc)
      (accounted : Accounted { s.broker broker with pc := pc }) :
      Moves cloud s (.poll broker e)
        { s with
          broker := Function.update s.broker broker { s.broker broker with pc := pc } } []
  | recv (broker peer : Frame) (draws : Draws) (hbroker : broker ∈ cloud.names) {loc : Loc}
      {parcel : Parcel} {left new : Network Loc Parcel} {next : LcflowState}
      (inbox : (s.broker broker).pc.inbox broker peer = some loc)
      (found : s.net.recv loc = some (parcel, left))
      (relays : Relays cloud broker (s.broker broker) loc parcel next new) :
      Moves cloud s (.recv broker peer draws)
        { s with broker := Function.update s.broker broker next, net := left ++ new }
        (new.filterMap note)

section

variable {cloud : Topology} {s t : SystemState} {e : SystemEvent} {os out : List SystemOutput}
  {broker worker client peer last : Frame} {b : LcflowState} {net : Network Loc Parcel}

theorem goes_innerLoop : Open net broker b.innerLoop.pc := by
  unfold LcflowState.innerLoop
  dsimp only
  split <;> trivial

/-- A poll sends a broker where a message has come. -/
theorem Fair.goes {e : LcflowEvent} (fair : Fair cloud s (.poll broker e)) {next : LcflowState}
    {effects : List LcflowEffect}
    (taken : lcflowStep (cloud.argv broker) (s.broker broker) e = some (next, effects)) :
    effects = [] ∧ ∃ pc, next = { s.broker broker with pc := pc } ∧ Open s.net broker pc := by
  cases e with
  | recv msg draws => exact fair.elim
  | pollBackends rc =>
      obtain ⟨rfl, -⟩ := fair
      cases pc : (s.broker broker).pc with
      | pollBackends =>
          simp only [lcflowStep, pc, routeReply_none] at taken
          split at taken
          case isTrue come =>
            cases taken
            exact ⟨rfl, .localbe, rfl, come⟩
          case isFalse =>
            split at taken
            case isTrue come =>
              cases taken
              exact ⟨rfl, .cloudbe, rfl, come⟩
            case isFalse =>
              cases taken
              exact ⟨rfl, _, rfl, goes_innerLoop⟩
      | _ => simp [lcflowStep, pc] at taken
  | pollFrontends rc =>
      obtain rfl := fair
      cases pc : (s.broker broker).pc with
      | pollFrontends =>
          simp only [lcflowStep, pc] at taken
          split at taken
          case isTrue come =>
            cases taken
            exact ⟨rfl, .cloudfe, rfl, come⟩
          case isFalse =>
            split at taken
            case isTrue come =>
              cases taken
              exact ⟨rfl, .localfe, rfl, come⟩
            case isFalse =>
              cases taken
              exact ⟨rfl, .pollBackends, rfl, trivial⟩
      | _ => simp [lcflowStep, pc] at taken

theorem moves_of_workerTakes (sound : Sound cloud os s)
    (taken : s.workerTakes broker worker = some t) :
    Moves cloud s (.workerTakes broker worker) t [] := by
  unfold SystemState.workerTakes at taken
  split at taken
  case isFalse => cases taken
  case isTrue =>
    split at taken
    case h_1 frames request left found =>
      cases taken
      exact .workerTakes broker worker found
    case h_2 parcel left other found =>
      have carries := sound.carries _ (Network.mem_of_recv found)
      obtain ⟨request, about, made, addresses, addressed, hframes⟩ :=
        carries.exists_request (by simp)
      obtain ⟨frames, _⟩ := parcel
      dsimp only at hframes
      subst hframes
      exact (other _ _ rfl).elim
    case h_3 => cases taken

theorem moves_of_workerAnswers (taken : s.workerAnswers broker worker last = some t) :
    Moves cloud s (.workerAnswers broker worker last) t [] := by
  unfold SystemState.workerAnswers at taken
  split at taken
  case h_1 parcel left found =>
    cases taken
    exact .workerAnswers broker worker last found _
  case h_2 => cases taken

/-- A broker reads a message. -/
theorem moves_of_recv (sound : Sound cloud os s) (accounted : Accounted (s.broker broker))
    (hbroker : broker ∈ cloud.names) {draws : Draws}
    (fair : Fair cloud s (.recv broker peer draws))
    (taken : cloud.recv s broker peer draws = some (t, out)) :
    Moves cloud s (.recv broker peer draws) t out := by
  unfold Topology.recv at taken
  split at taken
  case h_1 => cases taken
  case h_2 loc inbox =>
    split at taken
    case h_1 => cases taken
    case h_2 parcel left found =>
      have carries := sound.carries _ (Network.mem_of_recv found)
      unfold Topology.stepBroker at taken
      split at taken
      case h_1 => cases taken
      case h_2 next effects hstep =>
        cases taken
        exact .recv broker peer draws hbroker inbox found
          (carries.relays hbroker inbox accounted fair hstep)

/-- Every step, when nothing goes wrong, is one of the listed ones. -/
theorem moves_of_step (sound : Sound cloud os s)
    (accounted : ∀ name, Accounted (s.broker name)) (fair : Fair cloud s e)
    (taken : systemStep cloud s e = some (t, out)) : Moves cloud s e t out := by
  cases e with
  | clientSend broker client body =>
      simp only [systemStep, Option.ite_none_right_eq_some, Option.some.injEq] at taken
      obtain ⟨⟨hbroker, -, -⟩, sent⟩ := taken
      have moves := Moves.clientSend (s := s) broker client body hbroker
      rwa [sent] at moves
  | clientRecv broker client =>
      simp only [systemStep] at taken
      split at taken
      case h_1 => cases taken
      case h_2 parcel left found =>
        cases taken
        exact .clientRecv broker client found
  | workerStart broker worker =>
      simp only [systemStep, Option.ite_none_right_eq_some, Option.some.injEq,
        Prod.mk.injEq] at taken
      obtain ⟨⟨hbroker, unstarted⟩, rfl, rfl⟩ := taken
      exact .workerStart broker worker hbroker unstarted
  | workerTakes broker worker =>
      simp only [systemStep, Option.map_eq_some_iff, Prod.mk.injEq] at taken
      obtain ⟨u, takes, rfl, rfl⟩ := taken
      exact moves_of_workerTakes sound takes
  | workerAnswers broker worker last =>
      simp only [systemStep, Option.map_eq_some_iff, Prod.mk.injEq] at taken
      obtain ⟨u, answers, rfl, rfl⟩ := taken
      exact moves_of_workerAnswers answers
  | poll broker e =>
      simp only [systemStep, Option.ite_none_right_eq_some] at taken
      obtain ⟨-, polled⟩ := taken
      unfold Topology.stepBroker at polled
      split at polled
      case h_1 => cases polled
      case h_2 next effects hstep =>
        obtain ⟨rfl, pc, rfl, goes⟩ := fair.goes hstep
        cases polled
        rw [List.filterMap_nil, List.append_nil]
        exact .poll broker e goes ((accounted broker).step hstep)
  | recv broker peer draws =>
      simp only [systemStep, Option.ite_none_right_eq_some] at taken
      obtain ⟨hbroker, received⟩ := taken
      exact moves_of_recv sound (accounted broker) hbroker fair received
  | lose index => exact fair.elim

end

end ZmqTest.Cloud
