import Octo.Foundation.Split

/-!
# Flows, callers and the flow-event bus

`boundFlow.handle`, `flowRegistry.Call`, the http and queue sources and the bus they all listen
on, as one system that moves in small steps.  Every place where the code waits, locks or sends is
a step of its own, and an `Action` says which party moves next, so a list of actions is an
interleaving.  What a flow does with a message is open: while it runs it may send any number of
sub-messages with `flow-ref`, `queue-dispatch` and `publish-event`, from any of its goroutines.

An event id is drawn by `NewMessage` or `Rekey`; a drawn id is one that was not drawn before.
-/

namespace Octo.Runtime.Bus

open Octo.Foundation.Split

/-! ## Messages and events -/

/-- Its event id, and everything else. -/
structure Message (δ : Type) where
  eventID : String
  data : δ
deriving DecidableEq

/-- How far a flow is with a message. -/
inductive FlowEventKind where
  | started
  | completed
  | failed
  | dropped
deriving DecidableEq

/-- `core.FlowEvent`. -/
structure FlowEvent (δ : Type) where
  kind : FlowEventKind
  flow : String
  eventID : String
  err : Option String
  result : Option (Message δ)
deriving DecidableEq

/-- The pending maps that listen on the bus: the flow registry, and one for each http and each
queue connector. -/
inductive Registry where
  | calls
  | http (connector : String)
  | queue (connector : String)
deriving DecidableEq

/-- What a listener hands to a parked caller: `callResult`, or `result` with the event's kind. -/
structure Reply (δ : Type) where
  kind : Option FlowEventKind
  msg : Option (Message δ)
  err : Option String
deriving DecidableEq

section

variable {δ : Type}

/-- The reply `onFlowEvent` makes from an event. -/
def replyOf : Registry → FlowEvent δ → Reply δ
  | .calls, ev =>
    match ev.kind with
    | .completed => ⟨none, ev.result, none⟩
    | .failed => ⟨none, none, ev.err⟩
    | _ => ⟨none, none, none⟩
  | .http _, ev | .queue _, ev => ⟨some ev.kind, ev.result, ev.err⟩

/-! ## Parties -/

/-- Where a caller stands. -/
inductive CallerPhase (δ : Type) where
  | sending
  | waiting
  | returned (reply : Option (Reply δ))
deriving DecidableEq

/-- `flowRegistry.Call`, or the handler of an http or queue source: it tracks the event id of its
message, sends the message to a flow and waits.  `reply` is its channel, of capacity one; `owner`
is the handling it belongs to, for a `flow-ref` block. -/
structure Caller (δ : Type) where
  registry : Registry
  flow : String
  message : Message δ
  owner : Option Nat
  phase : CallerPhase δ
  reply : Option (Reply δ)
deriving DecidableEq

/-- Where `boundFlow.handle` stands: in the flow, or publishing its terminal event to the
subscribers one by one, where `delivering` holds the channel a listener looked up. -/
inductive HandlingPhase (δ : Type) where
  | running
  | publishing (ev : FlowEvent δ) (subscribers : List Registry)
  | delivering (ev : FlowEvent δ) (registry : Registry) (caller : Nat)
      (subscribers : List Registry)
deriving DecidableEq

/-- One run of `boundFlow.handle`. -/
structure Handling (δ : Type) where
  flow : String
  message : Message δ
  phase : HandlingPhase δ
deriving DecidableEq

/-- The whole process.  `channels` are the input channels of the flows and `queues` the queue
subjects, each as one list in sending order; `topics` are the broadcast deliveries; `events` is
everything published on the bus so far. -/
structure State (δ : Type) where
  issued : List String
  channels : List (String × Message δ)
  queues : List (String × Message δ)
  topics : List (Message δ)
  callers : List (Caller δ)
  handlings : List (Handling δ)
  pending : Registry → String → Option Nat
  events : List (FlowEvent δ)

/-- Nothing has been drawn, sent or published. -/
def initial : State δ where
  issued := []
  channels := []
  queues := []
  topics := []
  callers := []
  handlings := []
  pending := fun _ _ => none
  events := []

/-- How deep the channel of a flow is, and how many workers read it. -/
structure Tuning where
  buffer : String → Nat
  workers : String → Nat

/-! ## Steps -/

/-- What draws an event id, with where its message goes. -/
inductive Origin (δ : Type) where
  | timer (flow : String) (data : δ)
  /-- A one-way `flow-ref`. -/
  | refSend (handling : Nat) (flow : String) (data : δ)
  /-- `queue-dispatch`. -/
  | dispatch (handling : Nat) (subject : String) (data : δ)
  /-- `publish-event`. -/
  | publish (handling : Nat) (data : δ)
  | event (delivery : Nat) (flow : String)
  /-- `flowRegistry.Call` from outside any flow. -/
  | call (flow : String) (data : δ)
  /-- A two-way `flow-ref`. -/
  | refCall (handling : Nat) (flow : String) (data : δ)
  | request (connector : String) (flow : String) (data : δ)

/-- Which party moves, and what the outside decides for it. -/
inductive Action (δ : Type) where
  | create (id : String) (origin : Origin δ)
  | consume (connector subject flow : String)
  | send (caller : Nat)
  | receive (caller : Nat)
  | giveUp (caller : Nat)
  | take (flow : String)
  /-- The flow ends; `data` is what it made of the message, `subscribers` the bus at that time. -/
  | finish (handling : Nat) (kind : FlowEventKind) (data : δ) (err : String)
      (subscribers : List Registry)
  | lookup (handling : Nat)
  | deliver (handling : Nat)

variable (s : State δ)

/-- Register the reply channel of a new caller. -/
def State.track (caller : Caller δ) : State δ := { s with
    callers := s.callers ++ [caller]
    pending := fun r e =>
      if r = caller.registry ∧ e = caller.message.eventID then some s.callers.length
      else s.pending r e }

/-- Remove the pending entry of a caller. -/
def State.forget (caller : Caller δ) : State δ := { s with
    pending := fun r e =>
      if r = caller.registry ∧ e = caller.message.eventID then none else s.pending r e }

/-- Whether a handling is still in its flow. -/
def State.isRunning (h : Nat) : Bool := match s.handlings[h]? with
  | some ⟨_, _, .running⟩ => true
  | _ => false

/-- A caller that has not sent its message yet. -/
def newCaller (registry : Registry) (flow : String) (message : Message δ) (owner : Option Nat) :
    Caller δ :=
  ⟨registry, flow, message, owner, .sending, none⟩

variable (t : Tuning)

/-- A send into the channel of a flow, when that has room. -/
def State.push (s : State δ) (flow : String) (m : Message δ) : Option (State δ) :=
  if s.channels.countP (·.1 = flow) < t.buffer flow then
    some { s with channels := s.channels ++ [(flow, m)] }
  else none

/-- A new message under this id. -/
def create (s : State δ) (id : String) : Origin δ → Option (State δ)
  | .timer flow data => s.push t flow ⟨id, data⟩
  | .refSend h flow data => if s.isRunning h then s.push t flow ⟨id, data⟩ else none
  | .dispatch h subject data =>
    if s.isRunning h then some { s with queues := s.queues ++ [(subject, ⟨id, data⟩)] } else none
  | .publish h data =>
    if s.isRunning h then some { s with topics := s.topics ++ [⟨id, data⟩] } else none
  | .event i flow => s.topics[i]?.bind fun m => s.push t flow { m with eventID := id }
  | .call flow data => some (s.track (newCaller .calls flow ⟨id, data⟩ none))
  | .refCall h flow data =>
    if s.isRunning h then some (s.track (newCaller .calls flow ⟨id, data⟩ (some h))) else none
  | .request connector flow data =>
    some (s.track (newCaller (.http connector) flow ⟨id, data⟩ none))

def startedEvent (flow : String) (m : Message δ) : FlowEvent δ :=
  ⟨.started, flow, m.eventID, none, none⟩

def terminalEvent (h : Handling δ) (kind : FlowEventKind) (data : δ) (err : String) : FlowEvent δ :=
  ⟨kind, h.flow, h.message.eventID, if kind = .failed then some err else none,
    some { h.message with data := data }⟩

/-- Whether a handling still occupies its worker. -/
def Handling.active (h : Handling δ) : Bool := match h.phase with
  | .publishing _ [] => false
  | _ => true

/-- A flow ends after its own calls have returned. -/
def State.callsReturned (h : Nat) : Bool :=
  s.callers.all fun c => c.owner ≠ some h || match c.phase with
    | .returned _ => true
    | _ => false

/-- The caller a listener finds for an event; a started event is passed over. -/
def State.listener (r : Registry) (ev : FlowEvent δ) : Option Nat :=
  if ev.kind = .started then none else s.pending r ev.eventID

/-- `onFlowEvent` after its lookup: a send that never blocks. -/
def Caller.offer (c : Caller δ) (r : Reply δ) : Caller δ := match c.reply with
  | none => { c with reply := some r }
  | some _ => c

/-- `send` into the flow's channel, which blocks while that is full. -/
def send (s : State δ) (i : Nat) : Option (State δ) := s.callers[i]?.bind fun c =>
  match c.phase with
  | .sending =>
    { s with callers := s.callers.set i { c with phase := .waiting } }.push t c.flow c.message
  | _ => none

variable (i : Nat)

/-- The caller takes its reply and returns. -/
def receive : Option (State δ) := s.callers[i]?.bind fun c => match c.phase, c.reply with
  | .waiting, some r =>
    some ({ s with
      callers := s.callers.set i { c with phase := .returned (some r), reply := none } }.forget c)
  | _, _ => none

/-- The caller's context ends first. -/
def giveUp : Option (State δ) := s.callers[i]?.bind fun c => match c.phase with
  | .returned _ => none
  | _ => some ({ s with callers := s.callers.set i { c with phase := .returned none } }.forget c)

/-- `source.handle` of a queue source: the message keeps its id. -/
def consume (connector subject flow : String) : Option (State δ) :=
  (takeFirst (·.1 = subject) s.queues).bind fun ((_, m), rest) =>
    some ({ s with queues := rest }.track (newCaller (.queue connector) flow m none))

/-- A free worker of the flow takes the next message and publishes that it started. -/
def take (s : State δ) (flow : String) : Option (State δ) :=
  if s.handlings.countP (fun h => h.flow = flow && h.active) < t.workers flow then
    (takeFirst (·.1 = flow) s.channels).bind fun ((_, m), rest) => some { s with
      channels := rest
      handlings := s.handlings ++ [⟨flow, m, .running⟩]
      events := s.events ++ [startedEvent flow m] }
  else none

/-- The flow ends, after its own calls, and publishes its terminal event. -/
def finish (kind : FlowEventKind) (data : δ) (err : String)
    (subscribers : List Registry) : Option (State δ) :=
  s.handlings[i]?.bind fun h => match h.phase with
  | .running =>
    if kind ≠ .started ∧ s.callsReturned i then
      let ev := terminalEvent h kind data err
      some { s with
        handlings := s.handlings.set i { h with phase := .publishing ev subscribers }
        events := s.events ++ [ev] }
    else none
  | _ => none

/-- The next subscriber looks up the caller that waits for the event. -/
def lookup : Option (State δ) := s.handlings[i]?.bind fun h => match h.phase with
  | .publishing ev (r :: rest) =>
    let phase := match s.listener r ev with
      | none => .publishing ev rest
      | some c => .delivering ev r c rest
    some { s with handlings := s.handlings.set i { h with phase := phase } }
  | _ => none

/-- The reply goes into the channel that was looked up. -/
def deliver : Option (State δ) := s.handlings[i]?.bind fun h => match h.phase with
  | .delivering ev r c rest =>
    some { s with
      handlings := s.handlings.set i { h with phase := .publishing ev rest }
      callers := s.callers.modify c (·.offer (replyOf r ev)) }
  | _ => none

/-- One move, when it is possible. -/
def step (s : State δ) : Action δ → Option (State δ)
  | .create id origin =>
    if id ∈ s.issued then none else create t { s with issued := id :: s.issued } id origin
  | .consume connector subject flow => consume s connector subject flow
  | .send i => send t s i
  | .receive i => receive s i
  | .giveUp i => giveUp s i
  | .take flow => take t s flow
  | .finish i kind data err subscribers => finish s i kind data err subscribers
  | .lookup i => lookup s i
  | .deliver i => deliver s i

/-- The moves of an interleaving one after another. -/
def run (t : Tuning) : State δ → List (Action δ) → Option (State δ)
  | s, [] => some s
  | s, a :: rest => (step t s a).bind fun s' => run t s' rest

end

end Octo.Runtime.Bus
