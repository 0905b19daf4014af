import Mathlib.Logic.Function.Basic
import Octo.Foundation.Trace

/-!
# Shutting down while messages are in flight

The flows of a service, the workers that run them, the `flow-ref` calls between them and the
goroutine of `Service.Run`, as one system that moves in small steps.  What a flow does with a message
is open (`System.next`): it takes steps, refers to other flows from any of its goroutines, and ends.
It does not see the context; `flowRegistry.Call` and `Send` do.

Messages come from the sources and from calls.  Once the context is cancelled, `Service.Run` stops the
flows one after the other: it stops the source, closes the channel, waits for the workers.
-/

namespace Octo.Runtime.Drain

open Function

/-! ## Flows -/

/-- Its event id, and everything else. -/
structure Message (δ : Type) where
  id : Nat
  data : δ
deriving DecidableEq

inductive Kind where
  | completed
  | failed
  | dropped
deriving DecidableEq

/-- How a flow ends with a message, and what a call of it returns. -/
inductive Outcome (δ : Type) where
  | completed (data : δ)
  | failed (err : String)
  | dropped
deriving DecidableEq

def Outcome.kind {δ : Type} : Outcome δ → Kind
  | .completed _ => .completed
  | .failed _ => .failed
  | .dropped => .dropped

/-- What a flow does next: a step of its own, a `flow-ref` from the goroutine `tag` with the data of the
sub-message, or its end. -/
inductive Cmd (β δ : Type) where
  | step (state : β)
  | ref (oneWay : Bool) (tag : Nat) (flow : String) (data : δ) (state : β)
  | finish (outcome : Outcome δ)

/-- `boundFlow`, as far as its channel and its workers go. -/
structure FlowSpec where
  name : String
  implicit : Bool
  buffer : Nat
  workers : Nat
  buffer_pos : 0 < buffer
  workers_pos : 0 < workers

/-- The flows of a service, and their code: `start` with a message, `next` with a choice, `resume`
of a goroutine with the outcome of its `flow-ref`. -/
structure System (β δ : Type) where
  flows : List FlowSpec
  start : Nat → δ → β
  next : Nat → Nat → β → Option (Cmd β δ)
  resume : Nat → Nat → Outcome δ → β → β

namespace System

variable {β δ : Type} (sys : System β δ)

def named (name : String) : Option Nat := sys.flows.findIdx? fun f => f.implicit && f.name = name

def buffer (flow : Nat) : Nat := (sys.flows[flow]?.map FlowSpec.buffer).getD 0

def workers (flow : Nat) : Nat := (sys.flows[flow]?.map FlowSpec.workers).getD 0

def implicit (flow : Nat) : Bool := (sys.flows[flow]?.map FlowSpec.implicit).getD false

/-- The implicit flows first. -/
def orderForStart : List Nat := (List.range sys.flows.length).filter sys.implicit ++
    (List.range sys.flows.length).filter (!sys.implicit ·)

end System

/-! ## State -/

/-- Where a `flow-ref` call stands. -/
inductive CallPhase (δ : Type) where
  | looking
  | sending (flow : Nat)
  | waiting (flow : Nat)
  | returned (outcome : Outcome δ)
deriving DecidableEq

/-- Or `Send` of a one-way `flow-ref`, by the goroutine `tag` of a handling. `reply` is its channel,
of capacity one. -/
structure Call (δ : Type) where
  owner : Nat
  tag : Nat
  oneWay : Bool
  flow : String
  message : Message δ
  phase : CallPhase δ
  reply : Option (Outcome δ)
deriving DecidableEq

/-- One run of `boundFlow.handle`. -/
structure Handling (β δ : Type) where
  flow : Nat
  message : Message δ
  state : β
  done : Bool

structure Event (δ : Type) where
  flow : Nat
  message : Message δ
  outcome : Outcome δ
deriving DecidableEq

/-- The work in a service: its channels, what its workers run, the calls between flows and the terminal
events so far. -/
structure Work (β δ : Type) where
  nextID : Nat
  channel : Nat → List (Message δ)
  handlings : List (Handling β δ)
  calls : List (Call δ)
  events : List (Event δ)

/-- Where `Service.Run` stands: before `<-ctx.Done()`, in `stopFlows` with the flows still to stop, in
`boundFlow.stop` before the close or at the wait, or back. -/
inductive Main where
  | serving
  | stopping (flows : List Nat)
  | closing (flow : Nat) (rest : List Nat)
  | waiting (flow : Nat) (rest : List Nat)
  | returned
deriving DecidableEq

/-- The whole service.  `accepted` are the messages a channel took before the cancellation. -/
structure State (β δ : Type) where
  work : Work β δ
  cancelled : Bool
  main : Main
  stopped : Nat → Bool
  closed : Nat → Bool
  accepted : List (Nat × Message δ)

section

variable {β δ : Type}

def initial : State β δ where
  work := ⟨0, fun _ => [], [], [], []⟩
  cancelled := false
  main := .serving
  stopped := fun _ => false
  closed := fun _ => false
  accepted := []

/-! ## Steps -/

inductive Action (δ : Type) where
  /-- The source of a flow, or a caller outside, puts a message on its channel. -/
  | accept (flow : Nat) (data : δ)
  | take (flow : Nat)
  /-- A handling goes on, with a choice of the scheduler and of what its blocks do. -/
  | move (handling choice : Nat)
  | lookup (call : Nat)
  | push (call : Nat)
  | gone (call : Nat)
  | giveUp (call : Nat)
  | receive (call : Nat)
  | cancel
  /-- `Service.Run` goes on after `<-ctx.Done()`. -/
  | shutdown
  | stopSource (failed : Bool)
  | close
  | await
  /-- `Service.Run` returns. -/
  | leave
deriving DecidableEq

namespace Work

variable (sys : System β δ) (w : Work β δ)

def busy (flow : Nat) : Nat := w.handlings.countP fun h => h.flow = flow && !h.done

def enqueue (flow : Nat) (m : Message δ) : Work β δ :=
  { w with channel := update w.channel flow (w.channel flow ++ [m]) }

def answer (i : Nat) (c : Call δ) (o : Outcome δ) : Work β δ := { w with
    calls := w.calls.set i { c with phase := .returned o }
    handlings := w.handlings.modify c.owner fun h =>
      { h with state := sys.resume h.flow c.tag o h.state } }

/-- `onFlowEvent`: a parked caller gets the outcome of its message. -/
def offer (id : Nat) (o : Outcome δ) (c : Call δ) : Call δ := match c.phase with
  | .returned _ => c
  | _ => if c.message.id = id then { c with reply := c.reply.or (some o) } else c

def execute (i : Nat) (h : Handling β δ) : Cmd β δ → Work β δ
  | .step b => { w with handlings := w.handlings.set i { h with state := b } }
  | .ref oneWay tag flow data b =>
    { w with
      nextID := w.nextID + 1
      handlings := w.handlings.set i { h with state := b }
      calls := w.calls ++ [⟨i, tag, oneWay, flow, ⟨w.nextID, data⟩, .looking, none⟩] }
  | .finish o =>
    { w with
      handlings := w.handlings.set i { h with done := true }
      calls := w.calls.map (offer h.message.id o)
      events := w.events ++ [⟨h.flow, h.message, o⟩] }

end Work

def aboutFlow (what flow why : String) : String := what ++ " \"" ++ flow ++ "\"" ++ why

def State.took (s : State β δ) (flow : Nat) (m : Message δ) : List (Nat × Message δ) :=
  if s.cancelled then s.accepted else (flow, m) :: s.accepted

section Step

variable (sys : System β δ) (s : State β δ)

def accept (flow : Nat) (data : δ) : Option (State β δ) :=
  if s.stopped flow = false ∧ (s.work.channel flow).length < sys.buffer flow then
    let m : Message δ := ⟨s.work.nextID, data⟩
    some { s with
      work := { s.work.enqueue flow m with nextID := s.work.nextID + 1 }
      accepted := s.took flow m }
  else none

def take (flow : Nat) : Option (State β δ) := match s.work.channel flow with
  | [] => none
  | m :: rest =>
    if s.work.busy flow < sys.workers flow then
      some { s with work := { s.work with
        channel := update s.work.channel flow rest
        handlings := s.work.handlings ++ [⟨flow, m, sys.start flow m.data, false⟩] } }
    else none

def move (i choice : Nat) : Option (State β δ) := match s.work.handlings[i]? with
  | some h =>
    if h.done then none
    else (sys.next h.flow choice h.state).map fun cmd =>
      { s with work := s.work.execute i h cmd }
  | none => none

variable (i : Nat) (c : Call δ)

/-- `Send` looks its flow up in the registry, from which a stopped flow is gone. -/
def lookup : Option (State β δ) := match c.phase with
  | .looking =>
    match (sys.named c.flow).filter (!s.stopped ·) with
    | some flow =>
      some { s with work := { s.work with
        calls := s.work.calls.set i { c with phase := .sending flow } } }
    | none =>
      let err := aboutFlow "flow" c.flow " is not registered"
      some { s with work := s.work.answer sys i c (.failed err) }
  | _ => none

/-- `ch <- msg`: a one-way `flow-ref` goes on with its message as it is, as after a drop. -/
def push : Option (State β δ) := match c.phase with
  | .sending flow =>
    if s.closed flow = false ∧ (s.work.channel flow).length < sys.buffer flow then
      let sent := s.work.enqueue flow c.message
      let work := if c.oneWay then sent.answer sys i c .dropped
        else { sent with calls := sent.calls.set i { c with phase := .waiting flow } }
      some { s with work, accepted := s.took flow c.message }
    else none
  | _ => none

/-- `ch <- msg` on a closed channel. -/
def gone : Option (State β δ) := match c.phase with
  | .sending flow =>
    if s.closed flow then
      let err := aboutFlow "send to flow" c.flow ": target flow is shutting down"
      some { s with work := s.work.answer sys i c (.failed err) }
    else none
  | _ => none

/-- `<-ctx.Done()` in `Send` or in `Call`. -/
def giveUp : Option (State β δ) := if s.cancelled then
    match c.phase with
    | .sending _ =>
      let err := aboutFlow "send to flow" c.flow ": context canceled"
      some { s with work := s.work.answer sys i c (.failed err) }
    | .waiting _ =>
      let err := aboutFlow "call flow" c.flow ": context canceled"
      some { s with work := s.work.answer sys i c (.failed err) }
    | _ => none
  else none

/-- `<-reply` in `Call`. -/
def receive : Option (State β δ) := match c.phase, c.reply with
  | .waiting _, some o => some { s with work := s.work.answer sys i c o }
  | _, _ => none

/-- `source.Stop`: an implicit source deregisters its flow and does not fail.  When it fails,
`boundFlow.stop` returns. -/
def stopSource (failed : Bool) : Option (State β δ) := match s.main with
  | .stopping (flow :: rest) =>
    if failed then
      if sys.implicit flow then none else some { s with main := .stopping rest }
    else
      some { s with stopped := update s.stopped flow true, main := .closing flow rest }
  | _ => none

/-- `close(bf.in)`. -/
def close : Option (State β δ) := match s.main with
  | .closing flow rest =>
    some { s with closed := update s.closed flow true, main := .waiting flow rest }
  | _ => none

/-- `bf.wg.Wait()`, when the channel is drained and no worker is at work, and `bf.pool.Stop()`. -/
def await : Option (State β δ) := match s.main with
  | .waiting flow rest =>
    if s.work.channel flow = [] ∧ s.work.busy flow = 0 then some { s with main := .stopping rest }
    else none
  | _ => none

def step : Action δ → Option (State β δ)
  | .accept flow data => accept sys s flow data
  | .take flow => take sys s flow
  | .move i choice => move sys s i choice
  | .lookup i => s.work.calls[i]?.bind (lookup sys s i)
  | .push i => s.work.calls[i]?.bind (push sys s i)
  | .gone i => s.work.calls[i]?.bind (gone sys s i)
  | .giveUp i => s.work.calls[i]?.bind (giveUp sys s i)
  | .receive i => s.work.calls[i]?.bind (receive sys s i)
  | .cancel => if s.cancelled then none else some { s with cancelled := true }
  | .shutdown =>
    if s.main = .serving ∧ s.cancelled then
      some { s with main := .stopping sys.orderForStart.reverse }
    else none
  | .stopSource failed => stopSource sys s failed
  | .close => close s
  | .await => await s
  | .leave => if s.main = .stopping [] then some { s with main := .returned } else none

end Step

end

end Octo.Runtime.Drain
