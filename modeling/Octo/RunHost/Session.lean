import Mathlib.Data.List.Basic
import Mathlib.Logic.Function.Basic

/-!
# The run-host's sessions

`session`, `start`, `stop`, `sync` (`run-host/src/session.ts`), `reapIdle` (`reaper.ts`) and
`allocatePort`, `releasePort` (`ports.ts`).  The calls are asynchronous and share one map of mutable
session objects: what a call does between two `await`s is one step, and between two steps of a call
those of other calls and the exits of runner processes may come.

A session object outlives its entry in the map, since a call keeps the object it got from
`session`; so objects have an identity and the map leads from a namespace to one of them.  A runner
process is known by the closures of its exit event: the object it was started for and its port.

* `Phase`, `advance` — what a call awaits, and what it does when it goes on.
* `World`, `step` — any number of calls, and the exits of runners.
-/

namespace Octo.RunHost

open Function

/-! ## The port pool -/

def pool : List Nat := List.range' 40000 1000

/-- The lowest port that is not in use; `none` where it throws. -/
def allocatePort (inUse : List Nat) : Option Nat := pool.find? fun p => !inUse.contains p

def releasePort (inUse : List Nat) (port : Nat) : List Nat := inUse.filter (· ≠ port)

theorem allocatePort_not_mem {inUse : List Nat} {port : Nat} (h : allocatePort inUse = some port) :
    port ∉ inUse := by
  have := List.find?_some h
  simpa using this

theorem mem_releasePort {inUse : List Nat} {p port : Nat} :
    p ∈ releasePort inUse port ↔ p ∈ inUse ∧ p ≠ port := by
  simp [releasePort]

/-! ## Sessions and runners -/

/-- A `Session` object.  A process, and the promise of its exit, is the number of the process. -/
structure Session where
  lastActivity : Int
  proc : Option Nat := none
  exit : Option Nat := none
  configPath : Option Nat := none
  port : Option Nat := none
  exposable : Bool := false
deriving DecidableEq

/-- A live runner: the namespace and the session object `start` ran for, the config file it was
given and its port. -/
structure Runner where
  ns : String
  session : Nat
  configPath : Nat
  port : Option Nat
deriving DecidableEq

/-- The state of the run-host.  `created`, `spawned` and `paths` count the session objects, the
processes and the config files so far; the map is in the order of insertion. -/
structure Host where
  sessions : Nat → Session := fun _ => ⟨0, none, none, none, none, false⟩
  created : Nat := 0
  map : List (String × Nat) := []
  running : Nat → Option Runner := fun _ => none
  spawned : Nat := 0
  paths : Nat := 0
  ports : List Nat := []
  clock : Int := 0

variable (h : Host)

def Host.modify (s : Nat) (f : Session → Session) : Host :=
  { h with sessions := update h.sessions s (f (h.sessions s)) }

variable (ns : String)

def Host.create : Host := { h with
      sessions := update h.sessions h.created { lastActivity := h.clock }
      created := h.created + 1
      map := h.map ++ [(ns, h.created)] }

/-- The object of a namespace, created if there is none, with its activity renewed. -/
def Host.session : Host × Nat := match h.map.lookup ns with
  | some s => (h.modify s fun s => { s with lastActivity := h.clock }, s)
  | none => (h.create ns, h.created)

/-- The exit event of a process: `finish` and the `resolve` of its promise. -/
def Host.exit (p : Nat) : Host := match h.running p with
  | none => h
  | some r =>
    let gone : Host := { h with running := update h.running p none }
    let s := h.sessions r.session
    if s.proc = some p then
      match r.port with
      | some port =>
        if s.port = some port then
          { gone with ports := releasePort h.ports port }.modify r.session
            fun s => { s with proc := none, port := none }
        else gone.modify r.session fun s => { s with proc := none }
      | none => gone.modify r.session fun s => { s with proc := none }
    else gone

/-! ## The stretches of a call -/

/-- What follows a `stop`: nothing, the rest of the `start` that awaits it, or the rest of the
sweep that does. -/
inductive After where
  | done
  | start (yaml : String)
  | reap (rest : List String)
deriving DecidableEq

inductive Phase where
  | idle
  /-- `stop`: the exit of the process. -/
  | exiting (ns : String) (s : Nat) (exit : Option Nat) (next : After)
  /-- `stop`: the removal of the config file. -/
  | removing (ns : String) (s : Nat) (next : After)
  /-- `start`: the `stop` before it. -/
  | opening (ns yaml : String)
  /-- `start`: `mkdir`. -/
  | making (ns yaml : String) (s : Nat)
  /-- `start`: the two calls of `writeConfig`. -/
  | writing (ns yaml : String) (s path : Nat)
  | moving (ns yaml : String) (s path : Nat)
  /-- `sync`: the two calls of `writeConfig`. -/
  | syncWriting
  | syncMoving
  /-- `reapIdle`: the `stop` of a namespace. -/
  | forgetting (ns : String) (rest : List String)
deriving DecidableEq

/-- Where the call that made a `stop` goes on. -/
def After.phase : After → Phase
  | .done => .idle
  | .start yaml => .opening ns yaml
  | .reap rest => .forgetting ns rest

/-- The assignments of `stop` after the exit of the process. -/
def Host.clear (s : Nat) : Host := let ports := match (h.sessions s).port with
    | some port => releasePort h.ports port
    | none => h.ports
  { h with ports }.modify s fun s =>
    { s with proc := none, exit := none, port := none, exposable := false }

/-- `stop` from the end of the `if (proc)` on. -/
def stopRest (s : Nat) (next : After) : Host × Phase :=
  match (h.sessions s).configPath with
  | some _ => (h.clear s, .removing ns s next)
  | none => (h.clear s, next.phase ns)

/-- The first stretch of `stop`: with a process, as far as the await of its exit. -/
def stop (next : After) : Host × Phase := let (h, s) := h.session ns
  match (h.sessions s).proc with
  | some _ => (h, .exiting ns s (h.sessions s).exit next)
  | none => stopRest h ns s next

/-- The loop of `reapIdle`, as far as the await in its next pass. -/
def reap : List String → Host × Phase
  | [] => (h, .idle)
  | ns :: rest => stop h ns (.reap rest)

def activityTimeout : Int := 60 * 60 * 1000

def Host.expired (now : Int) : List String :=
  (h.map.filter fun e => activityTimeout < now - (h.sessions e.2).lastActivity).map Prod.fst

/-- `spawn` and the assignments around it. -/
def Host.spawn (r : Runner) (exposable : Bool) : Host := { h with
      running := update h.running h.spawned (some r)
      spawned := h.spawned + 1 }.modify r.session fun s =>
    { s with exposable, port := r.port, proc := some h.spawned, exit := some h.spawned }

variable (isExposable : String → Bool)

/-- The last stretch of `start`; it throws when the pool is exhausted, after `s.configPath` is
set. -/
def launch (h : Host) (ns yaml : String) (s path : Nat) : Host :=
  let h := h.modify s fun s => { s with configPath := some path }
  if isExposable yaml then
    match allocatePort h.ports with
    | none => h
    | some port => { h with ports := port :: h.ports }.spawn ⟨ns, s, path, some port⟩ true
  else h.spawn ⟨ns, s, path, none⟩ false

inductive Call where
  | start (ns yaml : String)
  | stop (ns : String)
  | sync (ns : String)
  | reapIdle (now : Int)
deriving DecidableEq

def Call.first : Call → Host × Phase
  | .start ns yaml => RunHost.stop h ns (.start yaml)
  | .stop ns => RunHost.stop h ns .done
  | .sync ns =>
    let (h, s) := h.session ns
    match (h.sessions s).proc, (h.sessions s).configPath with
    | some _, some _ => (h, .syncWriting)
    | _, _ => (h, .idle)
  | .reapIdle now => reap h (h.expired now)

/-- A promise of an exit has resolved; `await null` does not wait. -/
def Host.resolved (exit : Option Nat) : Bool := match exit with
  | some p => (h.running p).isNone
  | none => true

/-- What a call does when what it awaits is over. `ok` is whether a file operation succeeded; only a
failed `rm` is caught. -/
def advance (h : Host) (ok : Bool) : Phase → Host × Phase
  | .idle => (h, .idle)
  | .exiting ns s exit next =>
    if h.resolved exit then stopRest h ns s next else (h, .exiting ns s exit next)
  | .removing ns s next => (h.modify s fun s => { s with configPath := none }, next.phase ns)
  | .opening ns yaml => ((h.session ns).1, .making ns yaml (h.session ns).2)
  | .making ns yaml s =>
    if ok then ({ h with paths := h.paths + 1 }, .writing ns yaml s h.paths) else (h, .idle)
  | .writing ns yaml s path => (h, if ok then .moving ns yaml s path else .idle)
  | .moving ns yaml s path => (if ok then launch isExposable h ns yaml s path else h, .idle)
  | .syncWriting => (h, if ok then .syncMoving else .idle)
  | .syncMoving => (h, .idle)
  | .forgetting ns rest => reap { h with map := h.map.filter (·.1 ≠ ns) } rest

/-! ## Any number of calls -/

structure World where
  host : Host := {}
  phase : Nat → Phase := fun _ => .idle

/-- What can happen next: time passes, a call begins or goes on, a runner exits. -/
inductive Action where
  | tick (ms : Int)
  | begin (c : Nat) (call : Call)
  | resume (c : Nat) (ok : Bool)
  | exit (p : Nat)
deriving DecidableEq

def step (w : World) : Action → World
  | .tick ms => { w with host := { w.host with clock := w.host.clock + ms } }
  | .begin c call =>
    if w.phase c = .idle then
      ⟨(call.first w.host).1, update w.phase c (call.first w.host).2⟩
    else w
  | .resume c ok =>
    let next := advance isExposable w.host ok (w.phase c)
    ⟨next.1, update w.phase c next.2⟩
  | .exit p => { w with host := w.host.exit p }

def run (actions : List Action) : World :=
  actions.foldl (step isExposable) {}

end Octo.RunHost
