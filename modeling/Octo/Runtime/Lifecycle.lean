import Octo.Foundation.Program
import Octo.Runtime.Service

/-!
# Starting and stopping a service

`Service.Run` with everything it starts and stops: the connectors, those started on demand while
the flows are built, and for each flow its pool, its workers and its source.  A call on something
outside may fail; what it answers is open, so the calls `Run` can make (`Makes`) are those under
every choice of failures.
-/

namespace Octo.Runtime.Lifecycle

open Octo.Types Octo.Config Octo.Engine
open Octo.Foundation (Program)
open Octo.Foundation.Program (ask Makes makes_done makes_ask_bind makes_bind
  makes_bind_done)

/-! ## Calls -/

/-- What `Service.Run` does outside itself.  A connector goes by its number in the order of the
starts, a flow by its position in the config. -/
inductive Op where
  | startConnector (connector : Nat) (cfg : ConnectorConfig)
  | stopConnector (connector : Nat)
  | newSource (connector : ConnectorConfig) (cfg : SourceConfig)
  | buildRoot (set : ConnectorSet) (cfg : FlowConfig)
  | startPool (flow : Nat)
  | spawnWorkers (flow : Nat)
  | startSource (flow : Nat)
  | register (flow : Nat) (outcome : Except String Unit)
  /-- `<-ctx.Done()`. -/
  | awaitCancel
  | stopSource (flow : Nat)
  | deregister (flow : Nat)
  | closeInput (flow : Nat)
  | awaitWorkers (flow : Nat)
  | stopPool (flow : Nat)

abbrev Answer : Op → Type
  | .startConnector _ _ | .stopConnector _ | .newSource _ _ | .startSource _ | .stopSource _ =>
    Except String Unit
  | .buildRoot _ _ => Build Flow
  | _ => Unit

abbrev Act (α : Type) := Program Op Answer Empty α

/-- Calls with what they are answered. -/
abbrev Calls := List (Sigma Answer)

def errorOf {ε α : Type} : Except ε α → Option ε
  | .error e => some e
  | .ok _ => none

/-! ## Connectors -/

/-- `stopConnectors` of the first `n` connectors, the last one first. -/
def stopConnectors : Nat → Act (Option String)
  | 0 => return none
  | n + 1 => do
    let stopped ← ask (.stopConnector n)
    let firstErr ← stopConnectors n
    return (errorOf stopped).or firstErr

section Build

variable (host : Host) (invokeMode : Bool)

/-- But for the names in `skip`: the started connectors, the last one first. -/
def startConnectors (skip : List String) : List ConnectorConfig → List ConnectorConfig →
    Act (Build (List ConnectorConfig))
  | running, [] => return .ok running
  | running, c :: rest =>
    if c.name ∈ skip then startConnectors skip running rest
    else if host.registered c.type then do
      let started ← ask (.startConnector running.length c)
      match within ("start connector " ++ quoted c.name) (Host.outside started) with
      | .error e => do
        let _ ← stopConnectors running.length
        return .error e
      | .ok () => startConnectors skip (c :: running) rest
    else do
      let _ ← stopConnectors running.length
      return .error ⟨.other, "connector " ++ quoted c.type ++ " not registered"⟩

variable (set : ConnectorSet) (src : SourceConfig)

/-- A default connector that does not start leaves the set as it is. -/
def resolveConnector : Act (ConnectorSet × Build ConnectorConfig) :=
  match host.choose set src with
  | .error e => return (set, .error e)
  | .ok (.running c) => return (set, .ok c)
  | .ok (.default type) =>
    if host.registered type then do
      let c : ConnectorConfig := ⟨type, type, []⟩
      let started ← ask (.startConnector set.running.length c)
      match within ("start implicit connector " ++ quoted type) (Host.outside started) with
      | .error e => return (set, .error e)
      | .ok () => return ({ set with running := c :: set.running }, .ok c)
    else return (set, .error ⟨.other, "connector " ++ quoted type ++ " not registered"⟩)

/-! ## Flows -/

def newSource :
    Act (ConnectorSet × Build SourceBinding) := do
  let (set, connector) ← resolveConnector host set src
  match connector with
  | .error e => return (set, .error e)
  | .ok c =>
    if host.provides c.type then do
      let source ← ask (.newSource c src)
      return (set, (within ("new source " ++ quoted src.type) (Host.outside source)).map
        fun _ => .bound c src.type src.settings)
    else return (set, .error ⟨.other,
      "connector for source type " ++ quoted src.type ++ " does not provide sources"⟩)

variable (cfg : FlowConfig)

def buildSource :
    Act (ConnectorSet × Build SourceBinding) :=
  match if invokeMode then none else cfg.source with
  | none =>
    if cfg.name = "" then
      return (set, .error ⟨.missingName, "flow without a source requires a name to be callable"⟩)
    else return (set, .ok .implicit)
  | some src => newSource host set src

/-- The error path of `buildFlow`. -/
def buildErrorPath :
    Act (Build (Option Flow)) :=
  if cfg.error.isEmpty then return .ok none
  else do
    let path ← ask (Op.buildRoot set (.sub cfg.name cfg.error))
    return (within ("flow " ++ quoted cfg.name ++ " error path") path).map some

/-- The set is as it is when the source is bound. -/
def buildFlow :
    Act (ConnectorSet × Build ServiceFlow) := do
  let (set, source) ← buildSource host invokeMode set cfg
  match source with
  | .error e => return (set, .error e)
  | .ok source => do
    let root : Build Flow ← ask (Op.buildRoot set cfg)
    match root with
    | .error e => return (set, .error e)
    | .ok root => do
      let errorPath ← buildErrorPath set cfg
      return (set, errorPath.map fun errorPath =>
        { name := cfg.name, source, workers := resolveWorkers cfg.workers
          buffer := resolveBuffer cfg.buffer, pool := poolWorkers cfg.pool, root, errorPath })

def buildFlows : ConnectorSet → List FlowConfig →
    Act (ConnectorSet × Build (List ServiceFlow))
  | set, [] => return (set, .ok [])
  | set, cfg :: rest => do
    let (set, flow) ← buildFlow host invokeMode set cfg
    match within ("build flow " ++ quoted cfg.name) flow with
    | .error e => return (set, .error e)
    | .ok flow => do
      let (set, flows) ← buildFlows set rest
      return (set, flows.map (flow :: ·))

end Build

abbrev Numbered := Nat × ServiceFlow

def implicit (f : Numbered) : Bool := match f.2.source with
  | .implicit => true
  | .bound _ _ _ => false

variable (names : List String)

/-- With the names registered. -/
def register (name : String) : Except String Unit :=
  if name = "" then .error "a callable flow requires a name"
  else if name ∈ names then .error ("flow " ++ quoted name ++ " is already registered")
  else .ok ()

/-- `source.Start` of a flow: an implicit source registers its name. -/
def startSource (f : Numbered) : Act (Except String Unit) :=
  if implicit f then do
    let outcome := register names f.2.name
    let _ ← ask (.register f.1 outcome)
    return outcome
  else ask (Op.startSource f.1)

/-- `boundFlow.start`. -/
def startFlow (f : Numbered) : Act (Except String Unit) := do
  let _ ← ask (.startPool f.1)
  let _ ← ask (.spawnWorkers f.1)
  startSource names f

/-- The flows that started, the last one first, and the error of the one that did not. -/
def startFlows : List String → List Numbered → List Numbered → Act (List Numbered × Option String)
  | _, started, [] => return (started, none)
  | names, started, f :: rest => do
    let outcome ← startFlow names f
    match outcome with
    | .error e => return (started, some ("start flow " ++ quoted f.2.name ++ ": " ++ e))
    | .ok () =>
      startFlows (if implicit f then f.2.name :: names else names) (f :: started) rest

def orderForStart (flows : List Numbered) : List Numbered :=
  flows.filter implicit ++ flows.filter (!implicit ·)

/-- `source.Stop` of a flow: an implicit source deregisters its name. -/
def stopSource (f : Numbered) : Act (Except String Unit) := if implicit f then do
    let _ ← ask (.deregister f.1)
    return .ok ()
  else ask (Op.stopSource f.1)

/-- `boundFlow.stop`. -/
def stopFlow (f : Numbered) : Act (Option String) := do
  let outcome ← stopSource f
  match outcome with
  | .error e => return some e
  | .ok () => do
    let _ ← ask (.closeInput f.1)
    let _ ← ask (.awaitWorkers f.1)
    let _ ← ask (.stopPool f.1)
    return none

/-- `stopFlows` of the flows that started, the last one first. -/
def stopFlows : List Numbered → Act (Option String)
  | [] => return none
  | f :: rest => do
    let stopped ← stopFlow f
    let firstErr ← stopFlows rest
    return (stopped.map fun e => "stop flow " ++ quoted f.2.name ++ ": " ++ e).or firstErr

/-- The part of `Service.Run` before the flows start.  The connectors are stopped again when it
fails; the set is the one it ends with. -/
def build (host : Host) (invokeMode : Bool) (cfg : Types.Config) :
    Act (Build (ConnectorSet × List ServiceFlow)) := do
  let skip := if invokeMode then sourceConnectorNames cfg.flows else []
  let connectors ← startConnectors host skip [] cfg.connectors
  match connectors with
  | .error e => return .error e
  | .ok running => do
    let (set, flows) ← buildFlows host invokeMode ⟨cfg.connectors, running⟩ cfg.flows
    match flows with
    | .error e => do
      let _ ← stopConnectors set.running.length
      return .error e
    | .ok flows => return .ok (set, flows)

/-- The error it returns. -/
def run (host : Host) (invokeMode : Bool) (cfg : Types.Config) : Act (Option String) := do
  let built ← build host invokeMode cfg
  match built with
  | .error e => return some e.text
  | .ok (set, flows) => do
    let flows := flows.zipIdx.map fun (flow, i) => (i, flow)
    let (started, err) ← startFlows [] [] (orderForStart flows)
    match err with
    | some e => do
      let _ ← stopFlows started
      let _ ← stopConnectors set.running.length
      return some e
    | none => do
      let _ ← ask .awaitCancel
      let flowErr ← stopFlows started
      let connErr ← stopConnectors set.running.length
      return flowErr.or connErr

end Octo.Runtime.Lifecycle
