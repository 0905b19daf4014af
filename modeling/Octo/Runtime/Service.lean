import Octo.Config.Substitute
import Octo.Config.Wire
import Octo.Engine.Builder

/-!
# Loading and building a service

`runtime/config.go`, `env.go` and `runtime.go`: a config document is parsed, its environment
resolved and substituted, its connectors started, and every flow bound to its source and built.
A default connector started for one source stays in the set, so the set is threaded through the
flows.

What the outside world answers (the environment, the connectors, the expression language, the leaf
factories) is the `Host`.
-/

namespace Octo.Runtime

open Octo.Types Octo.Config Octo.Engine

structure Host extends Language where
  /-- `lookupEnv`: the operating system's environment, then the `.env` files. -/
  lookupEnv : String → Option String
  /-- `Registry.Has`. -/
  registered : String → Bool
  /-- `Registry.Register` refuses the empty name. -/
  registered_empty : registered "" = false
  /-- `Connector.Start`: the text of the error, when there is one. -/
  start : ConnectorConfig → Except String Unit
  /-- Whether a connector of this type is a `core.SourceProvider`. -/
  provides : String → Bool
  /-- `SourceProvider.NewSource`, by connector type, source type and settings. -/
  newSource : String → String → Settings → Except String Unit
  /-- `BlockRegistry.New`, given the resolved environment and the types of the connectors. -/
  factory : List (String × String) → (String → Option String) → String →
    (String → Option Value) → Build Unit

namespace Host

variable (host : Host)

/-! ## Loading -/

/-- One declaration of `resolveEnv`; a later one of the same name wins. -/
def resolveVar (resolved : List (String × String)) (decl : EnvVar) :
    Except String (List (String × String)) :=
  if decl.name = "" then .error "env declaration requires a name"
  else
    match host.lookupEnv decl.name with
    | some value => .ok ((decl.name, value) :: resolved)
    | none =>
      if decl.required then
        .error ("required environment variable " ++ quoted decl.name ++ " is not set")
      else
        match decl.default' with
        | some value => .ok ((decl.name, value) :: resolved)
        | none => .ok resolved

def resolveEnv (decls : List EnvVar) : Except String (List (String × String)) :=
  decls.foldlM host.resolveVar []

def applyEnv (cfg : Types.Config) : Except String Types.Config := do
  let resolved ← host.resolveEnv cfg.env
  substituteConfig host.unmarshal { cfg with resolvedEnv := resolved } resolved
    (cfg.env.map (·.name))

/-- `ParseConfig` of a document. -/
def load (doc : RuntimeConfig) : Except String Types.Config := do
  let cfg ← (parse host.truncate doc).mapError fun e => "parse config: " ++ e.field
  host.applyEnv cfg

/-! ## Connectors -/

def outside (x : Except String Unit) : Build Unit :=
  x.mapError fun text => ⟨.other, text⟩

/-- The started connectors, the last one first. -/
def startConnectors : List ConnectorConfig → List ConnectorConfig →
    Build (List ConnectorConfig)
  | started, [] => .ok started
  | started, c :: rest => do
    require (host.registered c.type) .other ("connector " ++ quoted c.type ++ " not registered")
    within ("start connector " ++ quoted c.name) (outside (host.start c))
    startConnectors (c :: started) rest

/-- An unresolved connector naming a registered type, else the source's type. -/
def desiredType (src : SourceConfig) : String :=
  if src.connector ≠ "" ∧ host.registered src.connector then src.connector
  else if src.type ≠ "" ∧ host.registered src.type then src.type
  else ""

end Host

/-- The connectors that sources name: invoke mode does not start them. -/
def sourceConnectorNames (flows : List FlowConfig) : List String :=
  (flows.filterMap fun f => f.source.map (·.connector)).filter (· ≠ "")

/-- The configured connectors and the running ones, the last started first. -/
structure ConnectorSet where
  configs : List ConnectorConfig
  running : List ConnectorConfig

/-- What a source leads to: a connector that runs, or the default one of a type, to be started. -/
inductive Choice where
  | running (c : ConnectorConfig)
  | default (type : String)

namespace ConnectorSet

variable (set : ConnectorSet)

/-- The last one started under a name. -/
def lookup (name : String) : Option ConnectorConfig :=
  set.running.find? (·.name = name)

def configuredOfType (type : String) : List String :=
  (set.configs.filter (·.type = type)).map (·.name)

/-- What runs under the name of a type, else its default. -/
def orDefault (type : String) : Choice :=
  (set.lookup type).elim (.default type) .running

end ConnectorSet

namespace Host

variable (host : Host) (set : ConnectorSet)

/-- `resolveConnector`, but for the start of a default connector. -/
def choose (src : SourceConfig) : Build Choice :=
  match if src.connector ≠ "" then set.lookup src.connector else none with
  | some c => .ok (.running c)
  | none => do
    let type := host.desiredType src
    require (type ≠ "") .danglingConnector
      ("source connector " ++ quoted src.connector ++ " is not configured")
    match set.configuredOfType type with
    | [] => .ok (set.orDefault type)
    | [name] => .ok ((set.lookup name).elim (set.orDefault type) .running)
    | names =>
      .error ⟨.other, "source connector is ambiguous: " ++ toString names.length ++
        " connectors of type " ++ quoted type ++
        " are configured; set the source's connector explicitly"⟩

/-- A default connector is started on demand and stays in the set. -/
def resolveConnector (src : SourceConfig) : Build (ConnectorConfig × ConnectorSet) := do
  match ← host.choose set src with
  | .running c => return (c, set)
  | .default type =>
    require (host.registered type) .other ("connector " ++ quoted type ++ " not registered")
    within ("start implicit connector " ++ quoted type) (outside (host.start ⟨type, type, []⟩))
    return (⟨type, type, []⟩, { set with running := ⟨type, type, []⟩ :: set.running })

/-! ## Flows -/

end Host

/-- What drives a flow: its name alone, or a source of a connector. -/
inductive SourceBinding where
  | implicit
  | bound (connector : ConnectorConfig) (type : String) (settings : Settings)

/-- `boundFlow`, as far as its config decides it. -/
structure ServiceFlow where
  name : String
  source : SourceBinding
  workers : Int
  buffer : Int
  pool : Int
  root : Flow
  errorPath : Option Flow

variable (configured : Int)

def resolveWorkers : Int := if configured > 0 then configured else 8

def resolveBuffer : Int := if configured > 0 then configured else 64

def poolWorkers : Int := if configured ≤ 0 then 8 else configured

namespace Host

variable (host : Host)

/-- `newSource`. -/
def bindSource (set : ConnectorSet) (src : SourceConfig) :
    Build (SourceBinding × ConnectorSet) := do
  let (c, set) ← host.resolveConnector set src
  require (host.provides c.type) .other
    ("connector for source type " ++ quoted src.type ++ " does not provide sources")
  within ("new source " ++ quoted src.type) (outside (host.newSource c.type src.type src.settings))
  return (.bound c src.type src.settings, set)

/-- Outside invoke mode. -/
def buildSource (set : ConnectorSet) (cfg : FlowConfig) :
    Build (SourceBinding × ConnectorSet) :=
  match cfg.source with
  | none => do
    require (cfg.name ≠ "") .missingName "flow without a source requires a name to be callable"
    return (.implicit, set)
  | some src => host.bindSource set src

def deps (env : List (String × String)) (set : ConnectorSet) : Deps :=
  let typeOf := fun name => (set.lookup name).map (·.type)
  { host.toLanguage with connector := typeOf, factory := host.factory env typeOf }

/-- The error path of `buildFlow`: a root flow of its own, when it has a block. -/
def buildErrorPath (d : Deps) (defs : List ProcessorConfig) (cfg : FlowConfig) :
    Build (Option Flow) :=
  if cfg.error.isEmpty then .ok none
  else
    (within ("flow " ++ quoted cfg.name ++ " error path")
      (buildRoot d defs (.sub cfg.name cfg.error))).map some

def buildFlow (env : List (String × String)) (defs : List ProcessorConfig) (set : ConnectorSet)
    (cfg : FlowConfig) : Build (ServiceFlow × ConnectorSet) := do
  let (source, set) ← host.buildSource set cfg
  let root ← buildRoot (host.deps env set) defs cfg
  let errorPath ← buildErrorPath (host.deps env set) defs cfg
  return ({ name := cfg.name, source, workers := resolveWorkers cfg.workers
            buffer := resolveBuffer cfg.buffer, pool := poolWorkers cfg.pool, root, errorPath },
    set)

def buildFlows (env : List (String × String)) (defs : List ProcessorConfig) :
    ConnectorSet → List FlowConfig → Build (List ServiceFlow)
  | _, [] => .ok []
  | set, cfg :: rest => do
    let (flow, set) ← within ("build flow " ++ quoted cfg.name) (host.buildFlow env defs set cfg)
    let flows ← buildFlows env defs set rest
    return flow :: flows

/-- The part of `Service.Run` before the flows start. -/
def build (cfg : Types.Config) : Build (List ServiceFlow) := do
  let running ← host.startConnectors [] cfg.connectors
  host.buildFlows cfg.resolvedEnv cfg.processors ⟨cfg.connectors, running⟩ cfg.flows

end Host

/-- What a config document comes to: its environment, its connectors as they are started, and its
flows as they are built. -/
structure Service where
  env : List EnvVar
  connectors : List ConnectorConfig
  flows : List ServiceFlow

def Host.service (host : Host) (doc : RuntimeConfig) : Except String Service := do
  let cfg ← host.load doc
  let flows ← (host.build cfg).mapError (·.text)
  return ⟨cfg.env, cfg.connectors, flows⟩

end Octo.Runtime
