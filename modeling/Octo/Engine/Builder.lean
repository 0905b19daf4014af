import Octo.Agent.Thread
import Octo.Config.Slots

/-!
# The flow builder

`core/internal/engine`: how a `FlowConfig` becomes a tree of blocks.  A block resolves its `ref`,
then a composite kind checks its own fields and builds its sub-flows, and any other type is a leaf
made by the block registry.

The children of a block are built first and collected in its `Blueprint`; the builder of each kind
picks from it in the order of the Go code, so an error it reports is the first one the code meets.
Expression compilation, JSON validation, durations and the leaf factories are parameters.
-/

namespace Octo.Engine

open Octo.Types
open Octo.Config (Parts)
open Octo.Agent (Compaction parseCompaction defaultAgentIterations defaultMemoryMaxTokens)
open Octo.Foundation (trimSpace)

/-! ## Errors -/

inductive ErrorKind where
  | missingName
  | duplicateName
  | missingField
  | missingCondition
  | missingDescription
  | danglingConnector
  | missingBranch
  | other
deriving DecidableEq

structure BuildError where
  kind : ErrorKind
  text : String
deriving DecidableEq

/-- What building answers. -/
abbrev Build := Except BuildError

/-- A string in quotes, as `%q` prints a plain one. -/
def quoted (s : String) : String := "\"" ++ s ++ "\""

def require (ok : Bool) (kind : ErrorKind) (text : String) : Build Unit :=
  if ok then .ok () else .error ⟨kind, text⟩

def within {α : Type} (context : String) (x : Build α) : Build α :=
  x.mapError fun e => { e with text := context ++ ": " ++ e.text }

/-! ## The built tree -/

inductive Kind where
  | handleErrors
  | fork
  | ifBlock
  | switch
  | foreach
  | enrich
  | cacheScope
  | aiRouter
  | aiAgent
  | aiRetry
deriving DecidableEq

def Kind.type : Kind → String
  | .handleErrors => "handle-errors"
  | .fork => "fork"
  | .ifBlock => "if"
  | .switch => "switch"
  | .foreach => "foreach"
  | .enrich => "enrich"
  | .cacheScope => "cache-scope"
  | .aiRouter => "ai-router"
  | .aiAgent => "ai-agent"
  | .aiRetry => "ai-retry"

def Kind.all : List Kind :=
  [.handleErrors, .fork, .ifBlock, .switch, .foreach, .enrich, .cacheScope, .aiRouter, .aiAgent,
    .aiRetry]

def Kind.ofType (type : String) : Option Kind := Kind.all.find? (·.type = type)

structure LLMTool where
  name : String
  description : String
  inputSchema : String
deriving DecidableEq

/-- The memory settings of an agent that has a thread expression. -/
structure AgentMemory where
  threadID : String
  maxTokens : Int
  compaction : Compaction
deriving DecidableEq

inductive Own where
  | leaf (settings : String → Option Value)
  | handleErrors
  | fork
  | ifBlock (condition : String)
  | switch (whens : List String)
  | foreach (items as' : String)
  | enrich (setBody : Option String) (setVars : List (String × String))
  | cacheScope (key : String) (ttl : Int)
  | aiRouter (connector system : String) (routes : List String)
  | aiAgent (connector system : String) (tools : List LLMTool) (maxIterations : Int)
      (memory : Option AgentMemory)
  | aiRetry (connector system : String) (maxAttempts : Int)

/-- The slots of a composite, over what stands for a block and for a flow. -/
abbrev Slots (α β : Type) := Parts α β β β β

/-- `core.Block`, over what stands for its sub-blocks and sub-flows. -/
structure Built (α β : Type) where
  name : String
  type : String
  own : Own
  slots : Slots α β

mutual

structure Flow where
  name : String
  blocks : List Block

/-- `core.Block` with the processor the builder made for it. -/
structure Block where
  name : String
  type : String
  own : Own
  slots : Parts Block Flow Flow Flow Flow

end

def Built.toBlock (b : Built Block Flow) : Block := ⟨b.name, b.type, b.own, b.slots⟩

/-! ## Blueprints -/

/-- The name and description of an `ai-router` route. -/
structure RouteHead where
  name : String
  description : String
deriving DecidableEq

/-- The name, description and schema of an `ai-agent` tool. -/
structure ToolHead where
  name : String
  description : String
  inputSchema : String
deriving DecidableEq

/-- A block config whose children are replaced by what building them gave. -/
structure Blueprint (α β : Type) extends Parts (Build α) (Build β)
    (String × Build β) (RouteHead × Build β)
    (ToolHead × Build β) where
  head : BlockHead

section

variable {α β γ : Type}

def chain (results : List (Build α)) : Build (List α) := results.mapM id

def optional (context : String) : Option (Build β) → Build (Option β)
  | none => .ok none
  | some r => (within context r).map some

/-- The entries of a list slot in order: check the entry, then build its flow.  `prev` are the
entries before it. -/
def entries (check : List γ → γ → Build Unit) (context : List γ → γ → String) :
    List γ → List (γ × Build β) → Build (List β)
  | _, [] => .ok []
  | prev, (entry, r) :: rest => do
    check prev entry
    let flow ← within (context prev entry) r
    let flows ← entries check context (prev ++ [entry]) rest
    return flow :: flows

/-! ## Slots a kind may set -/

/-- The composite-only fields of a block config, each with whether it is set. -/
def compositeFields (bp : Blueprint α β) : List (Bool × String) :=
  [(!bp.process.isEmpty, "process"),
   (!bp.error.isEmpty, "error"),
   (!bp.branches.isEmpty, "branches"),
   (bp.head.condition ≠ "", "condition"),
   (bp.then'.isSome, "then"),
   (bp.else'.isSome, "else"),
   (!bp.cases.isEmpty, "cases"),
   (bp.default'.isSome, "default"),
   (bp.head.items ≠ "", "items"),
   (bp.head.as' ≠ "", "as"),
   (bp.body.isSome, "body"),
   (bp.head.setBody ≠ "", "setBody"),
   (!bp.head.setVars.isEmpty, "setVars"),
   (bp.head.key ≠ "", "key"),
   (bp.head.ttl ≠ "", "ttl"),
   (bp.head.connector ≠ "", "connector"),
   (bp.head.prompt ≠ "", "prompt"),
   (bp.head.guardrail ≠ "", "guardrail"),
   (!bp.routes.isEmpty, "routes"),
   (!bp.tools.isEmpty, "tools"),
   (bp.head.maxIterations ≠ 0, "maxIterations"),
   (bp.head.maxAttempts ≠ 0, "maxAttempts"),
   (bp.head.memoryThreadID ≠ "", "memoryThreadId"),
   (bp.head.memoryMaxTokens ≠ 0, "memoryMaxTokens"),
   (bp.head.memoryCompaction ≠ "", "memoryCompaction")]

/-- The composite-only fields a block config has set. -/
def compositeSlots (bp : Blueprint α β) : List String :=
  ((compositeFields bp).filter (·.1)).map (·.2)

def rejectCompositeSlots (bp : Blueprint α β) : Build Unit :=
  require (compositeSlots bp).isEmpty .other
    ("block " ++ quoted bp.head.type ++ " is a leaf and must not declare composite slots [" ++
      " ".intercalate (compositeSlots bp) ++ "]")

def allowSlots (bp : Blueprint α β) (kind : Kind) (allowed : List String) :
    Build Unit :=
  match (compositeSlots bp).find? (· ∉ allowed) with
  | none => .ok ()
  | some slot => .error ⟨.other, kind.type ++ " block must not declare " ++ quoted slot⟩

/-! ## The composite builders -/

/-- What the libraries answer on which the loader and the builders rest. -/
structure Language where
  /-- How `yaml.v3` truncates a float into an `int`. -/
  truncate : String → Option Int
  /-- `yaml.Unmarshal` into an empty interface. -/
  unmarshal : String → Option Value
  /-- `expr.Compile`: the text of the error, when there is one. -/
  compile : String → Except String Unit
  /-- `json.Valid`. -/
  validJSON : String → Bool
  /-- `time.ParseDuration`, in nanoseconds. -/
  parseDuration : String → Option Int
  /-- Whether a connector of this type implements `core.LLMClient`. -/
  isLLM : String → Bool

/-- `core.BlockDeps`. -/
structure Deps extends Language where
  connector : String → Option String
  /-- `BlockRegistry.New`. -/
  factory : String → (String → Option Value) → Build Unit

variable (d : Deps)

def compileExpr (source : String) : Build Unit :=
  (d.compile source).mapError fun text => ⟨.other, text⟩

def resolveLLM (kind : Kind) (name : String) : Build Unit := do
  require (name ≠ "") .missingField (kind.type ++ " block requires a connector")
  match d.connector name with
  | none =>
    .error ⟨.danglingConnector,
      kind.type ++ " block: connector " ++ quoted name ++ " is not configured"⟩
  | some type =>
    require (d.isLLM type) .other
      (kind.type ++ " block: connector " ++ quoted name ++ " is not an LLM provider")

def handleErrors (bp : Blueprint α β) : Build (Own × Slots α β) := do
  require (!bp.process.isEmpty) .missingBranch "handle-errors block requires a process chain"
  require (!bp.error.isEmpty) .missingBranch "handle-errors block requires an error chain"
  allowSlots bp .handleErrors ["process", "error"]
  let process ← within "handle-errors process" (chain bp.process)
  let error ← within "handle-errors error" (chain bp.error)
  return (.handleErrors, { process, error })

def fork (bp : Blueprint α β) : Build (Own × Slots α β) := do
  require (!bp.branches.isEmpty) .missingBranch "fork block requires at least one branch"
  allowSlots bp .fork ["branches"]
  let branches ← entries (fun _ _ => .ok ()) (fun prev _ => "fork branch " ++ toString prev.length)
    [] (bp.branches.map fun r => ((), r))
  return (.fork, { branches })

def ifBlock (bp : Blueprint α β) : Build (Own × Slots α β) := do
  require (bp.head.condition ≠ "") .missingField "if block requires a condition"
  require bp.then'.isSome .missingBranch "if block requires a then flow"
  allowSlots bp .ifBlock ["condition", "then", "else"]
  compileExpr d bp.head.condition
  let then' ← optional "if then" bp.then'
  let else' ← optional "if else" bp.else'
  return (.ifBlock bp.head.condition, { then', else' })

/-- The checks of one `switch` case. -/
def checkCase (prev : List String) (when' : String) : Build Unit := do
  require (when' ≠ "") .missingCondition
    ("switch case " ++ toString prev.length ++ " requires a when condition")
  compileExpr d when'

variable (bp : Blueprint α β)

def switchBlock : Build (Own × Slots α β) := do
  require (!bp.cases.isEmpty) .missingBranch "switch block requires at least one case"
  allowSlots bp .switch ["cases", "default"]
  let cases ← entries (checkCase d) (fun prev _ => "switch case " ++ toString prev.length) []
    bp.cases
  let default' ← optional "switch default" bp.default'
  return (.switch (bp.cases.map (·.1)), { cases, default' })

def defaultForeachVar : String := "item"

def foreachBlock : Build (Own × Slots α β) := do
  require (bp.head.items ≠ "") .missingField "foreach block requires an items expression"
  require bp.body.isSome .missingBranch "foreach block requires a body flow"
  allowSlots bp .foreach ["items", "as", "body"]
  compileExpr d bp.head.items
  let body ← optional "foreach body" bp.body
  return (.foreach bp.head.items (if bp.head.as' = "" then defaultForeachVar else bp.head.as'),
    { body })

/-- The `setBody` expression of an `enrich` block, when there is one. -/
def compileBody (source : String) : Build Unit :=
  if source ≠ "" then within "enrich setBody" (compileExpr d source) else .ok ()

/-- The `setVars` expressions of an `enrich` block. -/
def compileVars (vars : List (String × String)) : Build Unit :=
  vars.forM fun v => within ("enrich setVars[" ++ quoted v.1 ++ "]") (compileExpr d v.2)

def enrich (bp : Blueprint α β) : Build (Own × Slots α β) := do
  require bp.body.isSome .missingBranch "enrich block requires a body flow"
  allowSlots bp .enrich ["body", "setBody", "setVars"]
  let body ← optional "enrich body" bp.body
  compileBody d bp.head.setBody
  compileVars d bp.head.setVars
  return (.enrich (if bp.head.setBody = "" then none else some bp.head.setBody) bp.head.setVars,
    { body })

def defaultCacheTTL : Int := 60000000000

def resolveCacheTTL (raw : String) : Build Int :=
  if raw = "" then .ok defaultCacheTTL
  else
    match d.parseDuration raw with
    | none => .error ⟨.other, "cache-scope ttl " ++ quoted raw ++ ": invalid duration"⟩
    | some ttl =>
      if ttl < 0 then .error ⟨.other, "cache-scope ttl " ++ quoted raw ++ " must not be negative"⟩
      else .ok ttl

def cacheScope (bp : Blueprint α β) : Build (Own × Slots α β) := do
  require bp.body.isSome .missingBranch "cache-scope block requires a body flow"
  allowSlots bp .cacheScope ["body", "key", "ttl"]
  require (bp.head.key ≠ "") .missingField "cache-scope block requires a key expression"
  compileExpr d bp.head.key
  let ttl ← resolveCacheTTL d bp.head.ttl
  let body ← optional "cache-scope body" bp.body
  return (.cacheScope bp.head.key ttl, { body })

/-- The checks a route and a tool share: a name, a description, a name not used before. -/
def checkNamed (what : String) (prev : List String) (name description : String) :
    Build Unit := do
  require (name ≠ "") .missingName (what ++ " " ++ toString prev.length ++ " requires a name")
  require (description ≠ "") .missingDescription
    (what ++ " " ++ quoted name ++ " requires a description")
  require (name ∉ prev) .duplicateName
    (what ++ " " ++ quoted name ++ " is defined more than once")

def checkRoute (prev : List RouteHead) (route : RouteHead) : Build Unit :=
  checkNamed "ai-router route" (prev.map (·.name)) route.name route.description

def buildRouterSystem (prompt : String) (routes : List RouteHead) (guardrail : String) : String :=
  "You are a router. Choose exactly one route for the incoming message by " ++
  "calling the select_route tool. Use the inspection tools (get_body, " ++
  "get_variable, list_variables) to gather what you need before deciding.\n\n" ++
  trimSpace prompt ++ "\n\nAvailable routes:\n" ++
  String.join (routes.map fun r => "- " ++ r.name ++ ": " ++ r.description ++ "\n") ++
  "\nIf you are not confident in any route, select __guardrail__ (the guardrail)." ++
  if trimSpace guardrail ≠ "" then "\nGuardrail guidance: " ++ trimSpace guardrail else ""

def aiRouter (bp : Blueprint α β) : Build (Own × Slots α β) := do
  require (!bp.routes.isEmpty) .missingBranch "ai-router block requires at least one route"
  require (trimSpace bp.head.prompt ≠ "") .missingField "ai-router block requires a prompt"
  allowSlots bp .aiRouter ["routes", "default", "connector", "prompt", "guardrail"]
  resolveLLM d .aiRouter bp.head.connector
  let routes ← entries checkRoute (fun _ r => "ai-router route " ++ quoted r.name) [] bp.routes
  let default' ← optional "ai-router default" bp.default'
  let heads := bp.routes.map (·.1)
  return (.aiRouter bp.head.connector (buildRouterSystem bp.head.prompt heads bp.head.guardrail)
    (heads.map (·.name)), { routes, default' })

def toolInputSchema (tool : ToolHead) : Build String :=
  let schema := trimSpace tool.inputSchema
  if schema = "" then .ok "\x7b\"type\":\"object\"\x7d"
  else if d.validJSON schema then .ok schema
  else .error ⟨.other, "ai-agent tool " ++ quoted tool.name ++ ": inputSchema is not valid JSON"⟩

/-- The checks of one `ai-agent` tool. -/
def checkTool (prev : List ToolHead) (tool : ToolHead) : Build Unit := do
  checkNamed "ai-agent tool" (prev.map (·.name)) tool.name tool.description
  let _ ← toolInputSchema d tool
  return ()

def toolDef (tool : ToolHead) : LLMTool :=
  { name := tool.name, description := tool.description
    inputSchema := match toolInputSchema d tool with | .ok schema => schema | .error _ => "" }

def buildAgentSystem (prompt guardrail : String) : String :=
  "You are an agent that accomplishes a task by calling the available tools. " ++
  "Call tools as needed; when the task is complete, respond with the final result " ++
  "as JSON only (no prose, no markdown code fences).\n\n" ++ trimSpace prompt ++
  if trimSpace guardrail ≠ "" then "\n\nGuardrail: " ++ trimSpace guardrail else ""

def configureAgentMemory (h : BlockHead) : Build (Option AgentMemory) :=
  if h.memoryThreadID = "" then .ok none
  else do
    compileExpr d h.memoryThreadID
    let compaction ← (parseCompaction h.memoryCompaction).mapError fun text => ⟨.other, text⟩
    return some
      { threadID := h.memoryThreadID
        maxTokens := if h.memoryMaxTokens ≤ 0 then defaultMemoryMaxTokens else h.memoryMaxTokens
        compaction := compaction }

def aiAgent (bp : Blueprint α β) : Build (Own × Slots α β) := do
  require (!bp.tools.isEmpty) .missingBranch "ai-agent block requires at least one tool"
  require (trimSpace bp.head.prompt ≠ "") .missingField "ai-agent block requires a prompt"
  allowSlots bp .aiAgent ["tools", "default", "connector", "prompt", "guardrail", "maxIterations",
    "memoryThreadId", "memoryMaxTokens", "memoryCompaction"]
  resolveLLM d .aiAgent bp.head.connector
  let tools ← entries (checkTool d) (fun _ t => "ai-agent tool " ++ quoted t.name) [] bp.tools
  let memory ← configureAgentMemory d bp.head
  let default' ← optional "ai-agent default" bp.default'
  return (.aiAgent bp.head.connector (buildAgentSystem bp.head.prompt bp.head.guardrail)
      (bp.tools.map fun t => toolDef d t.1)
      (if bp.head.maxIterations ≤ 0 then defaultAgentIterations else bp.head.maxIterations) memory,
    { tools, default' })

def defaultRetryAttempts : Int := 3

def buildRetrySystem (prompt : String) : String :=
  "A step in a processing pipeline failed. Inspect the error, the current " ++
  "message body, and the current variables, then call revise_message to retry. " ++
  "The failing step may reference variables as vars.<name>; if such a variable " ++
  "is missing or wrong, set it via the revise_message \"variables\" field. " ++
  "Fixing only the body will not help when the step reads from variables.\n\n" ++ trimSpace prompt

def aiRetry (bp : Blueprint α β) : Build (Own × Slots α β) := do
  require (!bp.process.isEmpty) .missingBranch "ai-retry block requires a process chain"
  require (trimSpace bp.head.prompt ≠ "") .missingField "ai-retry block requires a prompt"
  allowSlots bp .aiRetry ["process", "error", "connector", "prompt", "maxAttempts"]
  resolveLLM d .aiRetry bp.head.connector
  let process ← within "ai-retry process" (chain bp.process)
  let error ← within "ai-retry error" (chain bp.error)
  return (.aiRetry bp.head.connector (buildRetrySystem bp.head.prompt)
      (if bp.head.maxAttempts ≤ 0 then defaultRetryAttempts else bp.head.maxAttempts),
    { process, error })

/-- `compositeBuilders`. -/
def Kind.build : Kind → Build (Own × Slots α β)
  | .handleErrors => Engine.handleErrors bp
  | .fork => Engine.fork bp
  | .ifBlock => Engine.ifBlock d bp
  | .switch => switchBlock d bp
  | .foreach => foreachBlock d bp
  | .enrich => Engine.enrich d bp
  | .cacheScope => Engine.cacheScope d bp
  | .aiRouter => Engine.aiRouter d bp
  | .aiAgent => Engine.aiAgent d bp
  | .aiRetry => Engine.aiRetry d bp

/-! ## Blocks -/

def mergeSettings (base override : Settings) : Settings :=
  if override = [] then base else override ++ base

/-- The effective type and settings. -/
def resolve (defs : List ProcessorConfig) (h : BlockHead) : Build (String × Settings) :=
  if h.ref = "" then .ok (h.type, h.settings)
  else
    match defs.find? (·.name = h.ref) with
    | none => .error ⟨.other, "block ref " ++ quoted h.ref ++ " is not a defined processor"⟩
    | some p =>
      if h.type ≠ "" ∧ h.type ≠ p.type then
        .error ⟨.other, "block ref " ++ quoted h.ref ++ " is type " ++ quoted p.type ++
          " but declares type " ++ quoted h.type⟩
      else .ok (p.type, mergeSettings p.settings h.settings)

def blockLabel (type name : String) : String := if name ≠ "" then name else type

def processor (type : String) (settings : Settings) :
    Build (Own × Slots α β) :=
  match Kind.ofType type with
  | some kind => kind.build d bp
  | none => do
    rejectCompositeSlots bp
    d.factory type fun key => settings.lookup key
    return (.leaf fun key => settings.lookup key, {})

/-- `builder.block`, the children built already. -/
def construct (defs : List ProcessorConfig) (bp : Blueprint α β) :
    Build (Built α β) := do
  require (bp.head.type ≠ "" ∨ bp.head.ref ≠ "") .other "block requires a type or a ref"
  let (type, settings) ← resolve defs bp.head
  let (own, slots) ← within ("block " ++ quoted (blockLabel type bp.head.name))
    (processor d bp type settings)
  return ⟨bp.head.name, type, own, slots⟩

end

/-! ## Flows -/

section

variable (d : Deps) (defs : List ProcessorConfig)

/-- `builder.subFlow`, the blocks built already: root-only fields are rejected. -/
def checkSubFlow (cfg : FlowConfig) (blocks : Build (List Block)) :
    Build Flow := do
  require cfg.source.isNone .other "sub-flow must not declare a source"
  require (cfg.workers = 0 ∧ cfg.buffer = 0 ∧ cfg.pool = 0) .other
    "sub-flow must not declare workers, buffer, or pool"
  require cfg.error.isEmpty .other "sub-flow must not declare an error path"
  let blocks ← blocks
  return ⟨cfg.name, blocks⟩

mutual

def subFlow : FlowConfig → Build Flow
  | ⟨name, source, process, error, workers, buffer, pool⟩ =>
    checkSubFlow ⟨name, source, process, error, workers, buffer, pool⟩
      (process.mapM fun b => block b)
termination_by f => sizeOf f

/-- `builder.subFlow` of a sub-flow that may be absent. -/
def subFlowPtr : Option FlowConfig → Option (Build Flow)
  | none => none
  | some f => some (subFlow f)
termination_by f => sizeOf f

def block : BlockConfig → Build Block
  | ⟨head, process, error, branches, then', else', cases, default', body, routes, tools⟩ =>
    (construct d defs
      { head := head
        process := process.map fun b => block b
        error := error.map fun b => block b
        branches := branches.map fun f => subFlow f
        then' := subFlowPtr then'
        else' := subFlowPtr else'
        cases := cases.map fun c => (c.when', subFlow c.flow)
        default' := subFlowPtr default'
        body := subFlowPtr body
        routes := routes.map fun r =>
          (⟨r.name, r.description⟩, (r.process.mapM fun b => block b).map (Flow.mk ""))
        tools := tools.map fun t =>
          (⟨t.name, t.description, t.inputSchema⟩,
            (t.process.mapM fun b => block b).map (Flow.mk "")) }).map Built.toBlock
termination_by b => sizeOf b
decreasing_by
  all_goals first
    | (refine (BlockConfig.sizeOf_parts _).routes r ?_ b ?_ <;> assumption)
    | (refine (BlockConfig.sizeOf_parts _).tools t ?_ b ?_ <;> assumption)
    | exact (BlockConfig.sizeOf_parts _).cases _ ‹_›
    | decreasing_tactic

end

def flow (cfg : FlowConfig) : Build Flow := do
  let blocks ← cfg.process.mapM (block d defs)
  return ⟨cfg.name, blocks⟩

end

/-- Named definitions, without duplicates. -/
def processorDefs (prev : List String) : List ProcessorConfig → Build Unit
  | [] => .ok ()
  | cfg :: rest => do
    require (cfg.name ≠ "") .missingName "processor definition requires a name"
    require (cfg.name ∉ prev) .duplicateName
      ("processor " ++ quoted cfg.name ++ " is defined more than once")
    processorDefs (prev ++ [cfg.name]) rest

def buildRoot (d : Deps) (defs : List ProcessorConfig) (cfg : FlowConfig) :
    Build Flow := do
  processorDefs [] defs
  flow d defs cfg

end Octo.Engine
