import Octo.Config.Types

/-!
# The config document and its decoding

A config file as a parsed document: the `Runtime…` types of the editor's `serializeTypes.ts`, which
are also what `yaml.v3` decodes into the types of `runtime/types`.  A key that is absent is `none`;
the nested flows and block chains of a composite are its slots, every other top-level key of a
block is a scalar.  Keys the runtime does not know are ignored by the decoder and are not kept.

`parse` is `dsl.Parse` on such a document.  Children are decoded first and then picked by key, so
that only what a Go field asks for can fail.
-/

namespace Octo.Config

open Octo.Types

/-! ## The document -/

structure RuntimeSource where
  connector : Option String := none
  type : Option String := none
  settings : Option Settings := none

/-- The scalar keys of `RuntimeFlow`, `RuntimeCase`, `RuntimeRoute` and `RuntimeTool`. -/
structure RuntimeFlowHead where
  name : Option String := none
  source : Option RuntimeSource := none
  workers : Option Int := none
  buffer : Option Int := none
  pool : Option Int := none
  when' : Option String := none
  description : Option String := none
  inputSchema : Option String := none

/-- The keys of `RuntimeBlock` that hold no flow: `scalars` are the composite ones. -/
structure RuntimeBlockHead where
  type : Option String := none
  name : Option String := none
  ref : Option String := none
  settings : Option Settings := none
  scalars : Settings := []

mutual

structure RuntimeFlow where
  head : RuntimeFlowHead
  process : List RuntimeBlock
  error : Option (List RuntimeBlock)

structure RuntimeBlock where
  head : RuntimeBlockHead
  slots : List RuntimeSlot

/-- A key of a block that holds one flow, a list of flows, or a bare block chain. -/
inductive RuntimeSlot where
  | flow (field : String) (f : RuntimeFlow)
  | flows (field : String) (fs : List RuntimeFlow)
  | blocks (field : String) (bs : List RuntimeBlock)

end

structure RuntimeEnv where
  name : Option String := none
  default' : Option String := none
  required : Option Bool := none
deriving DecidableEq

/-- A processor definition has the same keys. -/
structure RuntimeConnector where
  name : Option String := none
  type : Option String := none
  settings : Option Settings := none

/-- With the two keys only the runtime reads. -/
structure RuntimeConfig where
  service : ServiceConfig := ⟨"", ""⟩
  env : List RuntimeEnv := []
  connectors : List RuntimeConnector := []
  processors : List RuntimeConnector := []
  flows : List RuntimeFlow := []

def RuntimeSlot.field : RuntimeSlot → String
  | .flow field _ => field
  | .flows field _ => field
  | .blocks field _ => field

/-! ## Scalars -/

structure LoadError where
  field : String
deriving DecidableEq

/-- A YAML value decoded into a Go `string`. -/
def decodeString (field : String) : Value → Except LoadError String
  | .null => .ok ""
  | .str s => .ok s
  | .bool b => .ok (toString b)
  | .int n => .ok (toString n)
  | .float text => .ok text
  | .time text => .ok text
  | _ => .error ⟨field⟩

/-- A YAML value decoded into a Go `map[string]string`. -/
def decodeStringMap (field : String) : Value → Except LoadError (List (String × String))
  | .null => .ok []
  | .obj fields => fields.mapM fun kv => (decodeString field kv.2).map fun s => (kv.1, s)
  | _ => .error ⟨field⟩

section

-- How `yaml.v3` truncates a float into a Go `int`, `none` when it does not fit.
variable (truncate : String → Option Int)

/-- A YAML value decoded into a Go `int`. -/
def decodeInt (field : String) : Value → Except LoadError Int
  | .null => .ok 0
  | .int n => .ok n
  | .float text => (truncate text).elim (.error ⟨field⟩) .ok
  | _ => .error ⟨field⟩

def scalarAt {α : Type} (scalars : Settings) (field : String) (zero : α)
    (decode : String → Value → Except LoadError α) : Except LoadError α :=
  match scalars.lookup field with
  | none => .ok zero
  | some v => decode field v

/-- The scalar fields of `types.BlockConfig`. -/
def decodeHead (h : RuntimeBlockHead) : Except LoadError BlockHead := do
  let string := fun field => scalarAt h.scalars field "" decodeString
  let int := fun field => scalarAt h.scalars field 0 (decodeInt truncate)
  let condition ← string "condition"
  let items ← string "items"
  let as' ← string "as"
  let setBody ← string "setBody"
  let setVars ← scalarAt h.scalars "setVars" [] decodeStringMap
  let key ← string "key"
  let ttl ← string "ttl"
  let connector ← string "connector"
  let prompt ← string "prompt"
  let guardrail ← string "guardrail"
  let maxIterations ← int "maxIterations"
  let memoryThreadID ← string "memoryThreadId"
  let memoryMaxTokens ← int "memoryMaxTokens"
  let memoryCompaction ← string "memoryCompaction"
  let maxAttempts ← int "maxAttempts"
  return { type := h.type.getD "", name := h.name.getD "", settings := h.settings.getD [],
           ref := h.ref.getD "", condition, items, as', setBody, setVars, key, ttl, connector,
           prompt, guardrail, maxIterations, memoryThreadID, memoryMaxTokens, memoryCompaction,
           maxAttempts }

/-! ## Blocks and flows -/

structure DecodedFlow where
  head : RuntimeFlowHead
  process : Except LoadError (List BlockConfig)
  error : Except LoadError (List BlockConfig)

inductive DecodedSlot where
  | flow (field : String) (f : DecodedFlow)
  | flows (field : String) (fs : List DecodedFlow)
  | blocks (field : String) (bs : Except LoadError (List BlockConfig))

def DecodedSlot.field : DecodedSlot → String
  | .flow field _ => field
  | .flows field _ => field
  | .blocks field _ => field

def decodeSource (s : RuntimeSource) : SourceConfig :=
  { connector := s.connector.getD "", type := s.type.getD "", settings := s.settings.getD [] }

variable (f : DecodedFlow)

/-- A flow as `types.FlowConfig`. -/
def DecodedFlow.config : Except LoadError FlowConfig := do
  let process ← f.process
  let error ← f.error
  return { name := f.head.name.getD "", source := f.head.source.map decodeSource, process, error
           workers := f.head.workers.getD 0, buffer := f.head.buffer.getD 0
           pool := f.head.pool.getD 0 }

/-- A flow as `types.CaseConfig`. -/
def DecodedFlow.caseConfig : Except LoadError CaseConfig := do
  let flow ← f.config
  return ⟨f.head.when'.getD "", flow⟩

/-- A flow as `types.RouteConfig`, which has no other flow-level field. -/
def DecodedFlow.routeConfig : Except LoadError RouteConfig := do
  let process ← f.process
  return ⟨f.head.name.getD "", f.head.description.getD "", process⟩

/-- A flow as `types.ToolConfig`. -/
def DecodedFlow.toolConfig : Except LoadError ToolConfig := do
  let process ← f.process
  return ⟨f.head.name.getD "", f.head.description.getD "", f.head.inputSchema.getD "", process⟩

variable (slots : List DecodedSlot)

/-- A Go field of type `*FlowConfig`. -/
def flowAt (field : String) : Except LoadError (Option FlowConfig) :=
  match slots.find? (·.field = field) with
  | none => .ok none
  | some (.flow _ f) => f.config.map some
  | some _ => .error ⟨field⟩

def flowsAt {α : Type} (field : String)
    (convert : DecodedFlow → Except LoadError α) : Except LoadError (List α) :=
  match slots.find? (·.field = field) with
  | none => .ok []
  | some (.flows _ fs) => fs.mapM convert
  | some _ => .error ⟨field⟩

/-- A Go field of type `[]BlockConfig`. -/
def blocksAt (field : String) : Except LoadError (List BlockConfig) :=
  match slots.find? (·.field = field) with
  | none => .ok []
  | some (.blocks _ bs) => bs
  | some _ => .error ⟨field⟩

/-- `types.BlockConfig` from the scalars and the decoded slots. -/
def assembleBlock (head : RuntimeBlockHead) (slots : List DecodedSlot) :
    Except LoadError BlockConfig := do
  let head ← decodeHead truncate head
  let process ← blocksAt slots "process"
  let error ← blocksAt slots "error"
  let branches ← flowsAt slots "branches" DecodedFlow.config
  let then' ← flowAt slots "then"
  let else' ← flowAt slots "else"
  let cases ← flowsAt slots "cases" DecodedFlow.caseConfig
  let default' ← flowAt slots "default"
  let body ← flowAt slots "body"
  let routes ← flowsAt slots "routes" DecodedFlow.routeConfig
  let tools ← flowsAt slots "tools" DecodedFlow.toolConfig
  return ⟨head, process, error, branches, then', else', cases, default', body, routes, tools⟩

mutual

def decodeFlow : RuntimeFlow → DecodedFlow
  | ⟨head, process, error⟩ =>
    { head := head
      process := process.mapM fun b => decodeBlock b
      error := match error with
        | none => .ok []
        | some bs => bs.mapM fun b => decodeBlock b }
termination_by f => sizeOf f

def decodeBlock : RuntimeBlock → Except LoadError BlockConfig
  | ⟨head, slots⟩ => assembleBlock truncate head (slots.map fun s => decodeSlot s)
termination_by b => sizeOf b

def decodeSlot : RuntimeSlot → DecodedSlot
  | .flow field f => .flow field (decodeFlow f)
  | .flows field fs => .flows field (fs.map fun f => decodeFlow f)
  | .blocks field bs => .blocks field (bs.mapM fun b => decodeBlock b)
termination_by s => sizeOf s

end

theorem decodeFlow_head (f : RuntimeFlow) : (decodeFlow truncate f).head = f.head := by
  obtain ⟨head, process, error⟩ := f
  cases error <;> rw [decodeFlow]

def decodeEnv (v : RuntimeEnv) : EnvVar :=
  { name := v.name.getD "", default' := v.default', required := v.required.getD false }

def decodeConnector (c : RuntimeConnector) : ConnectorConfig :=
  { name := c.name.getD "", type := c.type.getD "", settings := c.settings.getD [] }

def decodeProcessor (c : RuntimeConnector) : ProcessorConfig :=
  { name := c.name.getD "", type := c.type.getD "", settings := c.settings.getD [] }

/-- `dsl.Parse` of a document. -/
def parse (c : RuntimeConfig) : Except LoadError Types.Config := do
  let flows ← c.flows.mapM fun f => (decodeFlow truncate f).config
  return { service := c.service, env := c.env.map decodeEnv
           connectors := c.connectors.map decodeConnector
           processors := c.processors.map decodeProcessor, flows, resolvedEnv := [] }

end

end Octo.Config
