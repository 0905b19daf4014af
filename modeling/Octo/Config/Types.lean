import Mathlib.Data.List.Basic

/-!
# The runtime configuration

The types of `runtime/types`: what the YAML parser builds in one pass and what the substitutor
and the flow builder walk.  `FlowConfig` and `BlockConfig` are mutually recursive: a composite
block carries its sub-flows in typed slots.

The scalar fields of a block are grouped in `BlockHead`, so that a walk over the tree names the
slots and nothing else.
-/

namespace Octo.Types

open List

/-- A decoded YAML value. A mapping with a key that is no string is `gmap` (the decoder's
`map[any]any`); a non-integer number and a timestamp are kept by their text. -/
inductive Value where
  | null
  | bool (b : Bool)
  | int (n : Int)
  | float (text : String)
  | time (text : String)
  | str (s : String)
  | arr (items : List Value)
  | obj (fields : List (String × Value))
  | gmap (entries : List (Value × Value))

abbrev Settings := List (String × Value)

structure SourceConfig where
  connector : String
  type : String
  settings : Settings

/-- The scalar fields of `types.BlockConfig`. -/
structure BlockHead where
  type : String := ""
  name : String := ""
  settings : Settings := []
  ref : String := ""
  condition : String := ""
  items : String := ""
  as' : String := ""
  setBody : String := ""
  setVars : List (String × String) := []
  key : String := ""
  ttl : String := ""
  connector : String := ""
  prompt : String := ""
  guardrail : String := ""
  maxIterations : Int := 0
  memoryThreadID : String := ""
  memoryMaxTokens : Int := 0
  memoryCompaction : String := ""
  maxAttempts : Int := 0

mutual

structure FlowConfig where
  name : String
  source : Option SourceConfig
  process : List BlockConfig
  error : List BlockConfig
  workers : Int
  buffer : Int
  pool : Int

/-- The scalar fields and the composite slots. -/
structure BlockConfig where
  head : BlockHead
  process : List BlockConfig
  error : List BlockConfig
  branches : List FlowConfig
  then' : Option FlowConfig
  else' : Option FlowConfig
  cases : List CaseConfig
  default' : Option FlowConfig
  body : Option FlowConfig
  routes : List RouteConfig
  tools : List ToolConfig

structure CaseConfig where
  when' : String
  flow : FlowConfig

structure RouteConfig where
  name : String
  description : String
  process : List BlockConfig

structure ToolConfig where
  name : String
  description : String
  inputSchema : String
  process : List BlockConfig

end

structure EnvVar where
  name : String
  default' : Option String
  required : Bool
  deriving DecidableEq

structure ServiceConfig where
  name : String
  environment : String
  deriving DecidableEq

structure ConnectorConfig where
  name : String
  type : String
  settings : Settings

structure ProcessorConfig where
  name : String
  type : String
  settings : Settings

structure Config where
  service : ServiceConfig
  env : List EnvVar
  connectors : List ConnectorConfig
  processors : List ProcessorConfig
  flows : List FlowConfig
  resolvedEnv : List (String × String)

def BlockConfig.leaf (head : BlockHead) : BlockConfig :=
  ⟨head, [], [], [], none, none, [], none, none, [], []⟩

def FlowConfig.sub (name : String) (process : List BlockConfig) : FlowConfig :=
  ⟨name, none, process, [], 0, 0, 0⟩

/-! ## Sizes, for walks over the tree -/

open Value

theorem Value.sizeOf_obj_lt {kv : String × Value} {fields : List (String × Value)}
    (h : kv ∈ fields) : sizeOf kv.2 < sizeOf (obj fields) := by
  have hl := sizeOf_lt_of_mem h
  obtain ⟨k, v⟩ := kv
  simp only [Prod.mk.sizeOf_spec, obj.sizeOf_spec] at *
  omega

theorem Value.sizeOf_gmap_lt {kv : Value × Value} {entries : List (Value × Value)}
    (h : kv ∈ entries) : sizeOf kv.2 < sizeOf (gmap entries) := by
  have hl := sizeOf_lt_of_mem h
  obtain ⟨k, v⟩ := kv
  simp only [Prod.mk.sizeOf_spec, gmap.sizeOf_spec] at *
  omega

theorem CaseConfig.sizeOf_flow_lt (c : CaseConfig) : sizeOf c.flow < sizeOf c := by
  obtain ⟨w, f⟩ := c
  simp only [CaseConfig.mk.sizeOf_spec]
  omega

theorem RouteConfig.sizeOf_lt {r : RouteConfig} {b : BlockConfig} (h : b ∈ r.process) :
    sizeOf b < sizeOf r := by
  have hl := sizeOf_lt_of_mem h
  obtain ⟨n, d, p⟩ := r
  simp only [RouteConfig.mk.sizeOf_spec] at *
  omega

theorem ToolConfig.sizeOf_lt {t : ToolConfig} {b : BlockConfig} (h : b ∈ t.process) :
    sizeOf b < sizeOf t := by
  have hl := sizeOf_lt_of_mem h
  obtain ⟨n, d, i, p⟩ := t
  simp only [ToolConfig.mk.sizeOf_spec] at *
  omega

/-! ## Induction over the tree -/

section Induction

variable {F : FlowConfig → Prop} {B : BlockConfig → Prop}

/-- What a step of an induction over blocks may assume of the parts of a block. -/
structure BlockConfig.Parts (F : FlowConfig → Prop) (B : BlockConfig → Prop) (b : BlockConfig) :
    Prop where
  process : ∀ x ∈ b.process, B x
  error : ∀ x ∈ b.error, B x
  branches : ∀ f ∈ b.branches, F f
  then' : ∀ f, b.then' = some f → F f
  else' : ∀ f, b.else' = some f → F f
  cases : ∀ c ∈ b.cases, F c.flow
  default' : ∀ f, b.default' = some f → F f
  body : ∀ f, b.body = some f → F f
  routes : ∀ r ∈ b.routes, ∀ x ∈ r.process, B x
  tools : ∀ t ∈ b.tools, ∀ x ∈ t.process, B x

theorem BlockConfig.sizeOf_parts (b : BlockConfig) :
    b.Parts (fun f => sizeOf f < sizeOf b) (fun x => sizeOf x < sizeOf b) := by
  obtain ⟨head, process, error, branches, then', else', cases, default', body, routes, tools⟩ := b
  have hopt : ∀ {o : Option FlowConfig} {f : FlowConfig}, o = some f → sizeOf f < sizeOf o := by
    rintro _ f rfl
    simp
  constructor <;> simp only [BlockConfig.mk.sizeOf_spec]
  · intro x hx
    have := sizeOf_lt_of_mem hx
    omega
  · intro x hx
    have := sizeOf_lt_of_mem hx
    omega
  · intro f hf
    have := sizeOf_lt_of_mem hf
    omega
  · intro f hf
    have := hopt hf
    omega
  · intro f hf
    have := hopt hf
    omega
  · intro c hc
    have := sizeOf_lt_of_mem hc
    have := c.sizeOf_flow_lt
    omega
  · intro f hf
    have := hopt hf
    omega
  · intro f hf
    have := hopt hf
    omega
  · intro r hr x hx
    have := sizeOf_lt_of_mem hr
    have := RouteConfig.sizeOf_lt hx
    omega
  · intro t ht x hx
    have := sizeOf_lt_of_mem ht
    have := ToolConfig.sizeOf_lt hx
    omega

mutual

/-- **Induction over flows**: a property of every flow from its blocks, and of every block from
the flows and blocks in its slots. -/
theorem FlowConfig.induction (flow : ∀ f, (∀ b ∈ f.process, B b) → (∀ b ∈ f.error, B b) → F f)
    (block : ∀ b, b.Parts F B → B b) : ∀ f, F f
  | ⟨name, source, process, error, workers, buffer, pool⟩ =>
    flow _ (fun b _ => BlockConfig.induction flow block b)
      (fun b _ => BlockConfig.induction flow block b)
termination_by f => sizeOf f

theorem BlockConfig.induction (flow : ∀ f, (∀ b ∈ f.process, B b) → (∀ b ∈ f.error, B b) → F f)
    (block : ∀ b, b.Parts F B → B b) : ∀ b, B b
  | ⟨head, process, error, branches, then', else', cases, default', body, routes, tools⟩ =>
    block _
      { process := fun x _ => BlockConfig.induction flow block x
        error := fun x _ => BlockConfig.induction flow block x
        branches := fun f _ => FlowConfig.induction flow block f
        then' := fun f _ => FlowConfig.induction flow block f
        else' := fun f _ => FlowConfig.induction flow block f
        cases := fun c _ => FlowConfig.induction flow block c.flow
        default' := fun f _ => FlowConfig.induction flow block f
        body := fun f _ => FlowConfig.induction flow block f
        routes := fun r _ x _ => BlockConfig.induction flow block x
        tools := fun t _ x _ => BlockConfig.induction flow block x }
termination_by b => sizeOf b
decreasing_by
  · exact (BlockConfig.sizeOf_parts _).process _ ‹_›
  · exact (BlockConfig.sizeOf_parts _).error _ ‹_›
  · exact (BlockConfig.sizeOf_parts _).branches _ ‹_›
  · exact (BlockConfig.sizeOf_parts _).then' _ ‹_›
  · exact (BlockConfig.sizeOf_parts _).else' _ ‹_›
  · exact (BlockConfig.sizeOf_parts _).cases _ ‹_›
  · exact (BlockConfig.sizeOf_parts _).default' _ ‹_›
  · exact (BlockConfig.sizeOf_parts _).body _ ‹_›
  · exact (BlockConfig.sizeOf_parts _).routes _ ‹_› _ ‹_›
  · exact (BlockConfig.sizeOf_parts _).tools _ ‹_› _ ‹_›

end

end Induction

end Octo.Types
