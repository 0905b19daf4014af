import Octo.Config.Wire
import Octo.Editor.Document
import Octo.Editor.Schema

/-!
# The editor's serializers

`serialize.ts`, `serializeFrom.ts`, `serializeEnv.ts` and the source resolver of `connectors.ts`:
the document to the config document and back.  Both directions are driven by the schema: the slot
fields of a composite become its slots, its other fields top-level keys, and a leaf keeps its
settings map.

A walk converts the children of a block first; `nodeOf` and `wireOf` then pick them by field.
`newId` stands for the id the browser makes up at each call: nothing below reads it.
-/

namespace Octo.Editor

open Octo.Types
open Octo.Config (RuntimeFlow RuntimeFlowHead RuntimeBlock RuntimeBlockHead RuntimeSlot RuntimeSource
  RuntimeEnv RuntimeConnector RuntimeConfig)

def truthy (s : String) : Option String := if s = "" then none else some s

theorem truthy_eq_some {s t : String} : truthy s = some t ↔ s = t ∧ t ≠ "" := by
  unfold truthy
  split
  next h =>
    simp [h]
  next h =>
    simp only [Option.some.injEq]
    exact ⟨fun hst => ⟨hst, hst ▸ h⟩, And.left⟩

theorem bind_truthy_eq_some {s : Option String} {t : String} :
    s.bind truthy = some t ↔ s = some t ∧ t ≠ "" := by
  cases s with
  | none => simp
  | some => simp [truthy_eq_some]

theorem getD_truthy (s : String) : (truthy s).getD "" = s := by
  unfold truthy
  split <;> simp_all

theorem getD_bind_truthy (s : Option String) : (s.bind truthy).getD "" = s.getD "" := by
  cases s with
  | none => rfl
  | some s => exact getD_truthy s

def hasKeys (s : Settings) : Option Settings := if s = [] then none else some s

theorem getD_hasKeys (s : Settings) : (hasKeys s).getD [] = s := by
  unfold hasKeys
  split
  next h =>
    rw [h]
    rfl
  · rfl

/-! ## To the config document -/

def envToRuntime (v : EnvVar) : RuntimeEnv :=
  { name := some v.name
    default' := v.default'.bind truthy
    required := if v.required then some true else none }

def connectorToRuntime (c : ConnectorInstance) : RuntimeConnector :=
  { name := truthy c.name, type := truthy c.type, settings := hasKeys c.settings }

variable (connectors : List ConnectorInstance)

/-- The names of the connections of a type, as `connectorResolver` indexes them. -/
def namesOfType (type : String) : List String :=
  (connectors.filter fun c => c.type = type ∧ c.name ≠ "").map (·.name)

/-- `connectorResolver`. -/
def resolveSource (source : SourceNode) : Option String :=
  match source.connectorRef.bind truthy with
  | some ref => some ref
  | none =>
    match namesOfType connectors (source.connector.getD "") with
    | [name] => some name
    | _ => source.connector.bind truthy

def sourceToRuntime (source : SourceNode) : RuntimeSource :=
  { connector := (resolveSource connectors source).bind truthy
    type := source.type.bind truthy
    settings := hasKeys source.settings }

section ToRuntime

variable (connectors : List ConnectorInstance)

/-- The scalar keys `flowToRuntime` writes. -/
def flowHeadToRuntime (h : FlowHead) : RuntimeFlowHead :=
  { name := truthy h.name, source := h.source.map (sourceToRuntime connectors)
    workers := h.workers, buffer := h.buffer, pool := h.pool }

abbrev SavedFlow := FlowHead × RuntimeFlow

variable (f : SavedFlow)

def caseToRuntime : RuntimeFlow :=
  { f.2 with head := { f.2.head with when' := some (f.1.when'.getD "") } }

def routeToRuntime : RuntimeFlow :=
  { f.2 with head := { f.2.head with description := some (f.1.description.getD "") } }

def toolToRuntime : RuntimeFlow := { f.2 with head := { f.2.head with
      description := some (f.1.description.getD ""), inputSchema := f.1.inputSchema.bind truthy } }

def flowsSlot (field : String) : List RuntimeFlow → Option RuntimeSlot
  | [] => none
  | fs => some (.flows field fs)

def blocksSlot (field : String) : List RuntimeBlock → Option RuntimeSlot
  | [] => none
  | bs => some (.blocks field bs)

/-- What one slot field of the schema writes, given the converted sub-flows of the slot. -/
def slotToRuntime (field : FieldSpec) (slot : List SavedFlow) : Option RuntimeSlot :=
  match field.type with
  | .flow => slot.head?.map fun f => .flow field.name f.2
  | .flowList => flowsSlot field.name (slot.map (·.2))
  | .caseList => flowsSlot field.name (slot.map caseToRuntime)
  | .routeList => flowsSlot field.name (slot.map routeToRuntime)
  | .toolList => flowsSlot field.name (slot.map toolToRuntime)
  | .blockList => blocksSlot field.name (slot.head?.elim [] fun f => f.2.process)
  | _ => none

/-- `blockToRuntime`, given the converted sub-flows of every slot. -/
def wireOf (head : NodeHead) (slots : List (String × List SavedFlow)) : RuntimeBlock :=
  match getBlockSpec head.type with
  | none =>
    ⟨{ type := some head.type, name := head.name.bind truthy, settings := hasKeys head.settings }, []⟩
  | some spec =>
    if isComposite head.type then
      ⟨{ type := some head.type
         name := head.name.bind truthy
         scalars := (spec.fields.filter (!isSlotField ·)).filterMap fun field =>
           (head.settings.lookup field.name).map fun v => (field.name, v) },
        (spec.fields.filter isSlotField).filterMap fun field =>
          slotToRuntime field ((slots.lookup field.name).getD [])⟩
    else
      ⟨{ type := some head.type, name := head.name.bind truthy
         settings := hasKeys head.settings }, []⟩

mutual

def flowToRuntime : FlowDoc → RuntimeFlow
  | ⟨head, process, error⟩ =>
    { head := flowHeadToRuntime connectors head
      process := process.map fun b => blockToRuntime b
      error := match error with
        | none => none
        | some e => errorToRuntime e }
termination_by f => sizeOf f

def errorToRuntime : FlowDoc → Option (List RuntimeBlock)
  | ⟨_, process, _⟩ =>
    if process = [] then none else some (process.map fun b => blockToRuntime b)
termination_by f => sizeOf f

def blockToRuntime : BlockNode → RuntimeBlock
  | ⟨head, slots⟩ =>
    wireOf head (slots.map fun s => (s.field, s.flows.map fun f => (f.head, flowToRuntime f)))
termination_by b => sizeOf b
decreasing_by exact FlowDoc.sizeOf_slot_lt ‹_› ‹_›

end

theorem flowToRuntime_head (f : FlowDoc) :
    (flowToRuntime connectors f).head = flowHeadToRuntime connectors f.head := by
  obtain ⟨head, process, error⟩ := f
  cases error <;> rw [flowToRuntime]

end ToRuntime

def toConfig (doc : EditorDocument) : RuntimeConfig :=
  { env := doc.env.map envToRuntime
    connectors := doc.connectors.map connectorToRuntime
    flows := doc.flows.map (flowToRuntime doc.connectors) }

/-! ## From the config document -/

def envFromRuntime (v : RuntimeEnv) : EnvVar :=
  { name := v.name.getD "", default' := v.default', required := v.required.getD false }

def setKey (settings : Settings) (key : String) (value : Value) : Settings := match settings with
  | [] => [(key, value)]
  | (k, v) :: rest => if k = key then (k, value) :: rest else (k, v) :: setKey rest key value

section FromRuntime

variable (newId : String)

def connectorFromRuntime (c : RuntimeConnector) : ConnectorInstance :=
  { id := newId, name := c.name.getD "", type := c.type.getD "", settings := c.settings.getD [] }

/-- `new Map(connectors.map((c) => [c.name, c.type]))`: the last connection of a name wins. -/
def connTypes (name : String) : Option String :=
  (connectors.reverse.find? (·.name = name)).map (·.type)

def sourceFromRuntime (types : String → Option String) (source : RuntimeSource) : SourceNode :=
  let name := source.connector.getD ""
  { connector := match types name with
      | some type => some type
      | none => truthy name
    connectorRef := if (types name).isSome then some name else none
    type := source.type
    settings := source.settings.getD [] }

variable (types : String → Option String)

/-- The scalar fields `flowFromRuntime` reads. -/
def flowHeadFromRuntime (h : RuntimeFlowHead) : FlowHead :=
  { id := newId, name := h.name.getD "", source := h.source.map (sourceFromRuntime types)
    workers := h.workers, buffer := h.buffer, pool := h.pool }

abbrev OpenedFlow := RuntimeFlowHead × FlowDoc

inductive OpenedSlot where
  | flow (field : String) (f : OpenedFlow)
  | flows (field : String) (fs : List OpenedFlow)
  | blocks (field : String) (bs : List BlockNode)

def OpenedSlot.field : OpenedSlot → String
  | .flow field _ => field
  | .flows field _ => field
  | .blocks field _ => field

variable (f : OpenedFlow)

def caseFromRuntime : FlowDoc :=
  { f.2 with head := { f.2.head with when' := some (f.1.when'.getD "") } }

def routeFromRuntime : FlowDoc :=
  { f.2 with head := { f.2.head with description := some (f.1.description.getD "") } }

def toolFromRuntime : FlowDoc := { f.2 with head := { f.2.head with
      description := some (f.1.description.getD ""), inputSchema := f.1.inputSchema.bind truthy } }

def openedFlows (opened : List OpenedSlot) (field : String) : List OpenedFlow :=
  match opened.find? (·.field = field) with
  | some (.flows _ fs) => fs
  | _ => []

def slotFromRuntime (opened : List OpenedSlot) (field : FieldSpec) : List FlowDoc :=
  match field.type with
  | .flow =>
    match opened.find? (·.field = field.name) with
    | some (.flow _ f) => [f.2]
    | _ => []
  | .flowList => (openedFlows opened field.name).map (·.2)
  | .caseList => (openedFlows opened field.name).map caseFromRuntime
  | .routeList => (openedFlows opened field.name).map routeFromRuntime
  | .toolList => (openedFlows opened field.name).map toolFromRuntime
  | .blockList =>
    -- the bare chain is wrapped back into a single holding flow
    match opened.find? (·.field = field.name) with
    | some (.blocks _ bs) => [⟨{ id := newId }, bs, none⟩]
    | _ => [⟨{ id := newId }, [], none⟩]
  | _ => []

def openedSettings (head : RuntimeBlockHead) (fields : List FieldSpec) : Settings :=
  fields.foldl (fun settings field =>
    match head.scalars.lookup field.name with
    | some v => setKey settings field.name v
    | none => settings) (head.settings.getD [])

/-- `blockFromRuntime`, given the converted content of every slot. -/
def nodeOf (head : RuntimeBlockHead) (opened : List OpenedSlot) : BlockNode :=
  let type := head.type.getD ""
  match getBlockSpec type with
  | none => ⟨{ id := newId, type := type, name := head.name, settings := head.settings.getD [] }, []⟩
  | some spec =>
    if isComposite type then
      ⟨{ id := newId, type := type, name := head.name
         settings := openedSettings head (spec.fields.filter (!isSlotField ·)) },
        (spec.fields.filter isSlotField).map fun field =>
          ⟨field.name, slotFromRuntime newId opened field⟩⟩
    else
      ⟨{ id := newId, type := type, name := head.name, settings := head.settings.getD [] }, []⟩

mutual

def flowFromRuntime : RuntimeFlow → FlowDoc
  | ⟨head, process, error⟩ =>
    ⟨flowHeadFromRuntime newId types head, process.map fun b => blockFromRuntime b, match error with
      | none => none
      | some bs => some ⟨{ id := newId }, bs.map fun b => blockFromRuntime b, none⟩⟩
termination_by f => sizeOf f

def blockFromRuntime : RuntimeBlock → BlockNode
  | ⟨head, slots⟩ => nodeOf newId head (slots.map fun s => openSlot s)
termination_by b => sizeOf b

def openSlot : RuntimeSlot → OpenedSlot
  | .flow field f => .flow field (f.head, flowFromRuntime f)
  | .flows field fs => .flows field (fs.map fun f => (f.head, flowFromRuntime f))
  | .blocks field bs => .blocks field (bs.map fun b => blockFromRuntime b)
termination_by s => sizeOf s

end

def withErrorChain (flow : FlowDoc) : FlowDoc := match flow.error with
  | some _ => flow
  | none => { flow with error := some ⟨{ id := newId }, [], none⟩ }

end FromRuntime

/-- With the connections and variables of a config that has no flow. -/
def emptyDocument (newId : String) (connectors : List ConnectorInstance) (env : List EnvVar) :
    EditorDocument :=
  { flows := [withErrorChain newId ⟨{ id := newId, name := "new-flow" }, [], none⟩]
    connectors := connectors, processors := [], env := env }

def fromConfig (newId : String) (config : RuntimeConfig) : EditorDocument :=
  let env := config.env.map envFromRuntime
  let connectors := config.connectors.map (connectorFromRuntime newId)
  if config.flows = [] then emptyDocument newId connectors env
  else
    { flows := config.flows.map fun f =>
        withErrorChain newId (flowFromRuntime newId (connTypes connectors) f)
      connectors := connectors, processors := [], env := env }

end Octo.Editor
