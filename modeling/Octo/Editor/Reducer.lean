import Octo.Editor.Identity
import Octo.Editor.Move
import Octo.Editor.Rename
import Octo.Foundation.Trim

/-!
# The editor's reducer

`state/reducer.ts` with its handlers (`handlers.ts`, `slotHandlers.ts`, `sourceHandlers.ts`,
`connectionHandlers.ts`, `envHandlers.ts`, `integrationHandlers.ts`) and the helpers of
`model/document.ts` and `model/connectors.ts` they use: every action, with its payload, as a function
of the state.

`ids` gives the values of `newId` in the order of the calls one dispatch makes.  A setting is never
assigned `undefined` here.
-/

namespace Octo.Editor

open Octo.Types
open Octo.Foundation (trim isWhiteSpace)

/-! ## New nodes -/

def Default.value : Default → Value
  | .text s => .str s
  | .flag b => .bool b
  | .number n => .int n

def seeded (fields : List FieldSpec) : Settings :=
  fields.filterMap fun field => field.default'.map fun d => (field.name, d.value)

def defaultSettings (type : String) : Settings :=
  seeded ((getBlockSpec type).elim [] BlockSpec.fields)

def defaultSourceSettings (connector type : String) : Settings :=
  seeded ((getSourceSpec connector type).elim [] SourceSpec.fields)

def defaultConnectorSettings (type : String) : Settings :=
  seeded ((getConnectorSpec type).elim [] ConnectorSpec.settings)

def emptyFlow (id name : String) : FlowDoc := ⟨{ id, name }, [], none⟩

/-- Every slot starts with one empty sub-flow. -/
def newBlock (ids : Nat → String) (type : String) : BlockNode :=
  ⟨{ id := ids 0, type, settings := defaultSettings type },
    (slotFields type).zipIdx.map fun (field, i) => ⟨field.name, [emptyFlow (ids (i + 1)) ""]⟩⟩

def newFlow (ids : Nat → String) (name : String) : FlowDoc :=
  withErrorChain (ids 1) (emptyFlow (ids 0) name)

def blankDocument : EditorDocument := ⟨[], [], [], []⟩

def newConnector (toLowerCase : String → String) (id type : String) (taken : List String) :
    ConnectorInstance :=
  { id, name := uniqueSlug toLowerCase type taken, type, settings := defaultConnectorSettings type }

/-! ## Addressing a block by id -/

/-- One level of `mapBlockTree`, given the walk of the sub-flows: those a block has after `fn`. -/
def mapBlockLevel (blockId : String) (fn : BlockNode → BlockNode) (walk : FlowDoc → FlowDoc)
    (flow : FlowDoc) : FlowDoc where
  head := flow.head
  process := flow.process.map fun block =>
    let next := if block.id = blockId then fn block else block
    ⟨next.head, next.slots.map fun s => ⟨s.field, s.flows.map walk⟩⟩
  error := flow.error.map walk

/-- To a depth. -/
def mapBlockTree (blockId : String) (fn : BlockNode → BlockNode) : Nat → FlowDoc → FlowDoc
  | 0, flow => flow
  | depth + 1, flow => mapBlockLevel blockId fn (mapBlockTree blockId fn depth) flow

/-- A tree is at most as deep as it has flows. -/
def mapBlockById (doc : EditorDocument) (blockId : String) (fn : BlockNode → BlockNode) :
    EditorDocument :=
  { doc with flows := doc.flows.map fun f => mapBlockTree blockId fn (flowsOf f).length f }

/-- The visit of `findBlock`: each block before what is in its slots, then the error chain. -/
def visitBlock (blockId : String) : FlowDoc → Option BlockNode
  | ⟨_, process, error⟩ =>
    match (process.flatMap fun b =>
        if b.id = blockId then [b]
        else b.slots.flatMap fun s => s.flows.flatMap fun f => (visitBlock blockId f).toList).head? with
    | some hit => some hit
    | none =>
      match error with
      | none => none
      | some e => visitBlock blockId e
termination_by f => sizeOf f
decreasing_by
  · refine FlowDoc.sizeOf_sub_lt (b := b) (s := s) ?_ ?_ ?_ <;> assumption
  · decreasing_tactic

def findBlock (doc : EditorDocument) (blockId : String) : Option BlockNode :=
  doc.flows.findSome? (visitBlock blockId)

/-! ## State -/

inductive ViewMode where
  | canvas
  | yaml
  deriving DecidableEq

structure IntegrationMeta where
  id : Option String
  name : String
  folderId : Option String
  deriving DecidableEq

/-- The state of the reducer: the document with the pointers into it, and what the rest of the
editor keeps. -/
structure ReducerState extends EditorState where
  viewMode : ViewMode
  selectedComponentId : Option String
  integration : IntegrationMeta

def initialState : ReducerState where
  document := blankDocument
  activeFlowId := none
  selectedBlockId := none
  selectedSourceFlowId := none
  selectedConnectionId := none
  viewMode := .canvas
  selectedComponentId := none
  integration := ⟨none, "", none⟩

/-- The fields `SET_FLOW_META` sets, with the value, `none` clearing it. -/
inductive FlowMeta where
  | when' (value : Option String)
  | description (value : Option String)
  | inputSchema (value : Option String)
  | workers (value : Option Int)
  | buffer (value : Option Int)
  | pool (value : Option Int)
  deriving DecidableEq

/-- `EditorActionType` with the payloads. -/
inductive Action where
  | addFlow
  | addBlock (blockType : String) (flowId : Option String) (index : Option Nat)
  | moveBlock (flowId : String) (fromIndex toIndex : Nat)
  | moveBlockAcross (fromFlowId toFlowId blockId : String) (index : Option Nat)
  | removeBlock (flowId blockId : String)
  | removeFlow (flowId : String)
  | renameFlow (flowId name : String)
  | selectBlock (blockId : Option String)
  | updateBlockSetting (blockId field : String) (value : Value)
  | renameBlock (blockId name : String)
  | setActiveFlow (flowId : String)
  | addSource (flowId connector type : String)
  | selectSource (flowId : Option String)
  | updateSourceSetting (flowId field : String) (value : Value)
  | updateSourceConnector (flowId : String) (connector : Option String)
  | removeSource (flowId : String)
  | addConnection (type : String)
  | selectConnection (id : Option String)
  | renameConnection (id name : String)
  | updateConnectionSetting (id field : String) (value : Value)
  | removeConnection (id : String)
  | addSlotFlow (blockId field : String)
  | removeSlotFlow (blockId field flowId : String)
  | setFlowMeta (flowId : String) (value : FlowMeta)
  | setEnv (env : List EnvVar)
  | loadDocument (document : EditorDocument)
  | setIntegrationId (id : String)
  | setIntegrationTitle (name : String)
  | setIntegrationFolder (folderId : Option String)
  | loadIntegration (id name : String) (folderId : Option String) (document : EditorDocument)
  | newIntegration
  | setViewMode (mode : ViewMode)
  | selectComponent (id : String)
  | clearSelection

/-! ## Flows and blocks -/

section Handlers

variable (state : EditorState) (ids : Nat → String)

def nextFlowName : String := "flow-" ++ toString (state.document.flows.length + 1)

def addFlow : EditorState := let flow := newFlow ids (nextFlowName state)
  { document := { state.document with flows := state.document.flows ++ [flow] }
    activeFlowId := some flow.id
    selectedBlockId := none
    selectedSourceFlowId := none
    selectedConnectionId := none }

/-- Without a target flow it starts a new one. -/
def addBlock (blockType : String) (flowId : Option String) (index : Option Nat) : EditorState :=
  let block := newBlock ids blockType
  let flowId := (flowId.or state.activeFlowId).getD ""
  if flowId = "" ∨ (findFlow state.document flowId).isNone then
    let flow := newFlow (fun n => ids (n + (slotFields blockType).length + 1)) (nextFlowName state)
    let flow := flow.withProcess fun _ => [block]
    { document := { state.document with flows := state.document.flows ++ [flow] }
      activeFlowId := some flow.id
      selectedBlockId := some block.id
      selectedSourceFlowId := none
      selectedConnectionId := none }
  else
    { document := updateFlow state flowId fun flow =>
        flow.withProcess fun process => spliceIn process (index.getD process.length) block
      activeFlowId := some flowId
      selectedBlockId := some block.id
      selectedSourceFlowId := none
      selectedConnectionId := none }

def removeBlock (flowId blockId : String) : EditorState := { state with
    document := updateFlow state flowId fun flow =>
      flow.withProcess fun process => process.filter (·.id ≠ blockId)
    selectedBlockId := if state.selectedBlockId = some blockId then none else state.selectedBlockId }

variable (document : EditorDocument)

def liveFlow (flowId : Option String) : Option String :=
  flowId.filter fun id => id ≠ "" ∧ (findFlow document id).isSome

def liveBlock (blockId : Option String) : Option String :=
  blockId.filter fun id => id ≠ "" ∧ (findBlock document id).isSome

/-- A state with another document, without the pointers to flows and blocks that dangle in it. -/
def withLivePointers : EditorState := { state with
    document
    activeFlowId := liveFlow document state.activeFlowId
    selectedBlockId := liveBlock document state.selectedBlockId
    selectedSourceFlowId := liveFlow document state.selectedSourceFlowId }

variable (flowId : String)

def removeFlow : EditorState := withLivePointers state
    { state.document with flows := state.document.flows.filter (·.id ≠ flowId) }

def updateBlockSetting (blockId field : String) (value : Value) : EditorState := { state with
    document := mapBlockById state.document blockId fun block =>
      { block with head := { block.head with settings := setKey block.head.settings field value } } }

/-- A blank name is dropped. -/
def renameBlock (blockId name : String) : EditorState :=
  let name := String.ofList (trim isWhiteSpace name.toList)
  { state with
    document := mapBlockById state.document blockId fun block =>
      { block with head := { block.head with name := truthy name } } }

def loadDocument : EditorState where
  document := document
  activeFlowId := document.flows.head?.map FlowDoc.id
  selectedBlockId := none
  selectedSourceFlowId := none
  selectedConnectionId := none

/-! ## Slots -/

/-- `DEFAULT_TOOL_INPUT_SCHEMA`. -/
def defaultToolInputSchema : String :=
  "\x7b\n  \"type\": \"object\",\n  \"properties\": \x7b\n    \"param\": \x7b \"type\": \"string\", " ++
  "\"description\": \"Describe this parameter.\" \x7d\n  \x7d,\n  \"required\": [\"param\"]\n\x7d"

/-- The sub-flow `addSlotFlow` appends under a field. -/
def newSlotFlow (id : String) (field : Option FieldSpec) : FlowDoc :=
  match field.map FieldSpec.type with
  | some .caseList => ⟨{ id, when' := some "" }, [], none⟩
  | some .routeList => ⟨{ id, description := some "" }, [], none⟩
  | some .toolList =>
    ⟨{ id, description := some "", inputSchema := some defaultToolInputSchema }, [], none⟩
  | _ => emptyFlow id ""

/-- `slots[field] = flows`: an existing slot is overwritten in place. -/
def setSlot (slots : List Slot) (field : String) (flows : List FlowDoc) : List Slot :=
  match slots with
  | [] => [⟨field, flows⟩]
  | s :: rest => if s.field = field then ⟨field, flows⟩ :: rest else s :: setSlot rest field flows

def addSlotFlow (blockId field : String) : EditorState := { state with
    document := mapBlockById state.document blockId fun block =>
      let fieldSpec := (getBlockSpec block.head.type).bind fun spec =>
        spec.fields.find? (·.name = field)
      let flows := block.slot field ++ [newSlotFlow (ids 0) fieldSpec]
      { block with slots := setSlot block.slots field flows } }

def removeSlotFlow (blockId field flowId : String) : EditorState := withLivePointers state <|
    mapBlockById state.document blockId fun block =>
      let flows := (block.slot field).filter (·.id ≠ flowId)
      { block with slots := setSlot block.slots field flows }

def FlowDoc.withMeta (flow : FlowDoc) : FlowMeta → FlowDoc
  | .when' v => { flow with head := { flow.head with when' := v } }
  | .description v => { flow with head := { flow.head with description := v } }
  | .inputSchema v => { flow with head := { flow.head with inputSchema := v } }
  | .workers v => { flow with head := { flow.head with workers := v } }
  | .buffer v => { flow with head := { flow.head with buffer := v } }
  | .pool v => { flow with head := { flow.head with pool := v } }

def setFlowMeta (value : FlowMeta) : EditorState :=
  { state with document := mapFlow state.document flowId (·.withMeta value) }

/-! ## Sources -/

def FlowDoc.withSource (flow : FlowDoc) (source : Option SourceNode) : FlowDoc :=
  { flow with head := { flow.head with source } }

def addSource (flowId connector type : String) : EditorState where
  document := mapFlow state.document flowId fun flow =>
    flow.withSource (some ⟨some connector, none, some type, defaultSourceSettings connector type⟩)
  activeFlowId := some flowId
  selectedBlockId := none
  selectedSourceFlowId := some flowId
  selectedConnectionId := none

def selectSource (flowId : Option String) : EditorState := { state with
    selectedSourceFlowId := flowId
    selectedBlockId := none
    selectedConnectionId := none
    activeFlowId := flowId.or state.activeFlowId }

def updateSourceSetting (flowId field : String) (value : Value) : EditorState := { state with
    document := mapFlow state.document flowId fun flow =>
      flow.withSource (flow.head.source.map fun source =>
        { source with settings := setKey source.settings field value }) }

def updateSourceConnector (connector : Option String) : EditorState :=
  { state with
    document := mapFlow state.document flowId fun flow =>
      flow.withSource (flow.head.source.map fun source =>
        { source with connectorRef := connector.bind truthy }) }

def removeSource : EditorState := { state with
    document := mapFlow state.document flowId (·.withSource none)
    selectedSourceFlowId :=
      if state.selectedSourceFlowId = some flowId then none else state.selectedSourceFlowId }

/-! ## Connections -/

def addConnection (toLowerCase : String → String) (type : String) : EditorState :=
  let connector :=
    newConnector toLowerCase (ids 0) type (state.document.connectors.map ConnectorInstance.name)
  { state with
    document := { state.document with connectors := state.document.connectors ++ [connector] }
    selectedConnectionId := some connector.id
    selectedBlockId := none
    selectedSourceFlowId := none }

def updateConnectionSetting (id field : String) (value : Value) : EditorState := { state with
    document := { state.document with connectors := state.document.connectors.map fun c =>
      if c.id = id then { c with settings := setKey c.settings field value } else c } }

def removeConnection (id : String) : EditorState := { state with
    document := { state.document with connectors := state.document.connectors.filter (·.id ≠ id) }
    selectedConnectionId :=
      if state.selectedConnectionId = some id then none else state.selectedConnectionId }

end Handlers

/-! ## The reducer -/

-- `String.prototype.toLowerCase`
variable (toLowerCase : String → String) (ids : Nat → String)

/-- The document and the pointers after an action. -/
def edit (state : EditorState) : Action → EditorState
  | .addFlow => addFlow state ids
  | .addBlock blockType flowId index => addBlock state ids blockType flowId index
  | .moveBlock flowId fromIndex toIndex => moveBlock state flowId fromIndex toIndex
  | .moveBlockAcross fromFlowId toFlowId blockId index =>
    moveBlockAcross state fromFlowId toFlowId blockId index
  | .removeBlock flowId blockId => removeBlock state flowId blockId
  | .removeFlow flowId => removeFlow state flowId
  | .renameFlow flowId name => { state with document := renameFlow state.document flowId name }
  | .selectBlock blockId =>
    { state with
      selectedBlockId := blockId, selectedSourceFlowId := none, selectedConnectionId := none }
  | .updateBlockSetting blockId field value => updateBlockSetting state blockId field value
  | .renameBlock blockId name => renameBlock state blockId name
  | .setActiveFlow flowId =>
    { state with
      activeFlowId := some flowId, selectedBlockId := none, selectedSourceFlowId := none
      selectedConnectionId := none }
  | .addSource flowId connector type => addSource state flowId connector type
  | .selectSource flowId => selectSource state flowId
  | .updateSourceSetting flowId field value => updateSourceSetting state flowId field value
  | .updateSourceConnector flowId connector => updateSourceConnector state flowId connector
  | .removeSource flowId => removeSource state flowId
  | .addConnection type => addConnection state ids toLowerCase type
  | .selectConnection id =>
    { state with
      selectedConnectionId := id, selectedBlockId := none, selectedSourceFlowId := none }
  | .renameConnection id name => { state with document := renameConnection state.document id name }
  | .updateConnectionSetting id field value => updateConnectionSetting state id field value
  | .removeConnection id => removeConnection state id
  | .addSlotFlow blockId field => addSlotFlow state ids blockId field
  | .removeSlotFlow blockId field flowId => removeSlotFlow state blockId field flowId
  | .setFlowMeta flowId value => setFlowMeta state flowId value
  | .setEnv env => { state with document := { state.document with env } }
  | .loadDocument document | .loadIntegration _ _ _ document => loadDocument document
  | .newIntegration => loadDocument { blankDocument with flows := [newFlow ids "new-flow"] }
  | _ => state

/-- One dispatch, with the ids it makes up. -/
def reducer (state : ReducerState) (ids : Nat → String) (action : Action) : ReducerState :=
  let state := { state with toEditorState := edit toLowerCase ids state.toEditorState action }
  match action with
  | .setIntegrationId id => { state with integration := { state.integration with id := some id } }
  | .setIntegrationTitle name => { state with integration := { state.integration with name } }
  | .setIntegrationFolder folderId =>
    { state with integration := { state.integration with folderId } }
  | .loadIntegration id name folderId _ => { state with integration := ⟨some id, name, folderId⟩ }
  | .newIntegration => { state with integration := ⟨none, "", none⟩ }
  | .setViewMode mode => { state with viewMode := mode }
  | .selectComponent id => { state with selectedComponentId := some id }
  | .clearSelection => { state with selectedComponentId := none }
  | _ => state

end Octo.Editor
