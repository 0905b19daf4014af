import Octo.Config.Types

/-!
# The editor's document

`packages/editor/src/app/model/document.ts`: the in-memory editing model.  Every node carries a
client id.  A composite block holds its sub-flows in slots, keyed by field name; a top-level flow
also holds its error chain in a flow of its own.

`mapFlow` and `findFlow` address a flow by id wherever it lives.  `flows`, `blocks` and the id
lists enumerate what is reachable, slots and error chains included, at any depth.
-/

namespace Octo.Editor

open List Octo.Types

structure SourceNode where
  connector : Option String
  connectorRef : Option String
  type : Option String
  settings : Settings

/-- The scalar fields of `FlowDoc`. -/
structure FlowHead where
  id : String
  name : String := ""
  source : Option SourceNode := none
  when' : Option String := none
  description : Option String := none
  inputSchema : Option String := none
  workers : Option Int := none
  buffer : Option Int := none
  pool : Option Int := none

/-- The scalar fields of `BlockNode`. -/
structure NodeHead where
  id : String
  type : String
  name : Option String := none
  settings : Settings := []

mutual

structure FlowDoc where
  head : FlowHead
  process : List BlockNode
  error : Option FlowDoc

/-- A block without `slots` has the empty list. -/
structure BlockNode where
  head : NodeHead
  slots : List Slot

/-- One entry of `BlockNode.slots`. -/
structure Slot where
  field : String
  flows : List FlowDoc

end

structure ConnectorInstance where
  id : String
  name : String
  type : String
  settings : Settings

/-- An absent `required` is false. -/
structure EnvVar where
  name : String
  default' : Option String
  required : Bool
  deriving DecidableEq

structure EditorDocument where
  flows : List FlowDoc
  connectors : List ConnectorInstance
  processors : List BlockNode
  env : List EnvVar

def FlowDoc.id (f : FlowDoc) : String := f.head.id

variable (b : BlockNode)

def BlockNode.id : String := b.head.id

def BlockNode.subflows : List FlowDoc := b.slots.flatMap Slot.flows

def BlockNode.slot (name : String) : List FlowDoc :=
  ((b.slots.find? (·.field = name)).map Slot.flows).getD []

variable {f : FlowDoc} {b : BlockNode}

theorem BlockNode.mem_slot {name : String} (h : f ∈ b.slot name) :
    ∃ s ∈ b.slots, f ∈ s.flows := by
  unfold BlockNode.slot at h
  cases hfind : b.slots.find? (·.field = name) with
  | none => simp [hfind] at h
  | some s => exact ⟨s, mem_of_find?_eq_some hfind, by simpa [hfind] using h⟩

/-! ## Sizes and induction -/

theorem FlowDoc.sizeOf_slot_lt {s : Slot} (hs : s ∈ b.slots)
    (hf : f ∈ s.flows) : sizeOf f < sizeOf b := by
  have hs' := sizeOf_lt_of_mem hs
  have hf' := sizeOf_lt_of_mem hf
  obtain ⟨h, sl⟩ := b
  obtain ⟨n, fl⟩ := s
  simp only [BlockNode.mk.sizeOf_spec, Slot.mk.sizeOf_spec] at *
  omega

theorem FlowDoc.sizeOf_sub_lt {g : FlowDoc} {s : Slot} (hb : b ∈ f.process)
    (hs : s ∈ b.slots) (hg : g ∈ s.flows) : sizeOf g < sizeOf f := by
  have hb' := sizeOf_lt_of_mem hb
  have hg' := FlowDoc.sizeOf_slot_lt hs hg
  obtain ⟨h, p, e⟩ := f
  simp only [FlowDoc.mk.sizeOf_spec] at *
  omega

theorem FlowDoc.sizeOf_error_lt {e : FlowDoc} (h : f.error = some e) : sizeOf e < sizeOf f := by
  obtain ⟨hd, p, er⟩ := f
  subst h
  simp only [FlowDoc.mk.sizeOf_spec, Option.some.sizeOf_spec]
  omega

/-- **Induction over flows**: a property of every flow from its sub-flows and its error chain. -/
theorem FlowDoc.induction {P : FlowDoc → Prop}
    (step : ∀ f, (∀ b ∈ f.process, ∀ s ∈ b.slots, ∀ g ∈ s.flows, P g) →
      (∀ e, f.error = some e → P e) → P f) (f : FlowDoc) : P f :=
  step f (fun b _ s _ g _ => FlowDoc.induction step g) fun e _ => FlowDoc.induction step e
termination_by sizeOf f
decreasing_by
  · exact FlowDoc.sizeOf_sub_lt ‹_› ‹_› ‹_›
  · exact FlowDoc.sizeOf_error_lt ‹_›

/-! ## Addressing a flow by id -/

section

variable (flowId : String) (fn : FlowDoc → FlowDoc)

mutual

def mapFlowTree : FlowDoc → FlowDoc
  | ⟨head, process, error⟩ =>
    if head.id = flowId then fn ⟨head, process, error⟩
    else
      ⟨head, process.map fun b => mapBlock b, match error with
        | none => none
        | some e => some (mapFlowTree e)⟩
termination_by f => sizeOf f

def mapBlock : BlockNode → BlockNode
  | ⟨head, slots⟩ => ⟨head, slots.map fun s => ⟨s.field, s.flows.map fun f => mapFlowTree f⟩⟩
termination_by b => sizeOf b
decreasing_by exact FlowDoc.sizeOf_slot_lt ‹_› ‹_›

end

end

variable (doc : EditorDocument)

def mapFlow (flowId : String) (fn : FlowDoc → FlowDoc) : EditorDocument :=
  { doc with flows := doc.flows.map (mapFlowTree flowId fn) }

/-- The visit of `findFlow`: the flow itself, the first hit in a slot, the error chain. -/
def visitFlow (flowId : String) : FlowDoc → Option FlowDoc
  | ⟨head, process, error⟩ =>
    if head.id = flowId then some ⟨head, process, error⟩
    else
      match (process.flatMap fun b => b.slots.flatMap fun s =>
          s.flows.flatMap fun f => (visitFlow flowId f).toList).head? with
      | some hit => some hit
      | none =>
        match error with
        | none => none
        | some e => visitFlow flowId e
termination_by f => sizeOf f
decreasing_by
  · refine FlowDoc.sizeOf_sub_lt (b := b) (s := s) ?_ ?_ ?_ <;> assumption
  · decreasing_tactic

def findFlow (flowId : String) : Option FlowDoc :=
  doc.flows.findSome? (visitFlow flowId)

/-! ## What is reachable -/

def flowsOf : FlowDoc → List FlowDoc
  | ⟨head, process, error⟩ =>
    ⟨head, process, error⟩ ::
      ((process.flatMap fun b => b.slots.flatMap fun s => s.flows.flatMap fun f => flowsOf f) ++
        match error with
        | none => []
        | some e => flowsOf e)
termination_by f => sizeOf f
decreasing_by
  · refine FlowDoc.sizeOf_sub_lt (b := b) (s := s) ?_ ?_ ?_ <;> assumption
  · decreasing_tactic

def EditorDocument.allFlows : List FlowDoc := doc.flows.flatMap flowsOf

def EditorDocument.blocks : List BlockNode :=
  doc.allFlows.flatMap FlowDoc.process

def EditorDocument.flowIds : List String := doc.allFlows.map FlowDoc.id

def EditorDocument.blockIds : List String := doc.blocks.map BlockNode.id

end Octo.Editor
