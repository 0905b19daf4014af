import Octo.Editor.Serialize
import Octo.Foundation.Trim
import Mathlib.Data.List.Count

/-!
# The editor's pre-flight check

`validate.ts` and the name helpers of `identity.ts`.  An issue keeps the parts of its message;
`Issue.text` is the message.

* `mem_duplicateNames_iff` — a name is reported exactly when it occurs twice.
-/

namespace Octo.Editor

open List Octo.Types
open Octo.Foundation (isWhiteSpace)

/-! ## Issues -/

/-- One entry of `ValidationResult.issues`. -/
inductive Issue where
  | noFlow
  | duplicateConnection (name : String)
  | duplicateFlow (name : String)
  | unknownConnector (label type : String)
  | required (label field : String)
  | dangling (label field target : String)
  | incompleteSource (label : String)
  | unknownSource (label connector type : String)
  | missingConnection (label ref : String)
  | ambiguousConnection (label connector : String)
  | unknownBlock (path type : String)
  | emptyBranch (label field : String)
  | emptyFlow (label : String)
deriving DecidableEq

def Issue.text : Issue → String
  | .noFlow => "Add at least one flow to run."
  | .duplicateConnection name => "Connection name \"" ++ name ++ "\" is used more than once."
  | .duplicateFlow name => "Flow name \"" ++ name ++ "\" is used more than once."
  | .unknownConnector label type => label ++ ": unknown connector type \"" ++ type ++ "\"."
  | .required label field => label ++ ": " ++ field ++ " is required."
  | .dangling label field target =>
    label ++ ": " ++ field ++ " references \"" ++ target ++ "\", which doesn't exist."
  | .incompleteSource label => label ++ ": source is incomplete (pick a connector and type)."
  | .unknownSource label connector type =>
    label ++ ": unknown source \"" ++ connector ++ "/" ++ type ++ "\"."
  | .missingConnection label ref => label ++ ": source connection \"" ++ ref ++ "\" doesn't exist."
  | .ambiguousConnection label connector =>
    label ++ ": multiple " ++ connector ++ " connections exist — choose one for the source."
  | .unknownBlock path type => path ++ ": unknown block type \"" ++ type ++ "\"."
  | .emptyBranch label field => label ++ ": " ++ field ++ " needs at least one step."
  | .emptyFlow label => label ++ " is empty (add a source or a step)."

/-! ## Names -/

/-- `duplicateNames`, with the names seen so far: the empty name is ignored. -/
def duplicateNamesFrom (seen dupes : List String) : List String → List String
  | [] => dupes
  | name :: rest =>
    if name = "" then duplicateNamesFrom seen dupes rest
    else if name ∈ seen then
      duplicateNamesFrom seen (if name ∈ dupes then dupes else dupes ++ [name]) rest
    else duplicateNamesFrom (name :: seen) dupes rest

def duplicateNames (names : List String) : List String := duplicateNamesFrom [] [] names

/-- The visit of `flowNames`: the flow and the flows in the slots of its process chain. -/
def visitNames : FlowDoc → List String
  | ⟨head, process, _⟩ =>
    (truthy head.name).toList ++
      process.flatMap fun b => b.slots.flatMap fun s => s.flows.flatMap fun f => visitNames f
termination_by f => sizeOf f
decreasing_by refine FlowDoc.sizeOf_sub_lt (b := b) (s := s) ?_ ?_ ?_ <;> assumption

variable (doc : EditorDocument)

def flowNames : List String := doc.flows.flatMap visitNames

def referenceOptions : ReferenceSpec → List String
  | .connectorType type =>
    (doc.connectors.filter fun c => c.type = type ∧ c.name ≠ "").map (·.name)
  | .connectorCategory category =>
    (doc.connectors.filter fun c =>
      ((getConnectorSpec c.type).bind (·.category)) = some category ∧ c.name ≠ "").map (·.name)
  | .flow => (flowNames doc).eraseDups

/-! ## Fields -/

/-- Whether a setting counts as not provided. -/
def isEmpty : Option Value → Bool
  | none => true
  | some .null => true
  | some (.str s) => s.toList.all isWhiteSpace
  | some (.arr items) => items.isEmpty
  | some (.obj fields) => fields.isEmpty
  | some (.gmap entries) => entries.isEmpty
  | some _ => false

/-- Whether a value is `null`. -/
def isNull : Value → Bool
  | .null => true
  | _ => false

/-- `String(value)`; `null` joins as the empty string. -/
def jsString : Value → String
  | .null => "null"
  | .bool b => toString b
  | .int n => toString n
  | .float text => text
  -- the parser of the editor makes none of these
  | .time text => text
  | .str s => s
  | .arr items => ",".intercalate (items.map fun v => if isNull v then "" else jsString v)
  | .obj _ => "[object Object]"
  | .gmap _ => "[object Object]"
termination_by v => sizeOf v

def currentRef : Option Value → String
  | none => ""
  | some .null => ""
  | some v => jsString v

def checkField (settings : Settings) (label : String) (field : FieldSpec) :
    List Issue :=
  let value := settings.lookup field.name
  match field.ref with
  | some ref =>
    let current := currentRef value
    if current = "" then
      if field.required then [.required label field.label] else []
    else if current ∈ referenceOptions doc ref then []
    else [.dangling label field.label current]
  | none => if field.required && isEmpty value then [.required label field.label] else []

def checkFields (fields : List FieldSpec) (settings : Settings)
    (label : String) : List Issue :=
  (fields.filter (!isSlotField ·)).flatMap (checkField doc settings label)

/-! ## Sources, blocks and flows -/

def checkSource (source : SourceNode) (label : String) : List Issue :=
  match source.connector.bind truthy, source.type.bind truthy with
  | some connector, some type =>
    match getSourceSpec connector type with
    | none => [.unknownSource label connector type]
    | some spec =>
      let matching := doc.connectors.filter (·.type = connector)
      checkFields doc spec.fields source.settings (label ++ " source") ++
        match source.connectorRef.bind truthy with
        | some ref =>
          if matching.any (·.name = ref) then [] else [.missingConnection label ref]
        | none => if 2 ≤ matching.length then [.ambiguousConnection label connector] else []
  | _, _ => [.incompleteSource label]

abbrev CheckedFlow := Bool × (String → List Issue)

/-- The label `checkBlock` gives a block. -/
def blockLabel (head : NodeHead) (path : String) : String :=
  path ++ " › " ++
    ((head.name.bind truthy).getD (((getBlockSpec head.type).map (·.label)).getD head.type))

/-- The label of the `i`-th of `n` sub-flows in a slot. -/
def subLabel (label : String) (field : FieldSpec) (n i : Nat) : String :=
  label ++ " › " ++ field.label ++ if 1 < n then " #" ++ toString (i + 1) else ""

/-- The part of `checkBlock` about one slot field. -/
def checkSlot (label : String) (field : FieldSpec) (subs : List CheckedFlow) : List Issue :=
  (if field.required && (subs.filter (·.1)).isEmpty then [.emptyBranch label field.label] else []) ++
    subs.zipIdx.flatMap fun sub =>
      if sub.1.1 then sub.1.2 (subLabel label field subs.length sub.2) else []

/-- `checkBlock`, given the checks of the sub-flows in every slot. -/
def checkNode (head : NodeHead) (path : String)
    (slots : List (String × List CheckedFlow)) : List Issue :=
  match getBlockSpec head.type with
  | none => [.unknownBlock path head.type]
  | some spec =>
    checkFields doc spec.fields head.settings (blockLabel head path) ++
      (spec.fields.filter isSlotField).flatMap fun field =>
        checkSlot (blockLabel head path) field ((slots.lookup field.name).getD [])

section Check

variable (doc : EditorDocument)

mutual

/-- `checkFlow` of a sub-flow. -/
def checkFlow : FlowDoc → String → List Issue
  | ⟨head, process, _⟩, label =>
    (head.source.elim [] fun source => checkSource doc source label) ++
      process.flatMap fun b => checkBlock b label
termination_by f _ => sizeOf f

def checkBlock : BlockNode → String → List Issue
  | ⟨head, slots⟩, path =>
    checkNode doc head path (slots.map fun s =>
      (s.field, s.flows.map fun f => (!f.process.isEmpty, fun label => checkFlow f label)))
termination_by b _ => sizeOf b
decreasing_by exact FlowDoc.sizeOf_slot_lt ‹_› ‹_›

end

/-- `checkFlow` of a top-level flow. -/
def checkTopFlow (flow : FlowDoc) (label : String) : List Issue :=
  (if flow.head.source.isNone && flow.process.isEmpty then [.emptyFlow label] else []) ++
    checkFlow doc flow label

def checkConnector (conn : ConnectorInstance) : List Issue :=
  let label := "Connection \"" ++ (truthy conn.name).getD conn.type ++ "\""
  match getConnectorSpec conn.type with
  | none => [.unknownConnector label conn.type]
  | some spec => checkFields doc spec.settings conn.settings label

def topLabel (flow : FlowDoc) (i : Nat) : String :=
  "Flow \"" ++ (truthy flow.head.name).getD ("#" ++ toString (i + 1)) ++ "\""

/-- The document is fine when there is no issue. -/
def validateDocument : List Issue := (if doc.flows.isEmpty then [.noFlow] else []) ++
    (duplicateNames (doc.connectors.map (·.name))).map .duplicateConnection ++
    (duplicateNames (flowNames doc)).map .duplicateFlow ++
    doc.connectors.flatMap (checkConnector doc) ++
    doc.flows.zipIdx.flatMap fun f => checkTopFlow doc f.1 (topLabel f.1 f.2)

end Check

/-! ## What is reported -/

theorem mem_duplicateNamesFrom_iff {name : String} : ∀ (names seen dupes : List String),
    name ∈ duplicateNamesFrom seen dupes names ↔
      name ∈ dupes ∨ (name ≠ "" ∧ name ∈ names ∧ (name ∈ seen ∨ 2 ≤ names.count name))
  | [], seen, dupes => by simp [duplicateNamesFrom]
  | n :: rest, seen, dupes => by
    unfold duplicateNamesFrom
    split
    next hn =>
      rw [mem_duplicateNamesFrom_iff rest]
      by_cases h : name = n
      · simp [h, hn]
      · simp [h, count_cons_of_ne (Ne.symm h)]
    next hn =>
      split
      next hseen =>
        rw [mem_duplicateNamesFrom_iff rest]
        by_cases h : name = n
        · subst h
          have hadd : name ∈ (if name ∈ dupes then dupes else dupes ++ [name]) := by
            split <;> simp_all
          simp [hadd, hn, hseen]
        · have hadd : name ∈ (if n ∈ dupes then dupes else dupes ++ [n]) ↔ name ∈ dupes := by
            split <;> simp [h]
          simp [hadd, h, count_cons_of_ne (Ne.symm h)]
      next hseen =>
        rw [mem_duplicateNamesFrom_iff rest]
        by_cases h : name = n
        · subst h
          simp [hseen]
        · simp [h, count_cons_of_ne (Ne.symm h)]

theorem mem_duplicateNames_iff (names : List String) (name : String) :
    name ∈ duplicateNames names ↔ name ≠ "" ∧ 2 ≤ names.count name := by
  unfold duplicateNames
  rw [mem_duplicateNamesFrom_iff]
  have hmem : 2 ≤ names.count name → name ∈ names := fun h =>
    one_le_count_iff.1 (by omega)
  constructor
  · rintro (h | ⟨hne, -, h | h⟩)
    · simp at h
    · simp at h
    · exact ⟨hne, h⟩
  · exact fun ⟨hne, h⟩ => .inr ⟨hne, hmem h, .inr h⟩

/-- `checkFlow` on a flow under a label runs `checkBlock` on this block under this path. -/
inductive Visited : FlowDoc → String → BlockNode → String → Prop where
  | here {f : FlowDoc} {label : String} {b : BlockNode} : b ∈ f.process → Visited f label b label
  | nested {f : FlowDoc} {label path : String} {b c : BlockNode} {spec : BlockSpec}
      {field : FieldSpec} {sub : FlowDoc} {i : Nat} :
      b ∈ f.process → getBlockSpec b.head.type = some spec → field ∈ spec.fields →
      isSlotField field = true → (sub, i) ∈ (b.slot field.name).zipIdx → sub.process ≠ [] →
      Visited sub (subLabel (blockLabel b.head label) field (b.slot field.name).length i) c path →
      Visited f label c path

def EditorDocument.Visited (b : BlockNode) (path : String) : Prop :=
  ∃ f i, (f, i) ∈ doc.flows.zipIdx ∧ Editor.Visited f (topLabel f i) b path

theorem checkFlow_eq (f : FlowDoc) (label : String) : checkFlow doc f label =
      (f.head.source.elim [] fun source => checkSource doc source label) ++
        f.process.flatMap fun b => checkBlock doc b label := by
  obtain ⟨head, process, error⟩ := f
  rw [checkFlow]

theorem lookup_slots {α : Type} (g : FlowDoc → α) (b : BlockNode) (name : String) :
    ((b.slots.map fun s => (s.field, s.flows.map g)).lookup name).getD [] =
      (b.slot name).map g := by
  unfold BlockNode.slot
  generalize b.slots = slots
  induction slots with
  | nil => rfl
  | cons s slots ih =>
    by_cases h : s.field = name
    · simp [h]
    · have hne : (name == s.field) = false := by simpa using Ne.symm h
      simpa [lookup_cons, h, hne] using ih

theorem checkBlock_eq (b : BlockNode) (path : String) :
    checkBlock doc b path = match getBlockSpec b.head.type with
      | none => [.unknownBlock path b.head.type]
      | some spec =>
        checkFields doc spec.fields b.head.settings (blockLabel b.head path) ++
          (spec.fields.filter isSlotField).flatMap fun field =>
            checkSlot (blockLabel b.head path) field ((b.slot field.name).map fun f =>
                (!f.process.isEmpty, fun label => checkFlow doc f label)) := by
  obtain ⟨head, slots⟩ := b
  rw [checkBlock, checkNode]
  simp [← lookup_slots]

end Octo.Editor
