import Octo.Editor.Validate
import Octo.Runtime.Registry

/-!
# The flow namespace, in the editor and at run time

The editor collects the names of every flow it can walk to, nested ones included; the runtime
registers the top-level flows without a source (in invoke mode, all top-level flows).

* `names_agree_iff` — editor and runtime agree on duplicates and on `flow-ref` targets exactly when
  no name of a flow that is not registered is used again, no `flow-ref` names such a flow, and
  every `flow-ref` the editor does not look at names a registered one.
-/

namespace Octo.Editor

open List BlockNode Octo.Types
open Octo.Config (RuntimeFlow RuntimeBlock RuntimeSlot)
open Octo.Runtime (callableNames)

/-! ## Duplicates -/

def Issue.IsLocal : Issue → Prop
  | .noFlow => False
  | .duplicateConnection _ => False
  | .duplicateFlow _ => False
  | _ => True

variable {doc : EditorDocument}

theorem checkFields_local {fields : List FieldSpec} {settings : Settings}
    {label : String} : ∀ i ∈ checkFields doc fields settings label, i.IsLocal := by
  intro i hi
  obtain ⟨field, -, hi⟩ := mem_flatMap.1 hi
  unfold checkField at hi
  split at hi
  · dsimp only at hi
    split at hi
    · split at hi
      · rw [mem_singleton.1 hi]
        trivial
      · cases hi
    · split at hi
      · cases hi
      · rw [mem_singleton.1 hi]
        trivial
  · dsimp only at hi
    split at hi
    · rw [mem_singleton.1 hi]
      trivial
    · cases hi

theorem checkSource_local {source : SourceNode} {label : String} :
    ∀ i ∈ checkSource doc source label, i.IsLocal := by
  intro i hi
  unfold checkSource at hi
  split at hi
  · split at hi
    · rw [mem_singleton.1 hi]
      trivial
    · rcases mem_append.1 hi with hi | hi
      · exact checkFields_local i hi
      · split at hi
        · split at hi
          · cases hi
          · rw [mem_singleton.1 hi]
            trivial
        · split at hi
          · rw [mem_singleton.1 hi]
            trivial
          · cases hi
  · rw [mem_singleton.1 hi]
    trivial

theorem checkFlow_local (doc : EditorDocument) (f : FlowDoc) :
    ∀ label, ∀ i ∈ checkFlow doc f label, i.IsLocal := by
  induction f using FlowDoc.induction with
  | step f ih _ =>
    intro label i hi
    rw [checkFlow_eq] at hi
    rcases mem_append.1 hi with hi | hi
    · cases hsource : f.head.source with
      | none => simp [hsource] at hi
      | some =>
        rw [hsource] at hi
        exact checkSource_local i hi
    · obtain ⟨b, hb, hi⟩ := mem_flatMap.1 hi
      rw [checkBlock_eq] at hi
      split at hi
      · rw [mem_singleton.1 hi]
        trivial
      · rcases mem_append.1 hi with hi | hi
        · exact checkFields_local i hi
        · obtain ⟨field, -, hi⟩ := mem_flatMap.1 hi
          rcases mem_append.1 hi with hi | hi
          · split at hi
            · rw [mem_singleton.1 hi]
              trivial
            · cases hi
          · obtain ⟨⟨sub, k⟩, hsub, hi⟩ := mem_flatMap.1 hi
            obtain ⟨g, hg, rfl⟩ := mem_map.1 (fst_mem_of_mem_zipIdx hsub)
            split at hi
            · -- a sub-flow in a slot: the issues are those of its own check
              obtain ⟨s, hs, hgs⟩ := mem_slot hg
              exact ih b hb s hs g hgs _ i hi
            · cases hi

/-- **Duplicate flow names**: reported exactly for the non-empty names the walk meets twice. -/
theorem duplicateFlow_mem_iff (doc : EditorDocument) (name : String) :
    .duplicateFlow name ∈ validateDocument doc ↔ name ≠ "" ∧ 2 ≤ (flowNames doc).count name := by
  rw [← mem_duplicateNames_iff]
  constructor
  · intro h
    simp only [validateDocument, mem_append] at h
    rcases h with (((h | h) | h) | h) | h
    · split at h <;> simp at h
    · simp at h
    · simpa using h
    · obtain ⟨c, -, h⟩ := mem_flatMap.1 h
      unfold checkConnector at h
      split at h
      · simp at h
      · exact (checkFields_local _ h).elim
    · obtain ⟨⟨f, k⟩, -, h⟩ := mem_flatMap.1 h
      rcases mem_append.1 h with h | h
      · split at h <;> simp at h
      · exact (checkFlow_local doc f _ _ h).elim
  · intro h
    simp only [validateDocument, mem_append]
    exact .inl (.inl (.inr (mem_map.2 ⟨name, h, rfl⟩)))

/-! ## Which names are registered -/

variable (invokeMode : Bool)

def FlowDoc.isImplicit (f : FlowDoc) : Bool :=
  f.head.source.isNone || invokeMode

def nestedNames (f : FlowDoc) : List String :=
  f.process.flatMap fun b => b.slots.flatMap fun s => s.flows.flatMap visitNames

/-- The names `flowNames` collects from flows the runtime does not register. -/
def unregistered (doc : EditorDocument) : List String :=
  doc.flows.flatMap fun f =>
    (if f.isImplicit invokeMode then [] else (truthy f.head.name).toList) ++ nestedNames f

theorem visitNames_eq (f : FlowDoc) : visitNames f = (truthy f.head.name).toList ++ nestedNames f := by
  obtain ⟨head, process, error⟩ := f
  rw [visitNames, nestedNames]

variable (invokeMode : Bool)

variable (doc : EditorDocument)

theorem callableNames_toConfig :
    callableNames invokeMode (toConfig doc) =
      (doc.flows.filter (·.isImplicit invokeMode)).map (·.head.name) := by
  unfold callableNames toConfig
  generalize doc.connectors = connectors
  simp only [filter_map]
  simp [Function.comp_def, flowToRuntime_head, flowHeadToRuntime, getD_truthy,
    FlowDoc.isImplicit]

theorem count_flowNames {name : String}
    (h : name ≠ "") : (flowNames doc).count name =
      (callableNames invokeMode (toConfig doc)).count name +
        (unregistered invokeMode doc).count name := by
  rw [callableNames_toConfig]
  unfold flowNames unregistered
  induction doc.flows with
  | nil => rfl
  | cons f flows ih =>
    have hname : (truthy f.head.name).toList.count name = if f.head.name = name then 1 else 0 := by
      unfold truthy
      split
      next hempty =>
        simp [hempty, Ne.symm h]
      · simp [count_singleton]
    simp only [flatMap_cons, count_append, visitNames_eq, filter_cons]
    by_cases himp : f.isImplicit invokeMode = true
    · simp only [himp, if_true, map_cons, count_cons, count_nil, beq_iff_eq]
      omega
    · simp only [himp, Bool.false_eq_true, if_false]
      omega

theorem mem_flowNames_iff {name : String}
    (h : name ≠ "") : name ∈ flowNames doc ↔
      name ∈ callableNames invokeMode (toConfig doc) ∨ name ∈ unregistered invokeMode doc := by
  rw [← one_le_count_iff, ← one_le_count_iff, ← one_le_count_iff, count_flowNames invokeMode doc h]
  omega

/-! ## Which blocks are written -/

variable (b : BlockNode)

/-- The sub-flows under a field that are written as flows; a `flow` field holds one. -/
def writtenFlows (field : FieldSpec) : List FlowDoc := match field.type with
  | .flow => (b.slot field.name).head?.toList
  | .flowList | .caseList | .routeList | .toolList => b.slot field.name
  | _ => []

def writtenChain (field : FieldSpec) : List BlockNode := match field.type with
  | .blockList => (b.slot field.name).head?.elim [] (·.process)
  | _ => []

/-- `flowToRuntime` on a flow runs `blockToRuntime` on this block. -/
inductive Written : FlowDoc → BlockNode → Prop where
  | process {f : FlowDoc} {b : BlockNode} : b ∈ f.process → Written f b
  | error {f e : FlowDoc} {b : BlockNode} : f.error = some e → b ∈ e.process → Written f b
  | sub {f g : FlowDoc} {b c : BlockNode} {spec : BlockSpec} {field : FieldSpec} :
      Written f c → getBlockSpec c.head.type = some spec → field ∈ spec.fields →
      g ∈ writtenFlows c field → Written g b → Written f b
  | chain {f : FlowDoc} {b c : BlockNode} {spec : BlockSpec} {field : FieldSpec} :
      Written f c → getBlockSpec c.head.type = some spec → field ∈ spec.fields →
      b ∈ writtenChain c field → Written f b

section Wire

variable (connectors : List ConnectorInstance)

end Wire

/-! ## Agreement -/

def BlockNode.target : String := currentRef (b.head.settings.lookup "flow")

variable (doc : EditorDocument)

/-- A `flow-ref` block that is written to the config document. -/
def EditorDocument.WritesRef (b : BlockNode) : Prop :=
  b.head.type = "flow-ref" ∧ ∃ f ∈ doc.flows, Written f b

def EditorDocument.Accepts (b : BlockNode) : Prop :=
  ∀ path, doc.Visited b path → checkBlock doc b path = []

/-- **One namespace**: the editor reports a duplicate exactly when two flows register under one
name, and accepts a `flow-ref` exactly when a flow without a source registers under its target. -/
def NamesAgree : Prop :=
  (∀ name, .duplicateFlow name ∈ validateDocument doc ↔
    name ≠ "" ∧ 2 ≤ (callableNames invokeMode (toConfig doc)).count name) ∧
  ∀ b, doc.WritesRef b → (doc.Accepts b ↔
    b.target ≠ "" ∧ b.target ∈ callableNames false (toConfig doc))

/-- The names of nested and sourced flows are kept apart from those that can be called. -/
structure NamesApart (invokeMode : Bool) (doc : EditorDocument) : Prop where
  /-- a name of an unregistered flow is used again only if two registered flows share it too -/
  shared : ∀ name ∈ unregistered invokeMode doc, name ≠ "" → 2 ≤ (flowNames doc).count name →
    2 ≤ (callableNames invokeMode (toConfig doc)).count name
  /-- no `flow-ref` the check looks at names a flow that only exists nested or with a source -/
  checked : ∀ b, doc.WritesRef b → (∃ path, doc.Visited b path) → b.target ≠ "" →
    b.target ∈ unregistered false doc → b.target ∈ callableNames false (toConfig doc)
  /-- every `flow-ref` the check does not look at names a flow that can be called -/
  unchecked : ∀ b, doc.WritesRef b → (¬ ∃ path, doc.Visited b path) →
    b.target ≠ "" ∧ b.target ∈ callableNames false (toConfig doc)

theorem checkBlock_flowRef {b : BlockNode} (h : b.head.type = "flow-ref")
    (path : String) :
    checkBlock doc b path = [] ↔ b.target ≠ "" ∧ b.target ∈ flowNames doc := by
  have hspec : getBlockSpec b.head.type = some specFlowRef := by
    rw [h]
    decide
  rw [checkBlock_eq, hspec]
  have hslots : specFlowRef.fields.filter isSlotField = [] := by decide
  have hfields : specFlowRef.fields.filter (!isSlotField ·) = specFlowRef.fields := by decide
  simp only [hslots, checkFields, hfields]
  simp only [specFlowRef, needed, preset, field, flatMap_cons, checkField, referenceOptions,
    mem_eraseDups]
  show _ ↔ currentRef _ ≠ "" ∧ currentRef _ ∈ flowNames doc
  split
  · simp [*]
  · split <;> simp [*]

theorem duplicates_agree_iff :
    (∀ name, .duplicateFlow name ∈ validateDocument doc ↔
      name ≠ "" ∧ 2 ≤ (callableNames invokeMode (toConfig doc)).count name) ↔
    ∀ name ∈ unregistered invokeMode doc, name ≠ "" → 2 ≤ (flowNames doc).count name →
      2 ≤ (callableNames invokeMode (toConfig doc)).count name := by
  constructor
  · intro hagree name _ hne htwice
    exact ((hagree name).1 ((duplicateFlow_mem_iff doc name).2 ⟨hne, htwice⟩)).2
  · intro hshared name
    rw [duplicateFlow_mem_iff]
    refine and_congr_right fun hne => ?_
    have hcount := count_flowNames invokeMode doc hne
    constructor
    · intro htwice
      by_cases hmem : name ∈ unregistered invokeMode doc
      · exact hshared name hmem hne htwice
      · rw [count_eq_zero_of_not_mem hmem] at hcount
        omega
    · intro htwice
      omega

/-- **Editor and runtime agree on the flow namespace.** -/
theorem names_agree_iff (invokeMode : Bool) (doc : EditorDocument) :
    NamesAgree invokeMode doc ↔ NamesApart invokeMode doc := by
  constructor
  · rintro ⟨hdup, href⟩
    refine ⟨(duplicates_agree_iff invokeMode doc).1 hdup, ?_, ?_⟩
    · intro b hb _ hne hmem
      refine ((href b hb).1 fun path _ => ?_).2
      exact (checkBlock_flowRef doc hb.1 path).2
        ⟨hne, (mem_flowNames_iff false doc hne).2 (.inr hmem)⟩
    · intro b hb hnot
      exact (href b hb).1 fun path hv => absurd ⟨path, hv⟩ hnot
  · rintro ⟨hshared, hchecked, hunchecked⟩
    refine ⟨(duplicates_agree_iff invokeMode doc).2 hshared, fun b hb => ?_⟩
    constructor
    · intro haccepts
      by_cases hv : ∃ path, doc.Visited b path
      · obtain ⟨path, hpath⟩ := hv
        obtain ⟨hne, hmem⟩ := (checkBlock_flowRef doc hb.1 path).1 (haccepts path hpath)
        rcases (mem_flowNames_iff false doc hne).1 hmem with hmem | hmem
        · exact ⟨hne, hmem⟩
        · exact ⟨hne, hchecked b hb ⟨path, hpath⟩ hne hmem⟩
      · exact hunchecked b hb hv
    · rintro ⟨hne, hmem⟩ path _
      exact (checkBlock_flowRef doc hb.1 path).2
        ⟨hne, (mem_flowNames_iff false doc hne).2 (.inl hmem)⟩

/-! ## A document on which they disagree -/

def payloadNode : BlockNode :=
  ⟨{ id := "p", type := "set-payload", settings := [("value", .str "1")] }, []⟩

def agentNode (id tool : String) : BlockNode :=
  ⟨{ id := id, type := "ai-agent"
     settings := [("connector", .str "llm"), ("prompt", .str "answer")] },
    [⟨"tools", [⟨{ id := id, name := tool, description := some "look it up" }, [payloadNode], none⟩]⟩]⟩

def refNode (flow : String) : BlockNode :=
  ⟨{ id := "r", type := "flow-ref", settings := [("flow", .str flow)] }, []⟩

/-- Two agents that each have a tool `lookup`, and a call of a flow of that name. -/
def sharedTools : EditorDocument :=
  { flows := [⟨{ id := "f", name := "main" },
      [agentNode "a" "lookup", agentNode "b" "lookup", refNode "lookup"], none⟩]
    connectors := [⟨"c", "llm", "llm-anthropic", [("apiKey", .str "k")]⟩]
    processors := [], env := [] }

theorem flowNames_sharedTools : flowNames sharedTools = ["main", "lookup", "lookup"] := by
  simp [flowNames, sharedTools, visitNames, agentNode, refNode, payloadNode, truthy]

/-- The shared tool name is reported although nothing registers under it, and a call of the tool is
accepted. -/
theorem shared_tool_name_disagrees :
    (.duplicateFlow "lookup" ∈ validateDocument sharedTools ∧
      "lookup" ∉ callableNames true (toConfig sharedTools)) ∧
    ∃ b, sharedTools.WritesRef b ∧ sharedTools.Accepts b ∧
      b.target ∉ callableNames false (toConfig sharedTools) := by
  have hcallable : ∀ mode, callableNames mode (toConfig sharedTools) = ["main"] := by
    intro mode
    rw [callableNames_toConfig]
    simp [sharedTools, FlowDoc.isImplicit]
  refine ⟨⟨?_, by simp [hcallable]⟩, refNode "lookup", ⟨rfl, _, .head _, .process ?_⟩, ?_, ?_⟩
  · rw [duplicateFlow_mem_iff, flowNames_sharedTools]
    decide
  · simp
  · intro path _
    rw [checkBlock_flowRef _ rfl, flowNames_sharedTools]
    simp [target, refNode, currentRef, jsString]
  · simp [hcallable, target, refNode, currentRef, jsString]

end Octo.Editor
