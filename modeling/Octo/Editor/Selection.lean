import Octo.Editor.Reducer
import Octo.Foundation.Trace

/-!
# The selection pointers

The editor's state points into its document: at the active flow, the selected block, the flow whose
source is selected and the selected connection.  `removeFlow` and `removeSlotFlow` drop the pointers
that no longer resolve; `removeBlock` drops the pointer to the block itself only, and
`moveBlockAcross` points at its target flow even when that flow went away with the block.

* `Has.mapFlowTree`, `Has.mapBlockTree` — what an update by id keeps.
* `selection_resolves` — in a run of such actions, the pointers resolve in every state reached.
* `removed_loop_leaves_active_flow` — a removed loop whose body is the active flow.
-/

namespace Octo.Editor

open List Option EditorState Octo.Types
open Octo.Foundation (Along along_induction)

/-! ## What a document holds -/

inductive Node where
  | flow (id : String)
  | block (id : String)
  deriving DecidableEq

/-- A flow holds a node: itself, its blocks, and what the flows below it hold. -/
inductive FlowDoc.Has : FlowDoc → Node → Prop where
  | self (f : FlowDoc) : Has f (.flow f.id)
  | block {f : FlowDoc} {b : BlockNode} (hb : b ∈ f.process) : Has f (.block b.id)
  | sub {f g : FlowDoc} {x : Node} (hg : g ∈ f.children) (hx : Has g x) : Has f x

def BlockNode.Inside (b : BlockNode) (x : Node) : Prop := ∃ g ∈ b.subflows, g.Has x

def EditorDocument.Has (doc : EditorDocument) (x : Node) : Prop := ∃ f ∈ doc.flows, f.Has x

variable {f : FlowDoc} {x : Node}

theorem FlowDoc.Has.inside {b : BlockNode} (hb : b ∈ f.process) (hx : b.Inside x) : f.Has x := by
  obtain ⟨g, hg, hx⟩ := hx
  exact .sub (mem_append_left _ (mem_flatMap.2 ⟨b, hb, hg⟩)) hx

theorem FlowDoc.Has.error {e : FlowDoc} (he : f.error = some e) (hx : e.Has x) : f.Has x :=
  .sub (mem_append_right _ (by simp [he])) hx

theorem FlowDoc.has_iff : f.Has x ↔ x = .flow f.id ∨
    (∃ b ∈ f.process, x = .block b.id ∨ b.Inside x) ∨ ∃ e, f.error = some e ∧ e.Has x := by
  constructor
  · intro h
    cases h with
    | self => exact .inl rfl
    | block hb => exact .inr (.inl ⟨_, hb, .inl rfl⟩)
    | sub hg hx =>
      rcases mem_append.1 hg with hg | hg
      · obtain ⟨b, hb, hg⟩ := mem_flatMap.1 hg
        exact .inr (.inl ⟨b, hb, .inr ⟨_, hg, hx⟩⟩)
      · exact .inr (.inr ⟨_, mem_toList.1 hg, hx⟩)
  · rintro (rfl | ⟨b, hb, rfl | hx⟩ | ⟨e, he, hx⟩)
    · exact .self f
    · exact .block hb
    · exact .inside hb hx
    · exact .error he hx

/-! ## Finding a node -/

variable {flowId : String}

theorem FlowDoc.has_flow_iff (f : FlowDoc) :
    f.Has (.flow flowId) ↔ ∃ g ∈ flowsOf f, g.id = flowId := by
  induction f using FlowDoc.children_induction with
  | step f ih =>
    rw [flowsOf_eq]
    constructor
    · intro h
      cases h with
      | self => exact ⟨f, mem_cons_self, rfl⟩
      | sub hg hx =>
        obtain ⟨k, hk, hid⟩ := (ih _ hg).1 hx
        exact ⟨k, mem_cons_of_mem _ (mem_flatMap.2 ⟨_, hg, hk⟩), hid⟩
    · rintro ⟨k, hk, rfl⟩
      rcases mem_cons.1 hk with rfl | hk
      · exact .self _
      · obtain ⟨g, hg, hk⟩ := mem_flatMap.1 hk
        exact .sub hg ((ih g hg).2 ⟨k, hk, rfl⟩)

variable {doc : EditorDocument}

theorem findFlow_isSome :
    (findFlow doc flowId).isSome ↔ doc.Has (.flow flowId) := by
  simp only [findFlow_eq_find, find?_isSome, EditorDocument.allFlows, mem_flatMap,
    decide_eq_true_eq, EditorDocument.Has, FlowDoc.has_flow_iff]
  constructor
  · rintro ⟨g, ⟨f, hf, hg⟩, hid⟩
    exact ⟨f, hf, g, hg, hid⟩
  · rintro ⟨f, hf, g, hg, hid⟩
    exact ⟨g, ⟨f, hf, hg⟩, hid⟩

variable {blockId : String}

theorem mem_visitBlock {b hit : BlockNode} : hit ∈ (if b.id = blockId then [b]
      else b.slots.flatMap fun s => s.flows.flatMap fun f => (visitBlock blockId f).toList) ↔
    (b.id = blockId ∧ hit = b) ∨
      (b.id ≠ blockId ∧ ∃ g ∈ b.subflows, visitBlock blockId g = some hit) := by
  split
  next hid =>
    simp [hid]
  next hid =>
    simp only [hid, false_and, false_or, not_false_eq_true, true_and, ne_eq, mem_flatMap,
      mem_toList, BlockNode.subflows]
    constructor
    · rintro ⟨s, hs, g, hg, hhit⟩
      exact ⟨g, ⟨s, hs, hg⟩, hhit⟩
    · rintro ⟨g, ⟨s, hs, hg⟩, hhit⟩
      exact ⟨s, hs, g, hg, hhit⟩

theorem visitBlock_isSome (f : FlowDoc) :
    (visitBlock blockId f).isSome ↔ f.Has (.block blockId) := by
  induction f using FlowDoc.children_induction with
  | step f ih =>
    have hsub : ∀ b ∈ f.process, ∀ g ∈ b.subflows, g ∈ f.children := fun b hb g hg =>
      mem_append_left _ (mem_flatMap.2 ⟨b, hb, hg⟩)
    have hchain : ∀ e, f.error = some e → e ∈ f.children := fun e he =>
      mem_append_right _ (by simp [he])
    rw [FlowDoc.has_iff]
    obtain ⟨head, process, error⟩ := f
    rw [visitBlock.eq_def]
    dsimp only
    split
    · -- a hit among the blocks and in their slots
      rename_i hit hhead
      obtain ⟨b, hb, hhit⟩ := mem_flatMap.1 (mem_of_head? hhead)
      refine iff_of_true rfl (.inr (.inl ⟨b, hb, ?_⟩))
      rcases mem_visitBlock.1 hhit with ⟨hid, -⟩ | ⟨-, g, hg, hvisit⟩
      · exact .inl (congrArg Node.block hid.symm)
      · exact .inr ⟨g, hg, (ih g (hsub b hb g hg)).1 (by simp [hvisit])⟩
    · -- none: the error chain decides
      rename_i hhead
      have hnone : ∀ b ∈ process, ¬(Node.block blockId = .block b.id ∨
          b.Inside (.block blockId)) := by
        intro b hb hin
        have hempty := flatMap_eq_nil_iff.1 (head?_eq_none_iff.1 hhead) b hb
        by_cases hid : b.id = blockId
        · exact absurd (mem_visitBlock.2 (.inl ⟨hid, rfl⟩)) (by rw [hempty]; simp)
        · rcases hin with heq | ⟨g, hg, hx⟩
          · exact hid (Node.block.inj heq).symm
          · obtain ⟨hit, hvisit⟩ := isSome_iff_exists.1 ((ih g (hsub b hb g hg)).2 hx)
            exact absurd (mem_visitBlock.2 (.inr ⟨hid, g, hg, hvisit⟩)) (by rw [hempty]; simp)
      have hblocks : ¬∃ b ∈ process, Node.block blockId = .block b.id ∨
          b.Inside (.block blockId) := by
        rintro ⟨b, hb, hin⟩
        exact hnone b hb hin
      rw [or_iff_right hblocks]
      cases error with
      | none => simp
      | some e => simpa using ih e (hchain e rfl)

theorem findBlock_isSome :
    (findBlock doc blockId).isSome ↔ doc.Has (.block blockId) := by
  simp [findBlock, visitBlock_isSome, EditorDocument.Has]

/-! ## Updates by id -/

section MapFlow

variable {flowId : String} {fn : FlowDoc → FlowDoc} {x : Node}

theorem FlowDoc.Has.mapFlowTree_child {g : FlowDoc} (hid : f.id ≠ flowId) (hg : g ∈ f.children)
    (hx : (mapFlowTree flowId fn g).Has x) : (mapFlowTree flowId fn f).Has x := by
  refine .sub ?_ hx
  rw [mapFlowTree_children hid]
  exact mem_map_of_mem hg

theorem FlowDoc.Has.mapFlowTree (h : f.Has x)
    (hfn : ∀ g ∈ flowsOf f, g.id = flowId → g.Has x → (fn g).Has x) :
    (mapFlowTree flowId fn f).Has x := by
  by_cases hid : f.id = flowId
  · rw [mapFlowTree_of_id hid]
    exact hfn f (mem_flowsOf_self f) hid h
  · induction h with
    | self f =>
      have hkept : (Editor.mapFlowTree flowId fn f).id = f.id := by
        rw [mapFlowTree_of_ne hid]
        rfl
      exact hkept ▸ .self _
    | @block f b hb =>
      have hkept : (mapBlock flowId fn b).id = b.id := mapBlock_id b
      rw [mapFlowTree_of_ne hid]
      exact hkept ▸ .block (mem_map_of_mem hb)
    | @sub f g x hg hx ih =>
      have hbelow : ∀ k ∈ flowsOf g, k ∈ flowsOf f := fun k hk => by
        rw [flowsOf_eq f]
        exact mem_cons_of_mem _ (mem_flatMap.2 ⟨g, hg, hk⟩)
      refine .mapFlowTree_child hid hg ?_
      by_cases hid' : g.id = flowId
      · rw [mapFlowTree_of_id hid']
        exact hfn g (hbelow g (mem_flowsOf_self g)) hid' hx
      · exact ih (fun k hk => hfn k (hbelow k hk)) hid'

/-- **An update applied somewhere adds** what it adds to every flow it is applied to. -/
theorem FlowDoc.Has.mapFlowTree_new (h : f.Has (.flow flowId))
    (hfn : ∀ g : FlowDoc, g.id = flowId → (fn g).Has x) : (Editor.mapFlowTree flowId fn f).Has x := by
  induction f using FlowDoc.children_induction with
  | step f ih =>
    by_cases hid : f.id = flowId
    · rw [mapFlowTree_of_id hid]
      exact hfn f hid
    · cases h with
      | self => exact absurd rfl hid
      | sub hg hx => exact .mapFlowTree_child hid hg (ih _ hg hx)

variable {doc : EditorDocument}

theorem EditorDocument.Has.mapFlow (h : doc.Has x)
    (hfn : ∀ g ∈ doc.allFlows, g.id = flowId → g.Has x → (fn g).Has x) :
    (mapFlow doc flowId fn).Has x := by
  obtain ⟨f, hf, hx⟩ := h
  refine ⟨_, mem_map_of_mem hf, hx.mapFlowTree fun g hg => ?_⟩
  exact hfn g (mem_flatMap.2 ⟨f, hf, hg⟩)

theorem EditorDocument.Has.mapFlow_new (h : doc.Has (.flow flowId))
    (hfn : ∀ g : FlowDoc, g.id = flowId → (fn g).Has x) : (Editor.mapFlow doc flowId fn).Has x := by
  obtain ⟨f, hf, hx⟩ := h
  exact ⟨_, mem_map_of_mem hf, hx.mapFlowTree_new hfn⟩

end MapFlow

/-! ## Updates of a block by id -/

section MapBlock

variable {blockId : String} {fn : BlockNode → BlockNode} {x : Node}

theorem mem_children_mapBlockLevel (hsub : ∀ b, ∀ g ∈ b.subflows, g ∈ (fn b).subflows)
    {walk : FlowDoc → FlowDoc} {g : FlowDoc} (hg : g ∈ f.children) :
    walk g ∈ (mapBlockLevel blockId fn walk f).children := by
  rcases mem_append.1 hg with hg | hg
  · obtain ⟨b, hb, hg⟩ := mem_flatMap.1 hg
    have hnext : g ∈ (if b.id = blockId then fn b else b).subflows := by
      split
      · exact hsub b g hg
      · exact hg
    obtain ⟨s, hs, hg⟩ := mem_flatMap.1 hnext
    refine mem_append_left _ (mem_flatMap.2 ⟨_, mem_map_of_mem hb, ?_⟩)
    exact mem_flatMap.2 ⟨_, mem_map_of_mem hs, mem_map_of_mem hg⟩
  · refine mem_append_right _ ?_
    simp [mapBlockLevel, mem_toList.1 hg]

/-- **An update of blocks keeps every node** when it keeps the id and the sub-flows of a block. -/
theorem FlowDoc.Has.mapBlockTree (hid : ∀ b, (fn b).id = b.id)
    (hsub : ∀ b, ∀ g ∈ b.subflows, g ∈ (fn b).subflows) (h : f.Has x) (n : Nat) :
    (mapBlockTree blockId fn n f).Has x := by
  induction h generalizing n with
  | self f =>
    cases n with
    | zero => exact .self f
    | succ => exact .self (mapBlockLevel blockId fn _ f)
  | @block f b hb =>
    cases n with
    | zero => exact .block hb
    | succ n =>
      have hkept : (if b.id = blockId then fn b else b).id = b.id := by
        split
        · exact hid b
        · rfl
      have hmem : ∃ b' ∈ (Editor.mapBlockTree blockId fn (n + 1) f).process, b'.id = b.id :=
        ⟨_, mem_map_of_mem hb, hkept⟩
      obtain ⟨b', hb', hid'⟩ := hmem
      exact hid' ▸ .block hb'
  | sub hg hx ih =>
    cases n with
    | zero => exact .sub hg hx
    | succ n => exact .sub (mem_children_mapBlockLevel hsub hg) (ih n)

theorem mem_setSlot {field : String} {flows : List FlowDoc} {g : FlowDoc} :
    ∀ {slots : List Slot}, g ∈ slots.flatMap Slot.flows →
      (∀ s, slots.find? (·.field = field) = some s → s.flows ⊆ flows) →
      g ∈ (setSlot slots field flows).flatMap Slot.flows
  | [], h, _ => absurd h (by simp)
  | s :: rest, h, hflows => by
    rw [flatMap_cons, mem_append] at h
    unfold setSlot
    split
    next hfield =>
      rw [flatMap_cons, mem_append]
      exact h.imp_left fun hg => hflows s (by simp [hfield]) hg
    next hfield =>
      rw [flatMap_cons, mem_append]
      refine h.imp_right fun hg => mem_setSlot hg fun t ht => hflows t ?_
      rwa [find?_cons_of_neg (by simpa using hfield)]

theorem BlockNode.slot_of_find {b : BlockNode} {field : String} {s : Slot}
    (h : b.slots.find? (·.field = field) = some s) : b.slot field = s.flows := by
  simp [BlockNode.slot, h]

end MapBlock

/-! ## What is applied to a flow -/

theorem FlowDoc.Has.of_head {g : FlowDoc} (h : f.Has x) (hid : g.id = f.id)
    (hprocess : g.process = f.process) (herror : g.error = f.error) : g.Has x := by
  rw [FlowDoc.has_iff] at h ⊢
  rwa [hid, hprocess, herror]

theorem FlowDoc.Has.withProcess {g : List BlockNode → List BlockNode}
    (h : f.Has x) (hg : ∀ b ∈ f.process, (x = .block b.id ∨ b.Inside x) → b ∈ g f.process) :
    (f.withProcess g).Has x := by
  rw [FlowDoc.has_iff] at h ⊢
  rcases h with hself | ⟨b, hb, hx⟩ | herror
  · exact .inl hself
  · exact .inr (.inl ⟨b, hg b hb hx, hx⟩)
  · exact .inr (.inr herror)

/-! ## Updates that lose nothing -/

structure Covers (doc doc' : EditorDocument) : Prop where
  nodes : ∀ x, doc.Has x → doc'.Has x
  connections : ∀ c ∈ doc.connectors, ∃ c' ∈ doc'.connectors, c'.id = c.id

section Covers

variable {doc : EditorDocument}

theorem covers_mapFlow {fn : FlowDoc → FlowDoc}
    (hfn : ∀ (g : FlowDoc) x, g.Has x → (fn g).Has x) : Covers doc (mapFlow doc flowId fn) :=
  ⟨fun _ hx => hx.mapFlow fun g _ _ hg => hfn g _ hg, fun c hc => ⟨c, hc, rfl⟩⟩

theorem covers_mapHead (flowId : String) (fn : FlowDoc → FlowDoc)
    (hfn : ∀ g, (fn g).id = g.id ∧ (fn g).process = g.process ∧ (fn g).error = g.error) :
    Covers doc (mapFlow doc flowId fn) :=
  covers_mapFlow fun g _ hx => hx.of_head (hfn g).1 (hfn g).2.1 (hfn g).2.2

theorem covers_mapBlockById {fn : BlockNode → BlockNode}
    (hid : ∀ b, (fn b).id = b.id) (hsub : ∀ b, ∀ g ∈ b.subflows, g ∈ (fn b).subflows) :
    Covers doc (mapBlockById doc blockId fn) := by
  refine ⟨fun x hx => ?_, fun c hc => ⟨c, hc, rfl⟩⟩
  obtain ⟨f, hf, hx⟩ := hx
  exact ⟨_, mem_map_of_mem hf, hx.mapBlockTree hid hsub _⟩

theorem covers_connectors {fn : ConnectorInstance → ConnectorInstance} {id : String}
    (hfn : ∀ c, (fn c).id = c.id) : Covers doc
      { doc with connectors := doc.connectors.map fun c => if c.id = id then fn c else c } := by
  refine ⟨fun x hx => hx, fun c hc => ⟨_, mem_map_of_mem hc, ?_⟩⟩
  split
  · exact hfn c
  · rfl

end Covers

/-! ## The pointers -/

structure Resolved (state : EditorState) : Prop where
  activeFlow : ∀ id, state.activeFlowId = some id → (findFlow state.document id).isSome
  selectedBlock : ∀ id, state.selectedBlockId = some id → (findBlock state.document id).isSome
  selectedSource : ∀ id, state.selectedSourceFlowId = some id → (findFlow state.document id).isSome
  selectedConnection : ∀ id, state.selectedConnectionId = some id →
    ∃ c ∈ state.document.connectors, c.id = id

def EditorState.pointers (state : EditorState) : List Node :=
  state.activeFlowId.toList.map .flow ++ state.selectedBlockId.toList.map .block ++
    state.selectedSourceFlowId.toList.map .flow

theorem resolved_iff {state : EditorState} : Resolved state ↔
    (∀ x ∈ state.pointers, state.document.Has x) ∧
      ∀ id, state.selectedConnectionId = some id → ∃ c ∈ state.document.connectors, c.id = id := by
  constructor
  · rintro ⟨hactive, hblock, hsource, hconn⟩
    refine ⟨fun x hx => ?_, hconn⟩
    simp only [pointers, mem_append, List.mem_map, mem_toList] at hx
    rcases hx with (⟨id, hid, rfl⟩ | ⟨id, hid, rfl⟩) | ⟨id, hid, rfl⟩
    · exact findFlow_isSome.1 (hactive id hid)
    · exact findBlock_isSome.1 (hblock id hid)
    · exact findFlow_isSome.1 (hsource id hid)
  · rintro ⟨hnodes, hconn⟩
    refine ⟨fun id hid => findFlow_isSome.2 (hnodes _ ?_),
      fun id hid => findBlock_isSome.2 (hnodes _ ?_),
      fun id hid => findFlow_isSome.2 (hnodes _ ?_), hconn⟩ <;>
    simp [pointers, hid]

theorem Resolved.withDocument {state : EditorState} (h : Resolved state)
    (hdoc : Covers state.document doc) : Resolved { state with document := doc } := by
  rw [resolved_iff] at h ⊢
  refine ⟨fun x hx => hdoc.nodes x (h.1 x hx), fun id hid => ?_⟩
  obtain ⟨c, hc, rfl⟩ := h.2 id hid
  exact hdoc.connections c hc

/-! ## Actions -/

/-- The ids and indexes of an action resolve in a document: an optional id that is given does, and
the indexes of a move are inside the chain of the flow, of each one should several share the id. -/
def Action.Resolves (doc : EditorDocument) : Action → Prop
  | .addBlock _ flowId index =>
    ∀ id ∈ flowId, ∃ flow ∈ findFlow doc id, ∀ i ∈ index, i ≤ flow.process.length
  | .moveBlock flowId fromIndex toIndex => (findFlow doc flowId).isSome ∧ ∀ f ∈ doc.allFlows,
      f.id = flowId → fromIndex < f.process.length ∧ toIndex < f.process.length
  | .moveBlockAcross fromFlowId toFlowId blockId index =>
    (∃ flow ∈ findFlow doc fromFlowId, ∃ b ∈ flow.process, b.id = blockId) ∧
      ∃ flow ∈ findFlow doc toFlowId, ∀ i ∈ index, i ≤ flow.process.length
  | .removeBlock flowId blockId =>
    ∃ flow ∈ findFlow doc flowId, ∃ b ∈ flow.process, b.id = blockId
  | .removeFlow flowId => ∃ f ∈ doc.flows, f.id = flowId
  | .renameFlow flowId _ | .setActiveFlow flowId | .addSource flowId _ _
  | .updateSourceSetting flowId _ _ | .updateSourceConnector flowId _ | .removeSource flowId
  | .setFlowMeta flowId _ => (findFlow doc flowId).isSome
  | .selectBlock blockId => ∀ id ∈ blockId, (findBlock doc id).isSome
  | .updateBlockSetting blockId _ _ | .renameBlock blockId _ | .addSlotFlow blockId _ =>
    (findBlock doc blockId).isSome
  | .removeSlotFlow blockId field flowId =>
    ∃ b ∈ findBlock doc blockId, ∃ f ∈ b.slot field, f.id = flowId
  | .selectSource flowId => ∀ id ∈ flowId, (findFlow doc id).isSome
  | .selectConnection connectionId => ∀ id ∈ connectionId, ∃ c ∈ doc.connectors, c.id = id
  | .renameConnection id _ | .updateConnectionSetting id _ _ | .removeConnection id =>
    ∃ c ∈ doc.connectors, c.id = id
  | _ => True

/-- No pointer goes away with the block an action takes out of a chain: none of the state when it is
removed, and not the flow it is moved to. -/
def Action.Spares (state : EditorState) : Action → Prop
  | .removeBlock flowId blockId => ∀ f ∈ state.document.allFlows, f.id = flowId →
      ∀ b ∈ f.process, b.id = blockId → ∀ x ∈ state.pointers, ¬b.Inside x
  | .moveBlockAcross fromFlowId toFlowId blockId _ => ∀ f ∈ state.document.allFlows,
      f.id = fromFlowId → ∀ b ∈ f.process, b.id = blockId → ¬b.Inside (.flow toFlowId)
  | _ => True

instance (f : FlowDoc) : (x : Node) → Decidable (f.Has x)
  | .flow _ => decidable_of_iff _ (FlowDoc.has_flow_iff f).symm
  | .block _ => decidable_of_iff _ (visitBlock_isSome f)

instance (b : BlockNode) (x : Node) : Decidable (b.Inside x) :=
  inferInstanceAs (Decidable (∃ g ∈ b.subflows, g.Has x))

instance (doc : EditorDocument) (action : Action) : Decidable (action.Resolves doc) := by
  cases action <;> dsimp only [Action.Resolves] <;> infer_instance

instance (state : EditorState) (action : Action) : Decidable (action.Spares state) := by
  cases action <;> dsimp only [Action.Spares] <;> infer_instance

section Handlers

variable {state : EditorState} {ids : Nat → String}

variable {doc : EditorDocument} {flowId : String}

theorem resolved_of_nodes {activeFlowId selectedBlockId : Option String}
    (hflow : ∀ id, activeFlowId = some id → doc.Has (.flow id))
    (hblock : ∀ id, selectedBlockId = some id → doc.Has (.block id)) :
    Resolved ⟨doc, activeFlowId, selectedBlockId, none, none⟩ :=
  ⟨fun id hid => findFlow_isSome.2 (hflow id hid),
    fun id hid => findBlock_isSome.2 (hblock id hid), nofun, nofun⟩

theorem loadDocument_resolved (doc : EditorDocument) : Resolved (loadDocument doc) := by
  refine resolved_of_nodes (fun id hid => ?_) nofun
  obtain ⟨f, hf, rfl⟩ := map_eq_some_iff.1 hid
  exact ⟨f, mem_of_head? hf, .self f⟩

theorem addFlow_resolved : Resolved (addFlow state ids) := by
  refine resolved_of_nodes (fun id hid => ?_) nofun
  cases hid
  exact ⟨_, mem_append_right _ mem_cons_self, .self _⟩

variable {index : Option Nat}

theorem insert_resolved {block : BlockNode} (h : doc.Has (.flow flowId)) :
    Resolved ⟨mapFlow doc flowId fun flow =>
        flow.withProcess fun process => spliceIn process (index.getD process.length) block,
      some flowId, some block.id, none, none⟩ := by
  refine resolved_of_nodes (fun id hid => ?_) fun id hid => ?_
  · cases hid
    exact h.mapFlow fun g _ hid _ => hid ▸ .self (g.withProcess _)
  · cases hid
    exact h.mapFlow_new fun g _ => .block (mem_spliceIn.2 (.inl rfl))

theorem addBlock_resolved {blockType : String} {flowId : Option String} :
    Resolved (addBlock state ids blockType flowId index) := by
  unfold addBlock
  dsimp only
  split
  · have hnew : ∀ (flow : FlowDoc), flow ∈ state.document.flows ++ [flow] := by simp
    refine resolved_of_nodes (fun id hid => ?_) fun id hid => ?_
    · cases hid
      exact ⟨_, hnew _, .self _⟩
    · cases hid
      exact ⟨_, hnew _, .block (mem_singleton.2 rfl)⟩
  next hflow =>
    rw [not_or, Bool.not_eq_true, isNone_eq_false_iff] at hflow
    rw [updateFlow, if_neg hflow.1]
    exact insert_resolved (findFlow_isSome.1 hflow.2)

theorem moveBlock_resolved {i j : Nat} (h : Resolved state) :
    Resolved (moveBlock state flowId i j) := by
  refine h.withDocument ?_
  unfold updateFlow
  split
  · exact ⟨fun _ hx => hx, fun c hc => ⟨c, hc, rfl⟩⟩
  · refine covers_mapFlow fun g x hx => hx.withProcess fun b hb _ => ?_
    exact (arrayMove_perm g.process i j).mem_iff.2 hb

theorem FlowDoc.Has.without (h : f.Has x)
    (hne : x ≠ .block blockId) (hout : ∀ b ∈ f.process, b.id = blockId → ¬b.Inside x) :
    (f.withProcess fun process => process.filter (·.id ≠ blockId)).Has x := by
  refine h.withProcess fun b hb hx => ?_
  refine mem_filter.2 ⟨hb, decide_eq_true fun hid => ?_⟩
  rcases hx with rfl | hin
  · exact hne (congrArg Node.block hid)
  · exact hout b hb hid hin

theorem moveBlockAcross_resolved {fromFlowId toFlowId : String}
    (h : Resolved state) (hflow : (findFlow state.document toFlowId).isSome)
    (hspares : (Action.moveBlockAcross fromFlowId toFlowId blockId index).Spares state) :
    Resolved (moveBlockAcross state fromFlowId toFlowId blockId index) := by
  unfold moveBlockAcross
  split
  · exact h
  · split
    · exact h
    · refine insert_resolved ?_
      refine (findFlow_isSome.1 hflow).mapFlow fun f hf hid hx => ?_
      exact hx.without nofun (hspares f hf hid)

theorem removeBlock_resolved (h : Resolved state)
    (hspares : (Action.removeBlock flowId blockId).Spares state) :
    Resolved (removeBlock state flowId blockId) := by
  rw [resolved_iff] at h ⊢
  -- the pointers left are pointers of the state, and none is the block
  have hleft : ∀ x ∈ (removeBlock state flowId blockId).pointers,
      x ∈ state.pointers ∧ (x ≠ .block blockId) := by
    intro x hx
    simp only [pointers, removeBlock, mem_append, List.mem_map,
      mem_toList, ite_none_left_eq_some] at hx ⊢
    rcases hx with (⟨id, hid, rfl⟩ | ⟨id, ⟨hne, hid⟩, rfl⟩) | ⟨id, hid, rfl⟩
    · exact ⟨.inl (.inl ⟨id, hid, rfl⟩), nofun⟩
    · exact ⟨.inl (.inr ⟨id, hid, rfl⟩), fun heq => hne (Node.block.inj heq ▸ hid)⟩
    · exact ⟨.inr ⟨id, hid, rfl⟩, nofun⟩
  unfold removeBlock updateFlow at *
  split
  · exact ⟨fun x hx => h.1 x (hleft x hx).1, h.2⟩
  · refine ⟨fun x hx => (h.1 x (hleft x hx).1).mapFlow fun f hf hid hx' => ?_, h.2⟩
    exact hx'.without (hleft x hx).2 fun b hb hbid => hspares f hf hid b hb hbid x (hleft x hx).1

theorem liveFlow_resolves {flowId : Option String} {id : String} (h : liveFlow doc flowId = some id) :
    (findFlow doc id).isSome :=
  (of_decide_eq_true (filter_eq_some_iff.1 h).2).2

theorem liveBlock_resolves {blockId : Option String} {id : String}
    (h : liveBlock doc blockId = some id) : (findBlock doc id).isSome :=
  (of_decide_eq_true (filter_eq_some_iff.1 h).2).2

theorem withLivePointers_resolved (h : Resolved state)
    (hconn : doc.connectors = state.document.connectors) :
    Resolved (withLivePointers state doc) := by
  refine ⟨fun id => liveFlow_resolves, fun id => liveBlock_resolves, fun id => liveFlow_resolves,
    fun id hid => ?_⟩
  show ∃ c ∈ doc.connectors, c.id = id
  rw [hconn]
  exact h.selectedConnection id hid

theorem addSource_resolved {connector type : String}
    (hflow : (findFlow state.document flowId).isSome) :
    Resolved (addSource state flowId connector type) := by
  have hkept : (findFlow (addSource state flowId connector type).document flowId).isSome := by
    rw [findFlow_isSome] at hflow ⊢
    exact hflow.mapFlow fun g _ _ hx => hx.of_head rfl rfl rfl
  refine ⟨fun id hid => ?_, nofun, fun id hid => ?_, nofun⟩
  · exact Option.some.inj hid ▸ hkept
  · exact Option.some.inj hid ▸ hkept

variable (h : Resolved state)
include h

theorem selectSource_resolved {flowId : Option String}
    (hflow : ∀ id, flowId = some id → (findFlow state.document id).isSome) :
    Resolved (selectSource state flowId) := by
  refine ⟨fun id hid => ?_, nofun, hflow, nofun⟩
  rcases or_eq_some_iff.1 hid with hid | ⟨-, hid⟩
  · exact hflow id hid
  · exact h.activeFlow id hid

theorem removeSource_resolved : Resolved (removeSource state flowId) := by
  have hdoc := h.withDocument
    (covers_mapHead flowId (FlowDoc.withSource · none) fun g => ⟨rfl, rfl, rfl⟩)
  refine ⟨hdoc.activeFlow, hdoc.selectedBlock, fun id hid => ?_, hdoc.selectedConnection⟩
  exact hdoc.selectedSource id (ite_none_left_eq_some.1 hid).2

theorem addConnection_resolved {toLowerCase : String → String} {type : String} : Resolved (addConnection state ids toLowerCase type) := by
  refine ⟨h.activeFlow, nofun, nofun, fun id hid => ?_⟩
  exact ⟨_, mem_append_right _ mem_cons_self, Option.some.inj hid⟩

theorem removeConnection_resolved {connectionId : String} :
    Resolved (removeConnection state connectionId) := by
  refine ⟨h.activeFlow, h.selectedBlock, h.selectedSource, fun id hid => ?_⟩
  obtain ⟨hne, hid⟩ := ite_none_left_eq_some.1 hid
  obtain ⟨c, hc, rfl⟩ := h.selectedConnection id hid
  refine ⟨c, mem_filter.2 ⟨hc, decide_eq_true fun heq => hne ?_⟩, rfl⟩
  rw [hid, heq]

theorem addSlotFlow_resolved {field : String} :
    Resolved (addSlotFlow state ids blockId field) := by
  refine h.withDocument (covers_mapBlockById (fun b => rfl) fun b g hg => ?_)
  refine mem_setSlot hg fun s hs => ?_
  rw [BlockNode.slot_of_find hs]
  exact subset_append_left _ _

end Handlers

/-! ## Runs -/

-- `String.prototype.toLowerCase`
variable {toLowerCase : String → String}

/-- **Every action keeps the pointers**, when its ids resolve and no pointer goes away. -/
theorem reducer_resolved {state : ReducerState} {ids : Nat → String} {action : Action}
    (h : Resolved state.toEditorState) (hids : action.Resolves state.document)
    (hspares : action.Spares state.toEditorState) :
    Resolved (reducer toLowerCase state ids action).toEditorState := by
  cases action with
  | addFlow => exact addFlow_resolved
  | addBlock => exact addBlock_resolved
  | moveBlock => exact moveBlock_resolved h
  | moveBlockAcross =>
    obtain ⟨-, flow, hflow, -⟩ := hids
    exact moveBlockAcross_resolved h (isSome_of_mem hflow) hspares
  | removeBlock => exact removeBlock_resolved h hspares
  | removeFlow => exact withLivePointers_resolved h rfl
  | renameFlow => exact h.withDocument (covers_mapHead _ _ fun g => ⟨rfl, rfl, rfl⟩)
  | selectBlock => exact ⟨h.activeFlow, hids, nofun, nofun⟩
  | updateBlockSetting =>
    exact h.withDocument (covers_mapBlockById (fun b => rfl) fun b g hg => hg)
  | renameBlock =>
    exact h.withDocument (covers_mapBlockById (fun b => rfl) fun b g hg => hg)
  | setActiveFlow =>
    refine ⟨fun id hid => ?_, nofun, nofun, nofun⟩
    exact Option.some.inj hid ▸ hids
  | addSource => exact addSource_resolved hids
  | selectSource => exact selectSource_resolved h hids
  | updateSourceSetting =>
    exact h.withDocument (covers_mapHead _ _ fun g => ⟨rfl, rfl, rfl⟩)
  | updateSourceConnector =>
    exact h.withDocument (covers_mapHead _ _ fun g => ⟨rfl, rfl, rfl⟩)
  | removeSource => exact removeSource_resolved h
  | addConnection => exact addConnection_resolved h
  | selectConnection => exact ⟨h.activeFlow, nofun, nofun, hids⟩
  | renameConnection => exact h.withDocument (covers_connectors fun c => rfl)
  | updateConnectionSetting =>
    exact h.withDocument (covers_connectors fun c => rfl)
  | removeConnection => exact removeConnection_resolved h
  | addSlotFlow => exact addSlotFlow_resolved h
  | removeSlotFlow => exact withLivePointers_resolved h rfl
  | setFlowMeta flowId value =>
    refine h.withDocument (covers_mapHead _ _ fun g => ?_)
    cases value <;> exact ⟨rfl, rfl, rfl⟩
  | setEnv => exact h.withDocument ⟨fun x hx => hx, fun c hc => ⟨c, hc, rfl⟩⟩
  | loadDocument document => exact loadDocument_resolved document
  | loadIntegration id name folderId document => exact loadDocument_resolved document
  | newIntegration => exact loadDocument_resolved _
  | setIntegrationId _ | setIntegrationTitle _ | setIntegrationFolder _ | setViewMode _
  | selectComponent _ | clearSelection => exact h

abbrev Dispatch := Action × (Nat → String)

def dispatch (toLowerCase : String → String) (state : ReducerState) (d : Dispatch) : ReducerState :=
  reducer toLowerCase state d.2 d.1

/-- **The selection never dangles** in a run from the initial state in which the ids and indexes of
every action resolve as it is dispatched and no pointer is inside a block that is taken out. -/
theorem selection_resolves {run : List Dispatch} (h : Along (dispatch toLowerCase)
      (fun state d => d.1.Resolves state.document ∧ d.1.Spares state.toEditorState) initialState run) :
    Resolved (run.foldl (dispatch toLowerCase) initialState).toEditorState := by
  refine along_induction (Q := fun s => Resolved s.toEditorState) ?_ ?_ h
  · intro s d hs hd
    exact reducer_resolved hs hd.1 hd.2
  · exact ⟨nofun, nofun, nofun, nofun⟩

def loopRun : List Dispatch :=
  let ids : Nat → String := fun n => ["loop", "body", "main", "errors"].getD n ""
  [(.addBlock "foreach" none none, ids), (.addBlock "log" (some "body") (some 0), fun _ => "entry"),
    (.removeBlock "main" "loop", ids)]

theorem removed_loop_keeps_outer_flow :
    Resolved ((loopRun.insertIdx 2 (.setActiveFlow "main", fun _ => "")).foldl
      (dispatch String.toLower) initialState).toEditorState := by
  refine selection_resolves ⟨⟨?_, ?_⟩, ⟨?_, ?_⟩, ⟨?_, ?_⟩, ⟨?_, ?_⟩, trivial⟩ <;> decide +kernel

theorem removed_loop_leaves_active_flow :
    Along (dispatch String.toLower) (fun state d => d.1.Resolves state.document) initialState
      loopRun ∧ ¬Resolved (loopRun.foldl (dispatch String.toLower) initialState).toEditorState := by
  refine ⟨⟨by decide +kernel, by decide +kernel, by decide +kernel, trivial⟩, fun h => ?_⟩
  have hactive : (loopRun.foldl (dispatch String.toLower) initialState).activeFlowId = some "body" := by
    decide +kernel
  exact absurd (h.activeFlow "body" hactive) (by decide +kernel)

end Octo.Editor
