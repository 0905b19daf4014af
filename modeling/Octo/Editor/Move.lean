import Mathlib.Data.List.Perm.Basic
import Octo.Editor.Tree

/-!
# Moving blocks

`handlers.ts` and `DndProvider.tsx`: a drop on an insertion gap becomes MOVE_BLOCK inside one flow
or MOVE_BLOCK_ACROSS between two.  The move across flows removes the block from its flow and then
inserts it in the target, both addressed by id.

* `drag_preserves_iff` — a drag keeps every block, in number and identity, and changes nothing but
  the position of the dragged one **if and only if** the target flow is not inside that block.
* `drop_into_own_slot_loses_block` — dropping a composite on a gap in its own slot removes it,
  with everything in it, from the document.
-/

namespace Octo.Editor

open List Option EditorDocument

/-- The part of `EditorState` that moves read and write. -/
structure EditorState where
  document : EditorDocument
  activeFlowId : Option String
  selectedBlockId : Option String
  selectedSourceFlowId : Option String
  selectedConnectionId : Option String

inductive MoveAction where
  | moveBlock (flowId : String) (fromIndex toIndex : Nat)
  | moveBlockAcross (fromFlowId toFlowId blockId : String) (index : Option Nat)
  deriving DecidableEq

/-! ## The handlers -/

/-- `next.splice(index, 0, item)`: past the end it appends. -/
def spliceIn {α : Type} (items : List α) (index : Nat) (item : α) : List α :=
  items.take index ++ item :: items.drop index

/-- `arrayMove`.  No dispatched move has an index past the end; there it changes nothing. -/
def arrayMove {α : Type} (items : List α) (fromIndex toIndex : Nat) : List α :=
  match items[fromIndex]? with
  | none => items
  | some moved => spliceIn (items.eraseIdx fromIndex) toIndex moved

def FlowDoc.withProcess (f : FlowDoc) (g : List BlockNode → List BlockNode) : FlowDoc :=
  { f with process := g f.process }

variable (state : EditorState)

def updateFlow (flowId : String) (fn : FlowDoc → FlowDoc) : EditorDocument :=
  if flowId = "" then state.document else mapFlow state.document flowId fn

def moveBlock (flowId : String) (fromIndex toIndex : Nat) : EditorState :=
  { state with
    document := updateFlow state flowId fun flow =>
      flow.withProcess fun process => arrayMove process fromIndex toIndex }

def moveBlockAcross (fromFlowId toFlowId blockId : String)
    (index : Option Nat) : EditorState :=
  if fromFlowId = toFlowId then state
  else
    match (findFlow state.document fromFlowId).bind fun flow =>
        flow.process.find? (·.id = blockId) with
    | none => state
    | some block =>
      let withoutBlock := mapFlow state.document fromFlowId fun flow =>
        flow.withProcess fun process => process.filter (·.id ≠ blockId)
      let document := mapFlow withoutBlock toFlowId fun flow =>
        flow.withProcess fun process => spliceIn process (index.getD process.length) block
      { document
        activeFlowId := some toFlowId
        selectedBlockId := some block.id
        selectedSourceFlowId := none
        selectedConnectionId := none }

def reduceMove : MoveAction → EditorState
  | .moveBlock flowId fromIndex toIndex => moveBlock state flowId fromIndex toIndex
  | .moveBlockAcross fromFlowId toFlowId blockId index =>
    moveBlockAcross state fromFlowId toFlowId blockId index

/-- `handleDragEnd` of a block dragged on the canvas: `fromFlowId` is the flow of the drag data,
`flowId` and `index` are the gap. -/
def handleDragEnd (blockId fromFlowId flowId : String) (index : Nat) :
    Option MoveAction :=
  if fromFlowId ≠ flowId then some (.moveBlockAcross fromFlowId flowId blockId (some index))
  else
    match findFlow state.document flowId with
    | none => none
    | some flow =>
      match flow.process.findIdx? (·.id = blockId) with
      | none => none
      | some idx =>
        if index = idx ∨ index = idx + 1 then none
        else
          let toIndex := if index > idx then index - 1 else index
          some (.moveBlock flowId idx toIndex)

def dragBlock (blockId fromFlowId flowId : String) (index : Nat) :
    EditorState :=
  match handleDragEnd state blockId fromFlowId flowId index with
  | none => state
  | some action => reduceMove state action

/-! ## What a move must keep -/

def eraseTree (blockId : String) : FlowDoc → FlowDoc
  | ⟨head, process, error⟩ =>
    ⟨head, (process.map fun b => BlockNode.mk b.head
        (b.slots.map fun s => ⟨s.field, s.flows.map fun f => eraseTree blockId f⟩)).filter
          (·.id ≠ blockId),
      match error with
      | none => none
      | some e => some (eraseTree blockId e)⟩
termination_by f => sizeOf f
decreasing_by
  · refine FlowDoc.sizeOf_sub_lt (b := b) (s := s) ?_ ?_ ?_ <;> assumption
  · decreasing_tactic

variable (doc : EditorDocument)

def EditorDocument.erase (blockId : String) : EditorDocument :=
  { doc with flows := doc.flows.map (eraseTree blockId) }

structure DistinctIds (doc : EditorDocument) : Prop where
  blocks : doc.blockIds.Nodup
  flows : doc.flowIds.Nodup

/-- Ids stay distinct and only the position of one block changes: the documents agree without it,
and it is still there, unchanged. -/
structure OnlyMoves (blockId : String) (doc doc' : EditorDocument) : Prop where
  ids : doc'.blockIds.Perm doc.blockIds
  distinct : DistinctIds doc'
  others : doc'.erase blockId = doc.erase blockId
  moved : ∀ b ∈ doc.blocks, b.id = blockId → b ∈ doc'.blocks

/-! ## Splicing -/

section Splice

variable {α : Type}

theorem spliceIn_perm (items : List α) (index : Nat) (item : α) :
    (spliceIn items index item).Perm (item :: items) := by
  refine perm_middle.trans ?_
  rw [take_append_drop]

variable {items : List α}

theorem mem_spliceIn {index : Nat} {item x : α} :
    x ∈ spliceIn items index item ↔ x = item ∨ x ∈ items := by
  rw [(spliceIn_perm items index item).mem_iff, mem_cons]

theorem filter_spliceIn {index : Nat} {item : α} {p : α → Bool}
    (h : p item = false) : (spliceIn items index item).filter p = items.filter p := by
  unfold spliceIn
  rw [filter_append, filter_cons_of_neg (by simp [h]), ← filter_append, take_append_drop]

theorem arrayMove_perm (items : List α) (i j : Nat) : (arrayMove items i j).Perm items := by
  unfold arrayMove
  split
  · exact List.Perm.refl _
  next moved h =>
    refine (spliceIn_perm _ _ _).trans ?_
    obtain ⟨hi, rfl⟩ := List.getElem?_eq_some_iff.1 h
    exact (getElem_cons_eraseIdx_perm hi)

theorem filter_arrayMove {i j : Nat} {p : α → Bool}
    (h : ∀ x, items[i]? = some x → p x = false) :
    (arrayMove items i j).filter p = items.filter p := by
  unfold arrayMove
  split
  · rfl
  next moved hm =>
    rw [filter_spliceIn (h moved hm)]
    obtain ⟨hi, rfl⟩ := List.getElem?_eq_some_iff.1 hm
    rw [eraseIdx_eq_take_drop_succ, filter_append]
    conv_rhs => rw [← take_append_drop i items, filter_append,
      drop_eq_getElem_cons hi, filter_cons_of_neg (by simp [h _ hm])]

end Splice

/-! ## The ids of a flow, block by block -/

def blockIdsIn (fs : List FlowDoc) : List String := (sigs fs).flatMap Prod.snd

def flowIdsIn (fs : List FlowDoc) : List String := (sigs fs).map Prod.fst

def BlockNode.blockIds (b : BlockNode) : List String := b.id :: blockIdsIn b.subflows

def BlockNode.flowIds (b : BlockNode) : List String := flowIdsIn b.subflows

theorem EditorDocument.blockIds_eq :
    doc.blockIds = blockIdsIn doc.flows := by
  unfold blockIds blocks allFlows blockIdsIn sigs
  rw [map_flatMap, flatMap_map]
  rfl

theorem EditorDocument.flowIds_eq_sigs :
    doc.flowIds = flowIdsIn doc.flows := by
  simp only [flowIdsIn, sigs, List.map_map]
  rfl

theorem sigs_flatMap (l : List BlockNode) :
    sigs (l.flatMap BlockNode.subflows) = l.flatMap fun b => sigs b.subflows := by
  simp [sigs, flatMap_assoc, map_flatMap]

theorem blockIdsIn_flow (f : FlowDoc) :
    (blockIdsIn [f]).Perm (f.process.flatMap BlockNode.blockIds ++ blockIdsIn f.error.toList) := by
  unfold blockIdsIn
  rw [sigs_singleton, flatMap_cons, FlowDoc.children, sigs_append, flatMap_append,
    ← append_assoc, sigs_flatMap, flatMap_assoc]
  apply List.Perm.append_right
  exact map_append_flatMap_perm _ _ _

theorem flowIdsIn_flow (f : FlowDoc) :
    flowIdsIn [f] = f.id :: (f.process.flatMap BlockNode.flowIds ++ flowIdsIn f.error.toList) := by
  unfold flowIdsIn
  rw [sigs_singleton, map_cons, FlowDoc.children, sigs_append, map_append, sigs_flatMap,
    map_flatMap]
  rfl

variable {f : FlowDoc} {b : BlockNode}

theorem blockIdsIn_add {g : FlowDoc} (he : f.error = g.error)
    (hp : f.process.Perm (b :: g.process)) :
    (blockIdsIn [f]).Perm (b.blockIds ++ blockIdsIn [g]) := by
  refine (blockIdsIn_flow f).trans ?_
  refine ((hp.flatMap_right BlockNode.blockIds).append_right _).trans ?_
  rw [flatMap_cons, append_assoc, he]
  exact ((blockIdsIn_flow g).symm).append_left _

theorem flowIdsIn_add {g : FlowDoc} (hid : f.id = g.id)
    (he : f.error = g.error) (hp : f.process.Perm (b :: g.process)) :
    (flowIdsIn [f]).Perm (b.flowIds ++ flowIdsIn [g]) := by
  rw [flowIdsIn_flow, flowIdsIn_flow, hid, he]
  refine List.Perm.trans ?_ perm_middle.symm
  refine List.Perm.cons _ ?_
  rw [← append_assoc]
  exact (hp.flatMap_right BlockNode.flowIds).append_right _

theorem blockIdsIn_perm {p : List BlockNode} (hp : p.Perm f.process) :
    (blockIdsIn [⟨f.head, p, f.error⟩]).Perm (blockIdsIn [f]) :=
  (blockIdsIn_flow _).trans (((hp.flatMap_right _).append_right _).trans (blockIdsIn_flow f).symm)

theorem flowIdsIn_perm {p : List BlockNode} (hp : p.Perm f.process) :
    (flowIdsIn [⟨f.head, p, f.error⟩]).Perm (flowIdsIn [f]) := by
  rw [flowIdsIn_flow, flowIdsIn_flow]
  exact ((hp.flatMap_right _).append_right _).cons _

/-! ## An update of one flow, seen from the document -/

theorem perm_frame {X Y A B : List String} (L R : List String) (h : (X ++ A).Perm (Y ++ B)) :
    (X ++ (L ++ A ++ R)).Perm (Y ++ (L ++ B ++ R)) := by
  rw [perm_iff_count]
  intro a
  have hc := h.count_eq a
  simp only [count_append] at hc ⊢
  omega

section Focused

variable {flowId : String} {doc : EditorDocument} {g : FlowDoc} {u : FlowDoc → FlowDoc}

variable (hf : Focus flowId doc.flows g)
include hf

theorem mapFlow_blockIds {X Y : List String}
    (h : (X ++ blockIdsIn [u g]).Perm (Y ++ blockIdsIn [g])) :
    (X ++ (mapFlow doc flowId u).blockIds).Perm (Y ++ doc.blockIds) := by
  obtain ⟨-, -, L, R, hs, hfn⟩ := hf
  rw [blockIds_eq, blockIds_eq]
  simp only [mapFlow, blockIdsIn]
  rw [hs, (hfn u).1]
  simp only [flatMap_append]
  exact perm_frame _ _ h

theorem mapFlow_flowIds {X Y : List String}
    (h : (X ++ flowIdsIn [u g]).Perm (Y ++ flowIdsIn [g])) :
    (X ++ (mapFlow doc flowId u).flowIds).Perm (Y ++ doc.flowIds) := by
  obtain ⟨-, -, L, R, hs, hfn⟩ := hf
  rw [flowIds_eq_sigs, flowIds_eq_sigs]
  simp only [mapFlow, flowIdsIn]
  rw [hs, (hfn u).1]
  simp only [map_append]
  exact perm_frame _ _ h

theorem mem_blocks_mapFlow
    (hb : b ∈ (u g).process) : b ∈ (mapFlow doc flowId u).blocks := by
  obtain ⟨-, -, L, R, -, hfn⟩ := hf
  exact mem_flatMap.2 ⟨u g, (hfn u).2, hb⟩

theorem mem_blocks_of_focus (hb : b ∈ g.process) : b ∈ doc.blocks :=
  mem_flatMap.2 ⟨g, hf.2.1, hb⟩

end Focused

variable {doc : EditorDocument}

theorem mapFlow_of_not_mem {flowId : String} {fn : FlowDoc → FlowDoc}
    (h : flowId ∉ doc.flowIds) : mapFlow doc flowId fn = doc := by
  rw [flowIds_eq] at h
  unfold mapFlow
  rw [map_mapFlowTree_of_not_mem h]

/-! ## What stays in place -/

section Erase

variable {blockId flowId : String} {fn : FlowDoc → FlowDoc}

def eraseIn (blockId : String) (b : BlockNode) : BlockNode :=
  ⟨b.head, b.slots.map fun s => ⟨s.field, s.flows.map (eraseTree blockId)⟩⟩

theorem eraseTree_eq (f : FlowDoc) : eraseTree blockId f =
      ⟨f.head, (f.process.filter (·.id ≠ blockId)).map (eraseIn blockId),
        f.error.map (eraseTree blockId)⟩ := by
  obtain ⟨head, process, error⟩ := f
  have hp : (process.map (eraseIn blockId)).filter (·.id ≠ blockId) =
      (process.filter (·.id ≠ blockId)).map (eraseIn blockId) := by
    rw [List.filter_map]
    rfl
  rw [eraseTree.eq_def]
  refine congr (congrArg _ hp) ?_
  cases error <;> rfl

theorem eraseTree_withProcess {g : List BlockNode → List BlockNode}
    (h : (g f.process).filter (·.id ≠ blockId) = f.process.filter (·.id ≠ blockId)) :
    eraseTree blockId (f.withProcess g) = eraseTree blockId f := by
  rw [eraseTree_eq, eraseTree_eq]
  simp only [FlowDoc.withProcess]
  rw [h]

theorem eraseIn_mapBlock
    (h : ∀ f ∈ b.subflows, eraseTree blockId (mapFlowTree flowId fn f) = eraseTree blockId f) :
    eraseIn blockId (mapBlock flowId fn b) = eraseIn blockId b := by
  obtain ⟨head, slots⟩ := b
  rw [mapBlock]
  simp only [eraseIn, List.map_map, BlockNode.mk.injEq, true_and]
  apply List.map_congr_left
  intro s hs
  simp only [Function.comp_apply, List.map_map, Slot.mk.injEq, true_and]
  apply List.map_congr_left
  intro f hf
  exact h f (mem_flatMap.2 ⟨s, hs, hf⟩)

theorem eraseTree_mapFlowTree (f : FlowDoc)
    (h : ∀ g ∈ flowsOf f, g.id = flowId → eraseTree blockId (fn g) = eraseTree blockId g) :
    eraseTree blockId (mapFlowTree flowId fn f) = eraseTree blockId f := by
  induction f using FlowDoc.children_induction with
  | step f ih =>
    by_cases hid : f.id = flowId
    · rw [mapFlowTree_of_id hid]
      exact h f (mem_flowsOf_self f) hid
    · have hchild : ∀ c ∈ f.children,
          eraseTree blockId (mapFlowTree flowId fn c) = eraseTree blockId c := by
        intro c hc
        refine ih c hc fun g hg => h g ?_
        rw [flowsOf_eq]
        exact mem_cons_of_mem _ (mem_flatMap.2 ⟨c, hc, hg⟩)
      rw [mapFlowTree_of_ne hid, eraseTree_eq, eraseTree_eq f]
      have hp : ((f.process.map (mapBlock flowId fn)).filter (·.id ≠ blockId)).map
          (eraseIn blockId) = (f.process.filter (·.id ≠ blockId)).map (eraseIn blockId) := by
        rw [List.filter_map, List.map_map]
        have hcomp : ((fun b : BlockNode => decide (b.id ≠ blockId)) ∘ mapBlock flowId fn) =
            fun b => decide (b.id ≠ blockId) := by
          funext b
          simp [mapBlock_id]
        rw [hcomp]
        apply List.map_congr_left
        intro b hb
        refine eraseIn_mapBlock fun c hc => hchild c ?_
        exact mem_append_left _ (mem_flatMap.2 ⟨b, mem_of_mem_filter hb, hc⟩)
      refine congr (congrArg _ hp) ?_
      cases herr : f.error with
      | none => rfl
      | some e => simp [hchild e (by simp [FlowDoc.children, herr])]

theorem erase_mapFlow
    (h : ∀ g ∈ doc.allFlows, g.id = flowId → eraseTree blockId (fn g) = eraseTree blockId g) :
    (mapFlow doc flowId fn).erase blockId = doc.erase blockId := by
  unfold erase mapFlow
  simp only [List.map_map, mk.injEq, and_true]
  apply List.map_congr_left
  intro f hf
  exact eraseTree_mapFlowTree f fun g hg => h g (mem_flatMap.2 ⟨f, hf, hg⟩)

end Erase

/-! ## Moves -/

section Moves

variable {doc : EditorDocument} {flowId fromFlowId blockId : String} {flow : FlowDoc}
  {block : BlockNode}

theorem perm_cons_filter : ∀ {l : List BlockNode}, (l.map BlockNode.id).Nodup → b ∈ l →
      l.Perm (b :: l.filter (·.id ≠ b.id))
  | [], _, hb => by cases hb
  | c :: l, hnd, hb => by
    rw [map_cons, nodup_cons] at hnd
    by_cases hc : c.id = b.id
    · -- the head is the block: nothing after it has the id
      have hcb : c = b := by
        rcases mem_cons.1 hb with rfl | hb
        · rfl
        · exact absurd (hc ▸ mem_map_of_mem hb) hnd.1
      subst hcb
      have hl : l.filter (·.id ≠ c.id) = l := by
        rw [filter_eq_self]
        intro x hx
        have hne : x.id ≠ c.id := fun h => hnd.1 (h ▸ mem_map_of_mem hx)
        simp [hne]
      rw [filter_cons_of_neg (by simp), hl]
    · have hb' := (mem_cons.1 hb).resolve_left fun h => hc (h ▸ rfl)
      have ih := perm_cons_filter hnd.2 hb'
      rw [filter_cons_of_pos (by simpa using hc)]
      exact (ih.cons c).trans (List.Perm.swap b c _)

theorem process_nodup (hd : doc.blockIds.Nodup) (hf : Focus flowId doc.flows flow) :
    (flow.process.map BlockNode.id).Nodup := by
  have hsub : (flow.process.map BlockNode.id).Sublist doc.blockIds := by
    unfold blockIds blocks
    refine List.Sublist.map _ ?_
    obtain ⟨l, r, hlr⟩ := append_of_mem hf.2.1
    unfold allFlows
    rw [hlr, flatMap_append]
    exact (sublist_append_left _ _).trans (sublist_append_right _ _)
  exact hd.sublist hsub

theorem own_flow_not_inside (hd : doc.flowIds.Nodup) (hf : Focus flowId doc.flows flow)
    (hb : block ∈ flow.process) : flowId ∉ block.flowIds := by
  intro h
  obtain ⟨hid, -, L, R, hs, -⟩ := hf
  rw [flowIds_eq_sigs] at hd
  have hnd : (flowIdsIn [flow]).Nodup := by
    refine hd.sublist ?_
    unfold flowIdsIn
    rw [hs, append_assoc]
    exact ((sublist_append_left _ _).trans (sublist_append_right _ _)).map _
  rw [flowIdsIn_flow, nodup_cons] at hnd
  apply hnd.1
  rw [hid]
  exact mem_append_left _ (mem_flatMap.2 ⟨block, hb, h⟩)

theorem OnlyMoves.refl (hd : DistinctIds doc) : OnlyMoves blockId doc doc :=
  ⟨List.Perm.refl _, hd, rfl, fun _ hb _ => hb⟩

theorem DistinctIds.of_perm {doc' : EditorDocument} (hd : DistinctIds doc)
    (hb : doc'.blockIds.Perm doc.blockIds) (hf : doc'.flowIds.Perm doc.flowIds) :
    DistinctIds doc' :=
  ⟨hb.nodup_iff.2 hd.blocks, hf.nodup_iff.2 hd.flows⟩

theorem eq_of_id {c : BlockNode} (hd : doc.blockIds.Nodup) (hb : b ∈ doc.blocks)
    (hc : c ∈ doc.blocks) (h : b.id = c.id) : b = c :=
  inj_on_of_nodup_map hd hb hc h

theorem moveBlock_onlyMoves {i j : Nat} (hd : DistinctIds doc)
    (hf : Focus flowId doc.flows flow) (hi : flow.process[i]? = some block) : OnlyMoves block.id doc
      (mapFlow doc flowId fun f => f.withProcess fun process => arrayMove process i j) := by
  have hblock : block ∈ flow.process := mem_of_getElem? hi
  have hids := mapFlow_blockIds (X := []) (Y := [])
    (u := fun f => f.withProcess fun process => arrayMove process i j) hf
    (blockIdsIn_perm (arrayMove_perm flow.process i j))
  have hfids := mapFlow_flowIds (X := []) (Y := [])
    (u := fun f => f.withProcess fun process => arrayMove process i j) hf
    (flowIdsIn_perm (arrayMove_perm flow.process i j))
  refine ⟨hids, hd.of_perm hids hfids, ?_, ?_⟩
  · apply erase_mapFlow
    intro g hg hid
    have hgf : g = flow := inj_on_of_nodup_map hd.flows hg hf.2.1 (hid.trans hf.1.symm)
    subst hgf
    apply eraseTree_withProcess
    apply filter_arrayMove
    intro x hx
    rw [hi] at hx
    cases hx
    simp
  · intro b hb hbid
    have heq := eq_of_id hd.blocks hb (mem_blocks_of_focus hf hblock) hbid
    subst heq
    apply mem_blocks_mapFlow hf
    exact (arrayMove_perm flow.process i j).mem_iff.2 hblock

theorem remove_ids (hd : DistinctIds doc) (hf : Focus fromFlowId doc.flows flow)
    (hb : block ∈ flow.process) :
    let doc' := mapFlow doc fromFlowId fun f =>
      f.withProcess fun process => process.filter (·.id ≠ block.id)
    (block.blockIds ++ doc'.blockIds).Perm doc.blockIds ∧
      (block.flowIds ++ doc'.flowIds).Perm doc.flowIds := by
  have hp := perm_cons_filter (process_nodup hd.blocks hf) hb
  exact ⟨mapFlow_blockIds (Y := []) hf
      (blockIdsIn_add (f := flow) (g := flow.withProcess _) rfl hp).symm,
    mapFlow_flowIds (Y := []) hf
      (flowIdsIn_add (f := flow) (g := flow.withProcess _) rfl rfl hp).symm⟩

theorem erase_remove : (mapFlow doc fromFlowId fun f =>
      f.withProcess fun process => process.filter (·.id ≠ blockId)).erase blockId =
        doc.erase blockId := by
  apply erase_mapFlow
  intro g _ _
  apply eraseTree_withProcess
  simp

theorem erase_insert {index : Option Nat} (hid : block.id = blockId) :
    (mapFlow doc flowId fun f => f.withProcess fun process =>
      spliceIn process (index.getD process.length) block).erase blockId = doc.erase blockId := by
  apply erase_mapFlow
  intro g _ _
  apply eraseTree_withProcess
  apply filter_spliceIn
  simp [hid]

/-- **Taking a block to another flow only moves it exactly when** the target is not inside the
block. -/
theorem across_onlyMoves_iff {index : Option Nat} (hd : DistinctIds doc)
    (hf : Focus fromFlowId doc.flows flow) (hb : block ∈ flow.process)
    (ht : flowId ∈ doc.flowIds) :
    OnlyMoves block.id doc
        (mapFlow (mapFlow doc fromFlowId fun f =>
            f.withProcess fun process => process.filter (·.id ≠ block.id)) flowId fun f =>
          f.withProcess fun process => spliceIn process (index.getD process.length) block) ↔
      flowId ∉ block.flowIds := by
  obtain ⟨hblocks, hflows⟩ := remove_ids hd hf hb
  have herase := @erase_remove doc fromFlowId block.id
  generalize hdoc' : (mapFlow doc fromFlowId fun f =>
    f.withProcess fun process => process.filter (·.id ≠ block.id)) = doc' at *
  have hnd := nodup_append.1 (hflows.nodup_iff.2 hd.flows)
  constructor
  · intro h hin
    -- the target went with the block, so the insert finds no flow and the ids are gone
    have hout : flowId ∉ doc'.flowIds := fun hmem => hnd.2.2 _ hin _ hmem rfl
    rw [mapFlow_of_not_mem hout] at h
    have hlen := (hblocks.trans h.ids.symm).length_eq
    simp only [BlockNode.blockIds, length_cons, length_append] at hlen
    omega
  · intro hout
    have hmem : flowId ∈ doc'.flowIds :=
      (mem_append.1 (hflows.mem_iff.2 ht)).resolve_left hout
    obtain ⟨target, hfind⟩ : ∃ target, findFlow doc' flowId = some target := by
      rw [findFlow_eq_find]
      obtain ⟨g, hg, hid⟩ := mem_map.1 hmem
      exact isSome_iff_exists.1 (find?_isSome.2 ⟨g, hg, by simpa using hid⟩)
    have hft := focus_doc hnd.2.1 hfind
    have hp := spliceIn_perm target.process (index.getD target.process.length) block
    have hids := (mapFlow_blockIds (X := []) (u := fun f => f.withProcess fun process =>
      spliceIn process (index.getD process.length) block) hft (blockIdsIn_add rfl hp)).trans hblocks
    have hfids := (mapFlow_flowIds (X := []) (u := fun f => f.withProcess fun process =>
      spliceIn process (index.getD process.length) block) hft (flowIdsIn_add rfl rfl hp)).trans hflows
    refine ⟨hids, hd.of_perm hids hfids, (erase_insert rfl).trans herase, ?_⟩
    intro b hb' hbid
    have heq := eq_of_id hd.blocks hb' (mem_blocks_of_focus hf hb) hbid
    subst heq
    apply mem_blocks_mapFlow hft
    exact mem_spliceIn.2 (.inl rfl)

end Moves

open OnlyMoves

/-- **A drag only moves the dragged block, and loses nothing, exactly when** the flow it is
dropped on is not inside that block. -/
theorem drag_preserves_iff (state : EditorState) (fromFlowId flowId : String) (index : Nat)
    (flow : FlowDoc) (block : BlockNode) (hd : DistinctIds state.document)
    (hflow : findFlow state.document fromFlowId = some flow) (hblock : block ∈ flow.process)
    (htarget : flowId ∈ state.document.flowIds) : OnlyMoves block.id state.document
        (dragBlock state block.id fromFlowId flowId index).document ↔ flowId ∉ block.flowIds := by
  have hf := focus_doc hd.flows hflow
  unfold dragBlock handleDragEnd
  by_cases hsame : fromFlowId = flowId
  · subst hsame
    have hout := own_flow_not_inside hd.flows hf hblock
    refine iff_of_true ?_ hout
    simp only [ne_eq, not_true_eq_false, hflow]
    cases hidx : flow.process.findIdx? (·.id = block.id) with
    | none => exact refl hd
    | some i =>
      by_cases hgap : index = i ∨ index = i + 1
      · simp only [hgap]
        exact refl hd
      · simp only [hgap, if_false, reduceMove, moveBlock, updateFlow]
        obtain ⟨hi, hid, -⟩ := findIdx?_eq_some_iff_getElem.1 hidx
        have hmem : flow.process[i] ∈ flow.process := getElem_mem hi
        have heq := eq_of_id hd.blocks (mem_blocks_of_focus hf hmem)
          (mem_blocks_of_focus hf hblock) (by simpa using hid)
        split
        · exact refl hd
        · exact moveBlock_onlyMoves hd hf (by rw [getElem?_eq_getElem hi, heq])
  · have hfind : flow.process.find? (·.id = block.id) = some block := by
      have hsome : (flow.process.find? fun b => decide (b.id = block.id)).isSome :=
        find?_isSome.2 ⟨block, hblock, by simp⟩
      obtain ⟨b, hb⟩ := isSome_iff_exists.1 hsome
      rw [hb, eq_of_id hd.blocks (mem_blocks_of_focus hf (mem_of_find?_eq_some hb))
        (mem_blocks_of_focus hf hblock) (by simpa using find?_some hb)]
    simp only [ne_eq, hsame, not_false_eq_true, if_true, reduceMove, moveBlockAcross, hflow, bind_some, hfind]
    exact across_onlyMoves_iff hd hf hblock htarget

/-- One flow with a log block and a foreach block that has a log block in its body. -/
def nestedDocument : EditorDocument where
  flows := [⟨{ id := "f" },
    [⟨{ id := "b1", type := "log" }, []⟩,
      ⟨{ id := "b2", type := "foreach" },
        [⟨"body", [⟨{ id := "g" }, [⟨{ id := "b3", type := "log" }, []⟩], none⟩]⟩]⟩], none⟩]
  connectors := []
  processors := []
  env := []

def nestedState : EditorState := ⟨nestedDocument, some "f", none, none, none⟩

theorem nestedDocument_distinct : DistinctIds nestedDocument :=
  ⟨by decide +kernel, by decide +kernel⟩

theorem drag_into_body :
    OnlyMoves "b1" nestedDocument (dragBlock nestedState "b1" "f" "g" 0).document :=
  (drag_preserves_iff nestedState "f" "g" 0 _ ⟨{ id := "b1", type := "log" }, []⟩
    nestedDocument_distinct (by simp [findFlow, nestedState, nestedDocument, visitFlow]; rfl)
    (by simp) (by decide +kernel)).2 (by decide +kernel)

/-- **Dropping a composite on a gap of its own slot loses it.** -/
theorem drop_into_own_slot_loses_block :
    nestedDocument.blockIds = ["b1", "b2", "b3"] ∧
      (dragBlock nestedState "b2" "f" "g" 0).document.blockIds = ["b1"] := by
  decide +kernel

end Octo.Editor
