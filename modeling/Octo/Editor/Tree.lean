import Mathlib.Data.List.Nodup
import Mathlib.Data.List.Find
import Octo.Editor.Document

/-!
# Updating the flow with a given id

What a visit and an update by id do to the whole tree, when no two flows share an id.

* `visitFlow_eq_find` — the visit returns the first flow with the id, in document order.
* `mapFlowTree_of_not_mem` — an id that does not occur changes nothing.
* `focus_doc` — an id that occurs once addresses one flow: the update replaces what that flow
  shows (its id and the ids of its blocks, and those below) and leaves everything else alone.
-/

namespace Octo.Editor

open BlockNode (subflows)

open List FlowDoc

variable (f : FlowDoc)

def FlowDoc.children : List FlowDoc :=
  (f.process.flatMap BlockNode.subflows) ++ f.error.toList

theorem FlowDoc.children_induction {P : FlowDoc → Prop}
    (step : ∀ f, (∀ g ∈ f.children, P g) → P f) (f : FlowDoc) : P f := by
  apply induction
  intro f hs he
  apply step
  intro g hg
  rcases mem_append.1 hg with hg | hg
  · obtain ⟨b, hb, hg⟩ := mem_flatMap.1 hg
    obtain ⟨s, hs', hg⟩ := mem_flatMap.1 hg
    exact hs b hb s hs' g hg
  · exact he g (Option.mem_toList.1 hg)

theorem flowsOf_eq : flowsOf f = f :: f.children.flatMap flowsOf := by
  obtain ⟨head, process, error⟩ := f
  cases error <;> simp [flowsOf, FlowDoc.children, subflows, flatMap_assoc]

def flowIdsOf : List String := (flowsOf f).map FlowDoc.id

theorem flowIdsOf_eq : flowIdsOf f = f.id :: f.children.flatMap flowIdsOf := by
  unfold flowIdsOf
  rw [flowsOf_eq, map_cons, map_flatMap]

/-! ## The visit -/

theorem head_flatMap_toList {α β : Type} (o : α → Option β) (l : List α) :
    (l.flatMap fun a => (o a).toList).head? = l.findSome? o := by
  induction l with
  | nil => rfl
  | cons a l ih =>
    rw [flatMap_cons, findSome?_cons]
    cases h : o a with
    | none => simpa [h] using ih
    | some => simp

theorem findSome_congr {α β : Type} {o p : α → Option β} {l : List α}
    (h : ∀ a ∈ l, o a = p a) : l.findSome? o = l.findSome? p := by
  induction l with
  | nil => rfl
  | cons a l ih =>
    rw [findSome?_cons, findSome?_cons, h a (by simp), ih fun b hb => h b (mem_cons_of_mem a hb)]

variable (flowId : String)

theorem visitFlow_eq (f : FlowDoc) : visitFlow flowId f =
      if f.id = flowId then some f else f.children.findSome? (visitFlow flowId) := by
  obtain ⟨head, process, error⟩ := f
  have hhits : (process.flatMap fun b => b.slots.flatMap fun s =>
      s.flows.flatMap fun f => (visitFlow flowId f).toList).head? =
      (process.flatMap subflows).findSome? (visitFlow flowId) := by
    rw [← head_flatMap_toList]
    simp [subflows, flatMap_assoc]
  rw [visitFlow.eq_def]
  simp only [hhits, FlowDoc.children, findSome?_append, FlowDoc.id]
  split
  · rfl
  · cases (process.flatMap subflows).findSome? (visitFlow flowId) with
    | some => rfl
    | none => cases error <;> simp

theorem visitFlow_eq_find (f : FlowDoc) :
    visitFlow flowId f = (flowsOf f).find? (·.id = flowId) := by
  induction f using children_induction with
  | step f ih =>
    rw [visitFlow_eq, flowsOf_eq, findSome_congr ih]
    split <;> simp_all

theorem findFlow_eq_find (doc : EditorDocument) (flowId : String) :
    findFlow doc flowId = doc.allFlows.find? (·.id = flowId) := by
  unfold findFlow EditorDocument.allFlows
  rw [find?_flatMap]
  exact findSome_congr fun f _ => visitFlow_eq_find flowId f

/-! ## The update -/

section Update

variable {flowId : String} {fn : FlowDoc → FlowDoc} {f : FlowDoc}

theorem mapFlowTree_of_id (h : f.id = flowId) : mapFlowTree flowId fn f = fn f := by
  obtain ⟨head, process, error⟩ := f
  rw [mapFlowTree.eq_def]
  exact if_pos h

theorem mapFlowTree_of_ne (h : f.id ≠ flowId) : mapFlowTree flowId fn f =
      ⟨f.head, f.process.map (mapBlock flowId fn), f.error.map (mapFlowTree flowId fn)⟩ := by
  obtain ⟨head, process, error⟩ := f
  rw [mapFlowTree.eq_def]
  refine (if_neg h).trans ?_
  cases error <;> rfl

theorem mapBlock_id (b : BlockNode) : (mapBlock flowId fn b).id = b.id := by
  obtain ⟨head, slots⟩ := b
  rw [mapBlock]
  rfl

theorem mapBlock_subflows (b : BlockNode) :
    (mapBlock flowId fn b).subflows = b.subflows.map (mapFlowTree flowId fn) := by
  obtain ⟨head, slots⟩ := b
  rw [mapBlock]
  simp [subflows, map_flatMap, flatMap_map]

theorem mapFlowTree_children (h : f.id ≠ flowId) :
    (mapFlowTree flowId fn f).children = f.children.map (mapFlowTree flowId fn) := by
  rw [mapFlowTree_of_ne h]
  simp only [FlowDoc.children, flatMap_map, mapBlock_subflows, map_append, map_flatMap]
  cases f.error <;> rfl

theorem mapBlock_of_fixed {b : BlockNode} (h : ∀ f ∈ b.subflows, mapFlowTree flowId fn f = f) :
    mapBlock flowId fn b = b := by
  obtain ⟨head, slots⟩ := b
  rw [mapBlock]
  congr 1
  refine (map_congr_left fun s hs => ?_).trans (map_id slots)
  obtain ⟨field, flows⟩ := s
  simp only [id_eq, Slot.mk.injEq, true_and]
  refine (map_congr_left fun f hf => ?_).trans (map_id flows)
  exact h f (mem_flatMap.2 ⟨_, hs, hf⟩)

theorem mapFlowTree_of_not_mem (f : FlowDoc) (h : flowId ∉ flowIdsOf f) :
    mapFlowTree flowId fn f = f := by
  induction f using children_induction with
  | step f ih =>
    rw [flowIdsOf_eq, mem_cons, not_or] at h
    have hchild : ∀ g ∈ f.children, mapFlowTree flowId fn g = g :=
      fun g hg => ih g hg fun hid => h.2 (mem_flatMap.2 ⟨g, hg, hid⟩)
    rw [mapFlowTree_of_ne (Ne.symm h.1)]
    obtain ⟨head, process, error⟩ := f
    simp only [mk.injEq, true_and]
    constructor
    · refine (map_congr_left fun b hb => ?_).trans (map_id process)
      refine mapBlock_of_fixed fun g hg => hchild g ?_
      exact mem_append_left _ (mem_flatMap.2 ⟨b, hb, hg⟩)
    · cases error with
      | none => rfl
      | some e => simp [hchild e (by simp [FlowDoc.children])]

theorem map_mapFlowTree_of_not_mem {fs : List FlowDoc} (h : flowId ∉ fs.flatMap flowIdsOf) :
    fs.map (mapFlowTree flowId fn) = fs := by
  refine (map_congr_left fun f hf => ?_).trans (map_id fs)
  exact mapFlowTree_of_not_mem f fun hid => h (mem_flatMap.2 ⟨f, hf, hid⟩)

end Update

/-! ## The flow an id addresses -/

def FlowDoc.sig (f : FlowDoc) : String × List String := (f.id, f.process.map BlockNode.id)

def sigs (fs : List FlowDoc) : List (String × List String) := (fs.flatMap flowsOf).map FlowDoc.sig

/-- The id addresses one flow `g` of the trees: every update replaces `g` and what it shows, and
nothing else. -/
def Focus (fs : List FlowDoc) (g : FlowDoc) : Prop :=
  g.id = flowId ∧ g ∈ fs.flatMap flowsOf ∧ ∃ L R, sigs fs = L ++ sigs [g] ++ R ∧
      ∀ fn, sigs (fs.map (mapFlowTree flowId fn)) = L ++ sigs [fn g] ++ R ∧
        fn g ∈ (fs.map (mapFlowTree flowId fn)).flatMap flowsOf

theorem sigs_append (fs gs : List FlowDoc) : sigs (fs ++ gs) = sigs fs ++ sigs gs := by
  simp [sigs]

theorem sigs_singleton (f : FlowDoc) : sigs [f] = f.sig :: sigs f.children := by
  simp only [sigs, flatMap_cons, flatMap_nil, append_nil]
  rw [flowsOf_eq, map_cons]

theorem mem_flowsOf_self (f : FlowDoc) : f ∈ flowsOf f := by
  rw [flowsOf_eq]
  exact mem_cons_self

variable {flowId : String}

theorem focus_self {f : FlowDoc} (h : f.id = flowId) : Focus flowId [f] f := by
  refine ⟨h, by simp [mem_flowsOf_self], [], [], by simp, ?_⟩
  intro fn
  simp [mapFlowTree_of_id h, mem_flowsOf_self]

theorem focus_node {f g : FlowDoc} (h : f.id ≠ flowId) (hg : Focus flowId f.children g) :
    Focus flowId [f] g := by
  obtain ⟨hid, hmem, L, R, hs, hfn⟩ := hg
  refine ⟨hid, ?_, f.sig :: L, R, ?_, ?_⟩
  · simp only [flatMap_cons, flatMap_nil, append_nil]
    rw [flowsOf_eq]
    exact mem_cons_of_mem _ hmem
  · rw [sigs_singleton, hs]
    simp
  · intro fn
    have hsig : (mapFlowTree flowId fn f).sig = f.sig := by
      rw [mapFlowTree_of_ne h]
      simp [FlowDoc.sig, FlowDoc.id, mapBlock_id]
    have hch := @mapFlowTree_children flowId fn f h
    obtain ⟨hs', hm'⟩ := hfn fn
    constructor
    · rw [map_singleton, sigs_singleton, hsig, hch, hs']
      simp
    · simp only [map_cons, map_nil, flatMap_cons, flatMap_nil, append_nil]
      rw [flowsOf_eq, hch]
      exact mem_cons_of_mem _ hm'

theorem focus_append {f g : FlowDoc} {l r : List FlowDoc} (hl : flowId ∉ l.flatMap flowIdsOf)
    (hr : flowId ∉ r.flatMap flowIdsOf) (hg : Focus flowId [f] g) :
    Focus flowId (l ++ f :: r) g := by
  obtain ⟨hid, hmem, L, R, hs, hfn⟩ := hg
  have hcons : ∀ x : FlowDoc, sigs (l ++ x :: r) = sigs l ++ sigs [x] ++ sigs r := by
    intro x
    rw [show l ++ x :: r = l ++ ([x] ++ r) from rfl, sigs_append, sigs_append, append_assoc]
  refine ⟨hid, ?_, sigs l ++ L, R ++ sigs r, ?_, ?_⟩
  · simp only [flatMap_append, flatMap_cons, mem_append]
    simp only [flatMap_cons, flatMap_nil, append_nil] at hmem
    exact .inr (.inl hmem)
  · rw [hcons, hs]
    simp
  · intro fn
    obtain ⟨hs', hm'⟩ := hfn fn
    simp only [map_cons, map_nil] at hs' hm'
    rw [map_append, map_cons, map_mapFlowTree_of_not_mem hl, map_mapFlowTree_of_not_mem hr]
    constructor
    · rw [hcons, hs']
      simp
    · simp only [flatMap_append, flatMap_cons, mem_append]
      simp only [flatMap_cons, flatMap_nil, append_nil] at hm'
      exact .inr (.inl hm')

theorem focus_list {fs : List FlowDoc}
    (hfocus : ∀ f ∈ fs, (flowIdsOf f).Nodup → flowId ∈ flowIdsOf f → ∃ g, Focus flowId [f] g)
    (hnd : (fs.flatMap flowIdsOf).Nodup) (hmem : flowId ∈ fs.flatMap flowIdsOf) :
    ∃ g, Focus flowId fs g := by
  obtain ⟨f, hf, hid⟩ := mem_flatMap.1 hmem
  obtain ⟨l, r, rfl⟩ := append_of_mem hf
  simp only [flatMap_append, flatMap_cons, nodup_append, mem_append] at hnd
  obtain ⟨-, ⟨hndf, -, hfr⟩, hlf⟩ := hnd
  obtain ⟨g, hg⟩ := hfocus f hf hndf hid
  refine ⟨g, focus_append ?_ ?_ hg⟩
  · intro h
    exact hlf _ h _ (.inl hid) rfl
  · intro h
    exact hfr _ hid _ h rfl

theorem focus_tree (f : FlowDoc) (hnd : (flowIdsOf f).Nodup) (hmem : flowId ∈ flowIdsOf f) :
    ∃ g, Focus flowId [f] g := by
  induction f using children_induction with
  | step f ih =>
    by_cases h : f.id = flowId
    · exact ⟨f, focus_self h⟩
    · rw [flowIdsOf_eq, nodup_cons] at hnd
      rw [flowIdsOf_eq] at hmem
      have hmem' := (mem_cons.1 hmem).resolve_left (Ne.symm h)
      obtain ⟨g, hg⟩ := focus_list ih hnd.2 hmem'
      exact ⟨g, focus_node h hg⟩

theorem EditorDocument.flowIds_eq (doc : EditorDocument) :
    doc.flowIds = doc.flows.flatMap flowIdsOf := by
  simp only [EditorDocument.flowIds, EditorDocument.allFlows, map_flatMap]
  rfl

theorem focus_doc {doc : EditorDocument} {g : FlowDoc} (hnd : doc.flowIds.Nodup)
    (hfind : findFlow doc flowId = some g) : Focus flowId doc.flows g := by
  rw [findFlow_eq_find] at hfind
  have hg := mem_of_find?_eq_some hfind
  have hid : g.id = flowId := by simpa using find?_some hfind
  have hmem : flowId ∈ doc.flowIds := by
    rw [← hid]
    exact mem_map_of_mem hg
  rw [EditorDocument.flowIds_eq] at hmem
  obtain ⟨g', hg'⟩ := focus_list (fun f _ => focus_tree f)
    (EditorDocument.flowIds_eq doc ▸ hnd) hmem
  -- ids are distinct, so the focus is the flow found
  have heq : g' = g := inj_on_of_nodup_map hnd hg'.2.1 hg (hg'.1.trans hid.symm)
  exact heq ▸ hg'

end Octo.Editor
