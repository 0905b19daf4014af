import Octo.Editor.Valid
import Octo.Foundation.Traverse

/-!
# Renaming a connection or a flow

`renameConnection` (`connectionHandlers.ts`) and `renameFlow` (`handlers.ts`).  Connections and
flows are referenced by name, from sources, from block settings and from `flow-ref`; both handlers
write the new name into the connection or flow and leave the references alone.

* `rename_keeps_references_iff` — a rename keeps the references and the document valid exactly when
  there is nothing to keep.
* `rename_leaves_source` — a source left behind.
-/

namespace Octo.Editor

open List Option Function EditorDocument Octo.Types Octo.Foundation.Traverse

/-! ## The handlers -/

variable (doc : EditorDocument)

def renameConnection (id name : String) : EditorDocument :=
  { doc with connectors :=
      doc.connectors.map fun c => if c.id = id then { c with name := name } else c }

def FlowDoc.withName (name : String) (flow : FlowDoc) : FlowDoc :=
  { flow with head := { flow.head with name := name } }

def renameFlow (flowId name : String) : EditorDocument :=
  mapFlow doc flowId (FlowDoc.withName name)

/-- `RENAME_CONNECTION` and `RENAME_FLOW`. -/
inductive RenameAction where
  | connection (id name : String)
  | flow (flowId name : String)

def RenameAction.name : RenameAction → String
  | .connection _ name => name
  | .flow _ name => name

def RenameAction.apply : RenameAction → EditorDocument
  | .connection id name => renameConnection doc id name
  | .flow flowId name => renameFlow doc flowId name

/-! ## What is renamed, and what refers to it -/

variable {f : FlowDoc}

theorem FlowDoc.sizeOf_child_lt {g : FlowDoc} (h : g ∈ f.children) : sizeOf g < sizeOf f := by
  rcases mem_append.1 h with h | h
  · obtain ⟨b, hb, h⟩ := mem_flatMap.1 h
    obtain ⟨s, hs, h⟩ := mem_flatMap.1 h
    exact FlowDoc.sizeOf_sub_lt hb hs h
  · exact FlowDoc.sizeOf_error_lt (mem_toList.1 h)

/-- The flows `mapFlowTree` applies its function to: those with the id that are not below one. -/
def addressed (flowId : String) (f : FlowDoc) : List FlowDoc :=
  if f.id = flowId then [f] else f.children.attach.flatMap fun g => addressed flowId g.1
termination_by sizeOf f
decreasing_by exact FlowDoc.sizeOf_child_lt g.2

inductive Target where
  | connection (c : ConnectorInstance)
  | flow (f : FlowDoc)

def Target.name : Target → String
  | .connection c => c.name
  | .flow f => f.head.name

def RenameAction.targets : RenameAction → List Target
  | .connection id _ => (doc.connectors.filter (·.id = id)).map .connection
  | .flow flowId _ => (doc.flows.flatMap (addressed flowId)).map .flow

def Target.BoundBy (s : SourceNode) : Target → Prop
  | .connection c => s.connector = some c.type ∧ s.connectorRef.bind truthy = some c.name
  | .flow _ => False

def Target.NamedBy : ReferenceSpec → Target → Prop
  | .connectorType type, .connection c => c.type = type
  | .connectorCategory category, .connection c =>
    (getConnectorSpec c.type).bind (·.category) = some category
  | .flow, .flow _ => True
  | _, _ => False

def NodeHead.RefersTo (head : NodeHead) (field : FieldSpec) (t : Target) : Prop :=
  (∃ spec, getBlockSpec head.type = some spec ∧ field ∈ spec.fields) ∧ isSlotField field = false ∧
    (∃ ref, field.ref = some ref ∧ t.NamedBy ref) ∧ t.name ≠ "" ∧
    currentRef (head.settings.lookup field.name) = t.name

def Referenced (t : Target) : Prop :=
  (∃ f ∈ doc.allFlows, ∃ s, f.head.source = some s ∧ t.BoundBy s) ∨
    ∃ b ∈ doc.blocks, ∃ field, b.head.RefersTo field t

/-- Every source and every setting that referred to a target before refers to it under its new name
after. -/
structure Keeps (doc doc' : EditorDocument) (t : Target) (name : String) : Prop where
  sources : List.Forall₂ (fun f f' => ∀ s, f.head.source = some s → t.BoundBy s →
    ∃ s', f'.head.source = some s' ∧ s'.connectorRef = some name) doc.allFlows doc'.allFlows
  settings : List.Forall₂ (fun b b' => ∀ field, b.head.RefersTo field t →
    currentRef (b'.head.settings.lookup field.name) = name) doc.blocks doc'.blocks

/-! ## What a rename changes -/

def FlowDoc.shape (f : FlowDoc) : Option SourceNode × List NodeHead :=
  (f.head.source, f.process.map (·.head))

/-- All that a rename changes: names, of targets, to the new name. -/
structure Renames (doc doc' : EditorDocument) (targets : List Target) (name : String) : Prop where
  shapes : doc.allFlows.map FlowDoc.shape = doc'.allFlows.map FlowDoc.shape
  flows : List.Forall₂ (fun f f' => items f' = items f ∧ f'.shape = f.shape) doc.flows doc'.flows
  connectors : List.Forall₂ (fun c c' => c'.type = c.type ∧ c'.settings = c.settings ∧
    (c'.name = c.name ∨ c'.name = name ∧ .connection c ∈ targets)) doc.connectors doc'.connectors
  flowNames : ∀ n ∈ flowNames doc, n ∈ Editor.flowNames doc' ∨
    ∃ t ∈ targets, t.NamedBy .flow ∧ t.name = n ∧ n ≠ name
  count : ∀ n, n ≠ name → (Editor.flowNames doc').count n ≤ (Editor.flowNames doc).count n

theorem connectorSpecs_no_ref : ∀ spec ∈ connectorSpecs,
    (∀ field ∈ spec.settings, field.ref = none) ∧
      ∀ source ∈ spec.sources, ∀ field ∈ source.fields, field.ref = none := by
  decide

theorem connector_no_ref {type : String} {spec : ConnectorSpec}
    (h : getConnectorSpec type = some spec) : ∀ field ∈ spec.settings, field.ref = none :=
  (connectorSpecs_no_ref spec (mem_of_find?_eq_some h)).1

theorem source_no_ref {connector type : String} {spec : SourceSpec}
    (h : getSourceSpec connector type = some spec) : ∀ field ∈ spec.fields, field.ref = none := by
  obtain ⟨c, hc, h⟩ := bind_eq_some_iff.1 h
  exact (connectorSpecs_no_ref c (mem_of_find?_eq_some hc)).2 spec (mem_of_find?_eq_some h)

theorem checkFields_of_no_ref {doc doc' : EditorDocument} {fields : List FieldSpec}
    {settings : Settings} {label : String} (h : ∀ field ∈ fields, field.ref = none) :
    checkFields doc' fields settings label = checkFields doc fields settings label := by
  refine flatMap_congr fun field hfield => ?_
  simp [checkField, h field (mem_of_mem_filter hfield)]

open FlowDoc (induction shape withName)

section Renames

variable {doc doc' : EditorDocument} {targets : List Target} {name : String}
  (h : Renames doc doc' targets name)

include h

theorem Renames.sources_eq :
    doc.allFlows.map (·.head.source) = doc'.allFlows.map (·.head.source) := by
  simpa [shape, comp_def] using congrArg (List.map Prod.fst) h.shapes

theorem Renames.heads_eq : doc.blocks.map (·.head) = doc'.blocks.map (·.head) := by
  simpa [blocks, shape, map_flatMap, flatMap_map] using
    congrArg (List.flatMap Prod.snd) h.shapes

theorem Renames.keeps_iff (t : Target) :
    Keeps doc doc' t name ↔ t.name = name ∨ ¬Referenced doc t := by
  have hsources := forall₂_feature_iff (P := fun x y => ∀ s, x = some s → t.BoundBy s →
    ∃ s', y = some s' ∧ s'.connectorRef = some name) h.sources_eq
  have hsettings := forall₂_feature_iff (P := fun x y => ∀ field, x.RefersTo field t →
    currentRef (y.settings.lookup field.name) = name) h.heads_eq
  constructor
  · intro hkeeps
    by_cases href : Referenced doc t
    · left
      rcases href with ⟨f, hf, s, hs, hbound⟩ | ⟨b, hb, field, hrefers⟩
      · obtain ⟨s', hs', hname⟩ := hsources.1 hkeeps.sources f hf s hs hbound
        cases hs.symm.trans hs'
        cases t with
        | connection => exact (Option.some.inj ((bind_truthy_eq_some.1 hbound.2).1.symm.trans hname))
        | flow => exact hbound.elim
      · rw [← hsettings.1 hkeeps.settings b hb field hrefers]
        exact hrefers.2.2.2.2.symm
    · exact .inr href
  · intro hcond
    refine ⟨hsources.2 ?_, hsettings.2 ?_⟩
    · intro f hf s hs hbound
      refine ⟨s, hs, ?_⟩
      rcases hcond with rfl | href
      · cases t with
        | connection => exact (bind_truthy_eq_some.1 hbound.2).1
        | flow => exact hbound.elim
      · exact absurd (.inl ⟨f, hf, s, hs, hbound⟩) href
    · intro b hb field hrefers
      rcases hcond with rfl | href
      · exact hrefers.2.2.2.2
      · exact absurd (.inr ⟨b, hb, field, hrefers⟩) href

theorem Renames.count_connectors {n : String} (hn : n ≠ name) :
    (doc'.connectors.map (·.name)).count n ≤ (doc.connectors.map (·.name)).count n := by
  have hall := h.connectors
  generalize doc.connectors = l at hall ⊢
  generalize doc'.connectors = l' at hall ⊢
  induction hall with
  | nil => rfl
  | @cons c c' l l' hc _ ih =>
    simp only [map_cons, count_cons]
    rcases hc.2.2 with hname | ⟨hname, -⟩
    · rw [hname]
      omega
    · have : (c'.name == n) = false := by simpa [hname] using Ne.symm hn
      rw [this, if_neg Bool.false_ne_true]
      omega

theorem Renames.length_filter (type : String) : (doc'.connectors.filter (·.type = type)).length =
      (doc.connectors.filter (·.type = type)).length := by
  have hall := h.connectors
  generalize doc.connectors = l at hall ⊢
  generalize doc'.connectors = l' at hall ⊢
  induction hall with
  | nil => rfl
  | @cons c c' l l' hc _ ih =>
    rw [filter_cons, filter_cons, hc.1]
    split
    · rw [length_cons, length_cons, ih]
    · exact ih

theorem Renames.connector {c : ConnectorInstance} (hc : c ∈ doc.connectors) :
    (∃ c' ∈ doc'.connectors, c'.type = c.type ∧ c'.name = c.name) ∨
      .connection c ∈ targets ∧ c.name ≠ name := by
  obtain ⟨c', hc', htype, -, hname⟩ := exists_fellow h.connectors hc
  by_cases hold : c'.name = c.name
  · exact .inl ⟨c', hc', htype, hold⟩
  · obtain ⟨hnew, htarget⟩ := hname.resolve_left hold
    exact .inr ⟨htarget, fun heq => hold (hnew.trans heq.symm)⟩

theorem Renames.option {ref : ReferenceSpec} {n : String} (hn : n ∈ referenceOptions doc ref) :
    n ∈ referenceOptions doc' ref ∨ ∃ t ∈ targets, t.NamedBy ref ∧ t.name = n ∧ n ≠ name := by
  cases ref with
  | connectorType =>
    simp only [referenceOptions, List.mem_map, mem_filter, decide_eq_true_eq] at hn ⊢
    obtain ⟨c, ⟨hc, htype, hne⟩, rfl⟩ := hn
    rcases h.connector hc with ⟨c', hc', htype', hname⟩ | ⟨htarget, hname⟩
    · exact .inl ⟨c', ⟨hc', htype'.trans htype, hname ▸ hne⟩, hname⟩
    · exact .inr ⟨_, htarget, htype, rfl, hname⟩
  | connectorCategory =>
    simp only [referenceOptions, List.mem_map, mem_filter, decide_eq_true_eq] at hn ⊢
    obtain ⟨c, ⟨hc, hcategory, hne⟩, rfl⟩ := hn
    rcases h.connector hc with ⟨c', hc', htype', hname⟩ | ⟨htarget, hname⟩
    · exact .inl ⟨c', ⟨hc', htype'.symm ▸ hcategory, hname ▸ hne⟩, hname⟩
    · exact .inr ⟨_, htarget, hcategory, rfl, hname⟩
  | flow =>
    simp only [referenceOptions, mem_eraseDups] at hn ⊢
    exact h.flowNames n hn

variable (hkept : ∀ t ∈ targets, t.name = name ∨ ¬Referenced doc t)

include hkept

theorem Renames.block_ok (hf : f ∈ doc.allFlows) {b : BlockNode}
    (hb : b ∈ f.process) (hok : (Item.block b.head b.filled).Ok doc) :
    (Item.block b.head b.filled).Ok doc' := by
  obtain ⟨spec, hspec, hfields, hslots⟩ := hok
  refine ⟨spec, hspec, ?_, hslots⟩
  simp only [checkFields, flatMap_eq_nil_iff, mem_filter, Bool.not_eq_true', and_imp] at hfields ⊢
  intro field hfield hslot
  have hcheck := hfields field hfield hslot
  unfold checkField at hcheck ⊢
  cases href : field.ref with
  | none => simpa [href] using hcheck
  | some ref =>
    simp only [href] at hcheck ⊢
    split at hcheck
    next hempty =>
      rw [if_pos hempty]
      exact hcheck
    next hne =>
      rw [if_neg hne]
      split at hcheck
      next hmem =>
        rcases h.option hmem with hmem | ⟨t, ht, hnamed, hname, hnew⟩
        · exact if_pos hmem
        · -- the field refers to a target whose name changes
          have hblock : b ∈ doc.blocks := mem_flatMap.2 ⟨f, hf, hb⟩
          have hrefers : b.head.RefersTo field t :=
            ⟨⟨spec, hspec, hfield⟩, hslot, ⟨ref, href, hnamed⟩, hname ▸ hne, hname.symm⟩
          rcases hkept t ht with heq | hfree
          · exact absurd (hname.symm.trans heq) hnew
          · exact absurd (.inr ⟨b, hblock, field, hrefers⟩) hfree
      · cases hcheck

theorem Renames.source_ok (hf : f ∈ doc.allFlows) {s : SourceNode}
    (hs : f.head.source = some s) (hok : checkSource doc s "" = []) :
    checkSource doc' s "" = [] := by
  unfold checkSource at hok ⊢
  split at hok
  next connector type hconn htype =>
    split at hok
    · cases hok
    rename_i spec hspec
    obtain ⟨hfields, hbinding⟩ := append_eq_nil_iff.1 hok
    refine append_eq_nil_iff.2 ⟨?_, ?_⟩
    · rwa [checkFields_of_no_ref (source_no_ref hspec)]
    · cases href : s.connectorRef.bind truthy with
      | none =>
        simp only [href, h.length_filter] at hbinding ⊢
        exact hbinding
      | some =>
        simp only [href, ite_eq_left_iff, List.cons_ne_nil, imp_false, not_not, List.any_filter,
          List.any_eq_true, Bool.and_eq_true, decide_eq_true_eq] at hbinding ⊢
        obtain ⟨c, hc, htype, rfl⟩ := hbinding
        rcases h.connector hc with ⟨c', hc', htype', hname⟩ | ⟨htarget, hname⟩
        · exact ⟨c', hc', htype'.trans htype, hname⟩
        · -- the source is bound to a target whose name changes
          have hbound : (Target.connection c).BoundBy s :=
            ⟨(bind_truthy_eq_some.1 hconn).1.trans (congrArg some htype.symm), href⟩
          rcases hkept _ htarget with heq | hfree
          · exact absurd heq hname
          · exact absurd (.inl ⟨f, hf, s, hs, hbound⟩) hfree
  · cases hok

/-- **A document stays valid** when no reference is left behind and the new name is free. -/
theorem Renames.valid (hvalid : validateDocument doc = [])
    (hconnectors : (doc'.connectors.map (·.name)).count name ≤ 1)
    (hflows : (Editor.flowNames doc').count name ≤ 1) : validateDocument doc' = [] := by
  obtain ⟨hne, hunique, hnames, hconn, hitems⟩ := (validateDocument_nil_iff doc).1 hvalid
  refine (validateDocument_nil_iff doc').2 ⟨?_, ?_, ?_, ?_, ?_⟩
  · intro hnil
    have hlen := h.flows.length_eq
    rw [hnil, length_nil, length_eq_zero_iff] at hlen
    exact hne hlen
  · intro n hn
    by_cases heq : n = name
    · exact heq ▸ hconnectors
    · exact (h.count_connectors heq).trans (hunique n hn)
  · intro n hn
    by_cases heq : n = name
    · exact heq ▸ hflows
    · exact (h.count n heq).trans (hnames n hn)
  · intro c' hc'
    obtain ⟨c, hpair⟩ := exists_mem_zip_right h.connectors.length_eq hc'
    obtain ⟨htype, hset, -⟩ := (forall₂_iff_zip.1 h.connectors).2 hpair
    have hcheck := hconn c (of_mem_zip hpair).1
    unfold checkConnector at hcheck ⊢
    rw [htype, hset]
    cases hspec : getConnectorSpec c.type with
    | none => simp [hspec] at hcheck
    | some =>
      simp only [hspec] at hcheck ⊢
      rw [checkFields_of_no_ref (connector_no_ref hspec)]
      exact checkFields_nil hcheck
  · intro f' hf'
    obtain ⟨f, hpair⟩ := exists_mem_zip_right h.flows.length_eq hf'
    obtain ⟨hitems', hshape⟩ := (forall₂_iff_zip.1 h.flows).2 hpair
    have hf := (of_mem_zip hpair).1
    obtain ⟨hstep, hok⟩ := hitems f hf
    refine ⟨?_, fun x hx => ?_⟩
    · simp only [shape, Prod.mk.injEq] at hshape
      have hempty : f'.process = [] ↔ f.process = [] := by
        rw [← map_eq_nil_iff, hshape.2, map_eq_nil_iff]
      rw [hshape.1, ne_eq, hempty]
      exact hstep
    · rw [hitems'] at hx
      obtain ⟨g, hg, hfrom⟩ := mem_items f x hx
      have hgdoc : g ∈ doc.allFlows := mem_flatMap.2 ⟨f, hf, hg⟩
      rcases hfrom with ⟨s, hs, rfl⟩ | ⟨b, hb, rfl⟩
      · exact h.source_ok hkept hgdoc hs (hok _ hx)
      · exact h.block_ok hkept hgdoc hb (hok _ hx)

end Renames

/-! ## Renaming a connection -/

variable (doc : EditorDocument)

open RenameAction

theorem renames_connection (id name : String) :
    Renames doc (renameConnection doc id name) ((connection id name).targets doc)
      name where
  shapes := rfl
  flows := forall₂_same.2 fun _ _ => ⟨rfl, rfl⟩
  connectors := by
    refine forall₂_map_right_iff.2 (forall₂_same.2 fun c hc => ?_)
    by_cases hid : c.id = id
    · rw [if_pos hid]
      exact ⟨rfl, rfl, .inr ⟨rfl, mem_map.2 ⟨c, mem_filter.2 ⟨hc, by simp [hid]⟩, rfl⟩⟩⟩
    · rw [if_neg hid]
      exact ⟨rfl, rfl, .inl rfl⟩
  flowNames := fun _ hn => .inl hn
  count := fun _ _ => Nat.le_refl _

/-! ## Renaming a flow -/

open BlockNode

section Flow

variable {flowId name : String}

theorem withName_children (f : FlowDoc) : (f.withName name).children = f.children := rfl

theorem addressed_eq (f : FlowDoc) : addressed flowId f =
    if f.id = flowId then [f] else f.children.flatMap (addressed flowId) := by
  rw [addressed]
  simp

variable (fn : FlowDoc → FlowDoc) (b : BlockNode)

theorem mapBlock_head :
    (mapBlock flowId fn b).head = b.head := by
  obtain ⟨head, slots⟩ := b
  rw [mapBlock]

theorem mapBlock_slot (field : String) :
    (mapBlock flowId fn b).slot field = (b.slot field).map (mapFlowTree flowId fn) := by
  obtain ⟨head, slots⟩ := b
  rw [mapBlock]
  simp only [slot, List.find?_map, comp_def]
  cases slots.find? (·.field = field) <;> rfl

theorem shape_mapFlowTree (f : FlowDoc) :
    (mapFlowTree flowId (withName name) f).shape = f.shape := by
  by_cases hid : f.id = flowId
  · rw [mapFlowTree_of_id hid]
    rfl
  · rw [mapFlowTree_of_ne hid]
    simp [shape, mapBlock_head]

theorem shapes_mapFlowTree (f : FlowDoc) : (flowsOf f).map shape =
      (flowsOf (mapFlowTree flowId (withName name) f)).map shape := by
  induction f using FlowDoc.children_induction with
  | step f ih =>
    rw [flowsOf_eq, flowsOf_eq, map_cons, map_cons, shape_mapFlowTree]
    congr 1
    by_cases hid : f.id = flowId
    · rw [mapFlowTree_of_id hid, withName_children]
    · rw [mapFlowTree_children hid, map_flatMap, map_flatMap, flatMap_map]
      exact flatMap_congr ih

theorem isEmpty_mapFlowTree (f : FlowDoc) :
    (mapFlowTree flowId (withName name) f).process.isEmpty = f.process.isEmpty := by
  by_cases hid : f.id = flowId
  · rw [mapFlowTree_of_id hid]
    rfl
  · rw [mapFlowTree_of_ne hid, isEmpty_map]

theorem filled_mapBlock :
    (mapBlock flowId (withName name) b).filled = b.filled := by
  simp [filled, mapBlock_head, mapBlock_slot, comp_def, isEmpty_mapFlowTree]

theorem items_mapFlowTree (f : FlowDoc) :
    items (mapFlowTree flowId (withName name) f) = items f := by
  induction f using induction with
  | step f ih _ =>
    by_cases hid : f.id = flowId
    · rw [mapFlowTree_of_id hid, items_eq, items_eq f]
      rfl
    · rw [mapFlowTree_of_ne hid, items_eq, items_eq f, flatMap_map]
      congr 1
      refine flatMap_congr fun b hb => ?_
      rw [mapBlock_head, filled_mapBlock]
      congr 1
      refine flatMap_congr fun field _ => ?_
      rw [mapBlock_slot, flatMap_map]
      refine flatMap_congr fun g hg => ?_
      obtain ⟨s, hs, hgs⟩ := mem_slot hg
      rw [isEmpty_mapFlowTree, ih b hb s hs g hgs]

theorem visitNames_subflows (f : FlowDoc) : visitNames f =
    (truthy f.head.name).toList ++ f.process.flatMap fun b => b.subflows.flatMap visitNames := by
  obtain ⟨head, process, error⟩ := f
  rw [visitNames]
  simp [subflows, flatMap_assoc]

theorem visitNames_of_ne (hid : f.id ≠ flowId) (fn : FlowDoc → FlowDoc) :
    visitNames (mapFlowTree flowId fn f) = (truthy f.head.name).toList ++
      f.process.flatMap fun b => b.subflows.flatMap fun g => visitNames (mapFlowTree flowId fn g) := by
  rw [mapFlowTree_of_ne hid, visitNames_subflows]
  simp [flatMap_map, mapBlock_subflows]

variable {n : String}

theorem count_flatMap_le {α : Type} {l : List α} {g g' : α → List String}
    (h : ∀ x ∈ l, (g x).count n ≤ (g' x).count n) :
    (l.flatMap g).count n ≤ (l.flatMap g').count n := by
  induction l with
  | nil => rfl
  | cons x l ih =>
    rw [flatMap_cons, flatMap_cons, count_append, count_append]
    exact Nat.add_le_add (h x mem_cons_self) (ih fun y hy => h y (mem_cons_of_mem x hy))

theorem count_visitNames (hn : n ≠ name) (f : FlowDoc) :
    (visitNames (mapFlowTree flowId (withName name) f)).count n ≤
      (visitNames f).count n := by
  induction f using induction with
  | step f ih _ =>
    by_cases hid : f.id = flowId
    · have hnew : (truthy name).toList.count n = 0 := by
        unfold truthy
        split <;> simp [Ne.symm hn]
      rw [mapFlowTree_of_id hid, visitNames_subflows, visitNames_subflows f, count_append,
        count_append]
      have hrest : (f.withName name).process = f.process := rfl
      rw [hrest]
      show (truthy name).toList.count n + _ ≤ _
      omega
    · rw [visitNames_of_ne hid, visitNames_subflows f, count_append, count_append]
      refine Nat.add_le_add_left (count_flatMap_le fun b hb => count_flatMap_le fun g hg => ?_) _
      obtain ⟨s, hs, hgs⟩ := mem_flatMap.1 hg
      exact ih b hb s hs g hgs

theorem mem_visitNames (hname : name ≠ "") (f : FlowDoc) (h : n ∈ visitNames f) :
    n ∈ visitNames (mapFlowTree flowId (withName name) f) ∨
      ∃ g ∈ addressed flowId f, g.head.name = n ∧ n ≠ name := by
  induction f using induction with
  | step f ih _ =>
    rw [visitNames_subflows, mem_append] at h
    by_cases hid : f.id = flowId
    · rw [mapFlowTree_of_id hid, visitNames_subflows, addressed_eq, if_pos hid, mem_append]
      rcases h with h | h
      · have hold : f.head.name = n := (truthy_eq_some.1 (mem_toList.1 h)).1
        by_cases hn : n = name
        · refine .inl (.inl (mem_toList.2 (truthy_eq_some.2 ⟨?_, hn ▸ hname⟩)))
          exact hn.symm
        · exact .inr ⟨f, mem_singleton.2 rfl, hold, hn⟩
      · exact .inl (.inr h)
    · rw [visitNames_of_ne hid, addressed_eq, if_neg hid, mem_append]
      rcases h with h | h
      · exact .inl (.inl h)
      · obtain ⟨b, hb, h⟩ := mem_flatMap.1 h
        obtain ⟨g, hg, h⟩ := mem_flatMap.1 h
        obtain ⟨s, hs, hgs⟩ := mem_flatMap.1 hg
        rcases ih b hb s hs g hgs h with h | ⟨g', hg', h⟩
        · exact .inl (.inr (mem_flatMap.2 ⟨b, hb, mem_flatMap.2 ⟨g, hg, h⟩⟩))
        · refine .inr ⟨g', mem_flatMap.2 ⟨g, ?_, hg'⟩, h⟩
          exact mem_append_left _ (mem_flatMap.2 ⟨b, hb, hg⟩)

end Flow

theorem renames_flow (flowId : String) {name : String} (hname : name ≠ "") :
    Renames doc (renameFlow doc flowId name) ((flow flowId name).targets doc)
      name where
  shapes := by
    show (doc.flows.flatMap flowsOf).map _ = ((doc.flows.map _).flatMap flowsOf).map _
    rw [map_flatMap, map_flatMap, flatMap_map]
    exact flatMap_congr fun f _ => shapes_mapFlowTree f
  flows := by
    refine forall₂_map_right_iff.2 (forall₂_same.2 fun f _ => ?_)
    exact ⟨items_mapFlowTree f, shape_mapFlowTree f⟩
  connectors := forall₂_same.2 fun _ _ => ⟨rfl, rfl, .inl rfl⟩
  flowNames := by
    intro n hn
    obtain ⟨f, hf, hn⟩ := mem_flatMap.1 hn
    rcases mem_visitNames hname f hn with h | ⟨g, hg, hold, hne⟩
    · exact .inl (mem_flatMap.2 ⟨_, mem_map.2 ⟨f, hf, rfl⟩, h⟩)
    · exact .inr ⟨.flow g, mem_map.2 ⟨g, mem_flatMap.2 ⟨f, hf, hg⟩, rfl⟩, trivial, hold, hne⟩
  count := by
    intro n hn
    show ((doc.flows.map _).flatMap visitNames).count n ≤ _
    rw [flatMap_map]
    exact count_flatMap_le fun f _ => count_visitNames hn f

/-! ## When a rename keeps references -/

def RenameAction.Fresh (a : RenameAction) : Prop :=
  ((a.apply doc).connectors.map (·.name)).count a.name ≤ 1 ∧
    (flowNames (a.apply doc)).count a.name ≤ 1

theorem RenameAction.renames (a : RenameAction) (hname : a.name ≠ "") :
    Renames doc (a.apply doc) (a.targets doc) a.name := by
  cases a with
  | connection id name => exact renames_connection doc id name
  | flow flowId => exact renames_flow doc flowId hname

/-- **A rename keeps references exactly when there is none**: for a valid document and a new name
that nothing else uses, if and only if the name does not change or nothing refers to what is
renamed, at any depth. -/
theorem rename_keeps_references_iff {doc : EditorDocument} {a : RenameAction}
    (hvalid : validateDocument doc = []) (hname : a.name ≠ "") (hfresh : a.Fresh doc) :
    (validateDocument (a.apply doc) = [] ∧ ∀ t ∈ a.targets doc, Keeps doc (a.apply doc) t a.name) ↔
      ∀ t ∈ a.targets doc, t.name = a.name ∨ ¬Referenced doc t := by
  have hrenames := a.renames doc hname
  constructor
  · rintro ⟨-, hkeeps⟩ t ht
    exact (hrenames.keeps_iff t).1 (hkeeps t ht)
  · intro h
    refine ⟨hrenames.valid h hvalid hfresh.1 hfresh.2, fun t ht => ?_⟩
    exact (hrenames.keeps_iff t).2 (h t ht)

def boundDocument (connection flow : String) : EditorDocument where
  flows := [⟨{ id := "f", name := flow
               source := some ⟨some "queue", some "inbox", some "queue",
                 [("subject", .str "orders")]⟩ }, [], none⟩]
  connectors := [⟨"c", connection, "queue", []⟩]
  processors := []
  env := []

/-- **A rename leaves a source behind**, bound to a connection that is gone. -/
theorem rename_leaves_source : validateDocument (boundDocument "inbox" "main") = [] ∧
    (RenameAction.connection "c" "orders").Fresh (boundDocument "inbox" "main") ∧
    validateDocument ((RenameAction.connection "c" "orders").apply (boundDocument "inbox" "main")) =
      [.missingConnection "Flow \"main\"" "inbox"] := by
  have happly : (connection "c" "orders").apply (boundDocument "inbox" "main") =
      boundDocument "orders" "main" := rfl
  rw [RenameAction.Fresh, happly]
  refine ⟨?_, ⟨?_, ?_⟩, ?_⟩
  all_goals
    simp only [boundDocument, validateDocument, flowNames, flatMap_cons, visitNames, zipIdx_cons, checkTopFlow, checkFlow]
    decide

theorem rename_uncalled_flow :
    validateDocument ((RenameAction.flow "f" "billing").apply (boundDocument "inbox" "main")) = [] ∧
      ∀ t ∈ (RenameAction.flow "f" "billing").targets (boundDocument "inbox" "main"),
        Keeps (boundDocument "inbox" "main")
          ((RenameAction.flow "f" "billing").apply (boundDocument "inbox" "main")) t "billing" := by
  have happly : (flow "f" "billing").apply (boundDocument "inbox" "main") =
      boundDocument "inbox" "billing" := by
    simp [apply, renameFlow, mapFlow, boundDocument, mapFlowTree, withName]
  refine (rename_keeps_references_iff ?_ ?_ ?_).2 ?_
  · simp only [boundDocument, validateDocument, flowNames, flatMap_cons, visitNames, zipIdx_cons, checkTopFlow, checkFlow]
    decide
  · decide
  · rw [RenameAction.Fresh, happly]
    simp [boundDocument, flowNames, visitNames]
    decide
  · intro t ht
    obtain ⟨g, -, rfl⟩ := mem_map.1 ht
    right
    rintro (⟨f, -, s, -, hbound⟩ | ⟨b, hb, -⟩)
    · exact hbound
    · simp [blocks, allFlows, boundDocument, flowsOf] at hb

end Octo.Editor
