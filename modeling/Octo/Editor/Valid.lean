import Octo.Editor.Tree
import Octo.Editor.Validate

/-!
# What the pre-flight check accepts

`validateDocument` walks the document and reports issues under paths.  Whether it reports anything
does not depend on the paths: it is a condition on the names and on a flat list of the sources and
blocks the walk meets.

* `Item`, `items` — what the walk of a flow looks at, in its order.
* `checkFlow_nil_iff` — a flow passes exactly when every item does.
* `mem_items` — the items come from flows and blocks of the document.
-/

namespace Octo.Editor

open List Octo.Types

/-! ## Items -/

/-- A source or a block the walk looks at; a block with its slots and whether one of the flows in
them has a step. -/
inductive Item where
  | source (s : SourceNode)
  | block (head : NodeHead) (slots : List (FieldSpec × Bool))

def BlockNode.filled (b : BlockNode) : List (FieldSpec × Bool) :=
  (slotFields b.head.type).map fun field =>
    (field, (b.slot field.name).any fun f => !f.process.isEmpty)

def items : FlowDoc → List Item
  | ⟨head, process, _⟩ =>
    head.source.toList.map .source ++ process.flatMap fun b =>
      .block b.head b.filled :: (slotFields b.head.type).flatMap fun field =>
        (b.slot field.name).attach.flatMap fun f =>
          if f.1.process.isEmpty then [] else items f.1
termination_by f => sizeOf f
decreasing_by
  obtain ⟨s, hs, hf⟩ := BlockNode.mem_slot f.2
  exact FlowDoc.sizeOf_sub_lt ‹_› hs hf

def Item.Ok (doc : EditorDocument) : Item → Prop
  | .source s => checkSource doc s "" = []
  | .block head slots => ∃ spec, getBlockSpec head.type = some spec ∧
      checkFields doc spec.fields head.settings "" = [] ∧ ∀ slot ∈ slots, slot.1.required → slot.2

variable (f : FlowDoc)

theorem items_eq : items f =
    f.head.source.toList.map .source ++ f.process.flatMap fun b =>
      .block b.head b.filled :: (slotFields b.head.type).flatMap fun field =>
        (b.slot field.name).flatMap fun f => if f.process.isEmpty then [] else items f := by
  obtain ⟨head, process, error⟩ := f
  rw [items]
  simp

/-! ## Paths do not matter -/

variable {doc : EditorDocument}

variable {label : String} {label' : String}

theorem checkField_nil {settings : Settings} {field : FieldSpec}
    (h : checkField doc settings label field = []) : checkField doc settings label' field = [] := by
  unfold checkField at h ⊢
  cases href : field.ref with
  | none => simpa [href] using h
  | some => simpa [href, ite_eq_iff] using h

theorem checkFields_nil {fields : List FieldSpec} {settings : Settings}
    (h : checkFields doc fields settings label = []) :
    checkFields doc fields settings label' = [] := by
  simp only [checkFields, flatMap_eq_nil_iff] at h ⊢
  exact fun field hf => checkField_nil (h field hf)

theorem checkSource_nil {s : SourceNode} (h : checkSource doc s label = []) :
    checkSource doc s label' = [] := by
  unfold checkSource at h ⊢
  split
  next connector type hconn htype =>
    simp only [hconn, htype] at h
    split
    next hspec =>
      simp [hspec] at h
    next spec hspec =>
      simp only [hspec, append_eq_nil_iff] at h ⊢
      refine ⟨checkFields_nil h.1, ?_⟩
      split
      next ref href =>
        simpa [href] using h.2
      next href =>
        simpa [href] using h.2
  next hnone =>
    split at h
    next connector type hconn htype =>
      exact absurd htype (hnone connector type hconn)
    · cases h

theorem checkSlot_nil_iff {field : FieldSpec} {flows : List FlowDoc}
    {P : FlowDoc → Prop} (hP : ∀ f ∈ flows, ∀ label, checkFlow doc f label = [] ↔ P f) :
    checkSlot label field (flows.map fun f => (!f.process.isEmpty, fun l => checkFlow doc f l)) = [] ↔
      (field.required → flows.any fun f => !f.process.isEmpty) ∧
        ∀ f ∈ flows, f.process.isEmpty = false → P f := by
  simp only [checkSlot, append_eq_nil_iff, flatMap_eq_nil_iff]
  refine and_congr ?_ ?_
  · by_cases hr : field.required <;> simp
  · rw [zipIdx_map]
    simp only [forall_mem_map]
    constructor
    · intro h f hf hne
      obtain ⟨i, hi, rfl⟩ := mem_iff_getElem.1 hf
      have hsub := h (flows[i], i) (mem_zipIdx_iff_getElem?.2 (getElem?_eq_getElem hi))
      simp only [Prod.map_fst, hne] at hsub
      exact (hP _ hf _).1 hsub
    · intro h sub hsub
      have hf := fst_mem_of_mem_zipIdx hsub
      cases hne : sub.1.process.isEmpty with
      | true => simp [hne]
      | false => simpa [hne] using (hP _ hf _).2 (h _ hf hne)

/-! ## What passes -/

open BlockNode

theorem block_ok_iff {b : BlockNode} {spec : BlockSpec}
    (hspec : getBlockSpec b.head.type = some spec) :
    Item.Ok doc (.block b.head b.filled) ↔ checkFields doc spec.fields b.head.settings "" = [] ∧
      ∀ field ∈ slotFields b.head.type, field.required →
        (b.slot field.name).any fun f => !f.process.isEmpty := by
  simp [Item.Ok, hspec, filled]

variable (doc : EditorDocument)

theorem checkFlow_nil_iff :
    ∀ label, checkFlow doc f label = [] ↔ ∀ x ∈ items f, x.Ok doc := by
  induction f using FlowDoc.induction with
  | step f ih _ =>
    intro label
    rw [checkFlow_eq, items_eq, append_eq_nil_iff, forall_mem_append, flatMap_eq_nil_iff]
    refine and_congr ?_ ?_
    · cases f.head.source with
      | none => simp
      | some => simpa [Item.Ok] using ⟨checkSource_nil, checkSource_nil⟩
    · simp only [forall_mem_flatMap, forall_mem_cons]
      refine forall₂_congr fun b hb => ?_
      rw [checkBlock_eq]
      cases hspec : getBlockSpec b.head.type with
      | none => simp [Item.Ok, hspec]
      | some spec =>
        have hfields : spec.fields.filter isSlotField = slotFields b.head.type := by
          simp [slotFields, hspec]
        simp only [append_eq_nil_iff, flatMap_eq_nil_iff, block_ok_iff hspec, and_assoc,
          ← forall₂_and, hfields]
        refine and_congr ⟨checkFields_nil, checkFields_nil⟩ (forall₂_congr fun field _ => ?_)
        have hsub : ∀ g ∈ b.slot field.name, ∀ label,
            checkFlow doc g label = [] ↔ ∀ x ∈ items g, x.Ok doc := by
          intro g hg
          obtain ⟨s, hs, hgs⟩ := mem_slot hg
          exact ih b hb s hs g hgs
        rw [checkSlot_nil_iff hsub]
        refine and_congr Iff.rfl (forall₂_congr fun g _ => ?_)
        cases g.process.isEmpty <;> simp

theorem checkTopFlow_nil_iff (label : String) :
    checkTopFlow doc f label = [] ↔
      (f.head.source.isSome ∨ f.process ≠ []) ∧ ∀ x ∈ items f, x.Ok doc := by
  rw [checkTopFlow, append_eq_nil_iff, checkFlow_nil_iff]
  refine and_congr_left fun _ => ?_
  cases f.head.source <;> simp

theorem duplicateNames_nil_iff (names : List String) :
    duplicateNames names = [] ↔ ∀ name, name ≠ "" → names.count name ≤ 1 := by
  simp only [eq_nil_iff_forall_not_mem, mem_duplicateNames_iff]
  refine forall_congr' fun name => ?_
  rw [not_and, Nat.not_le, Nat.lt_succ_iff]

/-- **What passes**: a document with a flow, distinct names, and connections, flows and items that
pass. -/
theorem validateDocument_nil_iff :
    validateDocument doc = [] ↔ doc.flows ≠ [] ∧
      (∀ name, name ≠ "" → (doc.connectors.map (·.name)).count name ≤ 1) ∧
      (∀ name, name ≠ "" → (flowNames doc).count name ≤ 1) ∧
      (∀ c ∈ doc.connectors, checkConnector doc c = []) ∧
      ∀ f ∈ doc.flows, (f.head.source.isSome ∨ f.process ≠ []) ∧ ∀ x ∈ items f, x.Ok doc := by
  simp only [validateDocument, append_eq_nil_iff, map_eq_nil_iff,
    duplicateNames_nil_iff, flatMap_eq_nil_iff, checkTopFlow_nil_iff, and_assoc]
  refine and_congr ?_ (and_congr_right fun _ => and_congr_right fun _ => and_congr_right fun _ => ?_)
  · cases doc.flows <;> simp
  · constructor
    · intro h f hf
      obtain ⟨i, hi, rfl⟩ := mem_iff_getElem.1 hf
      exact h (doc.flows[i], i) (mem_zipIdx_iff_getElem?.2 (getElem?_eq_getElem hi))
    · intro h f hf
      exact h f.1 (fst_mem_of_mem_zipIdx hf)

/-! ## Where items come from -/

theorem mem_items : ∀ x ∈ items f, ∃ g ∈ flowsOf f,
    (∃ s, g.head.source = some s ∧ x = .source s) ∨ ∃ b ∈ g.process, x = .block b.head b.filled := by
  induction f using FlowDoc.induction with
  | step f ih _ =>
    intro x hx
    rw [items_eq] at hx
    rcases mem_append.1 hx with hx | hx
    · obtain ⟨s, hs, rfl⟩ := mem_map.1 hx
      exact ⟨f, mem_flowsOf_self f, .inl ⟨s, Option.mem_toList.1 hs, rfl⟩⟩
    · obtain ⟨b, hb, hx⟩ := mem_flatMap.1 hx
      rcases mem_cons.1 hx with rfl | hx
      · exact ⟨f, mem_flowsOf_self f, .inr ⟨b, hb, rfl⟩⟩
      · obtain ⟨field, -, hx⟩ := mem_flatMap.1 hx
        obtain ⟨g, hg, hx⟩ := mem_flatMap.1 hx
        obtain ⟨s, hs, hgs⟩ := mem_slot hg
        split at hx
        · cases hx
        · obtain ⟨g', hg', h⟩ := ih b hb s hs g hgs x hx
          refine ⟨g', ?_, h⟩
          have hchild : g ∈ f.children := mem_append_left _
            (mem_flatMap.2 ⟨b, hb, mem_flatMap.2 ⟨s, hs, hgs⟩⟩)
          rw [flowsOf_eq]
          exact mem_cons_of_mem f (mem_flatMap.2 ⟨g, hchild, hg'⟩)

end Octo.Editor
