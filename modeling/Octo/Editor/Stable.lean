import Octo.Editor.Names
import Octo.Editor.Reopen
import Octo.Editor.Tree

/-!
# Saving is stable

A config the editor has written comes back unchanged when it is opened and saved again: `toConfig`
leaves out what is empty and binds sources to connections, and what `fromConfig` makes of the rest
is written the same way.

* `reopen_source` — a source that names a connection is opened as an explicit binding; one that
  names a type falls back to it again, since opening changes neither the names nor the types of the
  connections.
* `stable_block`, `stable_flow` — a block from its sub-flows, a flow from its blocks.
* `save_stable` — the whole document.
-/

namespace Octo.Editor

open List Option Octo.Types Octo.Config
open Octo.Engine (Kind)
open Octo.Foundation.Split (find_of_mem find_filterMap)

/-! ## Keys -/

theorem truthy_of_ne {s : String} (h : s ≠ "") : truthy s = some s := if_neg h

theorem truthy_bind_truthy (s : String) : (truthy s).bind truthy = truthy s := by
  by_cases h : s = ""
  · rw [h]
    rfl
  · rw [truthy_of_ne h]
    exact truthy_of_ne h

theorem bind_truthy_truthy (s : Option String) : (s.bind truthy).bind truthy = s.bind truthy := by
  cases s with
  | none => rfl
  | some s => exact truthy_bind_truthy s

theorem bind_truthy_eq (s : Option String) : s.bind truthy = truthy (s.getD "") := by
  cases s <;> rfl

theorem savedHead_savedHead (h : RuntimeBlockHead) : savedHead (savedHead h) = savedHead h := by
  cases hk : Kind.ofType (h.type.getD "") with
  | none => simp [savedHead, hk, bind_truthy_truthy, getD_hasKeys]
  | some k =>
    have hlookup := lookup_savedHead hk
    simp only [savedHead, hk, getD_some, bind_truthy_truthy] at hlookup ⊢
    congr 1
    refine filterMap_congr fun field hfield => ?_
    rw [hlookup, if_pos (mem_map_of_mem hfield)]
    exact congrArg _ or_none

/-! ## Sources -/

section Source

variable {connectors connectors' : List ConnectorInstance}

def SameNames (connectors connectors' : List ConnectorInstance) : Prop :=
  connectors'.map (fun c => (c.name, c.type)) = connectors.map fun c => (c.name, c.type)

theorem namesOfType_eq (type : String) : namesOfType connectors type =
      ((connectors.map fun c => (c.name, c.type)).filter fun c => c.2 = type ∧ c.1 ≠ "").map
        Prod.fst := by
  rw [List.filter_map, List.map_map]
  rfl

theorem mem_namesOfType {type name : String} (h : name ∈ namesOfType connectors type) :
    name ≠ "" ∧ ∃ c ∈ connectors, c.name = name := by
  obtain ⟨c, hc, rfl⟩ := mem_map.1 h
  have hc' := mem_filter.1 hc
  exact ⟨(of_decide_eq_true hc'.2).2, c, hc'.1, rfl⟩

variable {source : SourceNode}

theorem resolveSource_of_ref {ref : String}
    (h : source.connectorRef = some ref) (hne : ref ≠ "") :
    resolveSource connectors source = some ref := by
  simp [resolveSource, h, truthy_of_ne hne]

theorem resolveSource_of_type (h : source.connectorRef = none)
    (hnot : ∀ name, namesOfType connectors (source.connector.getD "") ≠ [name]) :
    resolveSource connectors source = truthy (source.connector.getD "") := by
  simp [resolveSource, h, ← bind_truthy_eq]

theorem resolveSource_cases
    (href : ∀ ref, source.connectorRef = some ref → ref ≠ "" → ∃ c ∈ connectors, c.name = ref) :
    (∃ name, resolveSource connectors source = some name ∧ name ≠ "" ∧
      ∃ c ∈ connectors, c.name = name) ∨
    (resolveSource connectors source = truthy (source.connector.getD "") ∧
      ∀ name, namesOfType connectors (source.connector.getD "") ≠ [name]) := by
  unfold resolveSource
  split
  next ref hsome =>
    obtain ⟨hsome, hne⟩ := bind_truthy_eq_some.1 hsome
    exact .inl ⟨ref, rfl, hne, href ref hsome hne⟩
  · split
    next name hnames =>
      have hmem : name ∈ namesOfType connectors (source.connector.getD "") := by
        rw [hnames]
        exact mem_singleton_self name
      exact .inl ⟨name, rfl, mem_namesOfType hmem⟩
    next hnames =>
      exact .inr ⟨bind_truthy_eq _, hnames⟩

theorem reopen_connector_of_mem {w : RuntimeSource} {name : String} (hw : w.connector = some name)
    (hne : name ≠ "") (h : (connTypes connectors name).isSome) :
    resolveSource connectors (sourceFromRuntime (connTypes connectors) w) = some name := by
  refine resolveSource_of_ref ?_ hne
  simp only [sourceFromRuntime, hw]
  exact if_pos h

theorem reopen_source (hsame : SameNames connectors connectors')
    (hnames : ∀ c ∈ connectors, c.name ≠ "")
    (href : ∀ ref, source.connectorRef = some ref → ref ≠ "" → ∃ c ∈ connectors, c.name = ref) :
    sourceToRuntime connectors' (sourceFromRuntime (connTypes connectors')
      (sourceToRuntime connectors source)) = sourceToRuntime connectors source := by
  have hexists : ∀ name, (connTypes connectors' name).isSome ↔ ∃ c ∈ connectors, c.name = name := by
    intro name
    have hnames' : connectors'.map (·.name) = connectors.map (·.name) := by
      have hfst := congrArg (map Prod.fst) hsame
      rwa [List.map_map, List.map_map] at hfst
    rw [isSome_connTypes, ← List.mem_map, ← List.mem_map, hnames']
  have hlone : ∀ type, namesOfType connectors' type = namesOfType connectors type := by
    intro type
    rw [namesOfType_eq, namesOfType_eq, hsame]
  -- the type and the settings are read and written as they are
  suffices hconnector : (resolveSource connectors' (sourceFromRuntime (connTypes connectors')
      (sourceToRuntime connectors source))).bind truthy =
        (resolveSource connectors source).bind truthy by
    unfold sourceToRuntime at hconnector ⊢
    rw [hconnector]
    simp [sourceFromRuntime, bind_truthy_truthy, getD_hasKeys]
  rcases resolveSource_cases href with ⟨name, hname, hne, hc⟩ | ⟨hfallback, hnot⟩
  · have hw : (sourceToRuntime connectors source).connector = some name := by
      simp [sourceToRuntime, hname, truthy_of_ne hne]
    rw [reopen_connector_of_mem hw hne ((hexists name).2 hc), hname]
  · have hw : (sourceToRuntime connectors source).connector =
        truthy (source.connector.getD "") := by
      rw [sourceToRuntime, hfallback, truthy_bind_truthy]
    rw [hfallback]
    by_cases hc : (connTypes connectors' (source.connector.getD "")).isSome
    · -- a connection has the name of the type
      have hne : source.connector.getD "" ≠ "" := by
        obtain ⟨c, hmem, hname⟩ := (hexists _).1 hc
        exact hname ▸ hnames c hmem
      rw [truthy_of_ne hne] at hw ⊢
      rw [reopen_connector_of_mem hw hne hc]
    · have hopened : (sourceFromRuntime (connTypes connectors')
          (sourceToRuntime connectors source)).connector = truthy (source.connector.getD "") := by
        simp only [sourceFromRuntime, hw, getD_truthy]
        rw [not_isSome_iff_eq_none.1 hc]
      rw [resolveSource_of_type]
      · rw [hopened, getD_truthy]
      · simp only [sourceFromRuntime, hw, getD_truthy]
        exact if_neg hc
      · rw [hopened, getD_truthy, hlone]
        exact hnot

end Source

/-! ## Blocks and flows -/

section Stable

variable (newId : String) (connectors connectors' : List ConnectorInstance)

def StableFlow (f : FlowDoc) : Prop :=
  reopenFlow ⟨newId, connectors'⟩ (flowToRuntime connectors f) =
    flowToRuntime connectors f

def StableBlock (b : BlockNode) : Prop :=
  reopenBlock ⟨newId, connectors'⟩ (blockToRuntime connectors b) =
    blockToRuntime connectors b

variable {newId connectors connectors'}

variable {f : FlowDoc} (h : StableFlow newId connectors connectors' f)
include h

theorem map_reopenBlock :
    (f.process.map (blockToRuntime connectors)).map
      (reopenBlock ⟨newId, connectors'⟩) =
        f.process.map (blockToRuntime connectors) := by
  have hsame : SameFlow ⟨newId, connectors'⟩ (flowToRuntime connectors f) _ :=
    sameFlow_reopenFlow _
  have hprocess := hsame.process
  rw [h, flowToRuntime_eq] at hprocess
  exact hprocess.symm

theorem reopenFlow_saved
    (when' description inputSchema : Option String) :
    reopenFlow ⟨newId, connectors'⟩ { flowToRuntime connectors f with
      head := { (flowToRuntime connectors f).head with when', description, inputSchema } } =
        flowToRuntime connectors f := by
  refine Eq.trans ?_ h
  rw [reopenFlow, flowFromRuntime_eq, reopenFlow, flowFromRuntime_eq]
  rfl

omit h

section Slot

variable {slots : List RuntimeSlot} {field : FieldSpec} {fs : List FlowDoc}

def entryToRuntime : FieldType → SavedFlow → RuntimeFlow
  | .caseList => caseToRuntime
  | .routeList => routeToRuntime
  | .toolList => toolToRuntime
  | _ => Prod.snd

theorem slotToRuntime_list {slot : List SavedFlow} (hlist : field.type ∈ listTypes) :
    slotToRuntime field slot = flowsSlot field.name (slot.map (entryToRuntime field.type)) := by
  simp only [listTypes, mem_cons, not_mem_nil, or_false] at hlist
  rcases hlist with htype | htype | htype | htype <;> simp only [slotToRuntime, htype] <;> rfl

theorem stable_entry (h : StableFlow newId connectors connectors' f) (type : FieldType) :
    reopenEntry ⟨newId, connectors'⟩ type
      (entryToRuntime type (saved connectors f)) = entryToRuntime type (saved connectors f) := by
  cases type with
  | caseList =>
    refine (reopenCase_eq _).trans ?_
    rw [entryToRuntime, caseToRuntime, saved, reopenFlow_saved h]
    rfl
  | routeList =>
    refine (reopenRoute_eq _).trans ?_
    rw [entryToRuntime, routeToRuntime, saved, reopenFlow_saved h]
    rfl
  | toolList =>
    refine (reopenTool_eq _).trans ?_
    rw [entryToRuntime, toolToRuntime, saved, reopenFlow_saved h]
    simp only [bind_truthy_truthy]
    rfl
  | _ => exact h

theorem stable_slot (hfs : ∀ f ∈ fs, StableFlow newId connectors connectors' f)
    (hfind : slots.find? (·.field = field.name) = slotToRuntime field (fs.map (saved connectors))) :
    reopenSlot ⟨newId, connectors'⟩ slots field =
      slotToRuntime field (fs.map (saved connectors)) := by
  by_cases hlist : field.type ∈ listTypes
  · rw [slotToRuntime_list hlist, List.map_map] at hfind ⊢
    have hpart : flowsPart slots field.name =
        some (fs.map (entryToRuntime field.type ∘ saved connectors)) := by
      unfold flowsPart
      rw [hfind]
      cases fs <;> rfl
    rw [reopenSlot_list hlist hpart, List.map_map]
    exact congrArg _ (List.map_congr_left fun f hf => stable_entry (hfs f hf) field.type)
  · cases htype : field.type with
    | flow =>
      simp only [slotToRuntime, htype] at hfind ⊢
      have hpart : flowPart slots field.name = some (fs.head?.map (flowToRuntime connectors)) := by
        unfold flowPart
        rw [hfind]
        cases fs <;> rfl
      rw [reopenSlot_flow htype hpart]
      cases fs with
      | nil => rfl
      | cons f => exact congrArg (fun g => some (RuntimeSlot.flow field.name g)) (hfs f mem_cons_self)
    | blockList =>
      simp only [slotToRuntime, htype] at hfind ⊢
      cases fs with
      | nil =>
        have hpart : blocksPart slots field.name = some [] := by
          unfold blocksPart
          rw [hfind]
          rfl
        exact reopenSlot_blocks htype hpart
      | cons f =>
        have hchain : (saved connectors f).2.process = f.process.map (blockToRuntime connectors) := by
          rw [saved, flowToRuntime_eq]
        rw [map_cons, head?_cons, elim_some, hchain] at hfind ⊢
        have hpart : blocksPart slots field.name =
            some (f.process.map (blockToRuntime connectors)) := by
          unfold blocksPart
          rw [hfind]
          cases f.process.map (blockToRuntime connectors) <;> rfl
        rw [reopenSlot_blocks htype hpart, map_reopenBlock (hfs f mem_cons_self)]
    | flowList | caseList | routeList | toolList => exact absurd (htype ▸ by decide) hlist
    | _ => simp [reopenSlot, slotToRuntime, htype]

end Slot

theorem stable_block {b : BlockNode}
    (h : ∀ s ∈ b.slots, ∀ f ∈ s.flows, StableFlow newId connectors connectors' f) :
    StableBlock newId connectors connectors' b := by
  unfold StableBlock
  have htype : (blockToRuntime connectors b).head.type.getD "" = b.head.type := by
    rw [blockToRuntime_eq, savedHead_type]
    rfl
  rw [reopenBlock_eq, htype, blockToRuntime_eq, savedHead_savedHead]
  congr 1
  refine filterMap_congr fun field hfield => stable_slot (fun f hf => ?_) ?_
  · obtain ⟨s, hs, hf⟩ := BlockNode.mem_slot hf
    exact h s hs f hf
  · rw [find_filterMap (fun _ _ => slotToRuntime_field) field.name slotsFor_nodup,
      find_of_mem FieldSpec.name slotsFor_nodup hfield, bind_some]

theorem stable_flow (hsource : ∀ source, f.head.source = some source →
      sourceToRuntime connectors' (sourceFromRuntime (connTypes connectors')
        (sourceToRuntime connectors source)) = sourceToRuntime connectors source)
    (hprocess : ∀ b ∈ f.process, StableBlock newId connectors connectors' b)
    (herror : ∀ e, f.error = some e → StableFlow newId connectors connectors' e) :
    StableFlow newId connectors connectors' f := by
  unfold StableFlow
  rw [reopenFlow, flowToRuntime_eq, flowFromRuntime_eq, flowToRuntime_eq]
  congr 1
  · -- the keys
    unfold flowHeadToRuntime flowHeadFromRuntime
    rw [getD_truthy]
    cases hs : f.head.source with
    | none => rfl
    | some source =>
      simp only [map_some]
      rw [hsource source hs]
  · rw [List.map_map, List.map_map]
    exact List.map_congr_left hprocess
  · cases he : f.error with
    | none => rfl
    | some e =>
      have hchain := map_reopenBlock (herror e he)
      rw [bind_some, errorToRuntime_eq]
      split
      · rfl
      next hne =>
        rw [map_some, bind_some, errorToRuntime_eq, if_neg (by simpa using hne)]
        rw [List.map_map]
        exact congrArg some hchain

theorem stable_of_sources (hsame : SameNames connectors connectors')
    (hnames : ∀ c ∈ connectors, c.name ≠ "") (f : FlowDoc) :
    (∀ g ∈ flowsOf f, ∀ source, g.head.source = some source →
      ∀ ref, source.connectorRef = some ref → ref ≠ "" → ∃ c ∈ connectors, c.name = ref) →
    StableFlow newId connectors connectors' f := by
  induction f using FlowDoc.induction with
  | step f hsub herror =>
    intro hrefs
    rw [flowsOf_eq] at hrefs
    have hbelow : ∀ g ∈ f.children, ∀ x ∈ flowsOf g, ∀ source, x.head.source = some source →
        ∀ ref, source.connectorRef = some ref → ref ≠ "" → ∃ c ∈ connectors, c.name = ref :=
      fun g hg x hx => hrefs x (mem_cons_of_mem f (mem_flatMap.2 ⟨g, hg, hx⟩))
    refine stable_flow ?_ ?_ ?_
    · intro source hs
      exact reopen_source hsame hnames (hrefs f mem_cons_self source hs)
    · intro b hb
      refine stable_block fun s hs g hg => hsub b hb s hs g hg (hbelow g ?_)
      exact mem_append_left _ (mem_flatMap.2 ⟨b, hb, mem_flatMap.2 ⟨s, hs, hg⟩⟩)
    · intro e he
      refine herror e he (hbelow e (mem_append_right _ ?_))
      rw [he]
      exact mem_singleton_self e

/-- **Saving is stable**: a document with a flow, whose connections and references are named, is
saved as the same config after its config was opened. -/
theorem save_stable (newId : String) (doc : EditorDocument) (hflows : doc.flows ≠ [])
    (hnames : ∀ c ∈ doc.connectors, c.name ≠ "")
    (hrefs : ∀ f ∈ doc.allFlows, ∀ source, f.head.source = some source →
      ∀ ref, source.connectorRef = some ref → ref ≠ "" → ∃ c ∈ doc.connectors, c.name = ref) :
    toConfig (fromConfig newId (toConfig doc)) = toConfig doc := by
  have hne : (toConfig doc).flows ≠ [] := by simpa [toConfig] using hflows
  have hsame : SameNames doc.connectors
      ((toConfig doc).connectors.map (connectorFromRuntime newId)) := by
    simp only [SameNames, toConfig, List.map_map]
    refine List.map_congr_left fun c _ => ?_
    simp [connectorFromRuntime, connectorToRuntime, getD_truthy]
  have henv : ∀ v ∈ doc.env, envToRuntime (envFromRuntime (envToRuntime v)) = envToRuntime v := by
    rintro ⟨name, default', required⟩ _
    cases required <;> simp [envToRuntime, envFromRuntime, bind_truthy_truthy]
  have hconnectors : ∀ c ∈ doc.connectors, connectorToRuntime (connectorFromRuntime newId
      (connectorToRuntime c)) = connectorToRuntime c := by
    intro c _
    simp [connectorToRuntime, connectorFromRuntime, getD_truthy, getD_hasKeys]
  rw [fromConfig, if_neg hne]
  simp only [toConfig, List.map_map] at hsame ⊢
  congr 1
  · exact List.map_congr_left henv
  · exact List.map_congr_left hconnectors
  · refine List.map_congr_left fun f hf => ?_
    refine (flowToRuntime_withErrorChain _).trans (stable_of_sources hsame hnames f fun g hg => ?_)
    exact hrefs g (mem_flatMap.2 ⟨f, hf, hg⟩)

end Stable

/-- A flow bound to one of two connections, with a loop around a block of an unknown type. -/
def loopDocument : EditorDocument where
  flows := [⟨{ id := "f", name := "orders"
               source := some ⟨some "queue", some "jobs", some "message", [("topic", .str "in")]⟩ },
    [⟨{ id := "b", type := "foreach", settings := [("items", .str "body")] },
      [⟨"body", [⟨{ id := "g" }, [⟨{ id := "c", type := "custom", settings := [("n", .int 1)] }, []⟩],
        none⟩]⟩]⟩], none⟩]
  connectors := [⟨"1", "jobs", "queue", []⟩, ⟨"2", "events", "queue", []⟩]
  processors := []
  env := [⟨"REGION", some "eu", false⟩]

theorem loopDocument_save_stable :
    toConfig (fromConfig "id" (toConfig loopDocument)) = toConfig loopDocument := by
  refine save_stable "id" loopDocument (cons_ne_nil _ _) (by decide) ?_
  intro f hf source hsource ref href _
  simp only [EditorDocument.allFlows, loopDocument, flowsOf, flatMap_cons, flatMap_nil,
    append_nil, mem_cons, not_mem_nil, or_false] at hf
  rcases hf with rfl | rfl
  · cases hsource
    cases href
    exact ⟨_, mem_cons_self, rfl⟩
  · cases hsource

end Octo.Editor
