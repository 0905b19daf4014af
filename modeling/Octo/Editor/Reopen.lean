import Octo.Editor.Validate
import Octo.Engine.Means
import Octo.Foundation.Split

/-!
# Opening and saving

What the editor writes for a block or a flow it has read: `blockToRuntime` after
`blockFromRuntime`, and the same for flows.

* `isComposite_iff` — the schema and the engine agree on which types are composite.
* `savedHead`, `reopenBlock_head` — the keys that come back; a composite fills the options it leaves
  out from its `settings` map.
-/

namespace Octo.Editor

open List Function Option FieldSpec Octo.Types Octo.Config
open Octo.Engine (Kind Deps Own EntryHeads ScalarsWithin SlotsWithin SameRequired allowedFor
  required_set wireEntries)
open Octo.Foundation.Split (find_of_mem find_filterMap lookup_cons_if lookup_filterMap)

/-! ## The schema and the engine -/

variable {type : String}

theorem type_of_ofType {k : Kind} (h : Kind.ofType type = some k) : type = k.type := by
  have heq : k.type = type := by simpa using find?_some h
  exact heq.symm

theorem isComposite_iff (type : String) :
    isComposite type = true ↔ ∃ k, Kind.ofType type = some k := by
  constructor
  · intro h
    cases hspec : getBlockSpec type with
    | none => simp [isComposite, slotFields, hspec] at h
    | some spec =>
      have htype : spec.type = type := by simpa using find?_some hspec
      have hfields : spec.fields.filter isSlotField ≠ [] := by
        simpa [isComposite, slotFields, hspec] using h
      have hall : ∀ spec ∈ blockSpecs, spec.fields.filter isSlotField ≠ [] →
          (Kind.ofType spec.type).isSome := by decide
      rw [← htype]
      exact isSome_iff_exists.1 (hall spec (mem_of_find?_eq_some hspec) hfields)
  · rintro ⟨k, hk⟩
    rw [type_of_ofType hk]
    cases k <;> decide

def kindFields (k : Kind) : List FieldSpec := ((getBlockSpec k.type).map BlockSpec.fields).getD []

def scalarFields (k : Kind) : List FieldSpec := (kindFields k).filter (!isSlotField ·)

def fieldsFor (type : String) : List FieldSpec := ((Kind.ofType type).map kindFields).getD []

def slotsFor (type : String) : List FieldSpec := (fieldsFor type).filter isSlotField

theorem isComposite_of_none (hk : Kind.ofType type = none) : isComposite type = false := by
  rw [Bool.eq_false_iff, Ne, isComposite_iff, hk]
  simp

theorem spec_of_kind {k : Kind} (hk : Kind.ofType type = some k) :
    isComposite type = true ∧ ∃ spec, getBlockSpec type = some spec ∧ spec.fields = kindFields k := by
  refine ⟨(isComposite_iff _).2 ⟨k, hk⟩, ?_⟩
  rw [type_of_ofType hk]
  have hsome : (getBlockSpec k.type).isSome := by cases k <;> decide
  obtain ⟨spec, hspec⟩ := isSome_iff_exists.1 hsome
  exact ⟨spec, hspec, by rw [kindFields, hspec]; rfl⟩

/-! ## The keys of a block -/

theorem lookup_setKey (settings : Settings) (key : String) (v : Value) (n : String) :
    (setKey settings key v).lookup n = if n = key then some v else settings.lookup n := by
  induction settings with
  | nil => rw [setKey, lookup_cons_if]
  | cons e rest ih =>
    obtain ⟨k, x⟩ := e
    unfold setKey
    by_cases hk : k = key
    · subst hk
      rw [if_pos rfl, lookup_cons_if, lookup_cons_if]
      split <;> rfl
    · rw [if_neg hk, lookup_cons_if, lookup_cons_if, ih]
      by_cases hn : n = k
      · rw [if_pos hn, if_neg (hn ▸ hk), if_pos hn]
      · rw [if_neg hn, if_neg hn]

variable (head : RuntimeBlockHead)

theorem lookup_openedSettings (fields : List FieldSpec) (n : String) :
    (openedSettings head fields).lookup n =
      (if n ∈ fields.map (·.name) then head.scalars.lookup n else none).or
        ((head.settings.getD []).lookup n) := by
  unfold openedSettings
  generalize head.settings.getD [] = base
  induction fields generalizing base with
  | nil => simp
  | cons field fields ih =>
    rw [foldl_cons, ih]
    by_cases hn : n = field.name
    · subst hn
      cases hv : head.scalars.lookup field.name with
      | none => simp
      | some =>
        rw [lookup_setKey]
        split <;> simp
    · cases hv : head.scalars.lookup field.name with
      | none => simp [hn]
      | some => simp [hn, lookup_setKey]

/-- The keys the editor writes for a block it has read: no `ref`; a leaf keeps its settings, and a
composite has the options of its kind, those it leaves out taken from its `settings` map. -/
def savedHead (h : RuntimeBlockHead) : RuntimeBlockHead :=
  match Kind.ofType (h.type.getD "") with
  | none =>
    { type := some (h.type.getD ""), name := h.name.bind truthy
      settings := hasKeys (h.settings.getD []) }
  | some k =>
    { type := some (h.type.getD ""), name := h.name.bind truthy
      scalars := (scalarFields k).filterMap fun field =>
        ((h.scalars.lookup field.name).or ((h.settings.getD []).lookup field.name)).map
          fun v => (field.name, v) }

section Head

variable {w : RuntimeBlockHead} {k : Kind}

theorem savedHead_type (w : RuntimeBlockHead) : (savedHead w).type.getD "" = w.type.getD "" := by
  unfold savedHead
  split <;> rfl

theorem savedHead_name (w : RuntimeBlockHead) : (savedHead w).name.getD "" = w.name.getD "" := by
  have hname : (savedHead w).name = w.name.bind truthy := by
    unfold savedHead
    split <;> rfl
  rw [hname, getD_bind_truthy]

theorem savedHead_ref (w : RuntimeBlockHead) : (savedHead w).ref = none := by
  unfold savedHead
  split <;> rfl

theorem lookup_savedHead (hk : Kind.ofType (w.type.getD "") = some k) (n : String) :
    (savedHead w).scalars.lookup n = if n ∈ (scalarFields k).map (·.name) then
        (w.scalars.lookup n).or ((w.settings.getD []).lookup n)
      else none := by
  rw [savedHead, hk]
  exact lookup_filterMap name
    (fun n => (w.scalars.lookup n).or ((w.settings.getD []).lookup n)) n _

section Scalar

variable {α : Type} {n : String} {zero x y : α} {decode : String → Value → Except LoadError α}

variable (hk : Kind.ofType (w.type.getD "") = some k)
include hk

theorem savedScalar_eq_zero
    (hn : n ∉ (scalarFields k).map (·.name))
    (hx : scalarAt (savedHead w).scalars n zero decode = .ok x) : x = zero := by
  rw [scalarAt, lookup_savedHead hk, if_neg hn] at hx
  exact (Except.ok.inj hx).symm

theorem savedScalar_eq
    (hn : n ∈ (scalarFields k).map (·.name)) (hy : scalarAt w.scalars n zero decode = .ok y)
    (hne : y ≠ zero) (hx : scalarAt (savedHead w).scalars n zero decode = .ok x) : x = y := by
  rw [scalarAt, lookup_savedHead hk, if_pos hn] at hx
  rw [scalarAt] at hy
  cases hv : w.scalars.lookup n with
  | none =>
    rw [hv] at hy
    exact absurd (Except.ok.inj hy).symm hne
  | some =>
    rw [hv] at hy hx
    exact Except.ok.inj (hx.symm.trans hy)

end Scalar

theorem scalarFields_allowed (k : Kind) :
    ∀ n, n ∈ (scalarFields k).map (·.name) → n ∈ k.allowed := by
  intro n hn
  have hall : ∀ n ∈ (scalarFields k).map (·.name), n ∈ k.allowed := by cases k <;> decide
  exact hall n hn

theorem required_scalarFields (k : Kind) :
    ∀ n ∈ ["condition", "items", "key", "connector", "prompt"], n ∈ k.allowed →
      n ∈ (scalarFields k).map (·.name) := by
  cases k <;> decide

variable {truncate : String → Option Int} {h h' : BlockHead}

variable (hk : Kind.ofType (w.type.getD "") = some k)
include hk

theorem scalarsWithin_saved
    (hd : DecodedHead truncate (savedHead w) h') : ScalarsWithin h' k.allowed := by
  have hset : ∀ {α : Type} {n : String} {zero x : α} {decode : String → Value → Except LoadError α},
      scalarAt (savedHead w).scalars n zero decode = .ok x → x ≠ zero → n ∈ k.allowed := by
    intro α n zero x decode hx hne
    by_contra hn
    exact hne (savedScalar_eq_zero hk (fun hmem => hn (scalarFields_allowed k n hmem)) hx)
  exact ⟨hset hd.condition, hset hd.items, hset hd.as', hset hd.setBody, hset hd.setVars,
    hset hd.key, hset hd.ttl, hset hd.connector, hset hd.prompt, hset hd.guardrail,
    hset hd.maxIterations, hset hd.maxAttempts, hset hd.memoryThreadID, hset hd.memoryMaxTokens,
    hset hd.memoryCompaction⟩

theorem sameRequired_saved {d : Deps} {es : EntryHeads} {own : Own} (hd : DecodedHead truncate w h)
    (hw : ScalarsWithin h k.allowed) (hp : k.params d h es = .ok own)
    (hd' : DecodedHead truncate (savedHead w) h') : SameRequired h h' := by
  have hfield : ∀ {n : String} {x y : String},
      n ∈ ["condition", "items", "key", "connector", "prompt"] →
      (n ∈ k.allowed → y ≠ "") → (y ≠ "" → n ∈ k.allowed) →
      scalarAt w.scalars n "" decodeString = .ok y →
      scalarAt (savedHead w).scalars n "" decodeString = .ok x → x = y := by
    intro n x y hreq hset hwithin hy hx
    by_cases hn : n ∈ k.allowed
    · exact savedScalar_eq hk (required_scalarFields k n hreq hn) hy (hset hn) hx
    · rw [savedScalar_eq_zero hk (fun hmem => hn (scalarFields_allowed k n hmem)) hx]
      by_contra hne
      exact hn (hwithin (Ne.symm hne))
  obtain ⟨hcondition, hitems, hkey, hconnector, hprompt⟩ := required_set hp
  exact ⟨hfield (by decide) hcondition hw.condition hd.condition hd'.condition,
    hfield (by decide) hitems hw.items hd.items hd'.items,
    hfield (by decide) hkey hw.key hd.key hd'.key,
    hfield (by decide) hconnector hw.connector hd.connector hd'.connector,
    hfield (by decide) hprompt hw.prompt hd.prompt hd'.prompt⟩

end Head

def slotType : String → Option FieldType
  | "process" | "error" => some .blockList
  | "then" | "else" | "default" | "body" => some .flow
  | "branches" => some .flowList
  | "cases" => some .caseList
  | "routes" => some .routeList
  | "tools" => some .toolList
  | _ => none

section Slots

variable {type : String}

theorem slotType_of_mem : ∀ field ∈ slotsFor type, slotType field.name = some field.type := by
  unfold slotsFor fieldsFor
  cases Kind.ofType type with
  | none => simp
  | some k => cases k <;> decide

theorem slotsFor_nodup : ((slotsFor type).map (·.name)).Nodup := by
  unfold slotsFor fieldsFor
  cases Kind.ofType type with
  | none => exact nodup_nil
  | some k => cases k <;> decide

theorem mem_slotsFor : ∀ n ∈ ["process", "error", "branches", "then", "else", "cases", "default",
    "body", "routes", "tools"], n ∈ allowedFor type → n ∈ (slotsFor type).map (·.name) := by
  unfold slotsFor fieldsFor allowedFor
  cases Kind.ofType type with
  | none => simp
  | some k => cases k <;> decide

end Slots

section Reopen

/-- A document is opened with the ids the editor makes up and saved with its connections. -/
structure Session where
  newId : String
  connectors : List ConnectorInstance

abbrev Session.types (e : Session) : String → Option String := connTypes e.connectors

def saved (connectors : List ConnectorInstance) (f : FlowDoc) : SavedFlow :=
  (f.head, flowToRuntime connectors f)

variable {newId : String} {connectors : List ConnectorInstance} {types : String → Option String}

variable (e : Session)

def reopenBlock (w : RuntimeBlock) : RuntimeBlock :=
  blockToRuntime e.connectors (blockFromRuntime e.newId e.types w)

variable (f : RuntimeFlow)

def reopenFlow : RuntimeFlow :=
  flowToRuntime e.connectors (flowFromRuntime e.newId e.types f)

def reopenCase : RuntimeFlow :=
  caseToRuntime (saved e.connectors (caseFromRuntime (f.head, flowFromRuntime e.newId e.types f)))

def reopenRoute : RuntimeFlow :=
  routeToRuntime (saved e.connectors (routeFromRuntime (f.head, flowFromRuntime e.newId e.types f)))

def reopenTool : RuntimeFlow :=
  toolToRuntime (saved e.connectors (toolFromRuntime (f.head, flowFromRuntime e.newId e.types f)))

def listTypes : List FieldType := [.flowList, .caseList, .routeList, .toolList]

def reopenEntry : FieldType → RuntimeFlow → RuntimeFlow
  | .caseList => reopenCase e
  | .routeList => reopenRoute e
  | .toolList => reopenTool e
  | _ => reopenFlow e

def reopenSlot (slots : List RuntimeSlot) (field : FieldSpec) : Option RuntimeSlot :=
  slotToRuntime field
    ((slotFromRuntime e.newId (slots.map (openSlot e.newId e.types)) field).map (saved e.connectors))

variable {e}

theorem slot_of_mem {head : NodeHead} {g : FieldSpec → List FlowDoc}
    {field : FieldSpec} (h : field ∈ slotsFor type) :
    BlockNode.slot ⟨head, (slotsFor type).map fun f => ⟨f.name, g f⟩⟩ field.name = g field := by
  rw [BlockNode.slot, find?_map]
  simp only [comp_def]
  rw [find_of_mem name slotsFor_nodup h]
  rfl

def nodeKeys (head : NodeHead) : RuntimeBlockHead :=
  { type := some head.type, name := head.name, settings := some head.settings }

theorem blockToRuntime_eq (b : BlockNode) : blockToRuntime connectors b =
      ⟨savedHead (nodeKeys b.head), (slotsFor b.head.type).filterMap fun field =>
        slotToRuntime field ((b.slot field.name).map (saved connectors))⟩ := by
  have hslot := fun field : FieldSpec => lookup_slots (saved connectors) b field.name
  obtain ⟨head, slots⟩ := b
  rw [blockToRuntime]
  simp only [wireOf, savedHead, slotsFor, fieldsFor, nodeKeys, getD_some]
  cases hk : Kind.ofType head.type with
  | none =>
    rw [isComposite_of_none hk]
    cases getBlockSpec head.type <;> rfl
  | some k =>
    obtain ⟨hcomp, spec, hspec, hfields⟩ := spec_of_kind hk
    rw [hspec, hcomp]
    simp only [hfields]
    exact congrArg (RuntimeBlock.mk _) (filterMap_congr fun field _ =>
      congrArg (slotToRuntime field) (hslot field))

variable (w : RuntimeBlock)

theorem blockFromRuntime_eq : blockFromRuntime newId types w =
      ⟨{ id := newId, type := w.head.type.getD "", name := w.head.name
         settings := openedSettings w.head
           ((fieldsFor (w.head.type.getD "")).filter (!isSlotField ·)) },
        (slotsFor (w.head.type.getD "")).map fun field =>
          ⟨field.name, slotFromRuntime newId (w.slots.map (openSlot newId types)) field⟩⟩ := by
  obtain ⟨head, slots⟩ := w
  rw [blockFromRuntime]
  simp only [nodeOf, slotsFor, fieldsFor]
  cases hk : Kind.ofType (head.type.getD "") with
  | none =>
    rw [isComposite_of_none hk]
    cases getBlockSpec (head.type.getD "") <;> rfl
  | some k =>
    obtain ⟨hcomp, spec, hspec, hfields⟩ := spec_of_kind hk
    rw [hspec, hcomp]
    simp only [hfields]
    rfl

theorem savedHead_opened :
    savedHead (nodeKeys { id := newId, type := head.type.getD "", name := head.name
                          settings := openedSettings head
                            ((fieldsFor (head.type.getD "")).filter (!isSlotField ·)) }) =
      savedHead head := by
  simp only [savedHead, nodeKeys, getD_some, fieldsFor]
  cases Kind.ofType (head.type.getD "") with
  | none => rfl
  | some k =>
    refine congrArg (RuntimeBlockHead.mk _ _ _ _) ?_
    refine filterMap_congr fun field hfield => ?_
    rw [lookup_openedSettings, if_pos]
    · rfl
    · exact mem_map_of_mem hfield

theorem reopenBlock_eq :
    reopenBlock e w = ⟨savedHead w.head,
      (slotsFor (w.head.type.getD "")).filterMap (reopenSlot e w.slots)⟩ := by
  rw [reopenBlock, blockToRuntime_eq, blockFromRuntime_eq, savedHead_opened]
  refine congrArg (RuntimeBlock.mk _) (filterMap_congr fun field hfield => ?_)
  exact congrArg (slotToRuntime field) (congrArg (List.map (saved e.connectors)) (slot_of_mem hfield))

theorem reopenBlock_head :
    (reopenBlock e w).head = savedHead w.head := by
  rw [reopenBlock_eq]

/-! ## The slots of a block -/

variable {slots : List RuntimeSlot} {field : FieldSpec}

theorem openSlot_field (s : RuntimeSlot) : (openSlot newId types s).field = s.field := by
  cases s <;> rw [openSlot] <;> rfl

theorem find_openSlot (n : String) : (slots.map (openSlot newId types)).find? (·.field = n) =
      (slots.find? (·.field = n)).map (openSlot newId types) := by
  simp [comp_def, openSlot_field]

variable {o : Option RuntimeFlow}

theorem reopenSlot_flow (htype : field.type = .flow)
    (ho : flowPart slots field.name = some o) : reopenSlot e slots field =
      o.map fun f => .flow field.name (reopenFlow e f) := by
  unfold flowPart at ho
  simp only [reopenSlot, slotToRuntime, slotFromRuntime, htype, find_openSlot]
  split at ho
  next hfind =>
    cases ho
    rw [hfind]
    rfl
  next hfind =>
    cases ho
    rw [hfind, map_some, openSlot]
    rfl
  · cases ho

variable {fs : List RuntimeFlow}

theorem openedFlows_eq {n : String} (h : flowsPart slots n = some fs) :
    openedFlows (slots.map (openSlot newId types)) n =
      fs.map fun f => (f.head, flowFromRuntime newId types f) := by
  unfold flowsPart at h
  rw [openedFlows, find_openSlot]
  split at h
  next hfind =>
    cases h
    rw [hfind]
    rfl
  next hfind =>
    cases h
    rw [hfind, map_some, openSlot]
  · cases h

theorem reopenSlot_list (hlist : field.type ∈ listTypes)
    (hfs : flowsPart slots field.name = some fs) : reopenSlot e slots field =
      flowsSlot field.name (fs.map (reopenEntry e field.type)) := by
  simp only [listTypes, mem_cons, not_mem_nil, or_false] at hlist
  rcases hlist with htype | htype | htype | htype <;>
    simp only [reopenSlot, slotToRuntime, slotFromRuntime, htype, openedFlows_eq hfs,
      List.map_map] <;> rfl

variable {ws : List RuntimeBlock}

theorem reopenSlot_blocks (htype : field.type = .blockList)
    (hws : blocksPart slots field.name = some ws) : reopenSlot e slots field =
      blocksSlot field.name (ws.map (reopenBlock e)) := by
  unfold blocksPart at hws
  simp only [reopenSlot, slotToRuntime, slotFromRuntime, htype, find_openSlot]
  split at hws
  next hfind =>
    cases hws
    rw [hfind]
    simp [saved, flowToRuntime]
  next hfind =>
    cases hws
    rw [hfind, map_some, openSlot]
    simp only [map_cons, saved, flowToRuntime, List.map_map]
    rfl
  · cases hws

theorem flowsSlot_field {n : String} {s : RuntimeSlot} (h : flowsSlot n fs = some s) :
    s.field = n := by
  cases fs with
  | nil => cases h
  | cons =>
    cases h
    rfl

theorem slotToRuntime_field {slot : List SavedFlow} {s : RuntimeSlot}
    (h : slotToRuntime field slot = some s) : s.field = field.name := by
  unfold slotToRuntime at h
  split at h
  · obtain ⟨f, -, rfl⟩ := map_eq_some_iff.1 h
    rfl
  · exact flowsSlot_field h
  · exact flowsSlot_field h
  · exact flowsSlot_field h
  · exact flowsSlot_field h
  · unfold blocksSlot at h
    split at h <;> cases h
    rfl
  · cases h

variable {type n : String}

variable (e slots type) in
theorem find_reopen {holds : FieldType} (hn : slotType n = some holds) :
    (n ∉ (slotsFor type).map (·.name) ∧
      ((slotsFor type).filterMap (reopenSlot e slots)).find? (·.field = n) =
        none) ∨ ∃ field : FieldSpec, field.name = n ∧ field.type = holds ∧
      ((slotsFor type).filterMap (reopenSlot e slots)).find? (·.field = n) =
        reopenSlot e slots field := by
  have hnodup : ((slotsFor type).map (·.name)).Nodup := slotsFor_nodup
  have hfind := find_filterMap (g := reopenSlot e slots)
    (fun _ _ => slotToRuntime_field) n hnodup
  rw [hfind]
  by_cases hmem : n ∈ (slotsFor type).map (·.name)
  · obtain ⟨field, hfield, rfl⟩ := mem_map.1 hmem
    rw [find_of_mem name hnodup hfield]
    rw [slotType_of_mem field hfield] at hn
    exact .inr ⟨field, rfl, Option.some.inj hn, rfl⟩
  · refine .inl ⟨hmem, ?_⟩
    rw [find?_eq_none.2, bind_none]
    exact fun field hfield hname => hmem (mem_map.2 ⟨field, hfield, of_decide_eq_true hname⟩)

theorem flowPart_reopen (ho : flowPart slots n = some o)
    (htype : slotType n = some .flow) (hset : o ≠ none → n ∈ (slotsFor type).map (·.name)) :
    flowPart ((slotsFor type).filterMap (reopenSlot e slots)) n =
      some (o.map (reopenFlow e)) := by
  rw [flowPart]
  rcases find_reopen e slots type htype with ⟨hnot, hfind⟩ |
    ⟨field, rfl, hflow, hfind⟩
  · rw [hfind, by_contra fun hne => hnot (hset hne)]
    rfl
  · rw [hfind, reopenSlot_flow hflow ho]
    cases o <;> rfl

theorem flowsPart_reopen {holds : FieldType} (hfs : flowsPart slots n = some fs)
    (htype : slotType n = some holds) (hlist : holds ∈ listTypes)
    (hset : fs ≠ [] → n ∈ (slotsFor type).map (·.name)) :
    flowsPart ((slotsFor type).filterMap (reopenSlot e slots)) n =
      some (fs.map (reopenEntry e holds)) := by
  rw [flowsPart]
  rcases find_reopen e slots type htype with ⟨hnot, hfind⟩ |
    ⟨field, rfl, rfl, hfind⟩
  · rw [hfind, by_contra fun hne => hnot (hset hne)]
    rfl
  · rw [hfind, reopenSlot_list hlist hfs]
    cases fs <;> rfl

theorem blocksPart_reopen (hws : blocksPart slots n = some ws)
    (htype : slotType n = some .blockList) (hset : ws ≠ [] → n ∈ (slotsFor type).map (·.name)) :
    blocksPart ((slotsFor type).filterMap (reopenSlot e slots)) n =
      some (ws.map (reopenBlock e)) := by
  rw [blocksPart]
  rcases find_reopen e slots type htype with ⟨hnot, hfind⟩ |
    ⟨field, rfl, hblocks, hfind⟩
  · rw [hfind, by_contra fun hne => hnot (hset hne)]
    rfl
  · rw [hfind, reopenSlot_blocks hblocks hws]
    cases ws <;> rfl

theorem wireParts_reopen {w : RuntimeBlock} {p : WireParts} (hp : wireParts w.slots = some p)
    (hw : SlotsWithin p.shape (allowedFor (w.head.type.getD ""))) :
    wireParts (reopenBlock e w).slots =
      some (p.map (reopenBlock e) (reopenFlow e)
        (reopenCase e) (reopenRoute e)
        (reopenTool e)) := by
  rw [reopenBlock_eq]
  obtain ⟨h1, h2, h3, h4, h5, h6, h7, h8, h9, h10⟩ := hw
  simp only [Parts.shape, Parts.map, ne_eq, map_eq_nil_iff, map_eq_none_iff] at h1 h2 h3 h4 h5 h6 h7 h8 h9 h10
  obtain ⟨p1, p2, p3, p4, p5, p6, p7, p8, p9, p10⟩ := wireParts_eq_some.1 hp
  refine wireParts_eq_some.2 ⟨?_, ?_, ?_, ?_, ?_, ?_, ?_, ?_, ?_, ?_⟩
  · exact blocksPart_reopen p1 rfl fun h => mem_slotsFor _ (by decide) (h1 h)
  · exact blocksPart_reopen p2 rfl fun h => mem_slotsFor _ (by decide) (h2 h)
  · exact flowsPart_reopen p3 rfl (by decide) fun h => mem_slotsFor _ (by decide) (h3 h)
  · exact flowPart_reopen p4 rfl fun h => mem_slotsFor _ (by decide) (h4 h)
  · exact flowPart_reopen p5 rfl fun h => mem_slotsFor _ (by decide) (h5 h)
  · exact flowsPart_reopen p6 rfl (by decide) fun h => mem_slotsFor _ (by decide) (h6 h)
  · exact flowPart_reopen p7 rfl fun h => mem_slotsFor _ (by decide) (h7 h)
  · exact flowPart_reopen p8 rfl fun h => mem_slotsFor _ (by decide) (h8 h)
  · exact flowsPart_reopen p9 rfl (by decide) fun h => mem_slotsFor _ (by decide) (h9 h)
  · exact flowsPart_reopen p10 rfl (by decide) fun h => mem_slotsFor _ (by decide) (h10 h)

/-! ## The keys and chains of a flow -/

theorem isSome_connTypes {name : String} :
    (connTypes connectors name).isSome ↔ ∃ c ∈ connectors, c.name = name := by
  unfold connTypes
  simp

variable (e) in
/-- A flow comes back under its name, with its tuning, and with a source if it has one; its blocks
come back one by one. -/
structure SameFlow (f f' : RuntimeFlow) : Prop where
  name : f'.head.name.getD "" = f.head.name.getD ""
  source : f'.head.source = none ↔ f.head.source = none
  workers : f'.head.workers = f.head.workers
  buffer : f'.head.buffer = f.head.buffer
  pool : f'.head.pool = f.head.pool
  process : f'.process = f.process.map (reopenBlock e)
  error : f'.error.getD [] = (f.error.getD []).map (reopenBlock e)

variable (f : RuntimeFlow)

theorem flowFromRuntime_eq : flowFromRuntime newId types f =
      ⟨flowHeadFromRuntime newId types f.head, f.process.map (blockFromRuntime newId types),
        f.error.map fun bs => ⟨{ id := newId }, bs.map (blockFromRuntime newId types), none⟩⟩ := by
  obtain ⟨head, process, error⟩ := f
  cases error <;> rw [flowFromRuntime] <;> rfl

theorem flowToRuntime_eq (f : FlowDoc) : flowToRuntime connectors f =
      ⟨flowHeadToRuntime connectors f.head, f.process.map (blockToRuntime connectors),
        f.error.bind (errorToRuntime connectors)⟩ := by
  obtain ⟨head, process, error⟩ := f
  cases error <;> rw [flowToRuntime] <;> rfl

theorem errorToRuntime_eq (e : FlowDoc) : errorToRuntime connectors e =
      if e.process = [] then none else some (e.process.map (blockToRuntime connectors)) := by
  obtain ⟨head, process, error⟩ := e
  rw [errorToRuntime]

theorem getD_errorToRuntime (f : FlowDoc) :
    (errorToRuntime connectors f).getD [] = f.process.map (blockToRuntime connectors) := by
  rw [errorToRuntime_eq]
  split
  next h =>
    rw [h]
    rfl
  · rfl

theorem flowToRuntime_withErrorChain (f : FlowDoc) :
    flowToRuntime connectors (withErrorChain newId f) = flowToRuntime connectors f := by
  obtain ⟨head, process, error⟩ := f
  cases error with
  | some => rfl
  | none =>
    rw [flowToRuntime_eq, flowToRuntime_eq]
    simp [withErrorChain, errorToRuntime_eq]

theorem sameFlow_reopenFlow :
    SameFlow e f (reopenFlow e f) := by
  rw [reopenFlow, flowToRuntime_eq, flowFromRuntime_eq]
  refine ⟨getD_truthy _, ?_, rfl, rfl, rfl, List.map_map, ?_⟩
  · simp [flowHeadToRuntime, flowHeadFromRuntime]
  · cases f.error with
    | none => rfl
    | some =>
      rw [map_some, bind_some, getD_errorToRuntime]
      exact List.map_map

/-! What an entry kind adds comes back as well; the conversion of the flow does not read it. -/

theorem reopenCase_eq : reopenCase e f =
      { reopenFlow e f with
        head := { (reopenFlow e f).head with
          when' := some (f.head.when'.getD "") } } := by
  simp only [reopenCase, saved, reopenFlow, flowToRuntime_eq]
  rfl

theorem reopenRoute_eq : reopenRoute e f =
      { reopenFlow e f with
        head := { (reopenFlow e f).head with
          description := some (f.head.description.getD "") } } := by
  simp only [reopenRoute, saved, reopenFlow, flowToRuntime_eq]
  rfl

theorem reopenTool_eq : reopenTool e f =
      { reopenFlow e f with
        head := { (reopenFlow e f).head with
          description := some (f.head.description.getD "")
          inputSchema := (f.head.inputSchema.bind truthy).bind truthy } } := by
  simp only [reopenTool, saved, reopenFlow, flowToRuntime_eq]
  rfl

theorem sameFlow_reopenCase :
    SameFlow e f (reopenCase e f) := by
  have h : SameFlow e f _ := sameFlow_reopenFlow f
  rw [reopenCase_eq]
  exact ⟨h.name, h.source, h.workers, h.buffer, h.pool, h.process, h.error⟩

theorem reopenRoute_process : (reopenRoute e f).process =
      f.process.map (reopenBlock e) := by
  rw [reopenRoute_eq]
  exact (sameFlow_reopenFlow f).process

theorem reopenTool_process : (reopenTool e f).process =
      f.process.map (reopenBlock e) := by
  rw [reopenTool_eq]
  exact (sameFlow_reopenFlow f).process

theorem wireEntries_reopen (p : WireParts) :
    wireEntries (p.map (reopenBlock e) (reopenFlow e)
      (reopenCase e) (reopenRoute e)
      (reopenTool e)) = wireEntries p := by
  have hname : ∀ f, (reopenFlow e f).head.name.getD "" = f.head.name.getD "" :=
    fun f => (sameFlow_reopenFlow f).name
  simp only [wireEntries, Parts.map, List.map_map, EntryHeads.mk.injEq]
  refine ⟨map_congr_left ?_, map_congr_left ?_, map_congr_left ?_⟩
  · intro f _
    simp [reopenCase_eq]
  · intro f _
    simp [reopenRoute_eq, hname]
  · intro f _
    simp [reopenTool_eq, hname, getD_bind_truthy]

end Reopen

end Octo.Editor
