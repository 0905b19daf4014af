import Octo.Config.Parts
import Octo.Engine.Kinds

/-!
# What a block of the document means

A block of a config document is decoded, its settings are substituted, and it is built.  `Means`
relates the block of the document to the built one across the three passes, and `means_iff` says
node by node when it holds: what the fields of the block must be, and that the parts mean the parts.

* `block_eq_ok_iff` — what building a block needs and gives, part by part.
-/

namespace Octo.Engine

open List Octo.Types Octo.Config Octo.Foundation.Traverse

/-! ## Building -/

def entryHeads (p : ConfigParts) : EntryHeads :=
  ⟨p.cases.map (·.when'), p.routes.map fun r => ⟨r.name, r.description⟩,
    p.tools.map fun t => ⟨t.name, t.description, t.inputSchema⟩⟩

section Build

variable (d : Deps) (defs : List ProcessorConfig)

/-- What the fields of a block and of its entries must be to build this. -/
structure Accepted (h : BlockHead) (es : EntryHeads) (t : Block) : Prop where
  typed : h.type ≠ "" ∨ h.ref ≠ ""
  name : t.name = h.name
  required : RequiredFor t.type t.slots.shape
  scalars : ScalarsWithin h (allowedFor t.type)
  slots : SlotsWithin t.slots.shape (allowedFor t.type)
  own : ∃ settings, resolve defs h = .ok (t.type, settings) ∧
    paramsFor d t.type settings h es = .ok t.own

def BuiltEntry (process : List BlockConfig) (g : Flow) : Prop :=
  g.name = "" ∧ List.Forall₂ (fun b t => block d defs b = .ok t) process g.blocks

def BuiltParts : ConfigParts → Slots Block Flow → Prop :=
  Parts.Rel (fun b t => block d defs b = .ok t) (fun f g => subFlow d defs f = .ok g)
    (fun c g => subFlow d defs c.flow = .ok g) (fun r g => BuiltEntry d defs r.process g)
    (fun x g => BuiltEntry d defs x.process g)

variable {d defs}

theorem subFlowPtr_eq (f : Option FlowConfig) : subFlowPtr d defs f = f.map (subFlow d defs) := by
  cases f <;> simp [subFlowPtr]

theorem entry_eq_ok_iff {process : List BlockConfig} {g : Flow} :
    (process.mapM (block d defs)).map (Flow.mk "") = .ok g ↔
      BuiltEntry d defs process g := by
  obtain ⟨name, blocks⟩ := g
  simp only [map_eq_ok, mapM_eq_ok_iff, Flow.mk.injEq]
  constructor
  · rintro ⟨_, h, rfl, rfl⟩
    exact ⟨rfl, h⟩
  · rintro ⟨rfl, h⟩
    exact ⟨_, h, rfl, rfl⟩

variable (b : BlockConfig)

variable (d defs) in
def blueprint : Blueprint Block Flow where
  head := b.head
  toParts := (blockParts b).map (block d defs) (subFlow d defs)
    (fun c => (c.when', subFlow d defs c.flow))
    (fun r => (⟨r.name, r.description⟩, (r.process.mapM (block d defs)).map (Flow.mk "")))
    fun t => (⟨t.name, t.description, t.inputSchema⟩,
      (t.process.mapM (block d defs)).map (Flow.mk ""))

theorem block_eq :
    block d defs b = (construct d defs (blueprint d defs b)).map Built.toBlock := by
  obtain ⟨head, process, error, branches, then', else', cases, default', body, routes, tools⟩ := b
  rw [block]
  simp only [subFlowPtr_eq]
  rfl

theorem blueprint_entryHeads :
    (blueprint d defs b).entryHeads = entryHeads (blockParts b) := by
  simp only [Blueprint.entryHeads, blueprint, Parts.map, map_map]
  rfl

theorem blueprint_matches_iff {b : BlockConfig} {s : Slots Block Flow} :
    Matches (blueprint d defs b).toParts s ↔ BuiltParts d defs (blockParts b) s := by
  simp only [Matches, blueprint, Parts.rel_map_left, entry_eq_ok_iff]
  rfl

theorem block_eq_ok_iff {b : BlockConfig} {t : Block} : block d defs b = .ok t ↔
      Accepted d defs b.head (entryHeads (blockParts b)) t ∧
        BuiltParts d defs (blockParts b) t.slots := by
  obtain ⟨name, type, own, slots⟩ := t
  rw [block_eq, map_eq_ok, ← blueprint_matches_iff, ← blueprint_entryHeads]
  constructor
  · rintro ⟨⟨name, type, own, slots⟩, hb, heq⟩
    cases heq
    obtain ⟨htyped, hname, hm, hreq, hw, hown⟩ := construct_eq_ok_iff.1 hb
    obtain ⟨hscalars, hslots⟩ := compositeSlots_within.1 hw
    rw [hm.shape_eq] at hreq hslots
    exact ⟨⟨htyped, hname, hreq, hscalars, hslots, hown⟩, hm⟩
  · rintro ⟨⟨htyped, hname, hreq, hscalars, hslots, hown⟩, hm⟩
    refine ⟨⟨name, type, own, slots⟩, construct_eq_ok_iff.2 ?_, rfl⟩
    rw [← hm.shape_eq] at hreq hslots
    exact ⟨htyped, hname, hm, hreq, compositeSlots_within.2 ⟨hscalars, hslots⟩, hown⟩

theorem subFlow_eq_ok_iff {f : FlowConfig} {g : Flow} : subFlow d defs f = .ok g ↔
      f.source = none ∧ (f.workers = 0 ∧ f.buffer = 0 ∧ f.pool = 0) ∧ f.error = [] ∧
        g.name = f.name ∧ List.Forall₂ (fun b t => block d defs b = .ok t) f.process g.blocks := by
  obtain ⟨name, source, process, error, workers, buffer, pool⟩ := f
  obtain ⟨name', blocks⟩ := g
  rw [subFlow, checkSubFlow]
  simp only [bind_eq_ok, require_eq_ok, pure_eq_ok, mapM_eq_ok_iff, exists_const,
    Option.isNone_iff_eq_none, List.isEmpty_iff, decide_eq_true_eq, Flow.mk.injEq]
  constructor
  · rintro ⟨hs, ht, he, _, hb, rfl, rfl⟩
    exact ⟨hs, ht, he, rfl, hb⟩
  · rintro ⟨hs, ht, he, rfl, hb⟩
    exact ⟨hs, ht, he, _, hb, rfl, rfl⟩

end Build

/-! ## The three passes -/

def wireEntries (p : WireParts) : EntryHeads :=
  ⟨p.cases.map (·.head.when'.getD ""),
    p.routes.map fun f => ⟨f.head.name.getD "", f.head.description.getD ""⟩,
    p.tools.map fun f =>
      ⟨f.head.name.getD "", f.head.description.getD "", f.head.inputSchema.getD ""⟩⟩

section Means

variable (d : Deps)
  (defs : List ProcessorConfig) (s : Option Substitutor)

def Means (w : RuntimeBlock) (t : Block) : Prop := ∃ b, decodeBlock d.truncate w = .ok b ∧
    ∃ b', substituteBlock d.unmarshal s b = .ok b' ∧ block d defs b' = .ok t

def FlowMeans (f : RuntimeFlow) (g : Flow) : Prop := ∃ c, (decodeFlow d.truncate f).config = .ok c ∧
    ∃ c', substituteFlow d.unmarshal s c = .ok c' ∧ subFlow d defs c' = .ok g

def EntryMeans (f : RuntimeFlow) (g : Flow) : Prop :=
  g.name = "" ∧ List.Forall₂ (Means d defs none) f.process g.blocks

def MeansParts : WireParts → Slots Block Flow → Prop :=
  Parts.Rel (Means d defs s) (FlowMeans d defs s)
    (FlowMeans d defs s) (EntryMeans d defs)
    (EntryMeans d defs)

variable {d defs s}

variable {f : RuntimeFlow} {g : Flow}

theorem caseMeans_iff : (∃ c, (decodeFlow d.truncate f).caseConfig = .ok c ∧
      ∃ c', SubstitutedCase d.unmarshal s c c' ∧ subFlow d defs c'.flow = .ok g) ↔
      FlowMeans d defs s f g := by
  simp only [caseConfig_eq_ok_iff]
  constructor
  · rintro ⟨c, ⟨-, hc⟩, c', ⟨-, hs⟩, hg⟩
    exact ⟨_, hc, _, hs, hg⟩
  · rintro ⟨c, hc, c', hs, hg⟩
    exact ⟨⟨f.head.when'.getD "", c⟩, ⟨rfl, hc⟩, ⟨_, c'⟩, ⟨rfl, hs⟩, hg⟩

theorem entryMeans_iff {ws : List RuntimeBlock} :
    (∃ bs, List.Forall₂ (fun w b => decodeBlock d.truncate w = .ok b) ws bs ∧
      BuiltEntry d defs bs g) ↔
      g.name = "" ∧ List.Forall₂ (Means d defs none) ws g.blocks := by
  have hmeans : Means d defs none =
      fun w t => ∃ b, decodeBlock d.truncate w = .ok b ∧ block d defs b = .ok t := by
    funext w t
    simp [Means, substituteBlock]
  rw [hmeans, ← exists_forall₂_comp]
  constructor
  · rintro ⟨bs, hd, hname, hb⟩
    exact ⟨hname, bs, hd, hb⟩
  · rintro ⟨hname, bs, hd, hb⟩
    exact ⟨bs, hd, hname, hb⟩

theorem routeMeans_iff : (∃ r, (decodeFlow d.truncate f).routeConfig = .ok r ∧
      ∃ r', r = r' ∧ BuiltEntry d defs r'.process g) ↔
      EntryMeans d defs f g := by
  rw [EntryMeans, ← entryMeans_iff]
  simp only [routeConfig_eq_ok_iff, exists_eq_left']
  constructor
  · rintro ⟨r, ⟨-, -, hp⟩, hg⟩
    exact ⟨_, hp, hg⟩
  · rintro ⟨process, hp, hg⟩
    exact ⟨⟨_, _, process⟩, ⟨rfl, rfl, hp⟩, hg⟩

theorem toolMeans_iff : (∃ x, (decodeFlow d.truncate f).toolConfig = .ok x ∧
      ∃ x', x = x' ∧ BuiltEntry d defs x'.process g) ↔
      EntryMeans d defs f g := by
  rw [EntryMeans, ← entryMeans_iff]
  simp only [toolConfig_eq_ok_iff, exists_eq_left']
  constructor
  · rintro ⟨x, ⟨-, -, -, hp⟩, hg⟩
    exact ⟨_, hp, hg⟩
  · rintro ⟨process, hp, hg⟩
    exact ⟨⟨_, _, _, process⟩, ⟨rfl, rfl, rfl, hp⟩, hg⟩

theorem entryHeads_eq {p : WireParts} {q q' : ConfigParts} (h : DecodedParts d.truncate p q)
    (h' : SubstitutedParts d.unmarshal s q q') : entryHeads q' = wireEntries p := by
  have hroutes := forall₂_eq_eq_eq ▸ h'.routes
  have htools := forall₂_eq_eq_eq ▸ h'.tools
  simp only [entryHeads, wireEntries, EntryHeads.mk.injEq, ← hroutes, ← htools]
  refine ⟨?_, map_eq_of_forall₂ ?_ h.routes, map_eq_of_forall₂ ?_ h.tools⟩
  · rw [map_eq_of_forall₂ (fun _ _ hc => hc.1) h'.cases]
    refine map_eq_of_forall₂ ?_ h.cases
    intro f c hc
    exact (caseConfig_eq_ok_iff.1 hc).1
  · intro f r hr
    obtain ⟨hname, hdescription, -⟩ := routeConfig_eq_ok_iff.1 hr
    rw [hname, hdescription]
  · intro f x hx
    obtain ⟨hname, hdescription, hschema, -⟩ := toolConfig_eq_ok_iff.1 hx
    rw [hname, hdescription, hschema]

theorem means_parts_iff {p : WireParts} {q : Slots Block Flow} : (∃ x, DecodedParts d.truncate p x ∧
      ∃ y, SubstitutedParts d.unmarshal s x y ∧ BuiltParts d defs y q) ↔
      MeansParts d defs s p q := by
  simp only [DecodedParts, SubstitutedParts, BuiltParts, Parts.exists_rel_comp]
  constructor
  · exact fun h => h.imp (fun _ _ => id) (fun _ _ => id) (fun _ _ => caseMeans_iff.1)
      (fun _ _ => routeMeans_iff.1) fun _ _ => toolMeans_iff.1
  · exact fun h => h.imp (fun _ _ => id) (fun _ _ => id) (fun _ _ => caseMeans_iff.2)
      (fun _ _ => routeMeans_iff.2) fun _ _ => toolMeans_iff.2

/-- **What a block of the document means**: its fields are accepted, and its parts mean the parts. -/
theorem means_iff {w : RuntimeBlock} {t : Block} : Means d defs s w t ↔
      ∃ h, decodeHead d.truncate w.head = .ok h ∧
        ∃ set, substituteSettings d.unmarshal s h.settings = .ok set ∧
          ∃ p, wireParts w.slots = some p ∧
            Accepted d defs { h with settings := set } (wireEntries p) t ∧
              MeansParts d defs s p t.slots := by
  constructor
  · rintro ⟨b, hb, b', hb', ht⟩
    obtain ⟨hhead, p, hp, hdecode⟩ := decodeBlock_eq_ok_iff.1 hb
    obtain ⟨hset, hhead', hsubst⟩ := substituteBlock_eq_ok_iff.1 hb'
    obtain ⟨haccepted, hbuilt⟩ := block_eq_ok_iff.1 ht
    refine ⟨_, hhead, _, hset, p, hp, ?_, means_parts_iff.1 ⟨_, hdecode, _, hsubst, hbuilt⟩⟩
    rw [← hhead', ← entryHeads_eq hdecode hsubst]
    exact haccepted
  · rintro ⟨h, hhead, set, hset, p, hp, haccepted, hmeans⟩
    obtain ⟨q, hdecode, q', hsubst, hbuilt⟩ := means_parts_iff.2 hmeans
    rw [← entryHeads_eq hdecode hsubst] at haccepted
    exact ⟨blockOf h q, decodeBlock_eq_ok_iff.2 ⟨hhead, p, hp, hdecode⟩,
      blockOf { h with settings := set } q', substituteBlock_eq_ok_iff.2 ⟨hset, rfl, hsubst⟩,
      block_eq_ok_iff.2 ⟨haccepted, hbuilt⟩⟩

/-- **What a sub-flow of the document means**: it has no field of a root flow, and its blocks mean
the blocks. -/
theorem flowMeans_iff : FlowMeans d defs s f g ↔
      f.head.source = none ∧
        (f.head.workers.getD 0 = 0 ∧ f.head.buffer.getD 0 = 0 ∧ f.head.pool.getD 0 = 0) ∧
        f.error.getD [] = [] ∧ g.name = f.head.name.getD "" ∧
        List.Forall₂ (Means d defs s) f.process g.blocks := by
  constructor
  · rintro ⟨c, hc, c', hc', hg⟩
    obtain ⟨hprocess, herror, heq⟩ := config_eq_ok_iff.1 hc
    obtain ⟨hsource, hprocess', herror', heq'⟩ := substituteFlow_eq_ok_iff.1 hc'
    obtain ⟨hnone, htuning, hempty, hname, hblocks⟩ := subFlow_eq_ok_iff.1 hg
    rw [hnone, substituteSource_eq_none_iff, heq, Option.map_eq_none_iff] at hsource
    rw [hempty, forall₂_nil_right_iff] at herror'
    rw [herror', forall₂_nil_right_iff] at herror
    rw [heq', heq] at htuning hname
    refine ⟨hsource, htuning, herror, hname, ?_⟩
    exact exists_forall₂_comp.1 ⟨_, hprocess, exists_forall₂_comp.1 ⟨_, hprocess', hblocks⟩⟩
  · rintro ⟨hsource, htuning, hempty, hname, hmeans⟩
    obtain ⟨bs, hprocess, hrest⟩ := exists_forall₂_comp.2 hmeans
    obtain ⟨bs', hprocess', hblocks⟩ := exists_forall₂_comp.2 hrest
    refine ⟨⟨f.head.name.getD "", none, bs, [], f.head.workers.getD 0, f.head.buffer.getD 0,
      f.head.pool.getD 0⟩, config_eq_ok_iff.2 ⟨hprocess, ?_, ?_⟩,
      ⟨f.head.name.getD "", none, bs', [], f.head.workers.getD 0, f.head.buffer.getD 0,
      f.head.pool.getD 0⟩, substituteFlow_eq_ok_iff.2 ⟨?_, hprocess', .nil, rfl⟩,
      subFlow_eq_ok_iff.2 ⟨rfl, htuning, rfl, hname, hblocks⟩⟩
    · rw [hempty]
      exact .nil
    · rw [hsource]
      rfl
    · exact substituteSource_eq_none_iff.2 rfl

end Means

end Octo.Engine
