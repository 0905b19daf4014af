import Mathlib.Logic.Relation
import Octo.Editor.Reopen

/-!
# What a block means after the editor saved it

The editor drops `ref` and the processor definitions, and writes the options of a composite from
its keys and its `settings` map.  The block it writes means the same exactly when nothing it
dropped or filled in matters.

* `means_reopen_iff` — a block means the same after it was read and written exactly when every
  block below it is kept.
-/

namespace Octo.Editor

open List Option Octo.Types Octo.Config Octo.Engine Octo.Foundation.Traverse

/-! ## One block -/

/-- The setting names of the processor a `ref` leads to. -/
def refKeys (defs : List ProcessorConfig) (ref : String) : List String :=
  ((defs.find? (·.name = ref)).map fun p => p.settings.map Prod.fst).getD []

/-- A block that refers to a processor has a type of its own and, as a leaf, every setting of the
processor; the options of a composite that are not set come to the same when they are filled in
from its `settings` map. -/
@[mk_iff]
structure Kept (d : Deps) (defs : List ProcessorConfig)
    (w : RuntimeBlockHead) : Prop where
  typed : w.ref.getD "" ≠ "" → w.type.getD "" ≠ ""
  settings : Kind.ofType (w.type.getD "") = none → w.ref.getD "" ≠ "" →
    ∀ key ∈ refKeys defs (w.ref.getD ""), key ∈ (w.settings.getD []).map Prod.fst
  options : ∀ k, Kind.ofType (w.type.getD "") = some k → ∀ h, decodeHead d.truncate w = .ok h →
    ∃ h', decodeHead d.truncate (savedHead w) = .ok h' ∧ k.SameOptions d h h'

section Head

variable {d : Deps} {defs : List ProcessorConfig} {h : BlockHead} {type : String}
  {settings : Settings}

theorem resolve_type (hres : resolve defs h = .ok (type, settings)) (ht : h.type ≠ "") :
    type = h.type := by
  unfold resolve at hres
  split at hres
  · cases hres
    rfl
  · split at hres
    · cases hres
    · split at hres
      · cases hres
      next hno =>
        cases hres
        by_contra hne
        exact hno ⟨ht, Ne.symm hne⟩

theorem lookup_append (l l' : Settings) (key : String) :
    (l ++ l').lookup key = (l.lookup key).or (l'.lookup key) := by
  induction l with
  | nil => rfl
  | cons e l ih =>
    rw [cons_append, Foundation.Split.lookup_cons_if, Foundation.Split.lookup_cons_if, ih]
    split <;> rfl

theorem lookup_eq_none_iff (l : Settings) (key : String) :
    l.lookup key = none ↔ key ∉ l.map Prod.fst := by
  induction l with
  | nil => simp
  | cons e l ih =>
    obtain ⟨k, v⟩ := e
    rw [Foundation.Split.lookup_cons_if]
    by_cases hk : key = k <;> simp [hk, ih]

variable (base override : Settings)

theorem lookup_mergeSettings (key : String) :
    (mergeSettings base override).lookup key = (override.lookup key).or (base.lookup key) := by
  unfold mergeSettings
  split
  next hnil =>
    rw [hnil]
    rfl
  · exact lookup_append override base key

theorem lookup_mergeSettings_eq_iff :
    (fun key => override.lookup key) = (fun key => (mergeSettings base override).lookup key) ↔
      ∀ key ∈ base.map Prod.fst, key ∈ override.map Prod.fst := by
  constructor
  · intro heq key hkey
    by_contra hnot
    have hkeyeq := congrFun heq key
    rw [lookup_mergeSettings, (lookup_eq_none_iff override key).2 hnot] at hkeyeq
    exact (lookup_eq_none_iff base key).1 hkeyeq.symm hkey
  · intro hall
    funext key
    rw [lookup_mergeSettings]
    cases hv : override.lookup key with
    | some => rfl
    | none =>
      rw [none_or, eq_comm, lookup_eq_none_iff]
      exact fun hkey => (lookup_eq_none_iff override key).1 hv (hall key hkey)

theorem resolve_settings_iff (hres : resolve defs h = .ok (type, settings)) :
    (fun key => h.settings.lookup key) = (fun key => settings.lookup key) ↔
      (h.ref ≠ "" → ∀ key ∈ refKeys defs h.ref, key ∈ h.settings.map Prod.fst) := by
  unfold resolve at hres
  split at hres
  next href =>
    cases hres
    exact iff_of_true rfl fun hne => absurd href hne
  next href =>
    split at hres
    · cases hres
    next p hfind =>
      split at hres
      · cases hres
      · cases hres
        rw [lookup_mergeSettings_eq_iff, refKeys, hfind]
        exact ⟨fun hall _ => hall, fun hall => hall href⟩

theorem scalarsWithin_settings {allowed : List String} (set : Settings) :
    ScalarsWithin { h with settings := set } allowed ↔ ScalarsWithin h allowed := by
  simp [scalarsWithin_iff]

variable {s : Option Substitutor} {w : RuntimeBlockHead} {set : Settings} {es : EntryHeads} {t : Block}

theorem decodeHead_saved_leaf (hk : Kind.ofType (w.type.getD "") = none) :
    decodeHead d.truncate (savedHead w) =
      .ok { type := w.type.getD "", name := w.name.getD "", settings := w.settings.getD [] } := by
  rw [savedHead, hk]
  show Except.ok _ = _
  simp [getD_bind_truthy, getD_hasKeys]

variable (d s w es t) in
def SavedAccepted : Prop := ∃ h', decodeHead d.truncate (savedHead w) = .ok h' ∧
    ∃ set', substituteSettings d.unmarshal s h'.settings = .ok set' ∧
      Accepted d [] { h' with settings := set' } es t

theorem accepted_saved_leaf (hd : DecodedHead d.truncate w h)
    (hset : substituteSettings d.unmarshal s h.settings = .ok set)
    (ha : Accepted d defs { h with settings := set } es t) (htyped : w.type.getD "" ≠ "")
    (hk : Kind.ofType (w.type.getD "") = none) :
    SavedAccepted d s w es t ↔ Kept d defs w := by
  obtain ⟨settings, hres, hparams⟩ := ha.own
  have htype : t.type = w.type.getD "" := (resolve_type hres (hd.type ▸ htyped)).trans hd.type
  have hcover := resolve_settings_iff hres
  simp only [hd.ref, substituteSettings_keys hset, hd.settings] at hcover
  simp only [paramsFor, htype, hk, bind_eq_ok, pure_eq_ok] at hparams
  obtain ⟨_, hfactory, hown⟩ := hparams
  rw [hd.settings] at hset
  simp only [SavedAccepted, decodeHead_saved_leaf hk, Except.ok.injEq, exists_eq_left', hset]
  constructor
  · intro ha'
    obtain ⟨settings', hres', hparams'⟩ := ha'.own
    rw [resolve, if_pos rfl, Except.ok.injEq, Prod.mk.injEq] at hres'
    obtain ⟨-, rfl⟩ := hres'
    simp only [paramsFor, htype, hk, bind_eq_ok, pure_eq_ok] at hparams'
    obtain ⟨_, -, hown'⟩ := hparams'
    refine ⟨fun _ => htyped, fun _ => hcover.1 ?_, fun k hk' => ?_⟩
    · exact Own.leaf.inj (hown'.trans hown.symm)
    · rw [hk] at hk'
      cases hk'
  · intro hkept
    have hsame := hcover.2 (hkept.settings hk)
    refine ⟨.inl htyped, ha.name.trans hd.name, ha.required, ?_, ha.slots, set, ?_, ?_⟩
    · constructor <;> exact absurd rfl
    · rw [htype]
      rfl
    · simp only [paramsFor, htype, hk, bind_eq_ok, pure_eq_ok, hsame]
      exact ⟨_, hfactory, hown⟩

theorem accepted_saved_composite {k : Kind} (hd : DecodedHead d.truncate w h)
    (ha : Accepted d defs { h with settings := set } es t) (htyped : w.type.getD "" ≠ "")
    (hk : Kind.ofType (w.type.getD "") = some k) :
    SavedAccepted d s w es t ↔ Kept d defs w := by
  obtain ⟨settings, hres, hparams⟩ := ha.own
  have htype : t.type = w.type.getD "" := (resolve_type hres (hd.type ▸ htyped)).trans hd.type
  simp only [paramsFor, htype, hk] at hparams
  have hallowed : allowedFor t.type = k.allowed := by
    rw [allowedFor, htype, hk]
    rfl
  have hscalars := (scalarsWithin_settings set).1 (hallowed ▸ ha.scalars)
  have hagree : ∀ h', DecodedHead d.truncate (savedHead w) h' →
      (k.params d h' es = .ok t.own ↔ k.SameOptions d h h') := fun h' hd' =>
    params_agree_iff (sameRequired_saved hk hd hscalars hparams hd') hparams
  constructor
  · rintro ⟨h', hd', set', -, ha'⟩
    obtain ⟨settings', -, hparams'⟩ := ha'.own
    simp only [paramsFor, htype, hk] at hparams'
    refine ⟨fun _ => htyped, fun hk' => ?_, ?_⟩
    · rw [hk'] at hk
      cases hk
    · intro k' hk' h₀ hd₀
      rw [hk, Option.some.injEq] at hk'
      subst hk'
      obtain rfl : h₀ = h := Except.ok.inj (hd₀.symm.trans (decodeHead_eq_ok_iff.2 hd))
      exact ⟨h', hd', (hagree h' (decodeHead_eq_ok_iff.1 hd')).1 hparams'⟩
  · intro hkept
    obtain ⟨h', hok, hsame⟩ := hkept.options k hk h (decodeHead_eq_ok_iff.2 hd)
    have hd' := decodeHead_eq_ok_iff.1 hok
    have hempty : h'.settings = [] := by
      rw [hd'.settings, savedHead, hk]
      rfl
    refine ⟨h', hok, [], by rw [hempty, substituteSettings_nil], ?_⟩
    refine ⟨.inl ?_, ?_, ha.required, ?_, ha.slots, [], ?_, ?_⟩
    · exact (hd'.type.trans (savedHead_type w)).trans_ne htyped
    · rw [ha.name, hd'.name, savedHead_name]
      exact hd.name
    · rw [hallowed, scalarsWithin_settings]
      exact scalarsWithin_saved hk hd'
    · have href : h'.ref = "" := hd'.ref.trans (by rw [savedHead_ref]; rfl)
      rw [resolve, if_pos href, htype, hd'.type, savedHead_type]
    · simp only [paramsFor, htype, hk]
      exact (hagree h' hd').2 hsame

theorem not_accepted_untyped {h' : BlockHead} {set' : Settings} (htyped : w.type.getD "" = "")
    (hok : decodeHead d.truncate (savedHead w) = .ok h') :
    ¬ Accepted d [] { h' with settings := set' } es t := by
  intro ha'
  have hd' := decodeHead_eq_ok_iff.1 hok
  rcases ha'.typed with ht | hr
  · exact ht (hd'.type.trans ((savedHead_type w).trans htyped))
  · exact hr (hd'.ref.trans (by rw [savedHead_ref]; rfl))

theorem accepted_saved_iff (hd : DecodedHead d.truncate w h)
    (hset : substituteSettings d.unmarshal s h.settings = .ok set)
    (ha : Accepted d defs { h with settings := set } es t) :
    SavedAccepted d s w es t ↔ Kept d defs w := by
  by_cases htyped : w.type.getD "" = ""
  · have href : w.ref.getD "" ≠ "" :=
      hd.ref ▸ ha.typed.resolve_left (not_not.2 (hd.type.trans htyped))
    refine iff_of_false ?_ fun hkept => hkept.typed href htyped
    rintro ⟨h', hok, set', -, ha'⟩
    exact not_accepted_untyped htyped hok ha'
  · cases hk : Kind.ofType (w.type.getD "") with
    | none => exact accepted_saved_leaf hd hset ha htyped hk
    | some => exact accepted_saved_composite hd ha htyped hk

end Head

/-! ## The blocks below -/

/-- The blocks the runtime reads in the slots of a block: those of its chains, and those of the
chains of its flows. -/
def children (w : RuntimeBlock) : List RuntimeBlock := match wireParts w.slots with
  | none => []
  | some p => p.chains ++ (p.flows ++ p.cases ++ p.routes ++ p.tools).flatMap RuntimeFlow.process

def Below : RuntimeBlock → RuntimeBlock → Prop := Relation.ReflTransGen fun w x => x ∈ children w

variable {w : RuntimeBlock} {P : RuntimeBlock → Prop}

theorem forall_below_iff :
    (∀ x, Below w x → P x) ↔ P w ∧ ∀ c ∈ children w, ∀ x, Below c x → P x := by
  constructor
  · intro hall
    exact ⟨hall w .refl, fun c hc x hx => hall x (hx.head hc)⟩
  · rintro ⟨hw, hchildren⟩ x hx
    rcases hx.cases_head with rfl | ⟨c, hc, hx⟩
    · exact hw
    · exact hchildren c hc x hx

theorem forall_children_iff {p : WireParts}
    (hp : wireParts w.slots = some p) : (∀ x ∈ children w, P x) ↔
      (∀ x ∈ p.chains, P x) ∧ (∀ f ∈ p.flows, ∀ x ∈ f.process, P x) ∧
        (∀ f ∈ p.cases, ∀ x ∈ f.process, P x) ∧ (∀ f ∈ p.routes, ∀ x ∈ f.process, P x) ∧
        ∀ f ∈ p.tools, ∀ x ∈ f.process, P x := by
  simp only [children, hp, forall_mem_append, forall_mem_flatMap, and_assoc]

open RuntimeSlot

section Size

variable {slots : List RuntimeSlot} {n : String} {f : RuntimeFlow} {x : RuntimeBlock}

theorem sizeOf_blocksPart_lt {ws : List RuntimeBlock} (h : blocksPart slots n = some ws)
    (hx : x ∈ ws) : sizeOf x < sizeOf slots := by
  unfold blocksPart at h
  split at h
  · cases h
    cases hx
  next hfind =>
    cases h
    have hslot := sizeOf_lt_of_mem (mem_of_find?_eq_some hfind)
    have hmem := sizeOf_lt_of_mem hx
    simp only [blocks.sizeOf_spec] at hslot
    omega
  · cases h

theorem sizeOf_flowsPart_lt {fs : List RuntimeFlow} (h : flowsPart slots n = some fs)
    (hf : f ∈ fs) : sizeOf f < sizeOf slots := by
  unfold flowsPart at h
  split at h
  · cases h
    cases hf
  next hfind =>
    cases h
    have hslot := sizeOf_lt_of_mem (mem_of_find?_eq_some hfind)
    have hmem := sizeOf_lt_of_mem hf
    simp only [flows.sizeOf_spec] at hslot
    omega
  · cases h

theorem sizeOf_flowPart_lt {o : Option RuntimeFlow} (h : flowPart slots n = some o)
    (hf : f ∈ o) : sizeOf f < sizeOf slots := by
  unfold flowPart at h
  split at h
  · cases h
    cases hf
  next hfind =>
    cases h
    cases hf
    have hslot := sizeOf_lt_of_mem (mem_of_find?_eq_some hfind)
    simp only [flow.sizeOf_spec] at hslot
    omega
  · cases h

theorem sizeOf_process_lt (hx : x ∈ f.process) : sizeOf x < sizeOf f := by
  have hmem := sizeOf_lt_of_mem hx
  obtain ⟨head, process, error⟩ := f
  simp only [RuntimeFlow.mk.sizeOf_spec] at hmem ⊢
  omega

theorem sizeOf_children_lt (hx : x ∈ children w) : sizeOf x < sizeOf w := by
  have hslots : sizeOf x < sizeOf w.slots := by
    unfold children at hx
    split at hx
    · cases hx
    next p hp =>
      obtain ⟨p1, p2, p3, p4, p5, p6, p7, p8, p9, p10⟩ := wireParts_eq_some.1 hp
      simp only [Parts.chains, Parts.flows, mem_append, mem_flatMap, mem_toList] at hx
      rcases hx with (hx | hx) | ⟨f, hf, hx⟩
      · exact sizeOf_blocksPart_lt p1 hx
      · exact sizeOf_blocksPart_lt p2 hx
      · refine (sizeOf_process_lt hx).trans ?_
        rcases hf with (((((((hf | hf) | hf) | hf) | hf) | hf) | hf) | hf)
        · exact sizeOf_flowsPart_lt p3 hf
        · exact sizeOf_flowPart_lt p4 hf
        · exact sizeOf_flowPart_lt p5 hf
        · exact sizeOf_flowPart_lt p7 hf
        · exact sizeOf_flowPart_lt p8 hf
        · exact sizeOf_flowsPart_lt p6 hf
        · exact sizeOf_flowsPart_lt p9 hf
        · exact sizeOf_flowsPart_lt p10 hf
  obtain ⟨head, slots⟩ := w
  simp only [RuntimeBlock.mk.sizeOf_spec] at hslots ⊢
  omega

end Size

/-! ## The whole tree -/

section Reopen

variable {d : Deps} {defs : List ProcessorConfig} {s : Option Substitutor} {e : Session}

variable (d defs) in
def AllKept (w : RuntimeBlock) : Prop := ∀ x, Below w x → Kept d defs x.head

variable (d defs) in
def FlowKept (f : RuntimeFlow) : Prop := ∀ x ∈ f.process, AllKept d defs x

variable (d defs e) in
def Reopens (s : Option Substitutor) (x : RuntimeBlock) : Prop :=
  ∀ t, Means d defs s x t →
    (Means d [] s (reopenBlock e x) t ↔
      AllKept d defs x)

theorem chain_reopen_iff {ws : List RuntimeBlock} {ts : List Block}
    (h : List.Forall₂ (Means d defs s) ws ts)
    (ih : ∀ x ∈ ws, Reopens d defs e s x) :
    List.Forall₂ (Means d [] s) (ws.map (reopenBlock e)) ts ↔
      ∀ x ∈ ws, AllKept d defs x := by
  rw [forall₂_map_left_iff]
  exact forall₂_agree_iff h ih

theorem flowMeans_reopen_iff {f f' : RuntimeFlow} {g : Flow}
    (hs : SameFlow e f f')
    (ih : ∀ x ∈ f.process, Reopens d defs e s x)
    (h : FlowMeans d defs s f g) :
    FlowMeans d [] s f' g ↔ FlowKept d defs f := by
  obtain ⟨hsource, htuning, herror, hname, hblocks⟩ := flowMeans_iff.1 h
  rw [flowMeans_iff, hs.process, chain_reopen_iff hblocks ih, hs.name, hs.source, hs.workers,
    hs.buffer, hs.pool, hs.error, herror]
  exact ⟨fun h' => h'.2.2.2.2, fun h' => ⟨hsource, htuning, rfl, hname, h'⟩⟩

theorem entryMeans_reopen_iff {f f' : RuntimeFlow} {g : Flow}
    (hprocess : f'.process = f.process.map (reopenBlock e))
    (ih : ∀ x ∈ f.process, Reopens d defs e none x)
    (h : EntryMeans d defs f g) :
    EntryMeans d [] f' g ↔ FlowKept d defs f := by
  obtain ⟨hname, hblocks⟩ := h
  rw [EntryMeans, hprocess, chain_reopen_iff hblocks ih]
  exact ⟨fun h' => h'.2, fun h' => ⟨hname, h'⟩⟩

theorem means_reopen_parts_iff {p : WireParts} {t : Block} (hp : wireParts w.slots = some p)
    (hw : SlotsWithin p.shape (allowedFor (w.head.type.getD ""))) :
    Means d [] s (reopenBlock e w) t ↔
      SavedAccepted d s w.head (wireEntries p) t ∧ Parts.Rel
          (fun x t => Means d [] s (reopenBlock e x) t)
          (fun f g => FlowMeans d [] s (reopenFlow e f) g)
          (fun f g => FlowMeans d [] s (reopenCase e f) g)
          (fun f g => EntryMeans d [] (reopenRoute e f) g)
          (fun f g => EntryMeans d [] (reopenTool e f) g)
          p t.slots := by
  rw [means_iff, reopenBlock_head, wireParts_reopen hp hw, ← Parts.rel_map_left]
  simp only [Option.some.injEq, exists_eq_left', wireEntries_reopen]
  constructor
  · rintro ⟨h', hd', set', hset', ha', hrel⟩
    exact ⟨⟨h', hd', set', hset', ha'⟩, hrel⟩
  · rintro ⟨⟨h', hd', set', hset', ha'⟩, hrel⟩
    exact ⟨h', hd', set', hset', ha', hrel⟩

theorem means_reopen_iff (w : RuntimeBlock) :
    ∀ s, Reopens d defs e s w := by
  intro s t hmeans
  -- strong induction on the size: the parts of a block lie below it
  have ih : ∀ x ∈ children w, ∀ s, Reopens d defs e s x :=
    fun x _ => means_reopen_iff x
  obtain ⟨h, hdecode, set, hset, p, hp, ha, hrel⟩ := means_iff.1 hmeans
  have hd := decodeHead_eq_ok_iff.1 hdecode
  rw [AllKept, forall_below_iff, ← accepted_saved_iff hd hset ha]
  by_cases htyped : w.head.type.getD "" = ""
  · -- neither side holds: what is saved has no type
    refine iff_of_false ?_ fun hboth => ?_
    · intro hmeans'
      obtain ⟨h', hok, set', -, p', -, ha', -⟩ := means_iff.1 hmeans'
      rw [reopenBlock_head] at hok
      exact not_accepted_untyped htyped hok ha'
    · obtain ⟨h', hok, set', -, ha'⟩ := hboth.1
      exact not_accepted_untyped htyped hok ha'
  · obtain ⟨settings, hres, -⟩ := ha.own
    have htype : t.type = w.head.type.getD "" := (resolve_type hres (hd.type ▸ htyped)).trans hd.type
    have hw : SlotsWithin p.shape (allowedFor (w.head.type.getD "")) := by
      rw [hrel.shape_eq, ← htype]
      exact ha.slots
    obtain ⟨hchains, hflows, hcases, hroutes, htools⟩ := (forall_children_iff hp).1 ih
    rw [means_reopen_parts_iff hp hw, forall_children_iff hp]
    refine and_congr_right fun _ => hrel.iff_forall ?_ ?_ ?_ ?_ ?_
    · exact fun x hx t => hchains x hx s t
    · exact fun f hf g => flowMeans_reopen_iff (sameFlow_reopenFlow f) fun x hx => hflows f hf x hx s
    · exact fun f hf g => flowMeans_reopen_iff (sameFlow_reopenCase f) fun x hx => hcases f hf x hx s
    · exact fun f hf g => entryMeans_reopen_iff (reopenRoute_process f) fun x hx => hroutes f hf x hx _
    · exact fun f hf g => entryMeans_reopen_iff (reopenTool_process f) fun x hx => htools f hf x hx _
termination_by sizeOf w
decreasing_by exact sizeOf_children_lt ‹_›

end Reopen

end Octo.Editor
