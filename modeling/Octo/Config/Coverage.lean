import Octo.Config.Parts

/-!
# Which settings the substitution reaches

The builder descends into every composite slot of a block; the substitutor walks the same tree
with a slot list of its own.  `rewriteConfig` states what the substitution is for: the given function
on every string of every settings map, at any depth, and nothing else.

* `substituteConfig_complete_iff` — a substitution that succeeds is that rewriting **if and only
  if** every string it does not visit (`configHidden`: the blocks under ai-router routes and
  ai-agent tools, and mappings with a non-string key) is one that `scalar` leaves alone.
* `route_reference_kept` — a reference inside a route survives a load that succeeds, although
  the variable is not even declared.
-/

namespace Octo.Config

open List Option Substitutor Parts Octo.Types Octo.Foundation.Traverse

/-! ## The rewriting the substitution is for -/

section Rewrite

variable (g : String → Except String Value)

/-- `g` on every string of a value. -/
def rewriteValue : Value → Except String Value
  | .str s => g s
  | .arr items => do
    let items ← items.mapM fun v => rewriteValue v
    return .arr items
  | .obj fields => do
    let fields ← fields.mapM fun kv => do
      let v ← rewriteValue kv.2
      return (kv.1, v)
    return .obj fields
  | .gmap entries => do
    let entries ← entries.mapM fun kv => do
      let v ← rewriteValue kv.2
      return (kv.1, v)
    return .gmap entries
  | v => return v
termination_by v => sizeOf v
decreasing_by
  all_goals try decreasing_tactic
  · exact Value.sizeOf_obj_lt ‹_›
  · exact Value.sizeOf_gmap_lt ‹_›

/-- `g` on every string of a settings map. -/
def rewriteSettings (set : Settings) : Except String Settings := set.mapM fun kv => do
    let v ← rewriteValue g kv.2
    return (kv.1, v)

def rewriteSource : Option SourceConfig → Except String (Option SourceConfig)
  | none => return none
  | some src => do
    let set ← rewriteSettings g src.settings
    return some { src with settings := set }

mutual

/-- `g` on every settings string of a flow. -/
def rewriteFlow : FlowConfig → Except String FlowConfig
  | ⟨name, source, process, error, workers, buffer, pool⟩ => do
    let source ← rewriteSource g source
    let process ← process.mapM fun b => rewriteBlock b
    let error ← error.mapM fun b => rewriteBlock b
    return ⟨name, source, process, error, workers, buffer, pool⟩
termination_by f => sizeOf f

/-- `g` on every settings string of an optional flow. -/
def rewriteFlowPtr : Option FlowConfig → Except String (Option FlowConfig)
  | none => return none
  | some f => do
    let f ← rewriteFlow f
    return some f
termination_by f => sizeOf f

/-- `g` on every settings string of a block and of everything in its slots. -/
def rewriteBlock : BlockConfig → Except String BlockConfig
  | ⟨head, process, error, branches, then', else', cases, default', body, routes, tools⟩ => do
    let set ← rewriteSettings g head.settings
    let process ← process.mapM fun b => rewriteBlock b
    let error ← error.mapM fun b => rewriteBlock b
    let then' ← rewriteFlowPtr then'
    let else' ← rewriteFlowPtr else'
    let default' ← rewriteFlowPtr default'
    let body ← rewriteFlowPtr body
    let branches ← branches.mapM fun f => rewriteFlow f
    let cases ← cases.mapM fun c => do
      let f ← rewriteFlow c.flow
      return CaseConfig.mk c.when' f
    let routes ← routes.mapM fun r => do
      let process ← r.process.mapM fun b => rewriteBlock b
      return RouteConfig.mk r.name r.description process
    let tools ← tools.mapM fun t => do
      let process ← t.process.mapM fun b => rewriteBlock b
      return ToolConfig.mk t.name t.description t.inputSchema process
    return ⟨{ head with settings := set }, process, error, branches, then', else', cases,
      default', body, routes, tools⟩
termination_by b => sizeOf b
decreasing_by all_goals first
    | (refine (BlockConfig.sizeOf_parts _).routes r ?_ b ?_ <;> assumption)
    | (refine (BlockConfig.sizeOf_parts _).tools t ?_ b ?_ <;> assumption)
    | exact (BlockConfig.sizeOf_parts _).cases _ ‹_›
    | decreasing_tactic

end

/-- `g` on every settings string of a config, everything else unchanged. -/
def rewriteConfig (cfg : Types.Config) : Except String Types.Config := do
  let connectors ← cfg.connectors.mapM fun c => do
    let set ← rewriteSettings g c.settings
    return ConnectorConfig.mk c.name c.type set
  let processors ← cfg.processors.mapM fun p => do
    let set ← rewriteSettings g p.settings
    return ProcessorConfig.mk p.name p.type set
  let flows ← cfg.flows.mapM (rewriteFlow g)
  return { cfg with connectors, processors, flows }

end Rewrite

/-! ## The strings of a tree and those the substitutor does not visit -/

section Left

-- `all` counts every string, visited or not.
variable (all : Bool)

/-- The strings inside mappings with a non-string key, or all. -/
def valueLeft (all : Bool) : Value → List String
  | .str s => if all then [s] else []
  | .arr items => items.flatMap fun v => valueLeft all v
  | .obj fields => fields.flatMap fun kv => valueLeft all kv.2
  | .gmap entries => entries.flatMap fun kv => valueLeft true kv.2
  | _ => []
termination_by v => sizeOf v
decreasing_by
  all_goals try decreasing_tactic
  · exact Value.sizeOf_obj_lt ‹_›
  · exact Value.sizeOf_gmap_lt ‹_›

def settingsLeft (set : Settings) : List String := set.flatMap fun kv => valueLeft all kv.2

def sourceSettings (source : Option SourceConfig) : Settings :=
  (source.map SourceConfig.settings).getD []

mutual

def flowLeft (all : Bool) : FlowConfig → List String
  | ⟨_, source, process, error, _, _, _⟩ =>
    settingsLeft all (sourceSettings source) ++ (process.flatMap fun b => blockLeft all b) ++
      (error.flatMap fun b => blockLeft all b)
termination_by f => sizeOf f

def flowPtrLeft (all : Bool) : Option FlowConfig → List String
  | none => []
  | some f => flowLeft all f
termination_by f => sizeOf f

/-- Those of its settings and slots, with all strings under routes and tools. -/
def blockLeft (all : Bool) : BlockConfig → List String
  | ⟨head, process, error, branches, then', else', cases, default', body, routes, tools⟩ =>
    settingsLeft all head.settings ++ (process.flatMap fun b => blockLeft all b) ++
      (error.flatMap fun b => blockLeft all b) ++ flowPtrLeft all then' ++ flowPtrLeft all else' ++
      flowPtrLeft all default' ++ flowPtrLeft all body ++
      (branches.flatMap fun f => flowLeft all f) ++ (cases.flatMap fun c => flowLeft all c.flow) ++
      (routes.flatMap fun r => r.process.flatMap fun b => blockLeft true b) ++
      (tools.flatMap fun t => t.process.flatMap fun b => blockLeft true b)
termination_by b => sizeOf b
decreasing_by all_goals first
    | (refine (BlockConfig.sizeOf_parts _).routes r ?_ b ?_ <;> assumption)
    | (refine (BlockConfig.sizeOf_parts _).tools t ?_ b ?_ <;> assumption)
    | exact (BlockConfig.sizeOf_parts _).cases _ ‹_›
    | decreasing_tactic

end

/-- The settings strings of a config that are not visited. -/
def configHidden (cfg : Types.Config) : List String :=
  (cfg.connectors.flatMap fun c => settingsLeft false c.settings) ++
    (cfg.processors.flatMap fun p => settingsLeft false p.settings) ++
    cfg.flows.flatMap (flowLeft false)

variable {all} {P : String → Prop}

theorem flowPtrLeft_eq (f : Option FlowConfig) :
    flowPtrLeft all f = f.toList.flatMap (flowLeft all) := by
  cases f <;> simp [flowPtrLeft]

theorem forall_flowLeft {f : FlowConfig} : (∀ str ∈ flowLeft all f, P str) ↔
      (∀ str ∈ settingsLeft all (sourceSettings f.source), P str) ∧
      (∀ b ∈ f.process, ∀ str ∈ blockLeft all b, P str) ∧
      ∀ b ∈ f.error, ∀ str ∈ blockLeft all b, P str := by
  obtain ⟨name, source, process, error, workers, buffer, pool⟩ := f
  rw [flowLeft]
  simp only [forall_mem_append, forall_mem_flatMap, and_assoc]

theorem forall_blockLeft {b : BlockConfig} :
    (∀ str ∈ blockLeft all b, P str) ↔ (∀ str ∈ settingsLeft all b.head.settings, P str) ∧
      (∀ x ∈ (blockParts b).chains, ∀ str ∈ blockLeft all x, P str) ∧
      (∀ f ∈ (blockParts b).flows, ∀ str ∈ flowLeft all f, P str) ∧
      (∀ c ∈ b.cases, ∀ str ∈ flowLeft all c.flow, P str) ∧
      (∀ r ∈ b.routes, ∀ x ∈ r.process, ∀ str ∈ blockLeft true x, P str) ∧
      ∀ t ∈ b.tools, ∀ x ∈ t.process, ∀ str ∈ blockLeft true x, P str := by
  obtain ⟨head, process, error, branches, then', else', cases, default', body, routes, tools⟩ := b
  rw [blockLeft]
  simp only [flowPtrLeft_eq, forall_mem_append, forall_mem_flatMap, Parts.chains, flows]
  tauto

end Left

/-! ## Values and settings -/

open Except

section Values

variable {g : String → Except String Value}

def Fixes (g : String → Except String Value) (s : String) : Prop := g s = .ok (.str s)

theorem bind_mk_eq_ok {σ α : Type} {k : σ → α} (hk : Function.Injective k) {x : Except String σ}
    {v : σ} : (do let v ← x; return k v) = ok (k v) ↔ x = .ok v := by
  simp only [bind_eq_ok, pure_eq_ok, hk.eq_iff, exists_eq_right]

variable {leaves : Value → List String}

theorem fields_fixed_iff {κ : Type} {xs : List (κ × Value)} {f : Value → Except String Value} {P : String → Prop}
    (h : ∀ kv ∈ xs, (f kv.2 = .ok kv.2 ↔ ∀ s ∈ leaves kv.2, P s)) :
    (xs.mapM fun kv => do let v ← f kv.2; return (kv.1, v)) = .ok xs ↔
      ∀ s ∈ xs.flatMap (fun kv => leaves kv.2), P s := by
  refine mapM_fixed_flatMap fun kv hkv => ?_
  rw [← h kv hkv]
  exact bind_mk_eq_ok fun _ _ h => congrArg Prod.snd h

theorem fields_agree_iff {κ : Type} {xs ys : List (κ × Value)}
    {f g : Value → Except String Value} {P : String → Prop}
    (h : ∀ kv ∈ xs, ∀ v, f kv.2 = .ok v → (g kv.2 = .ok v ↔ ∀ s ∈ leaves kv.2, P s))
    (hf : (xs.mapM fun kv => do let v ← f kv.2; return (kv.1, v)) = .ok ys) :
    (xs.mapM fun kv => do let v ← g kv.2; return (kv.1, v)) = .ok ys ↔
      ∀ s ∈ xs.flatMap (fun kv => leaves kv.2), P s := by
  refine mapM_agree_flatMap ?_ hf
  intro kv hkv y hy
  obtain ⟨v, hv, hy⟩ := bind_eq_ok.1 hy
  cases pure_eq_ok.1 hy
  rw [← h kv hkv v hv]
  exact bind_mk_eq_ok fun _ _ h => congrArg Prod.snd h

theorem rewriteValue_fixed_iff : ∀ v, rewriteValue g v = .ok v ↔ ∀ s ∈ valueLeft true v, Fixes g s
  | .null => by simp [rewriteValue, valueLeft, pure, Except.pure]
  | .bool b => by simp [rewriteValue, valueLeft, pure, Except.pure]
  | .int n => by simp [rewriteValue, valueLeft, pure, Except.pure]
  | .float t => by simp [rewriteValue, valueLeft, pure, Except.pure]
  | .time t => by simp [rewriteValue, valueLeft, pure, Except.pure]
  | .str s => by simp [rewriteValue, valueLeft, Fixes]
  | .arr items => by
    rw [rewriteValue, bind_eq_ok, valueLeft,
      ← mapM_fixed_flatMap fun v _ => rewriteValue_fixed_iff v]
    simp [pure_eq_ok]
  | .obj fields => by
    rw [rewriteValue, bind_eq_ok, valueLeft,
      ← fields_fixed_iff fun kv _ => rewriteValue_fixed_iff kv.2]
    simp [pure_eq_ok]
  | .gmap entries => by
    rw [rewriteValue, bind_eq_ok, valueLeft,
      ← fields_fixed_iff fun kv _ => rewriteValue_fixed_iff kv.2]
    simp [pure_eq_ok]
termination_by v => sizeOf v
decreasing_by
  · exact Nat.lt_trans (sizeOf_lt_of_mem ‹_›) (by simp)
  · exact Value.sizeOf_obj_lt ‹_›
  · exact Value.sizeOf_gmap_lt ‹_›

theorem rewriteSettings_fixed_iff {set : Settings} :
    rewriteSettings g set = .ok set ↔ ∀ s ∈ settingsLeft true set, Fixes g s :=
  fields_fixed_iff fun kv _ => rewriteValue_fixed_iff kv.2

end Values

/-! ## The rewriting, slot by slot -/

section Slots

variable {g : String → Except String Value}

theorem rewriteFlow_ok_iff {f f' : FlowConfig} : rewriteFlow g f = .ok f' ↔
      rewriteSource g f.source = .ok f'.source ∧
        List.Forall₂ (fun b b' => rewriteBlock g b = .ok b') f.process f'.process ∧
        List.Forall₂ (fun b b' => rewriteBlock g b = .ok b') f.error f'.error ∧
        f' = { f with source := f'.source, process := f'.process, error := f'.error } := by
  obtain ⟨name, source, process, error, workers, buffer, pool⟩ := f
  rw [rewriteFlow]
  simp only [bind_eq_ok, pure_eq_ok, mapM_eq_ok_iff]
  constructor
  · rintro ⟨source', h1, process', h2, error', h3, rfl⟩
    exact ⟨h1, h2, h3, rfl⟩
  · rintro ⟨h1, h2, h3, h4⟩
    exact ⟨_, h1, _, h2, _, h3, h4.symm⟩

theorem rewriteFlowPtr_ok_iff {f f' : Option FlowConfig} :
    rewriteFlowPtr g f = .ok f' ↔ Option.Rel (fun f f' => rewriteFlow g f = .ok f') f f' := by
  cases f with
  | none => cases f' <;> simp [rewriteFlowPtr, pure, Except.pure]
  | some =>
    rw [rewriteFlowPtr, bind_eq_ok]
    cases f' <;> simp [pure, Except.pure]

/-- `g` on every settings string of a route. -/
def rewriteRoute (g : String → Except String Value) (r : RouteConfig) :
    Except String RouteConfig := do
  let process ← r.process.mapM (rewriteBlock g)
  return RouteConfig.mk r.name r.description process

/-- `g` on every settings string of a tool. -/
def rewriteTool (g : String → Except String Value) (t : ToolConfig) : Except String ToolConfig := do
  let process ← t.process.mapM (rewriteBlock g)
  return ToolConfig.mk t.name t.description t.inputSchema process

theorem rewriteBlock_ok_iff {b b' : BlockConfig} : rewriteBlock g b = .ok b' ↔
      rewriteSettings g b.head.settings = .ok b'.head.settings ∧
        b'.head = { b.head with settings := b'.head.settings } ∧
        Parts.Rel (fun b b' => rewriteBlock g b = .ok b') (fun f f' => rewriteFlow g f = .ok f')
          (fun c c' => c'.when' = c.when' ∧ rewriteFlow g c.flow = .ok c'.flow)
          (fun r r' => rewriteRoute g r = .ok r') (fun t t' => rewriteTool g t = .ok t')
          (blockParts b) (blockParts b') := by
  obtain ⟨head, process, error, branches, then', else', cases, default', body, routes, tools⟩ := b
  rw [rewriteBlock]
  simp only [bind_eq_ok, pure_eq_ok, mapM_eq_ok_iff, rewriteFlowPtr_ok_iff]
  constructor
  · rintro ⟨set, hset, _, h1, _, h2, _, h4, _, h5, _, h7, _, h8, _, h3, _, h6, _, h9, _, h10, rfl⟩
    refine ⟨hset, rfl, h1, h2, h3, h4, h5, h6.imp ?_, h7, h8, h9.imp ?_, h10.imp ?_⟩
    · rintro c _ ⟨f, hf, rfl⟩
      exact ⟨rfl, hf⟩
    · rintro r _ ⟨p, hp, rfl⟩
      exact bind_eq_ok.2 ⟨p, mapM_eq_ok_iff.2 hp, rfl⟩
    · rintro t _ ⟨p, hp, rfl⟩
      exact bind_eq_ok.2 ⟨p, mapM_eq_ok_iff.2 hp, rfl⟩
  · obtain ⟨head', process', error', branches', t', e', cases', d', b', routes', tools'⟩ := b'
    rintro ⟨hset, hhead, h1, h2, h3, h4, h5, h6, h7, h8, h9, h10⟩
    refine ⟨_, hset, _, h1, _, h2, _, h4, _, h5, _, h7, _, h8, _, h3, _, h6.imp ?_, _, h9.imp ?_, _,
      h10.imp ?_, by rw [← hhead]; rfl⟩
    · rintro c ⟨when', f⟩ ⟨rfl, hf⟩
      exact ⟨f, hf, rfl⟩
    · intro r r' hr
      simpa only [rewriteRoute, bind_eq_ok, pure_eq_ok, mapM_eq_ok_iff] using hr
    · intro t t' ht
      simpa only [rewriteTool, bind_eq_ok, pure_eq_ok, mapM_eq_ok_iff] using ht

end Slots

/-! ## What a substitution leaves -/

section Agreement

variable {unmarshal : String → Option Value} {s : Substitutor}

theorem value_agree_iff : ∀ v v', s.value unmarshal v = .ok v' →
    (rewriteValue (s.scalar unmarshal) v = .ok v' ↔
      ∀ str ∈ valueLeft false v, Fixes (s.scalar unmarshal) str)
  | .null, v', h => by simp_all [rewriteValue, valueLeft, value]
  | .bool b, v', h => by simp_all [rewriteValue, valueLeft, value]
  | .int n, v', h => by simp_all [rewriteValue, valueLeft, value]
  | .float t, v', h => by simp_all [rewriteValue, valueLeft, value]
  | .time t, v', h => by simp_all [rewriteValue, valueLeft, value]
  | .str str, v', h => by simp_all [rewriteValue, valueLeft, value]
  | .arr items, v', h => by
    rw [value, bind_eq_ok] at h
    obtain ⟨items', hitems, hv⟩ := h
    cases pure_eq_ok.1 hv
    rw [rewriteValue, bind_eq_ok, valueLeft,
      ← mapM_agree_flatMap (fun v _ v' h => value_agree_iff v v' h) hitems]
    simp [pure_eq_ok]
  | .obj fields, v', h => by
    rw [value, bind_eq_ok] at h
    obtain ⟨fields', hfields, hv⟩ := h
    cases pure_eq_ok.1 hv
    rw [rewriteValue, bind_eq_ok, valueLeft,
      ← fields_agree_iff (fun kv _ v' h => value_agree_iff kv.2 v' h) hfields]
    simp [pure_eq_ok]
  | .gmap entries, v', h => by
    -- the substitutor returns the mapping as it is: every string below must be fixed
    have hv : Value.gmap entries = v' := by
      simpa [value, pure, Except.pure] using h
    subst hv
    rw [rewriteValue_fixed_iff, valueLeft, valueLeft]
termination_by v => sizeOf v
decreasing_by
  · exact Nat.lt_trans (sizeOf_lt_of_mem ‹_›) (by simp)
  · exact Value.sizeOf_obj_lt ‹_›

theorem settings_agree_iff {set set' : Settings} (h : s.settings unmarshal set = .ok set') :
    rewriteSettings (s.scalar unmarshal) set = .ok set' ↔
      ∀ str ∈ settingsLeft false set, Fixes (s.scalar unmarshal) str :=
  fields_agree_iff (fun kv _ v' hv => value_agree_iff kv.2 v' hv) h

end Agreement

open BlockConfig

section Walks

variable {unmarshal : String → Option Value} {g : String → Except String Value}
  {s : Option Substitutor}

variable (unmarshal g s) in
/-- A substitution by `g` of all but routes and tools, or none at all. -/
def Partial : Prop := ∀ s₀, s = some s₀ → g = s₀.scalar unmarshal ∧
    ∀ b, rewriteBlock g b = .ok b ↔ ∀ str ∈ blockLeft true b, Fixes g str

theorem settingsLeft_agree_iff (hs : Partial unmarshal g s) {set set' : Settings}
    (h : substituteSettings unmarshal s set = .ok set') :
    rewriteSettings g set = .ok set' ↔ ∀ str ∈ settingsLeft s.isNone set, Fixes g str := by
  cases s with
  | none =>
    cases h
    exact rewriteSettings_fixed_iff
  | some s₀ =>
    rw [(hs s₀ rfl).1]
    exact settings_agree_iff h

theorem sourceLeft_agree_iff (hs : Partial unmarshal g s) {source source' : Option SourceConfig}
    (h : substituteSource unmarshal s source = .ok source') : rewriteSource g source = .ok source' ↔
      ∀ str ∈ settingsLeft s.isNone (sourceSettings source), Fixes g str := by
  cases source with
  | none =>
    have hnone : source' = none := by
      cases s <;> cases h <;> rfl
    rw [hnone, sourceSettings, map_none, getD_none, ← settingsLeft_agree_iff hs substituteSettings_nil]
    exact iff_of_true rfl rfl
  | some src =>
    obtain ⟨set, hset, rfl⟩ : ∃ set, substituteSettings unmarshal s src.settings = .ok set ∧
        some { src with settings := set } = source' := by
      cases s with
      | none => exact ⟨_, rfl, ok.inj h⟩
      | some =>
        simpa only [substituteSource, substituteSettings, source, bind_eq_ok, pure_eq_ok]
          using h
    rw [sourceSettings, map_some, getD_some, ← settingsLeft_agree_iff hs hset]
    exact bind_mk_eq_ok fun _ _ h => congrArg SourceConfig.settings (Option.some.inj h)

variable (unmarshal g s) in
def BlockAgrees (b : BlockConfig) : Prop := ∀ b', substituteBlock unmarshal s b = .ok b' →
    (rewriteBlock g b = .ok b' ↔ ∀ str ∈ blockLeft s.isNone b, Fixes g str)

theorem flowLeft_agree_iff (hs : Partial unmarshal g s) {f f' : FlowConfig}
    (hp : ∀ b ∈ f.process, BlockAgrees unmarshal g s b)
    (he : ∀ b ∈ f.error, BlockAgrees unmarshal g s b) (h : substituteFlow unmarshal s f = .ok f') :
    rewriteFlow g f = .ok f' ↔ ∀ str ∈ flowLeft s.isNone f, Fixes g str := by
  obtain ⟨hsource, hprocess, herror, hf⟩ := substituteFlow_eq_ok_iff.1 h
  rw [rewriteFlow_ok_iff, forall_flowLeft, sourceLeft_agree_iff hs hsource,
    forall₂_agree_iff hprocess hp, forall₂_agree_iff herror he, and_iff_left hf]

/-- **Where the two walks agree**: every string the substitutor does not visit is left alone. -/
theorem block_agree_iff (hs : Partial unmarshal g s) : ∀ b, BlockAgrees unmarshal g s b := by
  refine induction (F := fun f => ∀ f', substituteFlow unmarshal s f = .ok f' →
    (rewriteFlow g f = .ok f' ↔ ∀ str ∈ flowLeft s.isNone f, Fixes g str)) ?_ ?_
  · intro f hp he f' h
    exact flowLeft_agree_iff hs hp he h
  · intro b ih b' h
    obtain ⟨hset, hhead, hparts⟩ := substituteBlock_eq_ok_iff.1 h
    -- the blocks of routes and tools are as they were
    have hfixed : ∀ {xs : List BlockConfig}, (∀ x ∈ xs, BlockAgrees unmarshal g s x) →
        (xs.mapM (rewriteBlock g) = .ok xs ↔ ∀ x ∈ xs, ∀ str ∈ blockLeft true x, Fixes g str) := by
      intro xs hxs
      rw [mapM_fixed_iff]
      cases s with
      | none => exact forall₂_congr fun x hx => hxs x hx x rfl
      | some s₀ => exact forall₂_congr fun x _ => (hs s₀ rfl).2 x
    have hflows : ∀ f ∈ (blockParts b).flows, ∀ f', substituteFlow unmarshal s f = .ok f' →
        (rewriteFlow g f = .ok f' ↔ ∀ str ∈ flowLeft s.isNone f, Fixes g str) := by
      simp only [flows, forall_mem_append, Option.mem_toList]
      exact ⟨⟨⟨⟨ih.branches, ih.then'⟩, ih.else'⟩, ih.default'⟩, ih.body⟩
    rw [rewriteBlock_ok_iff, forall_blockLeft, settingsLeft_agree_iff hs hset, and_iff_right hhead]
    refine and_congr_right fun _ =>
      hparts.iff_forall (forall_mem_append.2 ⟨ih.process, ih.error⟩) hflows ?_ ?_ ?_
    · rintro c hc c' ⟨hwhen, hf⟩
      rw [and_iff_right hwhen, ih.cases c hc c'.flow hf]
    · rintro ⟨name, description, process⟩ hr _ rfl
      rw [← hfixed (ih.routes _ hr)]
      exact bind_mk_eq_ok fun _ _ h => congrArg RouteConfig.process h
    · rintro ⟨name, description, inputSchema, process⟩ ht _ rfl
      rw [← hfixed (ih.tools _ ht)]
      exact bind_mk_eq_ok fun _ _ h => congrArg ToolConfig.process h

end Walks

section Agreement

variable {unmarshal : String → Option Value} {s : Substitutor}

/-- What holds of the settings of the connectors and of the processors. -/
theorem declared_agree_iff {α : Type} {set : α → Settings} {k : α → Settings → α} {xs ys : List α}
    (hk : ∀ x, Function.Injective (k x))
    (h : (xs.mapM fun x => do let set' ← s.settings unmarshal (set x); return k x set') = ok ys) :
    (xs.mapM fun x => do
      let set' ← rewriteSettings (s.scalar unmarshal) (set x)
      return k x set') = ok ys ↔
      ∀ str ∈ xs.flatMap fun x => settingsLeft false (set x), Fixes (s.scalar unmarshal) str := by
  refine mapM_agree_flatMap (fun x _ x' hx => ?_) h
  obtain ⟨set', hset, hx⟩ := bind_eq_ok.1 hx
  cases pure_eq_ok.1 hx
  rw [← settings_agree_iff hset]
  exact bind_mk_eq_ok (hk x)

theorem partial_scalar : Partial unmarshal (s.scalar unmarshal) (some s) := by
  rintro _ ⟨⟩
  have hnone : Partial unmarshal (s.scalar unmarshal) none := fun _ h => nomatch h
  exact ⟨rfl, fun b => block_agree_iff hnone b b rfl⟩

theorem expand_of_no_reference : ∀ cs : List Char, hasReference cs = false →
    s.expand cs = (cs, none)
  | [], _ => by rw [expand]
  | c :: cs, h => by
    simp only [hasReference, Bool.or_eq_false_iff, isSome_eq_false_iff, isNone_iff_eq_none] at h
    rw [expand]
    split
    next name rest hm =>
      rw [h.1] at hm
      cases hm
    · simp [expand_of_no_reference cs h.2]

theorem scalar_of_no_reference {str : String} (h : hasReference str.toList = false) :
    Fixes (s.scalar unmarshal) str := by
  have hm : matchReference str.toList = none := by
    cases hs : str.toList with
    | nil => rfl
    | cons =>
      rw [hs] at h
      simp only [hasReference, Bool.or_eq_false_iff, isSome_eq_false_iff, isNone_iff_eq_none] at h
      exact h.1
  unfold Fixes scalar
  rw [hm, expand_of_no_reference _ h]
  simp

end Agreement

/-! ## The whole config -/

/-- **The substitution covers every settings string it should exactly when** the strings it does not
visit need none: those under ai-router routes and ai-agent tools, and those inside mappings with a
non-string key. -/
theorem substituteConfig_complete_iff (unmarshal : String → Option Value)
    (cfg cfg' : Types.Config) (resolved : List (String × String)) (declared : List String)
    (h : substituteConfig unmarshal cfg resolved declared = .ok cfg') :
    rewriteConfig (Substitutor.scalar unmarshal ⟨resolved, declared⟩) cfg = .ok cfg' ↔
      ∀ str ∈ configHidden cfg, Fixes (Substitutor.scalar unmarshal ⟨resolved, declared⟩) str := by
  obtain ⟨service, env, connectors, processors, flows, resolvedEnv⟩ := cfg
  simp only [substituteConfig, bind_eq_ok, pure_eq_ok] at h
  obtain ⟨cs, h1, ps, h2, fs, h3, rfl⟩ := h
  have hc : connectors.mapM _ = ok cs ↔ ∀ str ∈ connectors.flatMap _, _ :=
    declared_agree_iff (fun _ _ _ h => congrArg ConnectorConfig.settings h) h1
  have hp : processors.mapM _ = ok ps ↔ ∀ str ∈ processors.flatMap _, _ :=
    declared_agree_iff (fun _ _ _ h => congrArg ProcessorConfig.settings h) h2
  have hf : flows.mapM _ = ok fs ↔ ∀ str ∈ flows.flatMap (flowLeft false), _ :=
    mapM_agree_flatMap (fun f _ f' hf => flowLeft_agree_iff partial_scalar
      (fun b _ => block_agree_iff partial_scalar b) (fun b _ => block_agree_iff partial_scalar b) hf) h3
  simp only [configHidden, forall_mem_append]
  rw [← hc, ← hp, ← hf]
  simp only [rewriteConfig, bind_eq_ok]
  constructor
  · rintro ⟨cs', h1', ps', h2', fs', h3', heq⟩
    cases heq
    exact ⟨⟨h1', h2'⟩, h3'⟩
  · rintro ⟨⟨h1', h2'⟩, h3'⟩
    exact ⟨_, h1', _, h2', _, h3', rfl⟩

def logConfig (message : String) : Types.Config where
  service := ⟨"svc", ""⟩
  env := [⟨"WHO", none, true⟩]
  connectors := []
  processors := []
  flows := [FlowConfig.sub "main"
    [BlockConfig.leaf { type := "log", settings := [("message", .str message)] }]]
  resolvedEnv := []

open FlowConfig (sub)

theorem logConfig_substitute :
    substituteConfig (fun _ => none) (logConfig "hi $\x7bWHO\x7d") [("WHO", "Ann")] ["WHO"] =
      .ok (logConfig "hi Ann") := by
  have hs : scalar (fun _ => none) ⟨[("WHO", "Ann")], ["WHO"]⟩ "hi $\x7bWHO\x7d" =
      .ok (.str "hi Ann") := by
    have hm : matchReference "hi $\x7bWHO\x7d".toList = none := by decide
    have he : expand ⟨[("WHO", "Ann")], ["WHO"]⟩ "hi $\x7bWHO\x7d".toList =
        ("hi Ann".toList, none) := by decide +kernel
    simp only [scalar, hm, he, String.ofList_toList]
  simp [substituteConfig, logConfig, flow, source, block,
    flowPtr, settings, value, hs, sub,
    leaf, pure, Except.pure, bind, Except.bind]

theorem logConfig_hidden (message : String) : configHidden (logConfig message) = [] := by
  simp [configHidden, logConfig, flowLeft, blockLeft, flowPtrLeft, settingsLeft,
    sourceSettings, valueLeft, sub, leaf]

theorem substituteConfig_complete_log :
    substituteConfig (fun _ => none) (logConfig "hi $\x7bWHO\x7d") [("WHO", "Ann")] ["WHO"] =
        .ok (logConfig "hi Ann") ∧
      rewriteConfig (Substitutor.scalar (fun _ => none) ⟨[("WHO", "Ann")], ["WHO"]⟩)
        (logConfig "hi $\x7bWHO\x7d") = .ok (logConfig "hi Ann") :=
  ⟨logConfig_substitute, (substituteConfig_complete_iff _ _ _ _ _ logConfig_substitute).2
    (by simp [logConfig_hidden])⟩

def routeConfig : Types.Config where
  service := ⟨"svc", ""⟩
  env := []
  connectors := []
  processors := []
  flows := [FlowConfig.sub "main" [{ BlockConfig.leaf { type := "ai-router" } with
    routes := [⟨"orders", "order questions",
      [BlockConfig.leaf { type := "log", settings := [("message", .str "$\x7bSECRET\x7d")] }]⟩] }]]
  resolvedEnv := []

theorem routeConfig_substitute :
    substituteConfig (fun _ => none) routeConfig [] [] = .ok routeConfig := by
  simp [substituteConfig, routeConfig, flow, source, block,
    flowPtr, settings, sub, leaf, pure, Except.pure,
    bind, Except.bind]

theorem secret_undeclared :
    scalar (fun _ => none) ⟨[], []⟩ "$\x7bSECRET\x7d" =
      .error "settings reference undeclared environment variable \"SECRET\" (add it under env:)" := by
  rfl

/-- **A reference in a route survives a load that succeeds.** -/
theorem route_reference_kept :
    substituteConfig (fun _ => none) routeConfig [] [] = .ok routeConfig ∧
      rewriteConfig (Substitutor.scalar (fun _ => none) ⟨[], []⟩) routeConfig = .error
          "settings reference undeclared environment variable \"SECRET\" (add it under env:)" := by
  refine ⟨routeConfig_substitute, ?_⟩
  simp [rewriteConfig, routeConfig, rewriteFlow, rewriteSource, rewriteBlock, rewriteFlowPtr,
    rewriteSettings, rewriteValue, secret_undeclared, sub, leaf, pure,
    Except.pure, bind, Except.bind]

end Octo.Config
