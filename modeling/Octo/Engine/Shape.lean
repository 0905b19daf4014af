import Octo.Engine.Means

/-!
# The built tree has the shape of the config

A block of a flow has an address: its position in the chain of the root, then for each level below
the slot of the enclosing block and the position in the chain that stands there.  The config and the
built flow are looked up at the same addresses, and `buildRoot_shape` says that the builder puts at
each of them what the config has there: a block where there is a block, and nothing else.

A leaf holds the settings its `ref` resolves to.  A composite kind is built from its typed fields
only, so settings on it are accepted and have no effect (`fork_settings_unused`).
-/

namespace Octo.Engine

open Octo.Types Octo.Config Octo.Foundation.Traverse

/-! ## Addresses -/

inductive Place where
  | process
  | error
  | branches (i : Nat)
  | then'
  | else'
  | cases (i : Nat)
  | default'
  | body
  | routes (i : Nat)
  | tools (i : Nat)
deriving DecidableEq

/-- A bare chain as a flow, as the builders of chains wrap it; an empty chain is an unset slot. -/
def chainConfig : List BlockConfig → Option FlowConfig
  | [] => none
  | b :: bs => some ⟨"", none, b :: bs, [], 0, 0, 0⟩

def configFlowAt (b : BlockConfig) : Place → Option FlowConfig
  | .process => chainConfig b.process
  | .error => chainConfig b.error
  | .branches i => b.branches[i]?
  | .then' => b.then'
  | .else' => b.else'
  | .cases i => b.cases[i]?.map (·.flow)
  | .default' => b.default'
  | .body => b.body
  | .routes i => b.routes[i]?.map fun r => ⟨"", none, r.process, [], 0, 0, 0⟩
  | .tools i => b.tools[i]?.map fun t => ⟨"", none, t.process, [], 0, 0, 0⟩

def chainFlow : List Block → Option Flow
  | [] => none
  | t :: ts => some ⟨"", t :: ts⟩

def flowAt (t : Block) : Place → Option Flow
  | .process => chainFlow t.slots.process
  | .error => chainFlow t.slots.error
  | .branches i => t.slots.branches[i]?
  | .then' => t.slots.then'
  | .else' => t.slots.else'
  | .cases i => t.slots.cases[i]?
  | .default' => t.slots.default'
  | .body => t.slots.body
  | .routes i => t.slots.routes[i]?
  | .tools i => t.slots.tools[i]?

def configAt (f : FlowConfig) (i : Nat) : List (Place × Nat) → Option BlockConfig
  | [] => f.process[i]?
  | (place, j) :: rest => do
    let b ← f.process[i]?
    let g ← configFlowAt b place
    configAt g j rest

def builtAt (f : Flow) (i : Nat) : List (Place × Nat) → Option Block
  | [] => f.blocks[i]?
  | (place, j) :: rest => do
    let t ← f.blocks[i]?
    let g ← flowAt t place
    builtAt g j rest

/-! ## What stands at an address -/

/-- A flow below the root declares no source, no workers, buffer or pool, and no error path. -/
structure Nested (f : FlowConfig) : Prop where
  source : f.source = none
  workers : f.workers = 0
  buffer : f.buffer = 0
  pool : f.pool = 0
  error : f.error = []

/-- A built block is what the builder owes a block of the config. -/
structure Corresponds (d : Deps) (defs : List ProcessorConfig) (b : BlockConfig) (t : Block) :
    Prop where
  name : t.name = b.head.name
  /-- The type is the resolved one, and the fields of a composite go to its processor. -/
  resolved : ∃ settings, resolve defs b.head = .ok (t.type, settings) ∧
    paramsFor d t.type settings b.head (entryHeads (blockParts b)) = .ok t.own
  settings : ∀ settings, resolve defs b.head = .ok (t.type, settings) → Kind.ofType t.type = none →
    t.own = .leaf fun key => settings.lookup key
  scalars : ScalarsWithin b.head (allowedFor t.type)
  slots : SlotsWithin (blockParts b).shape (allowedFor t.type)
  flows : ∀ place, (flowAt t place).map (·.name) = (configFlowAt b place).map (·.name)
  nested : ∀ place f, configFlowAt b place = some f → Nested f

section Shape

variable {d : Deps} {defs : List ProcessorConfig}

theorem subFlow_chain {process : List BlockConfig} {g : Flow}
    (h : BuiltEntry d defs process g) : subFlow d defs ⟨"", none, process, [], 0, 0, 0⟩ = .ok g :=
  subFlow_eq_ok_iff.2 ⟨rfl, ⟨rfl, rfl, rfl⟩, rfl, h.1, h.2⟩

theorem chain_rel {bs : List BlockConfig} {ts : List Block}
    (h : List.Forall₂ (fun b t => block d defs b = .ok t) bs ts) :
    Option.Rel (fun f g => subFlow d defs f = .ok g) (chainConfig bs) (chainFlow ts) := by
  cases h with
  | nil => exact .none
  | cons hb hbs => exact .some (subFlow_chain ⟨rfl, .cons hb hbs⟩)

/-- **The places of a built block**: each holds what the flow of the config there is built to. -/
theorem flowAt_rel {b : BlockConfig} {t : Block} (h : block d defs b = .ok t) (place : Place) :
    Option.Rel (fun f g => subFlow d defs f = .ok g) (configFlowAt b place) (flowAt t place) := by
  obtain ⟨-, hparts⟩ := block_eq_ok_iff.1 h
  cases place with
  | process => exact chain_rel hparts.process
  | error => exact chain_rel hparts.error
  | branches i => exact getElem?_rel hparts.branches i
  | then' => exact hparts.then'
  | else' => exact hparts.else'
  | cases i => exact optionRel_map_left.2 (getElem?_rel hparts.cases i)
  | default' => exact hparts.default'
  | body => exact hparts.body
  | routes i =>
    apply optionRel_map_left.2
    exact optionRel_imp (fun _ _ => subFlow_chain) (getElem?_rel hparts.routes i)
  | tools i =>
    apply optionRel_map_left.2
    exact optionRel_imp (fun _ _ => subFlow_chain) (getElem?_rel hparts.tools i)

theorem corresponds_of_block {b : BlockConfig} {t : Block} (h : block d defs b = .ok t) :
    Corresponds d defs b t := by
  obtain ⟨hacc, hparts⟩ := block_eq_ok_iff.1 h
  refine ⟨hacc.name, hacc.own, ?_, hacc.scalars, ?_, ?_, ?_⟩
  · intro settings hr hleaf
    obtain ⟨settings', hr', hown⟩ := hacc.own
    obtain rfl : settings' = settings := by
      rw [hr] at hr'
      cases hr'
      rfl
    simp only [paramsFor, hleaf, bind_eq_ok, pure_eq_ok] at hown
    obtain ⟨-, -, hown⟩ := hown
    exact hown.symm
  · rw [hparts.shape_eq]
    exact hacc.slots
  · intro place
    have hrel := flowAt_rel h place
    generalize configFlowAt b place = f at hrel
    generalize flowAt t place = g at hrel
    cases hrel with
    | none => rfl
    | some hg => exact congrArg some (subFlow_eq_ok_iff.1 hg).2.2.2.1
  · intro place f hf
    have hrel := flowAt_rel h place
    rw [hf] at hrel
    generalize flowAt t place = g at hrel
    cases hrel with
    | some hg =>
      obtain ⟨hs, ⟨hw, hb, hp⟩, he, -⟩ := subFlow_eq_ok_iff.1 hg
      exact ⟨hs, hw, hb, hp, he⟩

theorem builtAt_rel (path : List (Place × Nat)) : ∀ {f : FlowConfig} {g : Flow} (i : Nat),
    List.Forall₂ (fun b t => block d defs b = .ok t) f.process g.blocks →
      Option.Rel (fun b t => block d defs b = .ok t) (configAt f i path) (builtAt g i path) := by
  -- along the address: each step enters a flow that was built from the flow of the config
  induction path with
  | nil => exact fun i h => getElem?_rel h i
  | cons step rest ih =>
    obtain ⟨place, j⟩ := step
    intro f g i h
    have hi := getElem?_rel h i
    simp only [configAt, builtAt]
    generalize f.process[i]? = b at hi
    generalize g.blocks[i]? = t at hi
    cases hi with
    | none => exact .none
    | some hb =>
      have hplace := flowAt_rel hb place
      simp only [Option.bind_eq_bind, Option.bind_some]
      revert hplace
      generalize configFlowAt _ place = f'
      generalize flowAt _ place = g'
      rintro (hg | _)
      · exact ih j (subFlow_eq_ok_iff.1 hg).2.2.2.2
      · exact .none

end Shape

/-! ## The root -/

/-- **The builder drops nothing**: the built flow has a block exactly where the config has one, and
the two correspond. -/
theorem buildRoot_shape {d : Deps} {defs : List ProcessorConfig} {cfg : FlowConfig} {f : Flow}
    (h : buildRoot d defs cfg = .ok f) : f.name = cfg.name ∧ ∀ i path,
      Option.Rel (Corresponds d defs) (configAt cfg i path) (builtAt f i path) := by
  simp only [buildRoot, flow, bind_eq_ok, pure_eq_ok, mapM_eq_ok_iff] at h
  obtain ⟨_, -, blocks, hblocks, rfl⟩ := h
  refine ⟨rfl, fun i path => ?_⟩
  exact optionRel_imp (fun _ _ => corresponds_of_block) (builtAt_rel path i hblocks)

/-! ## Settings on a composite -/

def willingDeps : Deps where
  truncate _ := none
  unmarshal text := some (.str text)
  compile _ := .ok ()
  validJSON _ := true
  parseDuration _ := none
  connector _ := none
  isLLM _ := false
  factory _ _ := .ok ()

def tunedDefs : List ProcessorConfig := [⟨"tuned", "fork", [("limit", .int 2)]⟩]

def payloadConfig : BlockConfig :=
  ⟨{ type := "set-payload", settings := [("value", .str "1")] }, [], [], [], none, none, [], none,
    none, [], []⟩

def tunedConfig : FlowConfig :=
  ⟨"main", none, [⟨{ ref := "tuned" }, [], [], [⟨"left", none, [payloadConfig], [], 0, 0, 0⟩],
    none, none, [], none, none, [], []⟩], [], 0, 0, 0⟩

def payloadBlock : Block :=
  ⟨"", "set-payload", .leaf fun key => [("value", .str "1")].lookup key, {}⟩

def tunedFlow : Flow := ⟨"main", [⟨"", "fork", .fork, { branches := [⟨"left", [payloadBlock]⟩] }⟩]⟩

theorem block_payloadConfig : block willingDeps tunedDefs payloadConfig = .ok payloadBlock := by
  rw [block_eq]
  rfl

theorem buildRoot_tunedConfig : buildRoot willingDeps tunedDefs tunedConfig = .ok tunedFlow := by
  have hbranch : subFlow willingDeps tunedDefs ⟨"left", none, [payloadConfig], [], 0, 0, 0⟩ =
      .ok ⟨"left", [payloadBlock]⟩ :=
    subFlow_eq_ok_iff.2 ⟨rfl, ⟨rfl, rfl, rfl⟩, rfl, rfl, .cons block_payloadConfig .nil⟩
  simp only [buildRoot, flow, bind_eq_ok, mapM_eq_ok_iff]
  refine ⟨(), rfl, _, .cons ?_ .nil, rfl⟩
  rw [block_eq, blueprint]
  simp only [blockParts, Parts.map, List.map_cons, hbranch]
  rfl

theorem tunedConfig_shape : tunedFlow.name = tunedConfig.name ∧ ∀ i path,
      Option.Rel (Corresponds willingDeps tunedDefs) (configAt tunedConfig i path)
        (builtAt tunedFlow i path) :=
  buildRoot_shape buildRoot_tunedConfig

/-- **Settings on a composite are not used**: the flow is accepted, and the built block holds no
setting. -/
theorem fork_settings_unused : buildRoot willingDeps tunedDefs tunedConfig = .ok tunedFlow ∧
      (configAt tunedConfig 0 []).map (fun b => resolve tunedDefs b.head) =
        some (.ok ("fork", [("limit", .int 2)])) ∧
      (builtAt tunedFlow 0 []).map (·.own) = some .fork :=
  ⟨buildRoot_tunedConfig, rfl, rfl⟩

end Octo.Engine
