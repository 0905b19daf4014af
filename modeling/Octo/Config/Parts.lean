import Octo.Config.Slots
import Octo.Config.Substitute
import Octo.Config.Wire

/-!
# The parts of a block

A pass over the tree (decoding, substitution) is one statement about the fields of a block and one
relation between its parts.

* `decodeBlock_eq_ok_iff` — what decoding a block needs and gives.
-/

namespace Octo.Config

open List Option Substitutor DecodedFlow Octo.Types Octo.Foundation.Traverse

abbrev ConfigParts := Parts BlockConfig FlowConfig CaseConfig RouteConfig ToolConfig

def blockParts (b : BlockConfig) : ConfigParts :=
  ⟨b.process, b.error, b.branches, b.then', b.else', b.cases, b.default', b.body, b.routes, b.tools⟩

def blockOf (head : BlockHead) (p : ConfigParts) : BlockConfig :=
  ⟨head, p.process, p.error, p.branches, p.then', p.else', p.cases, p.default', p.body, p.routes,
    p.tools⟩

/-! ## Decoding -/

abbrev WireParts := Parts RuntimeBlock RuntimeFlow RuntimeFlow RuntimeFlow RuntimeFlow

section Wire

variable (slots : List RuntimeSlot) (field : String)

/-- A key that holds one flow; `none` when it holds something else. -/
def flowPart : Option (Option RuntimeFlow) :=
  match slots.find? (·.field = field) with
  | none => some none
  | some (.flow _ f) => some (some f)
  | some _ => none

def flowsPart : Option (List RuntimeFlow) :=
  match slots.find? (·.field = field) with
  | none => some []
  | some (.flows _ fs) => some fs
  | some _ => none

def blocksPart : Option (List RuntimeBlock) :=
  match slots.find? (·.field = field) with
  | none => some []
  | some (.blocks _ bs) => some bs
  | some _ => none

/-- The ten keys the runtime reads; `none` when one holds the wrong kind of thing. -/
def wireParts : Option WireParts := do
  let process ← blocksPart slots "process"
  let error ← blocksPart slots "error"
  let branches ← flowsPart slots "branches"
  let then' ← flowPart slots "then"
  let else' ← flowPart slots "else"
  let cases ← flowsPart slots "cases"
  let default' ← flowPart slots "default"
  let body ← flowPart slots "body"
  let routes ← flowsPart slots "routes"
  let tools ← flowsPart slots "tools"
  return ⟨process, error, branches, then', else', cases, default', body, routes, tools⟩

end Wire

theorem wireParts_eq_some {slots : List RuntimeSlot} {p : WireParts} : wireParts slots = some p ↔
      blocksPart slots "process" = some p.process ∧ blocksPart slots "error" = some p.error ∧
      flowsPart slots "branches" = some p.branches ∧ flowPart slots "then" = some p.then' ∧
      flowPart slots "else" = some p.else' ∧ flowsPart slots "cases" = some p.cases ∧
      flowPart slots "default" = some p.default' ∧ flowPart slots "body" = some p.body ∧
      flowsPart slots "routes" = some p.routes ∧ flowsPart slots "tools" = some p.tools := by
  unfold wireParts
  simp only [Option.bind_eq_bind, Option.bind_eq_some_iff, Option.pure_def, Option.some.injEq]
  constructor
  · rintro ⟨process, h1, error, h2, branches, h3, then', h4, else', h5, cases, h6, default', h7,
      body, h8, routes, h9, tools, h10, rfl⟩
    exact ⟨h1, h2, h3, h4, h5, h6, h7, h8, h9, h10⟩
  · rintro ⟨h1, h2, h3, h4, h5, h6, h7, h8, h9, h10⟩
    exact ⟨_, h1, _, h2, _, h3, _, h4, _, h5, _, h6, _, h7, _, h8, _, h9, _, h10, rfl⟩

/-- The fields of a block, one by one, against the keys they are decoded from. -/
structure DecodedHead (truncate : String → Option Int) (w : RuntimeBlockHead) (h : BlockHead) :
    Prop where
  type : h.type = w.type.getD ""
  name : h.name = w.name.getD ""
  settings : h.settings = w.settings.getD []
  ref : h.ref = w.ref.getD ""
  condition : scalarAt w.scalars "condition" "" decodeString = .ok h.condition
  items : scalarAt w.scalars "items" "" decodeString = .ok h.items
  as' : scalarAt w.scalars "as" "" decodeString = .ok h.as'
  setBody : scalarAt w.scalars "setBody" "" decodeString = .ok h.setBody
  setVars : scalarAt w.scalars "setVars" [] decodeStringMap = .ok h.setVars
  key : scalarAt w.scalars "key" "" decodeString = .ok h.key
  ttl : scalarAt w.scalars "ttl" "" decodeString = .ok h.ttl
  connector : scalarAt w.scalars "connector" "" decodeString = .ok h.connector
  prompt : scalarAt w.scalars "prompt" "" decodeString = .ok h.prompt
  guardrail : scalarAt w.scalars "guardrail" "" decodeString = .ok h.guardrail
  maxIterations : scalarAt w.scalars "maxIterations" 0 (decodeInt truncate) = .ok h.maxIterations
  memoryThreadID : scalarAt w.scalars "memoryThreadId" "" decodeString = .ok h.memoryThreadID
  memoryMaxTokens :
    scalarAt w.scalars "memoryMaxTokens" 0 (decodeInt truncate) = .ok h.memoryMaxTokens
  memoryCompaction : scalarAt w.scalars "memoryCompaction" "" decodeString = .ok h.memoryCompaction
  maxAttempts : scalarAt w.scalars "maxAttempts" 0 (decodeInt truncate) = .ok h.maxAttempts

section Decode

variable {truncate : String → Option Int} {slots : List RuntimeSlot} {field : String}

theorem decodeHead_eq_ok_iff {w : RuntimeBlockHead} {h : BlockHead} :
    decodeHead truncate w = .ok h ↔ DecodedHead truncate w h := by
  simp only [decodeHead, bind_eq_ok, pure_eq_ok]
  constructor
  · rintro ⟨_, h1, _, h2, _, h3, _, h4, _, h5, _, h6, _, h7, _, h8, _, h9, _, h10, _, h11, _, h12, _,
      h13, _, h14, _, h15, rfl⟩
    exact ⟨rfl, rfl, rfl, rfl, h1, h2, h3, h4, h5, h6, h7, h8, h9, h10, h11, h12, h13, h14, h15⟩
  · rintro ⟨ht, hn, hs, hr, h1, h2, h3, h4, h5, h6, h7, h8, h9, h10, h11, h12, h13, h14, h15⟩
    refine ⟨_, h1, _, h2, _, h3, _, h4, _, h5, _, h6, _, h7, _, h8, _, h9, _, h10, _, h11, _, h12, _,
      h13, _, h14, _, h15, ?_⟩
    rw [← ht, ← hn, ← hs, ← hr]

theorem decodeFlow_eq (f : RuntimeFlow) :
    decodeFlow truncate f = ⟨f.head, f.process.mapM (decodeBlock truncate),
      (f.error.getD []).mapM (decodeBlock truncate)⟩ := by
  obtain ⟨head, process, error⟩ := f
  cases error with
  | none => rw [decodeFlow]; rfl
  | some => rw [decodeFlow]; rfl

theorem decodeSlot_field (s : RuntimeSlot) : (decodeSlot truncate s).field = s.field := by
  cases s <;> rw [decodeSlot] <;> rfl

theorem find_decodeSlot : (slots.map (decodeSlot truncate)).find? (·.field = field) =
    (slots.find? (·.field = field)).map (decodeSlot truncate) := by
  simp [Function.comp_def, decodeSlot_field]

theorem blocksAt_eq_ok_iff {bs : List BlockConfig} :
    blocksAt (slots.map (decodeSlot truncate)) field = .ok bs ↔
      ∃ ws, blocksPart slots field = some ws ∧
        List.Forall₂ (fun w b => decodeBlock truncate w = .ok b) ws bs := by
  unfold blocksAt blocksPart
  rw [find_decodeSlot]
  cases slots.find? (·.field = field) with
  | none =>
    simp only [map_none, Except.ok.injEq, Option.some.injEq, exists_eq_left', forall₂_nil_left_iff]
    exact eq_comm
  | some s =>
    cases s with
    | blocks =>
      simp only [map_some, decodeSlot, Option.some.injEq, exists_eq_left']
      exact mapM_eq_ok_iff
    | flow => simp [decodeSlot]
    | flows => simp [decodeSlot]

theorem flowsAt_eq_ok_iff {α : Type} {convert : DecodedFlow → Except LoadError α} {xs : List α} :
    flowsAt (slots.map (decodeSlot truncate)) field convert = .ok xs ↔
      ∃ fs, flowsPart slots field = some fs ∧
        List.Forall₂ (fun f x => convert (decodeFlow truncate f) = .ok x) fs xs := by
  unfold flowsAt flowsPart
  rw [find_decodeSlot]
  cases slots.find? (·.field = field) with
  | none =>
    simp only [map_none, Except.ok.injEq, Option.some.injEq, exists_eq_left', forall₂_nil_left_iff]
    exact eq_comm
  | some s =>
    cases s with
    | flows =>
      simp [decodeSlot, mapM_eq_ok_iff]
    | flow => simp [decodeSlot]
    | blocks => simp [decodeSlot]

theorem flowAt_eq_ok_iff {g : Option FlowConfig} :
    flowAt (slots.map (decodeSlot truncate)) field = .ok g ↔ ∃ f, flowPart slots field = some f ∧
        Option.Rel (fun f g => (decodeFlow truncate f).config = .ok g) f g := by
  unfold flowAt flowPart
  rw [find_decodeSlot]
  cases slots.find? (·.field = field) with
  | none =>
    cases g <;> simp
  | some s =>
    cases s with
    | flow =>
      simp only [map_some, decodeSlot, map_eq_ok]
      cases g <;> simp
    | flows => simp [decodeSlot]
    | blocks => simp [decodeSlot]

variable (truncate) in
def DecodedParts : WireParts → ConfigParts → Prop :=
  Parts.Rel (fun w b => decodeBlock truncate w = .ok b)
    (fun f g => (decodeFlow truncate f).config = .ok g)
    (fun f c => (decodeFlow truncate f).caseConfig = .ok c)
    (fun f r => (decodeFlow truncate f).routeConfig = .ok r)
    (fun f t => (decodeFlow truncate f).toolConfig = .ok t)

theorem decodeBlock_eq_ok_iff {w : RuntimeBlock} {b : BlockConfig} :
    decodeBlock truncate w = .ok b ↔ decodeHead truncate w.head = .ok b.head ∧
        ∃ p, wireParts w.slots = some p ∧ DecodedParts truncate p (blockParts b) := by
  obtain ⟨head, slots⟩ := w
  rw [decodeBlock, assembleBlock]
  simp only [bind_eq_ok, pure_eq_ok, blocksAt_eq_ok_iff, flowsAt_eq_ok_iff, flowAt_eq_ok_iff]
  constructor
  · rintro ⟨h, hh, process, ⟨p1, h1, r1⟩, error, ⟨p2, h2, r2⟩, branches, ⟨p3, h3, r3⟩, then',
      ⟨p4, h4, r4⟩, else', ⟨p5, h5, r5⟩, cases, ⟨p6, h6, r6⟩, default', ⟨p7, h7, r7⟩, body,
      ⟨p8, h8, r8⟩, routes, ⟨p9, h9, r9⟩, tools, ⟨p10, h10, r10⟩, rfl⟩
    exact ⟨hh, ⟨p1, p2, p3, p4, p5, p6, p7, p8, p9, p10⟩,
      wireParts_eq_some.2 ⟨h1, h2, h3, h4, h5, h6, h7, h8, h9, h10⟩,
      ⟨r1, r2, r3, r4, r5, r6, r7, r8, r9, r10⟩⟩
  · obtain ⟨h, process, error, branches, then', else', cases, default', body, routes, tools⟩ := b
    rintro ⟨hh, p, hp, r⟩
    obtain ⟨h1, h2, h3, h4, h5, h6, h7, h8, h9, h10⟩ := wireParts_eq_some.1 hp
    exact ⟨_, hh, _, ⟨_, h1, r.process⟩, _, ⟨_, h2, r.error⟩, _, ⟨_, h3, r.branches⟩, _,
      ⟨_, h4, r.then'⟩, _, ⟨_, h5, r.else'⟩, _, ⟨_, h6, r.cases⟩, _, ⟨_, h7, r.default'⟩, _,
      ⟨_, h8, r.body⟩, _, ⟨_, h9, r.routes⟩, _, ⟨_, h10, r.tools⟩, rfl⟩

variable {f : RuntimeFlow}

theorem config_eq_ok_iff {g : FlowConfig} : (decodeFlow truncate f).config = .ok g ↔
      List.Forall₂ (fun w b => decodeBlock truncate w = .ok b) f.process g.process ∧
        List.Forall₂ (fun w b => decodeBlock truncate w = .ok b) (f.error.getD []) g.error ∧
        g = { name := f.head.name.getD "", source := f.head.source.map decodeSource
              process := g.process, error := g.error, workers := f.head.workers.getD 0
              buffer := f.head.buffer.getD 0, pool := f.head.pool.getD 0 } := by
  rw [decodeFlow_eq]
  simp only [config, bind_eq_ok, pure_eq_ok, mapM_eq_ok_iff]
  constructor
  · rintro ⟨process, hp, error, he, rfl⟩
    exact ⟨hp, he, rfl⟩
  · rintro ⟨hp, he, hg⟩
    exact ⟨_, hp, _, he, hg.symm⟩

theorem caseConfig_eq_ok_iff {c : CaseConfig} : (decodeFlow truncate f).caseConfig = .ok c ↔
      c.when' = f.head.when'.getD "" ∧ (decodeFlow truncate f).config = .ok c.flow := by
  obtain ⟨when', flow⟩ := c
  simp only [caseConfig, bind_eq_ok, pure_eq_ok, CaseConfig.mk.injEq, decodeFlow_eq]
  constructor
  · rintro ⟨flow, hf, rfl, rfl⟩
    exact ⟨rfl, hf⟩
  · rintro ⟨rfl, hf⟩
    exact ⟨_, hf, rfl, rfl⟩

theorem routeConfig_eq_ok_iff {r : RouteConfig} : (decodeFlow truncate f).routeConfig = .ok r ↔
      r.name = f.head.name.getD "" ∧ r.description = f.head.description.getD "" ∧
        List.Forall₂ (fun w b => decodeBlock truncate w = .ok b) f.process r.process := by
  obtain ⟨name, description, process⟩ := r
  simp only [routeConfig, bind_eq_ok, pure_eq_ok, RouteConfig.mk.injEq, decodeFlow_eq,
    mapM_eq_ok_iff]
  constructor
  · rintro ⟨process, hp, rfl, rfl, rfl⟩
    exact ⟨rfl, rfl, hp⟩
  · rintro ⟨rfl, rfl, hp⟩
    exact ⟨_, hp, rfl, rfl, rfl⟩

theorem toolConfig_eq_ok_iff {t : ToolConfig} : (decodeFlow truncate f).toolConfig = .ok t ↔
      t.name = f.head.name.getD "" ∧ t.description = f.head.description.getD "" ∧
        t.inputSchema = f.head.inputSchema.getD "" ∧
        List.Forall₂ (fun w b => decodeBlock truncate w = .ok b) f.process t.process := by
  obtain ⟨name, description, inputSchema, process⟩ := t
  simp only [toolConfig, bind_eq_ok, pure_eq_ok, ToolConfig.mk.injEq, decodeFlow_eq,
    mapM_eq_ok_iff]
  constructor
  · rintro ⟨process, hp, rfl, rfl, rfl, rfl⟩
    exact ⟨rfl, rfl, rfl, hp⟩
  · rintro ⟨rfl, rfl, rfl, hp⟩
    exact ⟨_, hp, rfl, rfl, rfl, rfl⟩

end Decode

/-! ## Substitution -/

section Substitute

variable (unmarshal : String → Option Value) (s : Option Substitutor)

def substituteBlock (b : BlockConfig) : Except String BlockConfig := match s with
  | none => .ok b
  | some s => s.block unmarshal b

def substituteFlow (f : FlowConfig) : Except String FlowConfig := match s with
  | none => .ok f
  | some s => s.flow unmarshal f

def substituteSettings (set : Settings) : Except String Settings := match s with
  | none => .ok set
  | some s => s.settings unmarshal set

def SubstitutedCase (c c' : CaseConfig) : Prop :=
  c'.when' = c.when' ∧ substituteFlow unmarshal s c.flow = .ok c'.flow

def SubstitutedParts : ConfigParts → ConfigParts → Prop :=
  Parts.Rel (fun b b' => substituteBlock unmarshal s b = .ok b')
    (fun f g => substituteFlow unmarshal s f = .ok g) (SubstitutedCase unmarshal s) Eq Eq

variable {unmarshal s}

theorem substituteSettings_nil : substituteSettings unmarshal s [] = .ok [] := by
  cases s <;> rfl

theorem substituteSettings_keys {set set' : Settings}
    (h : substituteSettings unmarshal s set = .ok set') : set'.map Prod.fst = set.map Prod.fst := by
  cases s with
  | none =>
    cases h
    rfl
  | some =>
    refine map_eq_of_forall₂ ?_ (mapM_eq_ok_iff.1 h)
    intro kv kv' hkv
    obtain ⟨nv, -, hpair⟩ := bind_eq_ok.1 hkv
    cases hpair
    rfl

theorem flowPtr_eq_ok_iff {s : Substitutor} {f g : Option FlowConfig} :
    s.flowPtr unmarshal f = .ok g ↔ Option.Rel (fun f g => s.flow unmarshal f = .ok g) f g := by
  cases f with
  | none =>
    rw [flowPtr, pure_eq_ok]
    cases g <;> simp
  | some =>
    rw [flowPtr, bind_eq_ok]
    simp only [pure_eq_ok]
    cases g <;> simp

/-- **What substituting in a block needs and gives**: its settings and the parts that are not routes
or tools. -/
theorem substituteBlock_eq_ok_iff {b b' : BlockConfig} : substituteBlock unmarshal s b = .ok b' ↔
      substituteSettings unmarshal s b.head.settings = .ok b'.head.settings ∧
        b'.head = { b.head with settings := b'.head.settings } ∧
        SubstitutedParts unmarshal s (blockParts b) (blockParts b') := by
  obtain ⟨head, process, error, branches, then', else', cases, default', body, routes, tools⟩ := b
  obtain ⟨head', process', error', branches', then'', else'', cases', default'', body', routes',
    tools'⟩ := b'
  have hnil : ∀ {α : Type} (xs : List α), List.Forall₂ Eq xs xs := fun xs =>
    forall₂_same.2 fun _ _ => rfl
  cases s with
  | none =>
    have hblock : (fun b b' => substituteBlock unmarshal none b = .ok b') = Eq := by
      funext b b'
      exact propext (Except.ok.injEq ..).to_iff
    have hflow : (fun f g => substituteFlow unmarshal none f = .ok g) = Eq := by
      funext f g
      exact propext (Except.ok.injEq ..).to_iff
    have hcase : SubstitutedCase unmarshal none = Eq := by
      funext ⟨when', f⟩ ⟨when'', f'⟩
      simp [SubstitutedCase, substituteFlow, eq_comm (a := when'')]
    rw [SubstitutedParts, hblock, hflow, hcase, Parts.rel_eq]
    simp only [substituteBlock, substituteSettings, Except.ok.injEq, BlockConfig.mk.injEq,
      blockParts, Parts.mk.injEq]
    constructor
    · rintro ⟨rfl, h⟩
      exact ⟨rfl, rfl, h⟩
    · rintro ⟨hset, hhead, h⟩
      rw [← hset] at hhead
      exact ⟨hhead.symm, h⟩
  | some =>
    simp only [substituteBlock]
    rw [block]
    simp only [bind_eq_ok, pure_eq_ok, mapM_eq_ok_iff, flowPtr_eq_ok_iff, BlockConfig.mk.injEq]
    constructor
    · rintro ⟨set, hset, _, h1, _, h2, _, h4, _, h5, _, h7, _, h8, _, h3, _, h6, rfl, rfl, rfl, rfl,
        rfl, rfl, rfl, rfl, rfl, rfl, rfl⟩
      refine ⟨hset, rfl, h1, h2, h3, h4, h5, h6.imp ?_, h7, h8, hnil _, hnil _⟩
      rintro c _ ⟨f, hf, rfl⟩
      exact ⟨rfl, hf⟩
    · rintro ⟨hset, hhead, h1, h2, h3, h4, h5, h6, h7, h8, h9, h10⟩
      rw [forall₂_eq_eq_eq] at h9 h10
      refine ⟨_, hset, _, h1, _, h2, _, h4, _, h5, _, h7, _, h8, _, h3, _, h6.imp ?_, hhead.symm,
        rfl, rfl, rfl, rfl, rfl, rfl, rfl, rfl, h9, h10⟩
      rintro c ⟨when', f⟩ ⟨rfl, hf⟩
      exact ⟨f, hf, rfl⟩

variable (unmarshal s) in
def substituteSource (src : Option SourceConfig) : Except String (Option SourceConfig) :=
  match s with
  | none => .ok src
  | some s => s.source unmarshal src

theorem substituteSource_eq_none_iff {src : Option SourceConfig} :
    substituteSource unmarshal s src = .ok none ↔ src = none := by
  cases s with
  | none => simp [substituteSource]
  | some =>
    cases src with
    | none => exact iff_of_true rfl rfl
    | some =>
      simp only [substituteSource, source, bind_eq_ok, pure_eq_ok, reduceCtorEq,
        and_false, exists_false]

theorem substituteFlow_eq_ok_iff {f g : FlowConfig} : substituteFlow unmarshal s f = .ok g ↔
      substituteSource unmarshal s f.source = .ok g.source ∧
        List.Forall₂ (fun b b' => substituteBlock unmarshal s b = .ok b') f.process g.process ∧
        List.Forall₂ (fun b b' => substituteBlock unmarshal s b = .ok b') f.error g.error ∧
        g = { f with source := g.source, process := g.process, error := g.error } := by
  obtain ⟨name, source, process, error, workers, buffer, pool⟩ := f
  obtain ⟨name', source', process', error', workers', buffer', pool'⟩ := g
  cases s with
  | none =>
    simp only [substituteFlow, substituteSource, substituteBlock, Except.ok.injEq,
      FlowConfig.mk.injEq, forall₂_eq_eq_eq, true_and]
    constructor
    · rintro ⟨rfl, rfl, rfl, rfl, rfl, rfl, rfl⟩
      exact ⟨rfl, rfl, rfl, rfl, rfl, rfl, rfl⟩
    · rintro ⟨rfl, rfl, rfl, rfl, rfl, rfl, rfl⟩
      exact ⟨rfl, rfl, rfl, rfl, rfl, rfl, rfl⟩
  | some =>
    simp only [substituteFlow]
    rw [flow]
    simp only [bind_eq_ok, pure_eq_ok, mapM_eq_ok_iff, FlowConfig.mk.injEq, true_and]
    constructor
    · rintro ⟨_, hs, _, hp, _, he, rfl, rfl, rfl, rfl, rfl, rfl, rfl⟩
      exact ⟨hs, hp, he, rfl, rfl, rfl, rfl⟩
    · rintro ⟨hs, hp, he, rfl, rfl, rfl, rfl⟩
      exact ⟨_, hs, _, hp, _, he, rfl, rfl, rfl, rfl, rfl, rfl, rfl⟩

end Substitute

end Octo.Config
