import Mathlib.Tactic.Simproc.ExistsAndEq
import Octo.Engine.Builder

/-!
# What a block builder accepts

When the builder of a kind returns, and what.  All it asks of its children is that they were
built; everything else depends on the fields of the block and of its entries, which `Kind.params`
turns into what the block holds.

* `build_eq_ok_iff` — a kind builds a block exactly when its children were built, its required
  slots are there, no field of another kind is set, and its own fields are accepted.
* `construct_eq_ok_iff` — the same for any block, `ref` resolved.
-/

namespace Octo.Engine

open List Function Option Kind Blueprint Own Octo.Types
open Octo.Config (Parts)
open Octo.Foundation (trimSpace)
open Octo.Foundation.Traverse

section

variable {α β γ : Type}

/-! ## Inverting the helpers -/

@[simp] theorem require_eq_ok {b : Bool} {kind : ErrorKind} {text : String} {u : Unit} :
    require b kind text = .ok u ↔ b = true := by
  cases b <;> simp [require]

@[simp] theorem within_eq_ok {context : String} {x : Build α} {a : α} :
    within context x = .ok a ↔ x = .ok a := by
  cases x <;> simp [within, Except.mapError]

theorem chain_eq_ok {results : List (Build α)} {xs : List α} :
    chain results = .ok xs ↔ List.Forall₂ (· = .ok ·) results xs :=
  mapM_eq_ok_iff

theorem optional_eq_ok {context : String} {o : Option (Build β)} {r : Option β} :
    optional context o = .ok r ↔ Option.Rel (· = .ok ·) o r := by
  cases o with
  | none => cases r <;> simp [optional]
  | some =>
    rw [optional, map_eq_ok]
    cases r <;> simp

def checkAll (check : List γ → γ → Build Unit) :
    List γ → List γ → Build Unit
  | _, [] => .ok ()
  | prev, entry :: rest => do
    check prev entry
    checkAll check (prev ++ [entry]) rest

theorem entries_eq_ok {check : List γ → γ → Build Unit}
    {context : List γ → γ → String} :
    ∀ {l : List (γ × Build β)} {prev : List γ} {fs : List β},
      entries check context prev l = .ok fs ↔
        checkAll check prev (l.map (·.1)) = .ok () ∧ List.Forall₂ (·.2 = .ok ·) l fs
  | [], prev, fs => by cases fs <;> simp [entries, checkAll]
  | (entry, r) :: rest, prev, fs => by
    simp only [entries, checkAll, bind_eq_ok, within_eq_ok, pure_eq_ok, map_cons]
    constructor
    · rintro ⟨⟨⟩, hcheck, f, hr, fs', hrest, rfl⟩
      obtain ⟨hall, hres⟩ := entries_eq_ok.1 hrest
      exact ⟨⟨(), hcheck, hall⟩, .cons hr hres⟩
    · rintro ⟨⟨⟨⟩, hcheck, hall⟩, hres⟩
      cases hres with
      | cons hr hres => exact ⟨(), hcheck, _, hr, _, entries_eq_ok.2 ⟨hall, hres⟩, rfl⟩

variable {bp : Blueprint α β}

theorem allowSlots_eq_ok {kind : Kind} {allowed : List String} {u : Unit} :
    allowSlots bp kind allowed = .ok u ↔ ∀ n ∈ compositeSlots bp, n ∈ allowed := by
  unfold allowSlots
  split
  next h =>
    simpa using h
  next slot h =>
    have hmem := mem_of_find?_eq_some h
    have hnot := find?_some h
    simp only [reduceCtorEq, false_iff, not_forall]
    exact ⟨slot, hmem, by simpa using hnot⟩

theorem forall_compositeSlots {P : String → Prop} :
    (∀ n ∈ compositeSlots bp, P n) ↔ ∀ f ∈ compositeFields bp, f.1 = true → P f.2 := by
  simp [compositeSlots]

/-- The children were built, to these. -/
def Matches (p : Parts (Build α) (Build β) (String × Build β)
    (RouteHead × Build β) (ToolHead × Build β)) (s : Slots α β) : Prop :=
  p.Rel (· = .ok ·) (· = .ok ·) (·.2 = .ok ·) (·.2 = .ok ·) (·.2 = .ok ·) s

/-! ## Fields -/

def Kind.allowed : Kind → List String
  | .handleErrors => ["process", "error"]
  | .fork => ["branches"]
  | .ifBlock => ["condition", "then", "else"]
  | .switch => ["cases", "default"]
  | .foreach => ["items", "as", "body"]
  | .enrich => ["body", "setBody", "setVars"]
  | .cacheScope => ["body", "key", "ttl"]
  | .aiRouter => ["routes", "default", "connector", "prompt", "guardrail"]
  | .aiAgent => ["tools", "default", "connector", "prompt", "guardrail", "maxIterations",
      "memoryThreadId", "memoryMaxTokens", "memoryCompaction"]
  | .aiRetry => ["process", "error", "connector", "prompt", "maxAttempts"]

@[mk_iff]
structure ScalarsWithin (h : BlockHead) (allowed : List String) : Prop where
  condition : h.condition ≠ "" → "condition" ∈ allowed
  items : h.items ≠ "" → "items" ∈ allowed
  as' : h.as' ≠ "" → "as" ∈ allowed
  setBody : h.setBody ≠ "" → "setBody" ∈ allowed
  setVars : h.setVars ≠ [] → "setVars" ∈ allowed
  key : h.key ≠ "" → "key" ∈ allowed
  ttl : h.ttl ≠ "" → "ttl" ∈ allowed
  connector : h.connector ≠ "" → "connector" ∈ allowed
  prompt : h.prompt ≠ "" → "prompt" ∈ allowed
  guardrail : h.guardrail ≠ "" → "guardrail" ∈ allowed
  maxIterations : h.maxIterations ≠ 0 → "maxIterations" ∈ allowed
  maxAttempts : h.maxAttempts ≠ 0 → "maxAttempts" ∈ allowed
  memoryThreadID : h.memoryThreadID ≠ "" → "memoryThreadId" ∈ allowed
  memoryMaxTokens : h.memoryMaxTokens ≠ 0 → "memoryMaxTokens" ∈ allowed
  memoryCompaction : h.memoryCompaction ≠ "" → "memoryCompaction" ∈ allowed

abbrev Shape := Slots Unit Unit

structure SlotsWithin (s : Shape) (allowed : List String) : Prop where
  process : s.process ≠ [] → "process" ∈ allowed
  error : s.error ≠ [] → "error" ∈ allowed
  branches : s.branches ≠ [] → "branches" ∈ allowed
  then' : s.then' ≠ none → "then" ∈ allowed
  else' : s.else' ≠ none → "else" ∈ allowed
  cases : s.cases ≠ [] → "cases" ∈ allowed
  default' : s.default' ≠ none → "default" ∈ allowed
  body : s.body ≠ none → "body" ∈ allowed
  routes : s.routes ≠ [] → "routes" ∈ allowed
  tools : s.tools ≠ [] → "tools" ∈ allowed

theorem list_set {l : List γ} : (!l.isEmpty) = true ↔ l.map (fun _ => ()) ≠ [] := by
  cases l <;> simp

theorem flow_set {o : Option γ} : o.isSome = true ↔ o.map (fun _ => ()) ≠ none := by
  cases o <;> simp

theorem compositeSlots_within {allowed : List String} : (∀ n ∈ compositeSlots bp, n ∈ allowed) ↔
      ScalarsWithin bp.head allowed ∧ SlotsWithin bp.shape allowed := by
  have hvars : (!bp.head.setVars.isEmpty) = true ↔ bp.head.setVars ≠ [] := by
    cases bp.head.setVars <;> simp
  rw [forall_compositeSlots]
  simp only [compositeFields, forall_mem_cons, not_mem_nil, false_implies, implies_true,
    and_true, hvars, decide_eq_true_eq]
  simp only [list_set, flow_set]
  constructor
  · rintro ⟨h1, h2, h3, h4, h5, h6, h7, h8, h9, h10, h11, h12, h13, h14, h15, h16, h17, h18, h19,
      h20, h21, h22, h23, h24, h25⟩
    exact ⟨⟨h4, h9, h10, h12, h13, h14, h15, h16, h17, h18, h21, h22, h23, h24, h25⟩,
      ⟨h1, h2, h3, h5, h6, h7, h8, h11, h19, h20⟩⟩
  · rintro ⟨h, s⟩
    exact ⟨s.process, s.error, s.branches, h.condition, s.then', s.else', s.cases, s.default',
      h.items, h.as', s.body, h.setBody, h.setVars, h.key, h.ttl, h.connector, h.prompt,
      h.guardrail, s.routes, s.tools, h.maxIterations, h.maxAttempts, h.memoryThreadID,
      h.memoryMaxTokens, h.memoryCompaction⟩

def Kind.Requires (s : Shape) : Kind → Prop
  | .handleErrors => s.process ≠ [] ∧ s.error ≠ []
  | .fork => s.branches ≠ []
  | .ifBlock => s.then' ≠ none
  | .switch => s.cases ≠ []
  | .foreach => s.body ≠ none
  | .enrich => s.body ≠ none
  | .cacheScope => s.body ≠ none
  | .aiRouter => s.routes ≠ []
  | .aiAgent => s.tools ≠ []
  | .aiRetry => s.process ≠ []

structure EntryHeads where
  whens : List String
  routes : List RouteHead
  tools : List ToolHead

def Blueprint.entryHeads (bp : Blueprint α β) : EntryHeads :=
  ⟨bp.cases.map (·.1), bp.routes.map (·.1), bp.tools.map (·.1)⟩

variable (d : Deps)

/-- What a block of a kind holds besides its sub-flows, when its fields are accepted. -/
def Kind.params (h : BlockHead) (es : EntryHeads) : Kind → Build Own
  | .handleErrors => .ok .handleErrors
  | .fork => .ok .fork
  | .ifBlock => do
    require (h.condition ≠ "") .missingField "if block requires a condition"
    compileExpr d h.condition
    return .ifBlock h.condition
  | .switch => do
    checkAll (checkCase d) [] es.whens
    return .switch es.whens
  | .foreach => do
    require (h.items ≠ "") .missingField "foreach block requires an items expression"
    compileExpr d h.items
    return .foreach h.items (if h.as' = "" then defaultForeachVar else h.as')
  | .enrich => do
    compileBody d h.setBody
    compileVars d h.setVars
    return .enrich (if h.setBody = "" then none else some h.setBody) h.setVars
  | .cacheScope => do
    require (h.key ≠ "") .missingField "cache-scope block requires a key expression"
    compileExpr d h.key
    let ttl ← resolveCacheTTL d h.ttl
    return .cacheScope h.key ttl
  | .aiRouter => do
    require (trimSpace h.prompt ≠ "") .missingField "ai-router block requires a prompt"
    resolveLLM d .aiRouter h.connector
    checkAll checkRoute [] es.routes
    return .aiRouter h.connector (buildRouterSystem h.prompt es.routes h.guardrail)
      (es.routes.map (·.name))
  | .aiAgent => do
    require (trimSpace h.prompt ≠ "") .missingField "ai-agent block requires a prompt"
    resolveLLM d .aiAgent h.connector
    checkAll (checkTool d) [] es.tools
    let memory ← configureAgentMemory d h
    return .aiAgent h.connector (buildAgentSystem h.prompt h.guardrail) (es.tools.map (toolDef d))
      (if h.maxIterations ≤ 0 then Octo.Agent.defaultAgentIterations else h.maxIterations) memory
  | .aiRetry => do
    require (trimSpace h.prompt ≠ "") .missingField "ai-retry block requires a prompt"
    resolveLLM d .aiRetry h.connector
    return .aiRetry h.connector (buildRetrySystem h.prompt)
      (if h.maxAttempts ≤ 0 then defaultRetryAttempts else h.maxAttempts)

/-! ## The builders -/

/-- The slots of these names; the others are taken to be empty. -/
def only {α β γ ρ τ : Type} (allowed : List String) (p : Parts α β γ ρ τ) : Parts α β γ ρ τ where
  process := if "process" ∈ allowed then p.process else []
  error := if "error" ∈ allowed then p.error else []
  branches := if "branches" ∈ allowed then p.branches else []
  then' := if "then" ∈ allowed then p.then' else none
  else' := if "else" ∈ allowed then p.else' else none
  cases := if "cases" ∈ allowed then p.cases else []
  default' := if "default" ∈ allowed then p.default' else none
  body := if "body" ∈ allowed then p.body else none
  routes := if "routes" ∈ allowed then p.routes else []
  tools := if "tools" ∈ allowed then p.tools else []

theorem only_eq {α β γ ρ τ : Type} {allowed : List String} {p : Parts α β γ ρ τ}
    (w : SlotsWithin p.shape allowed) : only allowed p = p := by
  have hlist : ∀ {γ : Type} {l : List γ} {n : String},
      (l.map (fun _ => ()) ≠ [] → n ∈ allowed) → (if n ∈ allowed then l else []) = l := by
    intro γ l n hset
    cases l <;> simp_all
  have hflow : ∀ {γ : Type} {o : Option γ} {n : String},
      (o.map (fun _ => ()) ≠ none → n ∈ allowed) → (if n ∈ allowed then o else none) = o := by
    intro γ o n hset
    cases o <;> simp_all
  exact Parts.ext (hlist w.process) (hlist w.error) (hlist w.branches) (hflow w.then')
    (hflow w.else') (hlist w.cases) (hflow w.default') (hflow w.body) (hlist w.routes)
    (hlist w.tools)

structure Accepts (k : Kind) (bp : Blueprint α β) (own : Own) (s : Slots α β) : Prop where
  built : Matches bp.toParts s
  required : k.Requires bp.shape
  allowed : ∀ n ∈ compositeSlots bp, n ∈ k.allowed
  params : k.params d bp.head bp.entryHeads = .ok own

variable {d} {bp : Blueprint α β} {own : Own} {s : Slots α β}

theorem checkAll_trivial (prev l : List γ) : checkAll (fun _ _ => .ok ()) prev l = .ok () := by
  induction l generalizing prev with
  | nil => rfl
  | cons x l ih => exact bind_eq_ok.2 ⟨(), rfl, ih _⟩

variable {k : Kind}

theorem build_eq_ok_iff_own : k.build d bp = .ok (own, s) ↔
    k.Requires bp.shape ∧ (∀ n ∈ compositeSlots bp, n ∈ k.allowed) ∧
      k.params d bp.head bp.entryHeads = .ok own ∧ Matches (only k.allowed bp.toParts) s := by
  obtain ⟨process, error, branches, then', else', cases, default', body, routes, tools⟩ := s
  -- the builders make the checks of `params` in between those of the slots
  cases k <;>
    simp +decide only [build, handleErrors, fork, ifBlock, switchBlock, foreachBlock, enrich,
      cacheScope, aiRouter, aiAgent, aiRetry, params, Kind.Requires, Matches, only, Parts.rel_iff,
      allowed, Parts.shape, Parts.map, entryHeads, bind_eq_ok, require_eq_ok,
      allowSlots_eq_ok, within_eq_ok, chain_eq_ok, optional_eq_ok, entries_eq_ok, checkAll_trivial,
      pure_eq_ok, list_set, flow_set, forall₂_map_left_iff, forall₂_nil_left_iff,
      optionRel_none_left, List.map_map, comp_def, if_true, if_false] <;>
    grind

theorem build_eq_ok_iff : k.build d bp = .ok (own, s) ↔ Accepts d k bp own s := by
  rw [build_eq_ok_iff_own]
  constructor
  · rintro ⟨hreq, hw, hparams, hown⟩
    rw [only_eq (compositeSlots_within.1 hw).2] at hown
    exact ⟨hown, hreq, hw, hparams⟩
  · rintro ⟨hm, hreq, hw, hparams⟩
    rw [only_eq (compositeSlots_within.1 hw).2]
    exact ⟨hreq, hw, hparams, hm⟩

/-! ## Any block -/

def allowedFor (type : String) : List String := ((Kind.ofType type).map Kind.allowed).getD []

def RequiredFor (type : String) (s : Shape) : Prop := ∀ k, Kind.ofType type = some k → k.Requires s

variable (d) in
/-- What a block of a type holds: a leaf its settings, a composite what its fields say. -/
def paramsFor (type : String) (settings : Settings) (h : BlockHead) (es : EntryHeads) :
    Build Own :=
  match Kind.ofType type with
  | some kind => kind.params d h es
  | none => do
    d.factory type fun key => settings.lookup key
    return .leaf fun key => settings.lookup key

theorem matches_leaf_iff (hw : compositeSlots bp = []) : Matches bp.toParts s ↔ {} = s := by
  have w : SlotsWithin bp.shape [] := by
    apply (compositeSlots_within.1 _).2
    simp [hw]
  rw [← only_eq w, Matches, Parts.ext_iff]
  simp [Parts.rel_iff, only, optionRel_none_left, eq_comm]

theorem processor_eq_ok_iff {type : String} {settings : Settings} :
    processor d bp type settings = .ok (own, s) ↔
      Matches bp.toParts s ∧ RequiredFor type bp.shape ∧ (∀ n ∈ compositeSlots bp, n ∈ allowedFor type) ∧
        paramsFor d type settings bp.head bp.entryHeads = .ok own := by
  unfold processor RequiredFor allowedFor paramsFor
  cases hk : ofType type with
  | some k =>
    rw [build_eq_ok_iff]
    constructor
    · rintro ⟨hm, hreq, hw, hparams⟩
      exact ⟨hm, by rintro _ ⟨rfl⟩; exact hreq, hw, hparams⟩
    · rintro ⟨hm, hreq, hw, hparams⟩
      exact ⟨hm, hreq k rfl, hw, hparams⟩
  | none =>
    simp only [rejectCompositeSlots, bind_eq_ok, require_eq_ok, pure_eq_ok, List.isEmpty_iff,
      Prod.mk.injEq, map_none, getD_none, not_mem_nil, exists_const, reduceCtorEq, false_implies, implies_true, true_and]
    constructor
    · rintro ⟨hw, _, hf, rfl, rfl⟩
      exact ⟨(matches_leaf_iff hw).2 rfl, by simp [hw], _, hf, rfl⟩
    · rintro ⟨hm, hw, _, hf, rfl⟩
      have hw := eq_nil_iff_forall_not_mem.2 hw
      exact ⟨hw, _, hf, rfl, (matches_leaf_iff hw).1 hm⟩

theorem construct_eq_ok_iff {defs : List ProcessorConfig} {b : Built α β} :
    construct d defs bp = .ok b ↔
      (bp.head.type ≠ "" ∨ bp.head.ref ≠ "") ∧ b.name = bp.head.name ∧ Matches bp.toParts b.slots ∧
        RequiredFor b.type bp.shape ∧ (∀ n ∈ compositeSlots bp, n ∈ allowedFor b.type) ∧
          ∃ settings, resolve defs bp.head = .ok (b.type, settings) ∧
            paramsFor d b.type settings bp.head bp.entryHeads = .ok b.own := by
  simp only [construct, bind_eq_ok, require_eq_ok, pure_eq_ok, within_eq_ok, exists_const,
    Prod.exists, processor_eq_ok_iff, decide_eq_true_eq]
  constructor
  · rintro ⟨htyped, type, settings, hres, own, s, ⟨hm, hreq, hw, hparams⟩, rfl⟩
    exact ⟨htyped, rfl, hm, hreq, hw, settings, hres, hparams⟩
  · rintro ⟨htyped, hname, hm, hreq, hw, settings, hres, hparams⟩
    exact ⟨htyped, b.type, settings, hres, b.own, b.slots, ⟨hm, hreq, hw, hparams⟩, by rw [← hname]⟩

theorem required_set {h : BlockHead} {es : EntryHeads} (hp : k.params d h es = .ok own) :
    ("condition" ∈ k.allowed → h.condition ≠ "") ∧ ("items" ∈ k.allowed → h.items ≠ "") ∧
      ("key" ∈ k.allowed → h.key ≠ "") ∧ ("connector" ∈ k.allowed → h.connector ≠ "") ∧
      ("prompt" ∈ k.allowed → h.prompt ≠ "") := by
  have hprompt : trimSpace h.prompt ≠ "" → h.prompt ≠ "" := by
    intro hne heq
    exact hne (by rw [heq]; decide)
  have hllm : ∀ {k : Kind} {u : Unit}, resolveLLM d k h.connector = .ok u → h.connector ≠ "" := by
    intro k u hr
    simp only [resolveLLM, bind_eq_ok, require_eq_ok, decide_eq_true_eq] at hr
    obtain ⟨_, hne, -⟩ := hr
    exact hne
  cases k with
  | handleErrors | fork | switch | enrich =>
    refine ⟨?_, ?_, ?_, ?_, ?_⟩ <;> exact fun hn => absurd hn (by decide)
  | ifBlock =>
    simp only [params, bind_eq_ok, require_eq_ok, decide_eq_true_eq] at hp
    obtain ⟨_, hne, -⟩ := hp
    refine ⟨fun _ => hne, ?_, ?_, ?_, ?_⟩ <;> exact fun hn => absurd hn (by decide)
  | foreach =>
    simp only [params, bind_eq_ok, require_eq_ok, decide_eq_true_eq] at hp
    obtain ⟨_, hne, -⟩ := hp
    refine ⟨?_, fun _ => hne, ?_, ?_, ?_⟩ <;> exact fun hn => absurd hn (by decide)
  | cacheScope =>
    simp only [params, bind_eq_ok, require_eq_ok, decide_eq_true_eq] at hp
    obtain ⟨_, hne, -⟩ := hp
    refine ⟨?_, ?_, fun _ => hne, ?_, ?_⟩ <;> exact fun hn => absurd hn (by decide)
  | aiRouter | aiAgent | aiRetry =>
    simp only [params, bind_eq_ok, require_eq_ok, decide_eq_true_eq] at hp
    obtain ⟨_, hp, _, hr, -⟩ := hp
    refine ⟨?_, ?_, ?_, fun _ => hllm hr, fun _ => hprompt hp⟩ <;>
      exact fun hn => absurd hn (by decide)

/-! ## Optional fields -/

structure SameRequired (h h' : BlockHead) : Prop where
  condition : h'.condition = h.condition
  items : h'.items = h.items
  key : h'.key = h.key
  connector : h'.connector = h.connector
  prompt : h'.prompt = h.prompt

variable (d) in
/-- The optional fields of a kind come to the same in two heads, defaults filled in. -/
def Kind.SameOptions (h h' : BlockHead) : Kind → Prop
  | .foreach =>
    (if h'.as' = "" then defaultForeachVar else h'.as') =
      (if h.as' = "" then defaultForeachVar else h.as')
  | .enrich => h'.setBody = h.setBody ∧ h'.setVars = h.setVars
  | .cacheScope => resolveCacheTTL d h'.ttl = resolveCacheTTL d h.ttl
  | .aiRouter => trimSpace h'.guardrail = trimSpace h.guardrail
  | .aiAgent =>
    trimSpace h'.guardrail = trimSpace h.guardrail ∧
      (if h'.maxIterations ≤ 0 then (Octo.Agent.defaultAgentIterations : Int)
        else h'.maxIterations) =
        (if h.maxIterations ≤ 0 then (Octo.Agent.defaultAgentIterations : Int)
          else h.maxIterations) ∧
      configureAgentMemory d h' = configureAgentMemory d h
  | .aiRetry =>
    (if h'.maxAttempts ≤ 0 then defaultRetryAttempts else h'.maxAttempts) =
      (if h.maxAttempts ≤ 0 then defaultRetryAttempts else h.maxAttempts)
  | .handleErrors | .fork | .ifBlock | .switch => True

theorem guidance_inj {pre label g g' : String} :
    (pre ++ if g' ≠ "" then label ++ g' else "") = (pre ++ if g ≠ "" then label ++ g else "") ↔
      g' = g := by
  rw [String.append_right_inj]
  by_cases h : g = "" <;> by_cases h' : g' = ""
  · simp [h, h']
  · simp [h, h']
  · simp [h, h']
  · simp [h, h']

variable {prompt g g' : String}

theorem buildRouterSystem_inj {routes : List RouteHead} :
    buildRouterSystem prompt routes g' = buildRouterSystem prompt routes g ↔
      trimSpace g' = trimSpace g :=
  guidance_inj

theorem buildAgentSystem_inj :
    buildAgentSystem prompt g' = buildAgentSystem prompt g ↔ trimSpace g' = trimSpace g :=
  guidance_inj

variable {h h' : BlockHead} {es : EntryHeads}

/-- **Two heads that agree on the required fields build the same block exactly when their
optional fields come to the same.** -/
theorem params_agree_iff (hr : SameRequired h h') (hp : k.params d h es = .ok own) :
    k.params d h' es = .ok own ↔ k.SameOptions d h h' := by
  obtain ⟨hcondition, hitems, hkey, hconnector, hprompt⟩ := hr
  cases k with
  | handleErrors => exact iff_of_true hp trivial
  | fork => exact iff_of_true hp trivial
  | ifBlock =>
    simp only [params, hcondition, Kind.SameOptions, iff_true] at hp ⊢
    exact hp
  | switch => exact iff_of_true hp trivial
  | foreach =>
    simp only [params, Kind.SameOptions, hitems, bind_eq_ok, pure_eq_ok] at hp ⊢
    obtain ⟨_, hne, _, hcompile, rfl⟩ := hp
    simp only [hne, hcompile, exists_const, foreach.injEq, true_and]
  | enrich =>
    simp only [params, bind_eq_ok, pure_eq_ok] at hp ⊢
    obtain ⟨_, hset, _, hvars, rfl⟩ := hp
    constructor
    · rintro ⟨_, hset', _, hvars', heq⟩
      obtain ⟨hb, hv⟩ := enrich.inj heq
      refine ⟨?_, hv⟩
      by_cases he : h.setBody = "" <;> by_cases he' : h'.setBody = "" <;> simp_all
    · rintro ⟨hb, hv⟩
      rw [hb, hv]
      exact ⟨_, hset, _, hvars, rfl⟩
  | cacheScope =>
    simp only [params, Kind.SameOptions, hkey, bind_eq_ok, pure_eq_ok] at hp ⊢
    obtain ⟨_, hne, _, hcompile, ttl, httl, rfl⟩ := hp
    simp only [hne, hcompile, httl, exists_const, cacheScope.injEq, true_and, exists_eq_right]
  | aiRouter =>
    simp only [params, Kind.SameOptions, hprompt, hconnector, bind_eq_ok, pure_eq_ok] at hp ⊢
    obtain ⟨_, hne, _, hllm, _, hall, rfl⟩ := hp
    simp only [hne, hllm, hall, exists_const, aiRouter.injEq, true_and,
      and_true, buildRouterSystem_inj]
  | aiAgent =>
    simp only [params, Kind.SameOptions, hprompt, hconnector, bind_eq_ok, pure_eq_ok] at hp ⊢
    obtain ⟨_, hne, _, hllm, _, hall, memory, hmemory, rfl⟩ := hp
    simp only [hne, hllm, hall, hmemory, exists_const, aiAgent.injEq,
      true_and, buildAgentSystem_inj]
    constructor
    · rintro ⟨m, hm, hg, hi, rfl⟩
      exact ⟨hg, hi, hm⟩
    · rintro ⟨hg, hi, hm⟩
      exact ⟨memory, hm, hg, hi, rfl⟩
  | aiRetry =>
    simp only [params, Kind.SameOptions, hprompt, hconnector, bind_eq_ok, pure_eq_ok] at hp ⊢
    obtain ⟨_, hne, _, hllm, rfl⟩ := hp
    simp only [hne, hllm, exists_const, aiRetry.injEq, true_and]

end

end Octo.Engine
