import Mathlib.Data.List.Nodup
import Octo.Engine.Kinds
import Octo.Runtime.Service

/-!
# What a service binds and starts

Each source is resolved against the connectors that run, and resolving one may start a default
connector under the name of its type, which later sources find by name.

* `resolveConnector_grown` — defaults that run already do not change what a source is bound to.
* `sources_bound_in_any_order` — the order of the flows decides neither the bindings nor what runs.
* `invoke_mode_iff` — when invoke mode skips exactly the connectors that only sources use.
-/

namespace Octo.Runtime

open List (mem_map mem_singleton_self find?_eq_none find?_some mem_of_find?_eq_some mem_reverse)
open Octo.Types ConnectorSet Host Octo.Engine Octo.Foundation.Traverse

/-! ## How the runtime resolves a name -/

section Resolve

variable {host : Host} {set : ConnectorSet} {src : SourceConfig} {c : ConnectorConfig}

theorem outside_eq_ok {x : Except String Unit} {u : Unit} : outside x = .ok u ↔ x = .ok () := by
  cases x <;> simp [outside, Except.mapError]

theorem startConnectors_ok : ∀ {configs started running : List ConnectorConfig},
    host.startConnectors started configs = .ok running ↔
      (∀ c ∈ configs, host.registered c.type ∧ host.start c = .ok ()) ∧ running = configs.reverse ++ started
  | [], started, running => by
    rw [startConnectors, eq_comm]
    simp
  | c :: configs, started, running => by
    simp only [startConnectors, bind_eq_ok, within_eq_ok, outside_eq_ok,
      startConnectors_ok]
    simp [and_assoc]

theorem choose_named (hne : src.connector ≠ "") (h : set.lookup src.connector = some c) :
    host.choose set src = .ok (.running c) := by
  simp [choose, hne, h]

theorem choose_type (hne : src.connector ≠ "") (hreg : host.registered src.connector)
    (h : set.lookup src.connector = none) {only : List String} (hle : only.length ≤ 1)
    (hconfigured : set.configuredOfType src.connector = only) : host.choose set src =
      .ok ((only.head?.bind set.lookup).elim (set.orDefault src.connector) .running) := by
  have htype : host.desiredType src = src.connector := by simp [desiredType, hne, hreg]
  rcases only with _ | ⟨name, _ | _⟩
  · simp [choose, hne, h, htype, hconfigured, require, bind, Except.bind]
  · simp [choose, hne, h, htype, hconfigured, require, bind, Except.bind]
  · simp at hle

theorem resolveConnector_of_running (h : host.choose set src = .ok (.running c)) :
    host.resolveConnector set src = .ok (c, set) := by
  rw [resolveConnector, h]
  rfl

theorem resolveConnector_of_default {type : String} {r : ConnectorConfig × ConnectorSet}
    (h : host.choose set src = .ok (.default type)) (hreg : host.registered type) :
    host.resolveConnector set src = .ok r ↔ host.start ⟨type, type, []⟩ = .ok () ∧
      r = (⟨type, type, []⟩, { set with running := ⟨type, type, []⟩ :: set.running }) := by
  rw [resolveConnector, h, bind_eq_ok]
  simp only [Except.ok.injEq, exists_eq_left', bind_eq_ok, require_eq_ok, within_eq_ok, pure_eq_ok,
    hreg, outside_eq_ok]
  simp [eq_comm]

end Resolve

/-! ## Resolving one source after another -/

/-- What each source is bound to, and the connectors that run in the end; a source that fails leaves
the set as it is. -/
def Host.resolveSources (host : Host) : ConnectorSet → List SourceConfig →
    List (SourceConfig × Build ConnectorConfig) × ConnectorSet
  | set, [] => ([], set)
  | set, src :: rest =>
    match host.resolveConnector set src with
    | .ok (c, set') => ((src, .ok c) :: (host.resolveSources set' rest).1, (host.resolveSources set' rest).2)
    | .error e => ((src, .error e) :: (host.resolveSources set rest).1, (host.resolveSources set rest).2)

abbrev ConnectorSet.initial (configs : List ConnectorConfig) : ConnectorSet := ⟨configs, configs.reverse⟩

variable (host : Host)

def Host.binding (configs : List ConnectorConfig) (src : SourceConfig) :
    Build ConnectorConfig :=
  (host.resolveConnector (.initial configs) src).map (·.1)

theorem binding_running {host : Host} {configs : List ConnectorConfig} {src : SourceConfig}
    {c : ConnectorConfig} (hne : src.connector ≠ "")
    (h : (initial configs).lookup src.connector = some c) :
    host.binding configs src = .ok c := by
  rw [binding, resolveConnector_of_running (choose_named hne h)]
  rfl

def ConnectorSet.ensure (set : ConnectorSet) (c : ConnectorConfig) : ConnectorSet :=
  if (set.lookup c.name).isSome then set else { set with running := c :: set.running }

/-- A default connector that starts, of a type that no configured connector has or is named like. -/
structure Host.Startable (host : Host) (configs : List ConnectorConfig) (c : ConnectorConfig) : Prop where
  default : c = ⟨c.name, c.name, []⟩
  registered : host.registered c.name
  starts : host.start c = .ok ()
  unclaimed : ∀ c' ∈ configs, c'.name ≠ c.name ∧ c'.type ≠ c.name

/-- The configured connectors run, and besides them only such defaults, each started once. -/
structure Host.Grown (host : Host) (configs : List ConnectorConfig) (set : ConnectorSet) : Prop where
  configured : set.configs = configs
  running : ∃ defaults, set.running = defaults ++ configs.reverse ∧
    (∀ e ∈ defaults, host.Startable configs e) ∧ (defaults.map (·.name)).Nodup

section Grown

variable {host : Host} {configs : List ConnectorConfig} {set : ConnectorSet} {src : SourceConfig}
  {c : ConnectorConfig} {name : String}

theorem grown_initial : host.Grown configs (.initial configs) := ⟨rfl, [], rfl, by simp⟩

theorem ConnectorSet.of_lookup (h : set.lookup name = some c) : c ∈ set.running ∧ c.name = name :=
  ⟨mem_of_find?_eq_some h, by simpa using find?_some h⟩

theorem ensure_running (h : set.lookup name = some c) : set.ensure c = set := by
  simp [ensure, (of_lookup h).2, h]

theorem lookup_initial (hc : c ∈ configs) : ∃ c', (initial configs).lookup c.name = some c' :=
  Option.isSome_iff_exists.1 (List.find?_isSome.2 ⟨c, mem_reverse.2 hc, by simp⟩)

theorem Host.Startable.lookup_initial (h : host.Startable configs c) :
    (initial configs).lookup c.name = none :=
  find?_eq_none.2 fun c' hc' => by simpa using (h.unclaimed c' (mem_reverse.1 hc')).1

theorem registered_desiredType (h : host.desiredType src ≠ "") :
    host.registered (host.desiredType src) := by
  unfold desiredType at h ⊢
  split
  · exact And.right ‹_›
  · split
    · exact And.right ‹_›
    · simp_all

/-- With only the configured connectors running, what is chosen is one of them, or a default of a
type that none of them has or is named like. -/
theorem choose_initial {choice : Choice} (h : host.choose (.initial configs) src = .ok choice) :
    (∃ name c, (initial configs).lookup name = some c ∧ choice = .running c) ∨
      ∃ type, choice = .default type ∧ (initial configs).lookup type = none ∧
        host.registered type ∧ ∀ c ∈ configs, c.name ≠ type ∧ c.type ≠ type := by
  unfold choose at h
  split at h
  next hlookup =>
    cases h
    exact .inl ⟨_, _, (Option.ite_none_right_eq_some.1 hlookup).2, rfl⟩
  obtain ⟨_, hne, h⟩ := bind_eq_ok.1 h
  have hne : host.desiredType src ≠ "" := by simpa using hne
  split at h
  next hmatch =>
    cases h
    unfold orDefault
    cases hlookup : (initial configs).lookup (host.desiredType src) with
    | some c => exact .inl ⟨_, c, hlookup, rfl⟩
    | none =>
      refine .inr ⟨_, rfl, hlookup, registered_desiredType hne, fun c hc => ⟨?_, ?_⟩⟩
      · simpa using find?_eq_none.1 hlookup c (mem_reverse.2 hc)
      · simp only [configuredOfType, List.map_eq_nil_iff, List.filter_eq_nil_iff] at hmatch
        simpa using hmatch c hc
  next name hmatch =>
    obtain ⟨c, hc, rfl⟩ := mem_map.1 (hmatch ▸ mem_singleton_self name)
    obtain ⟨c', hc'⟩ := lookup_initial (List.mem_of_mem_filter hc)
    rw [hc'] at h
    cases h
    exact .inl ⟨_, c', hc', rfl⟩
  · cases h

variable (h : host.Grown configs set)
include h

theorem Host.Grown.lookup (name : String) :
    set.lookup name = (initial configs).lookup name ∨
      (initial configs).lookup name = none ∧ set.lookup name = some ⟨name, name, []⟩ ∧
        host.Startable configs ⟨name, name, []⟩ := by
  obtain ⟨defaults, hrunning, hdefaults, -⟩ := h.running
  have hlookup : set.lookup name =
      (defaults.find? (·.name = name)).or ((initial configs).lookup name) := by
    rw [ConnectorSet.lookup, hrunning, List.find?_append]
    rfl
  cases hfind : defaults.find? (·.name = name) with
  | none => exact .inl (by rw [hlookup, hfind, Option.none_or])
  | some e =>
    have hd := hdefaults e (mem_of_find?_eq_some hfind)
    obtain rfl : e.name = name := by simpa using find?_some hfind
    rw [← hd.default]
    exact .inr ⟨hd.lookup_initial, by rw [hlookup, hfind, Option.some_or], hd⟩

theorem Host.Grown.lookup_eq
    (hc : (initial configs).lookup name = some c) : set.lookup name = some c := by
  rcases h.lookup name with hsame | ⟨hnone, -⟩
  · rw [hsame, hc]
  · simp [hnone] at hc

theorem choose_grown (src : SourceConfig) :
    host.choose set src = (host.choose (.initial configs) src).map fun
      | .running c => .running c
      | .default type => set.orDefault type := by
  rcases h.lookup src.connector with hsame | ⟨hnone, hlookup, hd⟩
  · unfold choose
    rw [hsame]
    split
    · rfl
    simp only [configuredOfType, h.configured]
    by_cases hempty : host.desiredType src = ""
    · simp [hempty, require, Except.map, bind, Except.bind]
    simp only [require, hempty, ne_eq, not_false_eq_true, decide_true, if_true, bind, Except.bind]
    split
    · cases hlookup : (initial configs).lookup (host.desiredType src) with
      | none => simp [orDefault, hlookup, Except.map]
      | some => simp [orDefault, hlookup, h.lookup_eq hlookup, Except.map]
    next name hmatch =>
      obtain ⟨c, hc, rfl⟩ := mem_map.1 (hmatch ▸ mem_singleton_self name)
      obtain ⟨c', hc'⟩ := lookup_initial (List.mem_of_mem_filter hc)
      simp [h.lookup_eq hc', hc', Except.map]
    · rfl
  · -- a default found by name is the one its type leads to
    have hne : src.connector ≠ "" := fun hempty => by
      simpa [hempty, host.registered_empty] using hd.registered
    have hconfigured : (initial configs).configuredOfType src.connector = [] := by
      simpa [configuredOfType] using fun c hc => (hd.unclaimed c hc).2
    rw [choose_named hne hlookup, choose_type hne hd.registered hnone (by simp) hconfigured]
    simp [orDefault, hnone, hlookup, Except.map]

theorem resolveConnector_grown (src : SourceConfig) :
    host.resolveConnector set src = (host.binding configs src).map fun c => (c, set.ensure c) := by
  have hchoose := choose_grown h src
  cases hinitial : host.choose (.initial configs) src with
  | error =>
    rw [hinitial] at hchoose
    simp [binding, resolveConnector, hchoose, hinitial, Except.map, bind, Except.bind]
  | ok choice =>
    rw [hinitial] at hchoose
    rcases choose_initial hinitial with ⟨name, c, hc, rfl⟩ | ⟨type, rfl, hnone, hreg, -⟩
    · rw [binding, resolveConnector_of_running hinitial, resolveConnector_of_running hchoose]
      simp [Except.map, ensure_running (h.lookup_eq hc)]
    rcases h.lookup type with hsame | ⟨-, hlookup, hd⟩
    · have hlookup : set.lookup type = none := hsame.trans hnone
      have hdefault : host.choose set src = .ok (.default type) := by
        simp [hchoose, Except.map, orDefault, hlookup]
      cases hstart : host.start ⟨type, type, []⟩ <;>
        simp [binding, resolveConnector, hinitial, hdefault, ensure, hlookup, require, hreg, hstart,
          outside, within, Except.map, Except.mapError, bind, Except.bind, pure, Except.pure]
    · -- it is a default that started before, so it would start now
      have hrunning : host.choose set src = .ok (.running ⟨type, type, []⟩) := by
        simp [hchoose, Except.map, orDefault, hlookup]
      rw [resolveConnector_of_running hrunning, binding,
        (resolveConnector_of_default hinitial hreg).2 ⟨hd.starts, rfl⟩]
      simp [Except.map, ensure_running hlookup]

omit h

theorem binding_ok (h : host.binding configs src = .ok c) : c ∈ configs ∨ host.Startable configs c := by
  obtain ⟨r, hresolve, rfl⟩ := map_eq_ok.1 h
  obtain ⟨choice, hchoose, -⟩ := bind_eq_ok.1 hresolve
  rcases choose_initial hchoose with ⟨name, c, hc, rfl⟩ | ⟨type, rfl, -, hreg, hunclaimed⟩
  · cases (resolveConnector_of_running hchoose).symm.trans hresolve
    exact .inl (mem_reverse.1 (of_lookup hc).1)
  · obtain ⟨hstart, rfl⟩ := (resolveConnector_of_default hchoose hreg).1 hresolve
    exact .inr ⟨rfl, hreg, hstart, hunclaimed⟩

theorem Host.Grown.grow (h : host.Grown configs set) (hc : c ∈ configs ∨ host.Startable configs c) :
    host.Grown configs (set.ensure c) ∧ ∀ e, e ∈ (set.ensure c).running ↔ e ∈ set.running ∨ e = c := by
  obtain ⟨defaults, hrunning, hdefaults, hnodup⟩ := h.running
  have hmem : c ∈ configs → c ∈ set.running := fun hc => by simp [hrunning, hc]
  unfold ensure
  split
  next hsome =>
    refine ⟨h, fun e => ⟨.inl, fun he => he.elim id fun he => he ▸ hc.elim hmem fun hd => ?_⟩⟩
    rcases h.lookup c.name with hsame | ⟨-, hlookup, -⟩
    · simp [hsame, hd.lookup_initial] at hsome
    · rw [← hd.default] at hlookup
      exact (of_lookup hlookup).1
  next hnone =>
    have hnone : ∀ e ∈ set.running, e.name ≠ c.name := by
      simpa [ConnectorSet.lookup] using hnone
    have hd := hc.resolve_left fun hc => hnone c (hmem hc) rfl
    refine ⟨⟨h.configured, c :: defaults, by simp [hrunning], by simpa [hd] using hdefaults, ?_⟩,
      fun e => List.mem_cons.trans or_comm⟩
    refine List.nodup_cons.2 ⟨fun hname => ?_, hnodup⟩
    obtain ⟨e, he, hname⟩ : ∃ e ∈ defaults, e.name = c.name := mem_map.1 hname
    exact hnone e (by simp [hrunning, he]) hname

theorem Host.Grown.resolved {set' : ConnectorSet} (h : host.Grown configs set)
    (hresolve : host.resolveConnector set src = .ok (c, set')) : host.Grown configs set' := by
  rw [resolveConnector_grown h] at hresolve
  obtain ⟨c', hbinding, hr⟩ := map_eq_ok.1 hresolve
  cases hr
  exact (h.grow (binding_ok hbinding)).1

/-- **Each source is bound as if it were the first**, and the connectors that run in the end are
those that ran and those that were bound. -/
theorem resolveSources_grown : ∀ (sources : List SourceConfig) {set : ConnectorSet},
    host.Grown configs set →
      (host.resolveSources set sources).1 = sources.map (fun src => (src, host.binding configs src)) ∧
      host.Grown configs (host.resolveSources set sources).2 ∧
      ∀ e, e ∈ (host.resolveSources set sources).2.running ↔
        e ∈ set.running ∨ ∃ src ∈ sources, host.binding configs src = .ok e
  | [], set, h => ⟨rfl, h, by simp [resolveSources]⟩
  | src :: sources, set, h => by
    have hresolve := resolveConnector_grown h src
    cases hbinding : host.binding configs src with
    | error e =>
      rw [hbinding] at hresolve
      obtain ⟨hbound, hgrown, hmem⟩ := resolveSources_grown sources h
      simp only [resolveSources, hresolve, Except.map]
      exact ⟨by simp [hbound, hbinding], hgrown, fun e => by simp [hmem, hbinding]⟩
    | ok c =>
      rw [hbinding] at hresolve
      obtain ⟨h', hrunning⟩ := h.grow (binding_ok hbinding)
      obtain ⟨hbound, hgrown, hmem⟩ := resolveSources_grown sources h'
      simp only [resolveSources, hresolve, Except.map]
      refine ⟨by simp [hbound, hbinding], hgrown, fun e => ?_⟩
      simp [hmem, hrunning, hbinding, or_assoc, eq_comm]

theorem Host.Grown.nodup (h : host.Grown configs set) (hnames : (configs.map (·.name)).Nodup) :
    (set.running.map (·.name)).Nodup := by
  obtain ⟨defaults, hrunning, hdefaults, hnodup⟩ := h.running
  rw [hrunning, List.map_append, List.map_reverse]
  refine List.nodup_append.2 ⟨hnodup, List.nodup_reverse.2 hnames, fun n hn n' hn' hname => ?_⟩
  obtain ⟨d, hd, rfl⟩ := mem_map.1 hn
  obtain ⟨c, hc, rfl⟩ := mem_map.1 (mem_reverse.1 hn')
  exact ((hdefaults d hd).unclaimed c hc).1 hname.symm

/-- **The order of the flows decides neither what a source is bound to nor what runs**: in any order
each source is bound to the same connector or fails, and the same connectors have been started, no
two of them under one name. -/
theorem sources_bound_in_any_order {running : List ConnectorConfig}
    (hnames : (configs.map (·.name)).Nodup) (hstart : host.startConnectors [] configs = .ok running)
    {flows flows' : List FlowConfig} (hperm : flows.Perm flows') :
    let sources := flows.filterMap (·.source)
    let sources' := flows'.filterMap (·.source)
    let bound := host.resolveSources ⟨configs, running⟩ sources
    let bound' := host.resolveSources ⟨configs, running⟩ sources'
    (∃ binding : SourceConfig → Build ConnectorConfig,
      bound.1 = sources.map (fun src => (src, binding src)) ∧
      bound'.1 = sources'.map (fun src => (src, binding src))) ∧
    bound.2.running.Perm bound'.2.running ∧ (bound.2.running.map (·.name)).Nodup := by
  intro sources sources' bound bound'
  obtain rfl : running = configs.reverse := by simpa using (startConnectors_ok.1 hstart).2
  have h₀ : host.Grown configs (.initial configs) := grown_initial
  obtain ⟨hbound, hgrown, hmem⟩ := resolveSources_grown sources h₀
  obtain ⟨hbound', hgrown', hmem'⟩ := resolveSources_grown sources' h₀
  have hnodup := hgrown.nodup hnames
  refine ⟨⟨host.binding configs, hbound, hbound'⟩, ?_, hnodup⟩
  refine (List.perm_ext_iff_of_nodup (.of_map _ hnodup) (.of_map _ (hgrown'.nodup hnames))).2 fun e => ?_
  have hsources : sources.Perm sources' := hperm.filterMap _
  simp [hmem, hmem', hsources.mem_iff]

def willingHost : Host where
  truncate := fun _ => none
  unmarshal := fun text => some (.str text)
  lookupEnv := fun _ => none
  registered := fun type => type ≠ ""
  registered_empty := rfl
  start := fun _ => .ok ()
  provides := fun _ => true
  newSource := fun _ _ _ => .ok ()
  compile := fun _ => .ok ()
  validJSON := fun _ => true
  parseDuration := fun _ => some 0
  isLLM := fun _ => true
  factory := fun _ _ _ _ => .ok ()

/-- Two flows that ask for an `http` connector in different words. -/
def httpFlows : List FlowConfig :=
  [⟨"a", some ⟨"", "http", []⟩, [], [], 0, 0, 0⟩, ⟨"b", some ⟨"http", "webhook", []⟩, [], [], 0, 0, 0⟩]

theorem httpFlows_share :
    let bound := willingHost.resolveSources ⟨[], []⟩ (httpFlows.filterMap (·.source))
    let bound' := willingHost.resolveSources ⟨[], []⟩ (httpFlows.reverse.filterMap (·.source))
    bound.1.map (·.2) = [.ok ⟨"http", "http", []⟩, .ok ⟨"http", "http", []⟩] ∧
      bound.2.running.Perm bound'.2.running ∧ (bound.2.running.map (·.name)).Nodup := by
  have hnames : (([] : List ConnectorConfig).map (·.name)).Nodup := List.nodup_nil
  exact ⟨rfl, (sources_bound_in_any_order hnames rfl (List.reverse_perm httpFlows).symm).2⟩

end Grown

/-! ## Invoke mode -/

variable (cfg : Types.Config)

/-- `startConnectors` in invoke mode: connectors that a source names are skipped. -/
def Host.startInvoke : Build (List ConnectorConfig) :=
  host.startConnectors [] (cfg.connectors.filter fun c => c.name ∉ sourceConnectorNames cfg.flows)

def connectorSetting (type : String) : Option String :=
  if type = "log" then some "logger"
  else if type ∈ ["sql", "rest", "ai-mapping", "slack-send-message", "slack-update-message",
    "slack-add-reaction", "slack-lookup-user", "slack-verify-request"] then some "connector"
  else none

/-- The connector a block refers to; an empty name is no reference. -/
def connectorRef (defs : List ProcessorConfig) (h : BlockHead) : Option String :=
  match resolve defs h with
  | .error _ => none
  | .ok (type, settings) =>
    if type ∈ ["ai-router", "ai-agent", "ai-retry"] then some h.connector
    else (connectorSetting type).bind fun key => settings.lookup key >>= fun
      | .str name => if name = "" then none else some name
      | _ => none

def slotChains (b : BlockConfig) : List (List BlockConfig) :=
  let flows := b.branches ++ b.then'.toList ++ b.else'.toList ++ b.cases.map (·.flow) ++
    b.default'.toList ++ b.body.toList
  [b.process, b.error] ++ flows.flatMap (fun f => [f.process, f.error]) ++ b.routes.map (·.process) ++
    b.tools.map (·.process)

inductive InChain (b : BlockConfig) : List BlockConfig → Prop where
  | here {chain : List BlockConfig} (h : b ∈ chain) : InChain b chain
  | nested {chain slot : List BlockConfig} {c : BlockConfig} (hc : c ∈ chain) (hslot : slot ∈ slotChains c)
      (h : InChain b slot) : InChain b chain

def Referred (name : String) : Prop :=
  ∃ f ∈ cfg.flows, ∃ b, (InChain b f.process ∨ InChain b f.error) ∧
    connectorRef cfg.processors b.head = some name

def Host.BoundToSource (c : ConnectorConfig) : Prop :=
  ∃ f ∈ cfg.flows, ∃ src, f.source = some src ∧ host.binding cfg.connectors src = .ok c

section Invoke

variable {host : Host} {cfg : Types.Config}

theorem mem_sourceConnectorNames {flows : List FlowConfig} {name : String} :
    name ∈ sourceConnectorNames flows ↔
      name ≠ "" ∧ ∃ f ∈ flows, ∃ src, f.source = some src ∧ src.connector = name := by
  simp [sourceConnectorNames, and_comm]

theorem boundToSource_of_named (hnames : (cfg.connectors.map (·.name)).Nodup) {c : ConnectorConfig}
    (hc : c ∈ cfg.connectors) (h : c.name ∈ sourceConnectorNames cfg.flows) : host.BoundToSource cfg c := by
  obtain ⟨hne, f, hf, src, hsrc, hname⟩ := mem_sourceConnectorNames.1 h
  obtain ⟨c', hlookup⟩ := lookup_initial hc
  obtain ⟨hc', hname'⟩ := of_lookup hlookup
  obtain rfl := List.inj_on_of_nodup_map hnames (mem_reverse.1 hc') hc hname'
  exact ⟨f, hf, src, hsrc, binding_running (hname ▸ hne) (hname ▸ hlookup)⟩

/-- **Invoke mode skips exactly the connectors that only sources use** when no source names a
connector that a block refers to, and a connector that only sources use is named by one of them. -/
theorem invoke_mode_iff {flows : List ServiceFlow} (hnames : (cfg.connectors.map (·.name)).Nodup)
    (hbuild : host.build cfg = .ok flows) : ∃ running, host.startInvoke cfg = .ok running ∧
      ((∀ c ∈ cfg.connectors, c ∉ running ↔ host.BoundToSource cfg c ∧ ¬Referred cfg c.name) ↔
        ∀ c ∈ cfg.connectors, (c.name ∈ sourceConnectorNames cfg.flows → ¬Referred cfg c.name) ∧
          (host.BoundToSource cfg c → ¬Referred cfg c.name → c.name ∈ sourceConnectorNames cfg.flows)) := by
  obtain ⟨_, hstart, -⟩ := bind_eq_ok.1 hbuild
  have hall := (startConnectors_ok.1 hstart).1
  refine ⟨_, startConnectors_ok.2 ⟨fun c hc => hall c (List.mem_of_mem_filter hc), rfl⟩, ?_⟩
  refine forall₂_congr fun c hc => ?_
  have hskipped : c ∉ (cfg.connectors.filter fun c => c.name ∉ sourceConnectorNames cfg.flows).reverse ++ [] ↔
      c.name ∈ sourceConnectorNames cfg.flows := by simp [hc]
  have hbound : _ → host.BoundToSource cfg c := boundToSource_of_named hnames hc
  tauto

/-- A flow with an `http` source, and a connector for it. -/
def webConfig (connector : String) : Types.Config where
  service := ⟨"", ""⟩
  env := []
  connectors := [⟨"web", "http", []⟩]
  processors := []
  flows := [⟨"orders", some ⟨connector, "http", []⟩, [], [], 0, 0, 0⟩]
  resolvedEnv := []

theorem webConfig_not_referred (connector name : String) : ¬Referred (webConfig connector) name := by
  rintro ⟨f, hf, b, hb, -⟩
  have hnone : ¬InChain b [] := by
    rintro (⟨⟨⟩⟩ | ⟨⟨⟩, -, -⟩)
  obtain rfl := List.mem_singleton.1 hf
  exact hb.elim hnone hnone

/-- **A source that does not name its connector leaves it running in invoke mode.** -/
theorem implicit_source_starts :
    (∃ flows, willingHost.build (webConfig "") = .ok flows) ∧
      willingHost.BoundToSource (webConfig "") ⟨"web", "http", []⟩ ∧ ¬Referred (webConfig "") "web" ∧
      willingHost.startInvoke (webConfig "") = .ok [⟨"web", "http", []⟩] :=
  ⟨⟨_, rfl⟩, ⟨_, mem_singleton_self _, _, rfl, rfl⟩, webConfig_not_referred "" "web", rfl⟩

theorem named_source_skipped : ∃ running, willingHost.startInvoke (webConfig "web") = .ok running ∧
    ⟨"web", "http", []⟩ ∉ running := by
  have hnames : ((webConfig "web").connectors.map (·.name)).Nodup := List.nodup_singleton "web"
  have hbuild : willingHost.build (webConfig "web") = .ok _ := rfl
  obtain ⟨running, hstart, hiff⟩ := invoke_mode_iff hnames hbuild
  refine ⟨running, hstart, (hiff.2 ?_ _ (mem_singleton_self _)).2 ?_⟩
  · intro c hc
    obtain rfl := List.mem_singleton.1 hc
    exact ⟨fun _ => webConfig_not_referred _ _, fun _ _ => mem_singleton_self _⟩
  · exact ⟨⟨_, mem_singleton_self _, _, rfl, rfl⟩, webConfig_not_referred _ _⟩

end Invoke

end Octo.Runtime
