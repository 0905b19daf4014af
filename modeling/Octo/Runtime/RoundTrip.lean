import Octo.Editor.RoundTrip
import Octo.Runtime.Sources

/-!
# What a config means after the editor saved it

A config that loads and builds is opened in the editor and saved.  What is saved is loaded and
built from the same environment and on the same host.

* `service_eq_ok_iff` — the phases of loading and building, flow by flow.
* `resolveConnector_reopen` — a source is bound to the same connector, though the editor may write
  the name of a connection where the config had its type.
* `reopen_service_iff` — the service is the same exactly when no variable has the empty default and
  every block is kept.
-/

namespace Octo.Runtime

open Option Editor Host

open Octo.Types Octo.Config Octo.Engine
open Octo.Editor (ConnectorInstance toConfig fromConfig truthy getD_truthy getD_bind_truthy
  getD_hasKeys namesOfType resolveSource connTypes isSome_connTypes sourceFromRuntime sourceToRuntime reopenFlow
  reopenBlock SameFlow sameFlow_reopenFlow AllKept Kept chain_reopen_iff means_reopen_iff)
open Octo.Foundation.Traverse

/-! ## One flow -/

section Flow

variable {host : Host} {env : List (String × String)} {defs : List ProcessorConfig}
  {s : Substitutor} {set set' : ConnectorSet} {f : RuntimeFlow} {g : ServiceFlow}

variable (host env defs s set) in
def RootMeans (f : RuntimeFlow) (r : ServiceFlow × ConnectorSet) : Prop :=
  ∃ c, (decodeFlow host.truncate f).config = .ok c ∧
    ∃ c', s.flow host.unmarshal c = .ok c' ∧ host.buildFlow env defs set c' = .ok r

variable (host env defs s set) in
def ChainMeans (ws : List RuntimeBlock) (ts : List Block) : Prop :=
  List.Forall₂ (Means (host.deps env set) defs (some s)) ws ts

variable (host env defs s set) in
def ErrorMeans (name : String) (ws : List RuntimeBlock) (path : Option Flow) : Prop :=
  if ws = [] then path = none
  else ∃ t, path = some t ∧ t.name = name ∧ ChainMeans host env defs s set ws t.blocks

variable {cfg : FlowConfig}

theorem buildRoot_eq_ok_iff {d : Deps} {t : Flow} :
    buildRoot d defs cfg = .ok t ↔ processorDefs [] defs = .ok () ∧ t.name = cfg.name ∧
        List.Forall₂ (fun b t => block d defs b = .ok t) cfg.process t.blocks := by
  obtain ⟨name, blocks⟩ := t
  simp only [buildRoot, flow, bind_eq_ok, pure_eq_ok, mapM_eq_ok_iff, Engine.Flow.mk.injEq]
  constructor
  · rintro ⟨_, hdefs, _, hblocks, rfl, rfl⟩
    exact ⟨hdefs, rfl, hblocks⟩
  · rintro ⟨hdefs, rfl, hblocks⟩
    exact ⟨_, hdefs, _, hblocks, rfl, rfl⟩

variable {ws : List RuntimeBlock}

theorem chainMeans_iff {ts : List Block} :
    ChainMeans host env defs s set ws ts ↔
      ∃ bs, List.Forall₂ (fun w b => decodeBlock host.truncate w = .ok b) ws bs ∧
        ∃ bs', List.Forall₂ (fun b b' => substituteBlock host.unmarshal (some s) b = .ok b') bs bs' ∧
          List.Forall₂ (fun b t => block (host.deps env set) defs b = .ok t) bs' ts := by
  simp only [exists_forall₂_comp]
  rfl

theorem forall₂_nil_iff {α β : Type} {R : α → β → Prop} {xs : List α} {ys : List β}
    (h : List.Forall₂ R xs ys) : xs = [] ↔ ys = [] := by
  cases h <;> simp

theorem buildErrorPath_eq_ok_iff {d : Deps} {path : Option Flow} :
    buildErrorPath d defs cfg = .ok path ↔ if cfg.error = [] then path = none
      else ∃ t, path = some t ∧ processorDefs [] defs = .ok () ∧ t.name = cfg.name ∧
        List.Forall₂ (fun b t => block d defs b = .ok t) cfg.error t.blocks := by
  unfold buildErrorPath
  by_cases herror : cfg.error = []
  · simp [herror, eq_comm]
  · simp only [List.isEmpty_iff, herror, if_false, map_eq_ok, within_eq_ok, buildRoot_eq_ok_iff]
    constructor
    · rintro ⟨t, ht, rfl⟩
      exact ⟨t, rfl, ht⟩
    · rintro ⟨t, rfl, ht⟩
      exact ⟨t, ht, rfl⟩

theorem errorMeans_iff {name : String} {path : Option Flow} :
    ErrorMeans host env defs s set name ws path ↔
      ∃ bs, List.Forall₂ (fun w b => decodeBlock host.truncate w = .ok b) ws bs ∧
        ∃ bs', List.Forall₂ (fun b b' => substituteBlock host.unmarshal (some s) b = .ok b') bs bs' ∧
          if bs' = [] then path = none
          else ∃ t, path = some t ∧ t.name = name ∧
            List.Forall₂ (fun b t => block (host.deps env set) defs b = .ok t) bs' t.blocks := by
  unfold ErrorMeans
  constructor
  · intro h
    split at h
    next hnil =>
      rw [hnil]
      exact ⟨[], .nil, [], .nil, h⟩
    next hne =>
      obtain ⟨t, ht, hname, hchain⟩ := h
      obtain ⟨bs, hd, bs', hs, hb⟩ := chainMeans_iff.1 hchain
      refine ⟨bs, hd, bs', hs, ?_⟩
      rw [if_neg (fun hnil => hne ((forall₂_nil_iff hd).2 ((forall₂_nil_iff hs).2 hnil)))]
      exact ⟨t, ht, hname, hb⟩
  · rintro ⟨bs, hd, bs', hs, h⟩
    simp only [← forall₂_nil_iff hs, ← forall₂_nil_iff hd] at h
    split at h
    next hnil =>
      rwa [if_pos hnil]
    next hne =>
      obtain ⟨t, ht, hname, hb⟩ := h
      rw [if_neg hne]
      exact ⟨t, ht, hname, chainMeans_iff.2 ⟨bs, hd, bs', hs, hb⟩⟩

theorem buildFlow_eq_ok_iff : host.buildFlow env defs set cfg = .ok (g, set') ↔
      host.buildSource set cfg = .ok (g.source, set') ∧
      (g.name = cfg.name ∧ g.workers = resolveWorkers cfg.workers ∧
        g.buffer = resolveBuffer cfg.buffer ∧ g.pool = poolWorkers cfg.pool) ∧
      buildRoot (host.deps env set') defs cfg = .ok g.root ∧
      buildErrorPath (host.deps env set') defs cfg = .ok g.errorPath := by
  obtain ⟨name, source, workers, buffer, pool, root, errorPath⟩ := g
  simp only [buildFlow, bind_eq_ok, pure_eq_ok, Prod.exists, Prod.mk.injEq,
    ServiceFlow.mk.injEq]
  constructor
  · rintro ⟨source, set', hsource, root, hroot, path, hpath, ⟨rfl, rfl, rfl, rfl, rfl, rfl, rfl⟩, rfl⟩
    exact ⟨hsource, ⟨rfl, rfl, rfl, rfl⟩, hroot, hpath⟩
  · rintro ⟨hsource, ⟨rfl, rfl, rfl, rfl⟩, hroot, hpath⟩
    exact ⟨source, set', hsource, root, hroot, errorPath, hpath, ⟨rfl, rfl, rfl, rfl, rfl, rfl, rfl⟩,
      rfl⟩

theorem rootMeans_iff : RootMeans host env defs s set f (g, set') ↔
      (∃ src, substituteSource host.unmarshal (some s) (f.head.source.map decodeSource) = .ok src ∧
        host.buildSource set ⟨f.head.name.getD "", src, [], [], 0, 0, 0⟩ = .ok (g.source, set')) ∧
      (g.name = f.head.name.getD "" ∧ g.workers = resolveWorkers (f.head.workers.getD 0) ∧
        g.buffer = resolveBuffer (f.head.buffer.getD 0) ∧
        g.pool = poolWorkers (f.head.pool.getD 0)) ∧ processorDefs [] defs = .ok () ∧
      (g.root.name = f.head.name.getD "" ∧
        ChainMeans host env defs s set' f.process g.root.blocks) ∧
      ErrorMeans host env defs s set' (f.head.name.getD "") (f.error.getD []) g.errorPath := by
  constructor
  · rintro ⟨c, hc, c', hc', hg⟩
    obtain ⟨hprocess, herror, heq⟩ := config_eq_ok_iff.1 hc
    obtain ⟨hsource, hprocess', herror', heq'⟩ := (substituteFlow_eq_ok_iff (s := some s)).1 hc'
    obtain ⟨hbound, htuning, hroot, hpath⟩ := buildFlow_eq_ok_iff.1 hg
    obtain ⟨hdefs, hname, hblocks⟩ := buildRoot_eq_ok_iff.1 hroot
    rw [buildErrorPath_eq_ok_iff] at hpath
    rw [heq', heq] at htuning hname hbound
    rw [heq] at hsource
    refine ⟨⟨_, hsource, hbound⟩, htuning, hdefs, ⟨hname, ?_⟩, ?_⟩
    · exact chainMeans_iff.2 ⟨_, hprocess, _, hprocess', hblocks⟩
    · refine errorMeans_iff.2 ⟨_, herror, _, herror', ?_⟩
      rw [heq', heq] at hpath
      simpa [hdefs, true_and] using hpath
  · rintro ⟨⟨src, hsource, hbound⟩, htuning, hdefs, ⟨hname, hchain⟩, hpath⟩
    obtain ⟨bs, hprocess, bs', hprocess', hblocks⟩ := chainMeans_iff.1 hchain
    obtain ⟨es, herror, es', herror', hpath⟩ := errorMeans_iff.1 hpath
    refine ⟨⟨f.head.name.getD "", f.head.source.map decodeSource, bs, es, f.head.workers.getD 0,
      f.head.buffer.getD 0, f.head.pool.getD 0⟩, config_eq_ok_iff.2 ⟨hprocess, herror, rfl⟩,
      ⟨f.head.name.getD "", src, bs', es', f.head.workers.getD 0, f.head.buffer.getD 0,
      f.head.pool.getD 0⟩, (substituteFlow_eq_ok_iff (s := some s)).2
        ⟨hsource, hprocess', herror', rfl⟩, buildFlow_eq_ok_iff.2 ⟨hbound, htuning, ?_, ?_⟩⟩
    · exact buildRoot_eq_ok_iff.2 ⟨hdefs, hname, hblocks⟩
    · rw [buildErrorPath_eq_ok_iff]
      simpa [hdefs, true_and] using hpath

end Flow

/-! ## Sources -/

/-- The connector a source is written with: the name of a connection stays, a type with one
connection becomes the name of that. -/
def reopenConnector (connectors : List ConnectorInstance) (name : String) : String :=
  if (connTypes connectors name).isSome then name
  else
    match namesOfType connectors name with
    | [only] => only
    | _ => name

variable {connectors : List ConnectorInstance}

theorem decodeSource_reopen
    (hnames : ∀ conn ∈ connectors, conn.name ≠ "") (hempty : namesOfType connectors "" = [])
    (src : RuntimeSource) :
    decodeSource (sourceToRuntime connectors (sourceFromRuntime (connTypes connectors) src)) =
      { decodeSource src with
        connector := reopenConnector connectors (src.connector.getD "") } := by
  simp only [decodeSource, sourceToRuntime, getD_bind_truthy, sourceFromRuntime, getD_hasKeys, reopenConnector, resolveSource]
  generalize src.connector.getD "" = name
  cases htypes : connTypes connectors name with
  | some =>
    obtain ⟨conn, hmem, rfl⟩ := isSome_connTypes.1 (isSome_of_eq_some htypes)
    simp [truthy, hnames conn hmem]
  | none =>
    by_cases hname : name = ""
    · simp [hname, hempty, truthy]
    · simp only [truthy, hname, if_false, getD_some, bind_some]
      rcases namesOfType connectors name with _ | ⟨only, _ | ⟨_, _⟩⟩ <;> rfl

/-- The connections the editor has opened for the connectors of a config that builds. -/
structure Opened (host : Host) (connectors : List ConnectorInstance)
    (configs : List ConnectorConfig) : Prop where
  same : List.Forall₂ SameConnector connectors configs
  named : ∀ conn ∈ connectors, conn.name ≠ ""
  registered : ∀ conn ∈ connectors, host.registered conn.type

variable {configs : List ConnectorConfig}

theorem resolveConnector_reopen {host : Host} {set : ConnectorSet} (ho : Opened host connectors configs)
    (src : SourceConfig) (hset : host.Grown configs set) :
    host.resolveConnector set { src with connector := reopenConnector connectors src.connector } =
      host.resolveConnector set src := by
  rw [resolveConnector_grown hset, resolveConnector_grown hset]
  congr 1
  unfold reopenConnector
  split
  · rfl
  rename_i hfree
  split
  · -- the connector was a type with one connection
    rename_i only honly
    obtain ⟨conn, hmem, rfl⟩ := List.mem_map.1 (honly ▸ List.mem_singleton.2 rfl)
    simp only [List.mem_filter, decide_eq_true_eq] at hmem
    obtain ⟨hmem, htype, hne⟩ := hmem
    have hfree : ∀ conn ∈ connectors, conn.name ≠ src.connector := by
      intro conn hconn heq
      exact hfree (isSome_connTypes.2 ⟨conn, hconn, heq⟩)
    have hreg : host.registered src.connector := htype ▸ ho.registered conn hmem
    have hsrc : src.connector ≠ "" := by
      intro hnil
      rw [hnil, host.registered_empty] at hreg
      cases hreg
    have hall : connectors.filter (fun c => c.type = src.connector ∧ c.name ≠ "") =
        connectors.filter (·.type = src.connector) :=
      List.filter_congr fun conn hconn => by simp [ho.named conn hconn]
    obtain ⟨c, hpair⟩ := exists_mem_zip_left ho.same.length_eq hmem
    obtain ⟨c', hlookup⟩ := lookup_initial (List.of_mem_zip hpair).2
    rw [(same_of_mem ho.same hpair).1] at hlookup
    have hconfigured : (ConnectorSet.initial configs).configuredOfType src.connector =
        [conn.name] := by
      rw [ConnectorSet.configuredOfType, configured_type ho.same, ← hall]
      exact honly
    have hchoose := choose_type hsrc hreg (find_free ho.same hfree) (by simp) hconfigured
    rw [List.head?_cons, bind_some, hlookup] at hchoose
    rw [binding_running hne hlookup, binding, resolveConnector_of_running hchoose]
    rfl
  · rfl

/-! ## The flows of a config -/

open Substitutor

section Reopen

variable {host : Host} {env : List (String × String)} {defs : List ProcessorConfig}
  {s : Substitutor} {set set' set'' : ConnectorSet} {f : RuntimeFlow} {g : ServiceFlow}
  {e : Session} {configs : List ConnectorConfig}

theorem reopenFlow_source (f : RuntimeFlow) : (reopenFlow e f).head.source =
      f.head.source.map fun src => sourceToRuntime e.connectors (sourceFromRuntime e.types src) := by
  rw [reopenFlow, flowFromRuntime_eq, flowToRuntime_head]
  cases hsource : f.head.source <;> simp [flowHeadToRuntime, flowHeadFromRuntime, hsource]

variable (host defs) in
def RootKept (f : RuntimeFlow) : Prop :=
  ∀ w ∈ f.process ++ f.error.getD [], AllKept (host.deps [] ⟨[], []⟩) defs w

theorem kept_deps {w : RuntimeBlockHead} : Kept (host.deps env set) defs w ↔
      Kept (host.deps [] ⟨[], []⟩) defs w := by
  have hoptions : ∀ (k : Kind) (h h' : BlockHead),
      k.SameOptions (host.deps env set) h h' ↔ k.SameOptions (host.deps [] ⟨[], []⟩) h h' := by
    intro k h h'
    cases k <;> exact Iff.rfl
  simp only [kept_iff, hoptions]
  exact Iff.rfl

variable {ws : List RuntimeBlock}

theorem chainMeans_reopen_iff
    {ts : List Block} (h : ChainMeans host env defs s set ws ts) :
    ChainMeans host env [] s set (ws.map (reopenBlock e)) ts ↔
      ∀ w ∈ ws, AllKept (host.deps [] ⟨[], []⟩) defs w := by
  have hkept : AllKept (host.deps env set) defs =
      AllKept (host.deps [] ⟨[], []⟩) defs := by
    funext w
    simp [AllKept, kept_deps]
  rw [ChainMeans, chain_reopen_iff h fun x _ => means_reopen_iff x _, hkept]

theorem errorMeans_reopen_iff {name : String} {path : Option Flow} (h : ErrorMeans host env defs s set name ws path) :
    ErrorMeans host env [] s set name (ws.map (reopenBlock e)) path ↔
      ∀ w ∈ ws, AllKept (host.deps [] ⟨[], []⟩) defs w := by
  unfold ErrorMeans at h ⊢
  by_cases hnil : ws = []
  · subst hnil
    simpa using h
  · rw [if_neg hnil] at h
    obtain ⟨t, rfl, hname, hchain⟩ := h
    rw [if_neg (by simpa using hnil)]
    constructor
    · rintro ⟨t', ht, -, hchain'⟩
      cases ht
      exact (chainMeans_reopen_iff hchain).1 hchain'
    · intro hkept
      exact ⟨t, rfl, hname, (chainMeans_reopen_iff hchain).2 hkept⟩

theorem sourceMeans_reopen_iff {name : String} {r : SourceBinding × ConnectorSet}
    (ho : Opened host e.connectors configs) (hset : host.Grown configs set) :
    (∃ src, substituteSource host.unmarshal (some s)
        ((reopenFlow e f).head.source.map decodeSource) = .ok src ∧
      host.buildSource set ⟨name, src, [], [], 0, 0, 0⟩ = .ok r) ↔
    ∃ src, substituteSource host.unmarshal (some s) (f.head.source.map decodeSource) = .ok src ∧
      host.buildSource set ⟨name, src, [], [], 0, 0, 0⟩ = .ok r := by
  have hempty : namesOfType e.connectors "" = [] := by
    rw [namesOfType, List.map_eq_nil_iff, List.filter_eq_nil_iff]
    intro conn hmem htype
    have hreg := ho.registered conn hmem
    simp only [decide_eq_true_eq] at htype
    rw [htype.1, host.registered_empty] at hreg
    cases hreg
  rw [reopenFlow_source]
  cases f.head.source with
  | none => rfl
  | some src =>
    simp only [map_some, decodeSource_reopen ho.named hempty, substituteSource,
      source, bind_eq_ok, pure_eq_ok]
    have hbind : ∀ settings, host.bindSource set { decodeSource src with
        connector := reopenConnector e.connectors (src.connector.getD ""), settings := settings } =
          host.bindSource set { decodeSource src with settings := settings } := by
      intro settings
      unfold bindSource
      rw [← resolveConnector_reopen ho { decodeSource src with settings := settings } hset]
      rfl
    constructor
    · rintro ⟨_, ⟨settings, hs, rfl⟩, h⟩
      exact ⟨_, ⟨settings, hs, rfl⟩, (hbind settings).symm.trans h⟩
    · rintro ⟨_, ⟨settings, hs, rfl⟩, h⟩
      exact ⟨_, ⟨settings, hs, rfl⟩, (hbind settings).trans h⟩

theorem buildSource_grown {cfg : FlowConfig} {binding : SourceBinding} (hset : host.Grown configs set)
    (h : host.buildSource set cfg = .ok (binding, set')) : host.Grown configs set' := by
  unfold buildSource at h
  split at h
  · simp only [bind_eq_ok] at h
    obtain ⟨_, -, -, rfl⟩ := h
    exact hset
  · simp only [bindSource, bind_eq_ok, Prod.exists] at h
    obtain ⟨c, set', hresolve, _, -, _, -, -, rfl⟩ := h
    exact hset.resolved hresolve

theorem rootMeans_reopen_iff (ho : Opened host e.connectors configs) (hset : host.Grown configs set)
    (h : RootMeans host env defs s set f (g, set')) :
    RootMeans host env [] s set (reopenFlow e f) (g, set'') ↔
      set'' = set' ∧ RootKept host defs f := by
  have hs : SameFlow e f (reopenFlow e f) :=
    sameFlow_reopenFlow f
  obtain ⟨⟨src, hsrc, hbound⟩, htuning, -, ⟨hname, hchain⟩, herror⟩ := rootMeans_iff.1 h
  rw [rootMeans_iff, hs.name, hs.workers, hs.buffer, hs.pool, hs.process, hs.error,
    sourceMeans_reopen_iff ho hset]
  simp only [hsrc, Except.ok.injEq, exists_eq_left', hbound, htuning, hname, true_and,
    RootKept, List.forall_mem_append, Prod.mk.injEq, processorDefs]
  constructor
  · rintro ⟨rfl, hchain', herror'⟩
    exact ⟨rfl, (chainMeans_reopen_iff hchain).1 hchain', (errorMeans_reopen_iff herror).1 herror'⟩
  · rintro ⟨rfl, hkept, hkept'⟩
    exact ⟨rfl, (chainMeans_reopen_iff hchain).2 hkept, (errorMeans_reopen_iff herror).2 hkept'⟩

end Reopen

/-! ## The flows, one after another -/

section Flows

variable {host : Host} {env : List (String × String)} {defs : List ProcessorConfig}
  {s : Substitutor}

variable (host env defs s) in
def FlowsMean : ConnectorSet → List RuntimeFlow → List ServiceFlow → Prop
  | _, [], [] => True
  | set, f :: fs, g :: gs =>
    ∃ set', RootMeans host env defs s set f (g, set') ∧ FlowsMean set' fs gs
  | _, _, _ => False

theorem flowsMean_iff : ∀ {set : ConnectorSet} {fs : List RuntimeFlow} {gs : List ServiceFlow},
    (∃ cs, List.Forall₂ (fun f c => (decodeFlow host.truncate f).config = .ok c) fs cs ∧
      ∃ cs', List.Forall₂ (fun c c' => s.flow host.unmarshal c = .ok c') cs cs' ∧
        host.buildFlows env defs set cs' = .ok gs) ↔ FlowsMean host env defs s set fs gs
  | set, [], gs => by
    constructor
    · rintro ⟨cs, hcs, cs', hcs', h⟩
      cases hcs
      cases hcs'
      cases h
      trivial
    · intro h
      cases gs with
      | nil => exact ⟨[], .nil, [], .nil, rfl⟩
      | cons => exact h.elim
  | set, f :: fs, gs => by
    constructor
    · rintro ⟨_, hcs, _, hcs', h⟩
      cases hcs with
      | cons hc hcs =>
        cases hcs' with
        | cons hc' hcs' =>
          simp only [buildFlows, bind_eq_ok, within_eq_ok, pure_eq_ok, Prod.exists] at h
          obtain ⟨g, set', hg, gs', hgs, rfl⟩ := h
          exact ⟨set', ⟨_, hc, _, hc', hg⟩, flowsMean_iff.1 ⟨_, hcs, _, hcs', hgs⟩⟩
    · intro h
      cases gs with
      | nil => exact h.elim
      | cons g gs =>
        obtain ⟨set', ⟨c, hc, c', hc', hg⟩, hrest⟩ := h
        obtain ⟨cs, hcs, cs', hcs', hgs⟩ := flowsMean_iff.2 hrest
        refine ⟨c :: cs, .cons hc hcs, c' :: cs', .cons hc' hcs', ?_⟩
        simp only [buildFlows, bind_eq_ok, within_eq_ok, Prod.exists]
        exact ⟨g, set', hg, gs, hgs, rfl⟩

theorem flowsMean_reopen_iff {e : Session} (ho : Opened host e.connectors configs) :
    ∀ {set : ConnectorSet} {fs : List RuntimeFlow} {gs : List ServiceFlow},
      host.Grown configs set → FlowsMean host env defs s set fs gs →
        (FlowsMean host env [] s set (fs.map (reopenFlow e)) gs ↔
          ∀ f ∈ fs, RootKept host defs f)
  | set, [], [], _, _ => by simp [FlowsMean]
  | set, f :: fs, [], _, h => h.elim
  | set, [], g :: gs, _, h => h.elim
  | set, f :: fs, g :: gs, hset, h => by
    obtain ⟨set', hroot, hrest⟩ := h
    have hset' : host.Grown configs set' := by
      obtain ⟨⟨src, -, hbound⟩, -⟩ := rootMeans_iff.1 hroot
      exact buildSource_grown hset hbound
    rw [List.forall_mem_cons, ← flowsMean_reopen_iff ho hset' hrest]
    constructor
    · rintro ⟨set'', hroot', hrest'⟩
      obtain ⟨rfl, hkept⟩ := (rootMeans_reopen_iff ho hset hroot).1 hroot'
      exact ⟨hkept, hrest'⟩
    · rintro ⟨hkept, hrest'⟩
      exact ⟨set', (rootMeans_reopen_iff ho hset hroot).2 ⟨rfl, hkept⟩, hrest'⟩

end Flows

/-! ## The service -/

section Service

variable {host : Host} {doc : RuntimeConfig} {S : Service}

def SubstitutedConnector (unmarshal : String → Option Value) (s : Substitutor)
    (c c' : ConnectorConfig) : Prop :=
  ∃ set, s.settings unmarshal c.settings = .ok set ∧ ConnectorConfig.mk c.name c.type set = c'

def SubstitutedProcessor (unmarshal : String → Option Value) (s : Substitutor)
    (p p' : ProcessorConfig) : Prop :=
  ∃ set, s.settings unmarshal p.settings = .ok set ∧ ProcessorConfig.mk p.name p.type set = p'

theorem service_eq_ok_iff : host.service doc = .ok S ↔ S.env = doc.env.map decodeEnv ∧
      ∃ resolved, host.resolveEnv S.env = .ok resolved ∧
        ∃ s : Substitutor, s = ⟨resolved, S.env.map (·.name)⟩ ∧
          List.Forall₂ (SubstitutedConnector host.unmarshal s)
            (doc.connectors.map decodeConnector) S.connectors ∧
          ∃ defs, List.Forall₂ (SubstitutedProcessor host.unmarshal s)
              (doc.processors.map decodeProcessor) defs ∧
            ∃ running, host.startConnectors [] S.connectors = .ok running ∧
              FlowsMean host resolved defs s ⟨S.connectors, running⟩ doc.flows S.flows := by
  obtain ⟨senv, sconnectors, sflows⟩ := S
  simp only [service, load, parse, applyEnv, substituteConfig, build, bind_eq_ok,
    pure_eq_ok, mapError_eq_ok, mapM_eq_ok_iff, ← flowsMean_iff, Service.mk.injEq]
  constructor
  · rintro ⟨cfg, ⟨_, ⟨cs, hcs, rfl⟩, resolved, hresolved, connectors, hconnectors, defs, hdefs, cs',
      hcs', rfl⟩, gs, ⟨running, hrunning, hgs⟩, rfl, rfl, rfl⟩
    exact ⟨rfl, resolved, hresolved, _, rfl, hconnectors, defs, hdefs, running, hrunning, cs, hcs,
      cs', hcs', hgs⟩
  · rintro ⟨rfl, resolved, hresolved, s, rfl, hconnectors, defs, hdefs, running, hrunning, cs, hcs,
      cs', hcs', hgs⟩
    exact ⟨_, ⟨_, ⟨cs, hcs, rfl⟩, resolved, hresolved, _, hconnectors, defs, hdefs, cs', hcs', rfl⟩,
      _, ⟨running, hrunning, hgs⟩, rfl, rfl, rfl⟩

/-! What the editor keeps of the declarations. -/

theorem fromConfig_eq {c : RuntimeConfig} {newId : String} (hflows : c.flows ≠ []) :
    toConfig (fromConfig newId c) =
      { env := c.env.map fun v => envToRuntime (envFromRuntime v)
        connectors := c.connectors.map fun x =>
          connectorToRuntime (connectorFromRuntime newId x)
        flows := c.flows.map
          (reopenFlow ⟨newId, c.connectors.map (connectorFromRuntime newId)⟩) } := by
  simp only [fromConfig, if_neg hflows, toConfig, List.map_map, Function.comp_def,
    flowToRuntime_withErrorChain]
  rfl

theorem decodeEnv_reopen_iff (v : RuntimeEnv) :
    decodeEnv (envToRuntime (envFromRuntime v)) = decodeEnv v ↔
      v.default' ≠ some "" := by
  obtain ⟨name, default', required⟩ := v
  rcases required with _ | _ | _ <;> cases default' with
  | none => simp [decodeEnv, envToRuntime, envFromRuntime]
  | some text =>
    by_cases htext : text = "" <;>
      simp [decodeEnv, envToRuntime, envFromRuntime, truthy]

theorem decodeConnector_reopen (newId : String) (x : RuntimeConnector) :
    decodeConnector (connectorToRuntime (connectorFromRuntime newId x)) =
      decodeConnector x := by
  simp [decodeConnector, connectorToRuntime, connectorFromRuntime, getD_truthy,
    getD_hasKeys]

theorem refKeys_substituted {s : Substitutor} {ps ps' : List ProcessorConfig}
    (h : List.Forall₂ (SubstitutedProcessor host.unmarshal s) ps ps') :
    refKeys ps' = refKeys ps := by
  funext ref
  unfold refKeys
  induction h with
  | nil => rfl
  | @cons p p' ps ps' hp _ ih =>
    obtain ⟨set, hset, rfl⟩ := hp
    have hkeys := substituteSettings_keys (s := some s) hset
    by_cases href : p.name = ref
    · simp [href, hkeys]
    · simpa [href] using ih

theorem kept_defs {defs defs' : List ProcessorConfig} {d : Deps} {w : RuntimeBlockHead} (h : refKeys defs' = refKeys defs) :
    Kept d defs' w ↔ Kept d defs w := by
  simp only [kept_iff, h]

theorem startConnectors_registered : ∀ {configs started running : List ConnectorConfig},
    host.startConnectors started configs = .ok running →
      ∀ c ∈ configs, host.registered c.type = true
  | [], _, _, _, _, hc => absurd hc List.not_mem_nil
  | x :: configs, started, running, h, c, hc => by
    simp only [startConnectors, bind_eq_ok, require_eq_ok] at h
    obtain ⟨_, hreg, _, -, h⟩ := h
    rcases List.mem_cons.1 hc with rfl | hc
    · exact hreg
    · exact startConnectors_registered h c hc

/-- **A config that the editor opened and saved means what it did.** -/
theorem reopen_service_iff {c : RuntimeConfig} (newId : String) (hflows : c.flows ≠ [])
    (hnames : ∀ x ∈ c.connectors, x.name.getD "" ≠ "") (h : host.service c = .ok S) :
    host.service (toConfig (fromConfig newId c)) = .ok S ↔
      (∀ v ∈ c.env, v.default' ≠ some "") ∧
        ∀ f ∈ c.flows, RootKept host (c.processors.map decodeProcessor) f := by
  obtain ⟨henv, resolved, hresolved, s, hs, hconnectors, defs, hdefs, running, hrunning, hmean⟩ :=
    service_eq_ok_iff.1 h
  have hsame : List.Forall₂ SameConnector
      (c.connectors.map (connectorFromRuntime newId)) S.connectors := by
    rw [List.forall₂_map_left_iff] at hconnectors ⊢
    exact hconnectors.imp fun _ _ ⟨_, _, hx⟩ => hx ▸ ⟨rfl, rfl⟩
  have hregistered : ∀ conn ∈ c.connectors.map (connectorFromRuntime newId),
      host.registered conn.type = true := by
    intro conn hmem
    obtain ⟨x, hpair⟩ := exists_mem_zip_left hsame.length_eq hmem
    rw [← (same_of_mem hsame hpair).2]
    exact startConnectors_registered hrunning x (List.of_mem_zip hpair).2
  have hset : host.Grown S.connectors ⟨S.connectors, running⟩ :=
    ⟨rfl, [], by simpa using (startConnectors_ok.1 hrunning).2, by simp⟩
  have ho : Opened host _ S.connectors := ⟨hsame, List.forall_mem_map.2 hnames, hregistered⟩
  have hkept : FlowsMean host resolved [] s _ (c.flows.map (reopenFlow ⟨newId, _⟩)) S.flows ↔ _ :=
    flowsMean_reopen_iff ho hset hmean
  simp only [RootKept, AllKept, kept_defs (refKeys_substituted hdefs)] at hkept ⊢
  rw [← hkept, service_eq_ok_iff, fromConfig_eq hflows]
  simp only [List.map_map, Function.comp_def, decodeConnector_reopen]
  have hdeclared : S.env = (c.env.map fun v =>
      decodeEnv (envToRuntime (envFromRuntime v))) ↔
        ∀ v ∈ c.env, v.default' ≠ some "" := by
    rw [henv, eq_comm]
    simp [decodeEnv_reopen_iff]
  rw [hdeclared]
  refine and_congr_right fun _ => ?_
  constructor
  · rintro ⟨resolved', hresolved', s', hs', hconnectors', defs', hdefs', running', hrunning', hmean'⟩
    cases hresolved.symm.trans hresolved'
    cases hrunning.symm.trans hrunning'
    cases hdefs'
    rw [hs', ← hs] at hmean'
    exact hmean'
  · intro hmean'
    exact ⟨resolved, hresolved, s, hs, hconnectors, [], .nil, running, hrunning, hmean'⟩

end Service

/-! ## A processor that is lost -/

section Audit

variable {defs : List ProcessorConfig} {s : Substitutor} {env : List (String × String)}
  {set : ConnectorSet}

theorem means_log {h : RuntimeBlockHead} {own settings : Settings} (hscalars : h.scalars = [])
    (htype : h.type = some "log")
    (hown : s.settings willingHost.unmarshal (h.settings.getD []) = .ok own) (hres : resolve defs
        { type := "log", name := h.name.getD "", settings := own, ref := h.ref.getD "" } =
      .ok ("log", settings)) :
    Means (willingHost.deps env set) defs (some s) ⟨h, []⟩
      ⟨h.name.getD "", "log", .leaf fun key => settings.lookup key, {}⟩ := by
  obtain ⟨type, name, ref, wire, scalars⟩ := h
  subst hscalars htype
  refine means_iff.2 ⟨_, rfl, own, hown, _, rfl, ⟨.inl ?_, rfl, ?_, ?_, ?_, settings, hres, rfl⟩, ?_⟩
  · show "log" ≠ ""
    decide
  · intro k hk
    cases hk
  · constructor <;> exact absurd rfl
  · constructor <;> exact absurd rfl
  · constructor <;> constructor

theorem service_single {doc : RuntimeConfig} {f : RuntimeFlow} {w : RuntimeBlock} {t : Block}
    (henv : doc.env = []) (hconnectors : doc.connectors = []) (hflows : doc.flows = [f])
    (hdefs : List.Forall₂ (SubstitutedProcessor willingHost.unmarshal ⟨[], []⟩)
      (doc.processors.map decodeProcessor) defs) (hnamed : processorDefs [] defs = .ok ())
    (hsource : f.head.source = none) (hname : f.head.name.getD "" = "orders")
    (hworkers : f.head.workers = none) (hbuffer : f.head.buffer = none)
    (hpool : f.head.pool = none) (herror : f.error.getD [] = []) (hprocess : f.process = [w])
    (h : Means (willingHost.deps [] ⟨[], []⟩) defs
      (some ⟨[], []⟩) w t) : willingHost.service doc =
      .ok ⟨[], [], [⟨"orders", .implicit, 8, 64, 8, ⟨"orders", [t]⟩, none⟩]⟩ := by
  refine service_eq_ok_iff.2 ⟨by rw [henv]; rfl, [], rfl, _, rfl, ?_, defs, hdefs, [], rfl, ?_⟩
  · rw [hconnectors]
    exact .nil
  · rw [hflows]
    refine ⟨⟨[], []⟩, rootMeans_iff.2 ?_, trivial⟩
    rw [hsource, hname, hworkers, hbuffer, hpool, herror, hprocess]
    exact ⟨⟨none, rfl, rfl⟩, ⟨rfl, rfl, rfl, rfl⟩, hnamed, ⟨rfl, .cons h .nil⟩, rfl⟩

def auditConfig (processors : List RuntimeConnector) (head : RuntimeBlockHead) : RuntimeConfig where
  processors := processors
  flows := [⟨{ name := some "orders" }, [⟨head, []⟩], none⟩]

/-- A service with one flow of one `log` block. -/
def auditService (settings : Settings) : Service where
  env := []
  connectors := []
  flows := [{ name := "orders", source := .implicit, workers := 8, buffer := 64, pool := 8
              root := ⟨"orders", [⟨"", "log", .leaf fun key => settings.lookup key, {}⟩]⟩
              errorPath := none }]

theorem settings_seen (s : Substitutor) :
    s.settings willingHost.unmarshal [("message", .str "seen")] = .ok [("message", .str "seen")] := by
  have hstr : s.scalar willingHost.unmarshal "seen" = .ok (.str "seen") :=
    scalar_of_no_reference (by decide)
  simp [settings, value, hstr]

/-- **A block loses the settings of its processor**: a `log` block logs no message after the config
was opened and saved. -/
theorem reopen_drops_processor :
    ∃ c, c = auditConfig [⟨some "audit", some "log", some [("message", .str "seen")]⟩]
        { type := some "log", ref := some "audit" } ∧
      willingHost.service c = .ok (auditService [("message", .str "seen")]) ∧
      willingHost.service (toConfig (fromConfig "id" c)) = .ok (auditService []) ∧
      auditService [("message", .str "seen")] ≠ auditService [] := by
  have hsame : SameFlow ⟨"id", []⟩ _ _ := sameFlow_reopenFlow
    ⟨{ name := some "orders" }, [⟨{ type := some "log", ref := some "audit" }, []⟩], none⟩
  refine ⟨_, rfl, ?_, ?_, fun heq => ?_⟩
  · exact service_single rfl rfl rfl (.cons ⟨_, settings_seen _, rfl⟩ .nil) rfl rfl rfl rfl rfl rfl
      rfl rfl (means_log rfl rfl rfl rfl)
  · rw [fromConfig_eq (List.cons_ne_nil _ _)]
    refine service_single rfl rfl rfl .nil rfl (hsame.source.2 rfl) hsame.name hsame.workers
      hsame.buffer hsame.pool hsame.error (hsame.process.trans ?_) (means_log (h :=
        savedHead { type := some "log", ref := some "audit" }) rfl rfl rfl rfl)
    rw [List.map_cons, reopenBlock_eq]
    rfl
  · simp only [auditService, Service.mk.injEq, List.cons.injEq, ServiceFlow.mk.injEq,
      Engine.Flow.mk.injEq, Engine.Block.mk.injEq, Own.leaf.injEq, true_and, and_true] at heq
    have hmessage : some (Value.str "seen") = none := congrFun heq "message"
    cases hmessage

theorem reopen_keeps_settings : ∃ S, willingHost.service (auditConfig []
        { type := some "log", settings := some [("message", .str "seen")] }) = .ok S ∧
      willingHost.service (toConfig (fromConfig "id" (auditConfig []
        { type := some "log", settings := some [("message", .str "seen")] }))) = .ok S := by
  have hservice : willingHost.service (auditConfig []
      { type := some "log", settings := some [("message", .str "seen")] }) =
        .ok (auditService [("message", .str "seen")]) :=
    service_single rfl rfl rfl .nil rfl rfl rfl rfl rfl rfl rfl rfl
      (means_log rfl rfl (settings_seen _) rfl)
  refine ⟨_, hservice, (reopen_service_iff "id" (List.cons_ne_nil _ _) (by simp [auditConfig])
    hservice).2 ⟨by simp [auditConfig], ?_⟩⟩
  intro f hf w hw x hx
  obtain rfl := List.mem_singleton.1 hf
  obtain rfl := List.mem_singleton.1 hw
  rcases hx.cases_head with rfl | ⟨c, hc, -⟩
  · exact ⟨absurd rfl, fun _ hne => absurd rfl hne, fun k hk => by cases hk⟩
  · exact absurd hc List.not_mem_nil

end Audit

end Octo.Runtime
