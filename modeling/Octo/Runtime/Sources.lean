import Octo.Config.Coverage
import Octo.Editor.Valid
import Octo.Runtime.Binding

/-!
# The connector behind a source

A source of the editor selects a connector type and, when there is a choice, one of its
connections.  `connectorResolver` writes that as one string, the name of a connection or of a type,
and `resolveConnector` reads the string back against the connectors that run.

* `load_connectors`, `load_sources` — loading keeps the names and types both sides go by.
* `source_binding_iff` — when the connector that was selected is the one that runs.
* `type_named_connection_captures_source` — a connection named like a type takes its sources.
-/

namespace Octo.Runtime

open Option (getD_some map_some)

open List (mem_filter of_mem_zip)

open Octo.Types Editor ConnectorSet Octo.Config Octo.Engine
open Octo.Editor (EditorDocument SourceNode ConnectorInstance FlowDoc truthy getD_truthy
  getD_bind_truthy validateDocument toConfig namesOfType resolveSource)
open Octo.Foundation.Traverse

/-! ## What loading keeps -/

def sourceKey (src : SourceConfig) : String × String := (src.connector, src.type)

def SameConnector (conn : ConnectorInstance) (c : ConnectorConfig) : Prop :=
  c.name = conn.name ∧ c.type = conn.type

theorem flow_source {s : Substitutor} {unmarshal : String → Option Value} {f g : FlowConfig}
    (h : s.flow unmarshal f = .ok g) : g.source.map sourceKey = f.source.map sourceKey := by
  obtain ⟨name, source, process, error, workers, buffer, pool⟩ := f
  rw [Substitutor.flow] at h
  obtain ⟨source', hsource, h⟩ := bind_eq_ok.1 h
  obtain ⟨process', -, h⟩ := bind_eq_ok.1 h
  obtain ⟨error', -, h⟩ := bind_eq_ok.1 h
  cases pure_eq_ok.1 h
  cases source with
  | none =>
    cases pure_eq_ok.1 hsource
    rfl
  | some =>
    obtain ⟨set, -, hsource⟩ := bind_eq_ok.1 hsource
    cases pure_eq_ok.1 hsource
    rfl

theorem saved_source (connectors : List ConnectorInstance) (h : Editor.FlowHead) :
    ((flowHeadToRuntime connectors h).source.map decodeSource).map sourceKey =
      h.source.map fun s => ((resolveSource connectors s).getD "", s.type.getD "") := by
  cases hs : h.source <;>
    simp [flowHeadToRuntime, hs, sourceKey, decodeSource, sourceToRuntime,
      getD_bind_truthy]

theorem decodeFlow_source {truncate : String → Option Int} {f : RuntimeFlow} {g : FlowConfig}
    (h : (decodeFlow truncate f).config = .ok g) : g.source = f.head.source.map decodeSource := by
  obtain ⟨process, -, h⟩ := bind_eq_ok.1 h
  obtain ⟨error, -, h⟩ := bind_eq_ok.1 h
  cases pure_eq_ok.1 h
  exact congrArg (·.source.map decodeSource) (decodeFlow_head truncate f)

variable {cfg : Types.Config} {d : EditorDocument} {host : Host}

theorem load_ok {doc : RuntimeConfig} (h : host.load doc = .ok cfg) :
    ∃ (s : Substitutor) (flows : List FlowConfig),
      List.Forall₂ (fun f g => (decodeFlow host.truncate f).config = .ok g) doc.flows flows ∧
      List.Forall₂ (fun f g => s.flow host.unmarshal f = .ok g) flows cfg.flows ∧
      List.Forall₂ (fun c c' => c'.name = (decodeConnector c).name ∧
        c'.type = (decodeConnector c).type) doc.connectors cfg.connectors := by
  obtain ⟨parsed, hparsed, h⟩ := bind_eq_ok.1 h
  obtain ⟨resolved, -, h⟩ := bind_eq_ok.1 h
  obtain ⟨connectors, hconnectors, h⟩ := bind_eq_ok.1 h
  obtain ⟨processors, -, h⟩ := bind_eq_ok.1 h
  obtain ⟨flows, hflows, h⟩ := bind_eq_ok.1 h
  cases pure_eq_ok.1 h
  obtain ⟨decoded, hdecoded, hparse⟩ := bind_eq_ok.1 (mapError_eq_ok.1 hparsed)
  cases pure_eq_ok.1 hparse
  refine ⟨_, decoded, mapM_eq_ok_iff.1 hdecoded, mapM_eq_ok_iff.1 hflows, ?_⟩
  refine (List.forall₂_map_left_iff.1 (mapM_eq_ok_iff.1 hconnectors)).imp ?_
  intro c c' hc
  obtain ⟨set, -, hc⟩ := bind_eq_ok.1 hc
  cases pure_eq_ok.1 hc
  exact ⟨rfl, rfl⟩

theorem load_connectors (h : host.load (toConfig d) = .ok cfg) :
    List.Forall₂ SameConnector d.connectors cfg.connectors := by
  obtain ⟨-, -, -, -, hconnectors⟩ := load_ok h
  refine (List.forall₂_map_left_iff.1 hconnectors).imp ?_
  rintro conn c ⟨hname, htype⟩
  exact ⟨hname.trans (getD_truthy conn.name), htype.trans (getD_truthy conn.type)⟩

theorem load_sources (h : host.load (toConfig d) = .ok cfg) :
    List.Forall₂ (fun (f : FlowDoc) (g : FlowConfig) => g.source.map sourceKey =
      f.head.source.map fun s => ((resolveSource d.connectors s).getD "", s.type.getD ""))
      d.flows cfg.flows := by
  obtain ⟨s, flows, hdecoded, hflows, -⟩ := load_ok h
  have hdecoded := List.forall₂_map_left_iff.1 hdecoded
  rw [List.forall₂_iff_get] at hdecoded hflows ⊢
  refine ⟨hdecoded.1.trans hflows.1, fun i hi hi' => ?_⟩
  have hd := hdecoded.2 i hi (hdecoded.1 ▸ hi)
  have hf := hflows.2 i (hdecoded.1 ▸ hi) hi'
  rw [flow_source hf, decodeFlow_source hd, flowToRuntime_head, saved_source]

/-! ## What the check of the editor guarantees -/

/-- What `checkSource` lets through: a type is selected, and the connection is chosen when there
is more than one. -/
structure Checked (connectors : List ConnectorInstance) (s : SourceNode) (type : String) :
    Prop where
  connector : s.connector = some type
  ne_empty : type ≠ ""
  ref : ∀ ref, s.connectorRef.bind truthy = some ref →
    ref ≠ "" ∧ ∃ conn ∈ connectors, conn.type = type ∧ conn.name = ref
  single : s.connectorRef.bind truthy = none → (connectors.filter (·.type = type)).length < 2

variable {s : SourceNode}

theorem checkSource_nil {label : String} (h : checkSource d s label = []) :
    ∃ type, Checked d.connectors s type := by
  unfold checkSource at h
  split at h
  next type _ hconn _ =>
    obtain ⟨hconn, hne⟩ := bind_truthy_eq_some.1 hconn
    split at h
    · cases h
    obtain ⟨-, h⟩ := List.append_eq_nil_iff.1 h
    refine ⟨type, hconn, hne, fun ref href => ⟨(bind_truthy_eq_some.1 href).2, ?_⟩, fun href => ?_⟩
    · simp only [href] at h
      simpa using h
    · simp only [href, ite_eq_right_iff, List.cons_ne_nil, imp_false] at h
      omega
  · cases h

theorem checked_of_valid (h : validateDocument d = []) {f : FlowDoc} (hf : f ∈ d.flows) (hs : f.head.source = some s) : ∃ type, Checked d.connectors s type := by
  obtain ⟨-, -, -, -, hflows⟩ := (validateDocument_nil_iff d).1 h
  refine checkSource_nil ((hflows f hf).2 (.source s) ?_)
  rw [items_eq, hs]
  exact List.mem_append_left _ (List.mem_singleton.2 rfl)

/-! ## What the source selects -/

/-- The connector a source of the editor selects: the connection it names, else the only
connection of its type, else a default instance of its type. -/
def Selected (connectors : List ConnectorInstance) (configs : List ConnectorConfig)
    (s : SourceNode) (c : ConnectorConfig) : Prop :=
  c.type = s.connector.getD "" ∧
    match s.connectorRef.bind truthy with
    | some ref => ∃ conn, (conn, c) ∈ connectors.zip configs ∧ conn.name = ref
    | none =>
      match connectors.filter (·.type = s.connector.getD "") with
      | [conn] => (conn, c) ∈ connectors.zip configs
      | _ => c = ⟨s.connector.getD "", s.connector.getD "", []⟩

/-- The one string that is written names what was selected: a named connection, chosen or the only
one of its type; or else the type, when no connection has that name and the type's own connection is
the last without a name, or a default starts. -/
def NamesSelected (host : Host) (connectors : List ConnectorInstance) (s : SourceNode) : Prop :=
  let type := s.connector.getD ""
  s.connectorRef.bind truthy ≠ none ∨ namesOfType connectors type ≠ [] ∨
    (∀ conn ∈ connectors, conn.name ≠ type) ∧ if connectors.any (·.type = type) then
        (connectors.reverse.find? (·.name = "")).map (·.type) = some type
      else host.start ⟨type, type, []⟩ = .ok ()

theorem eq_singleton_of_mem {α : Type} {a : α} : ∀ {l : List α}, l.length < 2 → a ∈ l → l = [a]
  | [], _, ha => absurd ha List.not_mem_nil
  | [_], _, ha => by rw [List.mem_singleton.1 ha]
  | _ :: _ :: l, h, _ => absurd h (by simp only [List.length_cons]; omega)

section Connections

variable {connectors : List ConnectorInstance} {configs : List ConnectorConfig}
  (hsame : List.Forall₂ SameConnector connectors configs)
  (hunique : ∀ name, name ≠ "" → (connectors.map (·.name)).count name ≤ 1)

include hsame

variable {conn : ConnectorInstance}

theorem same_of_mem {c : ConnectorConfig}
    (h : (conn, c) ∈ connectors.zip configs) : c.name = conn.name ∧ c.type = conn.type :=
  (List.forall₂_iff_zip.1 hsame).2 h

theorem find_type (name : String) : (configs.reverse.find? (·.name = name)).map (·.type) =
      (connectors.reverse.find? (·.name = name)).map (·.type) := by
  have hrev := List.forall₂_reverse_iff.2 hsame
  generalize connectors.reverse = l at hrev
  generalize configs.reverse = l' at hrev
  induction hrev with
  | nil => rfl
  | @cons conn c l l' h _ ih =>
    rw [List.find?_cons, h.1]
    by_cases hname : conn.name = name <;> simp [hname, h.2, ih]

theorem configured_type (type : String) : (configs.filter (·.type = type)).map (·.name) =
      (connectors.filter (·.type = type)).map (·.name) := by
  induction hsame with
  | nil => rfl
  | @cons conn c l l' h _ ih =>
    by_cases htype : conn.type = type <;> simp [htype, h.1, h.2, ih]

theorem find_free {type : String} (hfree : ∀ conn ∈ connectors, conn.name ≠ type) :
    (initial configs).lookup type = none := by
  refine List.find?_eq_none.2 fun c hc => ?_
  obtain ⟨conn, hpair⟩ := exists_mem_zip_right hsame.length_eq (List.mem_reverse.1 hc)
  simpa [(same_of_mem hsame hpair).1] using hfree conn (of_mem_zip hpair).1

include hunique

theorem find_named {c : ConnectorConfig}
    (h : (conn, c) ∈ connectors.zip configs) (hne : conn.name ≠ "") :
    (initial configs).lookup conn.name = some c := by
  obtain ⟨c', hfind⟩ := lookup_initial (of_mem_zip h).2
  rw [(same_of_mem hsame h).1] at hfind
  obtain ⟨hmem, hname⟩ := of_lookup hfind
  obtain ⟨conn', h'⟩ := exists_mem_zip_right hsame.length_eq (List.mem_reverse.1 hmem)
  have hcount : ((connectors.zip configs).filter (·.1.name = conn.name)).length < 2 := by
    have := hunique conn.name hne
    rw [← List.map_fst_zip (Nat.le_of_eq hsame.length_eq), List.map_map, List.count_eq_countP,
      List.countP_map, List.countP_eq_length_filter] at this
    exact Nat.lt_succ_of_le (by simpa [Function.comp_def, beq_eq_decide] using this)
  have hmem' : (conn', c') ∈ (connectors.zip configs).filter (·.1.name = conn.name) :=
    mem_filter.2 ⟨h', by simpa [(same_of_mem hsame h').1] using hname⟩
  rw [eq_singleton_of_mem hcount (mem_filter.2 ⟨h, by simp⟩)] at hmem'
  rw [hfind, (Prod.mk.inj (List.mem_singleton.1 hmem')).2]

end Connections

/-! ## What the serializer writes -/

section Written

variable {connectors : List ConnectorInstance} {configs : List ConnectorConfig} {s : SourceNode}
  {type : String}

theorem mem_namesOfType {conn : ConnectorInstance} (h : conn ∈ connectors) (hne : conn.name ≠ "") :
    conn.name ∈ namesOfType connectors conn.type :=
  List.mem_map.2 ⟨conn, mem_filter.2 ⟨h, by simp [hne]⟩, rfl⟩

theorem resolveSource_type (hc : Checked connectors s type)
    (href : s.connectorRef.bind truthy = none) (hnames : namesOfType connectors type = []) :
    resolveSource connectors s = some type := by
  simp only [resolveSource, href, hc.connector, getD_some, hnames]
  exact bind_truthy_eq_some.2 ⟨rfl, hc.ne_empty⟩

theorem resolveSource_name (hsame : List.Forall₂ SameConnector connectors configs)
    (hc : Checked connectors s type)
    (h : s.connectorRef.bind truthy ≠ none ∨ namesOfType connectors type ≠ []) :
    ∃ conn c, (conn, c) ∈ connectors.zip configs ∧ conn.name ≠ "" ∧
      resolveSource connectors s = some conn.name ∧ Selected connectors configs s c := by
  cases href : s.connectorRef.bind truthy with
  | some ref =>
    obtain ⟨hne, conn, hmem, htype, rfl⟩ := hc.ref ref href
    obtain ⟨c, hpair⟩ := exists_mem_zip_left hsame.length_eq hmem
    refine ⟨conn, c, hpair, hne, by simp [resolveSource, href], ?_, ?_⟩
    · simp [hc.connector, ← htype, (same_of_mem hsame hpair).2]
    · simp only [href]
      exact ⟨conn, hpair, rfl⟩
  | none =>
    have hnames := h.resolve_left (not_not.2 href)
    obtain ⟨name, hname⟩ := List.exists_mem_of_ne_nil _ hnames
    obtain ⟨conn, hmem, rfl⟩ := List.mem_map.1 hname
    simp only [mem_filter, decide_eq_true_eq] at hmem
    obtain ⟨hmem, htype, hne⟩ := hmem
    -- the connections of the type are this one
    have hfilter : connectors.filter (·.type = type) = [conn] :=
      eq_singleton_of_mem (hc.single href) (by simp [hmem, htype])
    have hwritten : namesOfType connectors type = [conn.name] := by
      have hsplit : connectors.filter (fun c => c.type = type ∧ c.name ≠ "") =
          (connectors.filter (·.type = type)).filter (·.name ≠ "") := by
        simp [Bool.and_comm]
      rw [namesOfType, hsplit, hfilter]
      simp [hne]
    obtain ⟨c, hpair⟩ := exists_mem_zip_left hsame.length_eq hmem
    refine ⟨conn, c, hpair, hne, by simp [resolveSource, href, hc.connector, hwritten], ?_, ?_⟩
    · simp [hc.connector, ← htype, (same_of_mem hsame hpair).2]
    · simp only [href, hc.connector, getD_some, hfilter]
      exact hpair

end Written

/-! ## When the selected connector runs -/

section Main

variable {host : Host} {connectors : List ConnectorInstance} {configs : List ConnectorConfig}
  {s : SourceNode} {src : SourceConfig} {type : String}
  (hsame : List.Forall₂ SameConnector connectors configs) (hc : Checked connectors s type)

include hsame hc

theorem binding_unnamed (hreg : host.registered type) (hsrc : src.connector = type)
    (href : s.connectorRef.bind truthy = none) (hnames : namesOfType connectors type = [])
    (hfree : ∀ conn ∈ connectors, conn.name ≠ type) {conn : ConnectorInstance}
    (hmem : conn ∈ connectors) (htype : conn.type = type) :
    ∃ c, configs.reverse.find? (·.name = "") = some c ∧ host.binding configs src = .ok c := by
  have hunnamed : conn.name = "" := by
    by_contra hne
    have := mem_namesOfType hmem hne
    rw [htype, hnames] at this
    exact absurd this List.not_mem_nil
  have hfilter : connectors.filter (·.type = type) = [conn] :=
    eq_singleton_of_mem (hc.single href) (by simp [hmem, htype])
  obtain ⟨c, hpair⟩ := exists_mem_zip_left hsame.length_eq hmem
  obtain ⟨c', hlookup⟩ := lookup_initial (of_mem_zip hpair).2
  rw [(same_of_mem hsame hpair).1, hunnamed] at hlookup
  refine ⟨c', hlookup, ?_⟩
  have hconfigured : (initial configs).configuredOfType src.connector = [""] := by
    rw [configuredOfType, hsrc, configured_type hsame, hfilter, List.map_singleton, hunnamed]
  have hchoose := choose_type (hsrc ▸ hc.ne_empty) (hsrc ▸ hreg) (hsrc ▸ find_free hsame hfree)
    (by simp) hconfigured
  rw [List.head?_cons, Option.bind_some, hlookup] at hchoose
  rw [Host.binding, resolveConnector_of_running hchoose]
  rfl

theorem binding_default (hreg : host.registered type) (hsrc : src.connector = type)
    (hnone : ∀ conn ∈ connectors, conn.type ≠ type) (hfree : ∀ conn ∈ connectors, conn.name ≠ type)
    {c : ConnectorConfig} : host.binding configs src = .ok c ↔
      host.start ⟨type, type, []⟩ = .ok () ∧ c = ⟨type, type, []⟩ := by
  have hempty : (initial configs).configuredOfType type = [] := by
    rw [configuredOfType, configured_type hsame, List.map_eq_nil_iff,
      List.filter_eq_nil_iff]
    intro conn hconn
    simpa using hnone conn hconn
  have hfind := find_free hsame hfree
  have hchoose : host.choose (.initial configs) src = .ok (.default type) := by
    rw [choose_type (hsrc ▸ hc.ne_empty) (hsrc ▸ hreg) (hsrc ▸ hfind) (by simp) (hsrc ▸ hempty)]
    simp [orDefault, hsrc, hfind]
  rw [Host.binding, map_eq_ok]
  simp [resolveConnector_of_default hchoose hreg]

/-- **A source is bound to what it selects exactly when it is written as that.** -/
theorem binding_selected_iff
    (hunique : ∀ name, name ≠ "" → (connectors.map (·.name)).count name ≤ 1)
    (hreg : host.registered type) (hsrc : src.connector = (resolveSource connectors s).getD "") :
    (∃ c, host.binding configs src = .ok c ∧ Selected connectors configs s c) ↔
      NamesSelected host connectors s := by
  simp only [NamesSelected, hc.connector, getD_some, ← or_assoc]
  by_cases hnamed : s.connectorRef.bind truthy ≠ none ∨ namesOfType connectors type ≠ []
  · obtain ⟨conn, c, hpair, hne, hwritten, hsel⟩ := resolveSource_name hsame hc hnamed
    rw [hwritten] at hsrc
    exact iff_of_true
      ⟨c, binding_running (hsrc ▸ hne) (hsrc ▸ find_named hsame hunique hpair hne), hsel⟩ (.inl hnamed)
  rw [or_iff_right hnamed]
  simp only [not_or, not_not] at hnamed
  obtain ⟨href, hnames⟩ := hnamed
  rw [resolveSource_type hc href hnames, getD_some] at hsrc
  by_cases hfree : ∀ conn ∈ connectors, conn.name ≠ type
  · rw [and_iff_right hfree]
    split
    next hany =>
      obtain ⟨conn, hmem, htype⟩ := List.any_eq_true.1 hany
      obtain ⟨c, hfind, hbinding⟩ :=
        binding_unnamed hsame hc hreg hsrc href hnames hfree hmem (by simpa using htype)
      rw [← find_type hsame, hfind, hbinding]
      simp only [map_some, Option.some.injEq, Except.ok.injEq, exists_eq_left']
      refine ⟨fun hsel => by simpa [hc.connector] using hsel.1, fun htype =>
        ⟨by simp [hc.connector, htype], ?_⟩⟩
      -- the last connection without a name has the type, so it is the one that was meant
      obtain ⟨conn', hpair⟩ := exists_mem_zip_right hsame.length_eq
        (List.mem_reverse.1 (List.mem_of_find?_eq_some hfind))
      have hmem' := (of_mem_zip hpair).1
      have htype' : conn'.type = type := (same_of_mem hsame hpair).2.symm.trans htype
      have hfilter : connectors.filter (·.type = type) = [conn'] :=
        eq_singleton_of_mem (hc.single href) (by simp [hmem', htype'])
      simp only [href, hc.connector, getD_some, hfilter]
      exact hpair
    next hany =>
      have hnone : ∀ conn ∈ connectors, conn.type ≠ type := by simpa using hany
      have hfilter : connectors.filter (·.type = type) = [] :=
        List.filter_eq_nil_iff.2 fun conn hconn => by simpa using hnone conn hconn
      have hsel : Selected connectors configs s ⟨type, type, []⟩ := by
        simp [Selected, hc.connector, href, hfilter]
      simp only [binding_default hsame hc hreg hsrc hnone hfree]
      exact ⟨fun ⟨_, ⟨hstart, _⟩, _⟩ => hstart, fun hstart => ⟨_, ⟨hstart, rfl⟩, hsel⟩⟩
  · -- a connection named like the type is taken, and it is of another type
    refine iff_of_false ?_ fun h => hfree h.1
    rintro ⟨c, hbinding, hsel⟩
    refine hfree ?_
    rintro conn hmem rfl
    obtain ⟨c', hpair⟩ := exists_mem_zip_left hsame.length_eq hmem
    rw [binding_running (hsrc ▸ hc.ne_empty) (hsrc ▸ find_named hsame hunique hpair hc.ne_empty)]
      at hbinding
    cases hbinding
    have hmem' := mem_namesOfType hmem hc.ne_empty
    have htype : c.type = conn.name := by simpa [hc.connector] using hsel.1
    rw [← (same_of_mem hsame hpair).2, htype, hnames] at hmem'
    exact absurd hmem' List.not_mem_nil

end Main

/-- The connector sets a service passes through: the configured connectors run, then the sources
of its flows are resolved, in any order and any number of times. -/
inductive Reached (host : Host) (flows : List FlowConfig) (start : ConnectorSet) :
    ConnectorSet → Prop
  | start : Reached host flows start start
  | resolved {set set' : ConnectorSet} {g : FlowConfig} {src : SourceConfig} {c : ConnectorConfig} :
      Reached host flows start set → g ∈ flows → g.source = some src →
      host.resolveConnector set src = .ok (c, set') → Reached host flows start set'

section Service

variable {host : Host} {d : EditorDocument} {cfg : Types.Config} {running : List ConnectorConfig}

theorem exists_source (hload : host.load (toConfig d) = .ok cfg) {f : FlowDoc} {g : FlowConfig}
    (h : (f, g) ∈ d.flows.zip cfg.flows) (hs : f.head.source = some s) :
    ∃ src, g.source = some src ∧ src.connector = (resolveSource d.connectors s).getD "" := by
  have hkey := (List.forall₂_iff_zip.1 (load_sources hload)).2 h
  rw [hs, map_some, Option.map_eq_some_iff] at hkey
  obtain ⟨src, hsrc, hkey⟩ := hkey
  exact ⟨src, hsrc, (Prod.mk.inj hkey).1⟩

/-- **The connector chosen in the editor is the one that runs** exactly when the string that is
written names it, for a source resolved after any others of the service. -/
theorem source_binding_iff (hvalid : validateDocument d = [])
    (hregistered : ∀ f ∈ d.flows, ∀ s, f.head.source = some s →
      host.registered (s.connector.getD "") = true)
    (hload : host.load (toConfig d) = .ok cfg)
    (hstart : host.startConnectors [] cfg.connectors = .ok running) :
    (∀ f g, (f, g) ∈ d.flows.zip cfg.flows → ∀ s, f.head.source = some s →
      ∃ src, g.source = some src ∧ ∀ set, Reached host cfg.flows ⟨cfg.connectors, running⟩ set →
          ∃ c set', host.resolveConnector set src = .ok (c, set') ∧
            Selected d.connectors cfg.connectors s c) ↔
      ∀ f ∈ d.flows, ∀ s, f.head.source = some s → NamesSelected host d.connectors s := by
  have hsame := load_connectors hload
  have hunique := ((validateDocument_nil_iff d).1 hvalid).2.1
  obtain rfl : running = cfg.connectors.reverse := by simpa using (startConnectors_ok.1 hstart).2
  have hreached : ∀ set, Reached host cfg.flows (.initial cfg.connectors) set →
      host.Grown cfg.connectors set := by
    intro set hset
    induction hset with
    | start => exact grown_initial
    | resolved _ _ _ hresolve ih => exact ih.resolved hresolve
  -- one source, in any set that has only defaults besides the configured connectors
  have hone : ∀ {f g s src set}, (f, g) ∈ d.flows.zip cfg.flows → f.head.source = some s →
      g.source = some src → Reached host cfg.flows (.initial cfg.connectors) set →
      ((∃ c set', host.resolveConnector set src = .ok (c, set') ∧
        Selected d.connectors cfg.connectors s c) ↔ NamesSelected host d.connectors s) := by
    intro f g s src set hpair hs hsrc hset
    have hf := (of_mem_zip hpair).1
    obtain ⟨type, hc⟩ := checked_of_valid hvalid hf hs
    have hreg := hregistered f hf s hs
    rw [hc.connector] at hreg
    obtain ⟨src', hsrc', hwritten⟩ := exists_source hload hpair hs
    cases hsrc.symm.trans hsrc'
    rw [← binding_selected_iff hsame hc hunique hreg hwritten, resolveConnector_grown (hreached set hset)]
    cases host.binding cfg.connectors src <;> simp [Except.map]
  constructor
  · intro h f hf s hs
    obtain ⟨g, hpair⟩ := exists_mem_zip_left (load_sources hload).length_eq hf
    obtain ⟨src, hsrc, hbound⟩ := h f g hpair s hs
    exact (hone hpair hs hsrc .start).1 (hbound _ .start)
  · intro h f g hpair s hs
    obtain ⟨src, hsrc, -⟩ := exists_source hload hpair hs
    exact ⟨src, hsrc, fun set hset =>
      (hone hpair hs hsrc hset).2 (h f (of_mem_zip hpair).1 s hs)⟩

end Service

/-- A document with a connection of some type and a flow that selects a queue. -/
def queueDocument (name type : String) : EditorDocument where
  flows := [⟨{ id := "f", name := "orders"
               source := some ⟨some "queue", none, some "queue", [("subject", .str "orders")]⟩ },
    [], none⟩]
  connectors := [⟨"c", name, type, []⟩]
  processors := []
  env := []

def queueSource : SourceConfig := ⟨"queue", "queue", [("subject", .str "orders")]⟩

theorem load_queueDocument {name type : String} (htype : type ≠ "queue") :
    willingHost.load (toConfig (queueDocument name type)) =
      .ok { service := ⟨"", ""⟩, env := [], connectors := [⟨name, type, []⟩], processors := []
            flows := [⟨"orders", some queueSource, [], [], 0, 0, 0⟩], resolvedEnv := [] } := by
  have hwritten : resolveSource [⟨"c", name, type, []⟩]
      ⟨some "queue", none, some "queue", [("subject", .str "orders")]⟩ = some "queue" := by
    simp [resolveSource, namesOfType, htype, truthy]
  have hflow : ∀ s : Substitutor, s.flow willingHost.unmarshal
      ⟨"orders", some queueSource, [], [], 0, 0, 0⟩ =
        .ok ⟨"orders", some queueSource, [], [], 0, 0, 0⟩ := by
    intro s
    have hstr : s.scalar willingHost.unmarshal "orders" = .ok (.str "orders") :=
      scalar_of_no_reference (by decide)
    simp [Substitutor.flow, Substitutor.source, Substitutor.settings, Substitutor.value,
      queueSource, hstr]
  have hparse : parse willingHost.truncate (toConfig (queueDocument name type)) =
      .ok { service := ⟨"", ""⟩, env := [], connectors := [⟨name, type, []⟩], processors := []
            flows := [⟨"orders", some queueSource, [], [], 0, 0, 0⟩], resolvedEnv := [] } := by
    simp only [parse, toConfig, queueDocument, List.map_cons, List.mapM_cons,
      flowToRuntime, decodeFlow, flowHeadToRuntime, map_some,
      sourceToRuntime, hwritten, decodeConnector, connectorToRuntime, getD_truthy]
    rfl
  refine bind_eq_ok.2 ⟨_, by rw [hparse]; rfl, bind_eq_ok.2 ⟨[], rfl, ?_⟩⟩
  refine bind_eq_ok.2 ⟨[⟨name, type, []⟩], rfl, bind_eq_ok.2 ⟨[], rfl, ?_⟩⟩
  exact bind_eq_ok.2 ⟨_, mapM_eq_ok_iff.2 (.cons (hflow _) .nil), rfl⟩

/-- **A connection named like a type takes the sources of that type.** -/
theorem type_named_connection_captures_source :
    validateDocument (queueDocument "queue" "http") = [] ∧
      ∃ cfg, willingHost.load (toConfig (queueDocument "queue" "http")) = .ok cfg ∧
        cfg.flows.map (·.source) = [some queueSource] ∧
        willingHost.startConnectors [] cfg.connectors = .ok [⟨"queue", "http", []⟩] ∧
        (willingHost.resolveConnector ⟨cfg.connectors, [⟨"queue", "http", []⟩]⟩ queueSource).map
          (·.1) = .ok ⟨"queue", "http", []⟩ := by
  refine ⟨?_, _, load_queueDocument (by decide), rfl, rfl, rfl⟩
  simp only [validateDocument, queueDocument, flowNames, List.flatMap_cons, visitNames, List.zipIdx_cons, checkTopFlow, checkFlow]
  decide

theorem source_binding_default :
    ∃ cfg, willingHost.load (toConfig (queueDocument "web" "http")) = .ok cfg ∧
      ∃ src, cfg.flows.map (·.source) = [some src] ∧
        ∃ c set', willingHost.resolveConnector ⟨cfg.connectors, [⟨"web", "http", []⟩]⟩ src =
          .ok (c, set') ∧ Selected (queueDocument "web" "http").connectors cfg.connectors
            ⟨some "queue", none, some "queue", [("subject", .str "orders")]⟩ c := by
  have hvalid : validateDocument (queueDocument "web" "http") = [] := by
    simp only [validateDocument, queueDocument, flowNames, List.flatMap_cons,
      visitNames, List.zipIdx_cons, checkTopFlow,
      checkFlow]
    decide
  obtain ⟨cfg, hload⟩ : ∃ cfg, willingHost.load (toConfig (queueDocument "web" "http")) = .ok cfg :=
    ⟨_, load_queueDocument (by decide)⟩
  cases (load_queueDocument (by decide)).symm.trans hload
  have hiff := source_binding_iff hvalid (by simp [queueDocument, willingHost]) hload rfl
  obtain ⟨src, hsrc, hbound⟩ := hiff.2
    (by simp [queueDocument, NamesSelected, willingHost]) _ _
    List.mem_cons_self _ rfl
  exact ⟨_, hload, src, by rw [← hsrc]; rfl, hbound _ .start⟩

end Octo.Runtime
