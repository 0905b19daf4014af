import Octo.Runtime.Load

/-!
# Merging any number of configs

`MergeConfigs` of `runtime/config.go` over a whole list of configs. The state of the merger after a
list is a function of that list (`mergerAfter`), one `add` extends the list by one config, and the
result for a list is read off from the concatenation of its configs.

* `mergeConfigs_eq_ok` — when a list merges, and into what.
* `mergeConfigs_append_lossless` — a list may be cut anywhere, its parts merged and the results
  merged; names are unique, nothing is lost, first declarations win.
* `mergeConfigs_perm` — the order of the files does not matter.
-/

namespace Octo.Runtime

open List ConfigMerger Octo.Types Octo.Config Octo.Engine Octo.Foundation.Traverse

/-! ## The configs of a list, put together -/

variable (configs : List Types.Config)

def services : List ServiceConfig :=
  (configs.map (·.service)).filter (· ≠ ⟨"", ""⟩)

/-- All sections of all configs, in order; the service is the first one declared. -/
def concatenated : Types.Config where
  service := (services configs).headD ⟨"", ""⟩
  env := configs.flatMap (·.env)
  connectors := configs.flatMap (·.connectors)
  processors := configs.flatMap (·.processors)
  flows := configs.flatMap (·.flows)
  resolvedEnv := []

structure Mergeable (configs : List Types.Config) : Prop where
  services : (services configs).length ≤ 1
  names : NamesDistinct (concatenated configs)

def mergerAfter : ConfigMerger where
  merged := mergedAlone (concatenated configs)
  serviceSet := !(services configs).isEmpty
  connectors := ((concatenated configs).connectors.filterMap fun c => some c.name).reverse
  processors := ((concatenated configs).processors.filterMap fun p => some p.name).reverse
  flows := ((concatenated configs).flows.filterMap flowName).reverse
  env := ((concatenated configs).env.foldl addEnv ([], [])).1

variable (a b : List Types.Config)

theorem services_append :
    services (a ++ b) = services a ++ services b := by
  simp [services]

variable (cfg : Types.Config)

theorem services_singleton :
    services [cfg] = if cfg.service = ⟨"", ""⟩ then [] else [cfg.service] := by
  unfold services
  split
  next h =>
    simp [h]
  next h =>
    simp [h]

theorem concatenated_singleton :
    concatenated [cfg] = { cfg with resolvedEnv := [] } := by
  have hservice : (services [cfg]).headD ⟨"", ""⟩ = cfg.service := by
    rw [services_singleton]
    split
    next h =>
      exact h.symm
    · rfl
  unfold concatenated
  rw [hservice]
  simp

@[mk_iff]
structure Apart (x y : Types.Config) : Prop where
  connectors : (x.connectors.filterMap fun c => some c.name).Disjoint
    (y.connectors.filterMap fun c => some c.name)
  processors : (x.processors.filterMap fun p => some p.name).Disjoint
    (y.processors.filterMap fun p => some p.name)
  flows : (x.flows.filterMap flowName).Disjoint (y.flows.filterMap flowName)

theorem namesDistinct_append : NamesDistinct (concatenated (a ++ b)) ↔
      NamesDistinct (concatenated a) ∧ NamesDistinct (concatenated b) ∧
        Apart (concatenated a) (concatenated b) := by
  simp only [namesDistinct_iff, apart_iff, concatenated, flatMap_append,
    filterMap_append, nodup_append']
  tauto

theorem mergeable_append : Mergeable (a ++ b) ↔
      (Mergeable a ∧ Mergeable b) ∧ (services a = [] ∨ services b = []) ∧
        Apart (concatenated a) (concatenated b) := by
  constructor
  · rintro ⟨hs, hn⟩
    rw [services_append, length_append] at hs
    obtain ⟨hna, hnb, hab⟩ := (namesDistinct_append a b).1 hn
    refine ⟨⟨⟨by omega, hna⟩, ⟨by omega, hnb⟩⟩, ?_, hab⟩
    rw [← length_eq_zero_iff, ← length_eq_zero_iff]
    omega
  · rintro ⟨⟨ha, hb⟩, hs, hab⟩
    refine ⟨?_, (namesDistinct_append a b).2 ⟨ha.names, hb.names, hab⟩⟩
    rw [services_append]
    rcases hs with hs | hs
    · rw [hs]
      simpa using hb.services
    · rw [hs]
      simpa using ha.services

theorem mergeable_singleton : Mergeable [cfg] ↔ NamesDistinct cfg := by
  have hnames : NamesDistinct (concatenated [cfg]) ↔ NamesDistinct cfg := by
    rw [concatenated_singleton]
    exact ⟨fun h => ⟨h.connectors, h.processors, h.flows⟩,
      fun h => ⟨h.connectors, h.processors, h.flows⟩⟩
  refine ⟨fun h => hnames.1 h.names, fun h => ⟨?_, hnames.2 h⟩⟩
  rw [services_singleton]
  split <;> simp

/-! ## The loop -/

variable (done : List Types.Config)

theorem foldl_addEnv_mergerAfter (cfg : Types.Config) :
    cfg.env.foldl addEnv ((mergerAfter done).env, (mergerAfter done).merged.env) =
      ((mergerAfter (done ++ [cfg])).env, (mergerAfter (done ++ [cfg])).merged.env) := by
  have hpair : ∀ configs : List Types.Config,
      ((mergerAfter configs).env, (mergerAfter configs).merged.env) =
        (concatenated configs).env.foldl addEnv ([], []) := by
    intro configs
    refine Prod.ext rfl ?_
    rw [foldl_addEnv]
    rfl
  have henv : (concatenated (done ++ [cfg])).env = (concatenated done).env ++ cfg.env := by
    simp [concatenated]
  rw [hpair, hpair, henv, foldl_append]

def mergerServed (done : List Types.Config) (cfg : Types.Config) : ConfigMerger :=
  { mergerAfter done with
    merged := { (mergerAfter done).merged with
      service := (mergerAfter (done ++ [cfg])).merged.service }
    serviceSet := (mergerAfter (done ++ [cfg])).serviceSet }

variable {m : ConfigMerger} {done : List Types.Config}

theorem addService_mergerAfter {cfg : Types.Config} :
    (mergerAfter done).addService cfg.service = .ok m ↔
      (services done = [] ∨ services [cfg] = []) ∧ m = mergerServed done cfg := by
  unfold addService
  have hall := services_append done [cfg]
  by_cases hempty : cfg.service = ⟨"", ""⟩
  · have hone : services [cfg] = [] := by rw [services_singleton, if_pos hempty]
    have hserved : mergerServed done cfg = mergerAfter done := by
      rw [hone] at hall
      simp [mergerServed, mergerAfter, concatenated, mergedAlone, hall]
    rw [if_pos hempty, hserved, hone, eq_comm]
    simp
  · have hone : services [cfg] = [cfg.service] := by rw [services_singleton, if_neg hempty]
    rw [if_neg hempty, hone]
    cases hdone : services done with
    | nil =>
      have hserved : mergerServed done cfg = { mergerAfter done with
          merged := { (mergerAfter done).merged with service := cfg.service }
          serviceSet := true } := by
        rw [hdone, hone] at hall
        simp [mergerServed, mergerAfter, concatenated, mergedAlone, hall]
      have hset : (mergerAfter done).serviceSet = false := by simp [mergerAfter, hdone]
      rw [hset, hserved, eq_comm]
      simp
    | cons => simp [mergerAfter, hdone]

theorem apart_mergerServed (cfg : Types.Config) :
    Apart (concatenated done) (concatenated [cfg]) ↔
      (∀ n ∈ cfg.connectors.filterMap fun c => some c.name,
        n ∉ (mergerServed done cfg).connectors) ∧
      (∀ n ∈ cfg.processors.filterMap fun p => some p.name,
        n ∉ (mergerServed done cfg).processors) ∧
      ∀ n ∈ cfg.flows.filterMap flowName, n ∉ (mergerServed done cfg).flows := by
  simp only [apart_iff, concatenated_singleton, mergerServed, mergerAfter, mem_reverse,
    disjoint_right]

/-- **One config more.** The merger takes it exactly when the longer list may be merged. -/
theorem add_mergerAfter {cfg : Types.Config}
    (hdone : Mergeable done) : (mergerAfter done).add cfg = .ok m ↔
      Mergeable (done ++ [cfg]) ∧ m = mergerAfter (done ++ [cfg]) := by
  have hfold : cfg.env.foldl addEnv
      ((mergerServed done cfg).env, (mergerServed done cfg).merged.env) = _ :=
    foldl_addEnv_mergerAfter done cfg
  unfold add
  simp only [bind_eq_ok, pure_eq_ok, addService_mergerAfter, foldlM_addItem_eq_ok]
  rw [mergeable_append, mergeable_singleton, apart_mergerServed]
  constructor
  · rintro ⟨_, ⟨hservice, rfl⟩, ⟨cs, allCs⟩, ⟨hcs, hcsNew, hcsEq⟩, ⟨ps, allPs⟩,
      ⟨hps, hpsNew, hpsEq⟩, ⟨fs, allFs⟩, ⟨hfs, hfsNew, hfsEq⟩, rfl⟩
    cases hcsEq
    cases hpsEq
    cases hfsEq
    refine ⟨⟨⟨hdone, ⟨hcs, hps, hfs⟩⟩, hservice, hcsNew, hpsNew, hfsNew⟩, ?_⟩
    rw [hfold]
    simp [mergerServed, mergerAfter, mergedAlone, concatenated]
  · rintro ⟨⟨⟨-, hdistinct⟩, hservice, hcsNew, hpsNew, hfsNew⟩, rfl⟩
    refine ⟨_, ⟨hservice, rfl⟩, _, ⟨hdistinct.connectors, hcsNew, rfl⟩, _,
      ⟨hdistinct.processors, hpsNew, rfl⟩, _, ⟨hdistinct.flows, hfsNew, rfl⟩, ?_⟩
    rw [hfold]
    simp [mergerServed, mergerAfter, mergedAlone, concatenated]

theorem foldlM_add_mergerAfter :
    ∀ (configs done : List Types.Config), Mergeable done →
      (configs.foldlM add (mergerAfter done) = .ok m ↔
        Mergeable (done ++ configs) ∧ m = mergerAfter (done ++ configs))
  | [], done, hdone => by
    rw [foldlM_nil, pure_eq_ok, eq_comm]
    simp [hdone]
  | cfg :: rest, done, hdone => by
    have hassoc : done ++ cfg :: rest = (done ++ [cfg]) ++ rest := by simp
    rw [foldlM_cons, bind_eq_ok, hassoc]
    constructor
    · rintro ⟨_, hadd, hrest⟩
      obtain ⟨hmore, rfl⟩ := (add_mergerAfter hdone).1 hadd
      exact (foldlM_add_mergerAfter rest _ hmore).1 hrest
    · rintro ⟨hall, hm⟩
      have hmore : Mergeable (done ++ [cfg]) := ((mergeable_append _ rest).1 hall).1.1
      exact ⟨_, (add_mergerAfter hdone).2 ⟨hmore, rfl⟩,
        (foldlM_add_mergerAfter rest _ hmore).2 ⟨hall, hm⟩⟩

theorem mergeConfigs_eq_ok (r : Types.Config) :
    mergeConfigs configs = .ok r ↔ Mergeable configs ∧ r = mergedAlone (concatenated configs) := by
  have hnil : Mergeable [] := ⟨by decide, ⟨by decide, by decide, by decide⟩⟩
  have hloop := fun m => foldlM_add_mergerAfter (m := m) configs [] hnil
  unfold mergeConfigs
  rw [map_eq_ok]
  constructor
  · rintro ⟨m, hm, rfl⟩
    obtain ⟨hconfigs, rfl⟩ := (hloop m).1 hm
    exact ⟨hconfigs, rfl⟩
  · rintro ⟨hconfigs, rfl⟩
    exact ⟨_, (hloop _).2 ⟨hconfigs, rfl⟩, rfl⟩

/-! ## Cutting the list -/

variable {configs : List Types.Config}

theorem services_merged (h : (services configs).length ≤ 1) :
    services [mergedAlone (concatenated configs)] = services configs := by
  rw [services_singleton]
  show (if (services configs).headD ⟨"", ""⟩ = ⟨"", ""⟩ then []
    else [(services configs).headD ⟨"", ""⟩]) = services configs
  cases hs : services configs with
  | nil => rfl
  | cons svc rest =>
    have hmem : svc ∈ services configs := by simp [hs]
    have hdeclared : svc ≠ ⟨"", ""⟩ := by simpa using (mem_filter.1 hmem).2
    have hrest : rest = [] := by
      rw [hs, length_cons] at h
      exact length_eq_zero_iff.1 (by omega)
    rw [headD_cons, if_neg hdeclared, hrest]

theorem firsts_firsts_append : ∀ (xs ys : List EnvVar) (seen seen' : List String),
    seen' ⊆ seen → firsts seen (firsts seen' xs ++ ys) = firsts seen (xs ++ ys)
  | [], ys, seen, seen', _ => rfl
  | e :: xs, ys, seen, seen', hsub => by
    rw [firsts.eq_2 seen', cons_append, firsts.eq_2 seen]
    by_cases hseen' : e.name ∈ seen'
    · rw [if_pos hseen', if_pos (hsub hseen')]
      exact firsts_firsts_append xs ys seen seen' hsub
    · rw [if_neg hseen', cons_append, firsts]
      by_cases hseen : e.name ∈ seen
      · rw [if_pos hseen, if_pos hseen]
        exact firsts_firsts_append xs ys seen _ (cons_subset.2 ⟨hseen, hsub⟩)
      · rw [if_neg hseen, if_neg hseen]
        congr 1
        exact firsts_firsts_append xs ys _ _ (cons_subset_cons _ hsub)

theorem firsts_append_firsts : ∀ (xs ys : List EnvVar) (seen seen' : List String),
    seen' ⊆ seen → firsts seen (xs ++ firsts seen' ys) = firsts seen (xs ++ ys)
  | [], ys, seen, seen', hsub => by
    simpa using firsts_firsts_append ys [] seen seen' hsub
  | e :: xs, ys, seen, seen', hsub => by
    rw [cons_append, cons_append, firsts, firsts]
    split
    · exact firsts_append_firsts xs ys seen seen' hsub
    · congr 1
      exact firsts_append_firsts xs ys _ seen' (subset_cons_of_subset _ hsub)

variable {a b : List Types.Config}

theorem mergedAlone_concatenated_append
    (ha : (services a).length ≤ 1) (hb : (services b).length ≤ 1) : mergedAlone (concatenated
        [mergedAlone (concatenated a), mergedAlone (concatenated b)]) =
      mergedAlone (concatenated (a ++ b)) := by
  set parts := [mergedAlone (concatenated a), mergedAlone (concatenated b)] with hparts
  have hservices : services parts = services (a ++ b) := by
    rw [services_append, ← services_merged ha, ← services_merged hb, ← services_append]
    rfl
  have hservice : (concatenated parts).service = (concatenated (a ++ b)).service := by
    unfold concatenated
    rw [hservices]
  have henv : firsts [] (concatenated parts).env = firsts [] (concatenated (a ++ b)).env := by
    have happend : (concatenated (a ++ b)).env = (concatenated a).env ++ (concatenated b).env :=
      flatMap_append
    rw [happend, ← firsts_firsts_append _ _ [] [] (List.Subset.refl _),
      ← firsts_append_firsts _ _ [] [] (List.Subset.refl _)]
    simp [parts, concatenated, mergedAlone]
  unfold mergedAlone
  rw [hservice, henv]
  simp [parts, concatenated, mergedAlone]

theorem mergeable_merged (ha : Mergeable a) (hb : Mergeable b) :
    Mergeable [mergedAlone (concatenated a), mergedAlone (concatenated b)] ↔
      Mergeable (a ++ b) := by
  have hone : ∀ {configs : List Types.Config}, Mergeable configs →
      Mergeable [mergedAlone (concatenated configs)] := fun h =>
    (mergeable_singleton _).2 ⟨h.names.connectors, h.names.processors, h.names.flows⟩
  have hsplit := mergeable_append [mergedAlone (concatenated a)] [mergedAlone (concatenated b)]
  rw [services_merged ha.services, services_merged hb.services, concatenated_singleton,
    concatenated_singleton] at hsplit
  rw [mergeable_append]
  refine hsplit.trans (and_congr ⟨fun _ => ⟨ha, hb⟩, fun _ => ⟨hone ha, hone hb⟩⟩ ?_)
  exact and_congr_right fun _ => ⟨fun h => ⟨h.connectors, h.processors, h.flows⟩,
    fun h => ⟨h.connectors, h.processors, h.flows⟩⟩

/-! ## What a merge keeps -/

theorem filter_firsts (n : String) : ∀ (decls : List EnvVar) (seen : List String),
    (firsts seen decls).filter (·.name = n) =
      if n ∈ seen then [] else (decls.find? (·.name = n)).toList
  | [], seen => by simp [firsts]
  | e :: rest, seen => by
    rw [firsts]
    by_cases hseen : e.name ∈ seen
    · rw [if_pos hseen, filter_firsts n rest seen]
      by_cases hname : e.name = n
      · rw [if_pos (hname ▸ hseen), if_pos (hname ▸ hseen)]
      · simp [hname]
    · rw [if_neg hseen, filter_cons, filter_firsts n rest (e.name :: seen)]
      by_cases hname : e.name = n
      · subst hname
        simp [hseen]
      · simp [hname, Ne.symm hname]

/-- What a successful merge keeps of its configs: all of their sections in order, with the first
declaration of each environment variable, and names that are unique. -/
structure Lossless (configs : List Types.Config) (r : Types.Config) : Prop where
  service : services [r] = services configs
  connectors : r.connectors = configs.flatMap (·.connectors)
  processors : r.processors = configs.flatMap (·.processors)
  flows : r.flows = configs.flatMap (·.flows)
  env : ∀ n, r.env.filter (·.name = n) = ((configs.flatMap (·.env)).find? (·.name = n)).toList
  connectorNames : (r.connectors.map (·.name)).Nodup
  processorNames : (r.processors.map (·.name)).Nodup
  flowNames : ((r.flows.map (·.name)).filter (· ≠ "")).Nodup

theorem filterMap_flowName (flows : List FlowConfig) :
    flows.filterMap flowName = (flows.map (·.name)).filter (· ≠ "") := by
  induction flows with
  | nil => rfl
  | cons f rest ih =>
    by_cases hname : f.name = ""
    · simpa [flowName, hname] using ih
    · simpa [flowName, hname] using ih

theorem lossless_mergedAlone (h : Mergeable configs) :
    Lossless configs (mergedAlone (concatenated configs)) where
  service := services_merged h.services
  connectors := rfl
  processors := rfl
  flows := rfl
  env n := (filter_firsts n (concatenated configs).env []).trans (if_neg not_mem_nil)
  connectorNames := filterMap_eq_map' ▸ h.names.connectors
  processorNames := filterMap_eq_map' ▸ h.names.processors
  flowNames := filterMap_flowName _ ▸ h.names.flows

/-- **Merging is associative and loses nothing.** -/
theorem mergeConfigs_append_lossless (a b : List Types.Config) (r : Types.Config) :
    (mergeConfigs (a ++ b) = .ok r ↔ ∃ ra rb, mergeConfigs a = .ok ra ∧ mergeConfigs b = .ok rb ∧
        mergeConfigs [ra, rb] = .ok r) ∧ (mergeConfigs (a ++ b) = .ok r → Lossless (a ++ b) r) := by
  simp only [mergeConfigs_eq_ok]
  refine ⟨⟨?_, ?_⟩, ?_⟩
  · rintro ⟨hall, rfl⟩
    obtain ⟨⟨ha, hb⟩, -⟩ := (mergeable_append a b).1 hall
    exact ⟨_, _, ⟨ha, rfl⟩, ⟨hb, rfl⟩, (mergeable_merged ha hb).2 hall,
      (mergedAlone_concatenated_append ha.services hb.services).symm⟩
  · rintro ⟨_, _, ⟨ha, rfl⟩, ⟨hb, rfl⟩, hparts, rfl⟩
    exact ⟨(mergeable_merged ha hb).1 hparts,
      mergedAlone_concatenated_append ha.services hb.services⟩
  · rintro ⟨hall, rfl⟩
    exact lossless_mergedAlone hall

theorem two_files_merge :
    ∃ r, mergeConfigs ([connectorsNamed ["db"]] ++ [connectorsNamed ["cache"]]) = .ok r ∧
      Lossless ([connectorsNamed ["db"]] ++ [connectorsNamed ["cache"]]) r ∧
      r.connectors.map (·.name) = ["db", "cache"] := by
  refine ⟨connectorsNamed ["db", "cache"], rfl, ?_, rfl⟩
  exact (mergeConfigs_append_lossless _ _ _).2 rfl

theorem count_names (cfgs : List Types.Config) (n : String) :
    ((mergedAlone (concatenated cfgs)).env.map (·.name)).count n =
      if ((cfgs.flatMap (·.env)).find? (·.name = n)).isSome then 1 else 0 := by
  have h := congrArg length (filter_firsts n (cfgs.flatMap (·.env)) [])
  rw [if_neg not_mem_nil, Option.length_toList, ← countP_eq_length_filter] at h
  rw [count, countP_map]
  refine Eq.trans ?_ h
  congr

/-- **The order of the files** changes neither whether they merge nor what is merged; of a repeated
variable only the name. -/
theorem mergeConfigs_perm {configs configs' : List Types.Config} (hperm : configs.Perm configs')
    {r : Types.Config} (h : mergeConfigs configs = .ok r) :
    ∃ r', mergeConfigs configs' = .ok r' ∧ r'.service = r.service ∧
      r'.connectors.Perm r.connectors ∧ r'.processors.Perm r.processors ∧ r'.flows.Perm r.flows ∧
      (r'.env.map (·.name)).Perm (r.env.map (·.name)) := by
  obtain ⟨hm, rfl⟩ := (mergeConfigs_eq_ok _ _).1 h
  have hconn : (concatenated configs').connectors.Perm (concatenated configs).connectors :=
    (hperm.flatMap_right _).symm
  have hproc : (concatenated configs').processors.Perm (concatenated configs).processors :=
    (hperm.flatMap_right _).symm
  have hflow : (concatenated configs').flows.Perm (concatenated configs).flows :=
    (hperm.flatMap_right _).symm
  have hservice : services configs' = services configs := by
    have hserv : (services configs').Perm (services configs) := ((hperm.map _).filter _).symm
    match hs : services configs, hm.services with
    | [], _ => exact perm_nil.1 (hs ▸ hserv)
    | [svc], _ => exact perm_singleton.1 (hs ▸ hserv)
  have hm' : Mergeable configs' := by
    refine ⟨hservice ▸ hm.services, ⟨?_, ?_, ?_⟩⟩
    · exact (hconn.filterMap _).nodup_iff.2 hm.names.connectors
    · exact (hproc.filterMap _).nodup_iff.2 hm.names.processors
    · exact (hflow.filterMap _).nodup_iff.2 hm.names.flows
  refine ⟨_, (mergeConfigs_eq_ok _ _).2 ⟨hm', rfl⟩, ?_, hconn, hproc, hflow, ?_⟩
  · show (services configs').headD _ = (services configs).headD _
    rw [hservice]
  · refine perm_iff_count.2 fun n => ?_
    rw [count_names, count_names]
    refine if_congr ?_ rfl rfl
    rw [find?_isSome, find?_isSome]
    exact exists_congr fun e => and_congr_left' (hperm.flatMap_right _).mem_iff.symm

theorem two_files_swapped :
    ∃ r, mergeConfigs [connectorsNamed ["cache"], connectorsNamed ["db"]] = .ok r :=
  (mergeConfigs_perm (.swap (connectorsNamed ["cache"]) (connectorsNamed ["db"]) []) rfl).imp
    fun _ h => h.1

end Octo.Runtime
