import Octo.Runtime.Sources

/-!
# Loading a config file or a directory

`runtime/config.go`: a single file is parsed and taken as it is; the files of a directory are parsed
and merged, which rejects a name that is used twice and drops repeated environment declarations.

* `mergeConfigs_single` — what the merge makes of one file.
* `single_file_agrees_iff` — a file means the same alone and in a directory exactly when no name is
  used twice, or it cannot be loaded either way.
* `duplicate_connector_loads_alone` — a file with two connectors of one name loads alone only.
-/

namespace Octo.Runtime

open List Octo.Types Octo.Config Octo.Engine Octo.Foundation.Traverse

/-! ## Merging -/

/-- The config so far and the names it has used. -/
structure ConfigMerger where
  merged : Types.Config
  serviceSet : Bool
  connectors : List String
  processors : List String
  flows : List String
  env : List String

def newConfigMerger : ConfigMerger := ⟨⟨⟨"", ""⟩, [], [], [], [], []⟩, false, [], [], [], []⟩

def claimName (seen : List String) (name kind : String) : Except String (List String) :=
  if name ∈ seen then .error (kind ++ " " ++ quoted name ++ " is defined more than once")
  else .ok (name :: seen)

def ConfigMerger.addService (m : ConfigMerger) (svc : ServiceConfig) : Except String ConfigMerger :=
  if svc = ⟨"", ""⟩ then .ok m
  else if m.serviceSet then
    .error "service identity is declared in more than one config file"
  else .ok { m with merged := { m.merged with service := svc }, serviceSet := true }

/-- One environment declaration of `add`: the first of a name wins. -/
def addEnv (st : List String × List EnvVar) (e : EnvVar) : List String × List EnvVar :=
  if e.name ∈ st.1 then st else (e.name :: st.1, st.2 ++ [e])

/-- One connector, processor or flow of `add`: its name, when it has to be unique, is claimed. -/
def addItem {α : Type} (kind : String) (name : α → Option String) (st : List String × List α)
    (x : α) : Except String (List String × List α) :=
  match name x with
  | none => .ok (st.1, st.2 ++ [x])
  | some n => (claimName st.1 n kind).map fun seen => (seen, st.2 ++ [x])

def flowName (f : FlowConfig) : Option String := if f.name = "" then none else some f.name

def ConfigMerger.add (m : ConfigMerger) (cfg : Types.Config) : Except String ConfigMerger := do
  let m ← m.addService cfg.service
  let (env, envs) := cfg.env.foldl addEnv (m.env, m.merged.env)
  let (connectors, allConnectors) ←
    cfg.connectors.foldlM (addItem "connector" fun c => some c.name)
      (m.connectors, m.merged.connectors)
  let (processors, allProcessors) ←
    cfg.processors.foldlM (addItem "processor" fun p => some p.name)
      (m.processors, m.merged.processors)
  let (flows, allFlows) ← cfg.flows.foldlM (addItem "flow" flowName) (m.flows, m.merged.flows)
  return { m with
    merged := { m.merged with
      env := envs, connectors := allConnectors, processors := allProcessors, flows := allFlows }
    env, connectors, processors, flows }

def mergeConfigs (configs : List Types.Config) : Except String Types.Config :=
  (configs.foldlM ConfigMerger.add newConfigMerger).map ConfigMerger.merged

/-! ## Files and directories -/

/-- An entry of a config directory, with what `dsl.LoadFile` makes of it. -/
structure DirEntry where
  name : String
  isDir : Bool
  file : Except String Types.Config

def fileExt (name : String) : List Char :=
  if '.' ∈ name.toList then '.' :: (name.toList.reverse.takeWhile (· ≠ '.')).reverse else []

def isYAML (name : String) : Bool := let ext := (fileExt name).map Char.toLower
  ext = ".yaml".toList || ext = ".yml".toList

/-- With the entries `os.ReadDir` returns. -/
def loadDir (dir : String) (entries : List DirEntry) : Except String Types.Config :=
  let files := entries.filter fun e => !e.isDir && isYAML e.name
  if files.isEmpty then .error ("no .yaml/.yml config files in " ++ quoted dir)
  else do
    let configs ← (files.mergeSort fun a b => a.name ≤ b.name).mapM DirEntry.file
    mergeConfigs configs

inductive ConfigPath where
  | file (file : Except String Types.Config)
  | dir (name : String) (entries : List DirEntry)

def Host.loadConfig (host : Host) (path : ConfigPath) : Except String Types.Config := do
  let cfg ←
    match path with
    | .file file => file
    | .dir name entries => loadDir name entries
  host.applyEnv cfg

/-! ## The merge of one config -/

section Items

variable {α : Type} {kind : String} {name : α → Option String}

theorem addItem_eq_ok {seen : List String} {acc : List α} {x : α} {r : List String × List α} :
    addItem kind name (seen, acc) x = .ok r ↔
      (∀ n, name x = some n → n ∉ seen) ∧ r = ((name x).toList ++ seen, acc ++ [x]) := by
  unfold addItem
  cases hn : name x with
  | none => simp [eq_comm]
  | some n =>
    by_cases hseen : n ∈ seen
    · simp [claimName, hseen, Except.map]
    · simp [claimName, hseen, Except.map, eq_comm]

theorem foldlM_addItem_eq_ok {r : List String × List α} :
    ∀ (xs : List α) (seen : List String) (acc : List α),
      xs.foldlM (addItem kind name) (seen, acc) = .ok r ↔
        (xs.filterMap name).Nodup ∧ (∀ n ∈ xs.filterMap name, n ∉ seen) ∧
          r = ((xs.filterMap name).reverse ++ seen, acc ++ xs)
  | [], seen, acc => by
    rw [foldlM_nil, pure_eq_ok]
    simp [eq_comm]
  | x :: xs, seen, acc => by
    rw [foldlM_cons, bind_eq_ok]
    have ih := foldlM_addItem_eq_ok (r := r) xs
    cases hn : name x with
    | none =>
      simp only [addItem_eq_ok, hn, filterMap_cons_none hn]
      simp [ih]
    | some n =>
      simp only [addItem_eq_ok, hn, filterMap_cons_some hn]
      constructor
      · rintro ⟨_, ⟨hnew, rfl⟩, h⟩
        obtain ⟨hnd, hall, rfl⟩ := (ih _ _).1 h
        have hnot : n ∉ xs.filterMap name := fun hmem => hall n hmem (by simp)
        refine ⟨nodup_cons.2 ⟨hnot, hnd⟩, ?_, by simp⟩
        intro k hk
        rcases mem_cons.1 hk with rfl | hk
        · exact hnew k rfl
        · exact fun hseen => hall k hk (mem_append_right _ hseen)
      · rintro ⟨hnd, hall, rfl⟩
        obtain ⟨hnot, hnd⟩ := nodup_cons.1 hnd
        refine ⟨_, ⟨?_, rfl⟩, (ih _ _).2 ⟨hnd, ?_, by simp⟩⟩
        · rintro k ⟨⟩
          exact hall n mem_cons_self
        · intro k hk hmem
          rcases mem_cons.1 hmem with rfl | hseen
          · exact hnot hk
          · exact hall k (mem_cons_of_mem _ hk) hseen

end Items

def firsts : List String → List EnvVar → List EnvVar
  | _, [] => []
  | seen, e :: rest =>
    if e.name ∈ seen then firsts seen rest else e :: firsts (e.name :: seen) rest

theorem foldl_addEnv : ∀ (decls : List EnvVar) (seen : List String) (acc : List EnvVar),
    (decls.foldl addEnv (seen, acc)).2 = acc ++ firsts seen decls
  | [], _, acc => by simp [firsts]
  | e :: rest, seen, acc => by
    rw [foldl_cons, firsts, addEnv]
    split
    · exact foldl_addEnv rest seen acc
    · rw [foldl_addEnv rest (e.name :: seen) (acc ++ [e]), append_assoc]
      rfl

theorem length_firsts_le : ∀ (decls : List EnvVar) (seen : List String),
    (firsts seen decls).length ≤ decls.length
  | [], _ => Nat.le_refl 0
  | e :: rest, seen => by
    rw [firsts]
    split
    · exact Nat.le_succ_of_le (length_firsts_le rest seen)
    · exact Nat.succ_le_succ (length_firsts_le rest (e.name :: seen))

theorem firsts_eq_self_iff : ∀ (decls : List EnvVar) (seen : List String),
    firsts seen decls = decls ↔ (decls.map (·.name)).Nodup ∧ ∀ e ∈ decls, e.name ∉ seen
  | [], seen => by simp [firsts]
  | e :: rest, seen => by
    rw [firsts]
    split
    next hseen =>
      constructor
      · intro heq
        have hlen := length_firsts_le rest seen
        rw [heq, length_cons] at hlen
        omega
      · rintro ⟨-, hall⟩
        exact absurd hseen (hall e mem_cons_self)
    next hseen =>
      rw [List.cons.injEq, firsts_eq_self_iff rest (e.name :: seen), map_cons, nodup_cons]
      constructor
      · rintro ⟨-, hnd, hall⟩
        refine ⟨⟨?_, hnd⟩, ?_⟩
        · intro hmem
          obtain ⟨d, hd, hname⟩ := mem_map.1 hmem
          exact hall d hd (hname ▸ mem_cons_self)
        · intro d hd
          rcases mem_cons.1 hd with rfl | hd
          · exact hseen
          · exact fun h => hall d hd (mem_cons_of_mem _ h)
      · rintro ⟨⟨hnot, hnd⟩, hall⟩
        refine ⟨rfl, hnd, fun d hd hmem => ?_⟩
        rcases mem_cons.1 hmem with heq | hmem
        · exact hnot (heq ▸ mem_map_of_mem hd)
        · exact hall d (mem_cons_of_mem _ hd) hmem

@[mk_iff]
structure NamesDistinct (cfg : Types.Config) : Prop where
  connectors : (cfg.connectors.filterMap fun c => some c.name).Nodup
  processors : (cfg.processors.filterMap fun p => some p.name).Nodup
  flows : (cfg.flows.filterMap flowName).Nodup

/-- The config that `MergeConfigs` makes of one config whose names are distinct. -/
def mergedAlone (cfg : Types.Config) : Types.Config :=
  { cfg with env := firsts [] cfg.env, resolvedEnv := [] }

theorem addService_new (svc : ServiceConfig) : ∃ m, newConfigMerger.addService svc = .ok m ∧
      m.merged = { newConfigMerger.merged with service := svc } ∧
      m.connectors = [] ∧ m.processors = [] ∧ m.flows = [] ∧ m.env = [] := by
  unfold ConfigMerger.addService
  split
  next h =>
    exact ⟨_, rfl, by rw [h]; rfl, rfl, rfl, rfl, rfl⟩
  · exact ⟨_, rfl, rfl, rfl, rfl, rfl, rfl⟩

theorem mergeConfigs_single (cfg r : Types.Config) :
    mergeConfigs [cfg] = .ok r ↔ NamesDistinct cfg ∧ r = mergedAlone cfg := by
  obtain ⟨m, hm, hmerged, hcs, hps, hfs, hes⟩ := addService_new cfg.service
  have hadd : mergeConfigs [cfg] = .ok r ↔
      ∃ m', newConfigMerger.add cfg = .ok m' ∧ m'.merged = r := by
    unfold mergeConfigs
    rw [foldlM_cons]
    cases newConfigMerger.add cfg with
    | error => simp [Except.map]
    | ok => simp [bind, Except.bind, Except.map, pure, Except.pure]
  rw [hadd]
  unfold ConfigMerger.add
  simp only [hm, bind_eq_ok, pure_eq_ok, foldlM_addItem_eq_ok]
  constructor
  · rintro ⟨_, ⟨m', ⟨⟩, ⟨cs, allCs⟩, ⟨hcsnd, -, hc⟩, ⟨ps, allPs⟩, ⟨hpsnd, -, hp⟩, ⟨fs, allFs⟩,
      ⟨hfsnd, -, hf⟩, rfl⟩, rfl⟩
    refine ⟨⟨hcsnd, hpsnd, hfsnd⟩, ?_⟩
    cases hc
    cases hp
    cases hf
    rw [foldl_addEnv, hmerged, hes]
    rfl
  · rintro ⟨⟨hcsnd, hpsnd, hfsnd⟩, rfl⟩
    refine ⟨_, ⟨m, rfl, _, ⟨hcsnd, by simp [hcs], rfl⟩, _, ⟨hpsnd, by simp [hps], rfl⟩, _,
      ⟨hfsnd, by simp [hfs], rfl⟩, rfl⟩, ?_⟩
    rw [foldl_addEnv, hmerged, hes]
    rfl

/-! ## One file, alone and in a directory -/

def SameLoad : Except String Types.Config → Except String Types.Config → Prop
  | .ok a, .ok b => a = b
  | .error _, .error _ => True
  | _, _ => False

theorem sameLoad_iff {x y : Except String Types.Config} :
    SameLoad x y ↔ ∀ cfg, x = .ok cfg ↔ y = .ok cfg := by
  cases x with
  | error e | ok a =>
    cases y with
    | error => simp [SameLoad]
    | ok => simp [SameLoad]

def onlyFile (dir name : String) (file : Except String Types.Config) : ConfigPath :=
  .dir dir [⟨name, false, file⟩]

/-- The environment variables a config declares are distinct too. -/
structure Distinct (cfg : Types.Config) : Prop extends NamesDistinct cfg where
  env : (cfg.env.map (·.name)).Nodup

def Host.Refuses (host : Host) (cfg : Types.Config) : Prop := ∀ r, host.applyEnv cfg ≠ .ok r

theorem loadDir_onlyFile {dir name : String} {file : Except String Types.Config}
    (hname : isYAML name = true) :
    loadDir dir [⟨name, false, file⟩] = file >>= fun cfg => mergeConfigs [cfg] := by
  unfold loadDir
  simp [hname]

variable {cfg : Types.Config}

theorem mergedAlone_eq_iff : (mergedAlone cfg).env = cfg.env ↔ (cfg.env.map (·.name)).Nodup := by
  unfold mergedAlone
  rw [firsts_eq_self_iff]
  simp

variable {host : Host}

theorem applyEnv_env {r : Types.Config} (h : host.applyEnv cfg = .ok r) :
    r.env = cfg.env := by
  obtain ⟨resolved, -, h⟩ := bind_eq_ok.1 h
  obtain ⟨connectors, -, h⟩ := bind_eq_ok.1 h
  obtain ⟨processors, -, h⟩ := bind_eq_ok.1 h
  obtain ⟨flows, -, h⟩ := bind_eq_ok.1 h
  rw [← pure_eq_ok.1 h]

theorem applyEnv_mergedAlone (henv : (cfg.env.map (·.name)).Nodup) :
    host.applyEnv (mergedAlone cfg) = host.applyEnv cfg := by
  unfold Host.applyEnv
  unfold mergedAlone
  rw [(firsts_eq_self_iff cfg.env []).2 ⟨henv, by simp⟩]

theorem loadConfig_onlyFile {dir name : String} {r : Types.Config}
    (hname : isYAML name = true) : host.loadConfig (onlyFile dir name (.ok cfg)) = .ok r ↔
      NamesDistinct cfg ∧ host.applyEnv (mergedAlone cfg) = .ok r := by
  unfold Host.loadConfig onlyFile
  dsimp only
  rw [loadDir_onlyFile hname, bind_eq_ok]
  constructor
  · rintro ⟨merged, hmerged, h⟩
    obtain ⟨hnames, rfl⟩ := (mergeConfigs_single cfg merged).1 hmerged
    exact ⟨hnames, h⟩
  · rintro ⟨hnames, h⟩
    exact ⟨_, (mergeConfigs_single cfg _).2 ⟨hnames, rfl⟩, h⟩

/-- **A file alone and in a directory.** -/
theorem single_file_agrees_iff (host : Host) (dir name : String)
    (file : Except String Types.Config) (hname : isYAML name = true) :
    SameLoad (host.loadConfig (.file file)) (host.loadConfig (onlyFile dir name file)) ↔
      ∀ cfg, file = .ok cfg → Distinct cfg ∨
          host.Refuses cfg ∧ (NamesDistinct cfg → host.Refuses (mergedAlone cfg)) := by
  cases file with
  | error e =>
    have hdir : host.loadConfig (onlyFile dir name (.error e)) = .error e := by
      unfold Host.loadConfig onlyFile
      dsimp only
      rw [loadDir_onlyFile hname]
      rfl
    rw [hdir]
    exact ⟨fun _ _ h => (nomatch h), fun _ => trivial⟩
  | ok cfg =>
    rw [sameLoad_iff]
    simp only [loadConfig_onlyFile hname, Except.ok.injEq, forall_eq']
    constructor
    · intro h
      by_cases hdistinct : Distinct cfg
      · exact .inl hdistinct
      · -- A config that loads one way loads the other way, with the same declarations.
        refine .inr ⟨?_, ?_⟩
        · intro r hr
          obtain ⟨hnames, hmerged⟩ := (h r).1 hr
          have henv := (applyEnv_env hmerged).symm.trans (applyEnv_env hr)
          exact hdistinct ⟨hnames, mergedAlone_eq_iff.1 henv⟩
        · intro hnames r hmerged
          have hr := (h r).2 ⟨hnames, hmerged⟩
          have henv := (applyEnv_env hmerged).symm.trans (applyEnv_env hr)
          exact hdistinct ⟨hnames, mergedAlone_eq_iff.1 henv⟩
    · rintro (hdistinct | ⟨hrefuses, hmerged⟩) r
      · rw [applyEnv_mergedAlone hdistinct.env]
        exact ⟨fun hr => ⟨hdistinct.toNamesDistinct, hr⟩, And.right⟩
      · exact ⟨fun hr => absurd hr (hrefuses r), fun hr => absurd hr.2 (hmerged hr.1 r)⟩

def connectorsNamed (names : List String) : Types.Config :=
  ⟨⟨"", ""⟩, [], names.map fun name => ⟨name, "sql", []⟩, [], [], []⟩

theorem one_connector_agrees :
    isYAML "app.yaml" = true ∧ Distinct (connectorsNamed ["db"]) ∧
      SameLoad (willingHost.loadConfig (.file (.ok (connectorsNamed ["db"]))))
        (willingHost.loadConfig (onlyFile "conf" "app.yaml" (.ok (connectorsNamed ["db"])))) := by
  have hdistinct : Distinct (connectorsNamed ["db"]) :=
    ⟨⟨by decide, by decide, by decide⟩, by decide⟩
  refine ⟨by decide, hdistinct, ?_⟩
  refine (single_file_agrees_iff willingHost "conf" "app.yaml" _ (by decide)).2 ?_
  rintro _ ⟨⟩
  exact .inl hdistinct

/-- Two connectors of one name load from the file and not from its directory. -/
theorem duplicate_connector_loads_alone :
    (∃ cfg, willingHost.loadConfig (.file (.ok (connectorsNamed ["db", "db"]))) = .ok cfg) ∧
      willingHost.loadConfig (onlyFile "conf" "app.yaml" (.ok (connectorsNamed ["db", "db"]))) =
        .error "connector \"db\" is defined more than once" := by
  have hdir : loadDir "conf" [⟨"app.yaml", false, .ok (connectorsNamed ["db", "db"])⟩] =
      .error "connector \"db\" is defined more than once" := by
    rw [loadDir_onlyFile (by decide)]
    rfl
  refine ⟨⟨connectorsNamed ["db", "db"], rfl⟩, ?_⟩
  unfold Host.loadConfig onlyFile
  dsimp only
  rw [hdir]
  rfl

end Octo.Runtime
