import Octo.Foundation.Trim
import Octo.Foundation.Traverse
import Mathlib.Data.List.AList
import Mathlib.Data.List.Sort

/-!
# The environment of a deployed runtime

`deployment/envports.go`, `Service.resolveEnvBindings` and `kube.Client.podEnv`: the orchestrator
reads the port an integration listens on from its definition, splits the user's bindings into
literal values and secret references, and writes the container's environment as the variables of
the runtime services followed by the user's.  `Deploy` and `Rollout` both go through these
functions.

When a name occurs twice in a container's environment, the last entry counts (`seen`).

* `seen_podEnv` — a container sees what the user bound before what the orchestrator injected.
* `identity_authoritative_iff` — the orchestrator's own variables are the injected ones exactly
  when no binding that is accepted gives one of them another value.
-/

namespace Octo.Deployment

open List Option AList
open Octo.Foundation (trimSpace)
open Octo.Foundation.Traverse (bind_eq_ok map_eq_ok pure_eq_ok)

/-! ## Names -/

def envHTTPPort : String := "HTTP_PORT"

def envHTTPHost : String := "HTTP_HOST"

def bindAllHost : String := "0.0.0.0"

def envServicesModule : String := "RUNTIME_SERVICES_MODULE"

def envDeploymentID : String := "OCTO_DEPLOYMENT_ID"

def envDeploymentName : String := "OCTO_DEPLOYMENT_NAME"

def envDeploymentVer : String := "OCTO_DEPLOYMENT_VERSION"

def envOrchestrator : String := "ORCHESTRATOR_URL"

def envNATSURL : String := "NATS_URL"

def envPodName : String := "POD_NAME"

def envPodNamespace : String := "POD_NAMESPACE"

def secretsName : String := "octo-secrets"

/-! ## The port of an integration -/

/-- One entry of `envDecl.Env`. -/
structure EnvDecl where
  name : String
  default : Option String
deriving DecidableEq

def decimal (digits : List Char) : Option Nat := if digits ≠ [] ∧ digits.all Char.isDigit then
    some (digits.foldl (fun n c => 10 * n + (c.toNat - '0'.toNat)) 0)
  else none

/-- With an overflow as a large number. -/
def atoi (s : String) : Option Int := match s.toList with
  | '-' :: digits => (decimal digits).map fun n => -(n : Int)
  | '+' :: digits => (decimal digits).map Int.ofNat
  | digits => (decimal digits).map Int.ofNat

/-- The port an `HTTP_PORT` declaration gives, if it is usable. -/
def declaredPort (e : EnvDecl) : Option Nat :=
  (e.default.bind fun d => atoi (trimSpace d)).bind fun p =>
    if 0 < p ∧ p ≤ 65535 then some p.toNat else none

abbrev EnvMap := AList fun _ : String => String

/-- What `resolveRuntimeEnv` returns: the port, 0 for none, the variables it supplies, and whether
the integration can be exposed. -/
structure RuntimeEnv where
  port : Nat
  env : EnvMap
  exposable : Bool

/-- `resolveRuntimeEnv` of the declarations of a definition; the last usable port counts. -/
def resolveRuntimeEnv (decls : Option (List EnvDecl)) : RuntimeEnv := match decls with
  | none => ⟨0, ∅, false⟩
  | some decls =>
    let ports := (decls.filter (trimSpace ·.name = envHTTPPort)).filterMap declaredPort
    match ports.getLast? with
    | none => ⟨0, ∅, false⟩
    | some port =>
      let env := (∅ : EnvMap).insert envHTTPPort (toString port)
      ⟨port, if decls.any (trimSpace ·.name = envHTTPHost) then env.insert envHTTPHost bindAllHost
        else env, true⟩

/-! ## Bindings -/

structure EnvBinding where
  value : String := ""
  secret : String := ""
deriving DecidableEq

abbrev Bindings := AList fun _ : String => EnvBinding

inductive BindingError where
  | reservedEnvVar
  | secretNotFound
  | lookup (err : String)
deriving DecidableEq

def bindOne (acc : EnvMap × EnvMap) (b : Sigma fun _ : String => EnvBinding) :
    Except BindingError (EnvMap × EnvMap) :=
  if b.1 = envHTTPPort ∨ b.1 = envHTTPHost then .error .reservedEnvVar
  else if b.2.secret ≠ "" then .ok (acc.1, acc.2.insert b.1 b.2.secret)
  else .ok (acc.1.insert b.1 b.2.value, acc.2)

variable (secretKeyExists : String → Except String Bool)

def checkSecret
    (s : Sigma fun _ : String => String) : Except BindingError Unit :=
  match secretKeyExists s.2 with
  | .error err => .error (.lookup err)
  | .ok true => .ok ()
  | .ok false => .error .secretNotFound

def resolveEnvBindings (runtimeEnv : EnvMap)
    (bindings : Bindings) : Except BindingError (EnvMap × EnvMap) := do
  let maps ← bindings.entries.foldlM bindOne (runtimeEnv, ∅)
  maps.2.entries.forM (checkSecret secretKeyExists)
  return maps

/-! ## The container -/

/-- The part the environment reads. -/
structure RuntimeServices where
  module : String
  orchestratorURL : String
  natsURL : String
deriving DecidableEq

/-- The part the environment reads. -/
structure Spec where
  id : String
  name : String
  version : String
  env : EnvMap
  secretEnv : EnvMap

/-- Where a variable's value comes from: `Value`, `FieldRef` or `SecretKeyRef`. -/
inductive Source where
  | value (v : String)
  | fieldRef (path : String)
  | secretKeyRef (name key : String)
deriving DecidableEq

structure EnvVar where
  name : String
  source : Source
deriving DecidableEq

def whenSet (name value : String) : List EnvVar :=
  if value ≠ "" then [⟨name, .value value⟩] else []

def runtimeServicesEnv (rs : RuntimeServices) (spec : Spec) : List EnvVar :=
  if rs.module = "" then []
  else
    [⟨envServicesModule, .value rs.module⟩, ⟨envDeploymentID, .value spec.id⟩,
      ⟨envOrchestrator, .value rs.orchestratorURL⟩, ⟨envPodName, .fieldRef "metadata.name"⟩,
      ⟨envPodNamespace, .fieldRef "metadata.namespace"⟩] ++
      whenSet envNATSURL rs.natsURL ++ whenSet envDeploymentName spec.name ++
      whenSet envDeploymentVer spec.version

/-- The entry `containerEnv` writes for a name. -/
def containerVar (spec : Spec) (name : String) : EnvVar := ⟨name, match spec.env.lookup name with
    | some v => .value v
    | none => .secretKeyRef secretsName ((spec.secretEnv.lookup name).getD "")⟩

def containerEnv (spec : Spec) : List EnvVar :=
  let names := spec.env.keys ++ spec.secretEnv.keys.filter (· ∉ spec.env.keys)
  (names.mergeSort fun a b => decide (a ≤ b)).map (containerVar spec)

def podEnv (rs : RuntimeServices) (spec : Spec) : List EnvVar :=
  runtimeServicesEnv rs spec ++ containerEnv spec

def seen (env : List EnvVar) (name : String) : Option Source :=
  (env.reverse.find? (·.name = name)).map EnvVar.source

/-- The specification `Deploy` and `Rollout` hand to the cluster, once the bindings are accepted. -/
def buildSpec (id name version : String)
    (decls : Option (List EnvDecl)) (bindings : Bindings) : Except BindingError Spec :=
  (resolveEnvBindings secretKeyExists (resolveRuntimeEnv decls).env bindings).map fun maps =>
    ⟨id, name, version, maps.1, maps.2⟩

/-! ## What a container sees -/

theorem seen_append (a b : List EnvVar) (name : String) :
    seen (a ++ b) name = (seen b name).or (seen a name) := by
  unfold seen
  rw [reverse_append, find?_append]
  cases List.find? _ b.reverse <;> rfl

theorem seen_map {f : String → EnvVar} (hf : ∀ k, (f k).name = k) (names : List String)
    (name : String) :
    seen (names.map f) name = if name ∈ names then some (f name).source else none := by
  unfold seen
  split
  next hmem =>
    have hsome : ((names.map f).reverse.find? (·.name = name)).isSome := by
      rw [find?_isSome]
      exact ⟨f name, by simpa using ⟨name, hmem, rfl⟩, by simp [hf]⟩
    obtain ⟨e, he⟩ := isSome_iff_exists.1 hsome
    -- every entry of that name is the same
    have hname : e.name = name := by simpa using find?_some he
    obtain ⟨k, -, rfl⟩ : ∃ k ∈ names, f k = e := by
      simpa using mem_of_find?_eq_some he
    rw [hf] at hname
    rw [he, hname]
    rfl
  next hmem =>
    rw [find?_eq_none.2]
    · rfl
    · intro e he
      obtain ⟨k, hk, rfl⟩ : ∃ k ∈ names, f k = e := by simpa using he
      rw [hf]
      simp only [decide_eq_true_eq]
      exact fun h => hmem (h ▸ hk)

theorem seen_containerEnv (spec : Spec) (name : String) :
    seen (containerEnv spec) name = ((spec.env.lookup name).map Source.value).or
      ((spec.secretEnv.lookup name).map (Source.secretKeyRef secretsName)) := by
  unfold containerEnv
  rw [seen_map fun _ => rfl]
  simp only [mem_mergeSort, mem_append, mem_filter, containerVar]
  have hmem : ∀ m : EnvMap, name ∈ m.keys ↔ (m.lookup name).isSome := fun _ =>
    lookup_isSome.symm
  simp only [hmem]
  cases spec.env.lookup name <;> cases spec.secretEnv.lookup name <;> simp

theorem seen_podEnv (rs : RuntimeServices) (spec : Spec) (name : String) :
    seen (podEnv rs spec) name =
      (seen (containerEnv spec) name).or (seen (runtimeServicesEnv rs spec) name) :=
  seen_append ..

/-! ## Accepted bindings -/

def EnvBinding.source (b : EnvBinding) : Source :=
  if b.secret = "" then .value b.value else .secretKeyRef secretsName b.secret

variable {b : Sigma fun _ : String => EnvBinding} {acc acc' : EnvMap × EnvMap}

theorem bindOne_spec
    (h : bindOne acc b = .ok acc') : b.1 ≠ envHTTPPort ∧ b.1 ≠ envHTTPHost ∧
      (b.2.secret = "" → acc'.1.lookup b.1 = some b.2.value ∧ acc'.2 = acc.2) ∧
      (b.2.secret ≠ "" → acc'.1 = acc.1 ∧ acc'.2.lookup b.1 = some b.2.secret) ∧
      ∀ name ≠ b.1, acc'.1.lookup name = acc.1.lookup name ∧
        acc'.2.lookup name = acc.2.lookup name := by
  unfold bindOne at h
  split at h
  · cases h
  next hreserved =>
    rw [not_or] at hreserved
    refine ⟨hreserved.1, hreserved.2, ?_⟩
    split at h
    next hsecret =>
      cases h
      exact ⟨fun h => absurd h hsecret, fun _ => ⟨rfl, lookup_insert _⟩,
        fun name hname => ⟨rfl, lookup_insert_ne hname⟩⟩
    next hsecret =>
      cases h
      exact ⟨fun _ => ⟨lookup_insert _, rfl⟩, fun h => absurd h hsecret,
        fun name hname => ⟨lookup_insert_ne hname, rfl⟩⟩

def mapsSource (maps : EnvMap × EnvMap) (name : String) : Option Source :=
  ((maps.1.lookup name).map Source.value).or
    ((maps.2.lookup name).map (Source.secretKeyRef secretsName))

open EnvBinding

theorem mapsSource_bindOne (h : bindOne acc b = .ok acc')
    (hnew : acc.1.lookup b.1 = none) (name : String) :
    mapsSource acc' name = if name = b.1 then some b.2.source else mapsSource acc name := by
  obtain ⟨-, -, hliteral, hsecret, hother⟩ := bindOne_spec h
  unfold mapsSource
  split
  next hname =>
    subst hname
    unfold source
    split
    next hempty =>
      rw [(hliteral hempty).1]
      rfl
    next hempty =>
      rw [(hsecret hempty).1, (hsecret hempty).2, hnew]
      rfl
  next hname =>
    rw [(hother name hname).1, (hother name hname).2]

theorem keys_foldlM : ∀ (l : List (Sigma fun _ : String => EnvBinding))
    (acc acc' : EnvMap × EnvMap), l.foldlM bindOne acc = .ok acc' →
    ∀ k ∈ l.keys, k ≠ envHTTPPort ∧ k ≠ envHTTPHost
  | [], _, _, _ => nofun
  | b :: l, acc, acc', h => by
    obtain ⟨acc1, hb, hl⟩ := bind_eq_ok.1 h
    intro k hk
    rcases mem_cons.1 hk with rfl | hk
    · exact ⟨(bindOne_spec hb).1, (bindOne_spec hb).2.1⟩
    · exact keys_foldlM l acc1 acc' hl k hk

/-- **The loop over the bindings gives every name its binding**, and leaves the others what was
there. -/
theorem mapsSource_foldlM : ∀ (l : List (Sigma fun _ : String => EnvBinding))
    (acc acc' : EnvMap × EnvMap), l.NodupKeys → (∀ k ∈ l.keys, acc.1.lookup k = none) →
    l.foldlM bindOne acc = .ok acc' → ∀ name,
      mapsSource acc' name = ((l.dlookup name).map source).or (mapsSource acc name)
  | [], acc, acc', _, _, h => by
    cases pure_eq_ok.1 h
    exact fun _ => rfl
  | b :: l, acc, acc', hnodup, hnew, h => by
    obtain ⟨acc1, hb, hl⟩ := bind_eq_ok.1 h
    obtain ⟨hnotmem, hnodup⟩ := nodupKeys_cons.1 hnodup
    have hnew_b : acc.1.lookup b.1 = none := hnew b.1 (by simp)
    have hnew_l : ∀ k ∈ l.keys, acc1.1.lookup k = none := by
      intro k hk
      have hne : k ≠ b.1 := fun h => hnotmem (h ▸ hk)
      rw [((bindOne_spec hb).2.2.2.2 k hne).1]
      exact hnew k (by simp [hk])
    intro name
    rw [mapsSource_foldlM l acc1 acc' hnodup hnew_l hl, mapsSource_bindOne hb hnew_b]
    by_cases hname : name = b.1
    · subst hname
      have hnone : l.dlookup b.1 = none := dlookup_eq_none.2 hnotmem
      rw [if_pos rfl, hnone, dlookup_cons_eq]
      rfl
    · rw [if_neg hname, dlookup_cons_ne _ _ hname]

theorem secrets_foldlM : ∀ (l : List (Sigma fun _ : String => EnvBinding))
    (acc acc' : EnvMap × EnvMap), l.NodupKeys → l.foldlM bindOne acc = .ok acc' →
    (∀ name ∉ l.keys, acc'.2.lookup name = acc.2.lookup name) ∧
      ∀ b ∈ l, b.2.secret ≠ "" → acc'.2.lookup b.1 = some b.2.secret
  | [], acc, acc', _, h => by
    cases pure_eq_ok.1 h
    exact ⟨fun _ _ => rfl, nofun⟩
  | b :: l, acc, acc', hnodup, h => by
    obtain ⟨acc1, hb, hl⟩ := bind_eq_ok.1 h
    obtain ⟨hnotmem, hnodup⟩ := nodupKeys_cons.1 hnodup
    obtain ⟨-, -, -, hsecret, hother⟩ := bindOne_spec hb
    obtain ⟨hrest, hmem⟩ := secrets_foldlM l acc1 acc' hnodup hl
    refine ⟨fun name hname => ?_, fun b' hb' hne => ?_⟩
    · rw [keys_cons, mem_cons, not_or] at hname
      rw [hrest name hname.2, (hother name hname.1).2]
    · rcases mem_cons.1 hb' with rfl | hb'
      · rw [hrest _ hnotmem, (hsecret hne).2]
      · exact hmem b' hb' hne

variable {name : String}

theorem lookup_resolveRuntimeEnv (decls : Option (List EnvDecl))
    (h : name ≠ envHTTPPort ∧ name ≠ envHTTPHost) :
    (resolveRuntimeEnv decls).env.lookup name = none := by
  unfold resolveRuntimeEnv
  split
  · rfl
  · simp only
    split
    · rfl
    · split
      · rw [lookup_insert_ne h.2, lookup_insert_ne h.1]
        rfl
      · rw [lookup_insert_ne h.1]
        rfl

/-! ## The orchestrator's own variables -/

def servicesVars : List String :=
  [envServicesModule, envDeploymentID, envOrchestrator, envPodName, envPodNamespace, envNATSURL,
    envDeploymentName, envDeploymentVer]

def ownedVars : List String := servicesVars ++ [envHTTPPort, envHTTPHost]

structure Launch where
  id : String
  name : String
  version : String
  decls : Option (List EnvDecl)

def Launch.injected (l : Launch) (rs : RuntimeServices) (name : String) : Option Source :=
  (seen (runtimeServicesEnv rs ⟨l.id, l.name, l.version, ∅, ∅⟩) name).or
    (((resolveRuntimeEnv l.decls).env.lookup name).map Source.value)

def Launch.Keeps (l : Launch) (rs : RuntimeServices) (bindings : Bindings) : Prop :=
  ∀ name b, bindings.lookup name = some b → name ∈ servicesVars →
    b.secret = "" ∧ l.injected rs name = some (.value b.value)

theorem services_ne_http (h : name ∈ servicesVars) : name ≠ envHTTPPort ∧ name ≠ envHTTPHost := by
  have hall : ∀ name ∈ servicesVars, name ≠ envHTTPPort ∧ name ≠ envHTTPHost := by decide
  exact hall name h

variable {rs : RuntimeServices}

theorem runtimeServicesEnv_spec {spec : Spec} {v : EnvVar}
    (h : v ∈ runtimeServicesEnv rs spec) :
    v.name ∈ servicesVars ∧ ∀ name key, v.source ≠ .secretKeyRef name key := by
  unfold runtimeServicesEnv whenSet at h
  split at h
  · cases h
  · simp only [cons_append, nil_append, mem_cons, mem_append,
      mem_ite_nil_right, not_mem_nil, or_false] at h
    rcases h with rfl | rfl | rfl | rfl | rfl | (⟨-, rfl⟩ | ⟨-, rfl⟩) | ⟨-, rfl⟩
    all_goals exact ⟨by simp [servicesVars], by simp⟩

theorem seen_services_of_not_mem (rs : RuntimeServices) (spec : Spec)
    (h : name ∉ servicesVars) : seen (runtimeServicesEnv rs spec) name = none := by
  unfold seen
  rw [find?_eq_none.2]
  · rfl
  · intro v hv
    have hname := (runtimeServicesEnv_spec (mem_reverse.1 hv)).1
    simp only [decide_eq_true_eq]
    exact fun heq => h (heq ▸ hname)

theorem seen_services_ne_secret {spec : Spec} {secret key : String} :
    seen (runtimeServicesEnv rs spec) name ≠ some (.secretKeyRef secret key) := by
  intro h
  obtain ⟨v, hv, hsource⟩ := map_eq_some_iff.1 h
  exact (runtimeServicesEnv_spec (mem_reverse.1 (mem_of_find?_eq_some hv))).2 _ _ hsource

section Accepted

variable {secretKeyExists : String → Except String Bool} {l : Launch} {bindings : Bindings}
  {spec : Spec}

variable (rs : RuntimeServices)

/-- **What a container sees**: the binding of the name, then the port or host, then the runtime
services. -/
theorem seen_accepted (h : buildSpec secretKeyExists l.id l.name l.version l.decls bindings = .ok spec) :
    (∀ name b, bindings.lookup name = some b → name ≠ envHTTPPort ∧ name ≠ envHTTPHost) ∧
    ∀ name, seen (podEnv rs spec) name = (((bindings.lookup name).map source).or
        (((resolveRuntimeEnv l.decls).env.lookup name).map Source.value)).or
        (seen (runtimeServicesEnv rs ⟨l.id, l.name, l.version, ∅, ∅⟩) name) := by
  obtain ⟨maps, hmaps, rfl⟩ := map_eq_ok.1 h
  obtain ⟨maps', hfold, hrest⟩ := bind_eq_ok.1 hmaps
  obtain ⟨-, -, hpure⟩ := bind_eq_ok.1 hrest
  obtain rfl := pure_eq_ok.1 hpure
  have hkeys := keys_foldlM bindings.entries _ maps' hfold
  have hsource := mapsSource_foldlM bindings.entries _ maps' bindings.nodupKeys
    (fun k hk => lookup_resolveRuntimeEnv l.decls (hkeys k hk)) hfold
  refine ⟨fun name b hb => hkeys name ?_, fun name => ?_⟩
  · exact dlookup_isSome.1 (isSome_of_eq_some hb)
  · rw [seen_podEnv, seen_containerEnv]
    show (mapsSource maps' name).or (seen (runtimeServicesEnv rs _) name) = _
    rw [hsource]
    congr 2
    simp [mapsSource]

theorem authoritative_iff (h : buildSpec secretKeyExists l.id l.name l.version l.decls bindings = .ok spec) :
    (∀ name ∈ ownedVars, seen (podEnv rs spec) name = l.injected rs name) ↔
      l.Keeps rs bindings := by
  obtain ⟨hreserved, hseen⟩ := seen_accepted rs h
  -- a variable of the runtime services: its binding comes before what is injected
  have hservices : ∀ name ∈ servicesVars, (seen (podEnv rs spec) name = l.injected rs name ↔
      ∀ b, bindings.lookup name = some b →
        b.secret = "" ∧ l.injected rs name = some (.value b.value)) := by
    intro name hname
    have hruntime := lookup_resolveRuntimeEnv l.decls (services_ne_http hname)
    unfold Launch.injected
    rw [hseen, hruntime]
    cases hb : bindings.lookup name with
    | none => simp
    | some b =>
      simp only [map_some, map_none, or_none, Option.some.injEq, forall_eq']
      unfold source
      split
      next hempty =>
        simp only [hempty, true_and]
        exact eq_comm
      next hempty =>
        simp only [hempty, false_and, iff_false]
        exact fun heq => seen_services_ne_secret heq.symm
  -- the port and the host: no binding of them is accepted
  have hhttp : ∀ name ∈ [envHTTPPort, envHTTPHost],
      seen (podEnv rs spec) name = l.injected rs name := by
    intro name hname
    have hnot : name ∉ servicesVars := by
      intro hmem
      have := services_ne_http hmem
      simp_all
    have hbinding : bindings.lookup name = none := by
      cases hb : bindings.lookup name with
      | none => rfl
      | some b =>
        simp_all
    unfold Launch.injected
    rw [hseen, hbinding, seen_services_of_not_mem rs _ hnot]
    simp
  unfold ownedVars Launch.Keeps
  simp only [forall_mem_append]
  constructor
  · rintro ⟨hs, -⟩ name b hb hname
    exact (hservices name hname).1 (hs name hname) b hb
  · intro hkeeps
    exact ⟨fun name hname => (hservices name hname).2 fun b hb => hkeeps name b hb hname, hhttp⟩

/-- **The orchestrator's variables are the injected ones, in two runs that differ in the user's
bindings only, exactly when neither set of bindings gives one of them another value.** -/
theorem identity_authoritative_iff {bindings' : Bindings} {spec' : Spec}
    (h : buildSpec secretKeyExists l.id l.name l.version l.decls bindings = .ok spec)
    (h' : buildSpec secretKeyExists l.id l.name l.version l.decls bindings' = .ok spec') :
    ((∀ name ∈ ownedVars, seen (podEnv rs spec) name = l.injected rs name) ∧
      (∀ name ∈ ownedVars, seen (podEnv rs spec') name = l.injected rs name) ∧
      seen (podEnv rs spec) envDeploymentID = seen (podEnv rs spec') envDeploymentID) ↔
      l.Keeps rs bindings ∧ l.Keeps rs bindings' := by
  rw [← authoritative_iff rs h, ← authoritative_iff rs h']
  constructor
  · exact fun ⟨hs, hs', _⟩ => ⟨hs, hs'⟩
  · rintro ⟨hs, hs'⟩
    have hid : envDeploymentID ∈ ownedVars := by decide
    exact ⟨hs, hs', (hs _ hid).trans (hs' _ hid).symm⟩

end Accepted

/-! ## A stolen identity -/

def ownLaunch : Launch := ⟨"own-id", "orders", "v1", none⟩

def clusterServices : RuntimeServices := ⟨"k8s", "http://orchestrator", ""⟩

def bindVar (name : String) (b : EnvBinding) : Bindings := (∅ : Bindings).insert name b

/-- The bindings of `ownLaunch` that are accepted. -/
def ownSpec (bindings : Bindings) : Except BindingError Spec :=
  buildSpec (fun _ => .ok true) ownLaunch.id ownLaunch.name ownLaunch.version ownLaunch.decls
    bindings

/-- A binding of `OCTO_DEPLOYMENT_ID` is accepted, and the pod sees the id the user chose. -/
theorem deployment_id_overridden :
    ∃ spec, ownSpec (bindVar envDeploymentID ⟨"other-id", ""⟩) = .ok spec ∧
      ownLaunch.injected clusterServices envDeploymentID = some (.value "own-id") ∧
      seen (podEnv clusterServices spec) envDeploymentID = some (.value "other-id") := by
  obtain ⟨spec, hspec⟩ : ∃ spec, ownSpec (bindVar envDeploymentID ⟨"other-id", ""⟩) = .ok spec :=
    ⟨_, rfl⟩
  refine ⟨spec, hspec, rfl, ?_⟩
  rw [(seen_accepted clusterServices hspec).2]
  rfl

theorem identity_authoritative_secret :
    ∃ spec spec', ownSpec ∅ = .ok spec ∧ ownSpec (bindVar "API_KEY" ⟨"", "key"⟩) = .ok spec' ∧
      (∀ name ∈ ownedVars,
        seen (podEnv clusterServices spec') name = ownLaunch.injected clusterServices name) ∧
      seen (podEnv clusterServices spec) envDeploymentID =
        seen (podEnv clusterServices spec') envDeploymentID := by
  have hkeeps : ownLaunch.Keeps clusterServices (bindVar "API_KEY" ⟨"", "key"⟩) := by
    intro name b hb hname
    have hne : name ≠ "API_KEY" := by
      rintro rfl
      exact absurd hname (by decide)
    rw [bindVar, AList.lookup_insert_ne hne] at hb
    cases hb
  obtain ⟨spec, hspec⟩ : ∃ spec, ownSpec ∅ = .ok spec := ⟨_, rfl⟩
  obtain ⟨spec', hspec'⟩ : ∃ spec, ownSpec (bindVar "API_KEY" ⟨"", "key"⟩) = .ok spec := ⟨_, rfl⟩
  exact ⟨spec, spec', hspec, hspec',
    ((identity_authoritative_iff clusterServices hspec hspec').2 ⟨nofun, hkeeps⟩).2⟩

end Octo.Deployment
