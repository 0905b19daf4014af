import Mathlib.Algebra.Group.Int.Defs
import Octo.Deployment.Env
import Octo.Deployment.Slugs
import Octo.Foundation.Program

/-!
# The deployment service

`Service.Deploy`, `DeployOptions`, `Scale`, `Rollout` and `Undeploy` (`deployment/service.go`), the
deletes of a snapshot (`snapshot/service.go`) and of a cluster secret (`secret/service.go`), each as
the program of its calls to the database and the cluster; `handle` is what one call does
(`deployment/repo.go`, `snapshot/repo.go`, `secret/repo.go`, `kube/deploy.go`, `kube/secret.go`).
The calls here succeed: what `Deploy` takes back when one fails is in `Requests`.

The database has one table of deployments whose settings and metadata are JSON columns, written as a
whole; the cluster has a ConfigMap, a Deployment and at most one Ingress per deployment.
-/

namespace Octo.Deployment.Service

open List Option Except Octo.Foundation Program
open Octo.Deployment (EnvDecl EnvMap Bindings resolveRuntimeEnv bindOne slugify candidates
  isSlugChar)

/-! ## Data -/

structure Settings where
  replicas : Int := 0
  slug : String := ""
  expose : String := ""
  subdomain : String := ""
  env : Bindings := ∅
  snapshotID : String := ""
deriving DecidableEq

def exposeExternal : String := "external"

def Settings.external (s : Settings) : Bool := s.expose = exposeExternal

structure Metadata where
  name : String
  slug : String
  internalURL : String
  externalURL : String
  snapshotID : String
  tag : String
deriving DecidableEq

/-- A row of `integration_deployments`. -/
structure Row where
  id : String
  integrationID : String
  settings : Settings
  metadata : Metadata
deriving DecidableEq

structure Integration where
  name : String
  definition : String
deriving DecidableEq

/-- What a row of `integration_snapshots` holds under its id. -/
structure Frozen where
  integrationID : String
  tag : String
  definition : String
deriving DecidableEq

structure Snapshot extends Frozen where
  id : String
deriving DecidableEq

structure Spec where
  id : String
  integrationID : String
  name : String
  version : String
  definition : String
  replicas : Int
  slug : String
  port : Nat
  env : EnvMap
  secretEnv : EnvMap
  expose : Bool
  subdomain : String
deriving DecidableEq

/-- What the cluster runs for a deployment: the definition in its ConfigMap, the replica count of
its Deployment, and the host of its Ingress. -/
structure Workload where
  definition : String
  replicas : Int
  host : Option String
deriving DecidableEq

/-- The tables by the ids that the database writes, the cluster by the ids its objects are named
after. -/
structure Store where
  integrations : String → Option Integration
  snapshots : String → Option Frozen
  rows : List Row := []
  minted : Nat := 0
  workload : String → Option Workload := fun _ => none
  secretKeys : String → Bool
  catalog : String → Bool

structure Platform where
  /-- `strings.ToLower`. -/
  toLower : String → String
  toLower_slug : ∀ s : String, (∀ c ∈ s.toList, isSlugChar c ∨ c = '-') → toLower s = s
  /-- The declarations of the environment in a definition, if it is well formed. -/
  declarations : String → Option (List EnvDecl)
  /-- The id that the database reads a text as: `uuid` columns take other spellings as well, such
  as one in upper case. -/
  uuid : String → Option String
  newID : Nat → String
  newID_injective : Function.Injective newID
  uuid_newID : ∀ n, uuid (newID n) = some (newID n)
  /-- The row a query with `LIMIT 1` returns of those that match. -/
  limitOne : List Row → Option Row
  limitOne_mem : ∀ {rows : List Row} {row : Row}, limitOne rows = some row → row ∈ rows
  limitOne_none : ∀ {rows : List Row}, limitOne rows = none → rows = []
  snapshots : Bool
  baseDomain : String
  kubeNamespace : String

variable (P : Platform)

/-- The text is not another spelling of an id. -/
def Platform.AsStored (id : String) : Prop := ∀ key ∈ P.uuid id, key = id

def Platform.externalEnabled : Bool := P.baseDomain ≠ ""

def Platform.externalHost (subdomain : String) : String :=
  if P.baseDomain = "" ∨ subdomain = "" then "" else subdomain ++ "." ++ P.baseDomain

def Platform.externalURL (subdomain : String) : String :=
  if P.externalHost subdomain = "" then "" else "https://" ++ P.externalHost subdomain

def runtimePort : Nat := 8080

def Platform.internalURL (slug : String) (port : Nat) : String :=
  if slug = "" then ""
  else "http://octo-int-" ++ slug ++ "." ++ P.kubeNamespace ++ ":" ++
    toString (if port < 1 then runtimePort else port)

/-! ## Calls -/

inductive Op where
  | integrationGet (id : String)
  | snapshotGet (id : String)
  | secretKeyExists (key : String)
  | integrationIDBySlug (slug : String)
  | integrationIDBySubdomain (subdomain : String)
  | create (integrationID : String) (settings : Settings) (metadata : Metadata)
  | get (id : String)
  | updateSettings (id : String) (settings : Settings)
  | updateMetadata (id : String) (metadata : Metadata)
  | delete (id : String)
  | apply (spec : Spec)
  | scale (id : String) (replicas : Int)
  | rollout (spec : Spec)
  | deleteResources (id : String)
  | deploymentsUsingSnapshot (integrationID snapshotID : String)
  | snapshotDelete (id : String)
  | secretReferenced (name : String)
  | deleteSecretKey (name : String)
  | catalogDelete (name : String)

/-- What a call answers; the writes that need their object say whether it was there. -/
abbrev Answer : Op → Type
  | .integrationGet _ => Option Integration
  | .snapshotGet _ => Option Snapshot
  | .secretKeyExists _ => Bool
  | .integrationIDBySlug _ | .integrationIDBySubdomain _ => Option String
  | .create .. => Row
  | .get _ => Option Row
  | .updateSettings .. | .updateMetadata .. | .delete _ => Bool
  | .apply _ | .deleteResources _ | .deleteSecretKey _ => Unit
  | .scale .. | .rollout _ => Bool
  | .deploymentsUsingSnapshot .. => List String
  | .snapshotDelete _ | .catalogDelete _ => Bool
  | .secretReferenced _ => Bool

namespace Store

variable (s : Store)

variable (id : String)

def integration : Option Integration := (P.uuid id).bind s.integrations

def snapshot : Option Snapshot :=
  (P.uuid id).bind fun key => (s.snapshots key).map fun frozen => { frozen with id := key }

def get : Option Row := s.rows.find? (P.uuid id = some ·.id)

def update (f : Row → Row) : Store :=
  { s with rows := s.rows.map fun row => if P.uuid id = some row.id then f row else row }

/-- The cluster takes an id as it is written. -/
def patch (f : Workload → Workload) : Store :=
  { s with workload := Function.update s.workload id ((s.workload id).map f) }

/-- `integrationIDByMetaField`. -/
def integrationIDBy (field : Row → String) (value : String) : Option String :=
  if value = "" then none
  else (P.limitOne (s.rows.filter (field · = value))).map Row.integrationID

def integrationIDBySlug (slug : String) : Option String := s.integrationIDBy P (·.metadata.slug) slug

def integrationIDBySubdomain (subdomain : String) : Option String :=
  s.integrationIDBy P (·.settings.subdomain) subdomain

def Claimed (slug : String) : Prop := ∃ row ∈ s.rows, row.metadata.slug = slug

instance (slug : String) : Decidable (s.Claimed slug) :=
  inferInstanceAs (Decidable (∃ row ∈ s.rows, row.metadata.slug = slug))

/-- The label of a deployment in `DeploymentsUsingSnapshot`. -/
def label (row : Row) : String :=
  if row.metadata.slug ≠ "" then row.metadata.slug
  else if row.metadata.name ≠ "" then row.metadata.name else row.id

/-- Either column counts; both are compared as texts. -/
def deploymentsUsingSnapshot (integrationID snapshotID : String) : List String :=
  (s.rows.filter fun row => row.integrationID = integrationID ∧
    (snapshotID = row.settings.snapshotID ∨ snapshotID = row.metadata.snapshotID)).map label

def secretReferenced (name : String) : Bool :=
  name ≠ "" && s.rows.any fun row => row.settings.env.entries.any (·.2.secret = name)

end Store

def clamp (replicas : Int) : Int := if replicas < 1 then 1 else replicas

def int32 (n : Int) : Int := n.bmod (2 ^ 32)

/-- What `Client.Apply` creates: the Ingress only for a port, when it is asked for and there is a
domain for it.  The id was minted for this deployment, so nothing of its name exists. -/
def Spec.workload (spec : Spec) : Workload where
  definition := spec.definition
  replicas := clamp spec.replicas
  host :=
    if 0 < spec.port ∧ spec.expose ∧ P.baseDomain ≠ "" then some (P.externalHost spec.subdomain)
    else none

def handle : (op : Op) → Store → Answer op × Store
  | .integrationGet id, s => (s.integration P id, s)
  | .snapshotGet id, s => (s.snapshot P id, s)
  | .secretKeyExists key, s => (s.secretKeys key, s)
  | .integrationIDBySlug slug, s => (s.integrationIDBySlug P slug, s)
  | .integrationIDBySubdomain subdomain, s => (s.integrationIDBySubdomain P subdomain, s)
  -- a text that is no id has been refused before
  | .create integrationID settings metadata, s =>
    let row : Row :=
      ⟨P.newID s.minted, (P.uuid integrationID).getD integrationID, settings, metadata⟩
    (row, { s with rows := row :: s.rows, minted := s.minted + 1 })
  | .get id, s => (s.get P id, s)
  | .updateSettings id settings, s =>
    ((s.get P id).isSome, s.update P id fun row => { row with settings := settings })
  | .updateMetadata id metadata, s =>
    ((s.get P id).isSome, s.update P id fun row => { row with metadata := metadata })
  | .delete id, s =>
    ((s.get P id).isSome, { s with rows := s.rows.filter (P.uuid id ≠ some ·.id) })
  | .apply spec, s =>
    ((), { s with workload := Function.update s.workload spec.id (some (spec.workload P)) })
  | .scale id replicas, s =>
    ((s.workload id).isSome, s.patch id fun w => { w with replicas := clamp replicas })
  -- the Ingress stays as it is
  | .rollout spec, s =>
    ((s.workload spec.id).isSome, s.patch spec.id fun w =>
      { w with definition := spec.definition, replicas := clamp spec.replicas })
  | .deleteResources id, s => ((), { s with workload := Function.update s.workload id none })
  | .deploymentsUsingSnapshot integrationID snapshotID, s =>
    (s.deploymentsUsingSnapshot integrationID snapshotID, s)
  | .snapshotDelete id, s =>
    ((s.snapshot P id).isSome, { s with
      snapshots := fun key => if P.uuid id = some key then none else s.snapshots key })
  | .secretReferenced name, s => (s.secretReferenced name, s)
  | .deleteSecretKey name, s =>
    ((), { s with secretKeys := Function.update s.secretKeys name false })
  | .catalogDelete name, s =>
    (s.catalog name, { s with catalog := Function.update s.catalog name false })

/-- `deployment/errors.go`, `snapshot/errors.go` and `secret/errors.go`, and a workload that is not
in the cluster. -/
inductive Error where
  | notFound
  | integrationNotFound
  | externalUnavailable
  | invalidSubdomain
  | invalidSlug
  | slugTaken
  | slugExhausted
  | subdomainTaken
  | secretNotFound
  | reservedEnvVar
  | snapshotRequired
  | snapshotNotFound
  | snapshotMismatch
  | rolloutTopologyChange
  | snapshotInUse (labels : List String)
  | inUse
  | workloadNotFound
deriving DecidableEq

abbrev Request (α : Type) := Program Op Answer Error α

abbrev ask (op : Op) : Request (Answer op) := Program.ask op

/-! ## Checks -/

def resolveSnapshot (integrationID snapshotID : String) : Request Snapshot := do
  require (snapshotID ≠ "") .snapshotRequired
  let snap ← found .snapshotNotFound (← ask (.snapshotGet snapshotID))
  require (snap.integrationID = integrationID) .snapshotMismatch
  return snap

def checkSecrets : List String → Request Unit
  | [] => return ()
  | key :: keys => do
    require (← ask (.secretKeyExists key)) .secretNotFound
    checkSecrets keys

def resolveEnvBindings (runtimeEnv : EnvMap) (bindings : Bindings) : Request (EnvMap × EnvMap) :=
  match bindings.entries.foldlM bindOne (runtimeEnv, ∅) with
  | .error _ => .fail .reservedEnvVar
  | .ok maps => do
    checkSecrets (maps.2.entries.map (·.2))
    return maps

/-- The loop of `allocateSlug`. -/
def firstFree : List String → Request String
  | [] => .fail .slugExhausted
  | slug :: rest => do
    match ← ask (.integrationIDBySlug slug) with
    | none => return slug
    | some _ => firstFree rest

/-- For an integration of this name. -/
def allocateSlug (name : String) : Request String := firstFree (candidates P.toLower "" name)

def resolveSlug (chosen name : String) : Request String :=
  if chosen = "" then allocateSlug P name
  else do
    let slug := slugify P.toLower chosen
    require (slug ≠ "") .invalidSlug
    require ((← ask (.integrationIDBySlug slug)) = none) .slugTaken
    return slug

def addressFree (slug : String) (external : Bool) : Request Bool := do
  match ← ask (.integrationIDBySlug slug) with
  | some _ => return false
  | none =>
    if external then return (← ask (.integrationIDBySubdomain slug)).isNone
    else return true

/-- A subdomain of the same integration passes. -/
def ensureSubdomainUnique (integrationID subdomain : String) : Request Unit :=
  if subdomain = "" then return ()
  else do
    let owner ← ask (.integrationIDBySubdomain subdomain)
    require (∀ o ∈ owner, o = integrationID) .subdomainTaken

variable (integrationID : String)

/-- The external endpoint of a `Deploy`, `none` for an internal one; without a port the request
falls back to an internal one. -/
def resolveSubdomain (settings : Settings) (networked : Bool)
    (slug : String) : Request (Option String) :=
  if settings.external then do
    require P.externalEnabled .externalUnavailable
    if networked then do
      let subdomain :=
        slugify P.toLower (if settings.subdomain = "" then slug else settings.subdomain)
      require (subdomain ≠ "") .invalidSubdomain
      ensureSubdomainUnique integrationID subdomain
      return some subdomain
    else return none
  else return none

/-- The subdomain a `Deploy` asks for: its own, that of its slug, or that of the slug it would be
given. -/
def Store.wantedSubdomain (s : Store) (integrationID : String) (settings : Settings) :
    Option String :=
  if settings.subdomain ≠ "" then some (slugify P.toLower settings.subdomain)
  else if settings.slug ≠ "" then some (slugify P.toLower settings.slug)
  else (s.integration P integrationID).bind fun it =>
    (candidates P.toLower "" it.name).find? (¬s.Claimed ·)

/-! ## Requests -/

/-- What is deployed: a definition, and the snapshot it was frozen in. -/
structure Version where
  definition : String
  snapshotID : String
  tag : String
deriving DecidableEq

/-- The definition `Deploy` ships: with a snapshot store a snapshot is required, without one it is
the live definition. -/
def deployedVersion (it : Integration) (snapshotID : String) :
    Request Version :=
  if P.snapshots then do
    let snap ← resolveSnapshot integrationID snapshotID
    return ⟨snap.definition, snap.id, snap.tag⟩
  else return ⟨it.definition, "", ""⟩

def deployedSlug (networked : Bool) (chosen name : String) : Request String :=
  if networked then resolveSlug P chosen name else return ""

/-- What `Deploy` has found out when it starts to write. -/
structure Plan where
  name : String
  version : Version
  port : Nat
  maps : EnvMap × EnvMap
  slug : String
  subdomain : Option String

/-- The checks of `Deploy`, in its order. -/
def plan (settings : Settings) : Request Plan := do
  let it ← found .integrationNotFound (← ask (.integrationGet integrationID))
  let version ← deployedVersion P integrationID it settings.snapshotID
  let runtime := resolveRuntimeEnv (P.declarations version.definition)
  let maps ← resolveEnvBindings runtime.env settings.env
  let slug ← deployedSlug P runtime.exposable settings.slug it.name
  let subdomain ← resolveSubdomain P integrationID settings runtime.exposable slug
  return ⟨it.name, version, runtime.port, maps, slug, subdomain⟩

/-- The settings `Deploy` stores. -/
def Plan.settings (plan : Plan) (settings : Settings) : Settings where
  replicas := clamp settings.replicas
  expose := if plan.subdomain.isSome then exposeExternal else ""
  subdomain := plan.subdomain.getD ""
  env := settings.env
  snapshotID := plan.version.snapshotID

/-- The metadata `Deploy` stores. -/
def Plan.metadata (plan : Plan) : Metadata where
  name := plan.name
  slug := plan.slug
  internalURL := P.internalURL plan.slug plan.port
  externalURL := P.externalURL (plan.subdomain.getD "")
  snapshotID := plan.version.snapshotID
  tag := plan.version.tag

/-- The specification `Deploy` applies. -/
def Plan.spec (plan : Plan) (integrationID : String) (settings : Settings) (row : Row) : Spec where
  id := row.id
  integrationID := integrationID
  name := plan.name
  version := plan.version.tag
  definition := plan.version.definition
  replicas := int32 (clamp settings.replicas)
  slug := plan.slug
  port := plan.port
  env := plan.maps.1
  secretEnv := plan.maps.2
  expose := plan.subdomain.isSome
  subdomain := plan.subdomain.getD ""

def deploy (settings : Settings) : Request Row := do
  let plan ← plan P integrationID settings
  let row ← ask (.create integrationID (plan.settings settings) (plan.metadata P))
  ask (.apply (plan.spec integrationID settings row))
  return row

/-- The part about the address. -/
structure DeployOptions where
  networked : Bool
  suggestedSlug : String := ""
  slugChecked : Bool := false
  slug : String := ""
  slugValid : Bool := false
  slugAvailable : Bool := false
deriving DecidableEq

/-- The definition `DeployOptions` looks at: the live one when no snapshot is selected. -/
def optionsDefinition (it : Integration) (snapshotID : String) :
    Request String :=
  if P.snapshots ∧ snapshotID ≠ "" then do
    let snap ← resolveSnapshot integrationID snapshotID
    return snap.definition
  else return it.definition

def deployOptions (integrationID candidate : String) (external : Bool) (snapshotID : String) :
    Request DeployOptions := do
  let it ← found .integrationNotFound (← ask (.integrationGet integrationID))
  let definition ← optionsDefinition P integrationID it snapshotID
  if ¬(resolveRuntimeEnv (P.declarations definition)).exposable then
    return { networked := false }
  else if candidate ≠ "" then
    let slug := slugify P.toLower candidate
    if slug ≠ "" then
      let free ← addressFree slug external
      return ⟨true, "", true, slug, true, free⟩
    else return ⟨true, "", true, slug, false, false⟩
  else
    let slug ← allocateSlug P it.name
    return { networked := true, suggestedSlug := slug }

def scale (id : String) (replicas : Int) : Request Row := do
  let replicas := clamp replicas
  let row ← found .notFound (← ask (.get id))
  require (← ask (.scale id (int32 replicas))) .workloadNotFound
  let settings := { row.settings with replicas := replicas }
  require (← ask (.updateSettings id settings)) .notFound
  return { row with settings := settings }

/-- What `Rollout` has found out when it starts to write. -/
structure RolloutPlan where
  row : Row
  snap : Snapshot
  port : Nat
  maps : EnvMap × EnvMap

/-- The checks of `Rollout`, in its order. -/
def rolloutPlan (id snapshotID : String) : Request RolloutPlan := do
  require P.snapshots .snapshotRequired
  let row ← found .notFound (← ask (.get id))
  let snap ← resolveSnapshot row.integrationID snapshotID
  let runtime := resolveRuntimeEnv (P.declarations snap.definition)
  -- a change of the HTTP source would change the Services
  require (runtime.exposable = decide (row.metadata.slug ≠ "")) .rolloutTopologyChange
  let maps ← resolveEnvBindings runtime.env row.settings.env
  return ⟨row, snap, runtime.port, maps⟩

/-- The specification `Rollout` ships: the address and the scale of the row it has read. -/
def RolloutPlan.spec (plan : RolloutPlan) : Spec where
  id := plan.row.id
  integrationID := plan.row.integrationID
  name := plan.row.metadata.name
  version := plan.snap.tag
  definition := plan.snap.definition
  replicas := int32 (clamp plan.row.settings.replicas)
  slug := plan.row.metadata.slug
  port := plan.port
  env := plan.maps.1
  secretEnv := plan.maps.2
  expose := plan.row.settings.external
  subdomain := plan.row.settings.subdomain

def rollout (id snapshotID : String) : Request Row := do
  let plan ← rolloutPlan P id snapshotID
  require (← ask (.rollout plan.spec)) .workloadNotFound
  let metadata := { plan.row.metadata with snapshotID := plan.snap.id, tag := plan.snap.tag }
  require (← ask (.updateMetadata id metadata)) .notFound
  let settings := { plan.row.settings with snapshotID := plan.snap.id }
  -- a row that is gone by now is only logged
  let kept ← ask (.updateSettings id settings)
  let row := { plan.row with metadata := metadata }
  return if kept then { row with settings := settings } else row

/-- Without the internal Service and the stores of the runtime.  The cluster is asked with the id
of the request, not with that of the row. -/
def undeploy (id : String) : Request Unit := do
  let _ ← found .notFound (← ask (.get id))
  ask (.deleteResources id)
  require (← ask (.delete id)) .notFound

/-- `snapshot.Service.Delete`. -/
def deleteSnapshot (id : String) : Request Unit := do
  let snap ← found .snapshotNotFound (← ask (.snapshotGet id))
  let labels ← ask (.deploymentsUsingSnapshot snap.integrationID id)
  require (labels.length = 0) (.snapshotInUse labels)
  require (← ask (.snapshotDelete id)) .snapshotNotFound

def referenced (name : String) (force : Bool) : Request Bool :=
  if force then return false else ask (.secretReferenced name)

/-- `secret.Service.Delete`. -/
def deleteSecret (name : String) (force : Bool) : Request Unit := do
  require ((← referenced name force) = false) .inUse
  ask (.deleteSecretKey name)
  require (← ask (.catalogDelete name)) .secretNotFound

/-! ## The checks only read -/

theorem resolveSnapshot_readOnly (integrationID snapshotID : String) :
    ReadOnly (handle P) (resolveSnapshot integrationID snapshotID) := by
  refine (readOnly_require _).bind fun _ => (readOnly_ask fun _ => rfl).bind fun _ => ?_
  refine (readOnly_found _ _).bind fun _ => (readOnly_require _).bind fun _ => readOnly_done _

theorem checkSecrets_readOnly (keys : List String) : ReadOnly (handle P) (checkSecrets keys) := by
  induction keys with
  | nil => exact readOnly_done ()
  | cons key keys ih =>
    exact (readOnly_ask fun _ => rfl).bind fun _ => (readOnly_require _).bind fun _ => ih

theorem resolveEnvBindings_readOnly (runtimeEnv : EnvMap) (bindings : Bindings) :
    ReadOnly (handle P) (resolveEnvBindings runtimeEnv bindings) := by
  unfold resolveEnvBindings
  split
  · exact readOnly_fail _
  · exact (checkSecrets_readOnly P _).bind fun _ => readOnly_done _

theorem firstFree_readOnly (slugs : List String) : ReadOnly (handle P) (firstFree slugs) := by
  induction slugs with
  | nil => exact readOnly_fail _
  | cons slug slugs ih =>
    refine (readOnly_ask fun _ => rfl).bind fun owner => ?_
    cases owner with
    | none => exact readOnly_done _
    | some => exact ih

theorem resolveSlug_readOnly (chosen name : String) :
    ReadOnly (handle P) (resolveSlug P chosen name) := by
  unfold resolveSlug
  split
  · exact firstFree_readOnly P _
  · refine (readOnly_require _).bind fun _ => (readOnly_ask fun _ => rfl).bind fun _ => ?_
    exact (readOnly_require _).bind fun _ => readOnly_done _

theorem ensureSubdomainUnique_readOnly (integrationID subdomain : String) :
    ReadOnly (handle P) (ensureSubdomainUnique integrationID subdomain) := by
  unfold ensureSubdomainUnique
  split
  · exact readOnly_done _
  · exact (readOnly_ask fun _ => rfl).bind fun _ => readOnly_require _

variable (integrationID : String)

theorem resolveSubdomain_readOnly (settings : Settings) (networked : Bool)
    (slug : String) : ReadOnly (handle P) (resolveSubdomain P integrationID settings networked slug) := by
  unfold resolveSubdomain
  split
  · refine (readOnly_require _).bind fun _ => ?_
    split
    · refine (readOnly_require _).bind fun _ => ?_
      exact (ensureSubdomainUnique_readOnly P _ _).bind fun _ => readOnly_done _
    · exact readOnly_done _
  · exact readOnly_done _

theorem deployedVersion_readOnly (it : Integration) (snapshotID : String) :
    ReadOnly (handle P) (deployedVersion P integrationID it snapshotID) := by
  unfold deployedVersion
  split
  · exact (resolveSnapshot_readOnly P _ _).bind fun _ => readOnly_done _
  · exact readOnly_done _

theorem deployedSlug_readOnly (networked : Bool) (chosen name : String) :
    ReadOnly (handle P) (deployedSlug P networked chosen name) := by
  unfold deployedSlug
  split
  · exact resolveSlug_readOnly P _ _
  · exact readOnly_done _

theorem plan_readOnly (settings : Settings) :
    ReadOnly (handle P) (plan P integrationID settings) := by
  refine (readOnly_ask fun _ => rfl).bind fun _ => (readOnly_found _ _).bind fun it => ?_
  refine (deployedVersion_readOnly P _ it _).bind fun version => ?_
  refine (resolveEnvBindings_readOnly P _ _).bind fun maps => ?_
  refine (deployedSlug_readOnly P _ _ _).bind fun slug => ?_
  exact (resolveSubdomain_readOnly P _ _ _ _).bind fun _ => readOnly_done _

theorem rolloutPlan_readOnly (id snapshotID : String) :
    ReadOnly (handle P) (rolloutPlan P id snapshotID) := by
  refine (readOnly_require _).bind fun _ => (readOnly_ask fun _ => rfl).bind fun _ => ?_
  refine (readOnly_found _ _).bind fun _ => (resolveSnapshot_readOnly P _ _).bind fun _ => ?_
  refine (readOnly_require _).bind fun _ => (resolveEnvBindings_readOnly P _ _).bind fun _ => ?_
  exact readOnly_done _

/-! ## What the requests do -/

/-- The stores after an accepted `Deploy`. -/
def Store.deployed (s : Store) (row : Row) (w : Workload) : Store := { s with
    rows := row :: s.rows
    minted := s.minted + 1
    workload := Function.update s.workload row.id (some w) }

def Plan.row (plan : Plan) (s : Store) (integrationID : String) (settings : Settings) : Row :=
  ⟨P.newID s.minted, (P.uuid integrationID).getD integrationID, plan.settings settings,
    plan.metadata P⟩

theorem run_deploy (settings : Settings) (s : Store) :
    run (handle P) (deploy P integrationID settings) s =
      match (run (handle P) (plan P integrationID settings) s).1 with
      | .error e => (.error e, s)
      | .ok p =>
        let row := p.row P s integrationID settings
        (.ok row, s.deployed row ((p.spec integrationID settings row).workload P)) := by
  unfold deploy
  rw [(plan_readOnly P integrationID settings).run_bind]
  rcases (run (handle P) (plan P integrationID settings) s).1 with e | p <;> rfl

variable {P}

/-! ## What the checks accept -/

variable {integrationID : String} {s : Store}

theorem Store.snapshot_eq_some {id : String} {snap : Snapshot} : s.snapshot P id = some snap ↔
    P.uuid id = some snap.id ∧ s.snapshots snap.id = some snap.toFrozen := by
  unfold snapshot
  constructor
  · intro h
    obtain ⟨key, hkey, h⟩ := bind_eq_some_iff.1 h
    obtain ⟨frozen, hfrozen, rfl⟩ := map_eq_some_iff.1 h
    exact ⟨hkey, hfrozen⟩
  · rintro ⟨hkey, hfrozen⟩
    rw [hkey, bind_some, hfrozen, map_some]

theorem resolveSnapshot_ok {snapshotID : String} {snap : Snapshot} :
    (run (handle P) (resolveSnapshot integrationID snapshotID) s).1 = .ok snap ↔
      snapshotID ≠ "" ∧ s.snapshot P snapshotID = some snap ∧ snap.integrationID = integrationID := by
  unfold resolveSnapshot
  rw [(readOnly_require _).bind_ok]
  simp only [require_ok, exists_const]
  refine and_congr_right fun _ => ?_
  change (run (handle P) (found _ (s.snapshot P snapshotID) >>= _) s).1 = _ ↔ _
  simp only [(readOnly_found _ _).bind_ok, found_ok, (readOnly_require _).bind_ok, require_ok,
    exists_const, pure_eq, run_done, ok.injEq]
  constructor
  · rintro ⟨a, ha, hid, rfl⟩
    exact ⟨ha, hid⟩
  · rintro ⟨ha, hid⟩
    exact ⟨snap, ha, hid, rfl⟩

theorem checkSecrets_ok {keys : List String} {u : Unit} :
    (run (handle P) (checkSecrets keys) s).1 = .ok u ↔ ∀ key ∈ keys, s.secretKeys key := by
  induction keys with
  | nil => simp [checkSecrets]
  | cons key keys ih =>
    rw [forall_mem_cons, ← ih]
    change (run (handle P) (require (s.secretKeys key = true) _ >>= _) s).1 = _ ↔ _
    simp [(readOnly_require _).bind_ok]

theorem resolveEnvBindings_ok {runtimeEnv : EnvMap} {bindings : Bindings} {maps : EnvMap × EnvMap} :
    (run (handle P) (resolveEnvBindings runtimeEnv bindings) s).1 = .ok maps ↔
      bindings.entries.foldlM bindOne (runtimeEnv, ∅) = .ok maps ∧
        ∀ entry ∈ maps.2.entries, s.secretKeys entry.2 := by
  unfold resolveEnvBindings
  split
  next e he =>
    simp [he]
  next maps' hmaps =>
    simp only [(checkSecrets_readOnly P _).bind_ok, checkSecrets_ok, List.forall_mem_map, pure_eq,
      run_done, ok.injEq, hmaps, exists_const]
    constructor
    · rintro ⟨h, rfl⟩
      exact ⟨rfl, h⟩
    · rintro ⟨rfl, h⟩
      exact ⟨h, rfl⟩

theorem ensureSubdomainUnique_ok {subdomain : String} {u : Unit} :
    (run (handle P) (ensureSubdomainUnique integrationID subdomain) s).1 = .ok u ↔
      ∀ o ∈ s.integrationIDBySubdomain P subdomain, o = integrationID := by
  unfold ensureSubdomainUnique
  split
  next hempty =>
    simp [hempty, Store.integrationIDBySubdomain, Store.integrationIDBy]
  · exact require_ok

theorem resolveSubdomain_ok {slug : String} {settings : Settings} {networked : Bool}
    {subdomain : Option String}
    (h : (run (handle P) (resolveSubdomain P integrationID settings networked slug) s).1 = .ok subdomain)
    (d : String) (hd : subdomain = some d) :
    (settings.external ∧
      d = slugify P.toLower (if settings.subdomain = "" then slug else settings.subdomain)) ∧
    P.baseDomain ≠ "" ∧ networked ∧ d ≠ "" ∧
      ∀ o ∈ s.integrationIDBySubdomain P d, o = integrationID := by
  subst hd
  unfold resolveSubdomain at h
  split at h
  next hext =>
    rw [(readOnly_require _).bind_ok] at h
    obtain ⟨_, henabled, h⟩ := h
    split at h
    next hnet =>
      rw [(readOnly_require _).bind_ok] at h
      obtain ⟨_, hne, h⟩ := h
      rw [(ensureSubdomainUnique_readOnly P _ _).bind_ok] at h
      obtain ⟨_, hunique, h⟩ := h
      rw [pure_eq, run_done, ok.injEq, some.injEq] at h
      subst h
      exact ⟨⟨hext, rfl⟩, by simpa [Platform.externalEnabled] using henabled, hnet,
        require_ok.1 hne, ensureSubdomainUnique_ok.1 hunique⟩
    · cases h
  · cases h

theorem run_integrationIDBySlug {α : Type} (slug : String) (f : Option String → Request α) :
    run (handle P) (ask (.integrationIDBySlug slug) >>= f) s =
      run (handle P) (f (s.integrationIDBySlug P slug)) s := rfl

theorem integrationIDBySlug_eq_none {slug : String} (hne : slug ≠ "") :
    s.integrationIDBySlug P slug = none ↔ ¬s.Claimed slug := by
  unfold Store.integrationIDBySlug Store.integrationIDBy
  rw [if_neg hne, map_eq_none_iff]
  constructor
  · rintro hnone ⟨row, hrow, hslug⟩
    have hmem : row ∈ s.rows.filter (·.metadata.slug = slug) := by simpa using ⟨hrow, hslug⟩
    rw [P.limitOne_none hnone] at hmem
    cases hmem
  · intro hfree
    refine eq_none_iff_forall_not_mem.2 fun row hrow => hfree ⟨row, ?_⟩
    simpa using P.limitOne_mem hrow

theorem run_firstFree : ∀ {slugs : List String}, (∀ slug ∈ slugs, slug ≠ "") →
    (run (handle P) (firstFree slugs) s).1 =
      (run (handle P) (found .slugExhausted (slugs.find? (¬s.Claimed ·))) s).1
  | [], _ => rfl
  | slug :: slugs, hne => by
    obtain ⟨hslug, hne⟩ := forall_mem_cons.1 hne
    rw [firstFree, run_integrationIDBySlug]
    cases howner : s.integrationIDBySlug P slug with
    | none =>
      have hfree := (integrationIDBySlug_eq_none hslug).1 howner
      rw [find?_cons_of_pos (by simpa using hfree)]
      rfl
    | some =>
      have htaken : s.Claimed slug := by
        by_contra hfree
        cases howner.symm.trans ((integrationIDBySlug_eq_none hslug).2 hfree)
      rw [find?_cons_of_neg (by simpa using htaken)]
      exact run_firstFree hne

theorem run_allocateSlug (name : String) :
    (run (handle P) (allocateSlug P name) s).1 =
      (run (handle P)
        (found .slugExhausted ((candidates P.toLower "" name).find? (¬s.Claimed ·))) s).1 := by
  unfold allocateSlug
  rw [run_firstFree]
  rintro slug hslug rfl
  exact (isSlug_candidates hslug).ne_nil rfl

theorem port_pos {decls : Option (List EnvDecl)} (h : (resolveRuntimeEnv decls).exposable) :
    0 < (resolveRuntimeEnv decls).port := by
  unfold resolveRuntimeEnv at *
  split at h
  · cases h
  next decls =>
    dsimp only at h ⊢
    split at h
    · cases h
    next port hlast =>
      dsimp only
      obtain ⟨e, -, he⟩ := mem_filterMap.1 (mem_of_getLast? hlast)
      obtain ⟨p, -, hp⟩ := bind_eq_some_iff.1 he
      split at hp
      next hrange =>
        cases hp
        omega
      · cases hp

theorem run_resolveSlug {chosen : String} (hne : chosen ≠ "") (name : String) :
    (run (handle P) (resolveSlug P chosen name) s).1 =
      if slugify P.toLower chosen = "" then .error .invalidSlug
      else if s.integrationIDBySlug P (slugify P.toLower chosen) = none then
        .ok (slugify P.toLower chosen)
      else .error .slugTaken := by
  unfold resolveSlug
  rw [if_neg hne]
  generalize slugify P.toLower chosen = slug
  rw [run_require_bind]
  by_cases hslug : slug = ""
  · rw [if_neg (not_not.2 hslug), if_pos hslug]
  · rw [if_pos hslug, run_integrationIDBySlug, run_require_bind]
    split <;> rfl

theorem slugify_slugify {name : String} (hne : slugify P.toLower name ≠ "") :
    slugify P.toLower (slugify P.toLower name) = slugify P.toLower name :=
  slugify_of_isSlug P.toLower_slug (isSlug_slugify name hne)

theorem wanted_of_deployedSlug {settings : Settings} {it : Integration} {slug : String}
    (hit : s.integration P integrationID = some it)
    (h : (run (handle P) (deployedSlug P true settings.slug it.name) s).1 = .ok slug) :
    s.wantedSubdomain P integrationID settings =
      some (slugify P.toLower (if settings.subdomain = "" then slug else settings.subdomain)) := by
  unfold Store.wantedSubdomain
  by_cases hsub : settings.subdomain = ""
  · rw [if_neg (not_not.2 hsub), if_pos hsub]
    by_cases hchosen : settings.slug = ""
    · rw [if_neg (not_not.2 hchosen), hit]
      unfold deployedSlug resolveSlug at h
      rw [if_pos rfl, if_pos hchosen, run_allocateSlug] at h
      have hfree := found_ok.1 h
      have hslug := isSlug_candidates (mem_of_find?_eq_some hfree)
      rw [slugify_of_isSlug P.toLower_slug hslug, bind_some, hfree]
    · unfold deployedSlug at h
      rw [if_pos rfl, run_resolveSlug hchosen] at h
      split at h
      · cases h
      next hne =>
        split at h
        · rw [ok.injEq] at h
          rw [← h, if_pos hchosen, slugify_slugify hne]
        · cases h
  · rw [if_pos hsub, if_neg hsub]

theorem plan_subdomain {d : String} {settings : Settings} {p : Plan}
    (h : (run (handle P) (plan P integrationID settings) s).1 = .ok p)
    (hd : p.subdomain = some d) :
    (settings.external ∧ s.wantedSubdomain P integrationID settings = some d) ∧
    P.baseDomain ≠ "" ∧ 0 < p.port ∧ d ≠ "" ∧
      ∀ o ∈ s.integrationIDBySubdomain P d, o = integrationID := by
  obtain ⟨it, hit, h⟩ := (readOnly_found _ _).bind_ok.1 h
  obtain ⟨version, -, h⟩ := (deployedVersion_readOnly P _ _ _).bind_ok.1 h
  obtain ⟨maps, -, h⟩ := (resolveEnvBindings_readOnly P _ _).bind_ok.1 h
  obtain ⟨slug, hslug, h⟩ := (deployedSlug_readOnly P _ _ _).bind_ok.1 h
  obtain ⟨subdomain, hsub, h⟩ := (resolveSubdomain_readOnly P _ _ _ _).bind_ok.1 h
  rw [pure_eq, run_done, ok.injEq] at h
  subst h
  obtain ⟨⟨hext, hdef⟩, hbase, hnet, hne, hunique⟩ := resolveSubdomain_ok hsub d hd
  rw [hnet] at hslug
  exact ⟨⟨hext, hdef ▸ wanted_of_deployedSlug (found_ok.1 hit) hslug⟩, hbase, port_pos hnet, hne,
    hunique⟩

theorem plan_version {integrationID : String} {settings : Settings} {s : Store} {p : Plan}
    (hwired : P.snapshots)
    (h : (run (handle P) (plan P integrationID settings) s).1 = .ok p) :
    ∃ snap, s.snapshots p.version.snapshotID = some snap ∧ p.version.tag = snap.tag ∧
      p.version.definition = snap.definition := by
  obtain ⟨it, -, h⟩ := (readOnly_found _ _).bind_ok.1 h
  obtain ⟨version, hversion, h⟩ := (deployedVersion_readOnly P _ _ _).bind_ok.1 h
  obtain ⟨maps, -, h⟩ := (resolveEnvBindings_readOnly P _ _).bind_ok.1 h
  obtain ⟨slug, -, h⟩ := (deployedSlug_readOnly P _ _ _).bind_ok.1 h
  obtain ⟨subdomain, -, h⟩ := (resolveSubdomain_readOnly P _ _ _ _).bind_ok.1 h
  rw [pure_eq, run_done, ok.injEq] at h
  subst h
  unfold deployedVersion at hversion
  rw [if_pos hwired] at hversion
  obtain ⟨snap, hsnap, hversion⟩ := (resolveSnapshot_readOnly P _ _).bind_ok.1 hversion
  rw [pure_eq, run_done, ok.injEq] at hversion
  subst hversion
  exact ⟨snap.toFrozen, (Store.snapshot_eq_some.1 (resolveSnapshot_ok.1 hsnap).2.1).2, rfl, rfl⟩

theorem rolloutPlan_ok {id snapshotID : String} {p : RolloutPlan}
    (h : (run (handle P) (rolloutPlan P id snapshotID) s).1 = .ok p) :
    s.get P id = some p.row ∧ snapshotID ≠ "" ∧ s.snapshot P snapshotID = some p.snap ∧
      p.snap.integrationID = p.row.integrationID ∧
      ∀ entry ∈ p.maps.2.entries, s.secretKeys entry.2 := by
  obtain ⟨-, -, h⟩ := (readOnly_require _).bind_ok.1 h
  obtain ⟨row, hrow, h⟩ := (readOnly_found _ _).bind_ok.1 h
  obtain ⟨snap, hsnap, h⟩ := (resolveSnapshot_readOnly P _ _).bind_ok.1 h
  obtain ⟨-, -, h⟩ := (readOnly_require _).bind_ok.1 h
  obtain ⟨maps, hmaps, h⟩ := (resolveEnvBindings_readOnly P _ _).bind_ok.1 h
  rw [pure_eq, run_done, ok.injEq] at h
  subst h
  obtain ⟨hne, hget, hown⟩ := resolveSnapshot_ok.1 hsnap
  exact ⟨found_ok.1 hrow, hne, hget, hown, (resolveEnvBindings_ok.1 hmaps).2⟩

/-! ## What `Scale`, `Rollout` and `Undeploy` write -/

open Store

theorem Store.patch_of_none {id : String} (h : s.workload id = none) (f : Workload → Workload) :
    s.patch id f = s := by
  unfold patch
  rw [h, map_none, ← h, Function.update_eq_self]

def Settings.scaled (settings : Settings) (replicas : Int) : Settings :=
  { settings with replicas := clamp replicas }

theorem run_scale (id : String) (replicas : Int) (s : Store) :
    run (handle P) (scale id replicas) s = match s.get P id with
      | none => (.error .notFound, s)
      | some row =>
        if (s.workload id).isSome then
          (.ok { row with settings := row.settings.scaled replicas },
            (s.patch id fun w => { w with replicas := clamp (int32 (clamp replicas)) }).update P id
              fun r => { r with settings := row.settings.scaled replicas })
        else (.error .workloadNotFound, s) := by
  change run (handle P) (found _ (s.get P id) >>= _) s = _
  cases hrow : s.get P id with
  | none => rfl
  | some =>
    change run (handle P) (require ((s.workload id).isSome = true) _ >>= _) (s.patch id _) = _
    rw [run_require_bind]
    refine if_ctx_congr Iff.rfl (fun _ => ?_) fun hw => ?_
    · change run (handle P) (require ((s.get P id).isSome = true) _ >>= _) _ = _
      rw [hrow]
      rfl
    · rw [patch_of_none (not_isSome_iff_eq_none.1 hw)]

/-- The metadata and the settings `Rollout` stores. -/
def RolloutPlan.metadata (plan : RolloutPlan) : Metadata :=
  { plan.row.metadata with snapshotID := plan.snap.id, tag := plan.snap.tag }

@[inherit_doc RolloutPlan.metadata]
def RolloutPlan.settings (plan : RolloutPlan) : Settings :=
  { plan.row.settings with snapshotID := plan.snap.id }

theorem Store.id_of_get {id : String} {row : Row} (h : s.get P id = some row) :
    P.uuid id = some row.id := by
  simpa using find?_some h

theorem Store.get_update {id : String} {f : Row → Row} (hf : ∀ row, (f row).id = row.id)
    (id' : String) : (s.update P id f).get P id' =
      (s.get P id').map fun row => if P.uuid id = some row.id then f row else row := by
  unfold get update
  rw [find?_map]
  congr 2
  funext row
  show decide (P.uuid id' = some (ite _ _ _ : Row).id) = _
  split
  · rw [hf]
  · rfl

theorem Store.get_update_self {id : String} {f : Row → Row} {row : Row}
    (hf : ∀ row, (f row).id = row.id) (h : s.get P id = some row) :
    (s.update P id f).get P id = some (f row) := by
  rw [get_update hf, h, map_some, if_pos (id_of_get h)]

theorem run_rollout (id snapshotID : String) (s : Store) :
    run (handle P) (rollout P id snapshotID) s =
      match (run (handle P) (rolloutPlan P id snapshotID) s).1 with
      | .error e => (.error e, s)
      | .ok p =>
        if (s.workload p.row.id).isSome then
          (.ok { p.row with metadata := p.metadata, settings := p.settings },
            ((s.patch p.row.id fun w => { w with
                definition := p.snap.definition
                replicas := clamp (int32 (clamp p.row.settings.replicas)) }).update P id
              fun r => { r with metadata := p.metadata }).update P id
                fun r => { r with settings := p.settings })
        else (.error .workloadNotFound, s) := by
  unfold rollout
  rw [(rolloutPlan_readOnly P id snapshotID).run_bind]
  rcases hplan : (run (handle P) (rolloutPlan P id snapshotID) s).1 with e | p
  · rfl
  · obtain ⟨hrow, -⟩ := rolloutPlan_ok hplan
    change run (handle P) (require ((s.workload p.row.id).isSome = true) _ >>= _)
      (s.patch p.row.id _) = _
    rw [run_require_bind]
    refine if_ctx_congr Iff.rfl (fun _ => ?_) fun hw => ?_
    · change run (handle P) (require ((s.get P id).isSome = true) _ >>= _) _ = _
      rw [hrow]
      -- the row is still there for its settings
      refine Prod.ext (congrArg ok (if_pos ?_)) rfl
      refine congrArg isSome (get_update_self ?_ hrow)
      intro row
      rfl
    · rw [patch_of_none (not_isSome_iff_eq_none.1 hw)]

theorem run_undeploy (id : String) (s : Store) :
    run (handle P) (undeploy id) s = match s.get P id with
      | none => (.error .notFound, s)
      | some _ => (.ok (), { s with
          rows := s.rows.filter (P.uuid id ≠ some ·.id)
          workload := Function.update s.workload id none }) := by
  change run (handle P) (found _ (s.get P id) >>= _) s = _
  cases hrow : s.get P id with
  | none => rfl
  | some =>
    change run (handle P) (require ((s.get P id).isSome = true) _) _ = _
    rw [hrow]
    rfl

/-! ## A platform -/

def shopPlatform : Platform where
  toLower := id
  toLower_slug := fun _ _ => rfl
  declarations := fun _ => some [⟨envHTTPPort, some "8080"⟩]
  uuid := fun text => some (String.ofList (text.toList.map Char.toLower))
  newID := fun n => String.ofList (replicate (n + 1) 'd')
  newID_injective := fun m n h => by simpa using congrArg String.length h
  uuid_newID := fun n => by simp
  limitOne := List.head?
  limitOne_mem := mem_of_head?
  limitOne_none := head?_eq_none_iff.1
  snapshots := true
  baseDomain := "octo.dev"
  kubeNamespace := "octo"

end Octo.Deployment.Service
