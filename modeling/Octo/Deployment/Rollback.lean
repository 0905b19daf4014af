import Octo.Deployment.Service

/-!
# The rollback of a failed deploy

`Client.Apply` creates the resources of a deployment one after the other; when one of the calls
fails, `Deploy` deletes everything under the deployment's name, the internal Service of the slug
and the row.

* `failed_deploy_undone`: nothing of a failed deploy is left, at whichever call it fails.
-/

namespace Octo.Deployment.Service

open Octo.Deployment (Resource)

inductive Kind where
  | configMap
  | deployment
  | service
  | ingress
deriving DecidableEq

abbrev Cluster := Kind → String → Option Spec

def resourceName (id : String) : String := "octo-dep-" ++ id

def internalServiceName (slug : String) : String := "octo-int-" ++ slug

/-- The object that a call of `Client.Apply` creates. -/
def Spec.object (spec : Spec) : Resource → Kind × String
  | .configMap => (.configMap, resourceName spec.id)
  | .deployment => (.deployment, resourceName spec.id)
  | .service => (.service, resourceName spec.id)
  | .internalService => (.service, internalServiceName spec.slug)
  | .ingress => (.ingress, resourceName spec.id)

variable (P : Platform)

/-- The calls of `Client.Apply`, in order. -/
def Spec.calls (spec : Spec) : List Resource := [.configMap, .deployment] ++
    if spec.port = 0 then []
    else .service :: (if spec.slug = "" then [] else [.internalService]) ++
      if spec.expose ∧ P.baseDomain ≠ "" then [.ingress] else []

def Cluster.put (k : Cluster) (object : Kind × String) (value : Option Spec) : Cluster :=
  fun kind name => if (kind, name) = object then value else k kind name

/-- `Client.Apply`: `answer` is what the cluster answers to each call; an internal Service that is
there already is left as it is. -/
def apply (answer : Resource → Option String) (spec : Spec) :
    List Resource → Cluster → Option String × Cluster
  | [], k => (none, k)
  | r :: rest, k =>
    match answer r, k (spec.object r).1 (spec.object r).2 with
    | some err, _ => (some err, k)
    | none, none => apply answer spec rest (k.put (spec.object r) (some spec))
    | none, some _ =>
      if r = .internalService then apply answer spec rest k else (some "already exists", k)

def Cluster.delete (k : Cluster) (id : String) : Cluster :=
  [Kind.ingress, .deployment, .service, .configMap].foldl
    (fun k kind => k.put (kind, resourceName id) none) k

def Cluster.deleteInternalService (k : Cluster) (slug : String) : Cluster :=
  if slug = "" then k else k.put (.service, internalServiceName slug) none

def Plan.nextSpec (plan : Plan) (integrationID : String) (settings : Settings) (s : Store) : Spec :=
  plan.spec integrationID settings (plan.row P s integrationID settings)

/-- `Deploy` after its checks: the row, the resources, and the rollback when one fails. -/
def deployPlanned (answer : Resource → Option String) (integrationID : String) (settings : Settings)
    (plan : Plan) (s : Store) (k : Cluster) : Except String Row × Store × Cluster :=
  let spec := plan.nextSpec P integrationID settings s
  let (row, s) := handle P (.create integrationID (plan.settings settings) (plan.metadata P)) s
  match apply answer spec (spec.calls P) k with
  | (none, k) => (.ok row, s, k)
  | (some err, k) =>
    (.error err, (handle P (.delete row.id) s).2, (k.delete row.id).deleteInternalService spec.slug)

variable {P} {answer : Resource → Option String} {spec : Spec}

open Cluster

theorem apply_frame {kind : Kind} {name : String} {calls : List Resource} {k : Cluster}
    (h : ∀ r ∈ calls, spec.object r ≠ (kind, name)) :
    (apply answer spec calls k).2 kind name = k kind name := by
  induction calls generalizing k with
  | nil => rfl
  | cons r rest ih =>
    obtain ⟨hr, hrest⟩ := List.forall_mem_cons.1 h
    rw [apply]
    split
    · rfl
    · rw [ih hrest, put, if_neg hr.symm]
    · split
      · exact ih hrest
      · rfl

theorem delete_apply (k : Cluster) (id : String) (kind : Kind) (name : String) :
    k.delete id kind name = if name = resourceName id then none else k kind name := by
  cases kind <;> simp [delete, put]

theorem deleteInternalService_apply (k : Cluster) (slug : String) (kind : Kind) (name : String) :
    k.deleteInternalService slug kind name =
      if slug ≠ "" ∧ kind = .service ∧ name = internalServiceName slug then none
      else k kind name := by
  by_cases h : slug = "" <;> simp [deleteInternalService, put, h]

/-- **A failed deploy leaves nothing behind**: the error is returned, and the rows and the objects
of the cluster are those from before. -/
theorem failed_deploy_undone (P : Platform) (answer : Resource → Option String)
    (integrationID : String) (settings : Settings) (plan : Plan) (s : Store) (k : Cluster)
    (err : String) (hid : ∀ row ∈ s.rows, row.id ≠ P.newID s.minted)
    (hfresh : ∀ kind, k kind (resourceName (P.newID s.minted)) = none)
    (hslug : plan.slug ≠ "" → k .service (internalServiceName plan.slug) = none)
    (hfail : (apply answer (plan.nextSpec P integrationID settings s)
      ((plan.nextSpec P integrationID settings s).calls P) k).1 = some err) :
    ∃ s', deployPlanned P answer integrationID settings plan s k = (.error err, s', k) ∧
      s'.rows = s.rows := by
  have hframe : ∀ kind name, name ≠ resourceName (P.newID s.minted) →
      (kind = .service → plan.slug ≠ "" → name ≠ internalServiceName plan.slug) →
      (apply answer (plan.nextSpec P integrationID settings s)
        ((plan.nextSpec P integrationID settings s).calls P) k).2 kind name = k kind name := by
    intro kind name hname hint
    refine apply_frame fun r hr h => ?_
    cases r <;> simp only [Spec.object, Prod.mk.injEq] at h
    case internalService =>
      have hne : plan.slug ≠ "" := by
        intro h0
        simp [Spec.calls, Plan.nextSpec, Plan.spec, h0] at hr
      exact hint h.1.symm hne h.2.symm
    all_goals exact hname h.2.symm
  rcases hap : apply answer (plan.nextSpec P integrationID settings s)
    ((plan.nextSpec P integrationID settings s).calls P) k with ⟨e, k'⟩
  rw [hap] at hfail hframe
  cases hfail
  have hrows : (plan.row P s integrationID settings :: s.rows).filter
      (P.uuid (P.newID s.minted) ≠ some ·.id) = s.rows := by
    rw [P.uuid_newID, List.filter_cons_of_neg (by simp [Plan.row])]
    exact List.filter_eq_self.2 fun row hrow => by simpa using (hid row hrow).symm
  have hcluster : (k'.delete (P.newID s.minted)).deleteInternalService plan.slug = k := by
    funext kind name
    rw [deleteInternalService_apply, delete_apply]
    split
    case isTrue h =>
      obtain ⟨h0, rfl, rfl⟩ := h
      exact (hslug h0).symm
    case isFalse h =>
      split
      case isTrue hname => rw [hname, hfresh]
      case isFalse hname => exact hframe kind name hname fun hk h0 hn => h ⟨h0, hk, hn⟩
  have hdeploy : deployPlanned P answer integrationID settings plan s k =
      (.error err, (handle P (.delete (P.newID s.minted)) (handle P (.create integrationID
        (plan.settings settings) (plan.metadata P)) s).2).2,
        (k'.delete (P.newID s.minted)).deleteInternalService plan.slug) := by
    simp only [deployPlanned, hap]
    rfl
  exact ⟨_, hdeploy.trans (by rw [hcluster]), hrows⟩

def shopPlan : Plan := ⟨"shop", ⟨"on: http", "", ""⟩, 8080, (∅, ∅), "shop", some "shop"⟩

def emptyStore : Store where
  integrations _ := none
  snapshots _ := none
  secretKeys _ := false
  catalog _ := false

theorem ingress_failure_undone :
    ∃ s', deployPlanned shopPlatform (fun r => if r = .ingress then some "quota" else none) "i" {}
        shopPlan emptyStore (fun _ _ => none) = (.error "quota", s', fun _ _ => none) ∧
      s'.rows = [] :=
  failed_deploy_undone shopPlatform _ "i" {} shopPlan emptyStore (fun _ _ => none) "quota" nofun
    (fun _ => rfl) (fun _ => rfl) (by decide +kernel)

end Octo.Deployment.Service
