import Octo.Deployment.Service
import Octo.Foundation.Trace

/-!
# External hosts

A deployment that is exposed has an Ingress whose host is its subdomain under the base domain.
`ensureSubdomainUnique` refuses a subdomain that another integration has; one that a deployment of
the same integration has passes.

* `distinct_hosts` — no two deployments share a host as long as no `Deploy` asks for a subdomain that
  a deployment of its own integration has and no `Undeploy` spells an id in another way; an accepted
  `Deploy` that does ask for one ends it.
-/

namespace Octo.Deployment.Service

open List Option Plan Workload Store
open Function (forall_update_iff update_of_ne update_self)
open Octo.Foundation Program

variable (P : Platform)

/-! ## Requests one after another -/

inductive Action where
  | deploy (integrationID : String) (settings : Settings)
  | rollout (id snapshotID : String)
  | scale (id : String) (replicas : Int)
  | undeploy (id : String)

def serve (s : Store) : Action → Store
  | .deploy integrationID settings => (run (handle P) (deploy P integrationID settings) s).2
  | .rollout id snapshotID => (run (handle P) (rollout P id snapshotID) s).2
  | .scale id replicas => (run (handle P) (scale id replicas) s).2
  | .undeploy id => (run (handle P) (undeploy id) s).2

def Store.IsEmpty (s : Store) : Prop := s.rows = [] ∧ ∀ id, s.workload id = none

def Apart (a b : Row) : Prop :=
  a.settings.external → b.settings.external → a.settings.subdomain ≠ b.settings.subdomain

instance : Std.Symm Apart := ⟨fun _ _ h hb ha => (h ha hb).symm⟩

/-- No two deployments are exposed under one subdomain, and no two Ingresses carry one host. -/
structure DistinctHosts (s : Store) : Prop where
  subdomains : s.rows.Pairwise Apart
  hosts : ∀ {id id' : String} {w w' : Workload} {host : String}, s.workload id = some w →
    s.workload id' = some w' → w.host = some host → w'.host = some host → id = id'

/-- No exposed deployment of the integration has the subdomain that a `Deploy` asks for.  An
`Undeploy` names its deployment as the database does, or its Ingress would stay. -/
def Cautious (s : Store) : Action → Prop
  | .deploy integrationID settings =>
    settings.external → ∀ d ∈ s.wantedSubdomain P integrationID settings, ∀ row ∈ s.rows,
      row.integrationID = integrationID → row.settings.external → row.settings.subdomain ≠ d
  | .undeploy id => P.AsStored id
  | .rollout .. | .scale .. => True

/-! ## The stores agree -/

def Row.host (row : Row) : Option String :=
  if row.settings.external then some (P.externalHost row.settings.subdomain) else none

/-- A row has an id that was minted and a workload with its host, and it is exposed exactly if it has
a subdomain. -/
structure Row.Backed (s : Store) (row : Row) : Prop where
  fresh : ∃ n < s.minted, P.newID n = row.id
  exposed : row.settings.external ↔ row.settings.subdomain ≠ ""
  enabled : row.settings.external → P.baseDomain ≠ ""
  host : ∃ w, s.workload row.id = some w ∧ w.host = row.host P

/-- The database and the cluster agree on what is exposed, and nothing is exposed twice. -/
structure Consistent (s : Store) : Prop where
  rows : ∀ row ∈ s.rows, row.Backed P s
  ids : s.rows.Pairwise fun a b => a.id ≠ b.id
  owned : ∀ id w, s.workload id = some w → ∃ row ∈ s.rows, row.id = id
  distinct : s.rows.Pairwise Apart

variable {P}

/-- Two rows with one id are exposed in the same way. -/
structure Row.Alike (a b : Row) : Prop where
  id : a.id = b.id
  external : a.settings.external = b.settings.external
  subdomain : a.settings.subdomain = b.settings.subdomain

theorem Row.Backed.alike {s : Store} {a b : Row} (h : b.Backed P s) (hab : Alike a b) :
    a.Backed P s := by
  obtain ⟨hfresh, hexposed, henabled, hhost⟩ := h
  unfold Row.host at hhost
  rw [← hab.id, ← hab.external, ← hab.subdomain] at *
  exact ⟨hfresh, hexposed, henabled, hhost⟩

theorem externalHost_injective {a b : String} (hbase : P.baseDomain ≠ "") (ha : a ≠ "") (hb : b ≠ "")
    (h : P.externalHost a = P.externalHost b) : a = b := by
  unfold Platform.externalHost at h
  rw [if_neg (by simp [hbase, ha]), if_neg (by simp [hbase, hb])] at h
  have hlist := congrArg String.toList h
  simp only [String.toList_append, append_assoc] at hlist
  exact String.toList_inj.1 (append_cancel_right hlist)

namespace Consistent

variable {s : Store}

theorem of_isEmpty (h : s.IsEmpty) : Consistent P s := by
  constructor <;> simp [h.1, h.2]

variable (h : Consistent P s)
include h

theorem uuid_id {row : Row} (hrow : row ∈ s.rows) : P.uuid row.id = some row.id := by
  obtain ⟨n, -, hn⟩ := (h.rows row hrow).fresh
  rw [← hn, P.uuid_newID]

theorem eq_of_id {a b : Row} (ha : a ∈ s.rows) (hb : b ∈ s.rows)
    (hid : a.id = b.id) : a = b := by
  have : Std.Symm fun a b : Row => a.id ≠ b.id := ⟨fun _ _ h => h.symm⟩
  by_contra hne
  exact h.ids.forall ha hb hne hid

theorem distinctHosts : DistinctHosts s := by
  refine ⟨h.distinct, ?_⟩
  intro id id' w w' host hw hw' hhost hhost'
  obtain ⟨row, hrow, rfl⟩ := h.owned id w hw
  obtain ⟨row', hrow', rfl⟩ := h.owned id' w' hw'
  have hof : ∀ r ∈ s.rows, ∀ v, s.workload r.id = some v → v.host = some host →
      r.settings.external ∧ P.externalHost r.settings.subdomain = host := by
    intro r hr v hv hhostv
    obtain ⟨v', hv', hagree⟩ := (h.rows r hr).host
    rw [hv, some.injEq] at hv'
    rw [← hv', hhostv] at hagree
    unfold Row.host at hagree
    split at hagree
    next hext =>
      exact ⟨hext, (some.inj hagree).symm⟩
    · cases hagree
  obtain ⟨hext, hsub⟩ := hof row hrow w hw hhost
  obtain ⟨hext', hsub'⟩ := hof row' hrow' w' hw' hhost'
  have hsame : row.settings.subdomain = row'.settings.subdomain :=
    externalHost_injective ((h.rows row hrow).enabled hext) ((h.rows row hrow).exposed.1 hext)
      ((h.rows row' hrow').exposed.1 hext') (hsub.trans hsub'.symm)
  by_contra hne
  have hrows : row ≠ row' := fun heq => hne (heq ▸ rfl)
  exact h.distinct.forall hrow hrow' hrows hext hext' hsame

theorem patch (id : String) {f : Workload → Workload}
    (hf : ∀ w, (f w).host = w.host) : Consistent P (s.patch id f) := by
  have hpatch : ∀ id', ∃ g : Workload → Workload, (∀ w, (g w).host = w.host) ∧
      (s.patch id f).workload id' = (s.workload id').map g :=
    (forall_update_iff s.workload fun id' x => ∃ g : Workload → Workload,
      (∀ w, (g w).host = w.host) ∧ x = (s.workload id').map g).2
      ⟨⟨f, hf, rfl⟩, fun id' _ => ⟨fun w => w, fun _ => rfl, Option.map_id'.symm⟩⟩
  refine ⟨fun row hrow => { h.rows row hrow with host := ?_ }, h.ids, ?_, h.distinct⟩
  · obtain ⟨w, hw, hhost⟩ := (h.rows row hrow).host
    obtain ⟨g, hg, heq⟩ := hpatch row.id
    exact ⟨g w, by rw [heq, hw, map_some], (hg w).trans hhost⟩
  · intro id' w hw
    obtain ⟨g, -, heq⟩ := hpatch id'
    rw [heq, map_eq_some_iff] at hw
    obtain ⟨w', hw', -⟩ := hw
    exact h.owned id' w' hw'

theorem update (id : String) {f : Row → Row}
    (hf : ∀ row ∈ s.rows, P.uuid id = some row.id → (f row).Alike row) :
    Consistent P (s.update P id f) := by
  -- every row keeps what the invariant is about
  let g : Row → Row := fun row => if P.uuid id = some row.id then f row else row
  have hg : ∀ row ∈ s.rows, (g row).Alike row := by
    intro row hrow
    show (ite _ _ _ : Row).Alike row
    split
    next hid => exact hf row hrow hid
    · exact ⟨rfl, rfl, rfl⟩
  refine ⟨fun row hrow => ?_, pairwise_map.2 (h.ids.imp_of_mem fun ha hb hab => ?_),
    fun id' w hw => ?_, pairwise_map.2 (h.distinct.imp_of_mem fun ha hb hab => ?_)⟩
  · obtain ⟨old, hold, rfl⟩ := mem_map.1 hrow
    exact { (h.rows old hold).alike (hg old hold) with }
  · rwa [(hg _ ha).id, (hg _ hb).id]
  · obtain ⟨row, hrow, hid⟩ := h.owned id' w hw
    exact ⟨g row, mem_map.2 ⟨row, hrow, rfl⟩, (hg row hrow).id.trans hid⟩
  · unfold Apart
    rwa [(hg _ ha).external, (hg _ hb).external, (hg _ ha).subdomain, (hg _ hb).subdomain]

theorem remove {id : String} (hid : P.AsStored id) : Consistent P { s with
    rows := s.rows.filter (P.uuid id ≠ some ·.id)
    workload := Function.update s.workload id none } := by
  have hmem : ∀ {row}, row ∈ s.rows.filter (P.uuid id ≠ some ·.id) →
      row ∈ s.rows ∧ P.uuid id ≠ some row.id := by
    intro row hrow
    simpa using hrow
  refine ⟨fun row hrow => { h.rows row (hmem hrow).1 with host := ?_ }, h.ids.filter _,
    (forall_update_iff s.workload fun id' x => ∀ w, x = some w → ∃ row ∈ s.rows.filter _,
      row.id = id').2 ⟨nofun, fun id' hne w hw => ?_⟩, h.distinct.filter _⟩
  · obtain ⟨w, hw, hhost⟩ := (h.rows row (hmem hrow).1).host
    have hne : row.id ≠ id := fun heq => (hmem hrow).2 (heq ▸ h.uuid_id (hmem hrow).1)
    exact ⟨w, (update_of_ne hne ..).trans hw, hhost⟩
  · obtain ⟨row, hrow, rfl⟩ := h.owned id' w hw
    exact ⟨row, by simpa using ⟨hrow, fun hkey => hne (hid _ hkey)⟩, rfl⟩

end Consistent

/-! ## Steps -/

section

variable {s : Store} {integrationID : String} {settings : Settings} {p : Plan}

theorem Plan.external_row : (p.row P s integrationID settings).settings.external = p.subdomain.isSome := by
  unfold Plan.row Plan.settings Settings.external
  cases p.subdomain <;> rfl

variable (hplan : (run (handle P) (plan P integrationID settings) s).1 = .ok p)
include hplan

theorem Plan.host_workload :
    ((p.spec integrationID settings (p.row P s integrationID settings)).workload P).host =
      (p.row P s integrationID settings).host P := by
  unfold Row.host
  rw [external_row]
  show (if 0 < p.port ∧ p.subdomain.isSome ∧ P.baseDomain ≠ "" then _ else _) = _
  cases hsub : p.subdomain with
  | none => simp
  | some =>
    obtain ⟨-, hbase, hport, -, -⟩ := plan_subdomain hplan hsub
    rw [if_pos ⟨hport, rfl, hbase⟩]
    rfl

/-- An accepted `Deploy` that is exposed has the subdomain it has asked for. -/
theorem Plan.wanted_of_external
    (hext : (p.row P s integrationID settings).settings.external) :
    p.subdomain = some (p.row P s integrationID settings).settings.subdomain ∧ settings.external ∧
      s.wantedSubdomain P integrationID settings =
        some (p.row P s integrationID settings).settings.subdomain := by
  rw [external_row, isSome_iff_exists] at hext
  obtain ⟨d, hd⟩ := hext
  have hsub : (p.row P s integrationID settings).settings.subdomain = d := by
    show p.subdomain.getD "" = d
    rw [hd, getD_some]
  rw [hsub]
  exact ⟨hd, (plan_subdomain hplan hd).1⟩

theorem Consistent.apart_row (h : Consistent P s)
    (hcautious : Cautious P s (.deploy integrationID settings)) :
    ∀ other ∈ s.rows, Apart (p.row P s integrationID settings) other := by
  intro other hother hext hext' hsame
  obtain ⟨hd, hasked, hwanted⟩ := wanted_of_external hplan hext
  generalize (p.row P s integrationID settings).settings.subdomain = d at *
  obtain ⟨-, -, -, hne, hunique⟩ := plan_subdomain hplan hd
  -- the query finds a deployment with the subdomain, and it is one of this integration
  have hfilter : other ∈ s.rows.filter (·.settings.subdomain = d) := by
    simpa using ⟨hother, hsame.symm⟩
  cases hfound : P.limitOne (s.rows.filter (·.settings.subdomain = d)) with
  | none =>
    rw [P.limitOne_none hfound] at hfilter
    cases hfilter
  | some owner =>
    have howner : owner ∈ s.rows ∧ owner.settings.subdomain = d := by
      simpa using P.limitOne_mem hfound
    have hsameID : owner.integrationID = integrationID := by
      apply hunique
      show owner.integrationID ∈ integrationIDBy P s _ d
      unfold integrationIDBy
      rw [if_neg hne, hfound]
      rfl
    have howned := (h.rows owner howner.1).exposed.2 (howner.2.symm ▸ hne)
    exact hcautious hasked d hwanted owner howner.1 hsameID howned howner.2

theorem Consistent.deployed (h : Consistent P s)
    (hfree : ∀ other ∈ s.rows, Apart (p.row P s integrationID settings) other) :
    Consistent P (s.deployed (p.row P s integrationID settings)
      ((p.spec integrationID settings (p.row P s integrationID settings)).workload P)) := by
  have hid : ∀ other ∈ s.rows, other.id ≠ P.newID s.minted := by
    intro other hother heq
    obtain ⟨n, hn, hkey⟩ := (h.rows other hother).fresh
    exact hn.ne (P.newID_injective (hkey.trans heq))
  refine ⟨forall_mem_cons.2 ⟨⟨⟨_, Nat.lt_succ_self _, rfl⟩, ?_, fun hext => ?_,
    ⟨_, update_self .., host_workload hplan⟩⟩, fun row hrow => ?_⟩,
    pairwise_cons.2 ⟨fun other hother => (hid other hother).symm, h.ids⟩, ?_,
    pairwise_cons.2 ⟨hfree, h.distinct⟩⟩
  · rw [external_row]
    show _ ↔ p.subdomain.getD "" ≠ ""
    cases hsub : p.subdomain with
    | none => simp
    | some => simpa using (plan_subdomain hplan hsub).2.2.2.1
  · exact (plan_subdomain hplan (wanted_of_external hplan hext).1).2.1
  · obtain ⟨⟨n, hn, hkey⟩, hexposed, henabled, w, hw, hhost⟩ := h.rows row hrow
    exact ⟨⟨n, Nat.lt_succ_of_lt hn, hkey⟩, hexposed, henabled,
      w, (update_of_ne (hid row hrow) ..).trans hw, hhost⟩
  · intro id w hw
    by_cases hnew : id = P.newID s.minted
    · exact ⟨_, mem_cons_self, hnew.symm⟩
    · change Function.update s.workload (P.newID s.minted) _ id = _ at hw
      rw [update_of_ne hnew] at hw
      obtain ⟨row, hrow, rfl⟩ := h.owned id w hw
      exact ⟨row, mem_cons_of_mem _ hrow, rfl⟩

end

variable {s : Store}

theorem Consistent.get_eq (h : Consistent P s) {id : String} {row other : Row}
    (hget : s.get P id = some row) (hother : other ∈ s.rows) (hid : P.uuid id = some other.id) :
    other = row :=
  h.eq_of_id hother (mem_of_find?_eq_some hget) (some.inj (hid.symm.trans (id_of_get hget)))

open Consistent

/-- **Every cautious request keeps the stores in agreement.** -/
theorem consistent_serve (h : Consistent P s) (a : Action)
    (ha : Cautious P s a) : Consistent P (serve P s a) := by
  cases a with
  | deploy integrationID settings =>
    simp only [serve, run_deploy]
    rcases hplan : (run (handle P) (plan P integrationID settings) s).1 with e | p
    · exact h
    · exact h.deployed hplan (h.apart_row hplan ha)
  | rollout id snapshotID =>
    simp only [serve, run_rollout]
    rcases hplan : (run (handle P) (rolloutPlan P id snapshotID) s).1 with e | p
    · exact h
    · dsimp only
      split
      · have hget := (rolloutPlan_ok hplan).1
        refine update (update (h.patch p.row.id ?_) id ?_) id ?_
        · exact fun _ => rfl
        · exact fun _ _ _ => ⟨rfl, rfl, rfl⟩
        · -- the row still has the settings that were read
          intro row hrow hid
          obtain ⟨old, hold, rfl⟩ := mem_map.1 hrow
          split at hid
          next hold' =>
            rw [if_pos hold', h.get_eq hget hold hold']
            exact ⟨rfl, rfl, rfl⟩
          next hold' => exact absurd hid hold'
      · exact h
  | scale id =>
    simp only [serve, run_scale]
    cases hget : s.get P id with
    | none => exact h
    | some row =>
      dsimp only
      split
      · refine update (h.patch id ?_) id ?_
        · exact fun _ => rfl
        · intro other hother hid
          rw [h.get_eq hget hother hid]
          exact ⟨rfl, rfl, rfl⟩
      · exact h
  | undeploy id =>
    simp only [serve, run_undeploy]
    split
    · exact h
    · exact h.remove ha

/-- **External hosts stay distinct along every cautious run**, and an accepted `Deploy` that is
exposed keeps them so only if it is cautious. -/
theorem distinct_hosts (P : Platform) (s : Store) (hs : s.IsEmpty) (actions : List Action)
    (h : Along (serve P) (Cautious P) s actions) : let s₁ := actions.foldl (serve P) s
    DistinctHosts s₁ ∧ ∀ integrationID settings row s₂,
      run (handle P) (deploy P integrationID settings) s₁ = (.ok row, s₂) →
        row.settings.external →
          (DistinctHosts s₂ ↔ Cautious P s₁ (.deploy integrationID settings)) := by
  intro s₁
  have hs₁ : Consistent P (actions.foldl (serve P) s) :=
    along_induction (Q := Consistent P) (fun _ a h ha => consistent_serve h a ha) (of_isEmpty hs) h
  refine ⟨hs₁.distinctHosts, fun integrationID settings row s₂ hrun hext =>
    ⟨fun hdistinct => ?_, fun hc => ?_⟩⟩
  · rw [run_deploy] at hrun
    rcases hplan : (run (handle P) (plan P integrationID settings) s₁).1 with e | p
    · rw [hplan] at hrun
      cases hrun
    · rw [hplan] at hrun
      cases hrun
      intro _ d hwanted other hother _ hext' hsame
      have hd := some.inj (hwanted.symm.trans (wanted_of_external hplan hext).2.2)
      exact (pairwise_cons.1 hdistinct.subdomains).1 other hother hext hext'
        (hd.symm.trans hsame.symm)
  · have hserve := (consistent_serve hs₁ _ hc).distinctHosts
    rwa [serve, hrun] at hserve

def shopStore : Store where
  integrations := fun id => if id = "orders" then some ⟨"Orders", "flows"⟩ else none
  snapshots := fun id => if id = "v1" then some ⟨"orders", "1.0", "flows"⟩ else none
  secretKeys := fun _ => false
  catalog := fun _ => false

/-- A `Deploy` that asks for an external endpoint. -/
def expose (slug subdomain : String) : Action :=
  .deploy "orders" { slug, expose := exposeExternal, subdomain, snapshotID := "v1" }

theorem not_distinct_of_shop {s : Store}
    (h0 : (s.workload "d").map host = some (some "shop.octo.dev"))
    (h1 : (s.workload "dd").map host = some (some "shop.octo.dev")) : ¬DistinctHosts s := by
  intro hd
  obtain ⟨w0, hw0, hhost0⟩ := map_eq_some_iff.1 h0
  obtain ⟨w1, hw1, hhost1⟩ := map_eq_some_iff.1 h1
  exact absurd (hd.hosts hw0 hw1 hhost0 hhost1) (by decide)

/-- **Two Ingresses for `shop`**: two deployments of one integration have the subdomain; and an
`Undeploy` of `d` that writes `D` deletes the row and leaves the Ingress to the next deployment. -/
theorem hosts_collide :
    let s := [expose "a" "shop", expose "b" "shop"].foldl (serve shopPlatform) shopStore
    let t := [expose "a" "shop", .undeploy "D", expose "b" "shop"].foldl (serve shopPlatform) shopStore
    shopStore.IsEmpty ∧
      s.rows.map (fun row => (row.id, row.settings.subdomain)) = [("dd", "shop"), ("d", "shop")] ∧
      ¬DistinctHosts s ∧ t.rows.map (fun row => (row.id, row.settings.subdomain)) = [("dd", "shop")] ∧
      ¬DistinctHosts t := by
  refine ⟨⟨rfl, fun _ => rfl⟩, by decide, not_distinct_of_shop ?_ ?_, by decide,
    not_distinct_of_shop ?_ ?_⟩ <;> decide

theorem distinct_hosts_two_subdomains :
    let actions := [expose "a" "shop", expose "b" "cart", .undeploy "d", expose "c" ""]
    shopStore.IsEmpty ∧ DistinctHosts (actions.foldl (serve shopPlatform) shopStore) ∧
      (actions.foldl (serve shopPlatform) shopStore).rows.map (·.settings.subdomain) =
        ["c", "cart"] := by
  intro actions
  refine ⟨⟨rfl, fun _ => rfl⟩, (distinct_hosts shopPlatform shopStore ⟨rfl, fun _ => rfl⟩ actions
    ⟨?_, ?_, ?_, ?_, trivial⟩).1, by decide⟩
  · rintro - d - row hrow
    cases hrow
  · rintro - d hd row hrow - -
    have hrows : ∀ r ∈ (serve shopPlatform shopStore (expose "a" "shop")).rows,
      r.settings.subdomain ≠ "cart" := by decide
    cases hd
    exact hrows row hrow
  · rintro key hkey
    cases hkey
    decide
  · rintro - d hd row hrow - -
    cases hd
    revert row
    decide

end Octo.Deployment.Service
