import Octo.Deployment.Service
import Octo.Foundation.Interleave

/-!
# `Scale` and `Rollout` of one deployment

Both read the row, act on the cluster, and write the settings back as a whole: `Scale` writes the
snapshot id it has read, `Rollout` the replica count.  What they read can be out of date by then.

* `agreed_of_deploy` — so they do after a `Deploy`.
* `scale_and_rollout_compose` — and so they do after any number of requests, where none writes over
  what another has changed since it began and none writes amid the writes of another.
* `deployed_agrees` — one after another they always do.
-/

namespace Octo.Deployment.Service

open List Function Octo.Foundation Program Interleave

/-! ## Calls that write -/

def Op.writes : Op → Bool
  | .create .. | .updateSettings .. | .updateMetadata .. | .delete _ | .apply _ | .scale ..
  | .rollout _ | .deleteResources _ | .snapshotDelete _ | .deleteSecretKey _
  | .catalogDelete _ => true
  | _ => false

theorem handle_of_not_writes (P : Platform) (op : Op) (s : Store) (h : op.writes = false) :
    (handle P op s).2 = s := by
  cases op <;> first | rfl | cases h

inductive Change where
  | scale (replicas : Int)
  | rollout (snapshotID : String)
deriving DecidableEq

variable (P : Platform) (id : String)

def Change.program : Change → Request Row
  | .scale replicas => Service.scale id replicas
  | .rollout snapshotID => Service.rollout P id snapshotID

abbrev changeStep : Interleave.World Store Change Op Answer Error Row → Event Change →
    Interleave.World Store Change Op Answer Error Row :=
  Interleave.World.step (handle P) Op.writes (Change.program P id)

theorem mustWrite_program (change : Change) : MustWrite Op.writes (change.program P id) := by
  cases change with
  | scale =>
    refine .inr fun row => ?_
    cases row with
    | none => trivial
    | some => exact .inl rfl
  | rollout snapshotID =>
    exact mustWrite_bind Op.writes (rolloutPlan P id snapshotID) fun plan => .inl rfl

/-! ## Agreement -/

/-- The row and the cluster agree: on the replica count, and on the version, whose snapshot exists. -/
def Agreed (s : Store) (count : Int) : Prop :=
  ∃ row w snap, s.get P id = some row ∧ row.id = id ∧ s.workload id = some w ∧
    row.settings.replicas = count ∧ w.replicas = count ∧
    row.settings.snapshotID = row.metadata.snapshotID ∧
    s.snapshots row.metadata.snapshotID = some snap ∧ row.metadata.tag = snap.tag ∧
    w.definition = snap.definition

def InRange (count : Int) : Prop := 1 ≤ count ∧ count < 2 ^ 31

/-- The replica count after requests one after another: that of the last `Scale`. -/
def finalCount (count : Int) (changes : List Change) : Int :=
  changes.foldl (fun current change => match change with
    | .scale replicas => clamp replicas
    | .rollout _ => current) count

variable {n : Int}

theorem clamp_eq (h : 1 ≤ n) : clamp n = n := if_neg (by omega)

theorem inRange_clamp (h : n < 2 ^ 31) : InRange (clamp n) := by
  unfold InRange clamp
  split <;> omega

theorem clamp_int32 (h : InRange n) : clamp (int32 (clamp n)) = n := by
  unfold InRange at h
  have hint : int32 n = n := by
    unfold int32
    rw [Int.bmod_def]
    omega
  rw [clamp_eq h.1, hint, clamp_eq h.1]

variable {P id}

variable {s s' : Store} {row' : Row}

theorem scale_ok {replicas : Int}
    (hrun : run (handle P) (scale id replicas) s = (.ok row', s')) :
    ∃ row w, s.get P id = some row ∧ s.workload id = some w ∧
      s'.get P id = some { row with settings := row.settings.scaled replicas } ∧
      s'.workload id = some { w with replicas := clamp (int32 (clamp replicas)) } ∧
      s'.snapshots = s.snapshots := by
  rw [run_scale] at hrun
  cases hrow : s.get P id with
  | none =>
    rw [hrow] at hrun
    cases hrun
  | some row =>
    cases hw : s.workload id with
    | none =>
      rw [hrow, hw] at hrun
      cases hrun
    | some w =>
      rw [hrow, hw] at hrun
      cases hrun
      refine ⟨row, w, rfl, rfl, Store.get_update_self (fun _ => rfl) hrow, ?_, rfl⟩
      show update s.workload id _ id = _
      rw [update_self, hw]
      rfl

theorem rollout_ok {snapshotID : String}
    (hrun : run (handle P) (rollout P id snapshotID) s = (.ok row', s')) :
    ∃ (p : RolloutPlan) (w : Workload), s.get P id = some p.row ∧
      s.snapshots p.snap.id = some p.snap.toFrozen ∧
      s'.get P id = some { p.row with metadata := p.metadata, settings := p.settings } ∧
      s'.workload p.row.id = some { w with
        definition := p.snap.definition
        replicas := clamp (int32 (clamp p.row.settings.replicas)) } ∧
      s'.snapshots = s.snapshots := by
  rw [run_rollout] at hrun
  rcases hplan : (run (handle P) (rolloutPlan P id snapshotID) s).1 with e | p
  · rw [hplan] at hrun
    cases hrun
  · obtain ⟨hrow, -, hsnap, -⟩ := rolloutPlan_ok hplan
    cases hw : s.workload p.row.id with
    | none =>
      rw [hplan] at hrun
      simp only [hw] at hrun
      cases hrun
    | some w =>
      rw [hplan] at hrun
      simp only [hw] at hrun
      cases hrun
      refine ⟨p, w, hrow, (Store.snapshot_eq_some.1 hsnap).2, ?_, ?_, rfl⟩
      · refine Store.get_update_self ?_ (Store.get_update_self ?_ hrow)
        · exact fun _ => rfl
        · exact fun _ => rfl
      · show update s.workload p.row.id _ p.row.id = _
        rw [update_self, hw]
        rfl

theorem agreed_scale {count replicas : Int} (h : Agreed P id s count) (hreplicas : replicas < 2 ^ 31)
    (hrun : run (handle P) (scale id replicas) s = (.ok row', s')) :
    Agreed P id s' (clamp replicas) := by
  obtain ⟨row, w, snap, hrow, hid, hw, -, -, hsnap, hexists, htag, hdef⟩ := h
  obtain ⟨_, _, hrow', hw', hget, hset, hsnapshots⟩ := scale_ok hrun
  cases hrow.symm.trans hrow'
  cases hw.symm.trans hw'
  have hcount := clamp_int32 (inRange_clamp hreplicas)
  rw [clamp_eq (inRange_clamp hreplicas).1] at hcount
  exact ⟨_, _, snap, hget, hid, hset, rfl, hcount, hsnap, hsnapshots ▸ hexists, htag, hdef⟩

theorem agreed_rollout {count : Int} {snapshotID : String}
    (h : Agreed P id s count) (hcount : InRange count)
    (hrun : run (handle P) (rollout P id snapshotID) s = (.ok row', s')) :
    Agreed P id s' count := by
  obtain ⟨row, -, -, hrow, hid, -, hreplicas, -⟩ := h
  obtain ⟨p, w, hrow', hsnap, hget, hset, hsnapshots⟩ := rollout_ok hrun
  cases hrow.symm.trans hrow'
  rw [hid, hreplicas, clamp_int32 hcount] at hset
  exact ⟨_, _, p.snap.toFrozen, hget, hid, hset, hreplicas, rfl, rfl, hsnapshots ▸ hsnap, rfl, rfl⟩

theorem agreed_serves : ∀ {changes : List Change} {s : Store} {count : Int},
    Agreed P id s count → InRange count → (∀ replicas, Change.scale replicas ∈ changes → replicas < 2 ^ 31) →
      Serves (handle P) (Change.program P id) changes s s' → Agreed P id s' (finalCount count changes)
  | [], s, count, h, _, _, hserves => by
    cases hserves
    exact h
  | .scale replicas :: changes, s, count, h, hrange, hcounts, ⟨row, s₁, hrun, hrest⟩ => by
    have hreplicas := hcounts replicas mem_cons_self
    show Agreed P id s' (finalCount (clamp replicas) changes)
    exact agreed_serves (agreed_scale h hreplicas hrun) (inRange_clamp hreplicas)
      (fun n hn => hcounts n (mem_cons_of_mem _ hn)) hrest
  | .rollout snapshotID :: changes, s, count, h, hrange, hcounts, ⟨row, s₁, hrun, hrest⟩ => by
    show Agreed P id s' (finalCount count changes)
    exact agreed_serves (agreed_rollout h hrange hrun) hrange
      (fun n hn => hcounts n (mem_cons_of_mem _ hn)) hrest

/-- **`Scale` and `Rollout` compose where their writes do not cross.** -/
theorem scale_and_rollout_compose (P : Platform) (id : String) (s₀ : Store) (count : Int)
    (hagreed : Agreed P id s₀ count) (hcount : InRange count) (events : List (Event Change))
    (hcareful : Along (changeStep P id) (Interleave.Careful Op.writes (Change.program P id))
      (Interleave.World.init s₀) events) (w : Interleave.World Store Change Op Answer Error Row)
    (hw : w = events.foldl (changeStep P id) (Interleave.World.init s₀))
    (hquiet : w.Quiescent) (hok : w.Successful)
    (hcounts : ∀ replicas, Change.scale replicas ∈ w.requests → replicas < 2 ^ 31) :
    Agreed P id w.store (finalCount count w.requests) :=
  agreed_serves hagreed hcount hcounts (serves_of_careful (handle_of_not_writes P)
    (mustWrite_program P id) s₀ events hcareful w hw hquiet hok)

variable {integrationID : String}

theorem deploy_ok {settings : Settings} {row : Row}
    (hrun : run (handle P) (deploy P integrationID settings) s = (.ok row, s')) :
    ∃ p, (run (handle P) (plan P integrationID settings) s).1 = .ok p ∧
      row = p.row P s integrationID settings ∧ s'.get P row.id = some row ∧
      s'.workload row.id = some ((p.spec integrationID settings row).workload P) ∧ s'.snapshots = s.snapshots := by
  rw [run_deploy] at hrun
  rcases hplan : (run (handle P) (plan P integrationID settings) s).1 with e | p
  · rw [hplan] at hrun
    cases hrun
  · rw [hplan] at hrun
    cases hrun
    exact ⟨p, rfl, rfl, find?_cons_of_pos (by simp [Plan.row, P.uuid_newID]), update_self .., rfl⟩

theorem agreed_of_deploy {settings : Settings} {row : Row}
    (hwired : P.snapshots) (hreplicas : settings.replicas < 2 ^ 31)
    (hrun : run (handle P) (deploy P integrationID settings) s = (.ok row, s')) :
    Agreed P row.id s' (clamp settings.replicas) := by
  obtain ⟨p, hplan, rfl, hget, hset, hsnapshots⟩ := deploy_ok hrun
  obtain ⟨snap, hsnap, htag, hdef⟩ := plan_version hwired hplan
  have hcount := clamp_int32 (inRange_clamp hreplicas)
  rw [clamp_eq (inRange_clamp hreplicas).1] at hcount
  exact ⟨_, _, snap, hget, rfl, hset, rfl, hcount, rfl, hsnapshots ▸ hsnap, htag, hdef⟩

/-- One deployment with one replica, and two snapshots of its integration. -/
def deployedOnce : Store where
  integrations := fun id => if id = "orders" then some ⟨"Orders", "flows"⟩ else none
  snapshots := fun id =>
    if id = "v1" then some ⟨"orders", "1.0", "flows"⟩
    else if id = "v2" then some ⟨"orders", "2.0", "more flows"⟩ else none
  rows := [⟨"d", "orders", { replicas := 1, snapshotID := "v1" },
    ⟨"Orders", "orders", "http://octo-int-orders.octo:8080", "", "v1", "1.0"⟩⟩]
  minted := 1
  workload := fun id => if id = "d" then some ⟨"flows", 1, none⟩ else none
  secretKeys := fun _ => false
  catalog := fun _ => false

/-- A `Rollout` between the two writes of a `Scale`. -/
def crossed : List (Event Change) :=
  [.begin 0 (.scale 3), .call 0, .begin 1 (.rollout "v2"), .call 1, .call 1, .call 1, .call 1, .call 0]

open Interleave.World

/-- **A `Rollout` amid a `Scale` loses both**: each stores or sets what it has read. -/
theorem crossed_writes_disagree :
    let w := crossed.foldl (changeStep shopPlatform "d") (init deployedOnce)
    Agreed shopPlatform "d" deployedOnce 1 ∧ w.Quiescent ∧ w.Successful ∧ w.requests = [.scale 3, .rollout "v2"] ∧
      (w.store.get shopPlatform "d").map (fun row => (row.settings.replicas, row.settings.snapshotID,
        row.metadata.snapshotID)) = some (3, "v1", "v2") ∧
      w.store.workload "d" = some ⟨"more flows", 1, none⟩ := by
  intro w
  have hdone : ∀ r t, w.task r = some t → ∃ a, t.rest = .done a := by
    intro r t ht
    rcases r with _ | _ | r
    · cases ht
      exact ⟨_, rfl⟩
    · cases ht
      exact ⟨_, rfl⟩
    · cases ht
  obtain ⟨hquiet, hok⟩ := quiescent_and_successful_of_done hdone
  exact ⟨⟨_, _, _, rfl, rfl, rfl, rfl, rfl, rfl, rfl, rfl, rfl⟩, hquiet, hok, rfl, by decide, by decide⟩

/-- A `Rollout` that begins once a `Scale` has written. -/
def uncrossed : List (Event Change) :=
  [.begin 0 (.scale 3), .call 0, .call 0, .begin 1 (.rollout "v2")] ++ List.replicate 4 (.call 1)

theorem uncrossed_writes_agree :
    let w := uncrossed.foldl (changeStep shopPlatform "d") (init deployedOnce)
    w.requests = [.scale 3, .rollout "v2"] ∧ Agreed shopPlatform "d" w.store 3 := by
  intro w
  have hdone : ∀ r t, w.task r = some t → ∃ a, t.rest = .done a := by
    intro r t ht
    rcases r with _ | _ | r <;> cases ht <;> exact ⟨_, rfl⟩
  obtain ⟨hquiet, hok⟩ := quiescent_and_successful_of_done hdone
  refine ⟨rfl, scale_and_rollout_compose shopPlatform "d" deployedOnce 1
    ⟨_, _, _, rfl, rfl, rfl, rfl, rfl, rfl, rfl, rfl, rfl⟩ ⟨by decide, by decide⟩ uncrossed ?_ _ rfl
    hquiet hok ?_⟩
  · refine ⟨fun _ => ?_, ?_, ?_, fun _ => ?_, ?_, ?_, ?_, ?_, trivial⟩ <;>
    · intro t op next ht _ _
      cases ht
      refine ⟨rfl, fun r t' hr ht' hactive => ?_⟩
      obtain ⟨_, _, hrest⟩ := hactive
      -- another request is the `Scale`, which is done
      rcases r with _ | _ | r <;> first | exact absurd rfl hr | cases ht' <;> cases hrest
  · intro n hn
    cases mem_pair.1 hn with
    | inl hn => cases hn; decide
    | inr hn => cases hn

/-! ## Counts out of range -/

def Keeps (P : Platform) (id : String) (s : Store) (count : Int) : Prop :=
  ∃ row w, s.get P id = some row ∧ row.id = id ∧ s.workload id = some w ∧ row.settings.replicas = count ∧
    w.replicas = clamp (int32 count)

theorem one_le_clamp (n : Int) : 1 ≤ clamp n := by
  unfold clamp
  split <;> omega

theorem clamp_int32_eq_iff (h : 1 ≤ n) : clamp (int32 n) = n ↔ n < 2 ^ 31 := by
  constructor
  · intro heq
    have hlt : int32 n < 2 ^ 31 := Int.bmod_lt (by decide)
    unfold clamp at heq
    split at heq <;> omega
  · intro hlt
    have hcount := clamp_int32 ⟨h, hlt⟩
    rwa [clamp_eq h] at hcount

theorem keeps_serves : ∀ {changes : List Change} {s : Store} {count : Int},
    Keeps P id s count → 1 ≤ count → Serves (handle P) (Change.program P id) changes s s' →
      Keeps P id s' (finalCount count changes) ∧ 1 ≤ finalCount count changes
  | [], s, count, h, hpos, hserves => by
    cases hserves
    exact ⟨h, hpos⟩
  | .scale replicas :: changes, s, count, ⟨row, _, hrow, hid, _⟩, hpos, ⟨_, s₁, hrun, hrest⟩ => by
    obtain ⟨_, _, hrow', -, hget, hset, -⟩ := scale_ok hrun
    cases hrow.symm.trans hrow'
    show Keeps P id s' (finalCount (clamp replicas) changes) ∧ 1 ≤ finalCount (clamp replicas) changes
    exact keeps_serves ⟨_, _, hget, hid, hset, rfl, rfl⟩ (one_le_clamp replicas) hrest
  | .rollout snapshotID :: changes, s, count, ⟨row, w, hrow, hid, _, hcount, _⟩, hpos,
      ⟨_, s₁, hrun, hrest⟩ => by
    obtain ⟨p, _, hrow', -, hget, hset, -⟩ := rollout_ok hrun
    cases hrow.symm.trans hrow'
    rw [hid, hcount, clamp_eq hpos] at hset
    show Keeps P id s' (finalCount count changes) ∧ 1 ≤ finalCount count changes
    exact keeps_serves ⟨_, _, hget, hid, hset, hcount, rfl⟩ hpos hrest

/-- **The cluster runs the count that is stored** exactly when 32 bits hold it: after a `Deploy` and
any later `Scale` and `Rollout` requests, the row keeps the count that was asked for last. -/
theorem replicas_agree_iff (P : Platform) (integrationID : String) (settings : Settings)
    (s s₁ s₂ : Store) (row : Row) (changes : List Change)
    (hdeploy : run (handle P) (deploy P integrationID settings) s = (.ok row, s₁))
    (hserves : Serves (handle P) (Change.program P row.id) changes s₁ s₂) :
    ∃ row' w, s₂.get P row.id = some row' ∧ s₂.workload row.id = some w ∧
      row'.settings.replicas = finalCount (clamp settings.replicas) changes ∧
      (w.replicas = row'.settings.replicas ↔
        finalCount (clamp settings.replicas) changes < 2 ^ 31) := by
  obtain ⟨p, -, rfl, hget, hset, -⟩ := deploy_ok hdeploy
  obtain ⟨⟨row', w, hrow', -, hw, hcount, hkept⟩, hpos⟩ :=
    keeps_serves ⟨_, _, hget, rfl, hset, rfl, rfl⟩ (one_le_clamp settings.replicas) hserves
  refine ⟨row', w, hrow', hw, hcount, ?_⟩
  rw [hkept, hcount]
  exact clamp_int32_eq_iff hpos

def replicated (replicas : Int) : Settings := { replicas, slug := "api", snapshotID := "v1" }

/-- **A count of 2³¹ runs one replica**, by `Deploy`, by `Scale` and after a `Rollout`. -/
theorem wide_count_runs_one :
    (∃ row s, run (handle shopPlatform) (deploy shopPlatform "orders" (replicated (2 ^ 31)))
        deployedOnce = (.ok row, s) ∧ row.settings.replicas = 2 ^ 31 ∧
      s.workload row.id = some ⟨"flows", 1, none⟩) ∧
    ∃ s, Serves (handle shopPlatform) (Change.program shopPlatform "d")
        [.scale (2 ^ 31), .rollout "v2"] deployedOnce s ∧
      (s.get shopPlatform "d").map (·.settings.replicas) = some (2 ^ 31) ∧
      s.workload "d" = some ⟨"more flows", 1, none⟩ :=
  ⟨⟨_, _, rfl, rfl, rfl⟩, _, ⟨_, _, rfl, _, _, rfl, rfl⟩, rfl, rfl⟩

theorem three_replicas_agree : ∃ row s₁ s₂ row' w,
    run (handle shopPlatform) (deploy shopPlatform "orders" (replicated 2)) deployedOnce =
      (.ok row, s₁) ∧
    Serves (handle shopPlatform) (Change.program shopPlatform row.id) [.scale 3, .rollout "v2"] s₁
      s₂ ∧ s₂.get shopPlatform row.id = some row' ∧ s₂.workload row.id = some w ∧
      row'.settings.replicas = 3 ∧
      w.replicas = row'.settings.replicas := by
  obtain ⟨row', w, hrow, hw, hcount, hiff⟩ := replicas_agree_iff shopPlatform "orders"
    (replicated 2) deployedOnce _ _ _ [.scale 3, .rollout "v2"] rfl ⟨_, _, rfl, _, _, rfl, rfl⟩
  exact ⟨_, _, _, row', w, rfl, ⟨_, _, rfl, _, _, rfl, rfl⟩, hrow, hw, hcount, hiff.2 (by decide)⟩

/-- **A deployment agrees with its row** after `Deploy` and any `Scale` and `Rollout` requests, one
after another: on the replicas, the snapshot, its tag and its definition. -/
theorem deployed_agrees (P : Platform) (integrationID : String) (settings : Settings)
    (s s₁ s₂ : Store) (row : Row) (changes : List Change) (hwired : P.snapshots)
    (hcounts : ∀ n, n = settings.replicas ∨ Change.scale n ∈ changes → n < 2 ^ 31)
    (hdeploy : run (handle P) (deploy P integrationID settings) s = (.ok row, s₁))
    (hserves : Serves (handle P) (Change.program P row.id) changes s₁ s₂) :
    Agreed P row.id s₂ (finalCount (clamp settings.replicas) changes) := by
  have hreplicas := hcounts _ (.inl rfl)
  exact agreed_serves (agreed_of_deploy hwired hreplicas hdeploy) (inRange_clamp hreplicas)
    (fun n hn => hcounts n (.inr hn)) hserves

theorem scaled_and_rolled_agrees : ∃ row s₁ s₂,
    run (handle shopPlatform) (deploy shopPlatform "orders" (replicated 2)) deployedOnce =
      (.ok row, s₁) ∧ Agreed shopPlatform row.id s₂ 3 :=
  ⟨_, _, _, rfl, deployed_agrees shopPlatform "orders" (replicated 2) deployedOnce _ _ _
    [.scale 3, .rollout "v2"] rfl (by simp [replicated]) rfl ⟨_, _, rfl, _, _, rfl, rfl⟩⟩

end Octo.Deployment.Service
