import Octo.Deployment.Scaling

/-!
# References from deployments

A deployment names a snapshot, and its environment names secrets.  `Deploy` and `Rollout` check that
both exist before they store the row; a delete checks that no row names what it deletes.  Nothing
keeps a check true until the write that rests on it.

* `no_dangling_references` — so it does along every run in which no call makes false what another
  request in progress has checked and every delete of a snapshot writes the id as it is stored.
-/

namespace Octo.Deployment.Service

open List Function Store Octo.Foundation Program Interleave

/-! ## Requests and what they check -/

/-- A request that stores references or deletes what is referred to. -/
inductive Job where
  | deploy (integrationID : String) (settings : Settings)
  | rollout (id snapshotID : String)
  | deleteSnapshot (id : String)
  | deleteSecret (name : String)

variable (P : Platform)

def Job.program : Job → Request Unit
  | .deploy integrationID settings => do
    let _ ← Service.deploy P integrationID settings
    return ()
  | .rollout id snapshotID => do
    let _ ← Service.rollout P id snapshotID
    return ()
  | .deleteSnapshot id => Service.deleteSnapshot id
  | .deleteSecret name => Service.deleteSecret name false

abbrev jobStep : Interleave.World Store Job Op Answer Error Unit → Event Job →
    Interleave.World Store Job Op Answer Error Unit :=
  Interleave.World.step (handle P) Op.writes (Job.program P)

inductive Fact where
  | snapshot (integrationID id : String)
  | secret (key : String)
  | row (id integrationID : String)
  | belongs (integrationID id : String)
  | unusedSnapshot (integrationID id : String)
  | unusedSecret (name : String)

def Fact.holds (s : Store) : Fact → Prop
  | .snapshot integrationID id => ∃ snap, s.snapshots id = some snap ∧ snap.integrationID = integrationID
  | .secret key => s.secretKeys key
  | .row id integrationID => ∃ row, s.get P id = some row ∧ row.integrationID = integrationID
  | .belongs integrationID id =>
    ∀ snap, s.snapshot P id = some snap → snap.integrationID = integrationID
  | .unusedSnapshot integrationID id => s.deploymentsUsingSnapshot integrationID id = []
  | .unusedSecret name => s.secretReferenced name = false

/-- The request stores references. -/
def Job.Stores : Job → Prop
  | .deploy .. | .rollout .. => True
  | _ => False

/-- What a request learns from an answer: one that stores references that they exist, a delete that
nothing refers to what it deletes. -/
inductive Learns (q : Job) : (op : Op) → Answer op → Fact → Prop where
  | snapshot {id : String} {snap : Snapshot} (hq : q.Stores) : Learns q (.snapshotGet id)
      (some snap : Option Snapshot) (.snapshot snap.integrationID snap.id)
  | secret {key : String} (hq : q.Stores) :
    Learns q (.secretKeyExists key) (true : Bool) (.secret key)
  | row {id : String} {row : Row} (hq : q.Stores) :
    Learns q (.get id) (some row : Option Row) (.row id row.integrationID)
  | belongs {id : String} {snap : Snapshot} (hq : ¬q.Stores) : Learns q (.snapshotGet id)
      (some snap : Option Snapshot) (.belongs snap.integrationID id)
  | unusedSnapshot {integrationID id : String} (hq : ¬q.Stores) :
    Learns q (.deploymentsUsingSnapshot integrationID id) ([] : List String)
      (.unusedSnapshot integrationID id)
  | unusedSecret {name : String} (hq : ¬q.Stores) :
    Learns q (.secretReferenced name) (false : Bool) (.unusedSecret name)

def AllSecrets (bindings : Bindings) (Q : String → Prop) : Prop :=
  ∀ b ∈ bindings.entries, b.2.secret ≠ "" → Q b.2.secret

/-- The reference to a snapshot is sound: without a snapshot store `Deploy` records none. -/
def Recorded (Q : String → Prop) (snapshotID : String) : Prop :=
  (P.snapshots = false ∧ snapshotID = "") ∨ Q snapshotID

/-- What a deployment refers to is among the facts: its snapshots, each as one of the integration,
and the secrets of its environment. -/
def Backed (known : Fact → Prop) (integrationID : String) (settings : Settings)
    (metadata : Metadata) : Prop :=
  Recorded P (fun id => known (.snapshot integrationID id)) settings.snapshotID ∧
  Recorded P (fun id => known (.snapshot integrationID id)) metadata.snapshotID ∧
  AllSecrets settings.env fun key => known (.secret key)

def covered (q : Job) (known : Fact → Prop) : Op → Prop
  | .create integrationID settings metadata =>
    q.Stores ∧ Backed P known integrationID settings metadata
  | .updateSettings id settings => q.Stores ∧
    ∃ integrationID, known (.row id integrationID) ∧
      known (.snapshot integrationID settings.snapshotID) ∧
      AllSecrets settings.env fun key => known (.secret key)
  | .updateMetadata id metadata => q.Stores ∧
    ∃ integrationID, known (.row id integrationID) ∧
      known (.snapshot integrationID metadata.snapshotID)
  | .snapshotDelete id => ¬q.Stores ∧ P.AsStored id ∧
    ∃ integrationID, known (.belongs integrationID id) ∧ known (.unusedSnapshot integrationID id)
  | .deleteSecretKey name => ¬q.Stores ∧ known (.unusedSecret name)
  | .delete _ => False
  | _ => True

/-! ## The requests act on what they have checked -/

section Guarded

variable {P} {q : Job} {known : Fact → Prop}

theorem guarded_resolveSnapshot (hq : q.Stores) (integrationID snapshotID : String) :
    Guarded Learns (covered P) q (fun known' snap => known' (.snapshot integrationID snap.id)) known
      (resolveSnapshot integrationID snapshotID) := by
  refine guarded_require_bind fun _ => guarded_ask_bind trivial fun answer => ?_
  refine guarded_found_bind fun snap hsnap => guarded_require_bind ?_
  rintro rfl
  subst hsnap
  exact guarded_pure (.inr (.snapshot hq))

theorem guarded_checkSecrets (hq : q.Stores) : ∀ (keys : List String) {known : Fact → Prop},
    Guarded Learns (covered P) q (fun known' _ => ∀ key ∈ keys, known' (.secret key)) known
      (checkSecrets keys)
  | [], _ => guarded_pure nofun
  | key :: keys, known => by
    refine guarded_ask_bind trivial fun answer => guarded_require_bind fun hanswer => ?_
    refine (guarded_checkSecrets hq keys).imp fun known' _ hknown hkeys => ?_
    subst hanswer
    exact forall_mem_cons.2 ⟨hknown _ (.inr (.secret hq)), hkeys⟩

theorem guarded_resolveEnvBindings (hq : q.Stores) (runtimeEnv : EnvMap) (bindings : Bindings) :
    Guarded Learns (covered P) q
      (fun known' _ => AllSecrets bindings fun key => known' (.secret key)) known
      (resolveEnvBindings runtimeEnv bindings) := by
  unfold resolveEnvBindings
  split
  · exact guarded_fail _
  next maps hmaps =>
    refine guarded_bind (guarded_checkSecrets hq _) fun known' _ _ hkeys => guarded_pure ?_
    intro b hb hsecret
    have hlookup := (secrets_foldlM _ _ _ bindings.nodupKeys hmaps).2 b hb hsecret
    have hentry := AList.mem_lookup_iff.1 hlookup
    exact hkeys _ (mem_map_of_mem hentry)

/-! The checks of the address learn nothing. -/

theorem guarded_firstFree : ∀ (slugs : List String) {known : Fact → Prop},
    Guarded Learns (covered P) q (fun _ _ => True) known (firstFree slugs)
  | [], _ => guarded_fail _
  | slug :: slugs, known => by
    refine guarded_ask_bind trivial fun answer => ?_
    cases answer with
    | none => exact guarded_pure trivial
    | some => exact guarded_firstFree slugs

theorem guarded_resolveSlug (chosen name : String) :
    Guarded Learns (covered P) q (fun _ _ => True) known (resolveSlug P chosen name) := by
  unfold resolveSlug
  split
  · exact guarded_firstFree _
  · refine guarded_require_bind fun _ => guarded_ask_bind trivial fun _ => ?_
    exact guarded_require_bind fun _ => guarded_pure trivial

theorem guarded_ensureSubdomainUnique (integrationID subdomain : String) :
    Guarded Learns (covered P) q (fun _ _ => True) known
      (ensureSubdomainUnique integrationID subdomain) := by
  unfold ensureSubdomainUnique
  split
  · exact guarded_pure trivial
  · exact guarded_ask_bind trivial fun _ => guarded_require fun _ => trivial

theorem guarded_resolveSubdomain (integrationID slug : String) (settings : Settings)
    (networked : Bool) : Guarded Learns (covered P) q (fun _ _ => True) known
      (resolveSubdomain P integrationID settings networked slug) := by
  unfold resolveSubdomain
  split
  · refine guarded_require_bind fun _ => ?_
    split
    · refine guarded_require_bind fun _ => ?_
      exact guarded_bind (guarded_ensureSubdomainUnique _ _) fun _ _ _ _ => guarded_pure trivial
    · exact guarded_pure trivial
  · exact guarded_pure trivial

theorem guarded_deployedVersion (hq : q.Stores) (integrationID : String) (it : Integration)
    (snapshotID : String) : Guarded Learns (covered P) q (fun known' version =>
        Recorded P (fun id => known' (.snapshot integrationID id)) version.snapshotID) known
      (deployedVersion P integrationID it snapshotID) := by
  unfold deployedVersion
  split
  · exact guarded_bind (guarded_resolveSnapshot hq _ _) fun _ _ _ h => guarded_pure (.inr h)
  next hwired =>
    exact guarded_pure (.inl ⟨Bool.eq_false_of_not_eq_true hwired, rfl⟩)

theorem guarded_plan (hq : q.Stores) (integrationID : String) (settings : Settings) :
    Guarded Learns (covered P) q (fun known' p =>
        Recorded P (fun id => known' (.snapshot integrationID id)) p.version.snapshotID ∧
          AllSecrets settings.env fun key => known' (.secret key)) known
      (plan P integrationID settings) := by
  refine guarded_ask_bind trivial fun _ => guarded_found_bind fun it _ => ?_
  refine guarded_bind (guarded_deployedVersion hq _ _ _) fun _ version _ hversion => ?_
  refine guarded_bind (guarded_resolveEnvBindings hq _ _) fun _ maps hkeep henv => ?_
  have hversion := hversion.imp_right (hkeep _)
  refine guarded_bind (M := fun _ _ => True) ?_ fun _ slug hkeep₁ _ => ?_
  · unfold deployedSlug
    split
    · exact guarded_resolveSlug _ _
    · exact guarded_pure trivial
  · refine guarded_bind (guarded_resolveSubdomain _ _ _ _) fun _ _ hkeep₂ _ => guarded_pure ?_
    exact ⟨hversion.imp_right fun h => hkeep₂ _ (hkeep₁ _ h),
      fun b hb hne => hkeep₂ _ (hkeep₁ _ (henv b hb hne))⟩

theorem guarded_rolloutPlan (hq : q.Stores) (id snapshotID : String) :
    Guarded Learns (covered P) q (fun known' p =>
        known' (.row id p.row.integrationID) ∧ known' (.snapshot p.row.integrationID p.snap.id) ∧
          AllSecrets p.row.settings.env fun key => known' (.secret key)) known
      (rolloutPlan P id snapshotID) := by
  refine guarded_require_bind fun _ => guarded_ask_bind trivial fun answer => ?_
  refine guarded_found_bind fun row hrow => ?_
  subst hrow
  refine guarded_bind (guarded_resolveSnapshot hq _ _) fun _ snap hkeep hsnap => ?_
  refine guarded_require_bind fun _ => ?_
  refine guarded_bind (guarded_resolveEnvBindings hq _ _) fun _ maps hkeep₁ henv => guarded_pure ?_
  exact ⟨hkeep₁ _ (hkeep _ (.inr (.row hq))), hkeep₁ _ hsnap, henv⟩

theorem guarded_deploy (integrationID : String) (settings : Settings) :
    Guarded Learns (covered P) (.deploy integrationID settings) (fun _ _ => True) known
      (deploy P integrationID settings) := by
  have hq : (Job.deploy integrationID settings).Stores := trivial
  refine guarded_bind (guarded_plan hq integrationID settings) fun _ p _ hp => ?_
  refine guarded_ask_bind ⟨hq, hp.1, hp.1, hp.2⟩ fun row => ?_
  exact guarded_ask_bind trivial fun _ => guarded_pure trivial

theorem guarded_rollout (id snapshotID : String) :
    Guarded Learns (covered P) (.rollout id snapshotID) (fun _ _ => True) known
      (rollout P id snapshotID) := by
  have hq : (Job.rollout id snapshotID).Stores := trivial
  refine guarded_bind (guarded_rolloutPlan hq id snapshotID) fun _ p _ ⟨hrow, hsnap, henv⟩ => ?_
  refine guarded_ask_bind trivial fun _ => guarded_require_bind fun _ => ?_
  refine guarded_ask_bind ⟨hq, _, .inl hrow, .inl hsnap⟩ fun _ => guarded_require_bind fun _ => ?_
  exact guarded_ask_bind ⟨hq, _, .inl (.inl hrow), .inl (.inl hsnap),
    fun b hb hne => .inl (.inl (henv b hb hne))⟩ fun _ => guarded_pure trivial

theorem guarded_deleteSnapshot {id : String} (hid : P.AsStored id) :
    Guarded Learns (covered P) (.deleteSnapshot id) (fun _ _ => True) known
      (deleteSnapshot id) := by
  refine guarded_ask_bind trivial fun answer => guarded_found_bind fun snap hsnap => ?_
  refine guarded_ask_bind trivial fun labels => guarded_require_bind fun hlabels => ?_
  subst hsnap
  obtain rfl := length_eq_zero_iff.1 hlabels
  exact guarded_ask_bind ⟨nofun, hid, _, .inl (.inr (.belongs nofun)), .inr (.unusedSnapshot nofun)⟩
    fun _ => guarded_require fun _ => trivial

theorem guarded_deleteSecret (name : String) :
    Guarded Learns (covered P) (.deleteSecret name) (fun _ _ => True) known
      (deleteSecret name false) := by
  refine guarded_ask_bind trivial fun answer => guarded_require_bind fun hanswer => ?_
  subst hanswer
  refine guarded_ask_bind ⟨nofun, .inr (.unusedSecret nofun)⟩ fun _ => ?_
  exact guarded_ask_bind trivial fun _ => guarded_require fun _ => trivial

theorem guarded_program (hspelled : ∀ id, q = .deleteSnapshot id → P.AsStored id) :
    Guarded Learns (covered P) q (fun _ _ => True) known (q.program P) := by
  cases q with
  | deploy integrationID settings =>
    exact guarded_bind (guarded_deploy integrationID settings) fun _ _ _ _ => guarded_pure trivial
  | rollout id snapshotID =>
    exact guarded_bind (guarded_rollout id snapshotID) fun _ _ _ _ => guarded_pure trivial
  | deleteSnapshot id => exact guarded_deleteSnapshot (hspelled id rfl)
  | deleteSecret name => exact guarded_deleteSecret name

end Guarded

/-! ## What the calls keep -/

def NoDangling (s : Store) : Prop :=
  ∀ row ∈ s.rows, Backed P (Fact.holds P s) row.integrationID row.settings row.metadata

/-- The ids in the tables are ids the database has written, each row's its own. -/
structure Store.Keyed (s : Store) : Prop where
  get : ∀ row ∈ s.rows, s.get P row.id = some row
  minted : ∀ row ∈ s.rows, ∃ n < s.minted, P.newID n = row.id
  owner : ∀ id snap, s.snapshots id = some snap → P.uuid snap.integrationID = some snap.integrationID

structure Intact (s : Store) : Prop where
  keyed : s.Keyed P
  references : NoDangling P s

variable {s : Store}

variable {q : Job} {op : Op}

theorem holds_of_learns {f : Fact} (h : Learns q op (handle P op s).1 f) :
    f.holds P (handle P op s).2 := by
  generalize hanswer : (handle P op s).1 = answer at h
  cases h with
  | @snapshot _ snap => exact ⟨snap.toFrozen, (snapshot_eq_some.1 hanswer).2, rfl⟩
  | @row _ row => exact ⟨row, hanswer, rfl⟩
  | belongs =>
    intro snap hsnap
    cases hanswer.symm.trans hsnap
    rfl
  | secret | unusedSnapshot | unusedSecret => exact hanswer

variable {P}

theorem Store.get_create (row : Row) (id : String) :
    ({ s with rows := row :: s.rows, minted := s.minted + 1 } : Store).get P id =
      if P.uuid id = some row.id then some row else s.get P id := by
  unfold get
  split <;> simp_all

theorem Store.Keyed.ne_newID (h : s.Keyed P) {row : Row} (hrow : row ∈ s.rows) :
    row.id ≠ P.newID s.minted := by
  obtain ⟨n, hn, hid⟩ := h.minted row hrow
  exact fun heq => hn.ne (P.newID_injective (hid.trans heq))

variable (P)

open Fact

theorem intact_create (h : Intact P s) {row : Row} (hid : row.id = P.newID s.minted)
    (hrow : Backed P (holds P s) row.integrationID row.settings row.metadata) :
    Intact P { s with rows := row :: s.rows, minted := s.minted + 1 } := by
  refine ⟨⟨fun r hr => ?_, fun r hr => ?_, h.keyed.owner⟩, fun r hr => ?_⟩
  · rw [get_create]
    rcases mem_cons.1 hr with rfl | hr
    · exact if_pos (hid ▸ P.uuid_newID _)
    · rw [id_of_get (h.keyed.get r hr), if_neg]
      · exact h.keyed.get r hr
      · rw [hid]
        exact fun heq => h.keyed.ne_newID hr (Option.some.inj heq)
  · show ∃ n < s.minted + 1, _
    rcases mem_cons.1 hr with rfl | hr
    · exact ⟨_, Nat.lt_succ_self _, hid.symm⟩
    · obtain ⟨n, hn, hkey⟩ := h.keyed.minted r hr
      exact ⟨n, Nat.lt_succ_of_lt hn, hkey⟩
  · rcases mem_cons.1 hr with rfl | hr
    · exact hrow
    · exact h.references r hr

theorem intact_update (h : Intact P s) {id : String} {f : Row → Row}
    (hid : ∀ row, (f row).id = row.id) (hrow : ∀ row ∈ s.rows, s.get P id = some row →
      Backed P (holds P s) (f row).integrationID (f row).settings (f row).metadata) :
    Intact P (s.update P id f) := by
  have hmem : ∀ {r : Row}, r ∈ (s.update P id f).rows →
      ∃ row ∈ s.rows, (if P.uuid id = some row.id then f row else row) = r := mem_map.1
  refine ⟨⟨fun r hr => ?_, fun r hr => ?_, h.keyed.owner⟩, fun r hr => ?_⟩
  · obtain ⟨row, hmem, rfl⟩ := hmem hr
    have hkey : (if P.uuid id = some row.id then f row else row).id = row.id := by
      split
      · exact hid row
      · rfl
    rw [hkey, get_update hid, h.keyed.get row hmem, Option.map_some]
  · obtain ⟨row, hmem, rfl⟩ := hmem hr
    split
    · rw [hid row]
      exact h.keyed.minted row hmem
    · exact h.keyed.minted row hmem
  · obtain ⟨row, hmem, rfl⟩ := hmem hr
    split
    next hkey =>
      have hget := h.keyed.get row hmem
      unfold Store.get at hget
      rw [id_of_get (h.keyed.get row hmem), ← hkey] at hget
      exact hrow row hmem hget
    · exact h.references row hmem

variable {integrationID : String} {known : Fact → Prop}

theorem Backed.imp {known' : Fact → Prop} {settings : Settings} {metadata : Metadata}
    (h : Backed P known integrationID settings metadata)
    (hsettings : known (.snapshot integrationID settings.snapshotID) → known' (.snapshot integrationID settings.snapshotID))
    (hmetadata : known (.snapshot integrationID metadata.snapshotID) → known' (.snapshot integrationID metadata.snapshotID))
    (hsecret : ∀ b ∈ settings.env.entries, b.2.secret ≠ "" → known (.secret b.2.secret) → known' (.secret b.2.secret)) :
    Backed P known' integrationID settings metadata :=
  ⟨h.1.imp_right hsettings, h.2.1.imp_right hmetadata,
    fun b hb hne => hsecret b hb hne (h.2.2 b hb hne)⟩

theorem Backed.stored {settings : Settings} {metadata : Metadata} (hkeyed : s.Keyed P)
    (h : Backed P (holds P s) integrationID settings metadata) :
    Backed P (holds P s) ((P.uuid integrationID).getD integrationID) settings metadata := by
  -- a snapshot of the integration has its id as the database writes it
  have hsnapshot : ∀ {id}, holds P s (.snapshot integrationID id) →
      holds P s (.snapshot ((P.uuid integrationID).getD integrationID) id) := by
    rintro id ⟨snap, hsnap, rfl⟩
    exact ⟨snap, hsnap, by rw [hkeyed.owner id snap hsnap, Option.getD_some]⟩
  exact ⟨h.1.imp_right hsnapshot, h.2.1.imp_right hsnapshot, h.2.2⟩

theorem intact_snapshotDelete (h : Intact P s) {id : String} (hid : P.AsStored id)
    (hbelongs : holds P s (.belongs integrationID id))
    (hunused : holds P s (.unusedSnapshot integrationID id)) :
    Intact P (handle P (.snapshotDelete id) s).2 := by
  refine ⟨⟨h.keyed.get, h.keyed.minted, fun key snap hsnap => ?_⟩, fun row hrow => ?_⟩
  · change (if _ then none else _) = _ at hsnap
    split at hsnap
    · cases hsnap
    · exact h.keyed.owner key snap hsnap
  have hkeep : ∀ id', (id' = row.settings.snapshotID ∨ id' = row.metadata.snapshotID) →
      holds P s (.snapshot row.integrationID id') →
      holds P (handle P (.snapshotDelete id) s).2 (.snapshot row.integrationID id') := by
    rintro id' hid' ⟨snap, hsnap, hof⟩
    have hne : P.uuid id ≠ some id' := by
      intro hkey
      obtain rfl := hid id' hkey
      -- the query looks at the deployments of the snapshot's own integration
      have hown : row.integrationID = integrationID :=
        hof.symm.trans (hbelongs ⟨snap, id'⟩ (snapshot_eq_some.2 ⟨hkey, hsnap⟩))
      have hnone := filter_eq_nil_iff.1 (map_eq_nil_iff.1 hunused) row hrow
      exact hnone (decide_eq_true ⟨hown, hid'⟩)
    exact ⟨snap, (if_neg hne).trans hsnap, hof⟩
  exact (h.references row hrow).imp P (hkeep _ (.inl rfl)) (hkeep _ (.inr rfl)) fun _ _ _ hkey => hkey

theorem intact_deleteSecretKey (h : Intact P s) {name : String}
    (hunused : holds P s (.unusedSecret name)) :
    Intact P { s with secretKeys := update s.secretKeys name false } := by
  refine ⟨⟨h.keyed.get, h.keyed.minted, h.keyed.owner⟩, fun row hrow => ?_⟩
  refine (h.references row hrow).imp P (fun hsnap => hsnap) (fun hsnap => hsnap)
    fun b hb hne hkey => ?_
  have hother : b.2.secret ≠ name := by
    rintro rfl
    have hused : s.secretReferenced b.2.secret = true := by
      unfold Store.secretReferenced
      rw [Bool.and_eq_true]
      refine ⟨decide_eq_true hne, any_eq_true.2 ⟨row, hrow, ?_⟩⟩
      exact any_eq_true.2 ⟨b, hb, decide_eq_true rfl⟩
    exact Bool.false_ne_true (hunused.symm.trans hused)
  show update s.secretKeys name false b.2.secret = true
  rw [update_of_ne hother]
  exact hkey

theorem intact_handle (h : Intact P s) (hcovered : covered P q known op)
    (hknown : ∀ f, known f → f.holds P s) : Intact P (handle P op s).2 := by
  cases op with
  | create =>
    refine intact_create P h rfl (Backed.stored P h.keyed ?_)
    exact hcovered.2.imp P (hknown _) (hknown _) fun _ _ _ => hknown _
  | updateSettings =>
    obtain ⟨-, integrationID, hrow, hsnap, henv⟩ := hcovered
    refine intact_update P h (fun _ => rfl) fun row hmem hget => ?_
    obtain ⟨row', hget', rfl⟩ := hknown _ hrow
    cases hget.symm.trans hget'
    exact ⟨.inr (hknown _ hsnap), (h.references row hmem).2.1,
      fun b hb hne => hknown _ (henv b hb hne)⟩
  | updateMetadata =>
    obtain ⟨-, integrationID, hrow, hsnap⟩ := hcovered
    refine intact_update P h (fun _ => rfl) fun row hmem hget => ?_
    obtain ⟨row', hget', rfl⟩ := hknown _ hrow
    cases hget.symm.trans hget'
    exact ⟨(h.references row hmem).1, .inr (hknown _ hsnap), (h.references row hmem).2.2⟩
  | snapshotDelete =>
    obtain ⟨-, hid, integrationID, hbelongs, hunused⟩ := hcovered
    exact intact_snapshotDelete P h hid (hknown _ hbelongs) (hknown _ hunused)
  | deleteSecretKey => exact intact_deleteSecretKey P h (hknown _ hcovered.2)
  | delete => exact hcovered.elim
  | _ => exact ⟨⟨h.keyed.get, h.keyed.minted, h.keyed.owner⟩, h.references⟩

/-! ## What a request's own calls keep -/

def Fact.Existence : Fact → Prop
  | .snapshot .. | .secret _ | .row .. => True
  | _ => False

theorem existence_iff_stores {answer : Answer op} {f : Fact}
    (h : Learns q op answer f) : f.Existence ↔ q.Stores := by
  cases h with
  | snapshot hq | secret hq | row hq => exact iff_of_true trivial hq
  | belongs hq | unusedSnapshot hq | unusedSecret hq => exact iff_of_false nofun hq

theorem row_update {id id' : String} {f : Row → Row} (hid : ∀ row, (f row).id = row.id)
    (hof : ∀ row, (f row).integrationID = row.integrationID)
    (h : holds P s (.row id' integrationID)) :
    holds P (s.update P id f) (.row id' integrationID) := by
  obtain ⟨row, hget, rfl⟩ := h
  refine ⟨if P.uuid id = some row.id then f row else row, by rw [get_update hid, hget]; rfl, ?_⟩
  split
  · exact hof row
  · rfl

theorem holds_handle {f : Fact} (h : Intact P s)
    (hcovered : covered P q known op) (hf : f.Existence ↔ q.Stores) (hholds : f.holds P s) :
    f.holds P (handle P op s).2 := by
  cases op with
  | create =>
    have hexistence := hf.2 hcovered.1
    cases f with
    | snapshot | secret => exact hholds
    | row id =>
      obtain ⟨row, hget, rfl⟩ := hholds
      have hne := h.keyed.ne_newID (mem_of_find?_eq_some hget)
      refine ⟨row, ?_, rfl⟩
      show get P { s with rows := _ :: s.rows, minted := s.minted + 1 } id = some row
      rw [get_create, id_of_get hget, if_neg fun heq => hne (Option.some.inj heq)]
      exact hget
    | belongs | unusedSnapshot | unusedSecret => exact hexistence.elim
  | updateSettings id settings | updateMetadata id metadata =>
    have hexistence := hf.2 hcovered.1
    cases f with
    | snapshot | secret => exact hholds
    | row => exact row_update P (fun _ => rfl) (fun _ => rfl) hholds
    | belongs | unusedSnapshot | unusedSecret => exact hexistence.elim
  | snapshotDelete id =>
    have habsence := mt hf.1 hcovered.1
    cases f with
    | snapshot | secret | row => exact absurd trivial habsence
    | belongs of id' =>
      intro snap hsnap
      obtain ⟨hkey, hfrozen⟩ := snapshot_eq_some.1 hsnap
      change (if _ then none else _) = _ at hfrozen
      split at hfrozen
      · cases hfrozen
      · exact hholds snap (snapshot_eq_some.2 ⟨hkey, hfrozen⟩)
    | unusedSnapshot | unusedSecret => exact hholds
  | deleteSecretKey =>
    have habsence := mt hf.1 hcovered.1
    cases f with
    | snapshot | secret | row => exact absurd trivial habsence
    | belongs | unusedSnapshot | unusedSecret => exact hholds
  | delete => exact hcovered.elim
  | _ => cases f <;> exact hholds

/-! ## Runs -/

open Interleave.World

/-- An event whose call makes nothing false that another request in progress has checked; a delete of
a snapshot writes the id as the database does. -/
structure Orderly (w : Interleave.World Store Job Op Answer Error Unit) (e : Event Job) : Prop where
  undisturbed : OnCall (Job.program P) (Undisturbed (handle P) (Fact.holds P) Learns) w e
  spelled : ∀ r id, e = .begin r (.deleteSnapshot id) → P.AsStored id

/-- **No reference dangles where no check is overtaken.** -/
theorem no_dangling_references (P : Platform) (s₀ : Store) (hkeyed : s₀.Keyed P)
    (hs₀ : NoDangling P s₀) (events : List (Event Job))
    (horderly : Along (jobStep P) (Orderly P) (Interleave.World.init s₀) events) :
    NoDangling P (events.foldl (jobStep P) (Interleave.World.init s₀)).store := by
  have hgrounded : Grounded (holds P) Learns (covered P) (Intact P)
      (events.foldl (jobStep P) (init s₀)) := by
    refine along_induction (fun w e h he => ?_) (grounded_init ⟨hkeyed, hs₀⟩) horderly
    refine grounded_step w e ?_ (fun q op s f => holds_of_learns P) ?_ ?_ h he.undisturbed
    · rintro r q rfl
      refine guarded_program fun id hid => ?_
      exact he.spelled r id (hid ▸ rfl)
    · exact fun q known op s h hcovered hknown => intact_handle P h hcovered hknown
    · rintro t op s f h hcovered ⟨c, -, hf⟩ hholds
      exact holds_handle P h hcovered (existence_iff_stores hf) hholds
  exact hgrounded.good.references

def stocked : Store where
  integrations := fun id => if id = "orders" then some ⟨"Orders", "flows"⟩ else none
  snapshots := fun id => if id = "v1" then some ⟨"orders", "1.0", "flows"⟩ else none
  secretKeys := fun key => key = "token"
  catalog := fun name => name = "token"

theorem noDangling_deployedOnce : NoDangling shopPlatform deployedOnce :=
  forall_mem_singleton.2 ⟨.inr ⟨_, rfl, rfl⟩, .inr ⟨_, rfl, rfl⟩, nofun⟩

/-- Deletes of the snapshot and of the secret between the checks of a `Deploy` and its row. -/
def overtaken : List (Event Job) :=
  [.begin 0 (.deploy "orders"
      { slug := "a", env := AList.insert "TOKEN" ⟨"", "token"⟩ ∅, snapshotID := "v1" }),
    .call 0, .call 0, .call 0,
    .begin 1 (.deleteSnapshot "v1"), .call 1, .call 1,
    .begin 2 (.deleteSecret "token"), .call 2, .call 2, .call 0, .call 0]

/-- **A delete overtakes the checks of a `Deploy`**: all three requests succeed.  And a delete alone
removes a snapshot in use when it writes the id in upper case: the database reads `V1` as `v1`, the
check for its use does not. -/
theorem overtaken_deploy_dangles :
    let w := overtaken.foldl (jobStep shopPlatform) (init stocked)
    let (result, s) := run (handle shopPlatform) (deleteSnapshot "V1") deployedOnce
    (NoDangling shopPlatform stocked ∧ w.Quiescent ∧ w.Successful ∧
      w.store.rows.map (fun row => (row.settings.snapshotID,
        row.settings.env.entries.map (·.2.secret))) = [("v1", ["token"])] ∧
      w.store.snapshots "v1" = none ∧ w.store.secretKeys "token" = false ∧
      ¬NoDangling shopPlatform w.store) ∧
    NoDangling shopPlatform deployedOnce ∧ result = .ok () ∧
      s.rows.map (·.settings.snapshotID) = ["v1"] ∧ s.snapshots "v1" = none ∧
      ¬NoDangling shopPlatform s := by
  intro w
  have hdone : ∀ r t, w.task r = some t → ∃ a, t.rest = .done a := by
    intro r t ht
    rcases r with _ | _ | _ | r
    · cases ht
      exact ⟨_, rfl⟩
    · cases ht
      exact ⟨_, rfl⟩
    · cases ht
      exact ⟨_, rfl⟩
    · cases ht
  obtain ⟨hquiet, hok⟩ := quiescent_and_successful_of_done hdone
  refine ⟨⟨nofun, hquiet, hok, by decide, by decide, by decide, fun h => ?_⟩,
    noDangling_deployedOnce, rfl, by decide, by decide, fun h => ?_⟩
  · rcases (h _ mem_cons_self).1 with ⟨h, -⟩ | ⟨snap, hsnap, -⟩
    · cases h
    · cases hsnap
  · rcases (h _ mem_cons_self).1 with ⟨h, -⟩ | ⟨snap, hsnap, -⟩
    · cases h
    · cases hsnap

/-- A `Rollout`, and then a delete of the snapshot it has replaced. -/
theorem replaced_snapshot_deleted :
    let events : List (Event Job) := [.begin 0 (.rollout "d" "v2"), .call 0, .call 0, .call 0,
      .call 0, .begin 1 (.deleteSnapshot "v1"), .call 1, .call 1]
    let s := (events.foldl (jobStep shopPlatform) (init deployedOnce)).store
    NoDangling shopPlatform s ∧ s.rows.map (·.settings.snapshotID) = ["v2"] ∧
      s.snapshots "v1" = none := by
  refine ⟨no_dangling_references shopPlatform deployedOnce ⟨?_, ?_, ?_⟩ noDangling_deployedOnce _ ?_,
    by decide, by decide⟩
  · exact forall_mem_singleton.2 rfl
  · exact forall_mem_singleton.2 ⟨0, Nat.one_pos, by decide⟩
  · intro id snap hsnap
    dsimp only [deployedOnce] at hsnap
    split at hsnap
    · cases hsnap
      rfl
    · split at hsnap
      · cases hsnap
        rfl
      · cases hsnap
  · refine ⟨⟨fun _ => undisturbed_alone ?_, nofun⟩, ⟨undisturbed_alone ?_, nofun⟩,
      ⟨undisturbed_alone ?_, nofun⟩, ⟨undisturbed_alone ?_, nofun⟩, ⟨undisturbed_alone ?_, nofun⟩,
      ⟨fun _ => undisturbed_alone ?_, ?_⟩, ⟨undisturbed_alone ?_, nofun⟩,
      ⟨undisturbed_alone ?_, nofun⟩, trivial⟩
    case refine_7 =>
      rintro r id ⟨⟩ key ⟨⟩
      decide
    -- the other request has not begun, or is done
    all_goals
      rintro (_ | _ | i) hi u hu
      · first
        | exact absurd rfl hi
        | rintro ⟨op, next, hrest⟩
          cases hu
          cases hrest
      · first
        | exact absurd rfl hi
        | cases hu
      · cases hu

end Octo.Deployment.Service
