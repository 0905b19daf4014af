import Mathlib.Algebra.Group.Int.Defs
import Mathlib.Algebra.Group.Nat.Defs
import Mathlib.Data.List.Nodup
import Mathlib.Tactic.Cases
import Mathlib.Logic.Function.Basic

/-!
# The two versioned key/value stores

`core.KV` has two implementations with one contract: a write names the version it expects (0 to
create) and stores the next one, a mismatch is `ErrVersionConflict`.
-/

namespace Octo.Kv

open List Function Option

abbrev Bytes := List UInt8

/-- A versioned value. Versions are `int64`. -/
structure Entry where
  value : Bytes
  version : Int
  deriving DecidableEq

/-- The one error the version check returns, `core.ErrVersionConflict`. -/
inductive KvError where
  | versionConflict
  deriving DecidableEq

def maxInt64 : Int := 2 ^ 63 - 1

def nextVersion (current : Int) : Int := (current + 1).bmod (2 ^ 64)

theorem nextVersion_range (u : Int) : -(2 ^ 63) ≤ nextVersion u ∧ nextVersion u ≤ maxInt64 := by
  unfold nextVersion maxInt64
  simp only [Int.bmod]
  split <;> omega

theorem lt_nextVersion_iff {v : Int} (h : -(2 ^ 63) ≤ v ∧ v ≤ maxInt64) :
    v < nextVersion v ↔ v ≠ maxInt64 := by
  unfold nextVersion maxInt64 at *
  simp only [Int.bmod]
  split <;> omega

/-! ## The standalone store -/

/-- `store.ns`: namespace to key to entry; a namespace with no map yet is `none`. -/
structure Store where
  ns : String → Option (String → Option Entry)

namespace Store

def newStore : Store := ⟨fun _ => none⟩

variable (s : Store) (ns key : String)

/-- Indexing an absent namespace yields no entry. -/
def get : Option Entry := (s.ns ns).bind (· key)

def write (value : Bytes) (expectedVersion : Int) :
    Except KvError Int × Store :=
  let keys := s.ns ns
  let current := ((keys.bind (· key)).map Entry.version).getD 0
  if expectedVersion ≠ current then (.error .versionConflict, s)
  else
    let m := keys.getD fun _ => none
    let next := nextVersion current
    (.ok next, ⟨update s.ns ns (some (update m key (some ⟨value, next⟩)))⟩)

def set (value : Bytes) (expectedVersion : Int) :
    Except KvError Int × Store :=
  s.write ns key value expectedVersion

/-- Deleting an absent key is a no-op. -/
def delete (expectedVersion : Int) : Except KvError Unit × Store :=
  match s.ns ns with
  | none => (.ok (), s)
  | some keys =>
    match keys key with
    | none => (.ok (), s)
    | some e =>
      if expectedVersion ≠ 0 ∧ expectedVersion ≠ e.version then (.error .versionConflict, s)
      else (.ok (), ⟨update s.ns ns (some (update keys key none))⟩)

end Store

/-! ## The orchestrator table -/

/-- The primary key of `kv_store`. -/
structure RowKey where
  deploymentID : String
  ns : String
  key : String
  deriving DecidableEq

/-- A row of `kv_store`; `updated_at` is written and never read by these calls. -/
structure Row where
  pk : RowKey
  value : Bytes
  version : Int
  deriving DecidableEq

/-- The `kv_store` table with its primary key. -/
structure Table where
  rows : List Row
  primaryKey : (rows.map Row.pk).Nodup

namespace Table

def empty : Table := ⟨[], by simp⟩

variable (t : Table)

/-- `SELECT … WHERE deployment_id = $1 AND namespace = $2 AND key = $3`. -/
def select (pk : RowKey) : Option Row := t.rows.find? (·.pk = pk)

/-- `UPDATE … SET value, version WHERE …`. -/
def update (pk : RowKey) (value : Bytes) (version : Int) : Table :=
  ⟨t.rows.map fun r => if r.pk = pk then ⟨r.pk, value, version⟩ else r, by
    have h : (t.rows.map fun r => if r.pk = pk then ⟨r.pk, value, version⟩ else r).map Row.pk =
        t.rows.map Row.pk := by
      rw [List.map_map]
      apply List.map_congr_left
      intro r _
      simp only [comp_apply]
      split <;> rfl
    rw [h]
    exact t.primaryKey⟩

/-- `INSERT INTO kv_store …`; `none` is the unique violation of the primary key. -/
def insert (row : Row) : Option Table := if h : row.pk ∈ t.rows.map Row.pk then none
  else some ⟨row :: t.rows, by
    rw [map_cons, nodup_cons]
    exact ⟨h, t.primaryKey⟩⟩

/-- `DELETE FROM kv_store WHERE …` and the rows affected. -/
def deleteWhere (p : Row → Bool) : Nat × Table :=
  (t.rows.countP p, ⟨t.rows.filter fun r => !p r,
    t.primaryKey.sublist (List.Sublist.map _ filter_sublist)⟩)

end Table

namespace Repo

def get (t : Table) (pk : RowKey) : Option Entry := (t.select pk).map fun r => ⟨r.value, r.version⟩

/-- One transaction: a failed one is rolled back. -/
def write (t : Table) (pk : RowKey) (value : Bytes) (expectedVersion : Int) :
    Except KvError Int × Table :=
  let row := t.select pk
  let current := (row.map Row.version).getD 0
  if expectedVersion ≠ current then (.error .versionConflict, t)
  else
    let next := nextVersion current
    if row.isSome then (.ok next, t.update pk value next)
    else
      match t.insert ⟨pk, value, next⟩ with
      | some t' => (.ok next, t')
      -- a concurrent create won the race for the primary key
      | none => (.error .versionConflict, t)

/-- `deployment_id = $1 AND namespace = $2 AND key = $3`. -/
def keyed (pk : RowKey) (r : Row) : Bool := r.pk = pk

def keyedAt (pk : RowKey) (version : Int) (r : Row) : Bool := r.pk = pk ∧ r.version = version

def delete (t : Table) (pk : RowKey) (expectedVersion : Int) : Except KvError Unit × Table :=
  if expectedVersion = 0 then (.ok (), (t.deleteWhere (keyed pk)).2)
  else
    let (affected, t') := t.deleteWhere (keyedAt pk expectedVersion)
    -- nothing matched: either the key is gone or the version differs
    if affected = 0 then
      if (get t pk).isSome then (.error .versionConflict, t') else (.ok (), t')
    else (.ok (), t')

end Repo

/-! ## What a store is for -/

abbrev Keyspace := String → String → Option Entry

namespace Keyspace

variable (m : Keyspace) (ns key : String)

variable (e : Option Entry)

def put : Keyspace :=
  fun n k => if n = ns ∧ k = key then e else m n k

def version : Int := ((m ns key).map Entry.version).getD 0

def set (value : Bytes) (expectedVersion : Int) :
    Except KvError Int × Keyspace :=
  if expectedVersion ≠ m.version ns key then (.error .versionConflict, m)
  else
    let next := nextVersion (m.version ns key)
    (.ok next, m.put ns key (some ⟨value, next⟩))

/-- A removal; 0 removes unconditionally, an absent key is left alone. -/
def delete (expectedVersion : Int) :
    Except KvError Unit × Keyspace :=
  match m ns key with
  | none => (.ok (), m)
  | some e =>
    if expectedVersion ≠ 0 ∧ expectedVersion ≠ e.version then (.error .versionConflict, m)
    else (.ok (), m.put ns key none)

theorem put_eq_self : m.put ns key (m ns key) = m := by
  funext n k
  unfold put
  split
  next h =>
    rw [h.1, h.2]
  · rfl

theorem put_self {m : Keyspace} {ns key : String} :
    m.put ns key e ns key = e := by
  simp [put]

theorem put_other {m : Keyspace} {ns key n k : String} (h : ¬ (n = ns ∧ k = key)) : m.put ns key e n k = m n k := by
  simp [put, h]

end Keyspace

/-- An implementation of `core.KV` that simulates `Keyspace` call by call. -/
structure Backend where
  State : Type
  init : State
  get : State → Keyspace
  set : State → String → String → Bytes → Int → Except KvError Int × State
  delete : State → String → String → Int → Except KvError Unit × State
  get_init : get init = fun _ _ => none
  set_sim : ∀ s ns key value e,
    ((set s ns key value e).1, get (set s ns key value e).2) = (get s).set ns key value e
  delete_sim : ∀ s ns key e,
    ((delete s ns key e).1, get (delete s ns key e).2) = (get s).delete ns key e

/-! ## The standalone store simulates the keyspace -/

namespace Store

theorem get_update (s : Store) (ns key : String) (m : String → Option Entry) (e : Option Entry)
    (hm : ∀ k, m k = s.get ns k) : (Store.mk (update s.ns ns (some (update m key e)))).get =
      Keyspace.put s.get ns key e := by
  funext n k
  by_cases hn : n = ns
  · subst hn
    by_cases hk : k = key
    · subst hk
      simp [get, Keyspace.put]
    · simp [get, Keyspace.put, hk, hm]
  · simp [get, Keyspace.put, hn]

theorem set_sim (s : Store) (ns key : String) (value : Bytes) (e : Int) :
    ((s.set ns key value e).1, (s.set ns key value e).2.get) =
      Keyspace.set s.get ns key value e := by
  have hm : ∀ k, ((s.ns ns).getD fun _ => none) k = s.get ns k := by
    intro k
    unfold get
    cases s.ns ns <;> rfl
  have hv : (((s.ns ns).bind (· key)).map Entry.version).getD 0 = Keyspace.version s.get ns key :=
    rfl
  unfold set write Keyspace.set
  simp only [hv]
  split
  · rfl
  · exact congrArg _ (get_update s ns key _ _ hm)

theorem delete_sim (s : Store) (ns key : String) (e : Int) :
    ((s.delete ns key e).1, (s.delete ns key e).2.get) = Keyspace.delete s.get ns key e := by
  cases hns : s.ns ns with
  | none =>
    have hg : s.get ns key = none := by simp [get, hns]
    simp [delete, Keyspace.delete, hns, hg]
  | some keys =>
    have hm : ∀ k, keys k = s.get ns k := by simp [get, hns]
    cases hk : keys key with
    | none =>
      simp [delete, Keyspace.delete, hns, hk, ← hm key]
    | some =>
      simp only [delete, Keyspace.delete, hns, hk, ← hm key]
      split
      · rfl
      · exact congrArg _ (get_update s ns key keys none hm)

end Store

def standalone : Backend where
  State := Store
  init := Store.newStore
  get := Store.get
  set := Store.set
  delete := Store.delete
  get_init := rfl
  set_sim := Store.set_sim
  delete_sim := Store.delete_sim

/-! ## The orchestrator table simulates the keyspace -/

namespace Table

theorem select_cons (r : Row) (rs : List Row) (h : ((r :: rs).map Row.pk).Nodup) (pk : RowKey) :
    (Table.mk (r :: rs) h).select pk =
      if r.pk = pk then some r else (Table.mk rs (nodup_cons.1 h).2).select pk := by
  unfold select
  split <;> simp_all

theorem select_pk {t : Table} {pk : RowKey} {r : Row} (h : t.select pk = some r) : r.pk = pk := by
  simpa using find?_some h

theorem select_eq_none_iff {t : Table} {pk : RowKey} :
    t.select pk = none ↔ pk ∉ t.rows.map Row.pk := by
  simp [select]

theorem select_update (t : Table) (pk : RowKey) (value : Bytes) (version : Int) (q : RowKey) :
    (t.update pk value version).select q =
      (t.select q).map fun r => if r.pk = pk then ⟨r.pk, value, version⟩ else r := by
  unfold select update
  rw [find?_map]
  have hp : ((fun r : Row => decide (r.pk = q)) ∘
      fun r => if r.pk = pk then ⟨r.pk, value, version⟩ else r) = fun r => decide (r.pk = q) := by
    funext r
    simp only [comp_apply]
    split <;> rfl
  rw [hp]

theorem select_insert {t t' : Table} {row : Row} (h : t.insert row = some t') (q : RowKey) :
    t'.select q = if row.pk = q then some row else t.select q := by
  unfold insert at h
  split at h
  · cases h
  · cases h
    exact select_cons _ _ _ _

theorem select_deleteWhere (t : Table) (p : Row → Bool) (q : RowKey) :
    (t.deleteWhere p).2.select q = (t.select q).filter fun r => !p r := by
  obtain ⟨rows, hpk⟩ := t
  unfold deleteWhere select
  simp only
  induction rows with
  | nil => rfl
  | cons r rs ih =>
    have ih' := ih (nodup_cons.1 hpk).2
    rw [filter_cons, find?_cons]
    by_cases hq : r.pk = q
    · have hnone : rs.find? (fun x => decide (x.pk = q)) = none := by
        rw [find?_eq_none]
        intro x hx hxq
        have hmem : r.pk ∈ rs.map Row.pk := by
          rw [hq, ← of_decide_eq_true hxq]
          exact mem_map_of_mem hx
        exact (nodup_cons.1 hpk).1 hmem
      rw [hnone] at ih'
      cases hp : p r with
      | true =>
        simp only [Bool.not_true, Bool.false_eq_true, if_false, hq]
        rw [ih']
        simp [Option.filter, hp]
      | false => simp [Option.filter, hq, hp]
    · cases hp : p r with
      | true => simpa [hq, hp] using ih'
      | false => simpa [hq, hp] using ih'

end Table

namespace Repo

def view (deploymentID : String) (t : Table) : Keyspace :=
  fun ns key => get t ⟨deploymentID, ns, key⟩

variable {d : String}

theorem rowKey_inj {ns key n k : String} :
    (RowKey.mk d n k = ⟨d, ns, key⟩) ↔ (n = ns ∧ k = key) := by
  simp

variable {ns key : String} {t : Table}

theorem view_update {r : Row}
    (h : t.select ⟨d, ns, key⟩ = some r) (value : Bytes) (version : Int) :
    view d (t.update ⟨d, ns, key⟩ value version) =
      (view d t).put ns key (some ⟨value, version⟩) := by
  funext n k
  simp only [view, get, Keyspace.put, Table.select_update]
  split
  next hnk =>
    obtain ⟨rfl, rfl⟩ := hnk
    simp [h, Table.select_pk h]
  next hnk =>
    cases hs : t.select ⟨d, n, k⟩ with
    | none => rfl
    | some x =>
      have hne : x.pk ≠ ⟨d, ns, key⟩ := by
        rw [Table.select_pk hs, ne_eq, rowKey_inj]
        exact hnk
      simp [hne]

theorem view_insert {t t' : Table} {value : Bytes} {version : Int}
    (h : t.insert ⟨⟨d, ns, key⟩, value, version⟩ = some t') :
    view d t' = (view d t).put ns key (some ⟨value, version⟩) := by
  funext n k
  simp only [view, get, Keyspace.put, Table.select_insert h]
  split
  next heq =>
    obtain ⟨rfl, rfl⟩ := rowKey_inj.1 heq.symm
    simp
  next hne =>
    have hnk : ¬ (n = ns ∧ k = key) := fun hnk => hne (rowKey_inj.2 hnk).symm
    simp [hnk]

theorem write_sim (d : String) (t : Table) (ns key : String) (value : Bytes) (e : Int) :
    ((write t ⟨d, ns, key⟩ value e).1, view d (write t ⟨d, ns, key⟩ value e).2) =
      (view d t).set ns key value e := by
  have hv : ((t.select ⟨d, ns, key⟩).map Row.version).getD 0 = (view d t).version ns key := by
    simp only [Keyspace.version, view, get, Option.map_map]
    rfl
  unfold write Keyspace.set
  simp only [hv]
  split
  · rfl
  · cases hs : t.select ⟨d, ns, key⟩ with
    | some =>
      exact congrArg _ (view_update hs _ _)
    | none =>
      -- the key is free, so the insert does not violate the primary key
      have hfree := Table.select_eq_none_iff.1 hs
      obtain ⟨t', ht'⟩ : ∃ t', t.insert ⟨⟨d, ns, key⟩, value,
          nextVersion ((view d t).version ns key)⟩ = some t' := by
        unfold Table.insert
        rw [dif_neg hfree]
        exact ⟨_, rfl⟩
      simp only [ht']
      exact congrArg _ (view_insert ht')

theorem view_deleteWhere {p : Row → Bool}
    (hp : ∀ r, p r = true → r.pk = ⟨d, ns, key⟩) : view d (t.deleteWhere p).2 =
      (view d t).put ns key
        (((t.select ⟨d, ns, key⟩).filter fun r => !p r).map fun r => ⟨r.value, r.version⟩) := by
  funext n k
  simp only [view, get, Keyspace.put, Table.select_deleteWhere]
  split
  next hnk =>
    obtain ⟨rfl, rfl⟩ := hnk
    rfl
  next hnk =>
    cases hs : t.select ⟨d, n, k⟩ with
    | none => rfl
    | some x =>
      have hpx : p x = false := by
        rw [Bool.eq_false_iff]
        intro hx
        exact hnk (rowKey_inj.1 ((Table.select_pk hs).symm.trans (hp x hx)))
      simp [hpx]

theorem affected_eq_zero_iff {p : Row → Bool} {pk : RowKey}
    (hp : ∀ r, p r = true → r.pk = pk) :
    (t.deleteWhere p).1 = 0 ↔ ∀ r, t.select pk = some r → p r = false := by
  simp only [Table.deleteWhere, countP_eq_zero, Bool.not_eq_true]
  constructor
  · intro h r hr
    exact h r (mem_of_find?_eq_some hr)
  · intro h r hr
    rw [Bool.eq_false_iff]
    intro hpr
    -- the primary key makes `r` the row that is selected
    have hsel : t.select pk = some r := by
      obtain ⟨rows, hnd⟩ := t
      unfold Table.select
      have hsome : (rows.find? fun x => decide (x.pk = pk)).isSome := by
        rw [find?_isSome]
        exact ⟨r, hr, by simp [hp r hpr]⟩
      obtain ⟨x, hx⟩ := isSome_iff_exists.1 hsome
      rw [hx]
      have hxpk : x.pk = r.pk := by
        rw [hp r hpr]
        simpa using find?_some hx
      exact congrArg some (inj_on_of_nodup_map hnd (mem_of_find?_eq_some hx) hr hxpk)
    rw [h r hsel] at hpr
    cases hpr

theorem delete_sim (d : String) (t : Table) (ns key : String) (e : Int) :
    ((delete t ⟨d, ns, key⟩ e).1, view d (delete t ⟨d, ns, key⟩ e).2) =
      (view d t).delete ns key e := by
  have hall := @view_deleteWhere d ns key t (keyed ⟨d, ns, key⟩) fun r h => of_decide_eq_true h
  have hver : ∀ r, keyedAt ⟨d, ns, key⟩ e r = true → r.pk = ⟨d, ns, key⟩ :=
    fun r h => (of_decide_eq_true h).1
  have hone := view_deleteWhere (t := t) hver
  have hzero := affected_eq_zero_iff (t := t) hver
  cases hs : t.select ⟨d, ns, key⟩ with
  | none =>
    have hv : view d t ns key = none := by simp [view, get, hs]
    have hput : (view d t).put ns key none = view d t := by rw [← hv, Keyspace.put_eq_self]
    simp only [hs, filter_none, map_none, hput] at hall hone
    unfold delete Keyspace.delete
    simp only [hv, get, hs]
    split
    · simp [hall]
    · simp [hone]
  | some r =>
    have hpk := Table.select_pk hs
    have hv : view d t ns key = some ⟨r.value, r.version⟩ := by simp [view, get, hs]
    have hk : keyed ⟨d, ns, key⟩ r = true := by simp [keyed, hpk]
    simp only [hs, Option.filter, hk] at hall hone
    unfold delete Keyspace.delete
    simp only [hv, get, hs]
    by_cases he : e = 0
    · simp [he, hall]
    · by_cases hr : r.version = e
      · -- the one row under the key has the version: it is the row affected
        have hat : keyedAt ⟨d, ns, key⟩ e r = true := by simp [keyedAt, hpk, hr]
        have hz : ¬ (t.deleteWhere (keyedAt ⟨d, ns, key⟩ e)).1 = 0 := by
          rw [hzero]
          simp [hs, hat]
        simp only [hat] at hone
        simp [he, hz, hr, hone]
      · have hat : keyedAt ⟨d, ns, key⟩ e r = false := by simp [keyedAt, hr]
        have hz := hzero.2 (by simp [hs, hat])
        have hput : (view d t).put ns key (some ⟨r.value, r.version⟩) = view d t := by
          rw [← hv, Keyspace.put_eq_self]
        simp only [hat, Bool.not_false, if_true, map_some, hput] at hone
        simp [he, hz, hone, Ne.symm hr]

end Repo

def orchestrator (deploymentID : String) : Backend where
  State := Table
  init := Table.empty
  get := Repo.view deploymentID
  set t ns key := Repo.write t ⟨deploymentID, ns, key⟩
  delete t ns key := Repo.delete t ⟨deploymentID, ns, key⟩
  get_init := rfl
  set_sim := Repo.write_sim deploymentID
  delete_sim := Repo.delete_sim deploymentID

end Octo.Kv
