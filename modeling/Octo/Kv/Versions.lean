import Mathlib.Data.Int.Order.Basic
import Octo.Foundation.Register
import Octo.Kv.Store

/-!
# Optimistic concurrency over the life of a key

Any number of clients interleave atomic `Get`, `Set` and `Delete` calls on one store.  The
version of a key lives in its entry, so a delete forgets it and a re-create starts at 1 again.

* `stores_interchangeable` — no sequence of calls tells the two stores apart.
* `optimistic_concurrency_iff` — the versions of a key are strictly increasing exactly when it
  is never re-created after a delete and never written at the largest version, and then a
  conditional call that succeeds on a present key saw no other client's write.
* `stale_version_accepted` — a delete and a re-create make a stale version current again.
-/

namespace Octo.Kv

open List Option Keyspace Octo.Foundation

/-- A call of `core.KV`. -/
inductive Call where
  | get (ns key : String)
  | set (ns key : String) (value : Bytes) (expectedVersion : Int)
  | delete (ns key : String) (expectedVersion : Int)
  deriving DecidableEq

inductive Result where
  | entry (e : Option Entry)
  | stored (r : Except KvError Int)
  | deleted (r : Except KvError Unit)

structure Event where
  before : Keyspace
  client : Nat
  call : Call
  result : Result

def Backend.step (b : Backend) (s : b.State) : Call → Result × b.State
  | .get ns key => (.entry (b.get s ns key), s)
  | .set ns key value e => ((b.set s ns key value e).map .stored id)
  | .delete ns key e => ((b.delete s ns key e).map .deleted id)

def Backend.run (b : Backend) : b.State → List (Nat × Call) → List Event
  | _, [] => []
  | s, (c, call) :: rest =>
    ⟨b.get s, c, call, (b.step s call).1⟩ :: b.run (b.step s call).2 rest

/-! ## The property and its condition -/

def Event.Succeeds (e : Event) : Prop := match e.result with
  | .stored (.error _) => False
  | .deleted (.error _) => False
  | _ => True

/-- A `Set` of the key that took effect, and the version it stored. -/
def Event.stored (ns key : String) (e : Event) : Option Int := match e.call, e.result with
  | .set n k _ _, .stored (.ok v) => if n = ns ∧ k = key then some v else none
  | _, _ => none

variable (ns key : String)

def Event.Stores (e : Event) : Prop := e.stored ns key ≠ none

/-- A `Delete` of the key took effect: it succeeded on a present key. -/
def Event.Removes (e : Event) : Prop :=
  (∃ v, e.call = .delete ns key v) ∧ e.Succeeds ∧ e.before ns key ≠ none

def Event.TookEffect (e : Event) : Prop := e.Stores ns key ∨ e.Removes ns key

variable (tr : List Event)

def versions : List Int := tr.filterMap (Event.stored ns key)

/-- A `Set` or `Delete` with the version `v` that an earlier `Get` of the same client returned
succeeds only if no other client's write took effect in between. -/
def Sound : Prop :=
  ∀ pre mid rest x y entry, tr = pre ++ x :: (mid ++ y :: rest) →
    x.call = .get ns key → x.result = .entry (some entry) → 0 < entry.version →
    y.client = x.client →
    ((∃ value, y.call = .set ns key value entry.version) ∨ y.call = .delete ns key entry.version) →
    y.Succeeds → ∀ z ∈ mid, z.client ≠ x.client → ¬ z.TookEffect ns key

/-- No `Set` takes effect after a `Delete` that took effect. -/
def NotRecreated : Prop :=
  tr.Pairwise fun x y => x.Removes ns key → ¬ y.Stores ns key

def BelowMax : Prop :=
  ∀ x ∈ tr, x.Stores ns key → x.before.version ns key ≠ maxInt64

/-- Every conditional `Delete` finds the key present. -/
def NoIdleDelete : Prop :=
  ∀ x ∈ tr, ∀ v, 0 < v → x.call = .delete ns key v → x.before ns key ≠ none

/-! ## Runs of the keyspace -/

def Keyspace.step (m : Keyspace) : Call → Result × Keyspace
  | .get ns key => (.entry (m ns key), m)
  | .set ns key value e => ((m.set ns key value e).map .stored id)
  | .delete ns key e => ((m.delete ns key e).map .deleted id)

def Keyspace.run : Keyspace → List (Nat × Call) → List Event
  | _, [] => []
  | m, (c, call) :: rest => ⟨m, c, call, (m.step call).1⟩ :: (m.step call).2.run rest

theorem step_sim (b : Backend) (s : b.State) (call : Call) :
    ((b.step s call).1, b.get (b.step s call).2) = (b.get s).step call := by
  cases call with
  | get => rfl
  | set ns key value e =>
    have h := b.set_sim s ns key value e
    simp only [Keyspace.step, ← h]
    rfl
  | delete ns key e =>
    have h := b.delete_sim s ns key e
    simp only [Keyspace.step, ← h]
    rfl

theorem run_eq (b : Backend) (calls : List (Nat × Call)) :
    ∀ s : b.State, b.run s calls = (b.get s).run calls := by
  induction calls with
  | nil => intro s; rfl
  | cons c calls ih =>
    intro s
    have h := step_sim b s c.2
    simp [Backend.run, run, ih, ← h]

def Backend.results (b : Backend) : b.State → List Call → List Result
  | _, [] => []
  | s, call :: rest => (b.step s call).1 :: b.results (b.step s call).2 rest

theorem results_eq (b b' : Backend) : ∀ (calls : List Call) {s : b.State} {s' : b'.State},
    b.get s = b'.get s' → b.results s calls = b'.results s' calls
  | [], _, _, _ => rfl
  | call :: rest, s, s', h => by
    have hstep := step_sim b s call
    have hstep' := step_sim b' s' call
    rw [← h, ← hstep, Prod.mk.injEq] at hstep'
    obtain ⟨hresult, hget⟩ := hstep'
    rw [Backend.results, Backend.results, hresult, results_eq b b' rest hget.symm]

/-- **The two stores are interchangeable**: from an empty store, every sequence of calls returns the
same on the in-process map and on the table of the orchestrator, for any deployment. -/
theorem stores_interchangeable (deploymentID : String) (calls : List Call) :
    standalone.results Store.newStore calls =
      (orchestrator deploymentID).results Table.empty calls :=
  results_eq standalone (orchestrator deploymentID) calls rfl

variable {x : Event} {key : String} (calls : List (Nat × Call))

theorem result_of_mem :
    ∀ m : Keyspace, x ∈ m.run calls → x.result = (x.before.step x.call).1 := by
  induction calls with
  | nil => intro m hx; cases hx
  | cons c calls ih =>
    intro m hx
    rcases mem_cons.1 hx with rfl | hx
    · rfl
    · exact ih _ hx

/-! ## A run watched at one key -/

def access (ns key : String) : Call → Register.Access Int
  | .get n k => if n = ns ∧ k = key then .read else .other
  | .set n k _ e => if n = ns ∧ k = key then .write e else .other
  | .delete n k e => if n = ns ∧ k = key then .remove e else .other

def Keyspace.register (ns key : String) (m : Keyspace) : Option Int := (m ns key).map Entry.version

def Event.abs (ns key : String) (e : Event) : Register.Step Int :=
  (e.before.register ns key, access ns key e.call)

theorem Keyspace.register_getD (ns key : String) (m : Keyspace) :
    (m.register ns key).getD 0 = m.version ns key := rfl

theorem Keyspace.register_put (ns key n k : String) (m : Keyspace) (e : Option Entry) :
    (m.put n k e).register ns key =
      if n = ns ∧ k = key then e.map Entry.version else m.register ns key := by
  unfold Keyspace.register
  split
  next h =>
    obtain ⟨rfl, rfl⟩ := h
    rw [put_self]
  next h =>
    rw [put_other _ fun h' => h ⟨h'.1.symm, h'.2.symm⟩]

theorem register_step (ns key : String) (m : Keyspace) (call : Call) :
    (m.step call).2.register ns key =
      Register.after 0 nextVersion (m.register ns key) (access ns key call) := by
  cases call with
  | get =>
    simp only [access]
    split <;> rfl
  | set n k value e =>
    simp only [Keyspace.step, Keyspace.set, access]
    split <;> rename_i he
    · split <;> rename_i hk
      · obtain ⟨rfl, rfl⟩ := hk
        simp [Register.after, Keyspace.register_getD, he]
      · rfl
    · simp only [Prod.map, id, Keyspace.register_put]
      split <;> rename_i hk
      · obtain ⟨rfl, rfl⟩ := hk
        simp only [not_not] at he
        simp [Register.after, Keyspace.register_getD, he]
      · rfl
  | delete n k e =>
    simp only [Keyspace.step, Keyspace.delete, access]
    cases hm : m n k with
    | none =>
      simp only
      split <;> rename_i hk
      · obtain ⟨rfl, rfl⟩ := hk
        simp [Register.after, Keyspace.register, hm]
      · rfl
    | some x =>
      simp only
      split <;> rename_i he
      · split <;> rename_i hk
        · obtain ⟨rfl, rfl⟩ := hk
          simp [Register.after, Keyspace.register, hm, he]
        · rfl
      · simp only [Prod.map, id, Keyspace.register_put]
        split <;> rename_i hk
        · obtain ⟨rfl, rfl⟩ := hk
          have he' : e = 0 ∨ e = x.version := by
            by_contra hc
            exact he (not_or.1 hc)
          simp [Register.after, Keyspace.register, hm, he']
        · rfl

open Register

/-- **Watched at one key, a run of the store is a run of the versioned register.** -/
theorem run_abs (ns key : String) (calls : List (Nat × Call)) :
    ∀ m : Keyspace, (m.run calls).map (Event.abs ns key) =
      trace 0 nextVersion (m.register ns key) (calls.map fun c => access ns key c.2) := by
  induction calls with
  | nil => intro m; rfl
  | cons c calls ih =>
    intro m
    simp only [run, map_cons, ih, register_step]
    rfl

variable {ns : String} (hx : x.result = (x.before.step x.call).1)
include hx

theorem stored_eq :
    x.stored ns key = stored 0 nextVersion (x.abs ns key) := by
  obtain ⟨m, c, call, result⟩ := x
  simp only at hx
  subst hx
  cases call with
  | get n k | delete n k e =>
    simp only [Event.abs, access]
    split <;> rfl
  | set n k value e =>
    simp only [Event.stored, Keyspace.step, Keyspace.set, Event.abs, access]
    by_cases hk : n = ns ∧ k = key
    · obtain ⟨rfl, rfl⟩ := hk
      by_cases he : e = m.version n k
      · simp [stored, Keyspace.register_getD, he]
      · simp [stored, Keyspace.register_getD, he]
    · by_cases he : e = m.version n k
      · simp [stored, he, hk]
      · simp [stored, he, hk]

theorem stores_iff :
    x.Stores ns key ↔ Register.Writes 0 (x.abs ns key) := by
  unfold Event.Stores
  rw [stored_eq hx]
  constructor
  · intro h
    by_contra hw
    exact h (stored_of_not_writes hw)
  · intro hw
    rw [stored_of_writes hw]
    simp

theorem removes_iff :
    x.Removes ns key ↔ Register.Removes 0 (x.abs ns key) := by
  obtain ⟨m, c, call, result⟩ := x
  simp only at hx
  subst hx
  cases call with
  | get n k | set n k value e =>
    simp only [Event.Removes, Register.Removes, Event.abs, access]
    split <;> simp
  | delete n k e =>
    by_cases hk : n = ns ∧ k = key
    · obtain ⟨rfl, rfl⟩ := hk
      cases hm : m n k with
      | none =>
        simp [Event.Removes, Register.Removes, Event.abs, Keyspace.register, hm]
      | some entry =>
        simp only [Event.Removes, Event.Succeeds, Register.Removes, Event.abs, access,
          Keyspace.register, Keyspace.step, Keyspace.delete, hm]
        by_cases he : e ≠ 0 ∧ e ≠ entry.version
        · simp [he]
        · have he' : e = 0 ∨ e = entry.version := by
            by_contra hc
            exact he (not_or.1 hc)
          simp [he, he']
    · simp [Event.Removes, Register.Removes, Event.abs, access, hk]

theorem tookEffect_iff :
    x.TookEffect ns key ↔ Register.Effective 0 (x.abs ns key) :=
  or_congr (stores_iff hx) (removes_iff hx)

omit hx

/-! ## Versions are `int64` -/

/-- Every stored version is the increment of another, so an `int64`. -/
def Keyspace.Int64 (m : Keyspace) : Prop :=
  ∀ ns key e, m ns key = some e → ∃ u, e.version = nextVersion u

theorem int64_put {m : Keyspace} (h : m.Int64) (ns key : String) (e : Option Entry)
    (he : ∀ x, e = some x → ∃ u, x.version = nextVersion u) : (m.put ns key e).Int64 := by
  intro n k x hx
  unfold put at hx
  split at hx
  · exact he x hx
  · exact h n k x hx

theorem int64_step {m : Keyspace} (h : m.Int64) (call : Call) : (m.step call).2.Int64 := by
  cases call with
  | get => exact h
  | set =>
    simp only [Keyspace.step, Keyspace.set]
    split
    · exact h
    · apply int64_put h
      rintro x hx
      cases hx
      exact ⟨_, rfl⟩
  | delete =>
    simp only [Keyspace.step, Keyspace.delete]
    split
    · exact h
    · split
      · exact h
      · apply int64_put h
        simp

theorem int64_of_mem :
    ∀ m : Keyspace, m.Int64 → x ∈ m.run calls → x.before.Int64 := by
  induction calls with
  | nil => intro m _ hx; cases hx
  | cons c calls ih =>
    intro m h hx
    rcases mem_cons.1 hx with rfl | hx
    · exact h
    · exact ih _ (int64_step h c.2) hx

/-! ## Main results -/

section Main

variable {ns key : String} {calls : List (Nat × Call)} {m : Keyspace}

theorem versions_eq : versions ns key (m.run calls) =
      Register.versions 0 nextVersion ((m.run calls).map (Event.abs ns key)) := by
  unfold versions Register.versions
  rw [filterMap_map]
  apply filterMap_congr
  intro x hx
  exact stored_eq (result_of_mem calls m hx)

theorem notRecreated_iff : NotRecreated ns key (m.run calls) ↔
      Register.NotRecreated 0 ((m.run calls).map (Event.abs ns key)) := by
  unfold NotRecreated Register.NotRecreated
  rw [pairwise_map]
  apply List.Pairwise.iff_of_mem
  intro x y hx hy
  rw [removes_iff (result_of_mem calls m hx), stores_iff (result_of_mem calls m hy)]

theorem belowMax_iff (hm : m.Int64) : BelowMax ns key (m.run calls) ↔
      Register.Raises 0 nextVersion ((m.run calls).map (Event.abs ns key)) := by
  unfold BelowMax Register.Raises
  rw [List.forall_mem_map]
  refine forall₂_congr fun x hx => ?_
  rw [stores_iff (result_of_mem calls m hx)]
  refine imp_congr_right fun _ => ?_
  have hint := int64_of_mem calls m hm hx
  unfold Event.abs Keyspace.register version
  cases hb : x.before ns key with
  | none => simp [maxInt64]
  | some e =>
    obtain ⟨u, hu⟩ := hint ns key e hb
    have hlt := lt_nextVersion_iff (nextVersion_range u)
    simp only [map_some, getD_some, some.injEq, forall_eq']
    rw [hu, hlt]

theorem regular_iff (hm : m.Int64) :
    NotRecreated ns key (m.run calls) ∧ BelowMax ns key (m.run calls) ↔
      Register.Regular 0 nextVersion False ((m.run calls).map (Event.abs ns key)) := by
  rw [notRecreated_iff, belowMax_iff hm]
  simp [Register.Regular]

theorem found_expected {y : Event} {v : Int} (hv : 0 < v)
    (hy : y.result = (y.before.step y.call).1) (hs : y.Succeeds)
    (hcall : (∃ value, y.call = .set ns key value v) ∨ y.call = .delete ns key v)
    (hpresent : y.call = .delete ns key v → y.before ns key ≠ none) :
    (y.abs ns key).1 = some v := by
  have hne : v ≠ 0 := by omega
  have heff : y.TookEffect ns key := by
    rcases hcall with ⟨value, hc⟩ | hc
    · left
      unfold Event.Stores Event.stored
      unfold Event.Succeeds at hs
      rw [hy, hc] at hs ⊢
      cases h : (y.before.set ns key value v).1 with
      | error => simp [Keyspace.step, h] at hs
      | ok => simp [Keyspace.step, h]
    · right
      exact ⟨⟨v, hc⟩, hs, hpresent hc⟩
  apply Register.Effective.at_expected hne ((tookEffect_iff hy).1 heff)
  rcases hcall with ⟨value, hc⟩ | hc
  · left; simp [Event.abs, access, hc]
  · right; simp [Event.abs, access, hc]

theorem sound_of_regular
    (hreg : Register.Regular 0 nextVersion False ((m.run calls).map (Event.abs ns key)))
    (hidle : NoIdleDelete ns key (m.run calls)) : Sound ns key (m.run calls) := by
  intro pre mid rest x y entry htr hx hxr hv _ hcall hs z hz _ heff
  have hres : ∀ w ∈ m.run calls, w.result = (w.before.step w.call).1 :=
    fun w hw => result_of_mem calls m hw
  have hxm : x ∈ m.run calls := by simp [htr]
  have hym : y ∈ m.run calls := by simp [htr]
  have hzm : z ∈ m.run calls := by simp [htr, hz]
  have hxv : (x.abs ns key).1 = some entry.version := by
    have h := hres x hxm
    rw [hxr, hx] at h
    simp only [Keyspace.step, Result.entry.injEq] at h
    simp [Event.abs, Keyspace.register, ← h]
  have hxe : ¬ Register.Effective 0 (x.abs ns key) := by
    simp [Register.Effective, Register.Writes, Register.Removes, Event.abs, access, hx]
  have hyv := found_expected hv (hres y hym) hs hcall fun hc => hidle y hym _ hv hc
  have habs := run_abs ns key calls m
  rw [habs] at hreg
  have hsplit := congrArg (List.map (Event.abs ns key)) htr
  simp only [map_append, map_cons] at hsplit
  rw [habs] at hsplit
  exact unchanged_between _ _ _ _ _ _ _ _ hreg hsplit hxv hxe hyv _
    (mem_map_of_mem hz) ((tookEffect_iff (hres z hzm)).1 heff)

end Main

/-- The two stores behind `core.KV`. -/
inductive Provider where
  | standalone
  | orchestrator (deploymentID : String)
  deriving DecidableEq

def Provider.backend : Provider → Backend
  | .standalone => Kv.standalone
  | .orchestrator deploymentID => Kv.orchestrator deploymentID

variable (p : Provider)

variable (calls : List (Nat × Call))

def history : List Event :=
  p.backend.run p.backend.init calls

theorem history_eq :
    history p calls = run (fun _ _ => none) calls := by
  unfold history
  rw [run_eq, p.backend.get_init]

/-- **Optimistic concurrency over the whole life of a key.** -/
theorem optimistic_concurrency_iff (ns key : String) :
    ((versions ns key (history p calls)).Pairwise (· < ·) ↔
      NotRecreated ns key (history p calls) ∧ BelowMax ns key (history p calls)) ∧
    (NotRecreated ns key (history p calls) → BelowMax ns key (history p calls) →
      NoIdleDelete ns key (history p calls) → Sound ns key (history p calls)) := by
  have hm : Keyspace.Int64 fun _ _ => none := by
    intro n k e h
    cases h
  rw [history_eq]
  have hreg := @regular_iff ns key calls _ hm
  constructor
  · rw [hreg, versions_eq, run_abs]
    have h := @Register.versions_increasing_iff Int 0 nextVersion _
      (calls.map fun c => access ns key c.2)
    simpa [Register.Regular, Keyspace.register] using h
  · intro h1 h2 h3
    exact sound_of_regular (hreg.1 ⟨h1, h2⟩) h3

def recreateCalls : List (Nat × Call) :=
  [(0, .set "user" "k" [1] 0), (0, .get "user" "k"), (1, .delete "user" "k" 0),
    (1, .set "user" "k" [2] 0), (0, .set "user" "k" [3] 1)]

theorem recreate_unsound :
    versions "user" "k" (history p recreateCalls) = [1, 1, 2] ∧
      ¬ Sound "user" "k" (history p recreateCalls) := by
  rw [history_eq]
  refine ⟨by decide, ?_⟩
  intro h
  have hz := h [_] [_, _] [] _ _ ⟨[1], 1⟩ rfl rfl rfl (by decide) rfl (.inl ⟨_, rfl⟩) trivial
  apply hz _ (mem_cons_of_mem _ (mem_singleton.2 rfl)) (by decide)
  left
  unfold Event.Stores
  decide

/-- **A stale version is accepted**: the write of client 0 replaces the value of client 1, which it
never saw. -/
theorem stale_version_accepted :
    (versions "user" "k" (history .standalone recreateCalls) = [1, 1, 2] ∧
      ¬ Sound "user" "k" (history .standalone recreateCalls)) ∧
    (versions "user" "k" (history (.orchestrator "d1") recreateCalls) = [1, 1, 2] ∧
      ¬ Sound "user" "k" (history (.orchestrator "d1") recreateCalls)) :=
  ⟨recreate_unsound _, recreate_unsound _⟩

end Octo.Kv
