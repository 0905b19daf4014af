import Octo.Folders.Service
import Octo.Foundation.Traverse

/-!
# The folder structure stays a forest

When the stored parents stay acyclic, and what that gives `Tree`.

* `forest_of_acyclic` — without a cycle every folder has a root above it and is shown by `Tree`.
* `run_forest_iff` — a run stays a forest exactly when, at every write of an update, the new parent
  is not the folder or below it *at that moment*.
-/

namespace Octo.Folders

open List Function Option Repo Octo.Foundation.Forest
open Octo.Foundation.Traverse (bind_eq_ok)

/-- The stored folders are a forest, and `Tree` shows all of them. -/
structure Forest (t : Table) : Prop where
  acyclic : Acyclic (parentOf t.rows)
  rooted : ∀ f ∈ t.rows, ∃ r ∈ t.rows, r.parentID = none ∧ Above (parentOf t.rows) f.id r.id
  shown : ∀ f ∈ t.rows, f ∈ (buildTree t.rows).flatMap FolderTree.folders

/-! ## The tree -/

section Tree

variable {t : Table} {f r : Folder}

def children (rows : List Folder) (f : Folder) : List Folder := rows.filter (·.parentID = some f.id)

theorem folders_attach (rows : List Folder) : ∀ (n d : Nat) (f : Folder),
    (attach rows n f).folders = (walk (children rows) n d f).map Prod.fst
  | 0, _, f => by simp [attach, FolderTree.folders, walk]
  | n + 1, d, f => by
    simp only [attach, FolderTree.folders, walk, map_cons, map_flatMap, flatMap_map]
    exact congrArg _ (flatMap_congr fun c _ => folders_attach rows n (d + 1) c)

theorem exists_child (x : String) (f : Folder) (h : parentOf t.rows x = some f.id) :
    ∃ c ∈ children t.rows f, c.id = x := by
  obtain ⟨c, hc, rfl, hp⟩ := parentOf_eq_some h
  exact ⟨c, mem_filter.2 ⟨hc, by simpa using hp⟩, rfl⟩

theorem mem_of_mem_walk : ∀ {n d k : Nat} {f r : Folder}, r ∈ t.rows →
    (f, k) ∈ walk (children t.rows) n d r → f ∈ t.rows
  | 0, _, _, _, _, hr, h => by
    cases mem_singleton.1 h
    exact hr
  | n + 1, _, _, _, _, hr, h => by
    rcases mem_cons.1 h with h | h
    · cases h
      exact hr
    · obtain ⟨c, hc, h⟩ := mem_flatMap.1 h
      exact mem_of_mem_walk (mem_filter.1 hc).1 h

theorem mem_walk {n m d : Nat} (hf : f ∈ t.rows) (hr : r ∈ t.rows)
    (h : climb (parentOf t.rows) m f.id = some r.id) (hle : m ≤ n) :
    (f, d + m) ∈ walk (children t.rows) n d r := by
  obtain ⟨g, hg, hmem⟩ := exists_mem_walk Folder.id exists_child h hle
  rwa [eq_of_id t.primaryKey (mem_of_mem_walk hr hmem) hf hg] at hmem

theorem forest_of_acyclic (hac : Acyclic (parentOf t.rows)) : Forest t := by
  have hroot : ∀ f ∈ t.rows, ∃ r ∈ t.rows, r.parentID = none ∧
      Above (parentOf t.rows) f.id r.id := by
    intro f hf
    obtain ⟨r, hr, habove, hnone⟩ :=
      exists_root t.closed hac (mem_toFinset.2 (mem_ids.2 ⟨f, hf, rfl⟩))
    obtain ⟨root, hroot, rfl⟩ := mem_ids.1 (mem_toFinset.1 hr)
    exact ⟨root, hroot, by rw [← parentOf_of_mem t.primaryKey hroot, hnone], habove⟩
  refine ⟨hac, hroot, fun f hf => ?_⟩
  obtain ⟨r, hr, hnone, habove⟩ := hroot f hf
  obtain ⟨n, hn, hclimb⟩ :=
    climb_bound t.closed (mem_toFinset.2 (mem_ids.2 ⟨f, hf, rfl⟩)) habove
  rw [t.card] at hn
  refine mem_flatMap.2 ⟨_, mem_map.2 ⟨r, ?_, rfl⟩, ?_⟩
  · exact mem_filter.2 ⟨hr, by simpa using hnone⟩
  · rw [folders_attach t.rows _ 0]
    exact mem_map.2 ⟨_, mem_walk hf hr hclimb hn.le, rfl⟩

end Tree

/-! ## What the calls do to the parents -/

section Calls

variable {t : Table} {uuid : String → Option String}

theorem parentOf_insert {f : Folder} (hid : f.id ∉ "" :: ids t.rows)
    (hp : ∀ p, f.parentID = some p → p ∈ ids t.rows) :
    parentOf (t.insert f hid hp).rows = update (parentOf t.rows) f.id f.parentID := by
  have hmem : ∀ {g : Folder}, g ∈ t.rows → g ∈ (t.insert f hid hp).rows :=
    mem_append_left _
  funext x
  by_cases hx : x = f.id
  · subst hx
    rw [update_self]
    exact parentOf_of_mem (t.insert f hid hp).primaryKey (mem_append_right _ (by simp))
  · rw [update_of_ne hx]
    by_cases hmem' : x ∈ ids t.rows
    · obtain ⟨g, hg, rfl⟩ := mem_ids.1 hmem'
      rw [parentOf_of_mem t.primaryKey hg]
      exact parentOf_of_mem (t.insert f hid hp).primaryKey (hmem hg)
    · rw [parentOf_of_not_mem hmem']
      apply parentOf_of_not_mem
      simpa [Table.insert, ids, hx] using hmem'

variable {id name : String} {parent : Option String}

theorem parentOf_set (hid : id ∈ ids t.rows)
    (hp : ∀ p, parent = some p → p ∈ ids t.rows) :
    parentOf (t.set id name parent hp).rows = update (parentOf t.rows) id parent := by
  have hrow : ∀ g ∈ t.rows, parentOf (t.set id name parent hp).rows g.id =
      (setRow id name parent g).parentID := by
    intro g hg
    have hsame : (setRow id name parent g).id = g.id := setRow_id g
    rw [← hsame]
    exact parentOf_of_mem (t.set id name parent hp).primaryKey (mem_map_of_mem hg)
  funext x
  by_cases hmem : x ∈ ids t.rows
  · obtain ⟨g, hg, rfl⟩ := mem_ids.1 hmem
    rw [hrow g hg]
    by_cases hx : g.id = id
    · subst hx
      simp [setRow]
    · rw [update_of_ne hx, parentOf_of_mem t.primaryKey hg]
      simp [setRow, hx]
  · have hx : x ≠ id := fun h => hmem (h ▸ hid)
    rw [update_of_ne hx, parentOf_of_not_mem hmem]
    apply parentOf_of_not_mem
    rwa [show ids (t.set id name parent hp).rows = ids t.rows from ids_setRow t.rows]

theorem acyclic_cascade (hac : Acyclic (parentOf t.rows)) :
    Acyclic (parentOf (t.cascade id).rows) := by
  apply acyclic_of_le _ hac
  intro a b hab
  obtain ⟨f, hf, rfl, hfp⟩ := parentOf_eq_some hab
  rw [parentOf_of_mem t.primaryKey (mem_filter.1 hf).1, hfp]

theorem acyclic_insert {f : Folder} (hid : f.id ∉ "" :: ids t.rows)
    (hp : ∀ p, f.parentID = some p → p ∈ ids t.rows) (hac : Acyclic (parentOf t.rows)) :
    Acyclic (parentOf (t.insert f hid hp).rows) := by
  rw [parentOf_insert]
  cases hpar : f.parentID with
  | none => exact acyclic_update_none hac
  | some p =>
    refine (acyclic_update_iff hac).2 ?_
    rintro ⟨n, hn⟩
    -- a climb from a stored folder stays among the stored ones
    exact not_mem_of_not_mem_cons hid (mem_toFinset.1 (climb_mem t.closed (mem_toFinset.2 (hp p hpar)) hn))

variable {parentID : Option String}

theorem Repo.create_eq_ok {newID : String} {r : Table × Folder}
    (h : create uuid t newID name parentID = .ok r) : ∃ f hid hp, r.1 = t.insert f hid hp := by
  unfold create at h
  split at h
  · cases h
  · split at h
    · cases h
      exact ⟨_, ‹_›, readParent_mem uuid ‹_›, rfl⟩
    · cases h

theorem Repo.update_eq_ok {r : Table × Folder} (h : update uuid t id name parentID = .ok r) :
    ∃ rowID parent hp, uuid id = some rowID ∧ rowID ∈ ids t.rows ∧
      readParent uuid t parentID = .ok parent ∧ r.1 = t.set rowID name parent hp := by
  unfold update at h
  split at h
  · cases h
  next rowID hid =>
    split at h
    · split at h
      · cases h
      next hmem parent hparent =>
        cases h
        exact ⟨rowID, parent, readParent_mem uuid hparent, hid, hmem, hparent, rfl⟩
    · cases h

theorem Repo.update_of {rowID : String} (name : String)
    (hid : uuid id = some rowID) (hmem : rowID ∈ ids t.rows)
    (hparent : readParent uuid t parentID = .ok parent) :
    ∃ r, update uuid t id name parentID = .ok r := by
  unfold update
  simp only [hid, hmem, if_true]
  split
  next h =>
    rw [hparent] at h
    cases h
  · exact ⟨_, rfl⟩

theorem readParent_eq_some {p : String} :
    readParent uuid t parentID = .ok (some p) ↔ parentID.bind uuid = some p ∧ p ∈ ids t.rows := by
  unfold readParent
  cases parentID with
  | none => simp
  | some text =>
    cases h : uuid text with
    | none => simp [h]
    | some q =>
      by_cases hq : q ∈ ids t.rows
      · simp only [h, hq, if_true, bind_some, Except.ok.injEq, Option.some.injEq]
        exact ⟨fun heq => ⟨heq, heq ▸ hq⟩, fun heq => heq.1⟩
      · simp only [h, hq, if_false, bind_some, Option.some.injEq, reduceCtorEq, false_iff]
        rintro ⟨rfl, hp⟩
        exact hq hp

theorem acyclic_create {newID : String} (hac : Acyclic (parentOf t.rows)) :
    Acyclic (parentOf (tableAfter t (create uuid t newID name parentID)).rows) := by
  cases hres : create uuid t newID name parentID with
  | error => exact hac
  | ok r =>
    obtain ⟨_, -, hcreate⟩ := bind_eq_ok.1 hres
    obtain ⟨f, hid, hp, heq⟩ := create_eq_ok hcreate
    show Acyclic (parentOf r.1.rows)
    rw [heq]
    exact acyclic_insert hid hp hac

/-- **A write keeps the folders acyclic exactly when the new parent is outside the folder's subtree
when it writes.** -/
theorem acyclic_update_call_iff (hac : Acyclic (parentOf t.rows)) :
    Acyclic (parentOf (tableAfter t (update uuid t id name parentID)).rows) ↔
      ∀ rowID p, uuid id = some rowID → rowID ∈ ids t.rows → parentID.bind uuid = some p →
        p ∈ ids t.rows → ¬ Above (parentOf t.rows) p rowID := by
  constructor
  · intro h rowID p hid hmem hparent hp
    have hread := readParent_eq_some.2 ⟨hparent, hp⟩
    obtain ⟨r, hr⟩ := update_of name hid hmem hread
    obtain ⟨rowID', parent, hp', hid', -, hread', heq⟩ := update_eq_ok hr
    cases hid.symm.trans hid'
    cases hread.symm.trans hread'
    rw [hr] at h
    change Acyclic (parentOf r.1.rows) at h
    rw [heq, parentOf_set hmem] at h
    exact (acyclic_update_iff hac).1 h
  · intro h
    cases hres : update uuid t id name parentID with
    | error => exact hac
    | ok r =>
      obtain ⟨rowID, parent, hp, hid, hmem, hread, heq⟩ := update_eq_ok hres
      show Acyclic (parentOf r.1.rows)
      rw [heq, parentOf_set hmem]
      cases parent with
      | none => exact acyclic_update_none hac
      | some p =>
        obtain ⟨hparent, hp⟩ := readParent_eq_some.1 hread
        exact (acyclic_update_iff hac).2 (h rowID p hid hmem hparent hp)

end Calls

/-! ## Runs -/

section Runs

variable (uuid : String → Option String)

def Safe (s : State) : Action → Prop
  | .write i => ∀ m, s.pending[i]? = some m → ∀ id p, uuid m.id = some id →
      id ∈ ids s.table.rows → m.parentID.bind uuid = some p → p ∈ ids s.table.rows →
        ¬ Above (parentOf s.table.rows) p id
  | _ => True

variable {uuid}

@[simp] theorem step_create_table (s : State) (newID name : String) (parentID : Option String) :
    (step uuid s (.create newID name parentID)).table =
      tableAfter s.table (create uuid s.table newID name parentID) := rfl

theorem run_append_singleton (s : State) (actions : List Action) (a : Action) :
    run uuid s (actions ++ [a]) = step uuid (run uuid s actions) a := by
  unfold run
  rw [foldl_append, foldl_cons, foldl_nil]

/-- **One step**: from acyclic folders, a repository call leaves them so exactly when it is safe. -/
theorem step_acyclic_iff {s : State} {a : Action} (hac : Acyclic (parentOf s.table.rows)) :
    Acyclic (parentOf (step uuid s a).table.rows) ↔ Safe uuid s a := by
  cases a with
  | create =>
    rw [step_create_table]
    exact iff_of_true (acyclic_create hac) trivial
  | check =>
    refine iff_of_true ?_ trivial
    unfold step
    simp only
    split <;> exact hac
  | write i =>
    simp only [step, Safe]
    cases hm : s.pending[i]? with
    | none => simpa using hac
    | some => simpa using acyclic_update_call_iff hac
  | delete id =>
    refine iff_of_true ?_ trivial
    unfold step delete
    simp only
    split
    next t h =>
      split at h
      · cases h
      · split at h
        · cases h
          exact acyclic_cascade hac
        · cases h
    · exact hac
  | abandon => exact iff_of_true hac trivial

/-- **The folders stay a forest exactly in the runs whose writes are safe when they happen.** -/
theorem run_forest_iff {s : State} {actions : List Action} (h0 : Forest s.table) :
    (∀ before after, actions = before ++ after → Forest (run uuid s before).table) ↔
      ∀ before a after, actions = before ++ a :: after → Safe uuid (run uuid s before) a := by
  constructor
  · rintro h before a after rfl
    have hbefore := h before (a :: after) rfl
    have hafter := h (before ++ [a]) after (by simp)
    rw [run_append_singleton] at hafter
    exact (step_acyclic_iff hbefore.acyclic).1 hafter.acyclic
  · rintro h before after rfl
    induction before using reverseRecOn generalizing after with
    | nil => exact h0
    | append_singleton before a ih =>
      have hsafe := h before a after (by simp)
      have hbefore := ih (a :: after) (by simpa using h)
      rw [run_append_singleton]
      exact forest_of_acyclic ((step_acyclic_iff hbefore.acyclic).2 hsafe)

def twoFolders : State where
  table :=
    { rows := [⟨"a", none, "A"⟩, ⟨"b", none, "B"⟩]
      primaryKey := by decide
      named := by decide
      foreignKey := by simp }
  pending := []

theorem twoFolders_parentOf (x : String) : parentOf twoFolders.table.rows x = none := by
  cases h : parentOf twoFolders.table.rows x with
  | none => rfl
  | some =>
    obtain ⟨f, hf, -, hp⟩ := parentOf_eq_some h
    have hroots : ∀ f ∈ twoFolders.table.rows, f.parentID = none := by decide
    rw [hroots f hf] at hp
    cases hp

theorem twoFolders_forest : Forest twoFolders.table := by
  apply forest_of_acyclic
  intro a n
  simp [climb, twoFolders_parentOf]

def crossingMoves : List Action :=
  [.check "a" "A" (some "b"), .check "b" "B" (some "a"), .write 0, .write 0]

/-- **Two crossing moves close a cycle**, and `Tree` shows neither folder. -/
theorem crossingMoves_close_cycle :
    Forest twoFolders.table ∧ ¬ Forest (run some twoFolders crossingMoves).table ∧
      (buildTree (run some twoFolders crossingMoves).table.rows).length = 0 := by
  refine ⟨twoFolders_forest, fun h => ?_, by decide⟩
  have hcycle : climb (parentOf (run some twoFolders crossingMoves).table.rows) 2 "a" =
      some "a" := by decide
  exact h.acyclic "a" 1 hcycle

/-- A move and a rename that cross. -/
theorem move_and_rename_forest : Forest twoFolders.table ∧ ∀ before after,
    [Action.check "a" "A" (some "b"), .check "b" "C" none, .write 0, .write 0] = before ++ after →
      Forest (run some twoFolders before).table := by
  refine ⟨twoFolders_forest, (run_forest_iff twoFolders_forest).2 ?_⟩
  intro before a after h
  match before, h with
  | [], h | [_], h =>
    cases h
    trivial
  | [_, _], h =>
    cases h
    intro m hm id p hid _ hp _
    cases hm
    cases hid
    cases hp
    -- the folder is not its new parent, which is a root
    rw [above_iff]
    rintro (heq | ⟨q, hq, -⟩)
    · exact absurd heq (by decide)
    · cases (twoFolders_parentOf "b").symm.trans hq
  | [_, _, _], h =>
    cases h
    intro m hm id p hid _ hp
    cases hm
    cases hp
  | _ :: _ :: _ :: _ :: _, h => simp at h

end Runs

end Octo.Folders
