import Octo.Folders.Tree

/-!
# The folder list of the UI

`flatten` and `isDescendant` (`integrations/model.ts`) on the tree `buildTree` returns, and the
check of a move in the service against that in the UI.

* `flatten_preorder` — the flattened tree of an acyclic table is its folders in preorder.
* `move_decided` — `checkMove` and `isDescendant` both decide whether a move closes a cycle.
* `serial_forest` — requests one at a time keep a forest.
-/

namespace Octo.Folders

open List Option Octo.Foundation.Forest

structure FlatFolder where
  id : String
  name : String
  parentID : Option String
  depth : Nat
deriving DecidableEq

def FolderTree.flatten : FolderTree → Nat → List FlatFolder
  | .node f children, depth =>
    ⟨f.id, f.name, f.parentID, depth⟩ :: children.flatMap fun c => c.flatten (depth + 1)

def flatten (folders : List FolderTree) (depth : Nat) : List FlatFolder :=
  folders.flatMap fun f => f.flatten depth

def FlatFolder.folder (e : FlatFolder) : Folder := ⟨e.id, e.parentID, e.name⟩

/-! ## Preorder -/

open FlatFolder

section Preorder

variable {t : Table}

def entry (e : Folder × Nat) : FlatFolder := ⟨e.1.id, e.1.name, e.1.parentID, e.2⟩

theorem flatten_attach (rows : List Folder) : ∀ (n d : Nat) (f : Folder),
    (attach rows n f).flatten d = (walk (children rows) n d f).map entry
  | 0, d, f => by simp [attach, FolderTree.flatten, walk, entry]
  | n + 1, d, f => by
    simp only [attach, FolderTree.flatten, walk, map_cons, map_flatMap, flatMap_map]
    congr 1
    exact flatMap_congr fun c _ => flatten_attach rows n (d + 1) c

variable (t) in
/-- The roots and what is under them, as `buildTree` goes through them. -/
def walks : List (Folder × Nat) :=
  (t.rows.filter (·.parentID = none)).flatMap (walk (children t.rows) t.rows.length 0)

theorem flatten_buildTree : flatten (buildTree t.rows) 0 = (walks t).map entry := by
  unfold flatten buildTree walks
  rw [flatMap_map, map_flatMap]
  exact flatMap_congr fun f _ => flatten_attach t.rows _ 0 f

theorem parentOf_child (f : Folder) (c : Folder) (hc : c ∈ children t.rows f) :
    parentOf t.rows c.id = some f.id := by
  obtain ⟨hc, hp⟩ := mem_filter.1 hc
  rw [parentOf_of_mem t.primaryKey hc]
  simpa using hp

theorem nodup_ids_filter (p : Folder → Bool) : ((t.rows.filter p).map Folder.id).Nodup :=
  t.primaryKey.sublist (filter_sublist.map _)

variable {f : Folder} (hac : Acyclic (parentOf t.rows))
include hac

theorem mem_walks (hf : f ∈ t.rows) :
    ∃ k, (f, k) ∈ walks t := by
  obtain ⟨r, hr, hnone, habove⟩ := (forest_of_acyclic hac).rooted f hf
  obtain ⟨n, hn, hclimb⟩ :=
    climb_bound t.closed (mem_toFinset.2 (mem_ids.2 ⟨f, hf, rfl⟩)) habove
  rw [t.card] at hn
  refine ⟨0 + n, mem_flatMap.2 ⟨r, ?_, mem_walk hf hr hclimb hn.le⟩⟩
  exact mem_filter.2 ⟨hr, by simpa using hnone⟩

theorem nodup_walks : ((walks t).map (·.1.id)).Nodup := by
  refine nodup_flatMap_walk Folder.id (p := none) parentOf_child
    (fun f => nodup_ids_filter _) hac (nodup_ids_filter _) fun r hr => ?_
  obtain ⟨hr, hnone⟩ := mem_filter.1 hr
  rw [parentOf_of_mem t.primaryKey hr]
  simpa using hnone

theorem of_mem_walks {k : Nat}
    (h : (f, k) ∈ walks t) : f ∈ t.rows ∧ (∃ r, climb (parentOf t.rows) k f.id = some r ∧
      parentOf t.rows r = none) ∧ ∃ n, n + 1 + k = t.rows.length ∧
        walk (children t.rows) (n + 1) k f <:+: walks t := by
  obtain ⟨r, hr, h⟩ := mem_flatMap.1 h
  obtain ⟨before, after, hsplit⟩ := append_of_mem hr
  obtain ⟨hr, hnone⟩ := mem_filter.1 hr
  have hf := mem_of_mem_walk hr h
  have hroot : parentOf t.rows r.id = none := by
    rw [parentOf_of_mem t.primaryKey hr]
    simpa using hnone
  obtain ⟨m, hm, hclimb⟩ := climb_of_mem_walk Folder.id parentOf_child h
  obtain rfl : m = k := by omega
  obtain ⟨n, hn, hclimb'⟩ :=
    climb_bound t.closed (mem_toFinset.2 (mem_ids.2 ⟨f, hf, rfl⟩)) ⟨_, hclimb⟩
  obtain rfl := climb_length hac hclimb hclimb' rfl
  rw [t.card] at hn
  obtain ⟨n, hn', hblock⟩ := walk_infix h
  obtain ⟨n, rfl⟩ := Nat.exists_eq_succ_of_ne_zero (n := n) (by omega)
  refine ⟨hf, ⟨r.id, hclimb, hroot⟩, n, hn', hblock.trans ?_⟩
  rw [walks, hsplit, flatMap_append, flatMap_cons, ← append_assoc]
  exact infix_append ..

omit hac

/-- **The folders in preorder**: each once, at the depth of its ancestors, with all that is under it
right after it, and siblings in their order. -/
structure Preorder (rows : List Folder) (flat : List FlatFolder) : Prop where
  perm : (flat.map FlatFolder.folder).Perm rows
  depth : ∀ e ∈ flat, ∃ root, climb (parentOf rows) e.depth e.id = some root ∧
    parentOf rows root = none
  contiguous : ∀ f ∈ rows, ∃ block, block <:+: flat ∧ block.head?.map FlatFolder.folder = some f ∧
    ∀ e ∈ flat, e ∈ block ↔ Above (parentOf rows) e.id f.id
  siblings : ∀ parent : Option String,
    (rows.filter (·.parentID = parent)).Sublist (flat.map FlatFolder.folder)

theorem folder_entry (l : List (Folder × Nat)) :
    (l.map entry).map folder = l.map Prod.fst := by
  rw [List.map_map]
  rfl

theorem contiguous_walks (hac : Acyclic (parentOf t.rows)) (hf : f ∈ t.rows) :
    ∃ block, block <:+: (walks t).map entry ∧ block.head?.map folder = some f ∧
      ∀ e ∈ (walks t).map entry, e ∈ block ↔ Above (parentOf t.rows) e.id f.id := by
  obtain ⟨k, hk⟩ := mem_walks hac hf
  obtain ⟨-, ⟨r, hr, hroot⟩, n, hn, hblock⟩ := of_mem_walks hac hk
  refine ⟨(walk (children t.rows) (n + 1) k f).map entry, hblock.map entry, rfl, fun e he => ?_⟩
  obtain ⟨⟨g, j⟩, hg, rfl⟩ := mem_map.1 he
  obtain ⟨hgrow, ⟨r', hr', hroot'⟩, n', hn', -⟩ := of_mem_walks hac hg
  constructor
  · intro hmem
    obtain ⟨⟨g', j'⟩, hmem, heq⟩ := mem_map.1 hmem
    obtain ⟨m, -, hm⟩ := climb_of_mem_walk Folder.id parentOf_child hmem
    exact ⟨m, congrArg FlatFolder.id heq ▸ hm⟩
  · rintro ⟨m, hm⟩
    have hdepth : climb (parentOf t.rows) (m + k) g.id = some r := by
      rw [climb_add]
      exact hm ▸ hr
    obtain rfl := climb_length hac hr' hdepth (hroot'.trans hroot.symm)
    have hmem := mem_walk (d := k) hgrow hf hm (n := n + 1) (by omega)
    exact mem_map.2 ⟨(g, m + k), Nat.add_comm k m ▸ hmem, rfl⟩

theorem preorder_walks (hac : Acyclic (parentOf t.rows)) : Preorder t.rows ((walks t).map entry) := by
  constructor
  · rw [folder_entry]
    have hnodup : ((walks t).map Prod.fst).Nodup :=
      Nodup.of_map Folder.id (by rw [List.map_map]; exact nodup_walks hac)
    refine (perm_ext_iff_of_nodup hnodup t.primaryKey.of_map).2 fun f => ?_
    constructor
    · intro hf
      obtain ⟨⟨f, k⟩, hk, rfl⟩ := mem_map.1 hf
      exact (of_mem_walks hac hk).1
    · intro hf
      obtain ⟨k, hk⟩ := mem_walks hac hf
      exact mem_map.2 ⟨_, hk, rfl⟩
  · intro e he
    obtain ⟨⟨f, k⟩, hk, rfl⟩ := mem_map.1 he
    exact (of_mem_walks hac hk).2.1
  · exact fun f hf => contiguous_walks hac hf
  · intro parent
    rw [folder_entry]
    cases parent with
    | none => exact sublist_flatMap_walk ..
    | some p =>
      by_cases hp : p ∈ ids t.rows
      · obtain ⟨f, hf, rfl⟩ := mem_ids.1 hp
        obtain ⟨k, hk⟩ := mem_walks hac hf
        obtain ⟨-, -, n, -, hblock⟩ := of_mem_walks hac hk
        exact ((sublist_flatMap_walk n (k + 1) _).cons f).trans (hblock.map Prod.fst).sublist
      · rw [filter_eq_nil_iff.2 fun f hf hfp => hp (t.foreignKey f hf p (by simpa using hfp))]
        exact nil_sublist _

/-- **The flattened tree of an acyclic table is its folders in preorder.** -/
theorem flatten_preorder (t : Table) (hac : Acyclic (parentOf t.rows)) :
    Preorder t.rows (flatten (buildTree t.rows) 0) := by
  rw [flatten_buildTree]
  exact preorder_walks hac

def fourFolders : Table where
  rows := [⟨"d", some "b", "D"⟩, ⟨"b", some "a", "B"⟩, ⟨"c", some "a", "C"⟩, ⟨"a", none, "A"⟩]
  primaryKey := by decide
  named := by decide
  foreignKey := by decide

theorem fourFolders_acyclic : Acyclic (parentOf fourFolders.rows) := by
  refine acyclic_of_rank (fun id => if id = "d" then 2 else if id = "a" then 0 else 1) ?_
  intro a b h
  obtain ⟨f, hf, rfl, hp⟩ := parentOf_eq_some h
  have hrank : ∀ f ∈ fourFolders.rows, ∀ p ∈ f.parentID,
    (if p = "d" then 2 else if p = "a" then 0 else 1) <
      if f.id = "d" then 2 else if f.id = "a" then 0 else 1 := by decide
  exact hrank f hf b hp

theorem fourFolders_preorder :
    flatten (buildTree fourFolders.rows) 0 = [⟨"a", "A", none, 0⟩, ⟨"b", "B", some "a", 1⟩,
      ⟨"d", "D", some "b", 2⟩, ⟨"c", "C", some "a", 1⟩] ∧
    Preorder fourFolders.rows (flatten (buildTree fourFolders.rows) 0) :=
  ⟨by rw [flatten_buildTree]; rfl, flatten_preorder fourFolders fourFolders_acyclic⟩

end Preorder

/-! ## Moves -/

/-- `parentOf.get` of the map in `isDescendant`: a later entry of one id replaces an earlier one. -/
def parentIn (flat : List FlatFolder) (id : String) : Option String :=
  (flat.reverse.find? (·.id = id)).bind (·.parentID)

/-- The loop of `isDescendant`, which also stops at the empty text; `none` out of fuel. -/
def descendantLoop (flat : List FlatFolder) (folderID : String) : Nat → Option String → Option Bool
  | 0, _ => none
  | n + 1, p =>
    match p with
    | none => some false
    | some p =>
      if p = "" then some false
      else if p = folderID then some true
      else descendantLoop flat folderID n (parentIn flat p)

/-- With as many rounds as an acyclic list can need. -/
def isDescendant (flat : List FlatFolder) (candidateID folderID : String) : Option Bool :=
  descendantLoop flat folderID (flat.length + 1) (some candidateID)

section Moves

variable {t : Table}

theorem checkAncestors_eq_ok {rows : List Folder} {id : String} :
    ∀ {n : Nat} {cur : String}, checkAncestors rows id n cur = .ok () ↔
      ∀ m < n, climb (parentOf rows) m cur ≠ some id
  | 0, cur => by simp [checkAncestors]
  | n + 1, cur => by
    unfold checkAncestors
    constructor
    · intro h m hm
      split at h
      · cases h
      next hne =>
        cases m with
        | zero => simpa [climb] using hne
        | succ m =>
          cases hp : parentOf rows cur with
          | none => simp [climb, hp]
          | some p =>
            rw [hp] at h
            rw [climb_succ_of hp]
            exact checkAncestors_eq_ok.1 h m (by omega)
    · intro h
      have hne : cur ≠ id := by simpa [climb] using h 0 (by omega)
      rw [if_neg hne]
      cases hp : parentOf rows cur with
      | none => rfl
      | some p =>
        refine checkAncestors_eq_ok.2 fun m hm => ?_
        rw [← climb_succ_of hp]
        exact h (m + 1) (by omega)

/-- **On the table it read, `checkMove` accepts exactly the parents outside the subtree.** -/
theorem checkMove_eq_ok_iff {id newParentID : String} (hp : newParentID ∈ ids t.rows) :
    checkMove t.rows id newParentID = .ok () ↔ ¬ Above (parentOf t.rows) newParentID id := by
  unfold checkMove
  split
  next heq =>
    subst heq
    simpa using Above.refl newParentID
  · rw [checkAncestors_eq_ok]
    constructor
    · intro h habove
      obtain ⟨n, hn, hclimb⟩ := climb_bound t.closed (mem_toFinset.2 hp) habove
      rw [t.card] at hn
      exact h n hn hclimb
    · exact fun h m _ hm => h ⟨m, hm⟩

variable {flat : List FlatFolder}

theorem parentIn_eq (h : Preorder t.rows flat) :
    parentIn flat = parentOf t.rows := by
  have hnodup : (flat.reverse.map FlatFolder.id).Nodup := by
    rw [map_reverse, nodup_reverse]
    have := (h.perm.map Folder.id).nodup_iff.2 t.primaryKey
    rwa [List.map_map] at this
  funext id
  unfold parentIn
  by_cases hid : id ∈ ids t.rows
  · obtain ⟨f, hf, rfl⟩ := mem_ids.1 hid
    obtain ⟨e, he, rfl⟩ := mem_map.1 (h.perm.mem_iff.2 hf)
    rw [parentOf_of_mem t.primaryKey hf]
    have hfind := Foundation.Split.find_of_mem FlatFolder.id hnodup (mem_reverse.2 he)
    show (flat.reverse.find? (·.id = e.id)).bind _ = _
    rw [hfind]
    rfl
  · rw [parentOf_of_not_mem hid, find?_eq_none.2, bind_none]
    intro e he heq
    have hmem := h.perm.mem_iff.1 (mem_map_of_mem (mem_reverse.1 he))
    exact hid (mem_ids.2 ⟨_, hmem, of_decide_eq_true heq⟩)

theorem descendantLoop_eq (hflat : parentIn flat = parentOf t.rows) (id : String) {r : String} (hroot : parentOf t.rows r = none) :
    ∀ {m n : Nat} {p : String}, p ∈ ids t.rows → climb (parentOf t.rows) m p = some r → m + 1 < n →
      (descendantLoop flat id n (some p) = some false ↔ ¬Above (parentOf t.rows) p id) ∧
        (descendantLoop flat id n (some p)).isSome
  | m, 0, _, _, _, hlt => absurd hlt (Nat.not_lt_zero _)
  | m, n + 1, p, hp, hm, hlt => by
    have hempty : p ≠ "" := fun h => t.named (h ▸ hp)
    rw [descendantLoop]
    simp only [hempty, hflat]
    rw [above_iff]
    by_cases hid : p = id
    · simp [hid]
    · cases m with
      | zero =>
        cases Option.some.inj hm
        obtain ⟨n, rfl⟩ := Nat.exists_eq_succ_of_ne_zero (n := n) (by omega)
        simp [hroot, hid, descendantLoop]
      | succ m =>
        obtain ⟨q, hq, hqr⟩ := bind_eq_some_iff.1 hm
        have hmem := mem_toFinset.1 (t.closed p (mem_toFinset.2 hp) q hq)
        have ih := descendantLoop_eq hflat id hroot hmem hqr (n := n) (by omega)
        simpa [hq, hid] using ih

/-- **A move is decided exactly.** -/
theorem move_decided (t : Table) (hac : Acyclic (parentOf t.rows))
    (id newParentID name : String) (hid : id ∈ ids t.rows) (hp : newParentID ∈ ids t.rows) :
    (checkMove t.rows id newParentID = .ok () ↔
      Acyclic (parentOf (t.set id name (some newParentID) fun _ h => Option.some.inj h ▸ hp).rows)) ∧
    (checkMove t.rows id newParentID = .ok () ↔
      isDescendant (flatten (buildTree t.rows) 0) newParentID id = some false) ∧
    (isDescendant (flatten (buildTree t.rows) 0) newParentID id).isSome := by
  have hpre : Preorder t.rows (flatten (buildTree t.rows) 0) := flatten_buildTree ▸ preorder_walks hac
  obtain ⟨r, -, ⟨m, hm⟩, hroot⟩ := exists_root t.closed hac (mem_toFinset.2 hp)
  obtain ⟨n, hn, hclimb⟩ := climb_bound t.closed (mem_toFinset.2 hp) ⟨m, hm⟩
  have hlength : (flatten (buildTree t.rows) 0).length = t.rows.length := by
    rw [← hpre.perm.length_eq, length_map]
  rw [t.card, ← hlength] at hn
  have hloop := descendantLoop_eq (parentIn_eq hpre) id hroot hp hclimb
    (Nat.add_lt_add_right hn 1)
  rw [checkMove_eq_ok_iff hp, parentOf_set hid, acyclic_update_iff hac]
  exact ⟨Iff.rfl, hloop.1.symm, hloop.2⟩

theorem fourFolders_move :
    checkMove fourFolders.rows "b" "c" = .ok () ∧
    Acyclic (parentOf (fourFolders.set "b" "B" (some "c") (by decide)).rows) ∧
    isDescendant (flatten (buildTree fourFolders.rows) 0) "c" "b" = some false := by
  have h := move_decided fourFolders fourFolders_acyclic "b" "c" "B" (by decide) (by decide)
  exact ⟨rfl, h.1.1 rfl, h.2.1.1 rfl⟩

end Moves

/-! ## One request at a time -/

/-- A whole request: nothing comes between the check of an `Update` and its write. -/
inductive Request where
  | create (newID name : String) (parentID : Option String)
  | update (folderID name : String) (parentID : Option String)
  | delete (folderID : String)

def Request.actions : Request → List Action
  | .create newID name parentID => [.create newID name parentID]
  | .update folderID name parentID => [.check folderID name parentID, .write 0]
  | .delete folderID => [.delete folderID]

/-- The database reads the ids of an `Update` as the texts the service compares. -/
def Request.AsStored (uuid : String → Option String) : Request → Prop
  | .update folderID _ parentID => ∀ x ∈ folderID :: parentID.toList, ∀ y, uuid x = some y → y = x
  | _ => True

variable {uuid : String → Option String}

theorem checkMove_of_checkUpdate {rows : List Folder} {folderID name p : String}
    (h : checkUpdate rows folderID name (some p) = .ok ()) : checkMove rows folderID p = .ok () := by
  obtain ⟨_, -, h⟩ := Foundation.Traverse.bind_eq_ok.1 h
  exact h

theorem forest_request {s : State} (hf : Forest s.table) (hpending : s.pending = []) {r : Request}
    (hr : r.AsStored uuid) :
    Forest (run uuid s r.actions).table ∧ (run uuid s r.actions).pending = [] := by
  cases r with
  | create newID name parentID =>
    exact ⟨forest_of_acyclic ((step_acyclic_iff (a := .create newID name parentID) hf.acyclic).2
      trivial), hpending⟩
  | delete folderID =>
    refine ⟨forest_of_acyclic ((step_acyclic_iff (a := .delete folderID) hf.acyclic).2 trivial), ?_⟩
    simp only [Request.actions, run, foldl_cons, foldl_nil, step]
    split <;> exact hpending
  | update folderID name parentID =>
    simp only [Request.actions, run, foldl_cons, foldl_nil]
    cases hcheck : checkUpdate s.table.rows folderID name parentID with
    | error => simpa [step, hcheck, hpending] using hf
    | ok =>
      have hstep : step uuid s (.check folderID name parentID) =
          ⟨s.table, [⟨folderID, name, parentID⟩]⟩ := by
        simp [step, hcheck, hpending]
      rw [hstep]
      refine ⟨forest_of_acyclic ((@step_acyclic_iff uuid
        ⟨s.table, [⟨folderID, name, parentID⟩]⟩ (.write 0) hf.acyclic).2 ?_), rfl⟩
      rintro _ ⟨⟩ id' p hid _ hparent hp
      obtain ⟨p', rfl, hp'⟩ := Option.bind_eq_some_iff.1 hparent
      obtain rfl := hr folderID (by simp) _ hid
      obtain rfl := hr p' (by simp) _ hp'
      exact (checkMove_eq_ok_iff hp).1 (checkMove_of_checkUpdate hcheck)

/-- **One request at a time**: as long as the ids of updates are written as they are stored, the
folders stay a forest. -/
theorem serial_forest {t : Table} (hf : Forest t) {requests : List Request}
    (hstored : ∀ r ∈ requests, r.AsStored uuid) :
    Forest (run uuid ⟨t, []⟩ (requests.flatMap Request.actions)).table := by
  suffices h : ∀ s : State, Forest s.table → s.pending = [] →
      Forest (run uuid s (requests.flatMap Request.actions)).table from h _ hf rfl
  induction requests with
  | nil => exact fun s hs _ => hs
  | cons r rest ih =>
    intro s hs hpending
    obtain ⟨hs', hpending'⟩ := forest_request hs hpending (hstored r (by simp))
    rw [flatMap_cons, run, foldl_append]
    exact ih (fun r hr => hstored r (by simp [hr])) _ hs' hpending'

theorem fourFolders_serial :
    Forest (run some ⟨fourFolders, []⟩
      ([.update "b" "B" (some "c"), .delete "c"].flatMap Request.actions)).table :=
  serial_forest (forest_of_acyclic fourFolders_acyclic) (by simp [Request.AsStored])

end Octo.Folders
