import Octo.Foundation.Trim
import Octo.Foundation.Forest
import Octo.Foundation.Split

/-!
# Folders

`orchestrator/internal/folder`: the folder table with its primary and foreign key, the repository
calls on it, and the service in front of them.  A `Table` carries the two constraints of the schema,
so a call that would break one fails.

The ids of a request are the text the client sent; `uuid` is how the database reads such a text,
`none` when it rejects it.  The service compares texts, the database compares what it read.

`step` takes one request one repository call further: `checkMove` reads the table in one step, the
update writes it in another.
-/

namespace Octo.Folders

open List
open Octo.Foundation (trimSpace)
open Octo.Foundation.Forest

/-- Without its children. -/
structure Folder where
  id : String
  parentID : Option String
  name : String
deriving DecidableEq

def ids (rows : List Folder) : List String := rows.map (·.id)

def parentOf (rows : List Folder) (id : String) : Option String :=
  (rows.find? (·.id = id)).bind (·.parentID)

/-- `integration_idx_structure`: ids are a primary key of type `uuid`, whose text is never empty, and a
parent is a stored folder. -/
structure Table where
  rows : List Folder
  primaryKey : (ids rows).Nodup
  named : "" ∉ ids rows
  foreignKey : ∀ f ∈ rows, ∀ p, f.parentID = some p → p ∈ ids rows

inductive Error where
  | notFound
  | invalid (text : String)
  | database
deriving DecidableEq

/-! ## Parents -/

section Parents

variable {rows : List Folder} {f : Folder} {a b : String}

theorem mem_ids : a ∈ ids rows ↔ ∃ f ∈ rows, f.id = a := by
  simp [ids]

theorem eq_of_id {f g : Folder} (hnd : (ids rows).Nodup) (hf : f ∈ rows) (hg : g ∈ rows)
    (h : f.id = g.id) : f = g :=
  inj_on_of_nodup_map hnd hf hg h

theorem parentOf_of_mem (hnd : (ids rows).Nodup) (hf : f ∈ rows) :
    parentOf rows f.id = f.parentID := by
  rw [parentOf, Foundation.Split.find_of_mem Folder.id hnd hf]
  rfl

theorem parentOf_eq_some (h : parentOf rows a = some b) :
    ∃ f ∈ rows, f.id = a ∧ f.parentID = some b := by
  obtain ⟨f, hfind, hp⟩ := Option.bind_eq_some_iff.1 h
  exact ⟨f, mem_of_find?_eq_some hfind, by simpa using find?_some hfind, hp⟩

theorem parentOf_of_not_mem (h : a ∉ ids rows) : parentOf rows a = none := by
  cases hp : parentOf rows a with
  | none => rfl
  | some =>
    obtain ⟨f, hf, rfl, -⟩ := parentOf_eq_some hp
    exact absurd (mem_ids.2 ⟨f, hf, rfl⟩) h

theorem Table.closed (t : Table) :
    ∀ x ∈ (ids t.rows).toFinset, ∀ p, parentOf t.rows x = some p → p ∈ (ids t.rows).toFinset := by
  intro x _ p hp
  obtain ⟨f, hf, -, hpar⟩ := parentOf_eq_some hp
  exact mem_toFinset.2 (t.foreignKey f hf p hpar)

theorem Table.card (t : Table) : (ids t.rows).toFinset.card = t.rows.length := by
  rw [toFinset_card_of_nodup t.primaryKey, ids, length_map]

end Parents

def isAbove (rows : List Folder) (a b : String) : Bool :=
  (List.range rows.length).any fun n => climb (parentOf rows) n a = some b

theorem Table.isAbove_iff (t : Table) {a b : String} (ha : a ∈ ids t.rows) :
    isAbove t.rows a b = true ↔ Above (parentOf t.rows) a b := by
  simp only [isAbove, any_eq_true, mem_range, decide_eq_true_eq]
  constructor
  · rintro ⟨n, -, h⟩
    exact ⟨n, h⟩
  · intro h
    have := climb_bound t.closed (mem_toFinset.2 ha) h
    rwa [t.card] at this

/-! ## The repository -/

section Repo

variable (uuid : String → Option String)

/-- A parent a client named, as the database reads it; the error is that of the call. -/
def readParent (t : Table) : Option String → Except Error (Option String)
  | none => .ok none
  | some text =>
    match uuid text with
    | none => .error .database
    | some p => if p ∈ ids t.rows then .ok (some p) else .error .notFound

variable {parent : Option String}

theorem readParent_mem {t : Table} {text : Option String}
    (h : readParent uuid t text = .ok parent) : ∀ p, parent = some p → p ∈ ids t.rows := by
  rintro p rfl
  unfold readParent at h
  split at h
  · cases h
  · split at h
    · cases h
    · split at h
      · cases h
        assumption
      · cases h

variable (t : Table)

/-- A new row with an id the database made up. -/
def Table.insert (f : Folder) (hid : f.id ∉ "" :: ids t.rows)
    (hp : ∀ p, f.parentID = some p → p ∈ ids t.rows) : Table where
  rows := t.rows ++ [f]
  primaryKey := by
    rw [ids, map_append]
    exact t.primaryKey.append (nodup_singleton _) (by simpa [ids] using not_mem_of_not_mem_cons hid)
  named := by
    rw [ids, map_append, mem_append, not_or]
    exact ⟨t.named, by simpa using (ne_of_not_mem_cons hid).symm⟩
  foreignKey := by
    intro g hg p hgp
    rw [ids, map_append]
    apply mem_append_left
    rcases mem_append.1 hg with hg | hg
    · exact t.foreignKey g hg p hgp
    · rw [mem_singleton.1 hg] at hgp
      exact hp p hgp

variable (id name : String)

def setRow (parent : Option String) (f : Folder) : Folder :=
  if f.id = id then { f with name := name, parentID := parent } else f

theorem setRow_id {id name : String} (f : Folder) :
    (setRow id name parent f).id = f.id := by
  unfold setRow
  split <;> rfl

theorem ids_setRow {id name : String} (rows : List Folder) :
    ids (rows.map (setRow id name parent)) = ids rows := by
  simp [ids, setRow_id]

/-- `UPDATE … SET name, parent_id`. -/
def Table.set (parent : Option String)
    (hp : ∀ p, parent = some p → p ∈ ids t.rows) : Table where
  rows := t.rows.map (setRow id name parent)
  primaryKey := by
    rw [ids_setRow]
    exact t.primaryKey
  named := by
    rw [ids_setRow]
    exact t.named
  foreignKey := by
    intro g hg p hgp
    rw [ids_setRow]
    obtain ⟨f, hf, rfl⟩ := mem_map.1 hg
    unfold setRow at hgp
    split at hgp
    · exact hp p hgp
    · exact t.foreignKey f hf p hgp

/-- `DELETE` with `ON DELETE CASCADE`: the folder and everything below it. -/
def Table.cascade (id : String) : Table where
  rows := t.rows.filter fun f => !isAbove t.rows f.id id
  primaryKey := (t.primaryKey.sublist (filter_sublist.map _))
  named := fun h => t.named ((filter_sublist.map _).subset h)
  foreignKey := by
    intro f hf p hfp
    obtain ⟨hf, hkept⟩ := mem_filter.1 hf
    obtain ⟨g, hg, rfl⟩ := mem_ids.1 (t.foreignKey f hf p hfp)
    refine mem_ids.2 ⟨g, mem_filter.2 ⟨hg, ?_⟩, rfl⟩
    -- what is below the parent is below the folder
    have hpar : parentOf t.rows f.id = some g.id := by rw [parentOf_of_mem t.primaryKey hf, hfp]
    rw [Bool.not_eq_true', Bool.eq_false_iff, ne_eq, t.isAbove_iff (mem_ids.2 ⟨_, ‹_›, rfl⟩)]
      at hkept ⊢
    exact fun h => hkept ((Above.of_parent hpar).trans h)

/-- `Repo.Create`; `newID` is what `gen_random_uuid` returned. -/
def Repo.create (newID name : String) (parentID : Option String) :
    Except Error (Table × Folder) :=
  match h : readParent uuid t parentID with
  | .error e => .error e
  | .ok parent =>
    if hid : newID ∉ "" :: ids t.rows then
      .ok (t.insert ⟨newID, parent, name⟩ hid (readParent_mem uuid h), ⟨newID, parent, name⟩)
    else .error .database

def Repo.update (parentID : Option String) :
    Except Error (Table × Folder) :=
  match uuid id with
  | none => .error .database
  | some id =>
    if id ∈ ids t.rows then
      match h : readParent uuid t parentID with
      | .error e => .error e
      | .ok parent => .ok (t.set id name parent (readParent_mem uuid h), ⟨id, parent, name⟩)
    else .error .notFound

def Repo.delete (id : String) : Except Error Table := match uuid id with
  | none => .error .database
  | some id => if id ∈ ids t.rows then .ok (t.cascade id) else .error .notFound

end Repo

/-! ## The service -/

def maxNameLen : Nat := 200

def validateName (name : String) : Except Error Unit :=
  if trimSpace name = "" then .error (.invalid "name is required")
  else if (trimSpace name).utf8ByteSize > maxNameLen then
    .error (.invalid ("name must be at most " ++ toString maxNameLen ++ " characters"))
  else .ok ()

/-- The loop of `checkMove`: the ancestors of the proposed parent, as many as there are folders. -/
def checkAncestors (rows : List Folder) (id : String) : Nat → String → Except Error Unit
  | 0, _ => .ok ()
  | n + 1, cur =>
    if cur = id then .error (.invalid "move would create a cycle")
    else
      match parentOf rows cur with
      | none => .ok ()
      | some p => checkAncestors rows id n p

/-- On the folders it listed. -/
def checkMove (rows : List Folder) (id newParentID : String) : Except Error Unit :=
  if newParentID = id then .error (.invalid "a folder cannot be its own parent")
  else checkAncestors rows id rows.length newParentID

/-- `Service.Update` up to its write. -/
def checkUpdate (rows : List Folder) (id name : String) (parentID : Option String) :
    Except Error Unit := do
  validateName name
  match parentID with
  | none => .ok ()
  | some p => checkMove rows id p

def create (uuid : String → Option String) (t : Table) (newID name : String)
    (parentID : Option String) : Except Error (Table × Folder) := do
  validateName name
  Repo.create uuid t newID (trimSpace name) parentID

/-- A folder with its children: `Folder` as `Tree` returns it. -/
inductive FolderTree where
  | node (folder : Folder) (children : List FolderTree)

/-- `attach` of `buildTree`; the number bounds the depth. -/
def attach (flat : List Folder) : Nat → Folder → FolderTree
  | 0, f => .node f []
  | n + 1, f => .node f ((flat.filter (·.parentID = some f.id)).map (attach flat n))

/-- No branch is deeper than there are folders. -/
def buildTree (flat : List Folder) : List FolderTree :=
  (flat.filter (·.parentID = none)).map (attach flat flat.length)

def FolderTree.folders : FolderTree → List Folder
  | .node f children => f :: children.flatMap fun c => c.folders

/-! ## Requests -/

/-- An update whose checks passed and whose write is still to come. -/
structure Move where
  id : String
  name : String
  parentID : Option String
deriving DecidableEq

structure State where
  table : Table
  pending : List Move

inductive Action where
  /-- A whole `Create`; `newID` is the id the database makes up. -/
  | create (newID name : String) (parentID : Option String)
  /-- An `Update` up to its write. -/
  | check (id name : String) (parentID : Option String)
  /-- The write of an `Update` under way. -/
  | write (i : Nat)
  /-- A whole `Delete`. -/
  | delete (id : String)
  /-- An `Update` under way ends without writing. -/
  | abandon (i : Nat)
deriving DecidableEq

def tableAfter {α : Type} (t : Table) (result : Except Error (Table × α)) : Table :=
  match result with
  | .ok (t', _) => t'
  | .error _ => t

def step (uuid : String → Option String) (s : State) : Action → State
  | .create newID name parentID =>
    { s with table := tableAfter s.table (create uuid s.table newID name parentID) }
  | .check id name parentID =>
    match checkUpdate s.table.rows id name parentID with
    | .ok () => { s with pending := s.pending ++ [⟨id, name, parentID⟩] }
    | .error _ => s
  | .write i =>
    match s.pending[i]? with
    | none => s
    | some m =>
      { table := tableAfter s.table (Repo.update uuid s.table m.id (trimSpace m.name) m.parentID)
        pending := s.pending.eraseIdx i }
  | .delete id =>
    match Repo.delete uuid s.table id with
    | .ok t => { s with table := t }
    | .error _ => s
  | .abandon i => { s with pending := s.pending.eraseIdx i }

def run (uuid : String → Option String) (s : State) (actions : List Action) : State :=
  actions.foldl (step uuid) s

end Octo.Folders
