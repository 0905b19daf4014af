import Octo.Foundation.Parallel

/-!
# Messages in memory

`types.Message` as Go holds it: messages, `Variables` maps and the objects and arrays inside values
are reached through references, so two messages can share what is inside their variables.
`Message.Clone` copies the map of the variables and the body, and shares the values in the map.

Each goroutine allocates in an arena of its own; an address names the arena and a position in it.
Expressions and the JSON round trip come from outside: they see a value as what can be read along
paths into it, and give a tree that is stored anew.

* `view_extends` — what a value looks like does not change while objects are only added.
* `view_store` — a stored tree looks like the tree.
-/

namespace Octo.Engine.Memory

open List Option
open Octo.Foundation.Parallel (Thread)

/-! ## Values -/

/-- A Go value without references; `N` is the type of numbers. -/
inductive Atom (N : Type) where
  | null
  | bool (b : Bool)
  | str (s : String)
  | num (n : N)
deriving DecidableEq

structure Addr where
  owner : Thread
  index : Nat
deriving DecidableEq

/-- `any`, of the kinds of decoded JSON. -/
inductive Val (N : Type) where
  | atom (x : Atom N)
  | ref (a : Addr)
deriving DecidableEq

/-- A Go map with its keys as texts. -/
abbrev Fields (N : Type) := List (String × Val N)

/-- A `map[string]any` or a `[]any` inside a value. -/
inductive Obj (N : Type) where
  | obj (fields : Fields N)
  | arr (items : List (Val N))

/-- `types.Message`; `vars` is its `Variables`, a reference to a map or nil. -/
structure Message (N : Type) where
  eventID : String := ""
  correlationID : String := ""
  vars : Option Addr := none
  body : Val N := .atom .null
  bodySchema : List UInt8 := []

structure Arena (N : Type) where
  objs : List (Obj N) := []
  maps : List (Fields N) := []
  msgs : List (Message N) := []

abbrev Heap (N : Type) := Thread → Arena N

section

variable {N : Type} (s : Heap N)

def Heap.obj? (a : Addr) : Option (Obj N) := (s a.owner).objs[a.index]?

def Heap.map (a : Addr) : Fields N := ((s a.owner).maps[a.index]?).getD []

def Heap.msg (m : Addr) : Message N := ((s m.owner).msgs[m.index]?).getD {}

def Heap.fieldsAt : Option Addr → Fields N
  | none => []
  | some a => s.map a

def Heap.fields (m : Addr) : Fields N := s.fieldsAt (s.msg m).vars

/-! ## Looking at a value -/

inductive Key where
  | field (name : String)
  | index (i : Nat)
deriving DecidableEq

inductive Node (N : Type) where
  | atom (x : Atom N)
  | obj (names : List String)
  | arr (length : Nat)
deriving DecidableEq

abbrev View (N : Type) := List Key → Option (Node N)

def Obj.node : Obj N → Node N
  | .obj fields => .obj (fields.map (·.1))
  | .arr items => .arr items.length

def Obj.child : Obj N → Key → Option (Val N)
  | .obj fields, .field name => fields.lookup name
  | .arr items, .index i => items[i]?
  | _, _ => none

def Heap.node : Val N → Option (Node N)
  | .atom x => some (.atom x)
  | .ref a => (s.obj? a).map Obj.node

def Heap.child (k : Key) : Val N → Option (Val N)
  | .atom _ => none
  | .ref a => (s.obj? a).bind (·.child k)

def Heap.view (s : Heap N) (v : Val N) : View N
  | [] => s.node v
  | k :: ks => (s.child k v).bind fun w => s.view w ks

def Heap.viewFields (fields : Fields N) : View N
  | [] => some (.obj (fields.map (·.1)))
  | .field name :: ks => (fields.lookup name).bind fun w => s.view w ks
  | .index _ :: _ => none

/-! ## Trees -/

inductive Tree (N : Type) where
  | atom (x : Atom N)
  | obj (fields : List (String × Tree N))
  | arr (items : List (Tree N))

def Tree.node : Tree N → Node N
  | .atom x => .atom x
  | .obj fields => .obj (fields.map (·.1))
  | .arr items => .arr items.length

def Tree.child : Tree N → Key → Option (Tree N)
  | .obj fields, .field name => fields.lookup name
  | .arr items, .index i => items[i]?
  | _, _ => none

def Tree.view (x : Tree N) : View N
  | [] => some x.node
  | k :: ks => (x.child k).bind fun y => y.view ks

mutual

/-- A tree stored by a thread whose arena has `n` objects: the value, and the objects added. -/
def Tree.store (t : Thread) (n : Nat) : Tree N → Val N × List (Obj N)
  | .atom x => (.atom x, [])
  | .obj fields =>
    (.ref ⟨t, n + (storeFields t n fields).2.length⟩,
      (storeFields t n fields).2 ++ [.obj (storeFields t n fields).1])
  | .arr items =>
    (.ref ⟨t, n + (storeItems t n items).2.length⟩,
      (storeItems t n items).2 ++ [.arr (storeItems t n items).1])

def storeFields (t : Thread) (n : Nat) : List (String × Tree N) →
    Fields N × List (Obj N)
  | [] => ([], [])
  | (name, x) :: rest =>
    ((name, (x.store t n).1) :: (storeFields t (n + (x.store t n).2.length) rest).1,
      (x.store t n).2 ++ (storeFields t (n + (x.store t n).2.length) rest).2)

def storeItems (t : Thread) (n : Nat) : List (Tree N) → List (Val N) × List (Obj N)
  | [] => ([], [])
  | x :: rest =>
    ((x.store t n).1 :: (storeItems t (n + (x.store t n).2.length) rest).1,
      (x.store t n).2 ++ (storeItems t (n + (x.store t n).2.length) rest).2)

end

/-! ## Objects only added -/

variable (t : Thread)

def Extends (s s' : Heap N) : Prop :=
  ∀ u, u <:+ t → ∀ (i : Nat) o, (s u).objs[i]? = some o → (s' u).objs[i]? = some o

def Val.Valid (s : Heap N) : Val N → Prop
  | .atom _ => True
  | .ref a => a.owner <:+ t ∧ ∃ o, s.obj? a = some o

def Heap.reach (s : Heap N) (v : Val N) : List Key → Option (Val N)
  | [] => some v
  | k :: ks => (s.child k v).bind fun w => s.reach w ks

/-- The thread can see all of a value: no path into it leaves the arenas of the thread and of those
that forked it. -/
def Visible (s : Heap N) (v : Val N) : Prop :=
  ∀ path w, s.reach v path = some w → w.Valid t s

section Extends

variable {t u : Thread} {s s' : Heap N}

theorem extends_of_eq (h : ∀ u, u <:+ t → s' u = s u) : Extends t s s' := by
  intro u hu i o ho
  rw [h u hu]
  exact ho

variable {v : Val N}

theorem Val.Valid.mono (hv : v.Valid t s) (h : Extends t s s') : v.Valid t s' := by
  cases v with
  | atom => trivial
  | ref =>
    obtain ⟨ho, o, hobj⟩ := hv
    exact ⟨ho, o, h _ ho _ _ hobj⟩

theorem Val.Valid.suffix (hv : v.Valid u s) (hu : u <:+ t) : v.Valid t s := by
  cases v with
  | atom => trivial
  | ref => exact ⟨hv.1.trans hu, hv.2⟩

theorem mem_of_lookup {α : Type} {fields : List (String × α)} {name : String} {w : α}
    (h : fields.lookup name = some w) : (name, w) ∈ fields := by
  obtain ⟨l₁, l₂, heq, -⟩ := lookup_eq_some_iff.1 h
  rw [heq]
  simp

theorem Visible.valid (h : Visible t s v) : v.Valid t s := h [] v rfl

theorem Visible.child {w : Val N} {k : Key} (h : Visible t s v) (hw : s.child k v = some w) :
    Visible t s w := by
  intro path x hx
  refine h (k :: path) x ?_
  simp only [Heap.reach, hw]
  exact hx

theorem Visible.suffix (h : Visible u s v) (hu : u <:+ t) : Visible t s v :=
  fun path w hw => (h path w hw).suffix hu

theorem visible_atom (x : Atom N) : Visible t s (.atom x) := by
  intro path w hw
  cases path with
  | nil =>
    cases hw
    trivial
  | cons => cases hw

theorem child_extends (h : Extends t s s') (hv : v.Valid t s) :
    s'.node v = s.node v ∧ ∀ k, s'.child k v = s.child k v := by
  cases v with
  | atom => exact ⟨rfl, fun _ => rfl⟩
  | ref a =>
    obtain ⟨ho, o, hobj⟩ := hv
    have hobj' : s'.obj? a = some o := h _ ho _ _ hobj
    exact ⟨by simp [Heap.node, hobj, hobj'], fun k => by simp [Heap.child, hobj, hobj']⟩

theorem Visible.mono (hv : Visible t s v) (h : Extends t s s') : Visible t s' v := by
  intro path w hw
  induction path generalizing v with
  | nil =>
    cases hw
    exact hv.valid.mono h
  | cons k ks ih =>
    simp only [Heap.reach, (child_extends h hv.valid).2 k] at hw
    obtain ⟨x, hx, hw⟩ := bind_eq_some_iff.1 hw
    exact ih (hv.child hx) hw

theorem view_extends (h : Extends t s s') (hv : Visible t s v) : s'.view v = s.view v := by
  funext path
  induction path generalizing v with
  | nil => exact (child_extends h hv.valid).1
  | cons k ks ih =>
    simp only [Heap.view, (child_extends h hv.valid).2 k]
    cases hchild : s.child k v with
    | none => rfl
    | some => exact ih (hv.child hchild)

theorem viewFields_extends (h : Extends t s s') {fields : Fields N}
    (hf : ∀ p ∈ fields, Visible t s p.2) : s'.viewFields fields = s.viewFields fields := by
  funext path
  cases path with
  | nil => rfl
  | cons k =>
    cases k with
    | index => rfl
    | field name =>
      simp only [Heap.viewFields]
      cases hl : fields.lookup name with
      | none => rfl
      | some => simp [view_extends h (hf _ (mem_of_lookup hl))]

end Extends

/-! ## Stored trees -/

/-- The objects stand in the arena of the thread, from `n` on. -/
def Placed (n : Nat) (new : List (Obj N)) : Prop :=
  ∀ (i : Nat) o, new[i]? = some o → (s t).objs[n + i]? = some o

section Store

variable {s : Heap N} {t : Thread}

theorem placed_append {n : Nat} {new new' : List (Obj N)} (h : Placed s t n (new ++ new')) :
    Placed s t n new ∧ Placed s t (n + new.length) new' := by
  constructor
  · intro i o ho
    obtain ⟨hi, -⟩ := List.getElem?_eq_some_iff.1 ho
    exact h i o (by rw [getElem?_append_left hi]; exact ho)
  · intro i o ho
    rw [Nat.add_assoc]
    exact h _ o (by rw [getElem?_append_right (by omega), Nat.add_sub_cancel_left]; exact ho)

theorem obj?_of_placed {n : Nat} {new : List (Obj N)} {o : Obj N}
    (h : Placed s t n (new ++ [o])) : s.obj? ⟨t, n + new.length⟩ = some o :=
  (placed_append h).2 0 o rfl

theorem storeFields_names (n : Nat) : ∀ fields : List (String × Tree N),
    (storeFields t n fields).1.map (·.1) = fields.map (·.1)
  | [] => rfl
  | (name, x) :: rest => by
    simp [storeFields, storeFields_names]

theorem storeItems_length (n : Nat) : ∀ items : List (Tree N),
    (storeItems t n items).1.length = items.length
  | [] => rfl
  | x :: rest => by
    simp [storeItems, storeItems_length]

mutual

theorem view_store : ∀ (x : Tree N) (n : Nat), Placed s t n (x.store t n).2 → ∀ path,
    s.view (x.store t n).1 path = x.view path
  | .atom x, n, _, path => by
    cases path <;> rfl
  | .obj fields, n, h, path => by
    rw [Tree.store] at h ⊢
    have hobj := obj?_of_placed h
    cases path with
    | nil => simp only [Heap.view, Heap.node, hobj, map_some, Obj.node, storeFields_names,
        Tree.view, Tree.node]
    | cons k ks =>
      simp only [Heap.view, Heap.child, hobj, bind_some, Tree.view]
      cases k with
      | index => rfl
      | field name => exact view_storeFields fields n (placed_append h).1 name ks
  | .arr items, n, h, path => by
    rw [Tree.store] at h ⊢
    have hobj := obj?_of_placed h
    cases path with
    | nil => simp only [Heap.view, Heap.node, hobj, map_some, Obj.node, storeItems_length,
        Tree.view, Tree.node]
    | cons k ks =>
      simp only [Heap.view, Heap.child, hobj, bind_some, Tree.view]
      cases k with
      | field => rfl
      | index i => exact view_storeItems items n (placed_append h).1 i ks

theorem view_storeFields : ∀ (fields : List (String × Tree N)) (n : Nat),
    Placed s t n (storeFields t n fields).2 → ∀ name path,
    ((storeFields t n fields).1.lookup name).bind (fun w => s.view w path) =
      (fields.lookup name).bind fun x => x.view path
  | [], _, _, _, _ => rfl
  | (key, x) :: rest, n, h, name, path => by
    rw [storeFields] at h ⊢
    obtain ⟨hx, hrest⟩ := placed_append h
    simp only [lookup_cons]
    cases name == key with
    | true => exact view_store x n hx path
    | false => exact view_storeFields rest _ hrest name path

theorem view_storeItems : ∀ (items : List (Tree N)) (n : Nat),
    Placed s t n (storeItems t n items).2 → ∀ (i : Nat) path,
    ((storeItems t n items).1[i]?).bind (fun w => s.view w path) =
      (items[i]?).bind fun x => x.view path
  | [], _, _, _, _ => rfl
  | x :: rest, n, h, i, path => by
    rw [storeItems] at h ⊢
    obtain ⟨hx, hrest⟩ := placed_append h
    cases i with
    | zero => exact view_store x n hx path
    | succ i => exact view_storeItems rest _ hrest i path

end

mutual

theorem visible_store : ∀ (x : Tree N) (n : Nat), Placed s t n (x.store t n).2 →
    Visible t s (x.store t n).1
  | .atom x, n, _ => visible_atom x
  | .obj fields, n, h => by
    rw [Tree.store] at h ⊢
    have hobj := obj?_of_placed h
    intro path w hw
    cases path with
    | nil =>
      cases hw
      exact ⟨suffix_refl t, _, hobj⟩
    | cons k ks =>
      simp only [Heap.reach, Heap.child, hobj, bind_some] at hw
      obtain ⟨v, hv, hrest⟩ := bind_eq_some_iff.1 hw
      cases k with
      | index => cases hv
      | field =>
        exact visible_storeFields fields n (placed_append h).1 _ (mem_of_lookup hv) ks w hrest
  | .arr items, n, h => by
    rw [Tree.store] at h ⊢
    have hobj := obj?_of_placed h
    intro path w hw
    cases path with
    | nil =>
      cases hw
      exact ⟨suffix_refl t, _, hobj⟩
    | cons k ks =>
      simp only [Heap.reach, Heap.child, hobj, bind_some] at hw
      obtain ⟨v, hv, hrest⟩ := bind_eq_some_iff.1 hw
      cases k with
      | field => cases hv
      | index =>
        exact visible_storeItems items n (placed_append h).1 v (mem_of_getElem? hv) ks w hrest

theorem visible_storeFields : ∀ (fields : List (String × Tree N)) (n : Nat),
    Placed s t n (storeFields t n fields).2 → ∀ p ∈ (storeFields t n fields).1, Visible t s p.2
  | [], _, _ => fun _ h => (nomatch h)
  | (key, x) :: rest, n, h => by
    rw [storeFields] at h ⊢
    obtain ⟨hx, hrest⟩ := placed_append h
    exact forall_mem_cons.2 ⟨visible_store x n hx, visible_storeFields rest _ hrest⟩

theorem visible_storeItems : ∀ (items : List (Tree N)) (n : Nat),
    Placed s t n (storeItems t n items).2 → ∀ v ∈ (storeItems t n items).1, Visible t s v
  | [], _, _ => fun _ h => (nomatch h)
  | x :: rest, n, h => by
    rw [storeItems] at h ⊢
    obtain ⟨hx, hrest⟩ := placed_append h
    exact forall_mem_cons.2 ⟨visible_store x n hx, visible_storeItems rest _ hrest⟩

end

end Store

end

end Octo.Engine.Memory
