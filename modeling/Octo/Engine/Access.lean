import Octo.Engine.Memory

/-!
# What blocks do to messages

The accesses to memory that the built-in blocks make: an activation is built from a message and
expressions are evaluated on it, the body and the variables are set, and a message is cloned.

A goroutine holds a message when it allocated the message and its variables itself (`Held`).  The
marks of `Grows` say which messages and maps of its arena an access may change: those from the mark
on.  Each access by a goroutine that holds a message is `Fine`: it depends on what the goroutine can
see, changes no arena but its own, and there nothing below the marks.
-/

namespace Octo.Engine.Memory

open List Function Heap Octo.Foundation.Parallel

/-! ## Expressions -/

/-- `messageActivation`: the variables are the map itself, not a copy. -/
structure Activation (N τ : Type) where
  body : Val N
  vars : Option Addr
  eventID : String
  correlationID : String
  now : τ

structure Input (N τ : Type) where
  body : View N
  vars : View N
  eventID : String
  correlationID : String
  now : τ

/-- What comes from outside: expressions, with the environment of their block, and the JSON round
trip of `Clone`. -/
structure Outside (N τ E : Type) where
  /-- `Program.Eval`: a fresh JSON value, or the text of the error. -/
  eval : E → Input N τ → Except String (Memory.Tree N)
  /-- `json.Marshal` and `json.Unmarshal`, when neither fails. -/
  roundTrip : View N → Option (Memory.Tree N)

/-- What the environment decides in an access: the time, and the order a map is ranged over. -/
structure Choice (τ : Type) where
  now : τ
  order : List Nat

/-- Names with the expressions that give their values. -/
abbrev Entries (E : Type) := List (String × E)

inductive Op (N τ E : Type) where
  | activate (m : Addr)
  | eval (e : E) (a : Activation N τ)
  | typeName (v : Val N)
  | items (v : Val N)
  | setBody (m : Addr) (v : Val N)
  | setVar (m : Addr) (name : String) (v : Val N)
  | deleteVar (m : Addr) (name : String)
  | getVar (m : Addr) (name : String)
  | clone (m : Addr)
  | alloc (x : Memory.Tree N)
  | range (entries : Entries E)

def Answer {N τ E : Type} : Op N τ E → Type
  | .activate _ => Activation N τ
  | .eval _ _ => Except String (Val N)
  | .typeName _ => String
  | .items _ => Option (List (Val N))
  | .setBody _ _ => Unit
  | .setVar _ _ _ => Unit
  | .deleteVar _ _ => Unit
  | .getVar _ _ => Option (Val N)
  | .clone _ => Addr
  | .alloc _ => Val N
  | .range _ => Entries E

section

variable {N τ E : Type}

/-! ## Accesses -/

variable (s : Heap N)

def Activation.input (a : Activation N τ) : Input N τ :=
  ⟨s.view a.body, s.viewFields (s.fieldsAt a.vars), a.eventID, a.correlationID, a.now⟩

def activation (m : Addr) (now : τ) : Activation N τ :=
  ⟨(s.msg m).body, (s.msg m).vars, (s.msg m).eventID, (s.msg m).correlationID, now⟩

/-- `m[name] = v`. -/
def setField (name : String) (v : Val N) (fields : Fields N) : Fields N :=
  (name, v) :: fields.filter (·.1 ≠ name)

def deleteField (name : String) (fields : Fields N) : Fields N :=
  fields.filter (·.1 ≠ name)

def Heap.grow (t : Thread) (objs : List (Obj N))
    (maps : List (Fields N)) (msgs : List (Message N)) : Heap N :=
  update s t ⟨(s t).objs ++ objs, (s t).maps ++ maps, (s t).msgs ++ msgs⟩

def Heap.modifyMsg (m : Addr) (f : Message N → Message N) : Heap N :=
  update s m.owner { s m.owner with msgs := (s m.owner).msgs.modify m.index f }

def Heap.modifyMap (a : Addr) (f : Fields N → Fields N) :
    Heap N :=
  update s a.owner { s a.owner with maps := (s a.owner).maps.modify a.index f }

def Heap.put (t : Thread) (x : Memory.Tree N) : Val N × Heap N :=
  ((x.store t (s t).objs.length).1, s.grow t (x.store t (s t).objs.length).2 [] [])

/-- `%T` of a decoded value. -/
def Heap.typeName : Val N → String
  | .atom .null => "<nil>"
  | .atom (.bool _) => "bool"
  | .atom (.str _) => "string"
  | .atom (.num _) => "float64"
  | .ref a =>
    match s.obj? a with
    | some (.arr _) => "[]interface \x7b\x7d"
    | _ => "map[string]interface \x7b\x7d"

/-- `value.([]any)`. -/
def Heap.items : Val N → Option (List (Val N))
  | .atom _ => none
  | .ref a =>
    match s.obj? a with
    | some (.arr items) => some items
    | _ => none

/-- `Variables.Set`, on the variables of a message: a nil map is allocated first. -/
def Heap.setVar (s : Heap N) (t : Thread) (m : Addr) (name : String) (v : Val N) : Heap N :=
  match (s.msg m).vars with
  | some a => s.modifyMap a (setField name v)
  | none =>
    (s.grow t [] [[(name, v)]] []).modifyMsg m fun x =>
      { x with vars := some ⟨t, (s t).maps.length⟩ }

/-- `delete` on the variables of a message; on a nil map it does nothing. -/
def Heap.deleteVar (s : Heap N) (m : Addr) (name : String) : Heap N := match (s.msg m).vars with
  | some a => s.modifyMap a (deleteField name)
  | none => s

variable (o : Outside N τ E)

def cloneBody (s : Heap N) (t : Thread) : Val N → Val N × List (Obj N)
  | .atom .null => (.atom .null, [])
  | v =>
    match o.roundTrip (s.view v) with
    | some x => x.store t (s t).objs.length
    | none => (v, [])

/-- A new map with the same values, a new schema, and the body decoded anew, or the body itself when
the round trip fails. -/
def clone (s : Heap N) (t : Thread) (m : Addr) : Addr × Heap N :=
  (⟨t, (s t).msgs.length⟩,
    s.grow t (cloneBody o s t (s.msg m).body).2 (((s.msg m).vars.map s.map).toList) [{ s.msg m with
          vars := (s.msg m).vars.map fun _ => ⟨t, (s t).maps.length⟩
          body := (cloneBody o s t (s.msg m).body).1 }])

def ranged {α : Type} (order : List Nat) (entries : List α) : List α :=
  if order.isPerm (List.range entries.length) then order.filterMap (entries[·]?) else entries

def handle : (op : Op N τ E) → Thread → Choice τ → Heap N → Answer op × Heap N
  | .activate m, _, c, s => (activation s m c.now, s)
  | .eval e a, t, _, s =>
    match o.eval e (a.input s) with
    | .error text => (Except.error text, s)
    | .ok x => (Except.ok (s.put t x).1, (s.put t x).2)
  | .typeName v, _, _, s => (s.typeName v, s)
  | .items v, _, _, s => (s.items v, s)
  | .setBody m v, _, _, s => ((), s.modifyMsg m fun x => { x with body := v })
  | .setVar m name v, t, _, s => ((), s.setVar t m name v)
  | .deleteVar m name, _, _, s => ((), s.deleteVar m name)
  | .getVar m name, _, _, s => ((s.fields m).lookup name, s)
  | .clone m, t, _, s => clone o s t m
  | .alloc x, t, _, s => s.put t x
  | .range entries, _, c, s => (ranged c.order entries, s)

/-! ## Holding a message -/

/-- What may happen to an arena: objects are added, and messages and maps change from the marks on
only. -/
structure Grows (n k : Nat) (a a' : Arena N) : Prop where
  objs : ∀ (i : Nat) o, a.objs[i]? = some o → a'.objs[i]? = some o
  maps : ∀ i : Nat, i < k → a'.maps[i]? = a.maps[i]?
  msgs : ∀ i : Nat, i < n → a'.msgs[i]? = a.msgs[i]?
  mapCount : a.maps.length ≤ a'.maps.length
  msgCount : a.msgs.length ≤ a'.msgs.length

/-- A goroutine holds a message: it allocated the message and the map of its variables, both from
the marks on, and it can see all of the values. -/
structure Held (t : Thread) (n k : Nat) (m : Addr) (s : Heap N) : Prop where
  owner : m.owner = t
  low : n ≤ m.index
  mem : m.index < (s t).msgs.length
  room : k ≤ (s t).maps.length
  vars : ∀ a, (s.msg m).vars = some a → a.owner = t ∧ k ≤ a.index ∧ a.index < (s t).maps.length
  body : Visible t s (s.msg m).body
  vals : ∀ p ∈ s.fields m, Visible t s p.2

variable {t : Thread} {n k : Nat} {m : Addr} {s s' : Heap N}

theorem Grows.refl (n k : Nat) (a : Arena N) : Grows n k a a :=
  ⟨fun _ _ h => h, fun _ _ => rfl, fun _ _ => rfl, le_rfl, le_rfl⟩

theorem Grows.trans {a b c : Arena N} (h : Grows n k a b) (h' : Grows n k b c) : Grows n k a c :=
  ⟨fun i o ho => h'.objs i o (h.objs i o ho), fun i hi => (h'.maps i hi).trans (h.maps i hi),
    fun i hi => (h'.msgs i hi).trans (h.msgs i hi), h.mapCount.trans h'.mapCount,
    h.msgCount.trans h'.msgCount⟩

theorem Grows.mono {n' k' : Nat} {a a' : Arena N} (h : Grows n' k' a a') (hn : n ≤ n')
    (hk : k ≤ k') : Grows n k a a' :=
  ⟨h.objs, fun i hi => h.maps i (by omega), fun i hi => h.msgs i (by omega), h.mapCount, h.msgCount⟩

theorem Grows.extends (h : Grows n k (s t) (s' t)) (hup : ∀ u, u <:+ t → u ≠ t → s' u = s u) :
    Extends t s s' := by
  intro u hu i o ho
  by_cases hut : u = t
  · subst hut
    exact h.objs i o ho
  · rw [hup u hu hut]
    exact ho

theorem Held.changed (h : Held t n k m s) (hext : Extends t s s')
    (hmsgs : (s t).msgs.length ≤ (s' t).msgs.length)
    (hmaps : (s t).maps.length ≤ (s' t).maps.length)
    (hvars : ∀ a, (s'.msg m).vars = some a →
      a.owner = t ∧ k ≤ a.index ∧ a.index < (s t).maps.length)
    (hbody : Visible t s (s'.msg m).body) (hvals : ∀ p ∈ s'.fields m, Visible t s p.2) :
    Held t n k m s' where
  owner := h.owner
  low := h.low
  mem := h.mem.trans_le hmsgs
  room := h.room.trans hmaps
  vars a ha := by
    obtain ⟨ho, hk, hlt⟩ := hvars a ha
    exact ⟨ho, hk, hlt.trans_le hmaps⟩
  body := hbody.mono hext
  vals p hp := (hvals p hp).mono hext

theorem Held.of_eq (h : Held t n k m s) (hext : Extends t s s') (hmsg : s'.msg m = s.msg m)
    (hmap : ∀ a, (s.msg m).vars = some a → s'.map a = s.map a)
    (hmsgs : (s t).msgs.length ≤ (s' t).msgs.length)
    (hmaps : (s t).maps.length ≤ (s' t).maps.length) :
    Held t n k m s' ∧ s'.msg m = s.msg m ∧ s'.fields m = s.fields m := by
  have hfields : s'.fields m = s.fields m := by
    unfold Heap.fields
    rw [hmsg]
    cases hv : (s.msg m).vars with
    | none => rfl
    | some a => exact hmap a hv
  refine ⟨h.changed hext hmsgs hmaps ?_ ?_ ?_, hmsg, hfields⟩
  · rw [hmsg]
    exact h.vars
  · rw [hmsg]
    exact h.body
  · rw [hfields]
    exact h.vals

theorem Held.congr (h : Held t n k m s) (hs : ∀ u, u <:+ t → s' u = s u) : Held t n k m s' := by
  have ht := hs t t.suffix_refl
  refine (h.of_eq (extends_of_eq hs) ?_ (fun a ha => ?_) (by rw [ht]) (by rw [ht])).1
  · unfold Heap.msg
    rw [h.owner, ht]
  · unfold Heap.map
    rw [(h.vars a ha).1, ht]

theorem Held.kept {n' k' : Nat} (h : Held t n k m s) (hg : Grows n' k' (s t) (s' t))
    (hup : ∀ u, u <:+ t → u ≠ t → s' u = s u) (hn : m.index < n')
    (hk : ∀ a, (s.msg m).vars = some a → a.index < k') :
    Held t n k m s' ∧ s'.msg m = s.msg m ∧ s'.fields m = s.fields m := by
  refine h.of_eq (hg.extends hup) ?_ (fun a ha => ?_) hg.msgCount hg.mapCount
  · unfold Heap.msg
    rw [h.owner, hg.msgs _ hn]
  · unfold Heap.map
    rw [(h.vars a ha).1, hg.maps _ (hk a ha)]

/-! ## Stored values -/

variable (objs : List (Obj N)) (maps : List (Fields N)) (msgs : List (Message N))

@[simp] theorem grow_self :
    s.grow t objs maps msgs t = ⟨(s t).objs ++ objs, (s t).maps ++ maps, (s t).msgs ++ msgs⟩ :=
  update_self ..

theorem grow_of_ne {u : Thread} (hu : u ≠ t) (objs : List (Obj N))
    (maps : List (Fields N)) (msgs : List (Message N)) :
    s.grow t objs maps msgs u = s u :=
  update_of_ne hu ..

theorem grows_grow (hn : n ≤ (s t).msgs.length) (hk : k ≤ (s t).maps.length)
    (objs : List (Obj N)) (maps : List (Fields N)) (msgs : List (Message N)) :
    Grows n k (s t) (s.grow t objs maps msgs t) := by
  rw [grow_self]
  refine ⟨fun i o ho => ?_, fun i hi => ?_, fun i hi => ?_, ?_, ?_⟩
  · obtain ⟨hi, -⟩ := List.getElem?_eq_some_iff.1 ho
    rw [getElem?_append_left hi, ho]
  · exact getElem?_append_left (by omega)
  · exact getElem?_append_left (by omega)
  · simp
  · simp

theorem extends_grow : Extends t s (s.grow t objs maps msgs) :=
  (grows_grow (Nat.zero_le _) (Nat.zero_le _) objs maps msgs).extends fun _ _ hu =>
    grow_of_ne hu objs maps msgs

theorem placed_grow : Placed (s.grow t objs maps msgs) t (s t).objs.length objs := by
  intro i o ho
  rw [grow_self]
  rw [getElem?_append_right (by omega), Nat.add_sub_cancel_left, ho]

variable (x : Memory.Tree N)

theorem visible_put : Visible t (s.put t x).2 (s.put t x).1 :=
  visible_store x _ (placed_grow _ _ _)

theorem view_put : (s.put t x).2.view (s.put t x).1 = x.view :=
  funext (view_store x _ (placed_grow _ _ _))

variable (h : Held t n k m s)
include h

theorem Held.grow (objs : List (Obj N))
    (maps : List (Fields N)) (msgs : List (Message N)) :
    Held t n k m (s.grow t objs maps msgs) ∧ (s.grow t objs maps msgs).msg m = s.msg m ∧
      (s.grow t objs maps msgs).fields m = s.fields m :=
  h.kept (grows_grow le_rfl le_rfl objs maps msgs) (fun _ _ hu => grow_of_ne hu objs maps msgs)
    h.mem fun a ha => (h.vars a ha).2.2

theorem Held.put (x : Memory.Tree N) :
    Held t n k m (s.put t x).2 ∧ (s.put t x).2.msg m = s.msg m ∧
      (s.put t x).2.fields m = s.fields m :=
  h.grow _ _ _

/-! ## Changes in place -/

omit h

/-- A goroutine that holds a message changes it to this content with these variables, and nothing
but it below the marks. -/
structure Changed (t : Thread) (n k : Nat) (m : Addr) (s s' : Heap N) (msg : Message N)
    (fields : Fields N) : Prop where
  held : Held t n k m s'
  grows : Grows n k (s t) (s' t)
  frame : ∀ u, u ≠ t → s' u = s u
  msg : s'.msg m = msg
  fields : s'.fields m = fields

theorem Changed.extends {msg : Message N} {fields : Fields N}
    (h : Changed t n k m s s' msg fields) : Extends t s s' :=
  h.grows.extends fun u _ => h.frame u

include h

theorem modifyMap_spec {a : Addr} (ha : (s.msg m).vars = some a)
    {f : Fields N → Fields N}
    (hf : ∀ p ∈ f (s.map a), p ∈ s.map a ∨ Visible t s p.2) :
    Changed t n k m s (s.modifyMap a f) (s.msg m) (f (s.fields m)) := by
  obtain ⟨ho, hk, hlt⟩ := h.vars a ha
  have hself : s.modifyMap a f t = { s t with maps := (s t).maps.modify a.index f } := by
    rw [Heap.modifyMap, ho, update_self]
  have hne : ∀ u, u ≠ t → s.modifyMap a f u = s u := by
    intro u hu
    rw [Heap.modifyMap, ho, update_of_ne hu]
  have hg : Grows n k (s t) (s.modifyMap a f t) := by
    rw [hself]
    refine ⟨fun _ _ h => h, fun i hi => ?_, fun _ _ => rfl, by simp, le_rfl⟩
    have hne : a.index ≠ i := by omega
    exact getElem?_modify_ne f _ hne
  have hmsg : (s.modifyMap a f).msg m = s.msg m := by
    simp [Heap.msg, h.owner, hself]
  have hfields : (s.modifyMap a f).fields m = f (s.fields m) := by
    simp [Heap.fields, hmsg, ha, Heap.fieldsAt, Heap.map, ho, hself,
      List.getElem?_eq_getElem hlt]
  refine ⟨h.changed (hg.extends fun u _ => hne u) hg.msgCount hg.mapCount ?_ ?_ ?_, hg, hne, hmsg,
    hfields⟩
  · rw [hmsg]
    exact h.vars
  · rw [hmsg]
    exact h.body
  · intro p hp
    have hmap : s.fields m = s.map a := by rw [Heap.fields, ha, Heap.fieldsAt]
    rw [hfields, hmap] at hp
    rcases hf p hp with hp | hp
    · exact h.vals p (by rw [hmap]; exact hp)
    · exact hp

theorem modifyMsg_spec {f : Message N → Message N}
    (hvars : ∀ a, (f (s.msg m)).vars = some a →
      a.owner = t ∧ k ≤ a.index ∧ a.index < (s t).maps.length)
    (hbody : Visible t s (f (s.msg m)).body)
    (hvals : ∀ p ∈ s.fieldsAt (f (s.msg m)).vars, Visible t s p.2) :
    Changed t n k m s (s.modifyMsg m f) (f (s.msg m)) (s.fieldsAt (f (s.msg m)).vars) := by
  have hself : s.modifyMsg m f t = { s t with msgs := (s t).msgs.modify m.index f } := by
    rw [modifyMsg, h.owner, update_self]
  have hne : ∀ u, u ≠ t → s.modifyMsg m f u = s u := by
    intro u hu
    rw [modifyMsg, h.owner, update_of_ne hu]
  have hlow := h.low
  have hg : Grows n k (s t) (s.modifyMsg m f t) := by
    rw [hself]
    refine ⟨fun _ _ h => h, fun _ _ => rfl, fun i hi => ?_, le_rfl, by simp⟩
    have hne : m.index ≠ i := by omega
    exact getElem?_modify_ne f _ hne
  have hmsg : (s.modifyMsg m f).msg m = f (s.msg m) := by
    simp [Heap.msg, h.owner, hself, List.getElem?_eq_getElem h.mem]
  have hfields : (s.modifyMsg m f).fields m = s.fieldsAt (f (s.msg m)).vars := by
    rw [Heap.fields, hmsg]
    cases hv : (f (s.msg m)).vars with
    | none => rfl
    | some a => simp [Heap.fieldsAt, Heap.map, (hvars a hv).1, hself]
  refine ⟨h.changed (hg.extends fun u _ => hne u) hg.msgCount hg.mapCount ?_ ?_ ?_, hg, hne, hmsg,
    hfields⟩
  · rw [hmsg]
    exact hvars
  · rw [hmsg]
    exact hbody
  · rw [hfields]
    exact hvals

omit h

/-! ## Variables -/

variable {v : Val N}

variable {name : String}

theorem mem_setField {fields : Fields N} {p : String × Val N}
    (h : p ∈ setField name v fields) : p = (name, v) ∨ p ∈ fields := by
  rcases mem_cons.1 h with h | h
  · exact .inl h
  · exact .inr (mem_filter.1 h).1

theorem lookup_deleteField (name other : String) : ∀ fields : Fields N,
    (deleteField name fields).lookup other = if other = name then none else fields.lookup other
  | [] => by simp [deleteField]
  | (key, x) :: rest => by
    have ih := lookup_deleteField name other rest
    unfold deleteField at ih ⊢
    by_cases hkey : key = name
    · subst hkey
      rw [filter_cons_of_neg (by simp), ih]
      by_cases ho : other = key
      · rw [if_pos ho, if_pos ho]
      · rw [if_neg ho, if_neg ho, lookup_cons, beq_false_of_ne ho]
    · rw [filter_cons_of_pos (by simpa using hkey), lookup_cons, lookup_cons, ih]
      by_cases ho : other = key
      · subst ho
        simp [hkey]
      · rw [beq_false_of_ne ho]

theorem lookup_setField (name other : String) (v : Val N) (fields : Fields N) :
    (setField name v fields).lookup other =
      if other = name then some v else fields.lookup other := by
  have hdelete := lookup_deleteField name other fields
  unfold deleteField at hdelete
  rw [setField, lookup_cons, hdelete]
  by_cases ho : other = name
  · subst ho
    simp
  · rw [beq_false_of_ne ho, if_neg ho, if_neg ho]

theorem setVar_spec (h : Held t n k m s) (name : String) (hv : Visible t s v) :
    Changed t n k m s (s.setVar t m name v)
      { s.msg m with vars := some ((s.msg m).vars.getD ⟨t, (s t).maps.length⟩) }
      (setField name v (s.fields m)) := by
  cases hvars : (s.msg m).vars with
  | some a =>
    have hspec : ∀ p ∈ setField name v (s.map a), p ∈ s.map a ∨ Visible t s p.2 := by
      intro p hp
      rcases mem_setField hp with rfl | hp
      · exact .inr hv
      · exact .inl hp
    have hchanged := modifyMap_spec h hvars hspec
    simp only [setVar, hvars]
    exact ⟨hchanged.held, hchanged.grows, hchanged.frame,
      by rw [hchanged.msg, Option.getD_some, ← hvars], hchanged.fields⟩
  | none =>
    obtain ⟨hgrown, hmsg, hfields⟩ := h.grow [] [[(name, v)]] []
    have hroom := h.room
    have hlast : (s.grow t [] [[(name, v)]] []).map ⟨t, (s t).maps.length⟩ = [(name, v)] := by
      simp [Heap.map]
    have hchanged :=
      modifyMsg_spec (f := fun x => { x with vars := some ⟨t, (s t).maps.length⟩ }) hgrown
        (fun a ha => by
          cases ha
          exact ⟨rfl, hroom, by simp⟩)
        hgrown.body
        (fun p hp => by
          rw [Heap.fieldsAt, hlast] at hp
          cases mem_singleton.1 hp
          exact hv.mono (extends_grow _ _ _))
    have hempty : s.fields m = [] := by rw [Heap.fields, hvars, Heap.fieldsAt]
    simp only [setVar, hvars]
    refine ⟨hchanged.held, ?_, fun u hu => (hchanged.frame u hu).trans (grow_of_ne hu _ _ _), ?_, ?_⟩
    · exact (grows_grow (h.low.trans h.mem.le) hroom [] [[(name, v)]] []).trans hchanged.grows
    · rw [hchanged.msg, hmsg, Option.getD_none]
    · rw [hchanged.fields, Heap.fieldsAt, hlast, hempty]
      rfl

theorem deleteVar_spec (h : Held t n k m s) (name : String) :
    Changed t n k m s (s.deleteVar m name) (s.msg m) (deleteField name (s.fields m)) := by
  cases hvars : (s.msg m).vars with
  | some =>
    simp only [deleteVar, hvars]
    exact modifyMap_spec h hvars fun p hp => .inl (mem_filter.1 hp).1
  | none =>
    have hsame : s.deleteVar m name = s := by simp [deleteVar, hvars]
    have hempty : s.fields m = [] := by rw [Heap.fields, hvars, Heap.fieldsAt]
    rw [hsame, hempty]
    exact ⟨h, Grows.refl n k _, fun _ _ => rfl, rfl, hempty⟩

theorem setBody_spec (h : Held t n k m s) (hv : Visible t s v) :
    Changed t n k m s (s.modifyMsg m fun x => { x with body := v }) { s.msg m with body := v }
      (s.fields m) :=
  modifyMsg_spec h h.vars hv h.vals

/-! ## Clones -/

structure Seen (t : Thread) (m : Addr) (s : Heap N) : Prop where
  owner : m.owner <:+ t
  vars : ∀ a, (s.msg m).vars = some a → a.owner <:+ t
  body : Visible t s (s.msg m).body
  vals : ∀ p ∈ s.fields m, Visible t s p.2

theorem Held.seen {u : Thread} (h : Held u n k m s) (hu : u <:+ t) : Seen t m s where
  owner := h.owner ▸ hu
  vars a ha := (h.vars a ha).1 ▸ hu
  body := h.body.suffix hu
  vals p hp := (h.vals p hp).suffix hu

theorem Seen.msg_eq (h : Seen t m s) (hs : ∀ u, u <:+ t → s' u = s u) : s'.msg m = s.msg m := by
  rw [Heap.msg, Heap.msg, hs _ h.owner]

theorem fieldsAt_eq {a : Option Addr} (ha : ∀ x, a = some x → x.owner <:+ t)
    (hs : ∀ u, u <:+ t → s' u = s u) : s'.fieldsAt a = s.fieldsAt a := by
  cases a with
  | none => rfl
  | some x => rw [Heap.fieldsAt, Heap.fieldsAt, Heap.map, Heap.map, hs _ (ha x rfl)]

variable (o : Outside N τ E)

theorem visible_cloneBody (hv : Visible t s v)
    (maps : List (Fields N)) (msgs : List (Message N)) :
    Visible t (s.grow t (cloneBody o s t v).2 maps msgs) (cloneBody o s t v).1 := by
  unfold cloneBody
  split
  · exact visible_atom _
  · cases o.roundTrip (s.view v) with
    | some x => exact visible_store x _ (placed_grow _ _ _)
    | none => exact hv.mono (extends_grow _ _ _)

theorem cloneBody_eq (hv : s'.view v = s.view v) (ht : s' t = s t) :
    cloneBody o s' t v = cloneBody o s t v := by
  cases v with
  | atom x => cases x <;> simp only [cloneBody, hv, ht]
  | ref => simp [cloneBody, hv, ht]

/-- **A clone is held by the goroutine that makes it**, above everything that was there. -/
theorem clone_spec (h : Seen t m s) :
    Held t (s t).msgs.length (s t).maps.length (clone o s t m).1 (clone o s t m).2 ∧
      (clone o s t m).2.fields (clone o s t m).1 = s.fields m ∧
      ∃ a, (clone o s t m).2.msg (clone o s t m).1 =
        { s.msg m with vars := a, body := (cloneBody o s t (s.msg m).body).1 } := by
  have hmsg : (clone o s t m).2.msg (clone o s t m).1 = { s.msg m with
        vars := (s.msg m).vars.map fun _ => ⟨t, (s t).maps.length⟩
        body := (cloneBody o s t (s.msg m).body).1 } := by
    simp [clone, Heap.msg]
  have hfields : (clone o s t m).2.fields (clone o s t m).1 = s.fields m := by
    rw [Heap.fields, hmsg, Heap.fields]
    cases hv : (s.msg m).vars with
    | none => rfl
    | some => simp [clone, Heap.fieldsAt, Heap.map, hv]
  refine ⟨⟨rfl, le_rfl, ?_, ?_, fun a ha => ?_, ?_, fun p hp => ?_⟩, hfields, _, hmsg⟩
  · simp [clone]
  · simp [clone]
  · rw [hmsg] at ha
    cases hv : (s.msg m).vars with
    | none => rw [hv] at ha; cases ha
    | some =>
      rw [hv] at ha
      cases ha
      exact ⟨rfl, le_rfl, by simp [clone, hv]⟩
  · rw [hmsg]
    exact visible_cloneBody o h.body _ _
  · rw [hfields] at hp
    exact (h.vals p hp).mono (extends_grow _ _ _)

theorem Held.clone (h : Held t n k m s) (o : Outside N τ E) :
    Held t n k m (Memory.clone o s t m).2 ∧ (Memory.clone o s t m).2.msg m = s.msg m ∧
      (Memory.clone o s t m).2.fields m = s.fields m :=
  h.grow _ _ _

/-! ## Rules -/

section Rules

variable {β : Type} {o : Outside N τ E} {Q : β → Heap N → Prop}

theorem safe_read {op : Op N τ E} {next : Answer op → Prog (Op N τ E) Answer β}
    (hread : ∀ c s₂, (∀ u, u <:+ t → s₂ u = s u) → handle o op t c s₂ = ((handle o op t c s).1, s₂))
    (h : ∀ c, Safe (handle o) (next (handle o op t c s).1) t (Grows n k) Q s) :
    Safe (handle o) (.call op next) t (Grows n k) Q s := by
  intro c
  have hself : (handle o op t c s).2 = s := congrArg Prod.snd (hread c s fun _ _ => rfl)
  refine ⟨fun s₂ hs₂ => ?_, ?_, ?_⟩
  · rw [hread c s₂ hs₂]
    refine ⟨rfl, ?_, fun _ _ => rfl⟩
    rw [hself]
    exact hs₂ t t.suffix_refl
  · rw [hself]
    exact Grows.refl n k _
  · rw [hself]
    exact h c

theorem safe_write {op : Op N τ E} {next : Answer op → Prog (Op N τ E) Answer β} {a : Answer op}
    {f : Heap N → Heap N} (hwrite : ∀ c s₂, (∀ u, u <:+ t → s₂ u = s u) →
      handle o op t c s₂ = (a, f s₂) ∧ f s₂ t = f s t ∧ ∀ u, u ≠ t → f s₂ u = s₂ u)
    (hg : Grows n k (s t) (f s t)) (h : Safe (handle o) (next a) t (Grows n k) Q (f s)) :
    Safe (handle o) (.call op next) t (Grows n k) Q s := by
  intro c
  obtain ⟨hself, -, -⟩ := hwrite c s fun _ _ => rfl
  refine ⟨fun s₂ hs₂ => ?_, ?_, ?_⟩
  · obtain ⟨heq, hown, hframe⟩ := hwrite c s₂ hs₂
    rw [heq, hself]
    exact ⟨rfl, hown, hframe⟩
  · rw [hself]
    exact hg
  · rw [hself]
    exact h

theorem safe_activate {next : Activation N τ → Prog (Op N τ E) Answer β} (hm : Seen t m s)
    (h : ∀ now, Safe (handle o) (next (activation s m now)) t (Grows n k) Q s) :
    Safe (handle o) (.call (.activate m) next) t (Grows n k) Q s := by
  refine safe_read (fun c s₂ hs₂ => ?_) fun c => h c.now
  simp [handle, activation, hm.msg_eq hs₂]

variable {v : Val N}

theorem safe_typeName {next : String → Prog (Op N τ E) Answer β} (hv : v.Valid t s)
    (h : ∀ text, Safe (handle o) (next text) t (Grows n k) Q s) :
    Safe (handle o) (.call (.typeName v) next) t (Grows n k) Q s := by
  refine safe_read (fun c s₂ hs₂ => ?_) fun c => h _
  cases v with
  | atom x => cases x <;> rfl
  | ref => simp [handle, typeName, obj?, hs₂ _ hv.1]

theorem visible_items (hv : Visible t s v) {items : List (Val N)} (hitems : s.items v = some items) :
    ∀ x ∈ items, Visible t s x := by
  intro x hx
  cases v with
  | atom => cases hitems
  | ref a =>
    simp only [Heap.items] at hitems
    split at hitems
    next items' hobj =>
      cases hitems
      obtain ⟨i, hi⟩ := mem_iff_getElem?.1 hx
      refine hv.child (k := .index i) ?_
      simp [child, hobj, Obj.child, hi]
    · cases hitems

theorem safe_items {next : Option (List (Val N)) → Prog (Op N τ E) Answer β} (hv : Visible t s v)
    (h : ∀ r, (∀ items, r = some items → ∀ x ∈ items, Visible t s x) → Safe (handle o) (next r) t (Grows n k) Q s) :
    Safe (handle o) (.call (.items v) next) t (Grows n k) Q s := by
  refine safe_read (fun c s₂ hs₂ => ?_) fun c => h _ fun items => visible_items hv
  cases v with
  | atom => rfl
  | ref => simp [handle, Heap.items, obj?, hs₂ _ hv.valid.1]

theorem safe_getVar {next : Option (Val N) → Prog (Op N τ E) Answer β} (hm : Seen t m s)
    (h : (∀ v, (s.fields m).lookup name = some v → Visible t s v) →
      Safe (handle o) (next ((s.fields m).lookup name)) t (Grows n k) Q s) :
    Safe (handle o) (.call (.getVar m name) next) t (Grows n k) Q s := by
  refine safe_read (fun c s₂ hs₂ => ?_) fun c => h fun v hv => hm.vals _ (mem_of_lookup hv)
  simp [handle, Heap.fields, hm.msg_eq hs₂, fieldsAt_eq hm.vars hs₂]

theorem mem_ranged {α : Type} {order : List Nat} {entries : List α} {x : α} :
    x ∈ ranged order entries ↔ x ∈ entries := by
  unfold ranged
  split
  next hperm =>
    have hperm := isPerm_iff.1 hperm
    simp only [mem_filterMap, hperm.mem_iff, mem_range]
    constructor
    · rintro ⟨i, -, hi⟩
      exact mem_of_getElem? hi
    · intro hx
      obtain ⟨i, hi⟩ := mem_iff_getElem?.1 hx
      exact ⟨i, (List.getElem?_eq_some_iff.1 hi).1, hi⟩
  · exact Iff.rfl

theorem safe_range {entries : Entries E}
    {next : Entries E → Prog (Op N τ E) Answer β}
    (h : ∀ order, Safe (handle o) (next (ranged order entries)) t (Grows n k) Q s) :
    Safe (handle o) (.call (.range entries) next) t (Grows n k) Q s :=
  safe_read (fun _ _ _ => rfl) fun c => h c.order

theorem put_eq {s₂ : Heap N} (hs₂ : ∀ u, u <:+ t → s₂ u = s u) :
    (s₂.put t x).1 = (s.put t x).1 ∧ (s₂.put t x).2 t = (s.put t x).2 t ∧
      ∀ u, u ≠ t → (s₂.put t x).2 u = s₂ u := by
  have ht := hs₂ t t.suffix_refl
  refine ⟨by simp [put, ht], ?_, fun u hu => grow_of_ne hu _ _ _⟩
  simp [put, ht]

theorem safe_alloc {next : Val N → Prog (Op N τ E) Answer β} {x : Memory.Tree N}
    (hm : Held t n k m s) (h : Safe (handle o) (next (s.put t x).1) t (Grows n k) Q (s.put t x).2) :
    Safe (handle o) (.call (.alloc x) next) t (Grows n k) Q s := by
  refine safe_write (f := fun s => (s.put t x).2) (fun c s₂ hs₂ => ?_)
    (grows_grow (hm.low.trans hm.mem.le) hm.room _ _ _) h
  obtain ⟨hval, hown, hframe⟩ := put_eq x hs₂
  exact ⟨Prod.ext hval rfl, hown, hframe⟩

theorem input_extends {a : Activation N τ} (hbody : Visible t s a.body)
    (hvals : ∀ p ∈ s.fieldsAt a.vars, Visible t s p.2) (hext : Extends t s s')
    (hsame : s'.fieldsAt a.vars = s.fieldsAt a.vars) : a.input s' = a.input s := by
  simp [Activation.input, hsame, view_extends hext hbody, viewFields_extends hext hvals]

theorem safe_eval {next : Except String (Val N) → Prog (Op N τ E) Answer β} {e : E}
    {a : Activation N τ} (hm : Held t n k m s) (hbody : Visible t s a.body)
    (hvars : ∀ x, a.vars = some x → x.owner <:+ t)
    (hvals : ∀ p ∈ s.fieldsAt a.vars, Visible t s p.2)
    (herror : ∀ text, o.eval e (a.input s) = .error text →
      Safe (handle o) (next (.error text)) t (Grows n k) Q s)
    (hok : ∀ x, o.eval e (a.input s) = .ok x →
      Safe (handle o) (next (.ok (s.put t x).1)) t (Grows n k) Q (s.put t x).2) :
    Safe (handle o) (.call (.eval e a) next) t (Grows n k) Q s := by
  have hinput : ∀ s₂, (∀ u, u <:+ t → s₂ u = s u) → a.input s₂ = a.input s := fun s₂ hs₂ =>
    input_extends hbody hvals (extends_of_eq hs₂) (fieldsAt_eq hvars hs₂)
  cases heval : o.eval e (a.input s) with
  | error text =>
    have hread : ∀ c s₂, (∀ u, u <:+ t → s₂ u = s u) →
        handle o (.eval e a) t c s₂ = (Except.error text, s₂) := by
      intro c s₂ hs₂
      simp only [handle, hinput s₂ hs₂, heval]
      rfl
    refine safe_read (fun c s₂ hs₂ => ?_) fun c => ?_
    · rw [hread c s₂ hs₂, hread c s fun _ _ => rfl]
      rfl
    · rw [hread c s fun _ _ => rfl]
      exact herror text heval
  | ok x =>
    refine safe_write (f := fun s => (s.put t x).2) (fun c s₂ hs₂ => ?_)
      (grows_grow (hm.low.trans hm.mem.le) hm.room _ _ _) (hok x heval)
    obtain ⟨hval, hown, hframe⟩ := put_eq x hs₂
    refine ⟨?_, hown, hframe⟩
    simp [handle, hinput s₂ hs₂, heval, hval]

variable {next : Unit → Prog (Op N τ E) Answer β}

theorem safe_setBody (hm : Held t n k m s) (hv : Visible t s v)
    (h : Safe (handle o) (next ()) t (Grows n k) Q (s.modifyMsg m fun x => { x with body := v })) :
    Safe (handle o) (.call (.setBody m v) next) t (Grows n k) Q s := by
  refine safe_write
    (fun c s₂ hs₂ => ⟨rfl, ?_, ?_⟩) (setBody_spec hm hv).grows h
  · simp [modifyMsg, hm.owner, hs₂ t t.suffix_refl]
  · exact (setBody_spec (hm.congr hs₂) (hv.mono (extends_of_eq hs₂))).frame

theorem safe_setVar (hm : Held t n k m s) (hv : Visible t s v)
    (h : Safe (handle o) (next ()) t (Grows n k) Q (s.setVar t m name v)) :
    Safe (handle o) (.call (.setVar m name v) next) t (Grows n k) Q s := by
  refine safe_write (fun c s₂ hs₂ => ⟨rfl, ?_, ?_⟩)
    (setVar_spec hm name hv).grows h
  · have ht := hs₂ t t.suffix_refl
    have hmsg := (hm.seen t.suffix_refl).msg_eq hs₂
    cases hvars : (s.msg m).vars with
    | none =>
      simp [setVar, hmsg, hvars, modifyMsg, hm.owner, ht]
    | some a =>
      simp [setVar, hmsg, hvars, Heap.modifyMap, (hm.vars a hvars).1, ht]
  · exact (setVar_spec (hm.congr hs₂) name (hv.mono (extends_of_eq hs₂))).frame

theorem safe_deleteVar (hm : Held t n k m s)
    (h : Safe (handle o) (next ()) t (Grows n k) Q (s.deleteVar m name)) :
    Safe (handle o) (.call (.deleteVar m name) next) t (Grows n k) Q s := by
  refine safe_write (fun c s₂ hs₂ => ⟨rfl, ?_, ?_⟩)
    (deleteVar_spec hm name).grows h
  · have ht := hs₂ t t.suffix_refl
    have hmsg := (hm.seen t.suffix_refl).msg_eq hs₂
    cases hvars : (s.msg m).vars with
    | none => simp [deleteVar, hmsg, hvars, ht]
    | some a =>
      simp [deleteVar, hmsg, hvars, Heap.modifyMap, (hm.vars a hvars).1, ht]
  · exact (deleteVar_spec (hm.congr hs₂) name).frame

theorem safe_clone {next : Addr → Prog (Op N τ E) Answer β} (hm : Seen t m s)
    (hn : n ≤ (s t).msgs.length) (hk : k ≤ (s t).maps.length)
    (h : Safe (handle o) (next (clone o s t m).1) t (Grows n k) Q (clone o s t m).2) :
    Safe (handle o) (.call (.clone m) next) t (Grows n k) Q s := by
  refine safe_write (f := fun s => (clone o s t m).2) (fun c s₂ hs₂ => ⟨?_, ?_, ?_⟩)
    (grows_grow hn hk _ _ _) h
  · refine Prod.ext ?_ rfl
    simp only [handle, clone, hs₂ t t.suffix_refl]
    rfl
  · have ht := hs₂ t t.suffix_refl
    have hmap : (s.msg m).vars.map s₂.map = (s.msg m).vars.map s.map := by
      cases hvars : (s.msg m).vars with
      | none => rfl
      | some a => simp [Heap.map, hs₂ _ (hm.vars a hvars)]
    have hbody := cloneBody_eq o (view_extends (extends_of_eq hs₂) hm.body) ht
    simp [clone, hm.msg_eq hs₂, hmap, hbody, ht]
  · exact fun u hu => grow_of_ne hu _ _ _

end Rules

end

end Octo.Engine.Memory
