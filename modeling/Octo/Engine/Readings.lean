import Octo.Engine.Access

/-!
# Messages as JSON

What can be read of a message (`read`), and how the accesses of a goroutine that holds it change
that.
-/

namespace Octo.Engine.Builtins

open Octo.Foundation.Parallel Octo.Engine.Memory

section

variable {N τ E : Type}

structure Reading (N : Type) where
  eventID : String
  correlationID : String
  bodySchema : List UInt8
  body : View N
  vars : String → Option (View N)

def read (s : Heap N) (m : Addr) : Reading N where
  eventID := (s.msg m).eventID
  correlationID := (s.msg m).correlationID
  bodySchema := (s.msg m).bodySchema
  body := s.view (s.msg m).body
  vars name := ((s.fields m).lookup name).map s.view

variable (r : Reading N)

def Reading.withVar (name : String) (v : Option (View N)) : Reading N :=
  { r with vars := fun other => if other = name then v else r.vars other }

@[simp] theorem Reading.withVar_self (name : String) (v : Option (View N)) :
    (r.withVar name v).vars name = v := if_pos rfl

theorem Reading.withVar_of_ne {name other : String} (h : other ≠ name)
    (v : Option (View N)) : (r.withVar name v).vars other = r.vars other := if_neg h

/-- Nothing but these variables changed. -/
structure Unmarked (but : List String) (before after : Reading N) : Prop where
  eventID : after.eventID = before.eventID
  body : after.body = before.body
  vars : ∀ name, name ∉ but → after.vars name = before.vars name

section Unmarked

variable {but : List String} {before after : Reading N}

theorem Unmarked.refl (r : Reading N) : Unmarked but r r := ⟨rfl, rfl, fun _ _ => rfl⟩

theorem Unmarked.trans {last : Reading N} (h : Unmarked but before after)
    (h' : Unmarked but after last) : Unmarked but before last :=
  ⟨h'.eventID.trans h.eventID, h'.body.trans h.body, fun name hname =>
    (h'.vars name hname).trans (h.vars name hname)⟩

theorem Unmarked.mono {more : List String} (h : Unmarked but before after) (hsub : but ⊆ more) :
    Unmarked more before after :=
  ⟨h.eventID, h.body, fun name hname => h.vars name fun hmem => hname (hsub hmem)⟩

theorem Unmarked.withVar {name : String} (h : Unmarked but before after) (hname : name ∈ but)
    (v : Option (View N)) : Unmarked but before (after.withVar name v) :=
  ⟨h.eventID, h.body, fun other hother =>
    (after.withVar_of_ne (ne_of_mem_of_not_mem hname hother).symm v).trans (h.vars other hother)⟩

/-- A variable that is put back is unchanged. -/
theorem Unmarked.restore {name : String} (h : Unmarked (name :: but) before after) :
    Unmarked but before (after.withVar name (before.vars name)) := by
  refine ⟨h.eventID, h.body, fun other hother => ?_⟩
  by_cases heq : other = name
  · rw [heq, Reading.withVar_self]
  · rw [after.withVar_of_ne heq, h.vars other (by simp [heq, hother])]

end Unmarked

variable {o : Outside N τ E} {t : Thread} {n k : Nat} {m : Addr} {s s' : Heap N}

theorem lookup_view_extends (h : Seen t m s) (hext : Extends t s s') (name : String) :
    ((s.fields m).lookup name).map s'.view = ((s.fields m).lookup name).map s.view := by
  cases hl : (s.fields m).lookup name with
  | none => rfl
  | some => simp [view_extends hext (h.vals _ (mem_of_lookup hl))]

theorem read_eq (h : Seen t m s) (hs : ∀ u, u <:+ t → s' u = s u) : read s' m = read s m := by
  have hext := extends_of_eq hs
  have hfields : s'.fields m = s.fields m := by
    rw [Heap.fields, h.msg_eq hs, fieldsAt_eq h.vars hs, Heap.fields]
  simp [read, h.msg_eq hs, hfields, view_extends hext h.body, lookup_view_extends h hext]

variable (h : Held t n k m s)
include h

theorem read_put (x : Memory.Tree N) : read (s.put t x).2 m = read s m := by
  obtain ⟨-, hmsg, hfields⟩ := h.put x
  have hext : Extends t s (s.put t x).2 := extends_grow _ _ _
  simp [read, hmsg, hfields, view_extends hext h.body,
    lookup_view_extends (h.seen t.suffix_refl) hext]

theorem read_setBody {v : Val N} (hv : Visible t s v) :
    read (s.modifyMsg m fun x => { x with body := v }) m = { read s m with body := s.view v } := by
  have hchanged := setBody_spec h hv
  have hext := hchanged.extends
  simp [read, hchanged.msg, hchanged.fields, view_extends hext hv,
    lookup_view_extends (h.seen t.suffix_refl) hext]

theorem read_setVar (name : String) {v : Val N} (hv : Visible t s v) :
    read (s.setVar t m name v) m = (read s m).withVar name (some (s.view v)) := by
  have hchanged := setVar_spec h name hv
  have hext := hchanged.extends
  have hlookup : ∀ other, ((setField name v (s.fields m)).lookup other).map
      (s.setVar t m name v).view =
        if other = name then some (s.view v) else ((s.fields m).lookup other).map s.view := by
    intro other
    rw [lookup_setField]
    split
    · rw [Option.map_some, view_extends hext hv]
    · exact lookup_view_extends (h.seen t.suffix_refl) hext other
  simp [read, Reading.withVar, hchanged.msg, hchanged.fields, view_extends hext h.body, hlookup]

theorem read_deleteVar (name : String) :
    read (s.deleteVar m name) m = (read s m).withVar name none := by
  have hchanged := deleteVar_spec h name
  have hext := hchanged.extends
  have hlookup : ∀ other, ((deleteField name (s.fields m)).lookup other).map
      (s.deleteVar m name).view =
        if other = name then none else ((s.fields m).lookup other).map s.view := by
    intro other
    rw [lookup_deleteField]
    split
    · rfl
    · exact lookup_view_extends (h.seen t.suffix_refl) hext other
  simp [read, Reading.withVar, hchanged.msg, hchanged.fields, view_extends hext h.body, hlookup]

theorem held_beside (o : Outside N τ E)
    (hg : Grows (s t).msgs.length (s t).maps.length ((clone o s t m).2 t) (s' t))
    (hup : ∀ u, u <:+ t → u ≠ t → s' u = (clone o s t m).2 u) :
    Held t n k m s' ∧ (∀ a, (s'.msg m).vars = some a → a.index < (s t).maps.length) ∧
      read s' m = read s m := by
  obtain ⟨h₁, hmsg₁, hfields₁⟩ := h.clone o
  have hbelow : ∀ a, (s.msg m).vars = some a → a.index < (s t).maps.length := fun a ha =>
    (h.vars a ha).2.2
  obtain ⟨h₂, hmsg₂, hfields₂⟩ := h₁.kept hg hup h.mem (by rw [hmsg₁]; exact hbelow)
  have hext : Extends t s s' := fun u hu i obj hobj =>
    hg.extends hup u hu i obj (extends_grow _ _ _ u hu i obj hobj)
  rw [hmsg₁] at hmsg₂
  refine ⟨h₂, by rw [hmsg₂]; exact hbelow, ?_⟩
  simp [read, hmsg₂, hfields₂, hfields₁, view_extends hext h.body,
    lookup_view_extends (h.seen t.suffix_refl) hext]

end

end Octo.Engine.Builtins
