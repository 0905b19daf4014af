import Mathlib.Data.List.Nodup

/-!
# One element of a list

Replacing the element at an index, and taking the first element with a property, both as a split
of the list around that element.  Counts and membership then follow by `simp`.  A list in which at
most one element passes a test has no second one anywhere else.  An association list without the
entries of a key has those of the others.  In a list with distinct keys an element is found by its
key, also when elements are converted or dropped on the way.
-/

namespace Octo.Foundation.Split

open List Option

variable {α : Type}

variable {l : List α}

theorem exists_split {i : Nat} {x : α} (h : l[i]? = some x) :
    ∃ a b, l = a ++ x :: b ∧ a.length = i ∧ ∀ y, l.set i y = a ++ y :: b := by
  obtain ⟨hi, hx⟩ := List.getElem?_eq_some_iff.1 h
  refine ⟨l.take i, l.drop (i + 1), ?_, ?_, fun y => ?_⟩
  · rw [← hx, getElem_cons_drop, take_append_drop]
  · rw [length_take]
    omega
  · simp [set_eq_take_append_cons_drop, hi]

theorem getElem?_replace {a b : List α} {j : Nat} (x y : α) (hj : j ≠ a.length) :
    (a ++ x :: b)[j]? = (a ++ y :: b)[j]? := by
  rcases Nat.lt_or_gt_of_ne hj with h | h
  · rw [getElem?_append_left h, getElem?_append_left h]
  · obtain ⟨k, rfl⟩ := Nat.exists_eq_add_of_lt h
    rw [Nat.add_assoc, getElem?_append_right (Nat.le_add_right _ _),
      getElem?_append_right (Nat.le_add_right _ _), Nat.add_sub_cancel_left]
    rfl

theorem forall_mem_set {P : α → Prop} {i : Nat} {y : α} (h : ∀ x ∈ l, P x)
    (hy : P y) : ∀ x ∈ l.set i y, P x := by
  intro x hx
  rcases mem_or_eq_of_mem_set hx with hx | rfl
  · exact h x hx
  · exact hy

theorem map_modify {β : Type} {g : α → β} {f : α → α} (hf : ∀ x, g (f x) = g x) :
    ∀ (l : List α) (i : Nat), (l.modify i f).map g = l.map g
  | [], i => by simp
  | x :: l, 0 => by simp [hf]
  | x :: l, i + 1 => by simp [map_modify hf l i]

theorem mem_modify {f : α → α} {i : Nat} {y : α} (h : y ∈ l.modify i f) :
    y ∈ l ∨ ∃ x, l[i]? = some x ∧ y = f x := by
  obtain ⟨j, hj⟩ := getElem?_of_mem h
  rw [getElem?_modify] at hj
  obtain ⟨x, hx, hy⟩ := map_eq_some_iff.1 hj
  split at hy
  next hij =>
    exact .inr ⟨x, hij ▸ hx, hy.symm⟩
  · exact .inl (hy ▸ mem_of_getElem? hx)

def takeFirst (p : α → Bool) : List α → Option (α × List α)
  | [] => none
  | x :: rest => if p x then some (x, rest) else (takeFirst p rest).map fun r => (r.1, x :: r.2)

variable {p : α → Bool}

theorem takeFirst_split : ∀ {l : List α} {x : α} {rest : List α},
    takeFirst p l = some (x, rest) → p x = true ∧ ∃ a b, l = a ++ x :: b ∧ rest = a ++ b
  | [], x, rest, h => by cases h
  | y :: l, x, rest, h => by
    unfold takeFirst at h
    split at h
    next hp =>
      cases h
      exact ⟨hp, [], l, rfl, rfl⟩
    · obtain ⟨⟨z, r⟩, hz, hr⟩ := map_eq_some_iff.1 h
      cases hr
      obtain ⟨hp, a, b, rfl, rfl⟩ := takeFirst_split hz
      exact ⟨hp, y :: a, b, rfl, rfl⟩

/-! ## At most one -/

theorem eq_of_countP_le_one : ∀ {l : List α} {x y : α},
    l.countP p ≤ 1 → x ∈ l → y ∈ l → p x = true → p y = true → x = y
  | [], x, y, h, hx, hy, hpx, hpy => by cases hx
  | z :: l, x, y, h, hx, hy, hpx, hpy => by
    rw [countP_cons] at h
    rcases mem_cons.1 hx with rfl | hx'
    · rcases mem_cons.1 hy with rfl | hy'
      · rfl
      · have := countP_pos_iff.2 ⟨y, hy', hpy⟩
        rw [if_pos hpx] at h
        omega
    · rcases mem_cons.1 hy with rfl | hy'
      · have := countP_pos_iff.2 ⟨x, hx', hpx⟩
        rw [if_pos hpy] at h
        omega
      · exact eq_of_countP_le_one (by omega) hx' hy' hpx hpy

theorem filter_eq_nil_of_countP_le_one {a b : List α} {x : α}
    (h : (a ++ x :: b).countP p ≤ 1) (hx : p x = true) : a.filter p = [] ∧ b.filter p = [] := by
  rw [countP_append, countP_cons, if_pos hx] at h
  simp only [← length_eq_zero_iff, ← countP_eq_length_filter]
  omega

theorem nodup_of_countP_le_one {β : Type} [DecidableEq β] {f : α → β}
    (h : ∀ e, l.countP (f · = e) ≤ 1) : (l.map f).Nodup := by
  rw [nodup_iff_count_le_one]
  intro e
  rw [count_eq_countP, countP_map]
  refine Nat.le_trans (Nat.le_of_eq (countP_congr fun x _ => ?_)) (h e)
  simp

theorem lookup_filter_ne {κ : Type} [BEq κ] [LawfulBEq κ] [DecidableEq κ] (k k' : κ) :
    ∀ l : List (κ × α), (l.filter (·.1 ≠ k)).lookup k' = if k' = k then none else l.lookup k'
  | [] => by simp
  | (key, x) :: l => by
    have ih := lookup_filter_ne k k' l
    by_cases hkey : key = k
    · rw [filter_cons_of_neg (by simpa using hkey), ih, lookup_cons, hkey]
      split
      · rfl
      next hne =>
        rw [beq_false_of_ne hne]
    · rw [filter_cons_of_pos (by simpa using hkey), lookup_cons, ih, lookup_cons]
      by_cases hk' : k' = key
      · subst hk'
        simp [hkey]
      · rw [beq_false_of_ne hk']

section Keyed

variable {β κ : Type} [DecidableEq κ]

theorem find_of_mem (key : α → κ) {x : α} (hnd : (l.map key).Nodup) (hx : x ∈ l) :
    l.find? (key · = key x) = some x := by
  cases h : l.find? (key · = key x) with
  | none => simpa using find?_eq_none.1 h x hx
  | some y =>
    have hy : key y = key x := by simpa using find?_some h
    rw [inj_on_of_nodup_map hnd (mem_of_find?_eq_some h) hx hy]

theorem find_filterMap {key : α → κ} {key' : β → κ} {g : α → Option β}
    (hg : ∀ a b, g a = some b → key' b = key a) (k : κ) : ∀ {l : List α}, (l.map key).Nodup →
      (l.filterMap g).find? (key' · = k) = (l.find? (key · = k)).bind g
  | [], _ => rfl
  | a :: l, hnd => by
    rw [map_cons, nodup_cons] at hnd
    have ih := find_filterMap hg k hnd.2
    by_cases hk : key a = k
    · rw [find?_cons_of_pos (by simpa using hk), bind_some]
      cases hb : g a with
      | some b =>
        rw [filterMap_cons_some hb, find?_cons_of_pos]
        simpa using (hg a b hb).trans hk
      | none =>
        have hnone : l.find? (key · = k) = none := by
          rw [find?_eq_none]
          intro x hx
          simpa using fun hxk => hnd.1 (mem_map.2 ⟨x, hx, hxk.trans hk.symm⟩)
        rw [filterMap_cons_none hb, ih, hnone, bind_none]
    · rw [find?_cons_of_neg (by simpa using hk), ← ih]
      cases hb : g a with
      | some b =>
        rw [filterMap_cons_some hb, find?_cons_of_neg]
        simpa using fun hbk => hk ((hg a b hb).symm.trans hbk)
      | none => rw [filterMap_cons_none hb]

theorem lookup_cons_if [BEq κ] [LawfulBEq κ] (k k' : κ) (x : α) (l : List (κ × α)) :
    ((k, x) :: l).lookup k' = if k' = k then some x else l.lookup k' := by
  rw [lookup_cons]
  split
  next h =>
    rw [if_pos (beq_iff_eq.1 h)]
  next h =>
    rw [if_neg (beq_eq_false_iff_ne.1 h)]

theorem lookup_filterMap [BEq κ] [LawfulBEq κ] (key : α → κ) (g : κ → Option β) (k : κ) :
    ∀ l : List α, (l.filterMap fun a => (g (key a)).map fun v => (key a, v)).lookup k =
      if k ∈ l.map key then g k else none
  | [] => by simp
  | a :: l => by
    have ih := lookup_filterMap key g k l
    by_cases hk : k = key a
    · subst hk
      cases hv : g (key a) with
      | some => simp [hv]
      | none => simp [hv, ih]
    · have hne : (k == key a) = false := beq_false_of_ne hk
      cases hv : g (key a) with
      | some => simp [hv, lookup_cons, hne, ih, hk]
      | none => simp [hv, ih, hk]

end Keyed

end Octo.Foundation.Split
