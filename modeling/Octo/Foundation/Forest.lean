import Mathlib.Data.Finset.Card
import Mathlib.Data.List.Nodup
import Mathlib.Data.Nat.Find
import Mathlib.Logic.Function.Basic

/-!
# Parent pointers

A partial function `parent` on any type, read as a set of parent pointers.

* `acyclic_update_iff` — pointing a node at another keeps the pointers acyclic exactly when the
  node is not the other one or above it.
* `climb_bound` — what is above a node at all is above it within as many steps as there are nodes.
* `exists_root` — without a cycle, every node of a finite set has a root above it.
-/

namespace Octo.Foundation.Forest

open Function Option List Nat

variable {α : Type}

/-- Follow `n` parent pointers. -/
def climb (parent : α → Option α) : Nat → α → Option α
  | 0, a => some a
  | n + 1, a => (parent a).bind (climb parent n)

def Above (parent : α → Option α) (a b : α) : Prop := ∃ n, climb parent n a = some b

def Acyclic (parent : α → Option α) : Prop := ∀ a n, climb parent (n + 1) a ≠ some a

variable {parent : α → Option α} {a b c : α}

variable {n : Nat}

theorem climb_succ_of (h : parent a = some b) : climb parent (n + 1) a = climb parent n b := by
  rw [climb, h]
  rfl

theorem climb_add (m n : Nat) (a : α) :
    climb parent (m + n) a = (climb parent m a).bind (climb parent n) := by
  induction m generalizing a with
  | zero => rw [Nat.zero_add]; rfl
  | succ m ih =>
    rw [succ_add]
    cases h : parent a with
    | none => simp [climb, h]
    | some => rw [climb_succ_of h, climb_succ_of h, ih]

theorem Above.refl (a : α) : Above parent a a := ⟨0, rfl⟩

theorem Above.trans (hab : Above parent a b) (hbc : Above parent b c) : Above parent a c := by
  obtain ⟨m, hm⟩ := hab
  obtain ⟨n, hn⟩ := hbc
  exact ⟨m + n, by rw [climb_add, hm]; exact hn⟩

theorem Above.of_parent (h : parent a = some b) : Above parent a b := ⟨1, by rw [climb_succ_of h]; rfl⟩

theorem above_iff : Above parent a b ↔ a = b ∨ ∃ p, parent a = some p ∧ Above parent p b := by
  constructor
  · rintro ⟨n, hn⟩
    cases n with
    | zero => exact .inl (some.inj hn)
    | succ n =>
      cases h : parent a with
      | none => simp [climb, h] at hn
      | some p => exact .inr ⟨p, rfl, n, by rwa [climb_succ_of h] at hn⟩
  · rintro (rfl | ⟨p, hp, h⟩)
    · exact .refl a
    · exact (Above.of_parent hp).trans h

theorem climb_mem {S : Finset α} (hS : ∀ x ∈ S, ∀ p, parent x = some p → p ∈ S)
    (ha : a ∈ S) (h : climb parent n a = some b) : b ∈ S := by
  induction n generalizing a with
  | zero => exact some.inj h ▸ ha
  | succ n ih =>
    cases hp : parent a with
    | none => simp [climb, hp] at h
    | some p =>
      rw [climb_succ_of hp] at h
      exact ih (hS a ha p hp) h

/-! ## Cycles -/

theorem acyclic_of_le {parent' : α → Option α} (h : ∀ a b, parent' a = some b → parent a = some b)
    (hac : Acyclic parent) : Acyclic parent' := by
  have hle : ∀ n a b, climb parent' n a = some b → climb parent n a = some b := by
    intro n
    induction n with
    | zero => exact fun _ _ h => h
    | succ n ih =>
      intro a b hn
      cases hp : parent' a with
      | none => simp [climb, hp] at hn
      | some p =>
        rw [climb_succ_of hp] at hn
        rw [climb_succ_of (h a p hp)]
        exact ih p b hn
  exact fun a n hn => hac a n (hle _ _ _ hn)

theorem acyclic_of_rank (rank : α → Nat) (h : ∀ a b, parent a = some b → rank b < rank a) :
    Acyclic parent := by
  have hle : ∀ {n : Nat} {a b : α}, climb parent n a = some b → rank b + n ≤ rank a := by
    intro n
    induction n with
    | zero => exact fun h => (congrArg rank (some.inj h)).ge
    | succ n ih =>
      intro a b hn
      obtain ⟨p, hp, hpb⟩ := bind_eq_some_iff.1 hn
      have := ih hpb
      have := h a p hp
      omega
  intro a n hn
  have := hle hn
  omega

section Update

variable [DecidableEq α] {p : Option α}

theorem climb_update {x : α} (h : climb (update parent x p) n a = some b) :
    climb parent n a = some b ∨ ∃ m < n, climb (update parent x p) m a = some x := by
  induction n generalizing a with
  | zero => exact .inl h
  | succ n ih =>
    by_cases hx : a = x
    · exact .inr ⟨0, succ_pos n, by rw [hx]; rfl⟩
    · cases hp : update parent x p a with
      | none => simp [climb, hp] at h
      | some q =>
        rw [climb_succ_of hp] at h
        have hq : parent a = some q := by rwa [update_of_ne hx] at hp
        rcases ih h with h | ⟨m, hm, h⟩
        · exact .inl (by rw [climb_succ_of hq]; exact h)
        · exact .inr ⟨m + 1, by omega, by rw [climb_succ_of hp]; exact h⟩

theorem above_update {x : α} (h : Above (update parent x p) a b) :
    Above parent a b ∨ Above parent a x := by
  obtain ⟨n, hn⟩ := h
  induction n using Nat.strongRecOn generalizing b with
  | _ n ih =>
    rcases climb_update hn with h | ⟨m, hm, h⟩
    · exact .inl ⟨n, h⟩
    · exact .inr ((ih m hm h).elim id id)

theorem above_update_self {x : α} :
    Above (update parent x p) a x ↔ Above parent a x := by
  constructor
  · intro h
    exact (above_update h).elim id id
  · intro h
    -- undoing the redirection is one more redirection
    have hundo : update (update parent x p) x (parent x) = parent := by
      rw [update_idem, update_eq_self]
    rw [← hundo] at h
    exact (above_update h).elim id id

theorem acyclic_update_iff (hac : Acyclic parent) :
    Acyclic (update parent a (some b)) ↔ ¬ Above parent b a := by
  have hself : update parent a (some b) a = some b := update_self ..
  constructor
  · rintro h habove
    obtain ⟨n, hn⟩ := above_update_self.2 habove
    exact h a n (by rw [climb_succ_of hself]; exact hn)
  · rintro h c n hn
    -- a cycle was there before, or it passes `a` and then `b`
    rcases climb_update hn with hold | ⟨m, hm, hma⟩
    · exact hac c n hold
    · obtain ⟨k, rfl⟩ : ∃ k, n = m + k := ⟨n - m, by omega⟩
      rw [Nat.add_assoc, climb_add, hma] at hn
      have hbc : climb (update parent a (some b)) k b = some c := by
        rwa [← climb_succ_of hself]
      exact h (above_update_self.1 (Above.trans ⟨k, hbc⟩ ⟨m, hma⟩))

theorem acyclic_update_none (hac : Acyclic parent) : Acyclic (update parent a none) := by
  apply acyclic_of_le _ hac
  intro x y hxy
  by_cases hx : x = a
  · rw [hx, update_self] at hxy
    cases hxy
  · rwa [update_of_ne hx] at hxy

end Update

/-! ## Finite sets of nodes -/

section Finite

variable {S : Finset α}

theorem climb_injOn (h : climb parent n a = some b)
    (hmin : ∀ m < n, climb parent m a ≠ some b) {i j : Nat} (hi : i ≤ n) (hj : j ≤ n)
    (hij : climb parent i a = climb parent j a) : i = j := by
  have hcut : ∀ i j, i < j → j ≤ n → climb parent i a = climb parent j a → False := by
    intro i j hlt hj hij
    -- leaving out the stretch between the two visits gives a shorter climb
    have hn : climb parent (j + (n - j)) a = some b := by rw [Nat.add_sub_cancel' hj]; exact h
    rw [climb_add, ← hij, ← climb_add] at hn
    exact hmin _ (by omega) hn
  rcases lt_trichotomy i j with hlt | heq | hgt
  · exact (hcut i j hlt hj hij).elim
  · exact heq
  · exact (hcut j i hgt hi hij.symm).elim

variable (hS : ∀ x ∈ S, ∀ p, parent x = some p → p ∈ S)
include hS

theorem climb_bound (ha : a ∈ S)
    (h : Above parent a b) : ∃ n < S.card, climb parent n a = some b := by
  classical
  let n := Nat.find h
  have hn : climb parent n a = some b := Nat.find_spec h
  have hmin : ∀ m < n, climb parent m a ≠ some b := fun m hm => Nat.find_min h hm
  have hsome : ∀ i ≤ n, ∃ x ∈ S, climb parent i a = some x := by
    intro i hi
    have hsplit : (climb parent i a).bind (climb parent (n - i)) = some b := by
      rw [← climb_add, Nat.add_sub_cancel' hi]
      exact hn
    obtain ⟨x, hx, -⟩ := bind_eq_some_iff.1 hsplit
    exact ⟨x, climb_mem hS ha hx, hx⟩
  refine ⟨n, ?_, hn⟩
  -- the nodes passed are pairwise distinct and in `S`
  have hcard : (Finset.range (n + 1)).card ≤ (S.map Function.Embedding.some).card := by
    apply Finset.card_le_card_of_injOn (fun i => climb parent i a)
    · intro i hi
      obtain ⟨x, hx, hxi⟩ := hsome i (by simpa [Nat.lt_succ_iff] using hi)
      simpa [hxi] using hx
    · intro i hi j hj hij
      have hi : i < n + 1 := by simpa using hi
      have hj : j < n + 1 := by simpa using hj
      exact climb_injOn hn hmin (by omega) (by omega) hij
  simp only [Finset.card_range, Finset.card_map] at hcard
  omega

theorem exists_root (hac : Acyclic parent)
    (ha : a ∈ S) : ∃ r ∈ S, Above parent a r ∧ parent r = none := by
  by_contra hno
  simp only [not_exists, not_and] at hno
  -- otherwise the climb never stops, and it returns to a node it has passed
  have hsome : ∀ n, ∃ x ∈ S, climb parent n a = some x := by
    intro n
    induction n with
    | zero => exact ⟨a, ha, rfl⟩
    | succ n ih =>
      obtain ⟨x, hx, hxn⟩ := ih
      obtain ⟨p, hp⟩ := ne_none_iff_exists'.1 (hno x hx ⟨n, hxn⟩)
      refine ⟨p, hS x hx p hp, ?_⟩
      rw [climb_add, hxn]
      exact climb_succ_of hp
  have hcard : (S.map Function.Embedding.some).card < (Finset.range (S.card + 1)).card := by
    simp
  obtain ⟨i, hi, j, hj, hne, hij⟩ := Finset.exists_ne_map_eq_of_card_lt_of_maps_to hcard
    (f := fun i => climb parent i a) (by
      intro i _
      obtain ⟨x, hx, hxi⟩ := hsome i
      simpa [hxi] using hx)
  have hcycle : ∀ i j, i < j → climb parent i a = climb parent j a → False := by
    intro i j hlt hij
    obtain ⟨x, -, hxi⟩ := hsome i
    obtain ⟨k, rfl⟩ : ∃ k, j = i + (k + 1) := ⟨j - i - 1, by omega⟩
    rw [climb_add, hxi] at hij
    exact hac x k hij.symm
  rcases lt_or_gt_of_ne hne with h | h
  · exact hcycle i j h hij
  · exact hcycle j i h hij.symm

end Finite

/-! ## Walking down -/

section Walk

variable {β : Type} (kids : β → List β)

def walk : Nat → Nat → β → List (β × Nat)
  | 0, d, a => [(a, d)]
  | n + 1, d, a => (a, d) :: (kids a).flatMap (walk n (d + 1))

variable {kids} (key : β → α)

theorem climb_concat (h : climb parent n a = some b) (hp : parent b = some c) :
    climb parent (n + 1) a = some c := by
  rw [climb_add, h]
  exact climb_succ_of hp

theorem climb_of_mem_walk (hkids : ∀ a, ∀ c ∈ kids a, parent (key c) = some (key a)) :
    ∀ {n d : Nat} {a b : β} {k : Nat}, (b, k) ∈ walk kids n d a →
      ∃ m, k = d + m ∧ climb parent m (key b) = some (key a)
  | 0, d, a, b, k, h => by
    cases mem_singleton.1 h
    exact ⟨0, rfl, rfl⟩
  | n + 1, d, a, b, k, h => by
    rcases mem_cons.1 h with h | h
    · cases h
      exact ⟨0, rfl, rfl⟩
    · obtain ⟨c, hc, h⟩ := mem_flatMap.1 h
      obtain ⟨m, rfl, hm⟩ := climb_of_mem_walk hkids h
      exact ⟨m + 1, by omega, climb_concat hm (hkids a c hc)⟩

theorem exists_mem_walk (hall : ∀ x a, parent x = some (key a) → ∃ c ∈ kids a, key c = x) :
    ∀ {m n d : Nat} {x : α} {a : β}, climb parent m x = some (key a) → m ≤ n →
      ∃ b, key b = x ∧ (b, d + m) ∈ walk kids n d a
  | 0, n, d, x, a, h, _ => by
    refine ⟨a, (some.inj h).symm, ?_⟩
    cases n <;> simp [walk]
  | m + 1, 0, _, _, _, _, hle => absurd hle (Nat.not_succ_le_zero m)
  | m + 1, n + 1, d, x, a, h, hle => by
    rw [climb_add] at h
    obtain ⟨y, hy, hlast⟩ := bind_eq_some_iff.1 h
    have hpar : parent y = some (key a) := by
      rw [climb, bind_eq_some_iff] at hlast
      obtain ⟨z, hz, hza⟩ := hlast
      rwa [some.inj hza] at hz
    obtain ⟨c, hc, rfl⟩ := hall y a hpar
    obtain ⟨b, hb, hmem⟩ := exists_mem_walk hall hy (Nat.le_of_succ_le_succ hle)
    refine ⟨b, hb, mem_cons_of_mem _ (mem_flatMap.2 ⟨c, hc, ?_⟩)⟩
    rwa [Nat.add_right_comm] at hmem

theorem walk_infix : ∀ {n d : Nat} {a b : β} {k : Nat}, (b, k) ∈ walk kids n d a →
    ∃ n', n' + k = n + d ∧ walk kids n' k b <:+: walk kids n d a
  | 0, d, a, b, k, h => by
    cases mem_singleton.1 h
    exact ⟨0, rfl, infix_rfl⟩
  | n + 1, d, a, b, k, h => by
    rcases mem_cons.1 h with h | h
    · cases h
      exact ⟨n + 1, rfl, infix_rfl⟩
    · obtain ⟨c, hc, h⟩ := mem_flatMap.1 h
      obtain ⟨n', hn, hblock⟩ := walk_infix h
      refine ⟨n', by omega, hblock.trans (infix_cons ?_)⟩
      obtain ⟨before, after, hsplit⟩ := append_of_mem hc
      rw [hsplit, flatMap_append, flatMap_cons, ← append_assoc]
      exact infix_append ..

theorem sublist_flatMap_walk (n d : Nat) (l : List β) :
    l.Sublist ((l.flatMap (walk kids n d)).map Prod.fst) := by
  induction l with
  | nil => exact nil_sublist _
  | cons a l ih =>
    rw [flatMap_cons, map_append]
    refine (List.Sublist.append ?_ ih : ([a] ++ l).Sublist _)
    cases n <;> simp [walk]

theorem climb_length (hac : Acyclic parent) {x : α} {m : Nat} (hm : climb parent m x = some a)
    (hn : climb parent n x = some b) (hp : parent a = parent b) : m = n := by
  have hlt : ∀ {a b : α} {m n : Nat}, climb parent m x = some a → climb parent n x = some b →
      parent a = parent b → ¬m < n := by
    intro a b m n ha hb hp hmn
    obtain ⟨k, rfl⟩ : ∃ k, n = m + (k + 1) := ⟨n - m - 1, by omega⟩
    rw [climb_add, ha, bind_some] at hb
    obtain ⟨q, hq, hqb⟩ := bind_eq_some_iff.1 hb
    exact hac q k (climb_concat hqb (hp ▸ hq))
  have := hlt hm hn hp
  have := hlt hn hm hp.symm
  omega

theorem nodup_flatMap_walk (hkids : ∀ a, ∀ c ∈ kids a, parent (key c) = some (key a))
    (hnodup : ∀ a, ((kids a).map key).Nodup) (hac : Acyclic parent) {d : Nat} {l : List β}
    {p : Option α} (hl : (l.map key).Nodup) (hp : ∀ a ∈ l, parent (key a) = p) :
    ((l.flatMap (walk kids n d)).map fun e => key e.1).Nodup := by
  have habove : ∀ {n d : Nat} {a : β} {x : α}, x ∈ (walk kids n d a).map (fun e => key e.1) →
      ∃ m, climb parent m x = some (key a) := by
    intro n d a x hx
    obtain ⟨⟨b, k⟩, hmem, rfl⟩ := mem_map.1 hx
    obtain ⟨m, -, hm⟩ := climb_of_mem_walk key hkids hmem
    exact ⟨m, hm⟩
  induction n generalizing d l p with
  | zero =>
    rw [map_flatMap]
    simpa [walk, ← map_eq_flatMap] using hl
  | succ n ih =>
    rw [map_flatMap, nodup_flatMap]
    refine ⟨fun a ha => ?_, ?_⟩
    · rw [walk, map_cons, nodup_cons]
      refine ⟨fun hmem => ?_, ih (hnodup a) (hkids a)⟩
      rw [map_flatMap] at hmem
      obtain ⟨c, hc, hmem⟩ := mem_flatMap.1 hmem
      obtain ⟨m, hm⟩ := habove hmem
      exact hac (key a) m (climb_concat hm (hkids a c hc))
    · refine hl.of_map.pairwise_of_forall_ne fun a ha b hb hne x hxa hxb => hne ?_
      obtain ⟨m, hm⟩ := habove hxa
      obtain ⟨m', hm'⟩ := habove hxb
      cases climb_length hac hm hm' (by rw [hp a ha, hp b hb])
      exact inj_on_of_nodup_map hl ha hb (some.inj (hm.symm.trans hm'))

end Walk

end Octo.Foundation.Forest
