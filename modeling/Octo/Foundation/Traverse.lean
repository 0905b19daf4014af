import Mathlib.Data.List.Forall2

/-!
# Fallible walks over lists

A walk that rewrites every element of a list and stops at the first error is `List.mapM` in
`Except`.  The lemmas below say when it returns a given list, so that a walk over a tree of
lists is inverted node by node.

* `mapM_eq_ok_iff` — the walk returns `ys` exactly when it maps each element to its fellow.
* `exists_mem_zip_left`, `exists_mem_zip_right` — an element of either list has a fellow.
* `mapM_fixed_iff` — the walk returns its input exactly when it fixes every element.
* `mapM_agree_iff` — two walks that agree element by element under a condition agree on a list
  exactly when every element meets the condition.
-/

namespace Octo.Foundation.Traverse

open List Option

variable {ε α β : Type}

variable {f : α → Except ε β} {xs : List α} {R : α → β → Prop} {γ : Type} {ys : List β}

variable {x : Except ε α}

theorem bind_eq_ok {b : β} : (x >>= f) = .ok b ↔ ∃ a, x = .ok a ∧ f a = .ok b := by
  cases x with
  | error => simp [bind, Except.bind]
  | ok => simp [bind, Except.bind]

theorem pure_eq_ok {a b : α} : (pure a : Except ε α) = .ok b ↔ a = b := by
  simp [pure, Except.pure]

theorem mapError_eq_ok {ε' : Type} {f : ε → ε'} {a : α} :
    x.mapError f = .ok a ↔ x = .ok a := by
  cases x <;> simp [Except.mapError]

theorem map_eq_ok {f : α → β} {b : β} :
    x.map f = .ok b ↔ ∃ a, x = .ok a ∧ f a = b := by
  cases x with
  | error => simp [Except.map]
  | ok => simp [Except.map]

theorem mapM_eq_ok_iff :
    ∀ {ys : List β}, xs.mapM f = .ok ys ↔ List.Forall₂ (fun x y => f x = .ok y) xs ys := by
  induction xs with
  | nil =>
    intro ys
    rw [mapM_nil, pure_eq_ok]
    cases ys <;> simp
  | cons x xs ih =>
    intro ys
    rw [List.mapM_cons, bind_eq_ok]
    constructor
    · rintro ⟨y, hy, h⟩
      obtain ⟨ys', hys, h⟩ := bind_eq_ok.1 h
      cases pure_eq_ok.1 h
      exact .cons hy (ih.1 hys)
    · intro h
      cases h with
      | cons hy hys => exact ⟨_, hy, bind_eq_ok.2 ⟨_, ih.2 hys, rfl⟩⟩

theorem exists_forall₂_comp {S : β → γ → Prop} :
    ∀ {xs : List α} {zs : List γ}, (∃ ys, List.Forall₂ R xs ys ∧ List.Forall₂ S ys zs) ↔
      List.Forall₂ (fun x z => ∃ y, R x y ∧ S y z) xs zs
  | [], zs => by
    constructor
    · rintro ⟨_, ⟨⟩, ⟨⟩⟩
      exact .nil
    · rintro ⟨⟩
      exact ⟨[], .nil, .nil⟩
  | x :: xs, zs => by
    constructor
    · rintro ⟨ys, hxs, hzs⟩
      cases hxs with
      | cons hr hrs =>
        cases hzs with
        | cons hs hss => exact .cons ⟨_, hr, hs⟩ (exists_forall₂_comp.1 ⟨_, hrs, hss⟩)
    · intro h
      cases h with
      | cons hx hxs =>
        obtain ⟨y, hr, hs⟩ := hx
        obtain ⟨ys, hrs, hss⟩ := exists_forall₂_comp.2 hxs
        exact ⟨y :: ys, .cons hr hrs, .cons hs hss⟩

variable {x : Option α} {S : α → β → Prop}

theorem exists_optionRel_comp {S : β → γ → Prop} {z : Option γ} :
    (∃ y, Option.Rel R x y ∧ Option.Rel S y z) ↔
      Option.Rel (fun x z => ∃ y, R x y ∧ S y z) x z := by
  constructor
  · rintro ⟨_, ⟨hr⟩ | ⟨⟩, ⟨hs⟩ | ⟨⟩⟩
    · exact .some ⟨_, hr, hs⟩
    · exact .none
  · rintro (⟨y, hr, hs⟩ | ⟨⟩)
    · exact ⟨some y, .some hr, .some hs⟩
    · exact ⟨none, .none, .none⟩

theorem optionRel_eq {y : Option α} : Option.Rel Eq x y ↔ x = y := by
  cases x <;> cases y <;> simp

theorem optionRel_none_left {y : Option β} : Option.Rel R none y ↔ y = none := by
  cases y <;> simp

theorem optionRel_imp (hRS : ∀ a b, R a b → S a b) {y : Option β} (h : Option.Rel R x y) :
    Option.Rel S x y := by
  cases h with
  | some h => exact .some (hRS _ _ h)
  | none => exact .none

theorem optionRel_map_left {R : β → γ → Prop} {f : α → β} {y : Option γ} :
    Option.Rel R (x.map f) y ↔ Option.Rel (fun a c => R (f a) c) x y := by
  cases x <;> cases y <;> simp

variable {P : α → Prop}

theorem forall₂_agree_iff : ∀ {xs : List α} {ys : List β}, List.Forall₂ R xs ys →
      (∀ x ∈ xs, ∀ y, R x y → (S x y ↔ P x)) → (List.Forall₂ S xs ys ↔ ∀ x ∈ xs, P x)
  | [], _, h, _ => by
    cases h
    simp
  | x :: xs, _, h, hS => by
    cases h with
    | cons hx hxs =>
      rw [forall₂_cons, forall_mem_cons, hS x mem_cons_self _ hx,
        forall₂_agree_iff hxs fun z hz => hS z (mem_cons_of_mem x hz)]

theorem optionRel_agree_iff {y : Option β} (h : Option.Rel R x y)
    (hS : ∀ a ∈ x, ∀ b, R a b → (S a b ↔ P a)) : Option.Rel S x y ↔ ∀ a ∈ x, P a := by
  cases h with
  | some h =>
    simp only [mem_def, Option.some.injEq, forall_eq', rel_some_some] at hS ⊢
    exact hS _ h
  | none => simp

theorem getElem?_rel (h : List.Forall₂ R xs ys) (i : Nat) : Option.Rel R xs[i]? ys[i]? := by
  induction h generalizing i with
  | nil => exact .none
  | cons hx _ ih =>
    cases i with
    | zero => exact .some hx
    | succ i => exact ih i

theorem map_eq_of_forall₂ {f : α → γ} {g : β → γ} (hR : ∀ a b, R a b → g b = f a) :
    ∀ {xs : List α} {ys : List β}, List.Forall₂ R xs ys → ys.map g = xs.map f
  | [], _, .nil => rfl
  | _ :: _, _, .cons h hs => by
    rw [map_cons, map_cons, hR _ _ h, map_eq_of_forall₂ hR hs]

theorem forall₂_feature_iff {g : α → γ} {P : γ → γ → Prop} {ys : List α} (h : xs.map g = ys.map g) :
    List.Forall₂ (fun x y => P (g x) (g y)) xs ys ↔ ∀ x ∈ xs, P (g x) (g x) := by
  rw [← forall₂_map_right_iff, ← h,
    forall₂_map_right_iff, forall₂_same]

theorem exists_fellow (h : List.Forall₂ R xs ys) {x : α} (hx : x ∈ xs) : ∃ y ∈ ys, R x y := by
  induction h with
  | nil => cases hx
  | @cons a b xs ys hab _ ih =>
    rcases mem_cons.1 hx with rfl | hx
    · exact ⟨b, mem_cons_self, hab⟩
    · obtain ⟨y, hy, hxy⟩ := ih hx
      exact ⟨y, mem_cons_of_mem b hy, hxy⟩

theorem exists_mem_zip_left (h : xs.length = ys.length) {x : α} (hx : x ∈ xs) :
    ∃ y, (x, y) ∈ xs.zip ys := by
  rw [← map_fst_zip (Nat.le_of_eq h)] at hx
  obtain ⟨⟨x, y⟩, hmem, rfl⟩ := mem_map.1 hx
  exact ⟨y, hmem⟩

theorem exists_mem_zip_right (h : xs.length = ys.length) {y : β} (hy : y ∈ ys) :
    ∃ x, (x, y) ∈ xs.zip ys := by
  rw [← map_snd_zip (Nat.le_of_eq h.symm)] at hy
  obtain ⟨⟨x, y⟩, hmem, rfl⟩ := mem_map.1 hy
  exact ⟨x, hmem⟩

theorem mapM_fixed_iff {f : α → Except ε α} : xs.mapM f = .ok xs ↔ ∀ x ∈ xs, f x = .ok x := by
  rw [mapM_eq_ok_iff, forall₂_same]

variable {leaves : α → List γ}

theorem mapM_fixed_flatMap {f : α → Except ε α} {P : γ → Prop}
    (h : ∀ x ∈ xs, (f x = .ok x ↔ ∀ c ∈ leaves x, P c)) :
    xs.mapM f = .ok xs ↔ ∀ c ∈ xs.flatMap leaves, P c := by
  rw [mapM_fixed_iff]
  simp only [mem_flatMap]
  constructor
  · rintro hf c ⟨x, hx, hc⟩
    exact (h x hx).1 (hf x hx) c hc
  · intro hP x hx
    exact (h x hx).2 fun c hc => hP c ⟨x, hx, hc⟩

variable {g : α → Except ε β}

theorem mapM_agree_iff
    (hx : ∀ x ∈ xs, ∀ y, f x = .ok y → (g x = .ok y ↔ P x)) (h : xs.mapM f = .ok ys) :
    xs.mapM g = .ok ys ↔ ∀ x ∈ xs, P x := by
  rw [mapM_eq_ok_iff] at h ⊢
  exact forall₂_agree_iff h hx

theorem mapM_agree_flatMap {P : γ → Prop}
    (hx : ∀ x ∈ xs, ∀ y, f x = .ok y → (g x = .ok y ↔ ∀ c ∈ leaves x, P c)) (h : xs.mapM f = .ok ys) :
    xs.mapM g = .ok ys ↔ ∀ c ∈ xs.flatMap leaves, P c := by
  rw [mapM_agree_iff hx h]
  simp only [mem_flatMap]
  constructor
  · rintro hP c ⟨x, hx, hc⟩
    exact hP x hx c hc
  · intro hP x hx c hc
    exact hP c ⟨x, hx, hc⟩

variable {f : α → Option β}

theorem mapM_cons_eq_some {x : α} : (x :: xs).mapM f = some ys ↔
      ∃ y rest, f x = some y ∧ xs.mapM f = some rest ∧ ys = y :: rest := by
  simp only [List.mapM_cons, Option.bind_eq_bind, Option.bind_eq_some_iff, Option.pure_def,
    Option.some.injEq]
  constructor
  · rintro ⟨y, hy, rest, hrest, rfl⟩
    exact ⟨y, rest, hy, hrest, rfl⟩
  · rintro ⟨y, rest, hy, hrest, rfl⟩
    exact ⟨y, hy, rest, hrest, rfl⟩

theorem mapM_map_eq {f : α → Option α} {g : α → γ} (hf : ∀ a b, f a = some b → g b = g a) :
    ∀ xs ys : List α, xs.mapM f = some ys → ys.map g = xs.map g
  | [], ys, h => by
    cases h
    rfl
  | a :: xs, ys, h => by
    obtain ⟨b, ys, hb, hys, rfl⟩ := mapM_cons_eq_some.1 h
    rw [map_cons, map_cons, hf a b hb, mapM_map_eq hf xs ys hys]

theorem mapM_append_inv {ys : List α} {zs : List β}
    (h : (xs ++ ys).mapM f = some zs) :
    ∃ us vs, xs.mapM f = some us ∧ ys.mapM f = some vs ∧ zs = us ++ vs := by
  rw [mapM_append] at h
  simp only [Option.bind_eq_bind, Option.bind_eq_some_iff, Option.pure_def, Option.some.injEq] at h
  obtain ⟨us, hus, vs, hvs, rfl⟩ := h
  exact ⟨us, vs, hus, hvs, rfl⟩

theorem mapM_idem {f : α → Option α} (hf : ∀ a b, f a = some b → f b = some b) :
    ∀ xs ys : List α, xs.mapM f = some ys → ys.mapM f = some ys
  | [], ys, h => by
    cases h
    rfl
  | a :: xs, ys, h => by
    obtain ⟨b, rest, hb, hrest, rfl⟩ := mapM_cons_eq_some.1 h
    exact mapM_cons_eq_some.2 ⟨b, rest, hf a b hb, mapM_idem hf xs rest hrest, rfl⟩

end Octo.Foundation.Traverse
