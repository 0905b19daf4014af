import Mathlib.Data.List.Sort

/-!
# Keyset paging with a key-only cursor

A table is read page by page in descending key order.  The cursor handed from one page to the
next is the **key** of the last row of the page, and the next page holds only rows with a
strictly smaller key.  Rows with equal keys may come back in any order, so the order of a page
is an oracle (`TieOrder`): every call may break ties differently.

* `scan_total` — the iteration ends, after at most one page more than there are rows.
* `scan_sorted` — its output is in descending key order, for every table.
* `scan_complete_iff` — it returns every row exactly once **if and only if** no page boundary
  falls between two equal keys (`NoTie`).
-/

namespace Octo.Foundation.Keyset

open List Nat

variable {α κ : Type} [LinearOrder κ] {key : α → κ}

def Desc (key : α → κ) (l : List α) : Prop := l.Pairwise fun a b => key b ≤ key a

/-- An `ORDER BY key DESC` that is free to order equal keys, differently at every call. -/
structure TieOrder (key : α → κ) where
  order : Nat → List α → List α
  perm : ∀ n l, (order n l).Perm l
  desc : ∀ n l, Desc key (order n l)

def below (key : α → κ) : Option κ → α → Bool
  | none, _ => true
  | some c, a => decide (key a < c)

/-- One page: the first `limit` rows below the cursor. -/
def page (o : TieOrder key) (limit : Nat) (rows : List α) (n : Nat) (c : Option κ) : List α :=
  (o.order n (rows.filter (below key c))).take limit

def scan (o : TieOrder key) (limit : Nat) (rows : List α) :
    Nat → Nat → Option κ → Option (List (List α))
  | 0, _, _ => none
  | fuel + 1, n, c =>
    let p := page o limit rows n c
    if p.length = limit then
      match p.getLast? with
      | some a => (scan o limit rows fuel (n + 1) (some (key a))).map (p :: ·)
      | none => some [p]
    else some [p]

def keysDesc (key : α → κ) (rows : List α) : List κ := (rows.map key).insertionSort (· ≥ ·)

def NoTie (limit : Nat) (ks : List κ) : Prop :=
  ∀ k, 1 ≤ k → ∀ a b, ks[k * limit - 1]? = some a → ks[k * limit]? = some b → a ≠ b

/-! ## Descending lists -/

variable {rows : List α} {limit : Nat}

theorem keysDesc_of_desc {l : List α} (hp : l.Perm rows) (hd : Desc key l) :
    l.map key = keysDesc key rows := by
  have hs : (l.map key).Pairwise (· ≥ ·) := by
    rw [pairwise_map]; exact hd
  exact List.Perm.eq_of_pairwise' hs (pairwise_insertionSort _ _)
    ((hp.map key).trans (perm_insertionSort _ _).symm)

variable {a : α}

theorem Desc.key_le {l : List α} (hd : Desc key l) {i j : Nat} {b : α} (hij : i ≤ j)
    (ha : l[i]? = some a) (hb : l[j]? = some b) : key b ≤ key a := by
  rcases eq_or_lt_of_le hij with h | h
  · subst h
    rw [ha] at hb; cases hb; exact le_refl _
  · obtain ⟨hi, rfl⟩ := List.getElem?_eq_some_iff.1 ha
    obtain ⟨hj, rfl⟩ := List.getElem?_eq_some_iff.1 hb
    exact pairwise_iff_getElem.1 hd i j hi hj h

omit [LinearOrder κ] in
theorem noTie_cons {limit : Nat} (hl : 1 ≤ limit) (ks : List κ) : NoTie limit ks ↔
      (∀ a b, ks[limit - 1]? = some a → ks[limit]? = some b → a ≠ b) ∧
        NoTie limit (ks.drop limit) := by
  constructor
  · intro h
    refine ⟨fun a b ha hb => h 1 (le_refl _) a b (by simpa using ha) (by simpa using hb), ?_⟩
    intro k hk a b ha hb
    rw [getElem?_drop] at ha hb
    have hkl : limit ≤ k * limit := Nat.le_mul_of_pos_left _ hk
    refine h (k + 1) (by omega) a b ?_ ?_
    · rw [Nat.succ_mul, show k * limit + limit - 1 = limit + (k * limit - 1) by omega]
      exact ha
    · rw [Nat.succ_mul, Nat.add_comm]; exact hb
  · rintro ⟨h1, h2⟩ k hk a b ha hb
    rcases eq_or_lt_of_le hk with hk1 | hk1
    · subst hk1
      exact h1 a b (by simpa using ha) (by simpa using hb)
    · obtain ⟨j, rfl⟩ : ∃ j, k = j + 1 := ⟨k - 1, by omega⟩
      have hj : 1 ≤ j := by omega
      have hjl : limit ≤ j * limit := Nat.le_mul_of_pos_left _ hj
      refine h2 j hj a b ?_ ?_
      · rw [getElem?_drop, show limit + (j * limit - 1) = (j + 1) * limit - 1 by
          rw [Nat.succ_mul]; omega]
        exact ha
      · rw [getElem?_drop, show limit + j * limit = (j + 1) * limit by
          rw [Nat.succ_mul]; omega]
        exact hb

/-! ## One page -/

section Page

variable (o : TieOrder key) {limit : Nat} {rows : List α} {n : Nat} {c : Option κ}

theorem page_desc : Desc key (page o limit rows n c) :=
  List.Pairwise.sublist (take_sublist _ _) (o.desc n _)

theorem page_length_le : (page o limit rows n c).length ≤ (rows.filter (below key c)).length := by
  rw [← (o.perm n (rows.filter (below key c))).length_eq]
  simp [page]

theorem page_perm_of_short (h : (page o limit rows n c).length ≠ limit) :
    (page o limit rows n c).Perm (rows.filter (below key c)) := by
  have hlen : (o.order n (rows.filter (below key c))).length < limit := by
    by_contra hge
    exact h (by simp only [page, length_take]; omega)
  rw [page, take_of_length_le (by omega)]
  exact o.perm n _

theorem filter_below_last (ha : (page o limit rows n c).getLast? = some a) :
    rows.filter (below key (some (key a))) =
      (rows.filter (below key c)).filter (below key (some (key a))) := by
  rw [filter_filter]
  refine filter_congr fun b _ => ?_
  cases c with
  | none => simp [below]
  | some k =>
    have hmem : a ∈ rows.filter (below key (some k)) :=
      (o.perm n _).mem_iff.1 (mem_of_mem_take (mem_of_getLast? ha))
    have hak : key a < k := by simpa [below] using (mem_filter.1 hmem).2
    by_cases hb : key b < key a
    · simp [below, lt_trans hb hak]
    · simp [below, hb]

theorem rest_perm (hfull : (page o limit rows n c).length = limit)
    (ha : (page o limit rows n c).getLast? = some a) : (rows.filter (below key (some (key a)))).Perm
      (((o.order n (rows.filter (below key c))).drop limit).filter (below key (some (key a)))) := by
  rw [filter_below_last o ha]
  refine ((o.perm n _).filter _).symm.trans ?_
  rw [← take_append_drop limit (o.order n (rows.filter (below key c))), filter_append]
  have hnil : ((o.order n (rows.filter (below key c))).take limit).filter
      (below key (some (key a))) = [] := by
    rw [filter_eq_nil_iff]
    intro b hb
    obtain ⟨i, hi⟩ := mem_iff_getElem?.1 hb
    have hil : i < limit := by
      have := (List.getElem?_eq_some_iff.1 hi).1
      simp only [length_take] at this
      omega
    have hlast : ((o.order n (rows.filter (below key c))).take limit)[limit - 1]? = some a := by
      rw [getLast?_eq_getElem?] at ha
      rw [show limit - 1 = (page o limit rows n c).length - 1 by rw [hfull]]
      exact ha
    have hdesc : Desc key ((o.order n (rows.filter (below key c))).take limit) := page_desc o
    simpa [below] using hdesc.key_le (show i ≤ limit - 1 by omega) hi hlast
  rw [hnil, nil_append, take_append_drop]

theorem rest_length_lt (hl : 1 ≤ limit) (hfull : (page o limit rows n c).length = limit)
    (ha : (page o limit rows n c).getLast? = some a) :
    (rows.filter (below key (some (key a)))).length < (rows.filter (below key c)).length := by
  have h1 := (rest_perm o hfull ha).length_eq
  have h2 := length_filter_le (below key (some (key a)))
    ((o.order n (rows.filter (below key c))).drop limit)
  have h3 : (page o limit rows n c).length ≤ (rows.filter (below key c)).length := page_length_le o
  have h4 := (o.perm n (rows.filter (below key c))).length_eq
  simp only [length_drop] at h2
  omega

end Page

/-! ## The whole iteration -/

variable (o : TieOrder key) (hl : 1 ≤ limit)
include hl

theorem scan_total (rows : List α) :
    ∀ fuel n c, (rows.filter (below key c)).length < fuel →
      ∃ ps, scan o limit rows fuel n c = some ps := by
  intro fuel
  induction fuel with
  | zero => intro n c h; omega
  | succ fuel ih =>
    intro n c h
    simp only [scan]
    split
    next hfull =>
      split
      next a ha =>
        have hlt := rest_length_lt o hl hfull ha
        obtain ⟨ps, hps⟩ := ih (n + 1) (some (key a)) (by omega)
        exact ⟨_, by rw [hps]; rfl⟩
      · exact ⟨_, rfl⟩
    · exact ⟨_, rfl⟩

theorem scan_cases {fuel n : Nat} {c : Option κ}
    {ps : List (List α)} (h : scan o limit rows (fuel + 1) n c = some ps) :
    ((page o limit rows n c).length ≠ limit ∧ ps = [page o limit rows n c]) ∨
      ∃ a ps', (page o limit rows n c).length = limit ∧ (page o limit rows n c).getLast? = some a ∧
        scan o limit rows fuel (n + 1) (some (key a)) = some ps' ∧
        ps = page o limit rows n c :: ps' := by
  simp only [scan] at h
  split at h
  next hfull =>
    split at h
    next a ha =>
      obtain ⟨ps', hps', rfl⟩ := Option.map_eq_some_iff.1 h
      exact .inr ⟨a, ps', hfull, ha, hps', rfl⟩
    next hnone =>
      rw [getLast?_eq_none_iff] at hnone
      rw [hnone] at hfull
      simp only [length_nil] at hfull
      omega
  next hshort =>
    cases h
    exact .inl ⟨hshort, rfl⟩

theorem scan_subperm :
    ∀ fuel n c ps, scan o limit rows fuel n c = some ps →
      ps.flatten.Subperm (rows.filter (below key c)) := by
  intro fuel
  induction fuel with
  | zero => intro n c ps h; cases h
  | succ fuel ih =>
    intro n c ps h
    rcases scan_cases o hl h with ⟨hshort, rfl⟩ | ⟨a, ps', hfull, ha, hps', rfl⟩
    · simpa using (page_perm_of_short o hshort).subperm
    · -- the page is a prefix of the ordered table, the rest of the run lies in its tail
      have hrest := ih _ _ _ hps'
      have htail : ps'.flatten.Subperm ((o.order n (rows.filter (below key c))).drop limit) :=
        hrest.trans ((rest_perm o hfull ha).subperm.trans (filter_sublist.subperm))
      have := (subperm_append_left (page o limit rows n c)).2 htail
      rw [page, take_append_drop] at this
      exact this.trans (o.perm n _).subperm

theorem scan_sorted :
    ∀ fuel n c ps, scan o limit rows fuel n c = some ps → Desc key ps.flatten := by
  intro fuel
  induction fuel with
  | zero => intro n c ps h; cases h
  | succ fuel ih =>
    intro n c ps h
    rcases scan_cases o hl h with ⟨_, rfl⟩ | ⟨a, ps', hfull, ha, hps', rfl⟩
    · simpa using page_desc o
    · rw [flatten_cons, Desc, pairwise_append]
      refine ⟨page_desc o, ih _ _ _ hps', fun x hx y hy => ?_⟩
      have hy' := (scan_subperm o hl _ _ _ _ hps').subset hy
      have hya : key y < key a := by simpa [below] using (mem_filter.1 hy').2
      obtain ⟨i, hi⟩ := mem_iff_getElem?.1 hx
      rw [getLast?_eq_getElem?] at ha
      have hil := (List.getElem?_eq_some_iff.1 hi).1
      exact le_of_lt (lt_of_lt_of_le hya ((page_desc o).key_le (by omega) hi ha))

theorem scan_complete_iff :
    ∀ fuel n c ps, scan o limit rows fuel n c = some ps →
      (ps.flatten.Perm (rows.filter (below key c)) ↔
        NoTie limit (keysDesc key (rows.filter (below key c)))) := by
  intro fuel
  induction fuel with
  | zero => intro n c ps h; cases h
  | succ fuel ih =>
    intro n c ps h
    have hord := o.perm n (rows.filter (below key c))
    have hkeys := keysDesc_of_desc hord (o.desc n _)
    generalize hL : o.order n (rows.filter (below key c)) = L at *
    have hdesc : Desc key L := hL ▸ o.desc n _
    have hpage : page o limit rows n c = L.take limit := by rw [page, hL]
    rcases scan_cases o hl h with ⟨hshort, rfl⟩ | ⟨a, ps', hfull, ha, hps', rfl⟩
    · refine iff_of_true (by simpa using page_perm_of_short o hshort) ?_
      -- the table is shorter than one page: there is no boundary at all
      intro k hk x y _ hy
      have hlt : L.length < limit := by
        by_contra hge
        exact hshort (by rw [hpage, length_take]; omega)
      have hkl : limit ≤ k * limit := Nat.le_mul_of_pos_left _ hk
      have := (List.getElem?_eq_some_iff.1 hy).1
      rw [← hkeys, length_map] at this
      omega
    · have hrest := rest_perm o hfull ha
      rw [hL] at hrest
      have hlast : L[limit - 1]? = some a := by
        rw [getLast?_eq_getElem?, hfull, hpage, getElem?_take_of_lt (by omega)] at ha
        exact ha
      rw [flatten_cons, hpage, noTie_cons hl, ← hkeys]
      by_cases htie : ∃ b, L[limit]? = some b ∧ key b = key a
      · -- the row after the boundary shares the last key: it is never returned
        obtain ⟨b, hb, hba⟩ := htie
        refine iff_of_false ?_ ?_
        · intro hperm
          have hlen := hperm.length_eq
          have hsub := (scan_subperm o hl _ _ _ _ hps').length_le
          have hbmem : b ∈ L.drop limit :=
            mem_iff_getElem?.2 ⟨0, by simpa using hb⟩
          have hlost : ((L.drop limit).filter (below key (some (key a)))).length <
              (L.drop limit).length := by
            rcases lt_or_ge ((L.drop limit).filter (below key (some (key a)))).length
              (L.drop limit).length with h | h
            · exact h
            · have heq := filter_sublist.eq_of_length_le h
              have := (mem_filter.1 (heq ▸ hbmem)).2
              simp [below, hba] at this
          have := hrest.length_eq
          have := hord.length_eq
          simp only [length_append, length_take, length_drop] at *
          omega
        · rintro ⟨hno, -⟩
          exact hno (key a) (key b) (by simp [hlast]) (by simp [hb]) hba.symm
      · -- no tie: the tail is untouched and the claim moves one page down
        have htail : (L.drop limit).filter (below key (some (key a))) = L.drop limit := by
          rw [filter_eq_self]
          intro b hb
          obtain ⟨i, hi⟩ := mem_iff_getElem?.1 hb
          rw [getElem?_drop] at hi
          have hne : key b ≠ key a := by
            intro hba
            obtain ⟨b0, hb0⟩ : ∃ b0, L[limit]? = some b0 := by
              have := (List.getElem?_eq_some_iff.1 hi).1
              exact ⟨_, getElem?_eq_getElem (by omega)⟩
            refine htie ⟨b0, hb0, le_antisymm ?_ ?_⟩
            · exact hdesc.key_le (by omega) hlast hb0
            · rw [← hba]; exact hdesc.key_le (by omega) hb0 hi
          have hle := hdesc.key_le (show limit - 1 ≤ limit + i by omega) hlast hi
          simpa [below] using lt_of_le_of_ne hle hne
        rw [htail] at hrest
        have hcancel : (L.take limit ++ ps'.flatten).Perm (rows.filter (below key c)) ↔
            ps'.flatten.Perm (rows.filter (below key (some (key a)))) := by
          have hsplit : (L.take limit ++ L.drop limit).Perm (rows.filter (below key c)) := by
            rw [take_append_drop]; exact hord
          rw [List.Perm.congr_right hsplit.symm, perm_append_left_iff,
            List.Perm.congr_right hrest.symm]
        have hdrop : keysDesc key (rows.filter (below key (some (key a)))) =
            (L.map key).drop limit := by
          rw [← map_drop]
          exact (keysDesc_of_desc hrest.symm (List.Pairwise.sublist (drop_sublist _ _) hdesc)).symm
        rw [hcancel, ih _ _ _ hps', hdrop]
        refine (and_iff_right ?_).symm
        intro x y hx hy hxy
        simp only [getElem?_map, Option.map_eq_some_iff] at hx hy
        obtain ⟨x', hx', rfl⟩ := hx
        obtain ⟨y', hy', rfl⟩ := hy
        rw [hlast] at hx'; cases hx'
        exact htie ⟨y', hy', hxy.symm⟩

end Octo.Foundation.Keyset
