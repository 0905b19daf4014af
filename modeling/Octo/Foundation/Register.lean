import Mathlib.Data.List.Basic
import Mathlib.Order.Lattice

/-!
# A register whose version lives in the entry

One register is shared by any number of clients.  It is either absent or holds a version.  A
write names the version it expects (`zero` when the register is absent) and stores the `next`
one; a removal names the version it expects, or `zero` for any, and forgets the version.

* `versions_increasing_iff` — the versions the register takes are strictly increasing **if and
  only if** the run never writes after a removal and never writes at a version that `next` does
  not raise.
* `unchanged_between` — in such a run an access that expects an observed version takes effect
  only if nothing took effect since the observation.
-/

namespace Octo.Foundation.Register

open List

variable {V : Type}

/-- What one call does to the watched register; `other` covers every call that ignores it. -/
inductive Access (V : Type) where
  | other
  | read
  | write (expected : V)
  | remove (expected : V)
  deriving DecidableEq

abbrev Step (V : Type) := Option V × Access V

variable (zero : V) (next : V → V)

def Writes (x : Step V) : Prop := x.2 = .write (x.1.getD zero)

def Removes (x : Step V) : Prop := ∃ v e, x.1 = some v ∧ x.2 = .remove e ∧ (e = zero ∨ e = v)

def Effective (x : Step V) : Prop := Writes zero x ∨ Removes zero x

section

variable [DecidableEq V]

def after (r : Option V) : Access V → Option V
  | .other => r
  | .read => r
  | .write e => if e = r.getD zero then some (next (r.getD zero)) else r
  | .remove e =>
    match r with
    | none => none
    | some v => if e = zero ∨ e = v then none else some v

def trace : Option V → List (Access V) → List (Step V)
  | _, [] => []
  | r, a :: as => (r, a) :: trace (after zero next r a) as

def stored (x : Step V) : Option V := match x.2 with
  | .write e => if e = x.1.getD zero then some (next (x.1.getD zero)) else none
  | _ => none

def versions (tr : List (Step V)) : List V := tr.filterMap (stored zero next)

end

def NotRecreated (tr : List (Step V)) : Prop :=
  tr.Pairwise fun x y => Removes zero x → ¬ Writes zero y

def Raises [LT V] (tr : List (Step V)) : Prop :=
  ∀ x ∈ tr, Writes zero x → ∀ v, x.1 = some v → v < next v

/-! ## One step -/

variable {zero next}

variable {x : Step V}

theorem not_writes_of_removes (h : Removes zero x) : ¬ Writes zero x := by
  obtain ⟨v, e, -, hx, -⟩ := h
  unfold Writes
  rw [hx]
  simp

variable {v : V}

theorem Effective.at_expected (hv : v ≠ zero)
    (he : Effective zero x) (hx : x.2 = .write v ∨ x.2 = .remove v) : x.1 = some v := by
  obtain ⟨r, a⟩ := x
  rcases he with hw | ⟨w, e, hr, ha, hew⟩
  · simp only [Writes] at hw
    rcases hx with hx | hx
    · simp only [hw, Access.write.injEq] at hx
      cases r with
      | none => exact absurd hx.symm hv
      | some => simpa using hx
    · simp [hw] at hx
  · rw [ha] at hx
    simp only [reduceCtorEq, Access.remove.injEq, false_or] at hx
    rcases hew with h0 | h1
    · exact absurd (hx.symm.trans h0) hv
    · rw [hr, ← hx, h1]

section

variable [DecidableEq V] {r : Option V} {a : Access V}

theorem stored_of_writes (h : Writes zero x) :
    stored zero next x = some (next (x.1.getD zero)) := by
  unfold Writes at h
  simp [stored, h]

theorem stored_of_not_writes (h : ¬ Writes zero x) : stored zero next x = none := by
  obtain ⟨r, a⟩ := x
  cases a with
  | write e =>
    have he : e ≠ r.getD zero := fun he => h (by simp [Writes, he])
    simp [stored, he]
  | _ => rfl

theorem after_of_writes (h : Writes zero (r, a)) :
    after zero next r a = some (next (r.getD zero)) := by
  unfold Writes at h
  simp only at h
  simp [after, h]

theorem after_of_removes (h : Removes zero (r, a)) : after zero next r a = none := by
  obtain ⟨v, e, hr, ha, he⟩ := h
  subst hr ha
  simp [after, he]

theorem after_of_not_effective (h : ¬ Effective zero (r, a)) : after zero next r a = r := by
  cases a with
  | other => rfl
  | read => rfl
  | write e =>
    have he : e ≠ r.getD zero := fun he => h (.inl (by simp [Writes, he]))
    simp [after, he]
  | remove e =>
    cases r with
    | none => rfl
    | some v =>
      have he : ¬ (e = zero ∨ e = v) := fun he => h (.inr ⟨v, e, rfl, rfl, he⟩)
      simp [after, he]

theorem step_cases (zero : V) (next : V → V) (r : Option V) (a : Access V) :
    (Writes zero (r, a) ∧ after zero next r a = some (next (r.getD zero))) ∨
    (Removes zero (r, a) ∧ after zero next r a = none) ∨
    (¬ Effective zero (r, a) ∧ after zero next r a = r) := by
  by_cases hw : Writes zero (r, a)
  · exact .inl ⟨hw, after_of_writes hw⟩
  · by_cases hm : Removes zero (r, a)
    · exact .inr (.inl ⟨hm, after_of_removes hm⟩)
    · have he : ¬ Effective zero (r, a) := by
        rintro (h | h)
        · exact hw h
        · exact hm h
      exact .inr (.inr ⟨he, after_of_not_effective he⟩)

end

/-! ## Whole runs -/

section Runs

variable [LinearOrder V]

/-- The run so far: `lo` is the last version taken, `gone` says that a removal took effect. -/
structure Inv (zero : V) (next : V → V) (r : Option V) (gone : Prop) (lo : Option V) : Prop where
  present : ∀ v, r = some v → lo = some v ∧ ¬ gone
  fresh : r = none → ¬ gone → lo = none
  removed : gone → lo ≠ none
  base : ∀ l, lo = some l → next zero ≤ l

variable {gone : Prop} {lo r : Option V} (hi : Inv zero next r gone lo)
include hi

theorem Inv.of_write :
    (¬ gone ∧ ∀ v, r = some v → v < next v) ↔ (∀ l, lo = some l → l < next (r.getD zero)) := by
  cases r with
  | none =>
    constructor
    · rintro ⟨hg, -⟩ l hl
      rw [hi.fresh rfl hg] at hl
      cases hl
    · intro h
      refine ⟨fun hg => ?_, by simp⟩
      -- a re-created register starts again at the first version, which `lo` has passed
      obtain ⟨l, hl⟩ := Option.ne_none_iff_exists'.1 (hi.removed hg)
      exact absurd (h l hl) (not_lt.2 (hi.base l hl))
  | some v =>
    obtain ⟨hlo, hg⟩ := hi.present v rfl
    constructor
    · rintro ⟨-, h⟩ l hl
      rw [hlo] at hl
      cases hl
      exact h v rfl
    · intro h
      refine ⟨hg, fun w hw => ?_⟩
      cases hw
      exact h v hlo

theorem Inv.write (hlt : ∀ v, r = some v → v < next v) :
    Inv zero next (some (next (r.getD zero))) False (some (next (r.getD zero))) := by
  refine ⟨by simp, by simp, by simp, ?_⟩
  intro l hl
  cases hl
  cases r with
  | none => exact le_rfl
  | some v => exact (hi.base v (hi.present v rfl).1).trans (hlt v rfl).le

theorem Inv.remove {a : Access V} (hm : Removes zero (r, a)) :
    Inv zero next none True lo := by
  obtain ⟨v, -, hv, -⟩ := hm
  obtain ⟨hlo, -⟩ := hi.present v hv
  exact ⟨by simp, by simp, by simp [hlo], hi.base⟩

omit hi

theorem versions_trace_cons (r : Option V) (a : Access V) (as : List (Access V)) :
    versions zero next (trace zero next r (a :: as)) = (stored zero next (r, a)).toList ++
        versions zero next (trace zero next (after zero next r a) as) := by
  simp only [versions, trace, filterMap_cons]
  cases stored zero next (r, a) <;> rfl

theorem pairwise_append_iff {vs : List V} (h : ∀ l, lo = some l → l < v) :
    (lo.toList ++ v :: vs).Pairwise (· < ·) ↔ (v :: vs).Pairwise (· < ·) := by
  cases lo with
  | none => simp
  | some l =>
    simp only [Option.toList_some, singleton_append]
    rw [pairwise_cons]
    refine ⟨And.right, fun hp => ⟨?_, hp⟩⟩
    intro b hb
    rcases mem_cons.1 hb with rfl | hb
    · exact h l rfl
    · exact (h l rfl).trans ((pairwise_cons.1 hp).1 b hb)

/-- A run is regular: see `NotRecreated` and `Raises`; `gone` continues an earlier run. -/
def Regular (zero : V) (next : V → V) (gone : Prop) (tr : List (Step V)) : Prop :=
  NotRecreated zero tr ∧ Raises zero next tr ∧ (gone → ∀ x ∈ tr, ¬ Writes zero x)

theorem regular_cons {tr : List (Step V)} : Regular zero next gone (x :: tr) ↔
      (Writes zero x → ¬ gone ∧ ∀ v, x.1 = some v → v < next v) ∧
        Regular zero next (gone ∨ Removes zero x) tr := by
  simp only [Regular, NotRecreated, Raises, pairwise_cons, forall_mem_cons]
  constructor
  · rintro ⟨⟨h0, h1⟩, ⟨h2, h3⟩, h4⟩
    refine ⟨fun hw => ⟨fun hg => (h4 hg).1 hw, h2 hw⟩, h1, h3, ?_⟩
    rintro (hg | hm) y hy
    · exact (h4 hg).2 y hy
    · exact h0 y hy hm
  · rintro ⟨h0, h1, h2, h3⟩
    exact ⟨⟨fun y hy hm => h3 (.inr hm) y hy, h1⟩, ⟨fun hw => (h0 hw).2, h2⟩,
      fun hg => ⟨fun hw => (h0 hw).1 hg, h3 (.inl hg)⟩⟩

variable (as : List (Access V))

theorem versions_increasing_aux :
    ∀ (r : Option V) (gone : Prop) (lo : Option V), Inv zero next r gone lo →
      ((lo.toList ++ versions zero next (trace zero next r as)).Pairwise (· < ·) ↔
        Regular zero next gone (trace zero next r as)) := by
  -- on the accesses, for every register, flag and last version that fit together
  induction as with
  | nil =>
    intro r gone lo _
    cases lo <;> simp [trace, versions, Regular, NotRecreated, Raises]
  | cons a as ih =>
    intro r gone lo hi
    rw [versions_trace_cons, trace, regular_cons]
    rcases step_cases zero next r a with ⟨hw, hr⟩ | ⟨hm, hr⟩ | ⟨hn, hr⟩
    · have hnm : ¬ Removes zero (r, a) := fun hm => not_writes_of_removes hm hw
      have hok := hi.of_write
      rw [hr, stored_of_writes hw]
      by_cases hraise : ∀ l, lo = some l → l < next (r.getD zero)
      · obtain ⟨hg, hlt⟩ := hok.2 hraise
        have ih' := ih _ _ _ (hi.write hlt)
        simp only [Option.toList_some, singleton_append] at ih' ⊢
        rw [pairwise_append_iff hraise, ih']
        simp only [hg, hnm, or_self, not_false_eq_true, true_and]
        exact ⟨fun h => ⟨fun _ => hlt, h⟩, And.right⟩
      · -- the write repeats or lowers a version: neither side holds
        constructor
        · intro h
          refine absurd ?_ hraise
          intro l hl
          subst hl
          simp only [Option.toList_some, singleton_append, pairwise_cons] at h
          exact h.1 _ (by simp)
        · rintro ⟨h, -⟩
          exact absurd (hok.1 (h hw)) hraise
    · have hnw : ¬ Writes zero (r, a) := not_writes_of_removes hm
      rw [hr, stored_of_not_writes hnw]
      simp only [Option.toList_none, nil_append]
      rw [ih _ _ _ (hi.remove hm)]
      simp [hnw, hm]
    · have hnw : ¬ Writes zero (r, a) := fun h => hn (.inl h)
      have hnm : ¬ Removes zero (r, a) := fun h => hn (.inr h)
      rw [hr, stored_of_not_writes hnw]
      simp only [Option.toList_none, nil_append]
      rw [ih _ _ _ hi]
      simp [hnw, hnm]

theorem versions_increasing_iff :
    (versions zero next (trace zero next none as)).Pairwise (· < ·) ↔
      NotRecreated zero (trace zero next none as) ∧ Raises zero next (trace zero next none as) := by
  have hinv : Inv zero next none False none := ⟨by simp, by simp, by simp, by simp⟩
  simpa [Regular] using versions_increasing_aux as none False none hinv

/-- The version `v` can no longer be the current one: the register is past it, or removed. -/
def Stale (v : V) (r : Option V) (gone : Prop) : Prop :=
  (∃ w, r = some w ∧ v < w) ∨ (r = none ∧ gone)

theorem Stale.step {a : Access V} (hs : Stale v r gone)
    (hok : Writes zero (r, a) → ¬ gone ∧ ∀ w, r = some w → w < next w) :
    Stale v (after zero next r a) (gone ∨ Removes zero (r, a)) := by
  rcases step_cases zero next r a with ⟨hw, hr⟩ | ⟨hm, hr⟩ | ⟨-, hr⟩
  · obtain ⟨hg, hlt⟩ := hok hw
    rcases hs with ⟨w, rfl, hv⟩ | ⟨-, hg'⟩
    · exact .inl ⟨next w, hr, hv.trans (hlt w rfl)⟩
    · exact absurd hg' hg
  · exact .inr ⟨hr, .inr hm⟩
  · rw [hr]
    rcases hs with hs | ⟨hr', hg⟩
    · exact .inl hs
    · exact .inr ⟨hr', .inl hg⟩

theorem stale_forever : ∀ (r : Option V) (gone : Prop), Stale v r gone →
      Regular zero next gone (trace zero next r as) → ∀ x ∈ trace zero next r as, x.1 ≠ some v := by
  induction as with
  | nil => intro r gone _ _ x hx; cases hx
  | cons a as ih =>
    intro r gone hs hreg x hx
    rw [trace, regular_cons] at hreg
    rcases mem_cons.1 hx with rfl | hx
    · rcases hs with ⟨w, rfl, hv⟩ | ⟨rfl, -⟩
      · intro h; cases h; exact lt_irrefl _ hv
      · simp
    · exact ih _ _ (hs.step hreg.1) hreg.2 x hx

theorem unchanged_until :
    ∀ (gone : Prop) (mid : List (Step V)) (x : Step V) (rest : List (Step V)),
      Regular zero next gone (trace zero next (some v) as) →
      trace zero next (some v) as = mid ++ x :: rest → x.1 = some v →
      ∀ y ∈ mid, ¬ Effective zero y := by
  induction as with
  | nil => intro gone mid x rest _ h; simp [trace] at h
  | cons a as ih =>
    intro gone mid x rest hreg h hx y hy
    rw [trace, regular_cons] at hreg
    rw [trace] at h
    cases mid with
    | nil => cases hy
    | cons z mid =>
      simp only [cons_append, List.cons.injEq] at h
      obtain ⟨rfl, htr⟩ := h
      have hmem : x ∈ trace zero next (after zero next (some v) a) as := by simp [htr]
      rcases step_cases zero next (some v) a with
        ⟨hw, hr⟩ | ⟨hm, hr⟩ | ⟨hn, hr⟩
      · have hs : Stale v (after zero next (some v) a) (gone ∨ Removes zero (some v, a)) :=
          .inl ⟨_, hr, (hreg.1 hw).2 v rfl⟩
        exact absurd hx (stale_forever as _ _ hs hreg.2 x hmem)
      · have hs : Stale v (after zero next (some v) a) (gone ∨ Removes zero (some v, a)) :=
          .inr ⟨hr, .inr hm⟩
        exact absurd hx (stale_forever as _ _ hs hreg.2 x hmem)
      · rw [hr] at htr hreg
        rcases mem_cons.1 hy with rfl | hy
        · exact hn
        · exact ih _ mid x rest hreg.2 htr hx y hy

theorem unchanged_between :
    ∀ (r : Option V) (gone : Prop) (pre mid rest : List (Step V)) (x y : Step V),
      Regular zero next gone (trace zero next r as) →
      trace zero next r as = pre ++ x :: (mid ++ y :: rest) →
      x.1 = some v → ¬ Effective zero x → y.1 = some v → ∀ z ∈ mid, ¬ Effective zero z := by
  induction as with
  | nil => intro r gone pre mid rest x y _ h; simp [trace] at h
  | cons a as ih =>
    intro r gone pre mid rest x y hreg h hx hnx hy z hz
    rw [trace, regular_cons] at hreg
    rw [trace] at h
    cases pre with
    | nil =>
      simp only [nil_append, List.cons.injEq] at h
      obtain ⟨rfl, htr⟩ := h
      subst hx
      rw [after_of_not_effective hnx] at htr hreg
      exact unchanged_until as _ mid y rest hreg.2 htr hy z hz
    | cons w pre =>
      simp only [cons_append, List.cons.injEq] at h
      exact ih _ _ pre mid rest x y hreg.2 h.2 hx hnx hy z hz

end Runs

end Octo.Foundation.Register
