import Mathlib.Data.List.Infix
import Octo.Logs.Query

/-!
# Following `next_before`

The cursor of `GET /logs` is the timestamp of the last row of a full page, and the next page asks
for rows **strictly older** than it.  Rows that share the timestamp of a page's last row and did
not fit on the page are therefore never returned.

* `follow_eq_scan` — the client loop is the keyset scan of the matching rows.
* `paging_complete_iff` — following the cursor returns every matching row exactly once, newest
  first, if and only if no page boundary falls between two matching rows of equal timestamp.
* `follow_ends` — it always ends.
* `tied_rows_lost` — two rows of one timestamp, read with `limit=1`: the second is never returned.
-/

namespace Octo.Logs

open List Octo.Foundation.Keyset

/-- A run that follows the cursor to its end returns every matching row exactly once, in
    non-increasing timestamp order. -/
def PagingComplete (pg : Postgres) (table : List LogRow) (req : Request) : Prop :=
  ∃ pages, follow pg table req (table.length + 1) 0 none = some pages ∧
    pages.flatten.Perm (matching pg table req) ∧ Desc LogRow.time pages.flatten

/-- The `k·limit`-th and the next of the matching timestamps, newest first, never agree. -/
def NoTieAtPageBoundary (pg : Postgres) (table : List LogRow) (req : Request) : Prop :=
  NoTie (pageLimit req) (keysDesc LogRow.time (matching pg table req))

variable (pg : Postgres) (table : List LogRow) (req : Request)

theorem query_eq_page (n : Nat)
    (before : Option Time) : query pg n table (parseFilter { req with before := before }) =
      page pg.tsDesc (pageLimit req) (matching pg table req) n before := by
  have hrows : table.filter ((parseFilter { req with before := before }).matches pg) =
      (matching pg table req).filter (below LogRow.time before) := by
    rw [matching, filter_filter]
    exact filter_congr fun r _ => matches_before pg req before r
  rw [query, hrows]
  rfl

theorem follow_eq_scan :
    ∀ fuel n before, follow pg table req fuel n before =
      scan pg.tsDesc (pageLimit req) (matching pg table req) fuel n before := by
  intro fuel
  induction fuel with
  | zero => intro n before; rfl
  | succ fuel ih =>
    intro n before
    have hlimit : (parseFilter { req with before := before }).limit = (pageLimit req) := by
      have := (clampLimit_range (req.limit.getD defaultLimit)).1
      simp only [parseFilter, pageLimit]
      omega
    simp only [follow, scan, list, query_eq_page, hlimit]
    generalize page pg.tsDesc (pageLimit req) (matching pg table req) n before = p
    by_cases hfull : p.length = pageLimit req
    · rw [if_pos hfull, if_pos (by rw [hfull])]
      cases p.getLast? with
      | none => rfl
      | some => simp [ih]
    · rw [if_neg hfull, if_neg (by omega)]

theorem matching_length_le :
    (matching pg table req).length ≤ table.length :=
  length_filter_le _ _

/-- **Paging is complete exactly when no page boundary splits a timestamp.** -/
theorem paging_complete_iff (pg : Postgres) (table : List LogRow) (req : Request) :
    PagingComplete pg table req ↔ NoTieAtPageBoundary pg table req := by
  have hl := pageLimit_pos req
  have hall : (matching pg table req).filter (below LogRow.time none) = matching pg table req := by
    simp [below]
  have hfuel : ((matching pg table req).filter (below LogRow.time none)).length <
      table.length + 1 := by
    rw [hall]
    exact Nat.lt_succ_of_le (matching_length_le pg table req)
  obtain ⟨ps, hps⟩ := scan_total pg.tsDesc hl _ _ 0 none hfuel
  have hiff := scan_complete_iff pg.tsDesc hl _ _ _ _ hps
  rw [hall] at hiff
  rw [PagingComplete, follow_eq_scan, hps]
  constructor
  · rintro ⟨pages, heq, hperm, -⟩
    cases heq
    exact hiff.1 hperm
  · intro h
    exact ⟨ps, rfl, hiff.2 h, scan_sorted pg.tsDesc hl _ _ _ _ hps⟩

/-- **Following the cursor always ends**, with rows that match, none of them twice, newest first. -/
theorem follow_ends (pg : Postgres) (table : List LogRow) (req : Request) :
    ∃ pages, follow pg table req (table.length + 1) 0 none = some pages ∧
      pages.flatten.Subperm (matching pg table req) ∧ Desc LogRow.time pages.flatten := by
  have hl := pageLimit_pos req
  have hall : (matching pg table req).filter (below LogRow.time none) = matching pg table req := by
    simp [below]
  obtain ⟨pages, hpages⟩ := scan_total pg.tsDesc hl _ _ 0 none
    (hall.symm ▸ Nat.lt_succ_of_le (matching_length_le pg table req))
  refine ⟨pages, (follow_eq_scan ..).trans hpages, ?_, scan_sorted pg.tsDesc hl _ _ _ _ hpages⟩
  exact hall ▸ scan_subperm pg.tsDesc hl _ _ _ _ hpages

def Postgres.stable : Postgres where
  uuidEq a b := a == b
  ilike m s := decide (s.toList <:+: m.toList)
  tsDesc :=
    { order := fun _ l => l.insertionSort fun a b => b.time ≤ a.time
      perm := fun _ l => perm_insertionSort _ l
      desc := fun _ l =>
        have : IsTrans LogRow fun a b => b.time ≤ a.time := ⟨fun _ _ _ h h' => h'.trans h⟩
        have : Std.Total fun a b : LogRow => b.time ≤ a.time := ⟨fun a b => le_total b.time a.time⟩
        pairwise_insertionSort _ l }

def tiedRows : List LogRow :=
  [⟨"a", "dep", "shop", "v1", 7, "info", "first", "{}", 8⟩,
   ⟨"b", "dep", "shop", "v1", 7, "info", "second", "{}", 8⟩]

theorem tied_rows_lost : ¬ PagingComplete Postgres.stable tiedRows { limit := some 1 } := by
  rintro ⟨pages, hrun, hperm, -⟩
  cases hrun
  exact absurd hperm.length_eq (by decide)

end Octo.Logs
