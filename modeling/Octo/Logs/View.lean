import Octo.Logs.Paging

/-!
# The logs view

`useLogStream`: a load replaces the entries shown and the cursor of the older page, a tail poll and
an older page are merged into them.  Only the answer to a load is dropped when a newer load was
sent; the others are applied whatever the filters are by then.

* `view_consistent`: in every run in which a tail or an older page is applied only under the
  filters it was asked with, the view shows what its filters select.
-/

namespace Octo.Logs

open List Postgres

structure FilterValues where
  appName : String := ""
  appVersion : String := ""
  levels : List String := []
  from' : String := ""
  to' : String := ""
  q : String := ""
deriving DecidableEq

section View

variable (pg : Postgres) (toRFC3339 : String → Option Time)

def buildFilters (v : FilterValues) (before : Option Time) (limit : Int) : Request where
  appName := v.appName
  appVersion := v.appVersion
  level := v.levels
  from' := toRFC3339 v.from'
  to' := toRFC3339 v.to'
  q := v.q
  before := before
  limit := some limit

inductive Purpose where
  | load (seq : Nat)
  | tail
  | older
deriving DecidableEq

structure Sent where
  purpose : Purpose
  filters : FilterValues
  before : Option Time := none
deriving DecidableEq

/-- The query of a request: `PAGE_SIZE` rows, or `TAIL_SIZE` for a tail poll. -/
def Sent.query (p : Sent) : Filter :=
  parseFilter (buildFilters toRFC3339 p.filters p.before (if p.purpose = .tail then 100 else 200))

/-- The state of the view, with the filters that the entries were loaded with and those of the
query that returned the cursor. -/
structure View where
  filters : FilterValues
  reqSeq : Nat := 0
  entries : List LogRow := []
  olderCursor : Option Time := none
  sent : List Sent := []
  loaded : Option FilterValues := none
  cursorOf : Option FilterValues := none
deriving DecidableEq

inductive Action where
  | setFilters (v : FilterValues)
  | load
  | poll
  | loadMore
  | respond (i : Nat) (page : ListResponse)
  | fail (i : Nat)

/-- By time, and by id at one time. -/
def byTimeAsc (rows : List LogRow) : List LogRow :=
  rows.insertionSort fun a b => a.time < b.time ∨ a.time = b.time ∧ a.id ≤ b.id

def fresh (shown items : List LogRow) : List LogRow := items.filter fun e => e.id ∉ shown.map LogRow.id

def View.receive (s : View) (p : Sent) (page : ListResponse) : View := match p.purpose with
  | .load seq =>
    if seq ≠ s.reqSeq then s
    else { s with entries := byTimeAsc page.items, olderCursor := page.nextBefore
                  loaded := some p.filters, cursorOf := some p.filters }
  | .tail =>
    if fresh s.entries page.items = [] then s
    else { s with entries := byTimeAsc (s.entries ++ fresh s.entries page.items) }
  | .older =>
    { s with entries := byTimeAsc (fresh s.entries page.items ++ s.entries)
             olderCursor := page.nextBefore, cursorOf := some p.filters }

def View.step (s : View) : Action → View
  | .setFilters v => { s with filters := v }
  | .load => { s with reqSeq := s.reqSeq + 1, sent := ⟨.load (s.reqSeq + 1), s.filters, none⟩ :: s.sent }
  | .poll => { s with sent := ⟨.tail, s.filters, none⟩ :: s.sent }
  | .loadMore =>
    if s.olderCursor = none then s
    else { s with sent := ⟨.older, s.filters, s.olderCursor⟩ :: s.sent }
  | .respond i page =>
    match s.sent[i]? with
    | some p => { s with sent := s.sent.eraseIdx i }.receive p page
    | none => s
  | .fail i => { s with sent := s.sent.eraseIdx i }

def Answered (p : Sent) (page : ListResponse) : Prop := ∃ n table, (table.map LogRow.id).Nodup ∧
    page = list (p.query toRFC3339) (query pg n table (p.query toRFC3339))

/-- The views of the runs whose answers all meet `ok`. -/
inductive Run (ok : View → Sent → Prop) : View → Prop
  | start (v : FilterValues) : Run ok { filters := v }
  | step {s : View} {a : Action} : Run ok s →
      (∀ i page, a = .respond i page → ∀ p, s.sent[i]? = some p →
        Answered pg toRFC3339 p page ∧ ok s p) → Run ok (s.step a)

def Satisfies (v : FilterValues) (r : LogRow) : Prop :=
  (parseFilter (buildFilters toRFC3339 v none 200)).matches pg r = true

/-- Only the answer to a load, or to a request with the filters that the entries were loaded
with. -/
def Current (s : View) (p : Sent) : Prop :=
  p.purpose = .tail ∨ p.purpose = .older → s.loaded = some p.filters

structure View.Ok (s : View) : Prop where
  nodup : (s.entries.map LogRow.id).Nodup
  satisfied : ∀ v, s.loaded = some v → ∀ r ∈ s.entries, Satisfies pg toRFC3339 v r
  cursor : s.cursorOf = s.loaded

variable {pg toRFC3339} {s : View} {p : Sent} {page : ListResponse}

theorem Answered.items (h : Answered pg toRFC3339 p page) :
    (page.items.map LogRow.id).Nodup ∧ ∀ r ∈ page.items, Satisfies pg toRFC3339 p.filters r := by
  obtain ⟨n, table, hnodup, rfl⟩ := h
  have hperm := pg.tsDesc.perm n (table.filter ((p.query toRFC3339).matches pg))
  have hsub := take_sublist (p.query toRFC3339).limit.toNat
    (pg.tsDesc.order n (table.filter ((p.query toRFC3339).matches pg)))
  constructor
  · have hfiltered : ((table.filter ((p.query toRFC3339).matches pg)).map LogRow.id).Nodup :=
      hnodup.sublist (filter_sublist.map _)
    exact ((hperm.map LogRow.id).nodup_iff.2 hfiltered).sublist (hsub.map _)
  · intro r hr
    have hmatch := (mem_filter.1 (hperm.subset (hsub.subset hr))).2
    have hbefore := matches_before pg (buildFilters toRFC3339 p.filters none
      (if p.purpose = .tail then 100 else 200)) p.before r
    exact (Bool.and_eq_true_iff.1 (hbefore.symm.trans hmatch)).2

theorem byTimeAsc_perm (rows : List LogRow) : (byTimeAsc rows).Perm rows := perm_insertionSort _ _

theorem View.Ok.merged (h : s.Ok pg toRFC3339) (ha : Answered pg toRFC3339 p page)
    (hloaded : s.loaded = some p.filters) {rows : List LogRow}
    (hrows : rows.Perm (s.entries ++ fresh s.entries page.items)) : (rows.map LogRow.id).Nodup ∧
      ∀ v, s.loaded = some v → ∀ r ∈ rows, Satisfies pg toRFC3339 v r := by
  obtain ⟨hnodup, hitems⟩ := ha.items
  constructor
  · rw [(hrows.map LogRow.id).nodup_iff, map_append, nodup_append]
    refine ⟨h.nodup, hnodup.sublist (filter_sublist.map _), ?_⟩
    rintro a ha b hb rfl
    obtain ⟨e, he, rfl⟩ := mem_map.1 hb
    exact of_decide_eq_true (mem_filter.1 he).2 ha
  · intro v hv r hr
    obtain hr | hr := mem_append.1 (hrows.subset hr)
    · exact h.satisfied v hv r hr
    · cases hloaded.symm.trans hv
      exact hitems r (mem_filter.1 hr).1

theorem View.Ok.receive (h : s.Ok pg toRFC3339) (ha : Answered pg toRFC3339 p page)
    (hp : Current s p) : (s.receive p page).Ok pg toRFC3339 := by
  unfold View.receive
  split
  case h_1 =>
    split
    · exact h
    · obtain ⟨hnodup, hitems⟩ := ha.items
      have hperm := byTimeAsc_perm page.items
      refine ⟨(hperm.map LogRow.id).nodup_iff.2 hnodup, fun v hv r hr => ?_, rfl⟩
      cases hv
      exact hitems r (hperm.subset hr)
  case h_2 hpurpose =>
    split
    · exact h
    · obtain ⟨hnodup, hsat⟩ := h.merged ha (hp (.inl hpurpose)) (byTimeAsc_perm _)
      exact ⟨hnodup, hsat, h.cursor⟩
  case h_3 hpurpose =>
    have hloaded := hp (.inr hpurpose)
    obtain ⟨hnodup, hsat⟩ := h.merged ha hloaded ((byTimeAsc_perm _).trans perm_append_comm)
    exact ⟨hnodup, hsat, hloaded.symm⟩

theorem Run.ok (h : Run pg toRFC3339 Current s) : s.Ok pg toRFC3339 := by
  induction h with
  | start => exact ⟨nodup_nil, fun _ h => (by cases h), rfl⟩
  | @step s a _ ha ih =>
    cases a with
    | respond i page =>
      rw [View.step]
      split
      next p hp =>
        obtain ⟨hanswer, hcurrent⟩ := ha i page rfl p hp
        exact View.Ok.receive ⟨ih.nodup, ih.satisfied, ih.cursor⟩ hanswer hcurrent
      · exact ih
    | loadMore =>
      rw [View.step]
      split
      · exact ih
      · exact ⟨ih.nodup, ih.satisfied, ih.cursor⟩
    | _ => exact ⟨ih.nodup, ih.satisfied, ih.cursor⟩

end View

/-- **The view shows what its filters select**, in every run in which a tail or an older page is
applied only under the filters it was asked with: once the load for the current filters was
applied, every entry satisfies them, none is shown twice, and the cursor is from a query with
them. -/
theorem view_consistent (pg : Postgres) (toRFC3339 : String → Option Time) (s : View)
    (hrun : Run pg toRFC3339 Current s) (hloaded : s.loaded = some s.filters) :
    (∀ r ∈ s.entries, Satisfies pg toRFC3339 s.filters r) ∧ (s.entries.map LogRow.id).Nodup ∧
      s.cursorOf = some s.filters :=
  ⟨hrun.ok.satisfied _ hloaded, hrun.ok.nodup, hrun.ok.cursor.trans hloaded⟩

def appRow (app : String) : LogRow := ⟨app, "dep", app, "v1", 7, "info", "up", "", 8⟩

def appPage (app : String) : ListResponse := ⟨[appRow app], none⟩

def appView (app : String) (reqSeq : Nat) (sent : List Sent) : View where
  filters := { appName := app }
  reqSeq := reqSeq
  entries := [appRow app]
  sent := sent
  loaded := some { appName := app }
  cursorOf := some { appName := app }

theorem appRun (ok : View → Sent → Prop) (hok : ∀ s p, p.purpose = .load 1 → ok s p) :
    Run stable (fun _ => none) ok (appView "shop" 1 []) := by
  have hload : Run stable (fun _ => none) ok
      (View.step { filters := { appName := "shop" } } .load) := (Run.start _).step nofun
  refine hload.step (a := .respond 0 (appPage "shop")) ?_
  rintro _ _ ⟨⟩ p ⟨⟩
  exact ⟨⟨0, [appRow "shop"], by decide, by decide +kernel⟩, hok _ _ rfl⟩

def laterRow : LogRow := { appRow "shop" with id := "later", time := 9 }

/-- A tail poll has added a row to the ones that were loaded. -/
theorem tailed_view_consistent : ∃ s, Run Postgres.stable (fun _ => none) Current s ∧
    s.entries = [appRow "shop", laterRow] ∧
      ∀ r ∈ s.entries, Satisfies Postgres.stable (fun _ => none) s.filters r := by
  have hpoll : Run stable (fun _ => none) Current ((appView "shop" 1 []).step .poll) :=
    (appRun Current fun s p hp h => by simp [hp] at h).step nofun
  have hrun := hpoll.step (a := .respond 0 ⟨[laterRow, appRow "shop"], none⟩) (by
    rintro _ _ ⟨⟩ p ⟨⟩
    exact ⟨⟨0, [appRow "shop", laterRow], by decide, by decide +kernel⟩, fun _ => rfl⟩)
  exact ⟨_, hrun, by decide +kernel, (view_consistent stable (fun _ => none) _ hrun rfl).1⟩

theorem stale_tail_mixes :
    ∃ s, Run Postgres.stable (fun _ => none) (fun _ _ => True) s ∧ s.loaded = some s.filters ∧
      appRow "shop" ∈ s.entries ∧
      ¬ Satisfies Postgres.stable (fun _ => none) s.filters (appRow "shop") := by
  have hload : Run stable (fun _ => none) (fun _ _ => True) (((((appView "shop" 1 []).step
      .poll).step (.setFilters { appName := "api" })).step .load).step
        (.respond 0 (appPage "api"))) := by
    refine ((((appRun _ fun _ _ _ => trivial).step (a := .poll) nofun).step (a := .setFilters _)
      nofun).step (a := .load) nofun).step ?_
    rintro _ _ ⟨⟩ p ⟨⟩
    exact ⟨⟨0, [appRow "api"], by decide, by decide +kernel⟩, trivial⟩
  refine ⟨_, hload.step (a := .respond 0 (appPage "shop")) ?_, ?_⟩
  · rintro _ _ ⟨⟩ p ⟨⟩
    exact ⟨⟨0, [appRow "shop"], by decide, by decide +kernel⟩, trivial⟩
  · unfold Satisfies
    decide +kernel

end Octo.Logs
