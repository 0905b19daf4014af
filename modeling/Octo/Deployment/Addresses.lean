import Octo.Deployment.Requests
import Octo.Foundation.Trace

/-!
# Who owns an internal address

When no request is in progress, the slugs of the stored deployments should be distinct and each
Service `octo-int-{slug}` should select the deployment that has the slug.  The slug is checked
against the rows only, a Service that exists counts as created, and Services are deleted by slug,
so this rests on the order in which the calls of different requests are answered.

* `addresses_kept` — runs whose steps are all careful keep the addresses.
* `stale_service_captures_address` — an undeploy that fails to delete its Service, then a deploy
  under the same slug.
-/

namespace Octo.Deployment

open List Option Stores
open Function (exists_update_iff forall_update_iff update_of_ne update_self)
open Octo.Foundation (Along along_induction forall_view)

/-! ## What is claimed -/

def World.Quiescent (w : World) : Prop := ∀ r, w.phase r = .idle

/-- The slugs of the stored deployments with a port are distinct, and the Service of each selects
it. -/
def World.Addressed (w : World) : Prop :=
  (∀ row ∈ w.stores.rows, ∀ row' ∈ w.stores.rows, row.slug = row'.slug → row.slug ≠ "" →
    row = row') ∧
  ∀ row ∈ w.stores.rows, row.slug ≠ "" → w.stores.service row.slug = some row.id

/-! ## What requests still hold -/

def Phase.holds : Phase → Option (Nat × String)
  | .apply id slug _ _ => some (id, slug)
  | .undoResources id slug => some (id, slug)
  | .undoService id slug => some (id, slug)
  | .undoRow id slug => some (id, slug)
  | .removeResources id slug => some (id, slug)
  | .removeRow id slug => some (id, slug)
  | .removeService id slug => some (id, slug)
  | _ => none

/-- A request that will still create the Service of a deployment, or remove its row. -/
def Phase.Owes (id : Nat) (slug : String) : Phase → Prop
  | .apply i s next rest => i = id ∧ s = slug ∧ .internalService ∈ next :: rest
  | .undoResources i s => i = id ∧ s = slug
  | .undoService i s => i = id ∧ s = slug
  | .undoRow i s => i = id ∧ s = slug
  | _ => False

/-- A row is inserted under a slug that no row has, that no Service is left under and that no other
request holds; and the row of a rollback is deleted. -/
def Careful (w : World) : Action → Prop
  | .begin _ _ => True
  | .call r ok =>
    match w.phase r with
    | .insert slug _ => ok = true → slug ≠ "" → (∀ row ∈ w.stores.rows, row.slug ≠ slug) ∧
        w.stores.service slug = none ∧ ∀ r' id, (w.phase r').holds ≠ some (id, slug)
    | .undoRow id slug => slug ≠ "" → (w.stores.get id).isSome → ok = true
    | _ => True

/-! ## The invariant -/

/-- A request fits the stores: what it holds was minted and is the row of its slug, if there is one,
and a row whose Service it removes is gone. -/
structure Phase.Fits (stores : Stores) (p : Phase) : Prop where
  minted : ∀ id slug, p.holds = some (id, slug) → id < stores.minted
  holds : ∀ row ∈ stores.rows, row.slug ≠ "" → ∀ id, p.holds = some (id, row.slug) → id = row.id
  gone : ∀ id slug, p = .removeService id slug → ∀ row ∈ stores.rows, row.id ≠ id

structure Inv (w : World) : Prop where
  minted : ∀ row ∈ w.stores.rows, row.id < w.stores.minted
  slugs : ∀ row ∈ w.stores.rows, ∀ row' ∈ w.stores.rows, row.slug = row'.slug → row.slug ≠ "" →
    row = row'
  phases : ∀ r, (w.phase r).Fits w.stores
  service : ∀ row ∈ w.stores.rows, row.slug ≠ "" → w.stores.service row.slug = some row.id ∨
    w.stores.service row.slug = none ∧ ∃ r, (w.phase r).Owes row.id row.slug

theorem Inv.init : Inv {} where
  minted := nofun
  slugs := nofun
  phases _ := ⟨nofun, nofun, nofun⟩
  service := nofun

theorem Inv.addressed {w : World} (h : Inv w) (hq : w.Quiescent) : w.Addressed := by
  refine ⟨h.slugs, fun row hrow hne => ?_⟩
  rcases h.service row hrow hne with hs | ⟨-, r, howes⟩
  · exact hs
  · rw [hq r] at howes
    exact howes.elim

section Step

variable {p q : Phase} {slug : String} {stores : Stores} {id : Nat}

theorem Phase.holds_of_owes (h : p.Owes id slug) : p.holds = some (id, slug) := by
  cases p <;> simp_all [Phase.Owes, Phase.holds]

/-- With no row added, a phase that holds what a fitting one holds, or nothing, fits. -/
theorem Phase.Fits.next {s : Stores} (h : q.Fits s) (hrows : ∀ row ∈ stores.rows, row ∈ s.rows)
    (hminted : stores.minted = s.minted) (hholds : p.holds = none ∨ p.holds = q.holds)
    (hgone : ∀ id slug, p = .removeService id slug → ∀ row ∈ stores.rows, row.id ≠ id) :
    p.Fits stores := by
  have hheld : ∀ x, p.holds = some x → q.holds = some x := by
    rintro x hx
    rcases hholds with hnone | heq
    · cases hnone.symm.trans hx
    · exact heq.symm.trans hx
  refine ⟨fun id slug hx => ?_, fun row hrow hne id hx => ?_, hgone⟩
  · rw [hminted]
    exact h.minted id slug (hheld _ hx)
  · exact h.holds row (hrows row hrow) hne id (hheld _ hx)

variable {w : World} {r : Nat} {row : Row} (h : Inv w)
include h

theorem Inv.update (hrows : ∀ row ∈ stores.rows, row ∈ w.stores.rows)
    (hminted : stores.minted = w.stores.minted)
    (hholds : p.holds = none ∨ p.holds = (w.phase r).holds)
    (hgone : ∀ id slug, p = .removeService id slug → ∀ row ∈ stores.rows, row.id ≠ id)
    (hservice : ∀ row ∈ stores.rows, row.slug ≠ "" → stores.service row.slug = some row.id ∨
      stores.service row.slug = none ∧ ∃ r', (Function.update w.phase r p r').Owes row.id row.slug) :
    Inv ⟨stores, Function.update w.phase r p⟩ := by
  refine ⟨fun row hrow => ?_, fun row hrow row' hrow' => ?_,
    (forall_update_iff w.phase _).2 ⟨?_, fun r' _ => ?_⟩, hservice⟩
  · rw [hminted]
    exact h.minted row (hrows row hrow)
  · exact h.slugs row (hrows row hrow) row' (hrows row' hrow')
  · exact (h.phases r).next hrows hminted hholds hgone
  · exact (h.phases r').next hrows hminted (.inr rfl) fun id slug hphase row hrow =>
      (h.phases r').gone id slug hphase row (hrows row hrow)

theorem Inv.service_kept (hrow : row ∈ w.stores.rows) (hne : row.slug ≠ "")
    (hsame : stores.service row.slug = w.stores.service row.slug)
    (howes : (w.phase r).Owes row.id row.slug → p.Owes row.id row.slug) :
    stores.service row.slug = some row.id ∨ stores.service row.slug = none ∧
      ∃ r', (Function.update w.phase r p r').Owes row.id row.slug := by
  rcases h.service row hrow hne with hs | ⟨hs, r', hr'⟩
  · exact .inl (hsame.trans hs)
  · refine .inr ⟨hsame.trans hs, ?_⟩
    rw [exists_update_iff w.phase fun _ p => p.Owes row.id row.slug]
    by_cases hr : r' = r
    · exact .inl (howes (hr ▸ hr'))
    · exact .inr ⟨r', hr, hr'⟩

variable (hphase : w.phase r = q)
include hphase

theorem Inv.move (hholds : p.holds = none ∨ p.holds = q.holds)
    (hgone : ∀ id slug, p ≠ .removeService id slug)
    (howes : ∀ id slug, slug ≠ "" → q.Owes id slug → p.Owes id slug) :
    Inv ⟨w.stores, Function.update w.phase r p⟩ := by
  subst hphase
  exact h.update (fun _ hrow => hrow) rfl hholds (fun id slug hp => absurd hp (hgone id slug))
    fun _ hrow hne => h.service_kept hrow hne rfl (howes _ _ hne)

theorem Inv.free (hold : p.holds = none) (howes : ∀ id slug, ¬q.Owes id slug) :
    Inv ⟨w.stores, Function.update w.phase r p⟩ := by
  refine h.move hphase (.inl hold) ?_ fun id slug _ hr => absurd hr (howes id slug)
  rintro id slug rfl
  cases hold

theorem Inv.create {external : Bool}
    (hcareful : slug ≠ "" → (∀ row ∈ w.stores.rows, row.slug ≠ slug) ∧
      w.stores.service slug = none ∧ ∀ r' id, (w.phase r').holds ≠ some (id, slug))
    (hnone : q.holds = none) : Inv ⟨w.stores.create slug, Function.update w.phase r
      (proceed w.stores.minted slug (resources slug external))⟩ := by
  refine ⟨forall_mem_cons.2 ⟨Nat.lt_succ_self _, fun row hrow => ?_⟩, ?_,
    (forall_update_iff w.phase _).2 ⟨⟨?_, ?_, nofun⟩, fun r' _ => ⟨fun id s hx => ?_, ?_, ?_⟩⟩, ?_⟩
  · exact Nat.lt_succ_of_lt (h.minted row hrow)
  · intro row hrow row' hrow' hslug hne
    rcases mem_cons.1 hrow with rfl | hrow <;> rcases mem_cons.1 hrow' with rfl | hrow'
    · rfl
    · exact absurd hslug.symm ((hcareful hne).1 row' hrow')
    · exact absurd hslug ((hcareful fun he => hne (hslug.trans he)).1 row hrow)
    · exact h.slugs row hrow row' hrow' hslug hne
  · rintro id s ⟨⟩
    exact Nat.lt_succ_self _
  · intro row hrow hne id hx
    obtain ⟨rfl, hslug⟩ := Prod.mk.inj (some.inj hx)
    rcases mem_cons.1 hrow with rfl | hrow
    · rfl
    · exact absurd hslug.symm ((hcareful (hslug ▸ hne)).1 row hrow)
  · exact Nat.lt_succ_of_lt ((h.phases r').minted id s hx)
  · intro row hrow hne id hx
    rcases mem_cons.1 hrow with rfl | hrow
    · exact absurd hx ((hcareful hne).2.2 r' id)
    · exact (h.phases r').holds row hrow hne id hx
  · intro id s hphase' row hrow
    rcases mem_cons.1 hrow with rfl | hrow
    · exact ((h.phases r').minted id s (by rw [hphase']; rfl)).ne'
    · exact (h.phases r').gone id s hphase' row hrow
  · intro row hrow hne
    rcases mem_cons.1 hrow with rfl | hrow
    · refine .inr ⟨(hcareful hne).2.1, r, ?_⟩
      dsimp only at hne ⊢
      rw [update_self]
      simp [resources, hne, proceed, Phase.Owes]
    · refine h.service_kept hrow hne rfl fun hr => ?_
      rw [hphase] at hr
      cases (Phase.holds_of_owes hr).symm.trans hnone

theorem Inv.read (hrow : row ∈ w.stores.rows) (howes : ∀ id slug, ¬q.Owes id slug) :
    Inv ⟨w.stores, Function.update w.phase r (.removeResources row.id row.slug)⟩ := by
  refine ⟨h.minted, h.slugs,
    (forall_update_iff w.phase _).2 ⟨⟨?_, ?_, nofun⟩, fun r' _ => h.phases r'⟩, ?_⟩
  · rintro id s ⟨⟩
    exact h.minted row hrow
  · intro row' hrow' hne id hx
    obtain ⟨rfl, hslug⟩ := Prod.mk.inj (some.inj hx)
    rw [h.slugs row' hrow' row hrow hslug.symm hne]
  · intro row' hrow' hne
    refine h.service_kept hrow' hne rfl fun hr => absurd (hphase ▸ hr) (howes _ _)

omit hphase in
theorem Inv.ensure {rest : List Resource}
    (hphase : w.phase r = .apply id slug .internalService rest) :
    Inv ⟨w.stores.ensureInternalService slug id, Function.update w.phase r (proceed id slug rest)⟩ := by
  have hrows : (w.stores.ensureInternalService slug id).rows = w.stores.rows ∧
      (w.stores.ensureInternalService slug id).minted = w.stores.minted := by
    unfold ensureInternalService
    split
    · exact ⟨rfl, rfl⟩
    · split <;> exact ⟨rfl, rfl⟩
  refine h.update (fun row hrow => hrows.1 ▸ hrow) hrows.2 ?_ ?_ ?_
  · rw [hphase]
    cases rest <;> simp [proceed, Phase.holds]
  · cases rest <;> simp [proceed]
  · intro row hrow hne
    rw [hrows.1] at hrow
    by_cases hslug : row.slug = slug
    · -- the row is the one of this request
      subst hslug
      have hid := (h.phases r).holds row hrow hne id (by rw [hphase]; rfl)
      left
      unfold ensureInternalService
      rw [if_neg hne]
      rcases h.service row hrow hne with hs | ⟨hs, -⟩
      · rw [hs]
        exact hs
      · rw [hs]
        simp [hid]
    · refine h.service_kept hrow hne ?_ fun howes => ?_
      · unfold ensureInternalService
        split
        · rfl
        · split
          · rfl
          · exact update_of_ne hslug _ _
      · rw [hphase] at howes
        exact absurd howes.2.1.symm hslug

variable (hold : q.holds = some (id, slug)) (hholds : p.holds = none ∨ p.holds = q.holds)
include hold hholds

theorem Inv.deleteService (hp : ∀ i s, p ≠ .removeService i s)
    (howes : p.Owes id slug ∨ ∀ row ∈ w.stores.rows, row.id ≠ id) :
    Inv ⟨w.stores.deleteInternalService slug, Function.update w.phase r p⟩ := by
  subst hphase
  have hrows : (w.stores.deleteInternalService slug).rows = w.stores.rows ∧
      (w.stores.deleteInternalService slug).minted = w.stores.minted := by
    unfold deleteInternalService
    split <;> exact ⟨rfl, rfl⟩
  refine h.update (fun row hrow => hrows.1 ▸ hrow) hrows.2 hholds
    (fun i s hi => absurd hi (hp i s)) ?_
  intro row hrow hne
  rw [hrows.1] at hrow
  by_cases hslug : row.slug = slug
  · subst hslug
    have hid := (h.phases r).holds row hrow hne id hold
    rcases howes with howes | hgone
    · refine .inr ⟨by simp [deleteInternalService, hne], r, ?_⟩
      rw [update_self, ← hid]
      exact howes
    · exact absurd hid.symm (hgone row hrow)
  · refine h.service_kept hrow hne ?_ fun hr => ?_
    · unfold deleteInternalService
      split
      · rfl
      · exact update_of_ne hslug _ _
    · have := (Phase.holds_of_owes hr).symm.trans hold
      exact absurd (Prod.mk.inj (some.inj this)).2 hslug

theorem Inv.deleteRow (hp : ∀ i s, p = .removeService i s → i = id) :
    Inv ⟨w.stores.delete id, Function.update w.phase r p⟩ := by
  subst hphase
  have hmem : ∀ row ∈ (w.stores.delete id).rows, row ∈ w.stores.rows ∧ row.id ≠ id := by
    intro row hrow
    simpa [delete] using hrow
  refine h.update (fun row hrow => (hmem row hrow).1) rfl hholds ?_ ?_
  · intro i s hi row hrow
    rw [hp i s hi]
    exact (hmem row hrow).2
  · intro row hrow hne
    refine h.service_kept (hmem row hrow).1 hne rfl fun hr => ?_
    have := (Phase.holds_of_owes hr).symm.trans hold
    exact absurd (Prod.mk.inj (some.inj this)).1 (hmem row hrow).2

omit hphase hold hholds

theorem Inv.begin (toLower : String → String) (request : Request) (hidle : w.phase r = .idle) :
    Inv ⟨w.stores, Function.update w.phase r (request.start toLower)⟩ := by
  refine h.free hidle ?_ fun _ _ => False.elim
  cases request with
  | undeploy => rfl
  | deploy networked external chosen name =>
    cases networked with
    | false => rfl
    | true =>
      simp only [Request.start]
      cases candidates toLower chosen name <;> rfl

/-- **The next call of a request keeps the invariant**, whether it succeeds or fails. -/
theorem Inv.call {ok : Bool} (hcareful : Careful w (.call r ok)) :
    Inv ⟨(advance w.stores ok (w.phase r)).1,
      Function.update w.phase r (advance w.stores ok (w.phase r)).2⟩ := by
  simp only [Careful] at hcareful
  cases hphase : w.phase r with
  | idle => exact h.free hphase rfl fun _ _ => False.elim
  | lookup slug rest external =>
    refine h.free hphase ?_ fun _ _ => False.elim
    simp only [advance]
    cases ok <;> cases w.stores.taken slug <;> cases external <;> cases rest <;> rfl
  | subdomain =>
    refine h.free hphase ?_ fun _ _ => False.elim
    cases ok <;> rfl
  | insert =>
    rw [hphase] at hcareful
    cases ok with
    | false => exact h.free hphase rfl fun _ _ => False.elim
    | true => exact h.create hphase (hcareful rfl) rfl
  | apply id slug next rest =>
    cases ok with
    | false =>
      refine h.move hphase (.inr rfl) nofun ?_
      rintro i s - ⟨rfl, rfl, -⟩
      exact ⟨rfl, rfl⟩
    | true =>
      by_cases hnext : next = .internalService
      · subst hnext
        exact h.ensure hphase
      · simp only [advance, if_neg hnext]
        refine h.move hphase (by cases rest <;> simp [proceed, Phase.holds])
          (by cases rest <;> simp [proceed]) ?_
        -- the Service is still to come
        rintro i s - ⟨rfl, rfl, hmem⟩
        have hrest := (mem_cons.1 hmem).resolve_left (Ne.symm hnext)
        cases rest with
        | nil => cases hrest
        | cons => exact ⟨rfl, rfl, hrest⟩
  | undoResources =>
    simp only [advance]
    refine h.move hphase (by split <;> exact .inr rfl) (by split <;> simp) ?_
    rintro i s hne ⟨rfl, rfl⟩
    rw [if_neg hne]
    exact ⟨rfl, rfl⟩
  | undoService =>
    cases ok with
    | false => exact h.move hphase (.inr rfl) nofun fun _ _ _ howes => howes
    | true => exact h.deleteService hphase rfl (.inr rfl) nofun (.inl ⟨rfl, rfl⟩)
  | undoRow id slug =>
    rw [hphase] at hcareful
    cases ok with
    | true => exact h.deleteRow hphase rfl (.inl rfl) nofun
    | false =>
      -- the row is gone already, or nothing is owed
      refine h.update (fun _ hrow => hrow) rfl (.inl rfl) nofun fun row hrow hne => ?_
      refine h.service_kept hrow hne rfl fun howes => ?_
      rw [hphase] at howes
      obtain ⟨rfl, rfl⟩ := howes
      have hstored : (w.stores.get row.id).isSome := find?_isSome.2 ⟨row, hrow, by simp⟩
      exact absurd (hcareful hne hstored) Bool.false_ne_true
  | read id =>
    simp only [advance]
    split
    next row hget =>
      cases ok with
      | false => cases hget
      | true =>
        obtain rfl : row.id = id := by simpa using find?_some hget
        exact h.read hphase (mem_of_find?_eq_some hget) fun _ _ => False.elim
    · exact h.free hphase rfl fun _ _ => False.elim
  | removeResources =>
    cases ok with
    | false => exact h.free hphase rfl fun _ _ => False.elim
    | true => exact h.move hphase (.inr rfl) nofun fun _ _ _ => False.elim
  | removeRow id slug =>
    simp only [advance]
    split
    · by_cases hne : slug = ""
      · rw [if_pos hne]
        exact h.deleteRow hphase rfl (.inl rfl) nofun
      · rw [if_neg hne]
        refine h.deleteRow hphase rfl (.inr rfl) ?_
        rintro i s ⟨⟩
        rfl
    · exact h.free hphase rfl fun _ _ => False.elim
  | removeService id slug =>
    cases ok with
    | false => exact h.free hphase rfl fun _ _ => False.elim
    | true =>
      exact h.deleteService hphase rfl (.inl rfl) nofun (.inr ((h.phases r).gone id slug hphase))

end Step

/-! ## Runs -/

/-- **Careful runs keep the addresses**: once no request is in progress, the slugs of the stored
deployments are distinct and every internal Service selects the deployment of its slug. -/
theorem addresses_kept (toLower : String → String) {actions : List Action}
    (h : Along (step toLower) Careful {} actions) (hq : (after toLower actions).Quiescent) :
    (after toLower actions).Addressed := by
  refine (along_induction ?_ Inv.init h).addressed hq
  intro w a hinv hcareful
  cases a with
  | begin r request =>
    by_cases hidle : w.phase r = .idle
    · rw [step, if_pos hidle]
      exact hinv.begin toLower request hidle
    · rw [step, if_neg hidle]
      exact hinv
  | call => exact hinv.call hcareful

def Action.request : Action → Nat
  | .begin r _ => r
  | .call r _ => r

theorem forall_phase {toLower : String → String} {actions : List Action} {P : Phase → Prop}
    (hidle : P .idle) (h : ∀ a ∈ actions, P ((after toLower actions).phase a.request)) (r : Nat) :
    P ((after toLower actions).phase r) := by
  refine forall_view World.phase (fun a => some a.request) ?_ (fun _ => hidle)
    (fun a ha i hi => ?_) r
  · intro w a i hi
    have hr : i ≠ a.request := fun he => hi (congrArg some he.symm)
    cases a with
    | begin =>
      simp only [step]
      split
      · exact update_of_ne hr _ _
      · rfl
    | call => exact update_of_ne hr _ _
  · cases hi
    exact h a ha

/-- A deploy under the slug `api`, made by request `r`: the lookup, the insert and the four
resources of a deployment with a port. -/
def deployApi (r : Nat) : List Action :=
  .begin r (.deploy true false "api" "") :: List.replicate 6 (.call r true)

/-- An undeploy of the first deployment, made by request `r`; `ok` is whether the Service can be
deleted. -/
def undeployFirst (r : Nat) (ok : Bool) : List Action :=
  .begin r (.undeploy 0) :: List.replicate 3 (.call r true) ++ [.call r ok]

/-- **A Service that was left behind captures the address**: the undeploy cannot delete its Service,
which is only logged, and the next deployment gets the same slug. -/
theorem stale_service_captures_address :
    let w := after id (deployApi 0 ++ undeployFirst 1 false ++ deployApi 2)
    w.Quiescent ∧ w.stores.rows = [⟨1, "api"⟩] ∧ w.stores.service "api" = some 0 ∧
      ¬w.Addressed := by
  have hrows : (after id (deployApi 0 ++ undeployFirst 1 false ++ deployApi 2)).stores.rows =
      [⟨1, "api"⟩] := by decide
  have hservice : (after id (deployApi 0 ++ undeployFirst 1 false ++ deployApi 2)).stores.service
      "api" = some 0 := by decide
  refine ⟨forall_phase (P := (· = .idle)) rfl (by decide), hrows, hservice, fun h => ?_⟩
  have := h.2 ⟨1, "api"⟩ (by exact mem_singleton.2 rfl) (by decide)
  cases this

theorem addresses_kept_redeploy :
    let w := after id (deployApi 0 ++ undeployFirst 1 true ++ deployApi 2)
    w.stores.rows = [⟨1, "api"⟩] ∧ w.Addressed := by
  refine ⟨by decide, addresses_kept id ?_ (forall_phase (P := (· = .idle)) rfl (by decide))⟩
  -- only the two inserts have something to meet
  have hfirst : ∀ r, ((after id ((deployApi 0).take 2)).phase r).holds = none :=
    forall_phase (P := fun p => p.holds = none) rfl (by decide)
  have hsecond : ∀ r, ((after id (deployApi 0 ++ undeployFirst 1 true ++
      (deployApi 2).take 2)).phase r).holds = none :=
    forall_phase (P := fun p => p.holds = none) rfl (by decide)
  refine ⟨trivial, trivial, ?_, trivial, trivial, trivial, trivial, trivial, trivial, trivial,
    trivial, trivial, trivial, trivial, ?_, trivial, trivial, trivial, trivial, trivial⟩
  · refine fun _ _ => ⟨by decide, by decide, fun r id h => ?_⟩
    cases (hfirst r).symm.trans h
  · refine fun _ _ => ⟨by decide, by decide, fun r id h => ?_⟩
    cases (hsecond r).symm.trans h

end Octo.Deployment
