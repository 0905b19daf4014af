import Octo.Foundation.Program
import Octo.Foundation.Trace
import Mathlib.Data.List.Perm.Subperm
import Mathlib.Logic.Function.Basic

/-!
# Requests that interleave

Any number of requests run over one store.  A call is atomic; between two calls of a request any calls
of others may be made.  A request begins with its first call.

Two ways in which such a run stays as good as one without interleaving:

* `serves_of_careful` — **serial runs**: when a request writes only while nothing it may have read
  has changed and no other request is in the middle of its writes, the run amounts to the requests
  one after another, in the order in which they began.
* `grounded_step` — **check, then act**: when a request acts only on facts it has checked, and
  no call destroys a fact that a request in progress has checked, every action rests on what holds.
-/

namespace Octo.Foundation.Interleave

open List Function Program

/-! ## Worlds -/

/-- A request that has begun: what is left of it, its calls with their answers, and whether another
request has written since it began. -/
structure Task (R Op : Type) (Answer : Op → Type) (ε α : Type) where
  request : R
  rest : Program Op Answer ε α
  calls : List (Sigma Answer)
  stale : Bool

/-- The store and the requests, with the order in which they began. -/
structure World (σ R Op : Type) (Answer : Op → Type) (ε α : Type) where
  store : σ
  task : Nat → Option (Task R Op Answer ε α)
  order : List Nat

/-- A request arrives and makes its first call, or makes its next one. -/
inductive Event (R : Type) where
  | begin (r : Nat) (request : R)
  | call (r : Nat)

open World

section

variable {σ R Op : Type} {Answer : Op → Type} {ε α : Type}
variable (handle : (op : Op) → σ → Answer op × σ) (writes : Op → Bool)
variable (program : R → Program Op Answer ε α)

def World.init (s : σ) : World σ R Op Answer ε α := ⟨s, fun _ => none, []⟩

variable (w : World σ R Op Answer ε α)

def World.enrol (r : Nat) (request : R) : World σ R Op Answer ε α :=
  { w with
    task := update w.task r (some ⟨request, program request, [], false⟩)
    order := w.order ++ [r] }

variable (t : Task R Op Answer ε α)

def Task.after (op : Op) : Task R Op Answer ε α :=
  { t with stale := t.stale || writes op }

def World.call (r : Nat) : World σ R Op Answer ε α :=
  match w.task r with
  | some ⟨request, .call op next, calls, stale⟩ =>
    { w with
      store := (handle op w.store).2
      task := fun i =>
        if i = r then
          some ⟨request, next (handle op w.store).1, ⟨op, (handle op w.store).1⟩ :: calls, stale⟩
        else (w.task i).map (Task.after writes · op) }
  | _ => w

def World.step : Event R → World σ R Op Answer ε α
  | .begin r request =>
    match w.task r with
    | some _ => w
    | none => (w.enrol program r request).call handle writes r
  | .call r => w.call handle writes r

def Task.Active : Prop := ∃ op next, t.rest = .call op next

def Task.Wrote : Prop := ∃ c ∈ t.calls, writes c.1

def World.Quiescent : Prop := ∀ r t, w.task r = some t → ¬t.Active

def World.Successful : Prop :=
  ∀ r t e, w.task r = some t → t.rest ≠ .fail e

def World.requests : List R :=
  w.order.filterMap fun r => (w.task r).map Task.request

def OnCall (C : World σ R Op Answer ε α → Nat → Prop) (w : World σ R Op Answer ε α) : Event R → Prop
  | .begin r request => w.task r = none → C (w.enrol program r request) r
  | .call r => C w r

/-! ## What a call changes -/

section

variable {handle writes program} {w : World σ R Op Answer ε α} {r : Nat} {t : Task R Op Answer ε α}
  {op : Op} {next : Answer op → Program Op Answer ε α}

def Task.made (op : Op) (a : Answer op)
    (rest : Program Op Answer ε α) : Task R Op Answer ε α :=
  { t with rest := rest, calls := ⟨op, a⟩ :: t.calls }

theorem call_eq (ht : w.task r = some t) (hrest : t.rest = .call op next) : w.call handle writes r =
      { w with
        store := (handle op w.store).2
        task := fun i =>
          if i = r then some (t.made op (handle op w.store).1 (next (handle op w.store).1))
          else (w.task i).map (Task.after writes · op) } := by
  obtain ⟨request, rest, calls, stale⟩ := t
  cases hrest
  unfold World.call
  rw [ht]
  rfl

theorem step_begin_of_none (h : w.task r = none) (q : R) :
    w.step handle writes program (.begin r q) = (w.enrol program r q).call handle writes r := by
  simp [step, h]

theorem step_begin_of_some (h : w.task r = some t) (q : R) :
    w.step handle writes program (.begin r q) = w := by
  simp [step, h]

theorem call_of_not_active (h : ∀ t, w.task r = some t → ¬t.Active) :
    w.call handle writes r = w := by
  unfold World.call
  split
  next request op next calls stale ht =>
    exact absurd ⟨op, next, rfl⟩ (h _ ht)
  · rfl

/-- **An invariant of joining and of the calls that meet a condition** is one of the events. -/
theorem step_of_call {C : World σ R Op Answer ε α → Nat → Prop} {Q : World σ R Op Answer ε α → Prop}
    (w : World σ R Op Answer ε α) (e : Event R)
    (henrol : ∀ r q, e = .begin r q → w.task r = none → Q w → Q (w.enrol program r q))
    (hcall : ∀ w r, Q w → C w r → Q (w.call handle writes r)) (hq : Q w)
    (he : OnCall program C w e) : Q (w.step handle writes program e) := by
  cases e with
  | begin r q =>
    cases hr : w.task r with
    | some => rwa [step_begin_of_some hr]
    | none =>
      rw [step_begin_of_none hr]
      exact hcall _ r (henrol r q rfl hr hq) (he hr)
  | call r => exact hcall w r hq he

theorem quiescent_and_successful_of_done
    (h : ∀ r t, w.task r = some t → ∃ a, t.rest = .done a) : w.Quiescent ∧ w.Successful := by
  constructor
  · rintro r t ht ⟨op, next, hrest⟩
    obtain ⟨a, ha⟩ := h r t ht
    cases ha.symm.trans hrest
  · intro r t e ht hrest
    obtain ⟨a, ha⟩ := h r t ht
    cases ha.symm.trans hrest

variable {u : Task R Op Answer ε α}

theorem task_call {i : Nat}
    (hu : (if i = r then some (t.made op (handle op w.store).1 (next (handle op w.store).1))
      else (w.task i).map (Task.after writes · op)) = some u) :
    (i = r ∧ u = t.made op (handle op w.store).1 (next (handle op w.store).1)) ∨
      i ≠ r ∧ ∃ v, w.task i = some v ∧ u = v.after writes op := by
  split at hu
  next hi =>
    exact .inl ⟨hi, (Option.some.inj hu).symm⟩
  next hi =>
    obtain ⟨v, hv, rfl⟩ := Option.map_eq_some_iff.1 hu
    exact .inr ⟨hi, v, hv, rfl⟩

theorem task_enrol {q : R} {i : Nat}
    (hu : (w.enrol program r q).task i = some u) :
    (i = r ∧ u = ⟨q, program q, [], false⟩) ∨ w.task i = some u := by
  by_cases hi : i = r
  · subst hi
    change update w.task i _ i = some u at hu
    rw [update_self, Option.some.injEq] at hu
    exact .inl ⟨rfl, hu.symm⟩
  · exact .inr ((update_of_ne hi ..).symm.trans hu)

end

/-! ## Serial runs -/

/-- A call that writes is made while the request is not stale and no other request in progress has
written. -/
def CarefulCall (r : Nat) : Prop :=
  ∀ t op next, w.task r = some t → t.rest = .call op next → writes op →
    t.stale = false ∧ ∀ r' t', r' ≠ r → w.task r' = some t' → t'.Active → ¬t'.Wrote writes

def Careful : World σ R Op Answer ε α → Event R → Prop := OnCall program (CarefulCall writes)

def Serves : List R → σ → σ → Prop
  | [], s, s' => s' = s
  | q :: qs, s, s' => ∃ a s₁, run handle (program q) s = (.ok a, s₁) ∧ Serves qs s₁ s'

def MustWrite : Program Op Answer ε α → Prop
  | .done _ => False
  | .fail _ => True
  | .call op next => writes op = true ∨ ∀ a, MustWrite (next a)

theorem mustWrite_bind {β : Type} (p : Program Op Answer ε β) {f : β → Program Op Answer ε α}
    (h : ∀ b, MustWrite writes (f b)) : MustWrite writes (p >>= f) := by
  induction p with
  | done b => exact h b
  | fail => trivial
  | call op next ih => exact .inr ih

def ended : Except ε α → Program Op Answer ε α
  | .ok a => .done a
  | .error e => .fail e

def Replay : List (R × Except ε α) → σ → σ → Prop
  | [], s, s' => s' = s
  | (q, result) :: qs, s, s' => ∃ s₁, run handle (program q) s = (result, s₁) ∧ Replay qs s₁ s'

/-- A run so far, as requests one after another: those that have written, the store they lead to,
and the one in the middle of its writes. -/
structure Serial (s₀ : σ) (w : World σ R Op Answer ε α) (settled : List (Nat × R × Except ε α))
    (base : σ) (writer : Option Nat) : Prop where
  replay : Replay handle program (settled.map (·.2)) s₀ base
  recorded : ∀ d ∈ settled, ∃ t, w.task d.1 = some t ∧ t.request = d.2.1 ∧ t.rest = ended d.2.2
  order : (settled.map (·.1) ++ writer.toList).Sublist w.order
  idle : writer = none → w.store = base
  working : ∀ r ∈ writer, ∃ t, w.task r = some t ∧ t.Wrote writes ∧
    run handle t.rest w.store = run handle (program t.request) base
  reading : ∀ r t, w.task r = some t → t.Active → t.stale = false → ¬t.Wrote writes →
    (settled.map (·.1) ++ writer.toList ++ [r]).Sublist w.order ∧
      run handle t.rest w.store = run handle (program t.request) w.store
  writers : ∀ r t, w.task r = some t → t.Wrote writes → r ∈ writer ∨ r ∈ settled.map (·.1)
  must : ∀ r t, w.task r = some t → ¬t.Wrote writes → MustWrite writes t.rest
  begun : ∀ r, r ∈ w.order ↔ (w.task r).isSome
  nodup : w.order.Nodup

variable {handle writes program}

theorem ended_or_active : t.Active ∨ ∃ result, t.rest = ended result := by
  cases h : t.rest with
  | done a => exact .inr ⟨.ok a, rfl⟩
  | fail e => exact .inr ⟨.error e, rfl⟩
  | call op next => exact .inl ⟨op, next, h⟩

theorem run_ended (result : Except ε α) (s : σ) :
    run handle (ended result : Program Op Answer ε α) s = (result, s) := by
  cases result <;> rfl

variable {result : Except ε α} {t : Task R Op Answer ε α}

theorem not_active_ended (h : t.rest = ended result) :
    ¬t.Active := by
  rintro ⟨op, next, hcall⟩
  rw [h] at hcall
  cases result <;> cases hcall

variable {l : List (R × Except ε α)}

theorem replay_concat {q : R} :
    ∀ {s base s' : σ}, Replay handle program l s base → run handle (program q) base = (result, s') →
      Replay handle program (l ++ [(q, result)]) s s' := by
  induction l with
  | nil =>
    rintro s base s' rfl hrun
    exact ⟨s', hrun, rfl⟩
  | cons x l ih =>
    rintro s base s' ⟨s₁, hx, hl⟩ hrun
    exact ⟨s₁, hx, ih hl hrun⟩

namespace Serial

variable {s₀ base : σ} {w : World σ R Op Answer ε α} {settled : List (Nat × R × Except ε α)}
  {writer : Option Nat}

theorem init (s₀ : σ) : Serial handle writes program s₀ (World.init s₀) [] s₀ none where
  replay := rfl
  recorded := by simp
  order := .slnil
  idle := fun _ => rfl
  working := by simp
  reading := nofun
  writers := nofun
  must := nofun
  begun := by simp [World.init]
  nodup := .nil

theorem settle {r : Nat} (h : Serial handle writes program s₀ w settled base (some r)) (ht : w.task r = some t)
    (hover : t.rest = ended result) :
    Serial handle writes program s₀ w (settled ++ [(r, t.request, result)]) w.store none := by
  obtain ⟨t', ht', -, hrun⟩ := h.working r rfl
  cases ht.symm.trans ht'
  rw [hover, run_ended] at hrun
  have hnames : (settled ++ [(r, t.request, result)]).map (·.1) = settled.map (·.1) ++ [r] := by
    simp
  constructor
  · rw [map_append]
    exact replay_concat h.replay hrun.symm
  · refine forall_mem_append.2 ⟨h.recorded, ?_⟩
    simpa using ⟨t, ht, rfl, hover⟩
  · simpa using h.order
  · exact fun _ => rfl
  · simp
  · intro i u hu hactive hstale hwrote
    simpa using h.reading i u hu hactive hstale hwrote
  · intro i u hu hwrote
    rw [hnames, mem_append]
    rcases h.writers i u hu hwrote with hi | hi
    · cases hi
      exact .inr (.inr mem_cons_self)
    · exact .inr (.inl hi)
  · exact h.must
  · exact h.begun
  · exact h.nodup

theorem enrol (h : Serial handle writes program s₀ w settled base writer)
    (hmust : ∀ q, MustWrite writes (program q)) {r : Nat} (hr : w.task r = none) (q : R) :
    Serial handle writes program s₀ (w.enrol program r q) settled base writer := by
  have hother : ∀ {i : Nat} {u : Task R Op Answer ε α}, w.task i = some u →
      (w.enrol program r q).task i = some u := by
    intro i u hu
    have hi : i ≠ r := by
      rintro rfl
      rw [hr] at hu
      cases hu
    exact (update_of_ne hi ..).trans hu
  have hmore : w.order.Sublist (w.order ++ [r]) := sublist_append_left ..
  constructor
  · exact h.replay
  · intro d hd
    obtain ⟨t, ht, hreq, hrest⟩ := h.recorded d hd
    exact ⟨t, hother ht, hreq, hrest⟩
  · exact h.order.trans hmore
  · exact h.idle
  · intro i hi
    obtain ⟨t, ht, hwrote, hrun⟩ := h.working i hi
    exact ⟨t, hother ht, hwrote, hrun⟩
  · intro i u hu hactive hstale hwrote
    rcases task_enrol hu with ⟨rfl, rfl⟩ | hu
    · exact ⟨h.order.append (.refl [i]), rfl⟩
    · obtain ⟨horder, hrun⟩ := h.reading i u hu hactive hstale hwrote
      exact ⟨horder.trans hmore, hrun⟩
  · intro i u hu hwrote
    rcases task_enrol hu with ⟨rfl, rfl⟩ | hu
    · obtain ⟨c, hc, -⟩ := hwrote
      cases hc
    · exact h.writers i u hu hwrote
  · intro i u hu hwrote
    rcases task_enrol hu with ⟨rfl, rfl⟩ | hu
    · exact hmust q
    · exact h.must i u hu hwrote
  · intro i
    rw [show (w.enrol program r q).order = w.order ++ [r] from rfl, mem_append,
      h.begun]
    by_cases hi : i = r
    · subst hi
      simp [World.enrol]
    · simp [World.enrol, hi]
  · refine nodup_append.2 ⟨h.nodup, by simp, ?_⟩
    rintro i hi j hj rfl
    rw [mem_singleton.1 hj, h.begun, hr] at hi
    cases hi

section

variable {r : Nat} {t : Task R Op Answer ε α} {op : Op} {next : Answer op → Program Op Answer ε α}

theorem run_made (hrest : t.rest = .call op next) :
    run handle (next (handle op w.store).1) (handle op w.store).2 = run handle t.rest w.store := by
  rw [hrest]
  rfl

theorem wrote_made {a : Answer op} {rest : Program Op Answer ε α} :
    (t.made op a rest).Wrote writes ↔ writes op = true ∨ t.Wrote writes := by
  unfold Task.Wrote Task.made
  simp

variable (h : Serial handle writes program s₀ w settled base writer) (ht : w.task r = some t)
  (hrest : t.rest = .call op next)
include h ht hrest

theorem recorded_call :
    ∀ d ∈ settled, ∃ u, (w.call handle writes r).task d.1 = some u ∧ u.request = d.2.1 ∧
      u.rest = ended d.2.2 := by
  intro d hd
  obtain ⟨u, hu, hreq, hover⟩ := h.recorded d hd
  have hne : d.1 ≠ r := by
    intro heq
    rw [heq, ht, Option.some.injEq] at hu
    subst hu
    exact not_active_ended hover ⟨op, next, hrest⟩
  rw [call_eq ht hrest]
  refine ⟨u.after writes op, ?_, hreq, hover⟩
  dsimp only
  rw [if_neg hne, hu]
  rfl

theorem begun_call (i : Nat) :
    i ∈ (w.call handle writes r).order ↔ ((w.call handle writes r).task i).isSome := by
  rw [call_eq ht hrest]
  refine (h.begun i).trans ?_
  by_cases hi : i = r
  · simp [hi, ht]
  · simp [hi]

theorem mem_writer (hwrote : t.Wrote writes) : r ∈ writer := by
  rcases h.writers r t ht hwrote with hr | hr
  · exact hr
  · obtain ⟨d, hd, rfl⟩ := mem_map.1 hr
    obtain ⟨u, hu, -, hover⟩ := h.recorded d hd
    cases ht.symm.trans hu
    exact absurd ⟨op, next, hrest⟩ (not_active_ended hover)

theorem read (hreads : ∀ op s, writes op = false → (handle op s).2 = s) (hop : writes op = false) :
    Serial handle writes program s₀ (w.call handle writes r) settled base writer := by
  have hrecorded := h.recorded_call ht hrest
  have hbegun := h.begun_call ht hrest
  have hmade : run handle (next (handle op w.store).1) (handle op w.store).2 =
      run handle t.rest w.store := run_made hrest
  rw [call_eq ht hrest] at hrecorded hbegun ⊢
  have hstore := hreads op w.store hop
  rw [hstore] at hmade
  -- the other tasks stay as they are
  have hafter : ∀ v : Task R Op Answer ε α, v.after writes op = v := by
    intro v
    rw [Task.after, hop, Bool.or_false]
  refine ⟨h.replay, hrecorded, h.order, ?_, ?_, ?_, ?_, ?_, hbegun, h.nodup⟩
  · exact fun hwriter => hstore.trans (h.idle hwriter)
  · intro i hi
    obtain ⟨u, hu, hwrote, hrun⟩ := h.working i hi
    by_cases hir : i = r
    · subst hir
      cases ht.symm.trans hu
      refine ⟨_, if_pos rfl, wrote_made.2 (.inr hwrote), ?_⟩
      rw [hstore]
      exact hmade.trans hrun
    · refine ⟨u.after writes op, ?_, hwrote, ?_⟩
      · dsimp only
        rw [if_neg hir, hu]
        rfl
      · rw [hstore]
        exact hrun
  · intro i u hu hactive hstale hwrote
    rw [hstore]
    rcases task_call hu with ⟨rfl, rfl⟩ | ⟨-, v, hv, rfl⟩
    · have hnot : ¬t.Wrote writes := fun hw => hwrote (wrote_made.2 (.inr hw))
      obtain ⟨horder, hrun⟩ := h.reading i t ht ⟨op, next, hrest⟩ hstale hnot
      exact ⟨horder, hmade.trans hrun⟩
    · rw [hafter] at hactive hstale hwrote ⊢
      exact h.reading i v hv hactive hstale hwrote
  · intro i u hu hwrote
    rcases task_call hu with ⟨rfl, rfl⟩ | ⟨-, v, hv, rfl⟩
    · rcases wrote_made.1 hwrote with hw | hw
      · rw [hop] at hw
        cases hw
      · exact h.writers i t ht hw
    · exact h.writers i v hv hwrote
  · intro i u hu hwrote
    rcases task_call hu with ⟨rfl, rfl⟩ | ⟨-, v, hv, rfl⟩
    · have hmust := h.must i t ht fun hw => hwrote (wrote_made.2 (.inr hw))
      rw [hrest] at hmust
      rcases hmust with hw | hmust
      · rw [hop] at hw
        cases hw
      · exact hmust _
    · exact h.must i v hv hwrote

theorem write (hop : writes op = true) (hstale : t.stale = false) (hwriter : ∀ i ∈ writer, i = r) :
    Serial handle writes program s₀ (w.call handle writes r) settled base (some r) := by
  have hrecorded := h.recorded_call ht hrest
  have hbegun := h.begun_call ht hrest
  have hmade : run handle (next (handle op w.store).1) (handle op w.store).2 =
      run handle t.rest w.store := run_made hrest
  -- the writes of the request begin from the store of those before it
  have hstart : (settled.map (·.1) ++ [r]).Sublist w.order ∧
      run handle t.rest w.store = run handle (program t.request) base := by
    cases hw : writer with
    | none =>
      have hnot : ¬t.Wrote writes := by
        intro hwrote
        have := h.mem_writer ht hrest hwrote
        rw [hw] at this
        cases this
      obtain ⟨horder, hrun⟩ := h.reading r t ht ⟨op, next, hrest⟩ hstale hnot
      rw [h.idle hw] at hrun ⊢
      rw [hw] at horder
      exact ⟨by simpa using horder, hrun⟩
    | some i =>
      cases hwriter i hw
      obtain ⟨u, hu, -, hrun⟩ := h.working r hw
      cases ht.symm.trans hu
      have horder := h.order
      rw [hw] at horder
      exact ⟨horder, hrun⟩
  rw [call_eq ht hrest] at hrecorded hbegun ⊢
  refine ⟨h.replay, hrecorded, hstart.1, nofun, ?_, ?_, ?_, ?_, hbegun, h.nodup⟩
  · intro i hi
    cases hi
    exact ⟨_, if_pos rfl, wrote_made.2 (.inl hop), hmade.trans hstart.2⟩
  · intro i u hu _ hfresh hwrote
    rcases task_call hu with ⟨rfl, rfl⟩ | ⟨-, v, -, rfl⟩
    · exact absurd (wrote_made.2 (.inl hop)) hwrote
    · -- the others are stale from now on
      rw [Task.after, hop, Bool.or_true] at hfresh
      cases hfresh
  · intro i u hu hwrote
    rcases task_call hu with ⟨rfl, rfl⟩ | ⟨hne, v, hv, rfl⟩
    · exact .inl rfl
    · rcases h.writers i v hv hwrote with hi | hi
      · exact absurd (hwriter i hi) hne
      · exact .inr hi
  · intro i u hu hwrote
    rcases task_call hu with ⟨rfl, rfl⟩ | ⟨hne, v, hv, rfl⟩
    · exact absurd (wrote_made.2 (.inl hop)) hwrote
    · exact h.must i v hv hwrote

end

variable (h : Serial handle writes program s₀ w settled base writer)
include h

theorem exists_active :
    ∃ settled base writer, Serial handle writes program s₀ w settled base writer ∧
      ∀ r ∈ writer, ∃ t, w.task r = some t ∧ t.Active := by
  cases writer with
  | none => exact ⟨settled, base, none, h, nofun⟩
  | some r =>
    obtain ⟨t, ht, -, -⟩ := h.working r rfl
    rcases ended_or_active t with hactive | ⟨result, hover⟩
    · refine ⟨settled, base, some r, h, fun i hi => ?_⟩
      cases hi
      exact ⟨t, ht, hactive⟩
    · exact ⟨_, _, none, h.settle ht hover, nofun⟩

theorem call
    (hactive : ∀ r ∈ writer, ∃ t, w.task r = some t ∧ t.Active)
    (hreads : ∀ op s, writes op = false → (handle op s).2 = s) {r : Nat}
    (hcareful : CarefulCall writes w r) :
    ∃ writer', Serial handle writes program s₀ (w.call handle writes r) settled base writer' := by
  by_cases hr : ∃ t, w.task r = some t ∧ t.Active
  · obtain ⟨t, ht, op, next, hrest⟩ := hr
    cases hop : writes op with
    | false => exact ⟨writer, h.read ht hrest hreads hop⟩
    | true =>
      obtain ⟨hstale, hothers⟩ := hcareful t op next ht hrest hop
      refine ⟨some r, h.write ht hrest hop hstale fun i hi => ?_⟩
      -- another request that is writing is in progress and has written
      by_contra hne
      obtain ⟨u, hu, hwrote, -⟩ := h.working i hi
      obtain ⟨u', hu', hact⟩ := hactive i hi
      cases hu.symm.trans hu'
      exact hothers i u hne hu hact hwrote
  · rw [call_of_not_active fun t ht hact => hr ⟨t, ht, hact⟩]
    exact ⟨writer, h⟩

end Serial

def Serializable (handle : (op : Op) → σ → Answer op × σ) (writes : Op → Bool)
    (program : R → Program Op Answer ε α) (s₀ : σ) (w : World σ R Op Answer ε α) : Prop :=
  ∃ settled base writer, Serial handle writes program s₀ w settled base writer ∧
    ∀ r ∈ writer, ∃ t, w.task r = some t ∧ t.Active

theorem serializable_step (hreads : ∀ op s, writes op = false → (handle op s).2 = s)
    (hmust : ∀ q, MustWrite writes (program q)) {s₀ : σ} (w : World σ R Op Answer ε α) (e : Event R)
    (h : Serializable handle writes program s₀ w) (he : Careful writes program w e) :
    Serializable handle writes program s₀ (w.step handle writes program e) := by
  refine step_of_call w e ?_ ?_ h he
  · rintro r q - hr ⟨settled, base, writer, hserial, hactive⟩
    refine ⟨settled, base, writer, hserial.enrol hmust hr q, fun i hi => ?_⟩
    obtain ⟨t, ht, hact⟩ := hactive i hi
    have hne : i ≠ r := by
      rintro rfl
      rw [hr] at ht
      cases ht
    exact ⟨t, (update_of_ne hne ..).trans ht, hact⟩
  · rintro w r ⟨settled, base, writer, hserial, hactive⟩ hcareful
    obtain ⟨writer', h'⟩ := hserial.call hactive hreads hcareful
    exact h'.exists_active

theorem serves_of_replay (hok : ∀ x ∈ l, ∃ a, x.2 = .ok a) :
    ∀ {s s' : σ}, Replay handle program l s s' → Serves handle program (l.map (·.1)) s s' := by
  induction l with
  | nil => exact fun h => h
  | cons x l ih =>
    rintro s s' ⟨s₁, hx, hl⟩
    obtain ⟨a, ha⟩ := hok x mem_cons_self
    exact ⟨a, s₁, ha ▸ hx, ih (fun y hy => hok y (mem_cons_of_mem x hy)) hl⟩

theorem serves_of_careful (hreads : ∀ op s, writes op = false → (handle op s).2 = s)
    (hmust : ∀ q, MustWrite writes (program q)) (s₀ : σ) (events : List (Event R))
    (hcareful : Along (step handle writes program) (Careful writes program) (World.init s₀)
      events) (w : World σ R Op Answer ε α)
    (hw : w = events.foldl (step handle writes program) (World.init s₀))
    (hquiet : w.Quiescent) (hok : w.Successful) : Serves handle program w.requests s₀ w.store := by
  have hserial : Serializable handle writes program s₀ w := by
    rw [hw]
    refine along_induction
      (serializable_step hreads hmust) ?_ hcareful
    exact ⟨[], s₀, none, Serial.init s₀, nofun⟩
  obtain ⟨settled, base, writer, h, hactive⟩ := hserial
  -- nobody is writing
  have hnone : writer = none := by
    cases hwriter : writer with
    | none => rfl
    | some r =>
      obtain ⟨t, ht, hact⟩ := hactive r hwriter
      exact absurd hact (hquiet r t ht)
  subst hnone
  -- everybody has written, and is over
  have hall : ∀ r ∈ w.order, r ∈ settled.map (·.1) := by
    intro r hr
    obtain ⟨t, ht⟩ := Option.isSome_iff_exists.1 ((h.begun r).1 hr)
    have hwrote : t.Wrote writes := by
      by_contra hnot
      have hmust := h.must r t ht hnot
      rcases ended_or_active t with hact | ⟨result, hover⟩
      · exact hquiet r t ht hact
      · rw [hover] at hmust
        cases result with
        | ok => exact hmust
        | error e => exact hok r t e ht hover
    exact (h.writers r t ht hwrote).resolve_left nofun
  have hnames : settled.map (·.1) = w.order := by
    have hsub : (settled.map (·.1)).Sublist w.order := by simpa using h.order
    exact hsub.eq_of_length_le (subperm_of_subset h.nodup hall).length_le
  have hrequests : w.requests = (settled.map (·.2)).map (·.1) := by
    unfold requests
    rw [← hnames, filterMap_map, map_map, ← filterMap_eq_map]
    refine filterMap_congr fun d hd => ?_
    obtain ⟨t, ht, hreq, -⟩ := h.recorded d hd
    simp [ht, hreq]
  rw [hrequests, h.idle rfl]
  refine serves_of_replay (fun x hx => ?_) h.replay
  obtain ⟨d, hd, rfl⟩ := mem_map.1 hx
  obtain ⟨t, ht, -, hover⟩ := h.recorded d hd
  cases hresult : d.2.2 with
  | ok a => exact ⟨a, rfl⟩
  | error e =>
    rw [hresult] at hover
    exact absurd hover (hok d.1 t e ht)

end

/-! ## Check, then act -/

section

variable {σ R Op : Type} {Answer : Op → Type} {ε α β Fact : Type}
variable (handle : (op : Op) → σ → Answer op × σ) (writes : Op → Bool)
variable (program : R → Program Op Answer ε α)
variable (holds : σ → Fact → Prop) (learns : R → (op : Op) → Answer op → Fact → Prop)
variable (covered : R → (Fact → Prop) → Op → Prop)

/-- The program makes every call on facts it knows, given or learned. `Post` relates what it knows
in the end to its result. -/
def Guarded (q : R) (Post : (Fact → Prop) → α → Prop) (known : Fact → Prop) :
    Program Op Answer ε α → Prop
  | .done a => Post known a
  | .fail _ => True
  | .call op next =>
    covered q known op ∧ ∀ a, Guarded q Post (fun f => known f ∨ learns q op a f) (next a)

def Task.Knows (t : Task R Op Answer ε α) (f : Fact) : Prop :=
  ∃ c ∈ t.calls, learns t.request c.1 c.2 f

/-- The store is good, and every request in progress acts on facts that hold. -/
structure Grounded (Good : σ → Prop) (w : World σ R Op Answer ε α) : Prop where
  good : Good w.store
  guarded : ∀ r t, w.task r = some t →
    Guarded learns covered t.request (fun _ _ => True) (t.Knows learns) t.rest
  known : ∀ r t f, w.task r = some t → t.Active → t.Knows learns f → holds w.store f

/-- The next call of a request makes nothing false that another request in progress has learned. -/
def Undisturbed (w : World σ R Op Answer ε α) (r : Nat) : Prop :=
  ∀ t op next, w.task r = some t → t.rest = .call op next →
    ∀ i u f, i ≠ r → w.task i = some u → u.Active → u.Knows learns f → holds w.store f →
      holds (handle op w.store).2 f

variable {handle writes program holds learns covered}

section

variable {q : R} {known : Fact → Prop} {M : (Fact → Prop) → β → Prop}
variable {Post : (Fact → Prop) → α → Prop} {f : β → Program Op Answer ε α}

theorem guarded_bind {p : Program Op Answer ε β}
    (hp : Guarded learns covered q M known p)
    (hf : ∀ known' b, (∀ x, known x → known' x) → M known' b →
      Guarded learns covered q Post known' (f b)) :
    Guarded learns covered q Post known (p >>= f) := by
  induction p generalizing known with
  | done b => exact hf known b (fun _ h => h) hp
  | fail => trivial
  | call op next ih =>
    refine ⟨hp.1, fun a => ih a (hp.2 a) fun known' b hknown hb => ?_⟩
    exact hf known' b (fun x hx => hknown x (.inl hx)) hb

theorem Guarded.imp {p : Program Op Answer ε α} {M : (Fact → Prop) → α → Prop}
    (hp : Guarded learns covered q M known p)
    (h : ∀ known' a, (∀ x, known x → known' x) → M known' a → Post known' a) :
    Guarded learns covered q Post known p := by
  induction p generalizing known with
  | done a => exact h known a (fun _ h => h) hp
  | fail => trivial
  | call op next ih =>
    refine ⟨hp.1, fun a => ih a (hp.2 a) fun known' b hknown hb => ?_⟩
    exact h known' b (fun x hx => hknown x (.inl hx)) hb

theorem guarded_pure {a : α} (h : Post known a) :
    Guarded learns covered q Post known (pure a : Program Op Answer ε α) := h

theorem guarded_fail (e : ε) :
    Guarded learns covered q Post known (fail e : Program Op Answer ε α) := trivial

theorem guarded_require {c : Prop} {_ : Decidable c} {e : ε}
    {Post : (Fact → Prop) → Unit → Prop} (h : c → Post known ()) :
    Guarded learns covered q Post known (require c e : Program Op Answer ε Unit) := by
  unfold require
  split
  · exact h ‹c›
  · trivial

theorem guarded_require_bind {c : Prop} {_ : Decidable c} {e : ε} {f : Unit → Program Op Answer ε α}
    (h : c → Guarded learns covered q Post known (f ())) :
    Guarded learns covered q Post known (require c e >>= f) := by
  unfold require
  split
  · exact h ‹c›
  · trivial

theorem guarded_found_bind {e : ε} {o : Option β}
    (h : ∀ b, o = some b → Guarded learns covered q Post known (f b)) :
    Guarded learns covered q Post known (found e o >>= f) := by
  cases o with
  | none => trivial
  | some b => exact h b rfl

theorem guarded_ask_bind {op : Op} {f : Answer op → Program Op Answer ε α} (h : covered q known op)
    (hf : ∀ a, Guarded learns covered q Post (fun x => known x ∨ learns q op a x) (f a)) :
    Guarded learns covered q Post known (ask op >>= f) := ⟨h, hf⟩

end

theorem undisturbed_alone {w : World σ R Op Answer ε α} {r : Nat}
    (h : ∀ i ≠ r, ∀ u, w.task i = some u → ¬u.Active) : Undisturbed handle holds learns w r :=
  fun _ _ _ _ _ i u _ hi hu hact => absurd hact (h i hi u hu)

theorem knows_made {t : Task R Op Answer ε α} {op : Op} {a : Answer op}
    {rest : Program Op Answer ε α} :
    (t.made op a rest).Knows learns = fun f => t.Knows learns f ∨ learns t.request op a f := by
  funext f
  unfold Task.Knows Task.made
  simp [or_comm]

theorem grounded_step {Good : σ → Prop}
    (w : World σ R Op Answer ε α) (e : Event R) (hprogram : ∀ r q, e = .begin r q →
      Guarded learns covered q (fun _ _ => True) (fun _ => False) (program q))
    (hlearns : ∀ q op s f, learns q op (handle op s).1 f → holds (handle op s).2 f)
    (hgood : ∀ q known op s, Good s → covered q known op → (∀ f, known f → holds s f) →
      Good (handle op s).2) (hown : ∀ (t : Task R Op Answer ε α) op s f, Good s →
      covered t.request (t.Knows learns) op → t.Knows learns f → holds s f →
      holds (handle op s).2 f) (h : Grounded holds learns covered Good w)
    (he : OnCall program (Undisturbed handle holds learns) w e) :
    Grounded holds learns covered Good (w.step handle writes program e) := by
  refine step_of_call w e ?_ ?_ h he
  · intro r q hbegin hr h
    -- a new request knows nothing
    have hnothing : (⟨q, program q, [], false⟩ : Task R Op Answer ε α).Knows learns =
        fun _ => False := by
      funext f
      simp [Task.Knows]
    refine ⟨h.good, fun i u hu => ?_, fun i u f hu hact hf => ?_⟩
    · rcases task_enrol hu with ⟨-, rfl⟩ | hu
      · rw [hnothing]
        exact hprogram r q hbegin
      · exact h.guarded i u hu
    · rcases task_enrol hu with ⟨-, rfl⟩ | hu
      · rw [hnothing] at hf
        exact hf.elim
      · exact h.known i u f hu hact hf
  · intro w r h hc
    by_cases hr : ∃ t, w.task r = some t ∧ t.Active
    · obtain ⟨t, ht, op, next, hrest⟩ := hr
      have hguarded := h.guarded r t ht
      rw [hrest] at hguarded
      have hknown : ∀ f, t.Knows learns f → holds w.store f := fun f =>
        h.known r t f ht ⟨op, next, hrest⟩
      rw [call_eq ht hrest]
      refine ⟨hgood t.request _ op w.store h.good hguarded.1 hknown, fun i u hu => ?_,
        fun i u f hu hact hf => ?_⟩
      · rcases task_call hu with ⟨-, rfl⟩ | ⟨-, v, hv, rfl⟩
        · rw [knows_made]
          exact hguarded.2 _
        · exact h.guarded i v hv
      · rcases task_call hu with ⟨-, rfl⟩ | ⟨hi, v, hv, rfl⟩
        · rw [knows_made] at hf
          rcases hf with hf | hf
          · exact hown t op w.store f h.good hguarded.1 hf (hknown f hf)
          · exact hlearns t.request op w.store f hf
        · exact hc t op next ht hrest i v f hi hv hact hf (h.known i v f hv hact hf)
    · rw [call_of_not_active fun t ht hact => hr ⟨t, ht, hact⟩]
      exact h

theorem grounded_init {Good : σ → Prop} {s : σ} (h : Good s) :
    Grounded holds learns covered Good (World.init s : World σ R Op Answer ε α) :=
  ⟨h, nofun, nofun⟩

end

-- programs are taken apart by the lemmas above, not by evaluation
attribute [irreducible] Guarded

end Octo.Foundation.Interleave
