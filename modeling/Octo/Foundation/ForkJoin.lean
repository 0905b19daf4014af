import Mathlib.Algebra.GroupWithZero.Nat
import Mathlib.Data.List.Basic
import Mathlib.Logic.Function.Basic
import Mathlib.Logic.Relation
import Octo.Foundation.Split

/-!
# Fork and join on a fixed set of workers

A program forks by putting tasks on a bounded queue and then waits until all of them are done.
Callers start the program itself, pool workers run the tasks, and a task may fork in turn on the
same pool.  The program is any nondeterministic code: `next` says what it does, given a choice of
its environment.

* `step_cases` — everything one step can do.
* `progress_of_slack` — a state in which some pool worker is not parked is finished, has an
  enabled step, or the queue overflowed.
* `starved_step` — once every pool worker is parked, every pool worker stays parked.
-/

namespace Octo.Foundation.ForkJoin

open List Function Option Nat

inductive Cmd (σ τ : Type) where
  | step (code : σ)
  | fork (tasks : List τ) (code : σ)
  | finish (failed : Bool)

/-- A program: its code, its tasks, and the choices of its environment. -/
structure Program (σ τ χ : Type) where
  entry : σ
  start : τ → σ
  next : χ → σ → Cmd σ τ
  resume : Bool → σ → σ

/-- The group of tasks one fork made: how many are unfinished, and whether one failed. -/
structure Group where
  pending : Nat
  failed : Bool
deriving DecidableEq

inductive Status (σ τ : Type) where
  | idle
  | running (code : σ)
  | submitting (group : Nat) (rest : List τ) (code : σ)
  | waiting (group : Nat) (code : σ)

inductive Role where
  | caller
  | pool
deriving DecidableEq

structure Worker (σ τ : Type) where
  role : Role
  serves : Option Nat
  status : Status σ τ

structure State (σ τ : Type) where
  inbox : Nat
  workers : List (Worker σ τ)
  queue : List (Nat × τ)
  opened : Nat
  groups : Nat → Group
  panicked : Bool

section

variable {σ τ χ : Type}

/-! ## Steps -/

def State.put (s : State σ τ) (i : Nat) (w : Worker σ τ) : State σ τ :=
  { s with workers := s.workers.set i w }

def Group.done (failed : Bool) (group : Group) : Group :=
  ⟨group.pending - 1, group.failed || failed⟩

def finished (groups : Nat → Group) (failed : Bool) : Option Nat → Nat → Group
  | none => groups
  | some g => update groups g ((groups g).done failed)

variable (P : Program σ τ χ) (capacity : Nat)

variable (s : State σ τ)

def take (i : Nat) (w : Worker σ τ) : Option (State σ τ) :=
  match w.role, s.inbox, s.queue with
  | .caller, 0, _ => none
  | .caller, n + 1, _ => some { s.put i { w with status := .running P.entry } with inbox := n }
  | .pool, _, [] => none
  | .pool, _, (g, t) :: rest =>
    some { s.put i ⟨.pool, some g, .running (P.start t)⟩ with queue := rest }

def execute (c : χ) (s : State σ τ) (i : Nat) (w : Worker σ τ) (code : σ) : State σ τ :=
  match P.next c code with
  | .step code => s.put i { w with status := .running code }
  | .fork tasks code =>
    { s.put i { w with status := .submitting s.opened tasks code } with
      opened := s.opened + 1
      groups := update s.groups s.opened ⟨tasks.length, false⟩ }
  | .finish failed =>
    { s.put i ⟨w.role, none, .idle⟩ with groups := finished s.groups failed w.serves }

def submit (i : Nat) (w : Worker σ τ) (g : Nat) (t : τ) (rest : List τ)
    (code : σ) : State σ τ :=
  if s.queue.length < capacity then
    { s.put i { w with status := .submitting g rest code } with queue := s.queue ++ [(g, t)] }
  else { s with panicked := true }

/-- What the worker at `i` does with the choice `c`. -/
def move (c : χ) (s : State σ τ) (i : Nat) (w : Worker σ τ) : Option (State σ τ) :=
  match w.status with
  | .idle => take P s i w
  | .running code => some (execute P c s i w code)
  | .submitting g [] code => some (s.put i { w with status := .waiting g code })
  | .submitting g (t :: rest) code => some (submit capacity s i w g t rest code)
  | .waiting g code =>
    if (s.groups g).pending = 0 then
      some (s.put i { w with status := .running (P.resume (s.groups g).failed code) })
    else none

/-- One step of the system: the worker at `i` moves. -/
def step (i : Nat) (c : χ) : Option (State σ τ) := if s.panicked then none
  else
    match s.workers[i]? with
    | none => none
    | some w => move P capacity c s i w

def run : State σ τ → List (Nat × χ) → Option (State σ τ)
  | s, [] => some s
  | s, (i, c) :: rest => (step P capacity s i c).bind fun s' => run s' rest

def Step (s s' : State σ τ) : Prop := ∃ i c, step P capacity s i c = some s'

def initial (callers workers messages : Nat) : State σ τ where
  inbox := messages
  workers := List.replicate callers ⟨.caller, none, .idle⟩ ++
    List.replicate workers ⟨.pool, none, .idle⟩
  queue := []
  opened := 0
  groups := fun _ => ⟨0, false⟩
  panicked := false

def Finished : Prop := ∀ w ∈ s.workers, w.status = .idle

def Progress : Prop := Finished s ∨ (∃ s', Step P capacity s s') ∨ s.panicked = true

def Parked (w : Worker σ τ) : Prop :=
  ∃ g code, w.status = .waiting g code ∧ 0 < (s.groups g).pending

def Slack : Prop := ∃ w ∈ s.workers, w.role = .pool ∧ ¬ Parked s w

/-! ## What a step can do -/

/-- What a step of the worker `w` between `l` and `r` makes of the system. -/
inductive Effect (s : State σ τ) (l : List (Worker σ τ)) (w : Worker σ τ)
    (r : List (Worker σ τ)) : State σ τ → Prop where
  | message (n : Nat) (role : w.role = .caller) (status : w.status = .idle)
      (inbox : s.inbox = n + 1) :
      Effect s l w r
        { s with workers := l ++ { w with status := .running P.entry } :: r, inbox := n }
  | task (g : Nat) (t : τ) (rest : List (Nat × τ)) (role : w.role = .pool)
      (status : w.status = .idle) (queue : s.queue = (g, t) :: rest) :
      Effect s l w r
        { s with workers := l ++ ⟨.pool, some g, .running (P.start t)⟩ :: r, queue := rest }
  | code (c : χ) (code code' : σ) (status : w.status = .running code)
      (next : P.next c code = .step code') :
      Effect s l w r { s with workers := l ++ { w with status := .running code' } :: r }
  | fork (c : χ) (code code' : σ) (tasks : List τ) (status : w.status = .running code)
      (next : P.next c code = .fork tasks code') :
      Effect s l w r { s with
          workers := l ++ { w with status := .submitting s.opened tasks code' } :: r
          opened := s.opened + 1
          groups := update s.groups s.opened ⟨tasks.length, false⟩ }
  | finish (c : χ) (code : σ) (failed : Bool) (status : w.status = .running code)
      (next : P.next c code = .finish failed) :
      Effect s l w r { s with
          workers := l ++ ⟨w.role, none, .idle⟩ :: r
          groups := finished s.groups failed w.serves }
  | submit (g : Nat) (t : τ) (rest : List τ) (code : σ)
      (status : w.status = .submitting g (t :: rest) code) (room : s.queue.length < capacity) :
      Effect s l w r { s with
          workers := l ++ { w with status := .submitting g rest code } :: r
          queue := s.queue ++ [(g, t)] }
  | overflow (g : Nat) (t : τ) (rest : List τ) (code : σ)
      (status : w.status = .submitting g (t :: rest) code) (full : ¬ s.queue.length < capacity) :
      Effect s l w r { s with panicked := true }
  | wait (g : Nat) (code : σ) (status : w.status = .submitting g [] code) :
      Effect s l w r { s with workers := l ++ { w with status := .waiting g code } :: r }
  | resume (g : Nat) (code : σ) (status : w.status = .waiting g code)
      (done : (s.groups g).pending = 0) :
      Effect s l w r { s with
          workers := l ++ { w with status := .running (P.resume (s.groups g).failed code) } :: r }

variable {P capacity} {s s' : State σ τ} {c : χ} {i : Nat} {w : Worker σ τ}

theorem split_at (h : s.workers[i]? = some w) :
    ∃ l r, s.workers = l ++ w :: r ∧ ∀ w', s.put i w' = { s with workers := l ++ w' :: r } := by
  obtain ⟨l, r, hl, -, hset⟩ := Split.exists_split h
  exact ⟨l, r, hl, fun w' => by rw [State.put, hset]⟩

theorem step_cases (h : step P capacity s i c = some s') :
    s.panicked = false ∧ ∃ l w r, s.workers = l ++ w :: r ∧ Effect P capacity s l w r s' := by
  unfold step at h
  split at h
  · cases h
  rename_i hp
  refine ⟨by simpa using hp, ?_⟩
  split at h
  · cases h
  rename_i w hw
  obtain ⟨l, r, hl, hput⟩ := split_at hw
  refine ⟨l, w, r, hl, ?_⟩
  unfold move at h
  split at h
  · -- an idle worker takes something
    rename_i hs
    unfold take at h
    split at h <;> simp only [some.injEq, reduceCtorEq, hput] at h
    · subst h
      exact .message _ ‹_› hs ‹_›
    · subst h
      exact .task _ _ _ ‹_› hs ‹_›
  next code hs =>
    simp only [some.injEq] at h
    unfold execute at h
    split at h <;> simp only [hput] at h <;> subst h
    · exact .code c code _ hs ‹_›
    · exact .fork c code _ _ hs ‹_›
    · exact .finish c code _ hs ‹_›
  next g code hs =>
    simp only [some.injEq, hput] at h
    subst h
    exact .wait g code hs
  next g t rest code hs =>
    simp only [some.injEq] at h
    unfold submit at h
    split at h
    · rw [hput] at h
      subst h
      exact .submit g t rest code hs ‹_›
    · subst h
      exact .overflow g t rest code hs ‹_›
  next g code hs =>
    split at h <;> simp only [some.injEq, reduceCtorEq, hput] at h
    subst h
    exact .resume g code hs ‹_›

theorem Effect.workers {l r : List (Worker σ τ)} (h : Effect P capacity s l w r s') :
    s'.workers = s.workers ∨ ∃ w', s'.workers = l ++ w' :: r ∧ w'.role = w.role := by
  cases h with
  | task g t rest role => exact .inr ⟨_, rfl, role.symm⟩
  | overflow => exact .inl rfl
  | _ => exact .inr ⟨_, rfl, rfl⟩

/-! ## The invariant -/

/-- The tasks of `g` a worker has yet to put on the queue. -/
def unsubmitted (g : Nat) (w : Worker σ τ) : Nat := match w.status with
  | .submitting g' rest _ => if g' = g then rest.length else 0
  | _ => 0

def awaits (w : Worker σ τ) : Option Nat := match w.status with
  | .submitting g _ _ | .waiting g _ => some g
  | _ => none

/-- The unfinished tasks of `g` a worker accounts for. -/
def share (g : Nat) (w : Worker σ τ) : Nat := unsubmitted g w + if w.serves = some g then 1 else 0

def load (s : State σ τ) (g : Nat) : Nat := s.queue.countP (·.1 = g) + (s.workers.map (share g)).sum

structure WorkerOk (opened : Nat) (w : Worker σ τ) : Prop where
  idle : w.status = .idle → w.serves = none
  caller : w.role = .caller → w.serves = none
  serves : ∀ g, w.serves = some g → g < opened
  awaits : ∀ g, awaits w = some g → g < opened
  nested : ∀ g g', w.serves = some g → ForkJoin.awaits w = some g' → g < g'

structure Inv (s : State σ τ) : Prop where
  pending : ∀ g, (s.groups g).pending = load s g
  fresh : ∀ g, s.opened ≤ g → (s.groups g).pending = 0
  queue : ∀ q ∈ s.queue, q.1 < s.opened
  workers : ∀ w ∈ s.workers, WorkerOk s.opened w

theorem WorkerOk.mono {n m : Nat} (h : WorkerOk n w) (hnm : n ≤ m) : WorkerOk m w where
  idle := h.idle
  caller := h.caller
  serves g hg := Nat.lt_of_lt_of_le (h.serves g hg) hnm
  awaits g hg := Nat.lt_of_lt_of_le (h.awaits g hg) hnm
  nested := h.nested

theorem WorkerOk.of_running {n : Nat} {code : σ} (h : WorkerOk n w) :
    WorkerOk n ({ w with status := .running code } : Worker σ τ) where
  idle hi := by cases hi
  caller := h.caller
  serves := h.serves
  awaits g hg := by cases hg
  nested g g' _ hg := by cases hg

theorem WorkerOk.of_awaits {n g' : Nat} {status : Status σ τ} (h : WorkerOk n w)
    (ha : ForkJoin.awaits { w with status := status } = some g') (hlt : g' < n)
    (hn : ∀ g, w.serves = some g → g < g') : WorkerOk n { w with status := status } where
  idle hi := by
    cases hi
    cases ha
  caller := h.caller
  serves := h.serves
  awaits g hg := by
    rw [ha] at hg
    cases hg
    exact hlt
  nested g g₁ hg hg₁ := by
    rw [ha] at hg₁
    cases hg₁
    exact hn g hg

section

variable {l r : List (Worker σ τ)} {w' : Worker σ τ} {n : Nat}

theorem workers_replace (inv : Inv s) (hl : s.workers = l ++ w :: r) (hn : s.opened ≤ n)
    (hw' : WorkerOk n w') : ∀ v ∈ l ++ w' :: r, WorkerOk n v := by
  intro v hv
  rcases mem_append.1 hv with hv | hv
  · exact (inv.workers v (by simp [hl, hv])).mono hn
  rcases mem_cons.1 hv with rfl | hv
  · exact hw'
  · exact (inv.workers v (by simp [hl, hv])).mono hn

theorem load_split (hl : s.workers = l ++ w :: r) (g : Nat) : load s g =
      s.queue.countP (·.1 = g) + ((l.map (share g)).sum + (share g w + (r.map (share g)).sum)) := by
  simp [load, hl]

theorem Effect.preserves (inv : Inv s) (hl : s.workers = l ++ w :: r)
    (h : Effect P capacity s l w r s') : Inv s' := by
  have hw : WorkerOk s.opened w := inv.workers w (by simp [hl])
  have hload := fun g => (inv.pending g).trans (load_split hl g)
  cases h with
  | message n role status inbox | code c code code' status next | resume g₀ code status done =>
    refine ⟨fun g => ?_, inv.fresh, inv.queue, workers_replace inv hl (Nat.le_refl _) hw.of_running⟩
    rw [hload g, load_split rfl]
    simp [share, unsubmitted, status]
  | task g₀ t rest role status queue =>
    have hserves := hw.idle status
    have hlt : g₀ < s.opened := inv.queue (g₀, t) (by simp [queue])
    refine ⟨fun g => ?_, inv.fresh, fun q hq => inv.queue q (by simp [queue, hq]),
      workers_replace inv hl (Nat.le_refl _) ⟨nofun, nofun, ?_, nofun, nofun⟩⟩
    · -- the task moves from the queue to the worker
      rw [hload g, load_split rfl, queue, countP_cons]
      simp only [share, unsubmitted, status, hserves, some.injEq, decide_eq_true_eq]
      split
      · simp only [reduceCtorEq, if_false]
        omega
      · simp
    · rintro g ⟨⟩
      exact hlt
  | fork c code code' tasks status =>
    refine ⟨fun g => ?_, fun g hg => ?_, fun q hq => lt_succ_of_lt (inv.queue q hq),
      workers_replace inv hl (le_succ _) ((hw.mono (le_succ _)).of_awaits rfl
        (lt_succ_self _) hw.serves)⟩
    · rw [load_split rfl]
      by_cases hg : g = s.opened
      · -- nothing of the new group is anywhere yet
        subst hg
        have hzero := hload s.opened
        rw [inv.fresh _ (Nat.le_refl _)] at hzero
        simp only [share, unsubmitted, update_self, if_true] at hzero ⊢
        omega
      · simp [update_of_ne hg, hload g, share, unsubmitted, status, Ne.symm hg]
    · have hne : g ≠ s.opened := by
        simp only at hg
        omega
      simp only [update_of_ne hne]
      exact inv.fresh g (by simp only at hg; omega)
  | finish c code failed status =>
    refine ⟨fun g => ?_, fun g hg => ?_, inv.queue,
      workers_replace inv hl (Nat.le_refl _) ⟨fun _ => rfl, fun _ => rfl, nofun, nofun, nofun⟩⟩
    · rw [load_split rfl]
      have hg := hload g
      cases hserves : w.serves with
      | none =>
        simp only [share, unsubmitted, status, hserves, finished] at hg ⊢
        omega
      | some g₀ =>
        by_cases hgg : g = g₀
        · subst hgg
          simp only [share, unsubmitted, status, hserves, finished, update_self,
            Group.done, reduceCtorEq, if_false, if_true] at hg ⊢
          omega
        · simp only [share, unsubmitted, status, hserves, finished, update_of_ne hgg,
            some.injEq, Ne.symm hgg, reduceCtorEq] at hg ⊢
          omega
    · cases hserves : w.serves with
      | none => exact inv.fresh g hg
      | some g₀ =>
        have hlt := hw.serves g₀ hserves
        have hne : g ≠ g₀ := by
          simp only at hg
          omega
        simp only [finished, update_of_ne hne]
        exact inv.fresh g hg
  | submit g₀ t rest code status =>
    have hlt : g₀ < s.opened := hw.awaits g₀ (by simp [awaits, status])
    refine ⟨fun g => ?_, inv.fresh, fun q hq => ?_, workers_replace inv hl (Nat.le_refl _)
      (hw.of_awaits rfl hlt fun g hg => hw.nested g g₀ hg (by simp [awaits, status]))⟩
    · -- the task moves from the worker to the queue
      rw [hload g, load_split rfl, countP_append]
      simp only [share, unsubmitted, status, length_cons]
      by_cases hg : g₀ = g
      · simp only [hg, if_true, countP_cons, countP_nil, decide_true]
        omega
      · simp [hg]
    · rcases mem_append.1 hq with hq | hq
      · exact inv.queue q hq
      · rw [mem_singleton.1 hq]
        exact hlt
  | overflow =>
    exact ⟨inv.pending, inv.fresh, inv.queue, inv.workers⟩
  | wait g₀ code status =>
    have ha : awaits w = some g₀ := by simp [awaits, status]
    refine ⟨fun g => ?_, inv.fresh, inv.queue, workers_replace inv hl (Nat.le_refl _)
      (hw.of_awaits rfl (hw.awaits g₀ ha) fun g hg => hw.nested g g₀ hg ha)⟩
    rw [hload g, load_split rfl]
    simp [share, unsubmitted, status]

end

theorem inv_initial (callers workers messages : Nat) :
    Inv (initial callers workers messages : State σ τ) := by
  refine ⟨fun g => ?_, fun _ _ => rfl, nofun, fun w hw => ?_⟩
  · simp [initial, load, share, unsubmitted]
  · simp only [initial, mem_append, mem_replicate] at hw
    rcases hw with ⟨-, rfl⟩ | ⟨-, rfl⟩ <;> exact ⟨fun _ => rfl, fun _ => rfl, nofun, nofun, nofun⟩

theorem inv_of_reaches {s₀ : State σ τ} (inv : Inv s₀)
    (h : Relation.ReflTransGen (Step P capacity) s₀ s) : Inv s := by
  induction h with
  | refl => exact inv
  | tail _ hstep ih =>
    obtain ⟨i, c, hstep⟩ := hstep
    obtain ⟨-, l, w, r, hl, heff⟩ := step_cases hstep
    exact heff.preserves ih hl

/-! ## Progress -/

theorem step_of_move (hp : s.panicked = false) (hw : w ∈ s.workers)
    (hmove : ∀ i, (move P capacity c s i w).isSome) : ∃ s', Step P capacity s s' := by
  obtain ⟨i, hi⟩ := getElem?_of_mem hw
  obtain ⟨s', hs'⟩ := isSome_iff_exists.1 (hmove i)
  exact ⟨s', i, c, by simp [step, hp, hi, hs']⟩

theorem move_of_busy (c : χ) (hidle : w.status ≠ .idle)
    (hwait : ∀ g code, w.status ≠ .waiting g code) (i : Nat) :
    (move P capacity c s i w).isSome := by
  unfold move
  split <;> simp_all

theorem move_of_joined (c : χ) {g : Nat} {code : σ} (hs : w.status = .waiting g code)
    (hg : (s.groups g).pending = 0) (i : Nat) : (move P capacity c s i w).isSome := by
  simp [move, hs, hg]

theorem move_of_queued (c : χ) (hr : w.role = .pool) (hs : w.status = .idle) (hq : s.queue ≠ [])
    (i : Nat) : (move P capacity c s i w).isSome := by
  obtain ⟨⟨g, t⟩, rest, hq⟩ := exists_cons_of_ne_nil hq
  simp [move, hs, take, hr, hq]

theorem not_parked_of_drained (inv : Inv s) (hq : s.queue = [])
    (hall : ∀ w ∈ s.workers, w.status = .idle ∨ Parked s w) :
    ∀ (k g : Nat) (w : Worker σ τ) (code : σ), s.opened ≤ g + k → w ∈ s.workers →
      w.status = .waiting g code → False := by
  intro k
  induction k with
  | zero =>
    intro g w code hk hw hs
    have := (inv.workers w hw).awaits g (by simp [awaits, hs])
    omega
  | succ k ih =>
    intro g w code hk hw hs
    have hpark : Parked s w := (hall w hw).resolve_left (by simp [hs])
    obtain ⟨g₁, code₁, hs₁, hpend⟩ := hpark
    rw [hs] at hs₁
    cases hs₁
    -- some worker accounts for an unfinished task of the group
    rw [inv.pending g, load, hq, countP_nil] at hpend
    obtain ⟨v, hv, hshare⟩ : ∃ v ∈ s.workers, share g v ≠ 0 := by
      by_contra hnone
      push Not at hnone
      have hzero : (s.workers.map (share g)).sum = 0 := by
        rw [map_congr_left hnone]
        simp
      omega
    rcases hall v hv with hidle | ⟨g', code', hs', -⟩
    · have hserves := (inv.workers v hv).idle hidle
      simp [share, unsubmitted, hidle, hserves] at hshare
    · have hserves : v.serves = some g := by
        by_contra hne
        simp [share, unsubmitted, hs', hne] at hshare
      have hlt := (inv.workers v hv).nested g g' hserves (by simp [awaits, hs'])
      exact ih g' v code' (by omega) hv hs'

theorem progress_of_slack [Nonempty χ] (inv : Inv s) (slack : Slack s) : Progress P capacity s := by
  obtain ⟨c⟩ := ‹Nonempty χ›
  cases hp : s.panicked with
  | true => exact .inr (.inr hp)
  | false =>
    by_cases henabled : ∃ s', Step P capacity s s'
    · exact .inr (.inl henabled)
    -- nothing moves: every worker is idle or parked
    have hall : ∀ w ∈ s.workers, w.status = .idle ∨ Parked s w := by
      intro w hw
      by_cases hidle : w.status = .idle
      · exact .inl hidle
      by_cases hwait : ∃ g code, w.status = .waiting g code
      · obtain ⟨g, code, hs⟩ := hwait
        refine .inr ⟨g, code, hs, Nat.pos_of_ne_zero fun hg => henabled ?_⟩
        exact step_of_move hp hw (move_of_joined c hs hg)
      · push Not at hwait
        exact absurd (step_of_move hp hw (move_of_busy c hidle hwait)) henabled
    obtain ⟨v, hv, hpool, hnot⟩ := slack
    have hidle := (hall v hv).resolve_right hnot
    have hq : s.queue = [] := by
      by_contra hq
      exact henabled (step_of_move hp hv (move_of_queued c hpool hidle hq))
    left
    intro w hw
    rcases hall w hw with hidle | ⟨g, code, hs, -⟩
    · exact hidle
    · exact (not_parked_of_drained inv hq hall s.opened g w code (by omega) hw hs).elim

theorem starved_step (inv : Inv s) (h : Step P capacity s s') (starved : ¬ Slack s) :
    ¬ Slack s' := by
  obtain ⟨i, c, h⟩ := h
  obtain ⟨-, l, w, r, hl, heff⟩ := step_cases h
  have hpark : ∀ v ∈ s.workers, v.role = .pool → Parked s v := fun v hv hr =>
    Classical.byContradiction fun hnot => starved ⟨v, hv, hr, hnot⟩
  have hmem : w ∈ s.workers := by simp [hl]
  -- a parked worker cannot move, so the mover is a caller, which serves no group
  have hcaller : w.role = .caller := by
    by_contra hne
    have hpool : w.role = .pool := by
      cases hr : w.role with
      | caller => exact absurd hr hne
      | pool => rfl
    obtain ⟨g, code, hs, hpend⟩ := hpark w hmem hpool
    cases heff <;> simp_all
  have hserves := (inv.workers w hmem).caller hcaller
  have hgroups : ∀ g, g < s.opened → s'.groups g = s.groups g := by
    intro g hg
    cases heff with
    | fork =>
      exact update_of_ne (Nat.ne_of_lt hg) _ _
    | finish => simp [finished, hserves]
    | _ => rfl
  have hworkers : ∀ v ∈ s'.workers, v.role = .pool → v ∈ s.workers := by
    intro v hv hr
    rcases heff.workers with heq | ⟨w', heq, hrole⟩
    · rwa [← heq]
    · rw [heq] at hv
      have hne : v ≠ w' := by
        rintro rfl
        rw [hrole, hcaller] at hr
        cases hr
      rw [hl]
      simp only [mem_append, mem_cons] at hv ⊢
      tauto
  rintro ⟨v, hv, hpool, hnot⟩
  obtain ⟨g, code, hs, hpend⟩ := hpark v (hworkers v hv hpool) hpool
  have hlt := (inv.workers v (hworkers v hv hpool)).awaits g (by simp [awaits, hs])
  exact hnot ⟨g, code, hs, by rwa [hgroups g hlt]⟩

end

end Octo.Foundation.ForkJoin
