import Octo.Foundation.Trace

/-!
# Watch mode

`cli/watch.go` and the reload loop of `cli/main.go`: a watcher goroutine turns file events into one
debounced signal on a channel with one slot, and the loop takes the signal in three places, tears the
running generation down and loads the config again.

* `watch_never_misses` — at most one generation runs, and once nothing is on its way and the loop is
  parked, the last load began after the last change.
-/

namespace Octo.Cli

open List Option
open Octo.Foundation (Walk walk_induction walkTo walk_of_walkTo)

/-! ## State -/

/-- The debounce timer: none, running, or with its tick ready on its channel. -/
inductive Timer where
  | off
  | armed
  | fired
deriving DecidableEq

/-- `service.Run` of a generation: running, or back with its result on `done`. -/
inductive Generation where
  | running
  | done
deriving DecidableEq

/-- Where `runWithReload` stands: before `LoadConfig` or in it, at the select of `runGeneration`, at
`<-done`, in `waitForChange`, or back. -/
inductive Loop where
  | load
  | loading
  | serving
  | reloading
  | leaving
  | waiting
  | returned
deriving DecidableEq

/-- The watcher, the loop and the generations, the newest first.  `changes` counts the file changes so
far, and `loadedAt` is what it was when the last `LoadConfig` began. -/
structure State where
  changes : Nat
  events : Nat
  timer : Timer
  changed : Bool
  cancelled : Bool
  watching : Bool
  loop : Loop
  generations : List Generation
  loadedAt : Option Nat
deriving DecidableEq

def initial : State := ⟨0, 0, .off, false, false, true, .load, [], none⟩

/-! ## Steps -/

/-- The cases of the select of `watchLoop`. -/
inductive WatchCase where
  | ctxDone
  | event
  | error
  | timer
deriving DecidableEq

/-- The moves of the loop: the load begins or ends, or a case of a select or a receive is taken. -/
inductive LoopMove where
  | load
  | loaded (ok : Bool)
  | ctxDone
  | changed
  | done
deriving DecidableEq

inductive Action where
  | change (more : Nat)
  | event
  | cancel
  | expire
  | watch (c : WatchCase)
  | loop (m : LoopMove)
  /-- `service.Run` of a generation returns, by itself, with an error or cancelled. -/
  | exit (generation : Nat)
deriving DecidableEq

namespace State

variable (s : State)

/-- A running timer is reset, which discards a tick that is ready. -/
def armDebounce : State := { s with timer := .armed }

/-- The send does not block; a signal that is pending stands for this one too. -/
def notify : State := { s with changed := true }

def watchLoop : WatchCase → Option State
  | .ctxDone => if s.watching ∧ s.cancelled then some { s with watching := false } else none
  | .event =>
    if s.watching ∧ 0 < s.events then some { s with events := s.events - 1 }.armDebounce else none
  | .error => if s.watching then some s else none
  | .timer =>
    if s.watching ∧ s.timer = .fired then some { s with timer := .off }.notify else none

/-- `runWithReload` with `runGeneration` and `waitForChange`. A load or a generation that fails
waits for a change, and so does one that ends by itself. -/
def runWithReload : LoopMove → Option State
  | .load =>
    if s.loop = .load then some { s with loop := .loading, loadedAt := some s.changes } else none
  | .loaded ok =>
    if s.loop = .loading then
      if ok then some { s with loop := .serving, generations := .running :: s.generations }
      else some { s with loop := .waiting }
    else none
  | .ctxDone =>
    if s.cancelled then
      match s.loop with
      | .serving => some { s with loop := .leaving }
      | .waiting => some { s with loop := .returned }
      | _ => none
    else none
  | .changed =>
    if s.changed then
      match s.loop with
      | .serving => some { s with changed := false, loop := .reloading }
      | .waiting => some { s with changed := false, loop := .load }
      | _ => none
    else none
  | .done =>
    if s.generations.head? = some .done then
      match s.loop with
      | .serving => some { s with loop := .waiting }
      | .reloading => some { s with loop := .load }
      | .leaving => some { s with loop := .returned }
      | _ => none
    else none

def step : Action → Option State
  | .change more => some { s with changes := s.changes + 1, events := s.events + more + 1 }
  | .event => some { s with events := s.events + 1 }
  | .cancel => some { s with cancelled := true }
  | .expire => if s.timer = .armed then some { s with timer := .fired } else none
  | .watch c => s.watchLoop c
  | .loop m => s.runWithReload m
  | .exit i =>
    if s.generations[i]? = some .running then
      some { s with generations := s.generations.set i .done }
    else none

def Parked : Prop := (s.loop = .serving ∨ s.loop = .waiting) ∧ ∀ m, s.runWithReload m = none

/-! ## No change is missed -/

def UpToDate : Prop := s.loadedAt = some s.changes

/-- A reload is on its way: an event, a tick, a signal, or a loop that is about to load or to end. -/
def Pending : Prop :=
  0 < s.events ∨ s.timer ≠ .off ∨ s.changed = true ∨ s.loop = .load ∨ s.loop = .reloading ∨
    s.cancelled = true

def Fresh : Prop := s.UpToDate ∨ s.Pending

end State

variable {s s' : State}

open State

theorem fresh_watchLoop {c : WatchCase} (h : s.Fresh) (hstep : s.watchLoop c = some s') :
    s'.Fresh := by
  cases c with
  | ctxDone =>
    -- the watcher ends only after the cancellation
    simp only [watchLoop, ite_none_right_eq_some, some.injEq] at hstep
    obtain ⟨⟨-, hcancelled⟩, rfl⟩ := hstep
    exact .inr (by simp [State.Pending, hcancelled])
  | event =>
    simp only [watchLoop, ite_none_right_eq_some, some.injEq] at hstep
    obtain ⟨-, rfl⟩ := hstep
    exact .inr (by simp [State.Pending, armDebounce])
  | error =>
    simp only [watchLoop, ite_none_right_eq_some, some.injEq] at hstep
    obtain ⟨-, rfl⟩ := hstep
    exact h
  | timer =>
    simp only [watchLoop, ite_none_right_eq_some, some.injEq] at hstep
    obtain ⟨-, rfl⟩ := hstep
    exact .inr (by simp [State.Pending, notify])

theorem fresh_runWithReload {m : LoopMove} (h : s.Fresh) (hstep : s.runWithReload m = some s') :
    s'.Fresh := by
  cases m with
  | load =>
    simp only [runWithReload, ite_none_right_eq_some, some.injEq] at hstep
    obtain ⟨-, rfl⟩ := hstep
    exact .inl rfl
  | loaded =>
    simp only [runWithReload, ite_none_right_eq_some] at hstep
    obtain ⟨hloop, hstep⟩ := hstep
    have hfresh : ∀ next gens, s.Fresh → State.Fresh { s with loop := next, generations := gens } := by
      intro next gens h
      refine h.imp_right fun hp => ?_
      simp only [State.Pending, hloop] at hp ⊢
      tauto
    split at hstep <;> cases hstep
    · exact hfresh _ _ h
    · exact hfresh _ s.generations h
  | ctxDone =>
    simp only [runWithReload, ite_none_right_eq_some] at hstep
    obtain ⟨hcancelled, hstep⟩ := hstep
    split at hstep <;> cases hstep <;> exact .inr (by simp [State.Pending, hcancelled])
  | changed =>
    simp only [runWithReload, ite_none_right_eq_some] at hstep
    obtain ⟨-, hstep⟩ := hstep
    split at hstep <;> cases hstep <;> exact .inr (by simp [State.Pending])
  | done =>
    simp only [runWithReload, ite_none_right_eq_some] at hstep
    obtain ⟨-, hstep⟩ := hstep
    split at hstep <;> cases hstep
    next hloop =>
      refine h.imp_right fun hp => ?_
      simp only [State.Pending, hloop] at hp ⊢
      tauto
    · exact .inr (by simp [State.Pending])
    next hloop =>
      refine h.imp_right fun hp => ?_
      simp only [State.Pending, hloop] at hp ⊢
      tauto

theorem fresh_step {a : Action} (h : s.Fresh) (hstep : s.step a = some s') : s'.Fresh := by
  cases a with
  | change more | event =>
    cases hstep
    exact .inr (.inl (Nat.succ_pos _))
  | cancel =>
    cases hstep
    exact .inr (by simp [State.Pending])
  | expire =>
    simp only [step, ite_none_right_eq_some, some.injEq] at hstep
    obtain ⟨-, rfl⟩ := hstep
    exact .inr (by simp [State.Pending])
  | watch => exact fresh_watchLoop h hstep
  | loop => exact fresh_runWithReload h hstep
  | exit =>
    simp only [step, ite_none_right_eq_some, some.injEq] at hstep
    obtain ⟨-, rfl⟩ := hstep
    exact h

/-! ## Generations do not overlap -/

def Loop.serves : Loop → Bool
  | .serving | .reloading | .leaving => true
  | _ => false

def State.Alone (s : State) : Prop :=
  ∀ i : Nat, s.generations[i]? = some .running → i = 0 ∧ s.loop.serves = true

def State.running (s : State) : Nat := s.generations.countP (· = .running)

theorem State.Alone.running_le_one (h : s.Alone) : s.running ≤ 1 := by
  unfold running
  cases hg : s.generations with
  | nil => simp
  | cons g rest =>
    have hrest : rest.countP (· = .running) = 0 := by
      rw [countP_eq_zero]
      intro x hx hrunning
      obtain ⟨i, hi⟩ := getElem?_of_mem hx
      rw [of_decide_eq_true hrunning] at hi
      have hzero := (h (i + 1) (by rw [hg]; exact hi)).1
      omega
    rw [countP_cons]
    split <;> omega

theorem alone_move {next : Loop} {changed : Bool} {loaded : Option Nat} (h : s.Alone)
    (hnext : s.loop.serves = true → next.serves = true ∨ s.generations.head? = some .done) :
    State.Alone { s with loop := next, changed, loadedAt := loaded } := by
  intro i hi
  obtain ⟨rfl, hserves⟩ := h i hi
  rcases hnext hserves with hstill | hdone
  · exact ⟨rfl, hstill⟩
  · rw [head?_eq_getElem?] at hdone
    cases hdone.symm.trans hi

theorem alone_runWithReload {m : LoopMove} (h : s.Alone) (hstep : s.runWithReload m = some s') :
    s'.Alone := by
  cases m with
  | load =>
    simp only [runWithReload, ite_none_right_eq_some, some.injEq] at hstep
    obtain ⟨hloop, rfl⟩ := hstep
    exact alone_move h (by simp [hloop, Loop.serves])
  | loaded =>
    simp only [runWithReload, ite_none_right_eq_some] at hstep
    obtain ⟨hloop, hstep⟩ := hstep
    split at hstep <;> cases hstep
    · -- no generation is running while the config loads
      intro i hi
      cases i with
      | zero => exact ⟨rfl, rfl⟩
      | succ i =>
        have hold := (h i (by simpa using hi)).2
        rw [hloop] at hold
        cases hold
    · exact alone_move h (by simp [hloop, Loop.serves])
  | ctxDone | changed =>
    simp only [runWithReload, ite_none_right_eq_some] at hstep
    obtain ⟨-, hstep⟩ := hstep
    split at hstep <;> cases hstep
    · exact alone_move h (by simp [Loop.serves])
    next hloop =>
      exact alone_move h (by simp [hloop, Loop.serves])
  | done =>
    simp only [runWithReload, ite_none_right_eq_some] at hstep
    obtain ⟨hdone, hstep⟩ := hstep
    split at hstep <;> cases hstep <;> exact alone_move h fun _ => .inr hdone

theorem alone_step {a : Action} (h : s.Alone) (hstep : s.step a = some s') : s'.Alone := by
  cases a with
  | change more | event | cancel =>
    cases hstep
    exact h
  | expire =>
    simp only [step, ite_none_right_eq_some, some.injEq] at hstep
    obtain ⟨-, rfl⟩ := hstep
    exact h
  | watch c =>
    cases c <;> simp only [step, watchLoop, ite_none_right_eq_some, some.injEq]
        at hstep <;> obtain ⟨-, rfl⟩ := hstep <;> exact h
  | loop => exact alone_runWithReload h hstep
  | exit i =>
    simp only [step, ite_none_right_eq_some, some.injEq] at hstep
    obtain ⟨-, rfl⟩ := hstep
    intro j hj
    apply h j
    by_cases hij : i = j
    · subst hij
      simp [getElem?_set] at hj
    · rwa [getElem?_set_ne hij] at hj

/-- **Watch mode.** At most one generation is running; and when nothing is pending and the loop is
parked, the last `LoadConfig` began after the last file change. -/
theorem watch_never_misses {actions : List Action} {s : State}
    (h : Walk State.step (fun _ _ => True) initial actions s) : s.running ≤ 1 ∧
    (s.events = 0 → s.timer = .off → s.changed = false → s.Parked →
      s.loadedAt = some s.changes) := by
  have hinv : s.Fresh ∧ s.Alone := by
    apply walk_induction _ h
    · exact ⟨.inr (by simp [State.Pending, initial]), by simp [State.Alone, initial]⟩
    · intro s a s' hs _ hstep
      exact ⟨fresh_step hs.1 hstep, alone_step hs.2 hstep⟩
  refine ⟨hinv.2.running_le_one, fun hevents htimer hchanged hparked => ?_⟩
  rcases hinv.1 with hup | hpending
  · exact hup
  · exfalso
    -- a parked loop is at a select whose `ctx.Done()` is not ready
    have hlive : s.cancelled = false := by
      by_contra hcancelled
      have hctx := hparked.2 .ctxDone
      rcases hparked.1 with hloop | hloop <;> simp [runWithReload, hloop, hcancelled] at hctx
    rcases hparked.1 with hloop | hloop <;>
      simp [State.Pending, hevents, htimer, hchanged, hloop, hlive] at hpending

def editedRun : List Action :=
  [.loop .load, .change 0, .watch .event, .change 1, .loop (.loaded true), .watch .event, .watch .event,
    .expire, .watch .timer, .loop .changed, .exit 0, .loop .done, .loop .load, .loop (.loaded true)]

theorem editedRun_enabled :
    (walkTo step (fun _ _ => True) initial editedRun).isSome = true := by decide

theorem editedRun_is_seen : ∃ s : State, walkTo step (fun _ _ => True) initial editedRun = some s ∧
    s.generations = [.running, .done] ∧ s.running ≤ 1 ∧ s.loadedAt = some 2 := by
  have h := watch_never_misses (walk_of_walkTo (some_get editedRun_enabled).symm)
  refine ⟨_, (some_get editedRun_enabled).symm, ?_, h.1, h.2 ?_ ?_ ?_ ⟨?_, ?_⟩⟩
  · decide
  · decide
  · decide
  · decide
  · decide
  · intro m
    cases m with
    | loaded ok => cases ok <;> decide
    | load | ctxDone | changed | done => decide

end Octo.Cli
