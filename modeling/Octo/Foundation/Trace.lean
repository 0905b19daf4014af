import Mathlib.Data.List.Induction
import Mathlib.Data.List.Basic

/-!
# Runs and the order of events

A run is a fold of a step function over a list of actions; what happened in it is a log of events,
and "`x`, later `y`, later `z`" is that `[x, y, z]` is a sublist of the log.

* `concat_sublist_concat` — how an order of events can arise at the last event.
* `run_induction` — an invariant of the steps taken holds in the last state.
* `along_induction` — the same for a run whose steps all meet a condition.
* `along_iff` — exactly the runs whose steps all meet it stay good, when a step that does not meet it
  leads out of the good states.
* `exists_step_of_run` — what a run brings about, one of its steps brings about.
* `forall_view` — what holds of the parts a run is about, and held of the others, holds of all.
* `Walk` — a run of steps that are not always enabled, with `walk_induction`; `walkTo` computes it.
-/

namespace Octo.Foundation

open List

variable {S A E : Type}

/-! ## The order of events -/

theorem concat_sublist_concat {l m : List E} {x e : E} :
    (l ++ [x]).Sublist (m ++ [e]) ↔ (l ++ [x]).Sublist m ∨ x = e ∧ l.Sublist m := by
  have hcons : (x :: l.reverse).Sublist (e :: m.reverse) ↔ _ := cons_sublist_cons'
  simpa only [← reverse_concat, reverse_sublist] using hcons

/-! ## Runs -/

variable {actions : List A} {P : S → A → Prop}

variable {s : S}

theorem run_induction (step : S → A → S) (P : S → Prop) (h : P s)
    (hstep : ∀ before a rest, actions = before ++ a :: rest → P (before.foldl step s) → P (step (before.foldl step s) a)) :
    P (actions.foldl step s) := by
  induction actions using List.reverseRecOn with
  | nil => exact h
  | append_singleton actions a ih =>
    rw [foldl_append]
    apply hstep actions a [] rfl
    apply ih
    intro before x rest heq hp
    exact hstep before x (rest ++ [a]) (by simp [heq]) hp

def Along (step : S → A → S) (P : S → A → Prop) : S → List A → Prop
  | _, [] => True
  | s, a :: rest => P s a ∧ Along step P (step s a) rest

variable {step : S → A → S}

theorem along_induction {Q : S → Prop}
    (hstep : ∀ s a, Q s → P s a → Q (step s a)) :
    ∀ {s : S}, Q s → Along step P s actions → Q (actions.foldl step s) := by
  induction actions with
  | nil =>
    intro s hq _
    exact hq
  | cons a rest ih =>
    intro s hq h
    exact ih (hstep s a hq h.1) h.2

theorem along_iff {Q G : S → Prop} (hgood : ∀ s, Q s → G s)
    (hstep : ∀ s a, Q s → P s a → Q (step s a)) (hbad : ∀ s a, Q s → ¬P s a → ¬G (step s a)) :
    ∀ {actions : List A} {s : S}, Q s →
      (Along step P s actions ↔ ∀ before, before <+: actions → G (before.foldl step s))
  | [], s, hq => by
    refine iff_of_true trivial fun before hbefore => ?_
    rw [prefix_nil.1 hbefore]
    exact hgood s hq
  | a :: actions, s, hq => by
    constructor
    · rintro ⟨ha, hrest⟩ before hbefore
      rcases prefix_cons_iff.1 hbefore with rfl | ⟨before, rfl, hbefore'⟩
      · exact hgood s hq
      · exact (along_iff hgood hstep hbad (hstep s a hq ha)).1 hrest before hbefore'
    · intro h
      have ha : P s a := by
        by_contra hno
        exact hbad s a hq hno (h [a] (prefix_cons_inj a |>.2 nil_prefix))
      refine ⟨ha, (along_iff hgood hstep hbad (hstep s a hq ha)).2 fun before hbefore => ?_⟩
      exact h (a :: before) ((prefix_cons_inj a).2 hbefore)

theorem exists_step_of_run (step : S → A → S) (P : S → Prop) (h : ¬P s)
    (hrun : P (actions.foldl step s)) :
    ∃ before a rest, actions = before ++ a :: rest ∧ ¬P (before.foldl step s) ∧
      P (step (before.foldl step s) a) := by
  by_contra hno
  have hnot : ¬P (actions.foldl step s) := by
    apply run_induction step (fun s => ¬P s) h
    intro before a rest heq hp hq
    exact hno ⟨before, a, rest, heq, hp, hq⟩
  exact hnot hrun

/-! ## What a run is about -/

section View

variable {ι V : Type} {step : S → A → S} {view : S → ι → V} {about : A → Option ι}

theorem view_frame (hstep : ∀ s a i, about a ≠ some i → view (step s a) i = view s i) {i : ι} :
    ∀ {actions : List A} {s : S}, (∀ a ∈ actions, about a ≠ some i) →
      view (actions.foldl step s) i = view s i
  | [], _, _ => rfl
  | a :: actions, s, h => by
    rw [foldl_cons, view_frame hstep fun b hb => h b (mem_cons_of_mem a hb)]
    exact hstep s a i (h a mem_cons_self)

theorem forall_view (view : S → ι → V) (about : A → Option ι)
    (hstep : ∀ s a i, about a ≠ some i → view (step s a) i = view s i)
    {actions : List A} {P : V → Prop} (hinit : ∀ i, P (view s i))
    (h : ∀ a ∈ actions, ∀ i ∈ about a, P (view (actions.foldl step s) i)) (i : ι) :
    P (view (actions.foldl step s) i) := by
  by_cases hi : ∃ a ∈ actions, about a = some i
  · obtain ⟨a, ha, hi⟩ := hi
    exact h a ha i hi
  · rw [view_frame hstep fun a ha hai => hi ⟨a, ha, hai⟩]
    exact hinit i

end View

/-! ## Steps that are not always enabled -/

/-- A run of enabled steps, each of which meets a condition in the state it is taken in. -/
inductive Walk (step : S → A → Option S) (P : S → A → Prop) : S → List A → S → Prop where
  | nil (s : S) : Walk step P s [] s
  | cons {s s' t : S} {a : A} {rest : List A} (meets : P s a) (enabled : step s a = some s')
      (next : Walk step P s' rest t) : Walk step P s (a :: rest) t

variable {step : S → A → Option S}

theorem walk_induction {Q : S → Prop}
    (hstep : ∀ s a s', Q s → P s a → step s a = some s' → Q s') {t : S}
    (h : Walk step P s actions t) (hq : Q s) : Q t := by
  induction h with
  | nil => exact hq
  | cons hmeets henabled _ ih => exact ih (hstep _ _ _ hq hmeets henabled)

theorem Walk.mono {P' : S → A → Prop} (hP : ∀ s a, P s a → P' s a)
    {t : S} (h : Walk step P s actions t) : Walk step P' s actions t := by
  induction h with
  | nil s => exact .nil s
  | cons hmeets henabled _ ih => exact .cons (hP _ _ hmeets) henabled ih

def walkTo (step : S → A → Option S) (P : S → A → Prop) [∀ s a, Decidable (P s a)] :
    S → List A → Option S
  | s, [] => some s
  | s, a :: rest => if P s a then (step s a).bind fun s' => walkTo step P s' rest else none

theorem walk_of_walkTo [∀ s a, Decidable (P s a)] :
    ∀ {actions : List A} {s t : S}, walkTo step P s actions = some t → Walk step P s actions t
  | [], s, t, h => by
    cases h
    exact .nil s
  | a :: rest, s, t, h => by
    rw [walkTo, Option.ite_none_right_eq_some] at h
    obtain ⟨hmeets, hrest⟩ := h
    obtain ⟨s', henabled, hnext⟩ := Option.bind_eq_some_iff.1 hrest
    exact .cons hmeets henabled (walk_of_walkTo hnext)

end Octo.Foundation
