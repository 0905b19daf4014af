import Mathlib.Data.List.FinRange
import Mathlib.Data.List.Perm.Subperm
import Mathlib.Logic.Function.Basic

/-!
# Programs that fork, over a store of arenas

A program makes calls to a store and forks: its branches run in parallel, and it waits for all of
them.  Each thread allocates in an arena of its own, so the store is a family of arenas.  A thread
is named by the branches taken to it, the innermost first: the threads that forked it are the
suffixes of its name.

A program is `Safe` when each of its calls depends on no other arenas than those of its thread and
of the threads that forked it, and writes to none but its own.  `W` says what it may do to its own
arena, `Q` in what it ends.

* `safe_bind` — one safe program after another.
* `run_safe` — a safe program stays safe along a run, whatever other threads do.
* `run_alone` — **noninterference**: the same moves of the program alone lead to the same program
  and the same arenas.
* `run_par` — the run of a fork is a run of each branch, with the other branches as its
  environment, and leaves the arenas of the forking threads as they are.
* `run_bind` — a run of one program after another splits.
* `run_alike` — programs that make the same calls have the same runs.
-/

namespace Octo.Foundation.Parallel

open List Function Option

abbrev Thread := List Nat

/-- A program that makes calls and forks. Of a fork that waits, the branches as they are by now and
the results of those that ended, in order. -/
inductive Prog (Op : Type) (Answer : Op → Type) (β : Type) : Type where
  | done (b : β)
  | call (op : Op) (next : Answer op → Prog Op Answer β)
  | par (n : Nat) (branch : Fin n → Prog Op Answer β) (ended : List (Fin n × β))
      (next : List (Fin n × β) → Prog Op Answer β)

/-- A move: a call, answered with a choice of the environment, a move of a branch, the end of a
branch, or the end of the wait. -/
inductive Move (χ : Type) where
  | act (c : χ)
  | inside (i : Nat) (m : Move χ)
  | finish (i : Nat)
  | join

def Move.of {χ : Type} (i : Nat) : Move χ → Option (Move χ)
  | .inside j m => if j = i then some m else none
  | _ => none

open Prog

section

variable {Op : Type} {Answer : Op → Type} {β A χ : Type}

def Prog.bind : Prog Op Answer β → (β → Prog Op Answer β) → Prog Op Answer β
  | .done b, k => k b
  | .call op next, k => .call op fun a => (next a).bind k
  | .par n branch ended next, k => .par n branch ended fun e => (next e).bind k

variable (handle : (op : Op) → Thread → χ → (Thread → A) → Answer op × (Thread → A))

/-! ## Runs -/

def step : Prog Op Answer β → Thread → (Thread → A) → Move χ →
    Option (Prog Op Answer β × (Thread → A))
  | .call op next, t, s, .act c => some (next (handle op t c s).1, (handle op t c s).2)
  | .par n branch ended next, t, s, .inside i m =>
    if h : i < n then
      (step (branch ⟨i, h⟩) (i :: t) s m).map fun r =>
        (.par n (update branch ⟨i, h⟩ r.1) ended next, r.2)
    else none
  | .par n branch ended next, _, s, .finish i =>
    if h : i < n then
      match branch ⟨i, h⟩ with
      | .done b =>
        if ⟨i, h⟩ ∈ ended.map (·.1) then none
        else some (.par n branch (ended ++ [(⟨i, h⟩, b)]) next, s)
      | _ => none
    else none
  | .par n _ ended next, _, s, .join => if ended.length = n then some (next ended, s) else none
  | _, _, _, _ => none

def runMoves (p : Prog Op Answer β) (t : Thread) (s : Thread → A) :
    List (Move χ) → Option (Prog Op Answer β × (Thread → A))
  | [] => some (p, s)
  | m :: ms => (step handle p t s m).bind fun r => runMoves r.1 t r.2 ms

def Kin (t u : Thread) : Prop := u <:+ t ∨ t <:+ u

/-- A run of a program, with other threads in between: those leave the arenas of its kin alone. -/
inductive Run (t : Thread) : Prog Op Answer β → (Thread → A) → List (Move χ) →
    Prog Op Answer β → (Thread → A) → Prop
  | refl (p : Prog Op Answer β) (s : Thread → A) : Run t p s [] p s
  | env {p p' : Prog Op Answer β} {s s₁ s' : Thread → A} {ms : List (Move χ)}
      (h : ∀ u, Kin t u → s₁ u = s u) (r : Run t p s₁ ms p' s') : Run t p s ms p' s'
  | move {p p₁ p' : Prog Op Answer β} {s s₁ s' : Thread → A} {m : Move χ} {ms : List (Move χ)}
      (h : step handle p t s m = some (p₁, s₁)) (r : Run t p₁ s₁ ms p' s') :
      Run t p s (m :: ms) p' s'

/-! ## Safe programs -/

/-- The call depends on the arenas of the thread and of those that forked it, and changes only the
arena of the thread. -/
def LocalAt (op : Op) (t : Thread) (c : χ) (s : Thread → A) : Prop :=
  ∀ s₂ : Thread → A, (∀ u, u <:+ t → s₂ u = s u) →
    (handle op t c s₂).1 = (handle op t c s).1 ∧ (handle op t c s₂).2 t = (handle op t c s).2 t ∧
      ∀ u, u ≠ t → (handle op t c s₂).2 u = s₂ u

/-- The program makes local calls only, changes its own arena by `W` only, and ends in `Q`.  A
branch may do what it likes to its arena. -/
def Safe : Prog Op Answer β → Thread → (A → A → Prop) → (β → (Thread → A) → Prop) →
    (Thread → A) → Prop
  | .done b, _, _, Q, s => Q b s
  | .call op next, t, W, Q, s => ∀ c, LocalAt handle op t c s ∧
      W (s t) ((handle op t c s).2 t) ∧ Safe (next (handle op t c s).1) t W Q (handle op t c s).2
  | .par n branch _ next, t, W, Q, s =>
      (∀ i : Fin n, Safe (branch i) (i :: t) (fun _ _ => True) (fun _ _ => True) s) ∧
        ∀ ended s', (∀ u, u <:+ t → s' u = s u) → Safe (next ended) t W Q s'

def Stable (t : Thread) (Q : β → (Thread → A) → Prop) : Prop :=
  ∀ b s s', (∀ u, u <:+ t → s' u = s u) → Q b s → Q b s'

variable {handle}

variable {t : Thread} {Q : β → (Thread → A) → Prop} {W : A → A → Prop} {p p' q : Prog Op Answer β}
  {k : β → Prog Op Answer β} {s s' : Thread → A} {m : Move χ} {n : Nat} {ms : List (Move χ)}
  {branch : Fin n → Prog Op Answer β} {ended : List (Fin n × β)}

theorem stable_true : Stable (A := A) t (fun (_ : β) _ => True) := fun _ _ _ _ _ =>
  trivial

/-! ## Kin -/

theorem kin_self (t : Thread) : Kin t t := .inl (suffix_refl t)

variable {u : Thread} {i : Nat}

theorem kin_cons (h : Kin (i :: t) u) : Kin t u := by
  rcases h with h | h
  · rcases suffix_cons_iff.1 h with rfl | h
    · exact .inr (suffix_cons i t)
    · exact .inl h
  · exact .inr ((suffix_cons i t).trans h)

theorem not_suffix_of_cons (h : u <:+ t) : ¬i :: t <:+ u := by
  intro h'
  have hle := (h'.trans h).length_le
  simp only [length_cons] at hle
  omega

theorem not_suffix_of_kin {j : Nat} (hij : i ≠ j) (h : Kin (i :: t) u) : ¬j :: t <:+ u := by
  intro hj
  rcases h with h | h
  · exact hij (List.cons.inj ((hj.trans h).eq_of_length (by simp))).1.symm
  · rcases suffix_or_suffix_of_suffix h hj with hs | hs
    · exact hij (List.cons.inj (hs.eq_of_length (by simp))).1
    · exact hij (List.cons.inj (hs.eq_of_length (by simp))).1.symm

/-! ## Rules -/

theorem Safe.imp {W' : A → A → Prop} {Q' : β → (Thread → A) → Prop} (hW : ∀ a a', W a a' → W' a a')
    (hQ : ∀ b s, Q b s → Q' b s) :
    ∀ {s : Thread → A}, Safe handle p t W Q s → Safe handle p t W' Q' s := by
  induction p with
  | done => exact hQ _ _
  | call op next ih => exact fun h c => ⟨(h c).1, hW _ _ (h c).2.1, ih _ (h c).2.2⟩
  | par n branch ended next _ ih => exact fun h => ⟨h.1, fun e s' hs => ih e (h.2 e s' hs)⟩

theorem safe_bind :
    ∀ {s : Thread → A}, Safe handle p t W (fun b s' => Safe handle (k b) t W Q s') s →
      Safe handle (p.bind k) t W Q s := by
  induction p with
  | done => exact fun h => h
  | call op next ih => exact fun h c => ⟨(h c).1, (h c).2.1, ih _ (h c).2.2⟩
  | par n branch ended next _ ih => exact fun h => ⟨h.1, fun e s' hs => ih e (h.2 e s' hs)⟩

theorem Safe.track (hrefl : ∀ a, W a a) (htrans : ∀ a b c, W a b → W b c → W a c)
    (h : Safe handle p t W Q s) :
    Safe handle p t W (fun b s' => Q b s' ∧ W (s t) (s' t) ∧ ∀ u, u <:+ t → u ≠ t → s' u = s u)
      s := by
  have hgeneral : ∀ {s₁ : Thread → A}, W (s t) (s₁ t) → (∀ u, u <:+ t → u ≠ t → s₁ u = s u) →
      Safe handle p t W Q s₁ →
      Safe handle p t W (fun b s' => Q b s' ∧ W (s t) (s' t) ∧ ∀ u, u <:+ t → u ≠ t → s' u = s u)
        s₁ := by
    clear h
    induction p with
    | done => exact fun hw hup h => ⟨h, hw, hup⟩
    | call op next ih =>
      intro s₁ hw hup h c
      obtain ⟨hlocal, hw₁, hnext⟩ := h c
      refine ⟨hlocal, hw₁, ih _ (htrans _ _ _ hw hw₁) (fun u hu hut => ?_) hnext⟩
      rw [(hlocal s₁ fun _ _ => rfl).2.2 u hut, hup u hu hut]
    | par n branch ended next _ ih =>
      intro s₁ hw hup h
      refine ⟨h.1, fun e s' hs' => ?_⟩
      have hnext := h.2 e s' hs'
      rw [← hs' t t.suffix_refl] at hw
      exact ih e hw (fun u hu hut => (hs' u hu).trans (hup u hu hut)) hnext
  exact hgeneral (hrefl _) (fun _ _ _ => rfl) h

theorem Safe.congr (hQ : Stable t Q) {s₂ : Thread → A} (hs : ∀ u, Kin t u → s₂ u = s u)
    (h : Safe handle p t W Q s) : Safe handle p t W Q s₂ := by
  induction p generalizing t W Q s s₂ with
  | done => exact hQ _ _ _ (fun u hu => hs u (.inl hu)) h
  | call op next ih =>
    intro c
    obtain ⟨hlocal, hw, hnext⟩ := h c
    have hup : ∀ u, u <:+ t → s₂ u = s u := fun u hu => hs u (.inl hu)
    obtain ⟨hanswer, harena, hframe⟩ := hlocal s₂ hup
    have hframe' := (hlocal s fun _ _ => rfl).2.2
    refine ⟨?_, ?_, ?_⟩
    · intro s₃ hs₃
      obtain ⟨h1, h2, h3⟩ := hlocal s₃ fun u hu => (hs₃ u hu).trans (hup u hu)
      exact ⟨h1.trans hanswer.symm, h2.trans harena.symm, h3⟩
    · rw [harena, hs t (kin_self t)]
      exact hw
    · rw [hanswer]
      refine ih _ hQ (fun u hu => ?_) hnext
      by_cases hut : u = t
      · rw [hut, harena]
      · rw [hframe u hut, hframe' u hut, hs u hu]
  | par n branch ended next ihb =>
    obtain ⟨hbranch, hnext⟩ := h
    refine ⟨fun i => ihb i stable_true (fun u hu => hs u (kin_cons hu)) (hbranch i), ?_⟩
    intro e s' hs'
    exact hnext e s' fun u hu => (hs' u hu).trans (hs u (.inl hu))

/-! ## One move -/

variable (handle) in
/-- The moves of a fork that waits: those of its branches, their ends, and the join. -/
inductive ParStep {n : Nat} (branch : Fin n → Prog Op Answer β) (ended : List (Fin n × β))
    (next : List (Fin n × β) → Prog Op Answer β) (t : Thread) (s : Thread → A) :
    Move χ → Prog Op Answer β → (Thread → A) → Prop
  | inside {i : Nat} (hi : i < n) {m : Move χ} {q : Prog Op Answer β} {s' : Thread → A}
      (h : step handle (branch ⟨i, hi⟩) (i :: t) s m = some (q, s')) :
      ParStep branch ended next t s (.inside i m) (.par n (update branch ⟨i, hi⟩ q) ended next) s'
  | finish {i : Nat} (hi : i < n) {b : β} (hdone : branch ⟨i, hi⟩ = .done b)
      (hnew : ⟨i, hi⟩ ∉ ended.map (·.1)) :
      ParStep branch ended next t s (.finish i) (.par n branch (ended ++ [(⟨i, hi⟩, b)]) next) s
  | join (hall : ended.length = n) : ParStep branch ended next t s .join (next ended) s

theorem step_par_iff {next : List (Fin n × β) → Prog Op Answer β} :
    step handle (.par n branch ended next) t s m = some (p', s') ↔
      ParStep handle branch ended next t s m p' s' := by
  constructor
  · intro hstep
    cases m with
    | act => cases hstep
    | inside i m =>
      simp only [step] at hstep
      split at hstep
      next hi =>
        obtain ⟨⟨q, s₁⟩, hq, heq⟩ := map_eq_some_iff.1 hstep
        cases heq
        exact .inside hi hq
      · cases hstep
    | finish i =>
      simp only [step] at hstep
      split at hstep
      next hi =>
        split at hstep
        next hdone =>
          split at hstep
          · cases hstep
          next hnew =>
            cases hstep
            exact .finish hi hdone hnew
        · cases hstep
      · cases hstep
    | join =>
      simp only [step] at hstep
      split at hstep
      next hall =>
        cases hstep
        exact .join hall
      · cases hstep
  · intro h
    cases h with
    | inside hi hq => simp [step, dif_pos hi, hq]
    | finish hi hdone hnew => simp [step, dif_pos hi, hdone, if_neg hnew]
    | join hall => simp [step, if_pos hall]

/-- **A move of a safe program**: what is left is safe, and only the arenas of the thread and of its
branches changed. -/
theorem step_safe (hQ : Stable t Q) (h : Safe handle p t W Q s)
    (hstep : step handle p t s m = some (p', s')) :
    Safe handle p' t W Q s' ∧ (∀ u, ¬t <:+ u → s' u = s u) ∧ (s' t = s t ∨ W (s t) (s' t)) := by
  induction p generalizing t W Q s s' m p' with
  | done => cases m <;> cases hstep
  | call op next _ =>
    cases m with
    | act c =>
      cases hstep
      obtain ⟨hlocal, hw, hnext⟩ := h c
      refine ⟨hnext, fun u hu => ?_, .inr hw⟩
      apply (hlocal s fun _ _ => rfl).2.2
      rintro rfl
      exact hu (suffix_refl u)
    | _ => cases hstep
  | par n branch ended next ih _ =>
    obtain ⟨hbranch, hnext⟩ := h
    cases step_par_iff.1 hstep with
    | @inside i hi m q s' hq =>
      obtain ⟨hsafe, hframe, -⟩ := ih _ stable_true (hbranch ⟨i, hi⟩) hq
      have hup : ∀ u, u <:+ t → s' u = s u := fun u hu => hframe u (not_suffix_of_cons hu)
      refine ⟨⟨fun j => ?_, fun e s₂ hs₂ => ?_⟩, fun u hu => ?_, .inl (hup t t.suffix_refl)⟩
      · by_cases hj : j = ⟨i, hi⟩
        · subst hj
          rw [update_self]
          exact hsafe
        · -- another branch sees none of the arenas that changed
          rw [update_of_ne hj]
          refine (hbranch j).congr stable_true fun u hu => hframe u ?_
          exact not_suffix_of_kin (fun hji => hj (Fin.ext hji)) hu
      · exact hnext e s₂ fun u hu => (hs₂ u hu).trans (hup u hu)
      · exact hframe u fun hu' => hu ((suffix_cons i t).trans hu')
    | finish => exact ⟨⟨hbranch, hnext⟩, fun _ _ => rfl, .inl rfl⟩
    | join => exact ⟨hnext ended s fun _ _ => rfl, fun _ _ => rfl, .inl rfl⟩

theorem step_congr {s₂ : Thread → A} (hs : ∀ u, Kin t u → s₂ u = s u) (h : Safe handle p t W Q s)
    (hstep : step handle p t s m = some (p', s')) :
    ∃ s₂', step handle p t s₂ m = some (p', s₂') ∧ ∀ u, Kin t u → s₂' u = s' u := by
  induction p generalizing t W Q s s' s₂ m p' with
  | done => cases m <;> cases hstep
  | call op next _ =>
    cases m with
    | act c =>
      cases hstep
      obtain ⟨hlocal, -, -⟩ := h c
      obtain ⟨hanswer, harena, hframe⟩ := hlocal s₂ fun u hu => hs u (.inl hu)
      refine ⟨(handle op t c s₂).2, by simp [step, hanswer], fun u hu => ?_⟩
      by_cases hut : u = t
      · rw [hut, harena]
      · rw [hframe u hut, (hlocal s fun _ _ => rfl).2.2 u hut, hs u hu]
    | _ => cases hstep
  | par n branch ended next ih _ =>
    cases step_par_iff.1 hstep with
    | @inside i hi m q s' hq =>
      have hkin : ∀ u, Kin (i :: t) u → s₂ u = s u := fun u hu => hs u (kin_cons hu)
      obtain ⟨s₂', hq', hs'⟩ := ih _ hkin (h.1 ⟨i, hi⟩) hq
      refine ⟨s₂', step_par_iff.2 (.inside hi hq'), fun u hu => ?_⟩
      by_cases hui : Kin (i :: t) u
      · exact hs' u hui
      · -- neither run of the branch changes the arena of a thread that is not its kin
        have hu' : ¬i :: t <:+ u := fun hu' => hui (.inr hu')
        have hframe := (step_safe stable_true (h.1 ⟨i, hi⟩) hq).2.1 u hu'
        have hsafe' := (h.1 ⟨i, hi⟩).congr stable_true hkin
        have hframe' := (step_safe stable_true hsafe' hq').2.1 u hu'
        rw [hframe, hframe', hs u hu]
    | finish hi hdone hnew => exact ⟨s₂, step_par_iff.2 (.finish hi hdone hnew), hs⟩
    | join hall => exact ⟨s₂, step_par_iff.2 (.join hall), hs⟩

/-! ## Runs of safe programs -/

theorem run_of_runMoves : ∀ {ms : List (Move χ)} {p : Prog Op Answer β} {s : Thread → A},
      runMoves handle p t s ms = some (p', s') → Run handle t p s ms p' s'
  | [], p, s, h => by
    cases h
    exact .refl _ _
  | m :: ms, p, s, h => by
    obtain ⟨⟨q, s₁⟩, hstep, hrest⟩ := bind_eq_some_iff.1 h
    exact .move hstep (run_of_runMoves hrest)

variable {b : β} {R : β → β → Prop}

theorem exists_run_of_eq {γ : Type} (g : (Thread → A) → γ) {x : γ}
    (h : (runMoves handle p t s ms).map (fun r => (r.1, g r.2)) = some (.done b, x)) :
    ∃ s', Run handle t p s ms (.done b) s' ∧ g s' = x := by
  obtain ⟨⟨q, s'⟩, hmoves, heq⟩ := map_eq_some_iff.1 h
  obtain ⟨rfl, hx⟩ := Prod.mk.inj heq
  exact ⟨s', run_of_runMoves hmoves, hx⟩

theorem run_done (h : Run handle t (.done b) s ms p' s') :
    p' = .done b ∧ ms = [] ∧ ∀ u, Kin t u → s' u = s u := by
  generalize hp : done b = p at h
  induction h with
  | refl => exact ⟨rfl, rfl, fun _ _ => rfl⟩
  | env hs _ ih =>
    obtain ⟨heq, hms, hs'⟩ := ih hp
    exact ⟨heq, hms, fun u hu => (hs' u hu).trans (hs u hu)⟩
  | move hstep =>
    rename_i m _ _ _
    subst hp
    cases m <;> cases hstep

theorem run_safe (hQ : Stable t Q) (hrefl : ∀ a, W a a) (htrans : ∀ a b c, W a b → W b c → W a c)
    (h : Safe handle p t W Q s) (hrun : Run handle t p s ms p' s') :
    Safe handle p' t W Q s' ∧ W (s t) (s' t) ∧ ∀ u, u <:+ t → u ≠ t → s' u = s u := by
  induction hrun with
  | refl => exact ⟨h, hrefl _, fun _ _ _ => rfl⟩
  | env hs _ ih =>
    obtain ⟨h', hw, hup⟩ := ih (h.congr hQ hs)
    rw [hs t (kin_self t)] at hw
    exact ⟨h', hw, fun u hu hut => (hup u hu hut).trans (hs u (.inl hu))⟩
  | move hstep _ ih =>
    obtain ⟨h₁, hframe, hown⟩ := step_safe hQ h hstep
    obtain ⟨h', hw, hup⟩ := ih h₁
    refine ⟨h', ?_, fun u hu hut => (hup u hu hut).trans (hframe u ?_)⟩
    · rcases hown with heq | hw₁
      · rw [heq] at hw
        exact hw
      · exact htrans _ _ _ hw₁ hw
    · intro htu
      exact hut (hu.eq_of_length_le htu.length_le)

theorem run_post (hQ : Stable t Q) (h : Safe handle p t W Q s)
    (hrun : Run handle t p s ms (.done b) s') : Q b s' := by
  have h' : Safe handle p t (fun _ _ => True) Q s := h.imp (fun _ _ _ => trivial) fun _ _ => id
  exact (run_safe hQ (fun _ => trivial) (fun _ _ _ _ _ => trivial) h' hrun).1

theorem run_alone (hQ : Stable t Q) (h : Safe handle p t W Q s) (hrun : Run handle t p s ms p' s') :
    ∀ s₂ : Thread → A, (∀ u, Kin t u → s₂ u = s u) →
      ∃ s₂', runMoves handle p t s₂ ms = some (p', s₂') ∧ ∀ u, Kin t u → s₂' u = s' u := by
  induction hrun with
  | refl => exact fun s₂ hs₂ => ⟨s₂, rfl, hs₂⟩
  | env hs _ ih =>
    intro s₂ hs₂
    -- the moves start from the same arenas as before the others moved
    exact ih (h.congr hQ hs) s₂ fun u hu => (hs₂ u hu).trans (hs u hu).symm
  | move hstep _ ih =>
    intro s₂ hs₂
    obtain ⟨s₂₁, hstep₂, hs₂₁⟩ := step_congr hs₂ h hstep
    obtain ⟨s₂', hruns, hs₂'⟩ := ih (step_safe hQ h hstep).1 s₂₁ hs₂₁
    refine ⟨s₂', ?_, hs₂'⟩
    simp only [runMoves, hstep₂]
    exact hruns

/-! ## Runs of a fork -/

structure Ended {n : Nat} (branch : Fin n → Prog Op Answer β) (ended : List (Fin n × β)) :
    Prop where
  nodup : (ended.map (·.1)).Nodup
  result : ∀ i b, (i, b) ∈ ended → branch i = .done b

theorem ended_nil (branch : Fin n → Prog Op Answer β) : Ended branch [] :=
  ⟨.nil, fun _ _ h => absurd h not_mem_nil⟩

variable (h : Ended branch ended)
include h

theorem Ended.inside {i : Fin n}
    (hq : step handle (branch i) u s m = some (q, s')) : Ended (update branch i q) ended := by
  refine ⟨h.nodup, fun j b hj => ?_⟩
  have hjb := h.result j b hj
  have hji : j ≠ i := by
    rintro rfl
    rw [hjb] at hq
    cases m <;> cases hq
  rw [update_of_ne hji, hjb]

theorem Ended.finish {i : Fin n} (hdone : branch i = .done b)
    (hnew : i ∉ ended.map (·.1)) : Ended branch (ended ++ [(i, b)]) := by
  refine ⟨?_, fun j b' hj => ?_⟩
  · rw [map_append]
    exact nodup_append'.2 ⟨h.nodup, nodup_singleton _, disjoint_singleton.2 hnew⟩
  · rcases mem_append.1 hj with hj | hj
    · exact h.result j b' hj
    · cases mem_singleton.1 hj
      exact hdone

theorem Ended.all (hn : ended.length = n) (i : Fin n) :
    ∃ b, (i, b) ∈ ended := by
  have hsub : (ended.map (·.1)).Subperm (List.finRange n) :=
    subperm_of_subset h.nodup fun j _ => mem_finRange j
  have hperm := hsub.perm_of_length_le (by simp [hn])
  obtain ⟨⟨j, b⟩, hmem, rfl⟩ := mem_map.1 (hperm.mem_iff.2 (mem_finRange i))
  exact ⟨b, hmem⟩

omit h

variable (handle) in
/-- Each branch ran, with its share of the moves, and the arenas of the forking threads are as they
were. -/
structure BranchRuns (t : Thread) {n : Nat} (branch : Fin n → Prog Op Answer β) (s : Thread → A)
    (ms : List (Move χ)) (branch' : Fin n → Prog Op Answer β) (s' : Thread → A) : Prop where
  up : ∀ u, u <:+ t → s' u = s u
  runs : ∀ i : Fin n, Run handle (i :: t) (branch i) s (ms.filterMap (Move.of i)) (branch' i) s'

section Fork

variable {t : Thread} {n : Nat} {branch branch' : Fin n → Prog Op Answer β}
  {s s₁ s' : Thread → A} {ms : List (Move χ)}

theorem BranchRuns.env (hs : ∀ u, Kin t u → s₁ u = s u)
    (h : BranchRuns handle t branch s₁ ms branch' s') :
    BranchRuns handle t branch s ms branch' s' where
  up u hu := (h.up u hu).trans (hs u (.inl hu))
  runs i := .env (fun u hu => hs u (kin_cons hu)) (h.runs i)

theorem BranchRuns.inside {hi : i < n} {m : Move χ} {q : Prog Op Answer β}
    (hstep : step handle (branch ⟨i, hi⟩) (i :: t) s m = some (q, s₁))
    (hframe : ∀ u, ¬i :: t <:+ u → s₁ u = s u)
    (h : BranchRuns handle t (update branch ⟨i, hi⟩ q) s₁ ms branch' s') :
    BranchRuns handle t branch s (.inside i m :: ms) branch' s' where
  up u hu := (h.up u hu).trans (hframe u (not_suffix_of_cons hu))
  runs j := by
    have hrun := h.runs j
    by_cases hj : j = ⟨i, hi⟩
    · subst hj
      rw [update_self] at hrun
      simp only [filterMap_cons, Move.of]
      exact .move hstep hrun
    · have hne : i ≠ j := fun hij => hj (Fin.ext hij.symm)
      rw [update_of_ne hj] at hrun
      simp only [filterMap_cons, Move.of, if_neg hne]
      exact .env (fun u hu => hframe u (not_suffix_of_kin hne.symm hu)) hrun

theorem BranchRuns.finish (i : Nat) (h : BranchRuns handle t branch s ms branch' s') :
    BranchRuns handle t branch s (.finish i :: ms) branch' s' := ⟨h.up, h.runs⟩

theorem run_par {ended : List (Fin n × β)} {next : List (Fin n × β) → Prog Op Answer β}
    {W : A → A → Prop} {Q : β → (Thread → A) → Prop} {p' : Prog Op Answer β} (hQ : Stable t Q)
    (h : Safe handle (.par n branch ended next) t W Q s) (hended : Ended branch ended)
    (hrun : Run handle t (.par n branch ended next) s ms p' s') :
    (∃ branch' ended', p' = .par n branch' ended' next ∧ Ended branch' ended' ∧
      BranchRuns handle t branch s ms branch' s') ∨
    ∃ ms₁ ms₂ branch' results s₁, ms = ms₁ ++ .join :: ms₂ ∧ Ended branch' results ∧
      results.length = n ∧ BranchRuns handle t branch s ms₁ branch' s₁ ∧
      Run handle t (next results) s₁ ms₂ p' s' := by
  generalize hp : par n branch ended next = p at hrun
  induction hrun generalizing branch ended with
  | refl =>
    exact .inl ⟨branch, ended, hp.symm, hended, fun _ _ => rfl, fun i => .refl _ _⟩
  | env hs _ ih =>
    subst hp
    rcases ih (h.congr hQ hs) hended rfl with ⟨br, en, heq, hen, hr⟩ |
      ⟨ms₁, ms₂, br, en, s₁, heq, hen, hlen, hr, hrun⟩
    · exact .inl ⟨br, en, heq, hen, hr.env hs⟩
    · exact .inr ⟨ms₁, ms₂, br, en, s₁, heq, hen, hlen, hr.env hs, hrun⟩
  | move hstep hrest ih =>
    rename_i m _
    subst hp
    have hsafe := (step_safe hQ h hstep).1
    cases step_par_iff.1 hstep with
    | @inside i hi m q s₁ hq =>
      have hframe := (step_safe stable_true (h.1 ⟨i, hi⟩) hq).2.1
      rcases ih hsafe (hended.inside hq) rfl with ⟨br, en, heq, hen, hr⟩ |
        ⟨ms₁, ms₂, br, en, s₁, heq, hen, hlen, hr, hrun⟩
      · exact .inl ⟨br, en, heq, hen, hr.inside hq hframe⟩
      · refine .inr ⟨.inside i m :: ms₁, ms₂, br, en, s₁, ?_, hen, hlen, hr.inside hq hframe, hrun⟩
        rw [heq, cons_append]
    | @finish i hi b hdone hnew =>
      rcases ih hsafe (hended.finish hdone hnew) rfl with ⟨br, en, heq, hen, hr⟩ |
        ⟨ms₁, ms₂, br, en, s₁, heq, hen, hlen, hr, hrun⟩
      · exact .inl ⟨br, en, heq, hen, hr.finish i⟩
      · refine .inr ⟨.finish i :: ms₁, ms₂, br, en, s₁, ?_, hen, hlen, hr.finish i, hrun⟩
        rw [heq, cons_append]
    | join hall =>
      exact .inr ⟨[], _, branch, ended, _, rfl, hended, hall,
        ⟨fun _ _ => rfl, fun i => .refl _ _⟩, hrest⟩

end Fork

/-! ## Runs of one program after another -/

theorem step_bind (hp : ∀ b, p ≠ .done b) (hstep : step handle (p.bind k) t s m = some (q, s')) :
    ∃ p', step handle p t s m = some (p', s') ∧ q = p'.bind k := by
  cases p with
  | done b => exact absurd rfl (hp b)
  | call =>
    cases m with
    | act =>
      cases hstep
      exact ⟨_, rfl, rfl⟩
    | _ => cases hstep
  | par =>
    cases step_par_iff.1 hstep with
    | inside hi hq => exact ⟨_, step_par_iff.2 (.inside hi hq), rfl⟩
    | finish hi hdone hnew => exact ⟨_, step_par_iff.2 (.finish hi hdone hnew), rfl⟩
    | join hall => exact ⟨_, step_par_iff.2 (.join hall), rfl⟩

theorem run_bind (hrun : Run handle t (p.bind k) s ms (.done b) s') :
    ∃ ms₁ ms₂ r s₁, ms = ms₁ ++ ms₂ ∧ Run handle t p s ms₁ (.done r) s₁ ∧
      Run handle t (k r) s₁ ms₂ (.done b) s' := by
  generalize hq : p.bind k = q at hrun
  generalize hd : done b = d at hrun
  induction hrun generalizing p with
  | refl q s =>
    cases p with
    | done r => exact ⟨[], [], r, s, rfl, .refl _ _, by subst hq; exact .refl _ _⟩
    | call => subst hd; cases hq
    | par => subst hd; cases hq
  | env hs _ ih =>
    obtain ⟨ms₁, ms₂, r, s₁, heq, hrun, hrest⟩ := ih hq hd
    exact ⟨ms₁, ms₂, r, s₁, heq, .env hs hrun, hrest⟩
  | move hstep hrun ih =>
    rename_i m ms
    by_cases hp : ∃ r, p = .done r
    · obtain ⟨r, rfl⟩ := hp
      subst hq
      exact ⟨[], m :: ms, r, _, rfl, .refl _ _, .move hstep hrun⟩
    · subst hq
      obtain ⟨p₁, hstep₁, heq₁⟩ := step_bind (fun b hb => hp ⟨b, hb⟩) hstep
      obtain ⟨ms₁, ms₂, r, s₁, heq, hrun₁, hrest⟩ := ih heq₁.symm hd
      exact ⟨m :: ms₁, ms₂, r, s₁, by rw [heq, cons_append], .move hstep₁ hrun₁, hrest⟩

/-- Programs that make the same calls and end in related results. -/
inductive Alike (R : β → β → Prop) : Prog Op Answer β → Prog Op Answer β → Prop
  | done {b c : β} (h : R b c) : Alike R (.done b) (.done c)
  | call {op : Op} {next next' : Answer op → Prog Op Answer β}
      (h : ∀ a, Alike R (next a) (next' a)) : Alike R (.call op next) (.call op next')

theorem Alike.symm (h : Alike R p q) : Alike (flip R) q p := by
  induction h with
  | done h => exact .done h
  | call _ ih => exact .call ih

theorem Alike.exists_run (h : Alike R p q) (t : Thread) (c : χ) (s : Thread → A) :
    ∃ ms b s', Run handle t p s ms (.done b) s' := by
  induction h generalizing s with
  | done _ => exact ⟨[], _, s, .refl _ _⟩
  | call _ ih =>
    obtain ⟨ms, b, s', hrun⟩ := ih _ (handle _ t c s).2
    exact ⟨.act c :: ms, b, s', .move rfl hrun⟩

theorem run_alike (h : Alike R p q) (hrun : Run handle t p s ms (.done b) s') :
    ∃ c, Run handle t q s ms (.done c) s' ∧ R b c := by
  generalize hd : done b = d at hrun
  induction hrun generalizing q with
  | refl =>
    subst hd
    cases h with
    | done hbc => exact ⟨_, .refl _ _, hbc⟩
  | env hs _ ih =>
    obtain ⟨c, hq, hbc⟩ := ih h hd
    exact ⟨c, .env hs hq, hbc⟩
  | move hstep _ ih =>
    rename_i m _ _
    cases h with
    | done => cases m <;> cases hstep
    | call hnext =>
      cases m with
      | act c =>
        cases hstep
        obtain ⟨c, hq, hbc⟩ := ih (hnext _) hd
        exact ⟨c, .move rfl hq, hbc⟩
      | _ => cases hstep

theorem run_call {op : Op} {next : Answer op → Prog Op Answer β}
    (hrun : Run handle t (.call op next) s ms (.done b) s') :
    ∃ c ms₁ s₁, ms = .act c :: ms₁ ∧ (∀ u, Kin t u → s₁ u = s u) ∧
      Run handle t (next (handle op t c s₁).1) (handle op t c s₁).2 ms₁ (.done b) s' := by
  generalize hp : call op next = p at hrun
  generalize hd : done b = d at hrun
  induction hrun with
  | refl => subst hd; cases hp
  | env hs _ ih =>
    obtain ⟨c, ms₁, s₁, heq, hs₁, hrun⟩ := ih hp hd
    exact ⟨c, ms₁, s₁, heq, fun u hu => (hs₁ u hu).trans (hs u hu), hrun⟩
  | move hstep hrun ih =>
    rename_i m ms
    subst hp hd
    cases m with
    | act c =>
      cases hstep
      exact ⟨c, ms, _, rfl, fun _ _ => rfl, hrun⟩
    | _ => cases hstep

end

end Octo.Foundation.Parallel
