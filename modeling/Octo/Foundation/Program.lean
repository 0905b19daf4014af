import Mathlib.Data.List.Basic

/-!
# Programs that call a store

A request to a service is a program that makes calls, one after another, to a store it shares with
other requests: `Program` is the tree of its calls, each followed by what the request does with the
answer.  `handle` says what a call does to the store and what it answers.

* `ReadOnly` — a program that leaves the store as it is; `ReadOnly.bind_ok` and
  `ReadOnly.bind_error` take one apart.
* `Makes` — the calls a program makes, whatever they are answered; `makes_bind` takes one apart.
-/

namespace Octo.Foundation

inductive Program (Op : Type) (Answer : Op → Type) (ε α : Type) : Type where
  | done (a : α)
  | fail (e : ε)
  | call (op : Op) (next : Answer op → Program Op Answer ε α)

namespace Program

variable {Op : Type} {Answer : Op → Type} {ε α β σ : Type}

/-! ## Composition -/

protected def bind (p : Program Op Answer ε α) (f : α → Program Op Answer ε β) :
    Program Op Answer ε β :=
  match p with
  | done a => f a
  | fail e => fail e
  | call op next => call op fun a => Program.bind (next a) f

instance : Monad (Program Op Answer ε) where
  pure := done
  bind := Program.bind

def ask (op : Op) : Program Op Answer ε (Answer op) := call op done

def require (c : Prop) [Decidable c] (e : ε) : Program Op Answer ε Unit :=
  if c then done () else fail e

def found (e : ε) : Option α → Program Op Answer ε α
  | some a => done a
  | none => fail e

variable (a : α)

@[simp] theorem pure_eq : (pure a : Program Op Answer ε α) = done a := rfl

variable (f : α → Program Op Answer ε β)

@[simp] theorem done_bind : done a >>= f = f a := rfl

variable (e : ε)

@[simp] theorem fail_bind : fail e >>= f = fail e := rfl

variable (op : Op) (next : Answer op → Program Op Answer ε α)

@[simp] theorem call_bind
    (f : α → Program Op Answer ε β) : call op next >>= f = call op fun a => next a >>= f := rfl

@[simp] theorem ask_bind (f : Answer op → Program Op Answer ε β) :
    ask op >>= f = call op f := rfl

/-! ## A program alone -/

variable (handle : (op : Op) → σ → Answer op × σ)

def run : Program Op Answer ε α → σ → Except ε α × σ
  | done a, s => (.ok a, s)
  | fail e, s => (.error e, s)
  | call op next, s => run (next (handle op s).1) (handle op s).2

variable (s : σ)

@[simp] theorem run_done :
    run handle (done a : Program Op Answer ε α) s = (.ok a, s) := rfl

@[simp] theorem run_fail :
    run handle (fail e : Program Op Answer ε α) s = (.error e, s) := rfl

@[simp] theorem run_call :
    run handle (call op next) s = run handle (next (handle op s).1) (handle op s).2 := rfl

theorem run_bind (p : Program Op Answer ε α) (f : α → Program Op Answer ε β) (s : σ) :
    run handle (p >>= f) s = match run handle p s with
      | (.ok a, s') => run handle (f a) s'
      | (.error e, s') => (.error e, s') := by
  induction p generalizing s with
  | done => rfl
  | fail => rfl
  | call op next ih => exact ih _ _

variable {c : Prop} {p : Program Op Answer ε α} {f : α → Program Op Answer ε β} {_ : Decidable c}

@[simp] theorem run_require [Decidable c] :
    run handle (require c e : Program Op Answer ε Unit) s =
      (if c then .ok () else .error e, s) := by
  unfold require
  split <;> rfl

@[simp] theorem run_found (o : Option α) (s : σ) :
    run handle (found e o : Program Op Answer ε α) s =
      (match o with | some a => .ok a | none => .error e, s) := by
  cases o <;> rfl

theorem run_require_bind (f : Unit → Program Op Answer ε α) (s : σ) :
    run handle (require c e >>= f) s = if c then run handle (f ()) s else (.error e, s) := by
  unfold require
  split <;> rfl

/-! ## Programs that only read -/

def ReadOnly (p : Program Op Answer ε α) : Prop := ∀ s, (run handle p s).2 = s

variable {handle}

theorem readOnly_done : ReadOnly handle (done a : Program Op Answer ε α) := fun _ => rfl

theorem readOnly_fail : ReadOnly handle (fail e : Program Op Answer ε α) := fun _ => rfl

theorem readOnly_require :
    ReadOnly handle (require c e : Program Op Answer ε Unit) := fun s => by
  rw [run_require]

theorem readOnly_found (o : Option α) :
    ReadOnly handle (found e o : Program Op Answer ε α) := fun s => by
  rw [run_found]

theorem readOnly_ask {op : Op} (h : ∀ s, (handle op s).2 = s) :
    ReadOnly handle (ask op : Program Op Answer ε _) := h

variable {s : σ} {e : ε}

variable {r : Except ε α} (hp : ReadOnly handle p)
include hp

theorem ReadOnly.eq_of_run {s' : σ}
    (h : run handle p s = (r, s')) : s' = s := by
  rw [← hp s, h]

theorem ReadOnly.bind (hf : ∀ a, ReadOnly handle (f a)) :
    ReadOnly handle (p >>= f) := by
  intro s
  rw [run_bind]
  rcases h : run handle p s with ⟨e | a, s₁⟩
  · exact hp.eq_of_run h
  · exact (hf a s₁).trans (hp.eq_of_run h)

theorem ReadOnly.run_bind (f : α → Program Op Answer ε β) (s : σ) :
    run handle (p >>= f) s = match (run handle p s).1 with
      | .ok a => run handle (f a) s
      | .error e => (.error e, s) := by
  rw [Program.run_bind]
  rcases h : run handle p s with ⟨e | a, s₁⟩
  · rw [hp.eq_of_run h]
  · rw [hp.eq_of_run h]

theorem ReadOnly.bind_ok {b : β} : (run handle (p >>= f) s).1 = .ok b ↔
      ∃ a, (run handle p s).1 = .ok a ∧ (run handle (f a) s).1 = .ok b := by
  rw [hp.run_bind]
  rcases (run handle p s).1 with e | a <;> simp

theorem ReadOnly.bind_error :
    (run handle (p >>= f) s).1 = .error e ↔ (run handle p s).1 = .error e ∨
      ∃ a, (run handle p s).1 = .ok a ∧ (run handle (f a) s).1 = .error e := by
  rw [hp.run_bind]
  rcases (run handle p s).1 with e | a <;> simp

omit hp

theorem require_ok {u : Unit} :
    (run handle (require c e : Program Op Answer ε Unit) s).1 = .ok u ↔ c := by
  rw [run_require]
  split <;> simp [*]

theorem require_error {e' : ε} :
    (run handle (require c e : Program Op Answer ε Unit) s).1 = .error e' ↔ ¬c ∧ e = e' := by
  rw [run_require]
  split <;> simp [*]

theorem found_ok {o : Option α} {a : α} :
    (run handle (found e o : Program Op Answer ε α) s).1 = .ok a ↔ o = some a := by
  cases o <;> simp

theorem found_error {e' : ε} {o : Option α} :
    (run handle (found e o : Program Op Answer ε α) s).1 = .error e' ↔ o = none ∧ e = e' := by
  cases o <;> simp

/-! ## The errors of a program -/

variable (handle) in
def FailsOnly (Q : ε → Prop) (p : Program Op Answer ε α) : Prop :=
  ∀ s e, (run handle p s).1 = .error e → Q e

variable {Q : ε → Prop}

theorem failsOnly_done : FailsOnly handle Q (done a : Program Op Answer ε α) := nofun

theorem failsOnly_fail (h : Q e) : FailsOnly handle Q (fail e : Program Op Answer ε α) :=
  fun _ _ he => Except.error.inj he ▸ h

theorem failsOnly_require (h : Q e) : FailsOnly handle Q (require c e : Program Op Answer ε Unit) :=
  fun _ _ he => (require_error.1 he).2 ▸ h

theorem failsOnly_found (h : Q e) (o : Option α) :
    FailsOnly handle Q (found e o : Program Op Answer ε α) :=
  fun _ _ he => (found_error.1 he).2 ▸ h

theorem failsOnly_ask : FailsOnly handle Q (ask op : Program Op Answer ε _) := nofun

theorem FailsOnly.bind (hp : FailsOnly handle Q p) (hf : ∀ a, FailsOnly handle Q (f a)) :
    FailsOnly handle Q (p >>= f) := by
  intro s e he
  rw [Program.run_bind] at he
  rcases h : run handle p s with ⟨e' | a, s₁⟩
  · rw [h] at he
    cases he
    exact hp s e (congrArg Prod.fst h)
  · rw [h] at he
    exact hf a s₁ e he

/-! ## The calls of a program -/

/-- The program can make these calls, answered like this, and end so. -/
inductive Makes : Program Op Answer ε α → List (Sigma Answer) → Except ε α → Prop where
  | done (a : α) : Makes (done a) [] (.ok a)
  | fail (e : ε) : Makes (fail e) [] (.error e)
  | call (op : Op) (next : Answer op → Program Op Answer ε α) (a : Answer op)
      {calls : List (Sigma Answer)} {r : Except ε α} (rest : Makes (next a) calls r) :
      Makes (call op next) (⟨op, a⟩ :: calls) r

/-- The calls a program makes when each call always has the same answer, and how it ends. -/
def answered (answer : (op : Op) → Answer op) :
    Program Op Answer ε α → List (Sigma Answer) × Except ε α
  | .done a => ([], .ok a)
  | .fail e => ([], .error e)
  | .call op next =>
    let rest := answered answer (next (answer op))
    (⟨op, answer op⟩ :: rest.1, rest.2)

theorem answered_bind (answer : (op : Op) → Answer op) (p : Program Op Answer ε α)
    (f : α → Program Op Answer ε β) : ((p >>= f).answered answer).2 =
      match (p.answered answer).2 with
      | .ok a => ((f a).answered answer).2
      | .error e => .error e := by
  induction p with
  | done => rfl
  | fail => rfl
  | call op next ih => exact ih (answer op)

theorem makes_answered (answer : (op : Op) → Answer op) (p : Program Op Answer ε α) :
    Makes p (p.answered answer).1 (p.answered answer).2 := by
  induction p with
  | done a => exact .done a
  | fail e => exact .fail e
  | call op next ih => exact .call op next (answer op) (ih (answer op))

section Makes

variable {calls : List (Sigma Answer)} {a : α}

@[simp] theorem makes_done :
    Makes (done a : Program Op Answer ε α) calls r ↔ calls = [] ∧ r = .ok a := by
  constructor
  · intro h
    cases h
    exact ⟨rfl, rfl⟩
  · rintro ⟨rfl, rfl⟩
    exact .done a

@[simp] theorem makes_call {op : Op} {next : Answer op → Program Op Answer ε α} :
    Makes (call op next) calls r ↔
      ∃ ans rest, calls = ⟨op, ans⟩ :: rest ∧ Makes (next ans) rest r := by
  constructor
  · intro h
    cases h with
    | call _ _ ans hrest => exact ⟨ans, _, rfl, hrest⟩
  · rintro ⟨ans, rest, rfl, hrest⟩
    exact .call op next ans hrest

theorem makes_ask_bind {op : Op} {f : Answer op → Program Op Answer ε α} :
    Makes (ask op >>= f) calls r ↔ ∃ ans rest, calls = ⟨op, ans⟩ :: rest ∧ Makes (f ans) rest r :=
  makes_call

variable {p : Program Op Answer ε α}

theorem makes_bind {f : α → Program Op Answer ε β} {b : β} :
    Makes (p >>= f) calls (.ok b) ↔ ∃ a first second, calls = first ++ second ∧
      Makes p first (.ok a) ∧ Makes (f a) second (.ok b) := by
  induction p generalizing calls with
  | done => simp
  | fail =>
    constructor
    · intro h
      cases h
    · rintro ⟨_, _, _, _, h, _⟩
      cases h
  | call op next ih =>
    rw [call_bind, makes_call]
    constructor
    · rintro ⟨ans, rest, rfl, h⟩
      obtain ⟨a, first, second, rfl, hp, hf⟩ := (ih ans).1 h
      exact ⟨a, ⟨op, ans⟩ :: first, second, rfl, .call op next ans hp, hf⟩
    · rintro ⟨a, first, second, rfl, hp, hf⟩
      obtain ⟨ans, rest, rfl, hnext⟩ := makes_call.1 hp
      exact ⟨ans, rest ++ second, rfl, (ih ans).2 ⟨a, rest, second, rfl, hnext, hf⟩⟩

theorem makes_bind_done {g : α → β} {b : β} :
    Makes (p >>= fun a => done (g a)) calls (.ok b) ↔ ∃ a, Makes p calls (.ok a) ∧ g a = b := by
  rw [makes_bind]
  constructor
  · rintro ⟨a, first, second, rfl, hp, hdone⟩
    obtain ⟨rfl, hb⟩ := makes_done.1 hdone
    exact ⟨a, by simpa using hp, (Except.ok.inj hb).symm⟩
  · rintro ⟨a, hp, rfl⟩
    exact ⟨a, calls, [], by simp, hp, .done _⟩

end Makes

end Program

end Octo.Foundation
