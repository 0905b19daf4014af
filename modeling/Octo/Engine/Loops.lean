import Octo.Engine.Isolation

/-!
# The blocks that loop

`multi-transform` and `foreach` run a loop inside one block.

* `multiTransform_eq_chain` — a `multi-transform` makes the accesses of the chain of setters it
  replaces, and fails at the same step.
* `foreach_fold` — a `foreach` that passes its message on ran its body once for each element, and
  left its variable as it was.
-/

namespace Octo.Engine.Builtins

open List Option Octo.Foundation.Parallel Octo.Engine.Memory

section

variable {N τ E : Type}

/-! ## Steps and setters -/

/-- `transformStepSettings`. -/
structure StepSettings where
  setBody : String
  setVar : String
  value : String

abbrev Compile (E : Type) := String → Except String E

def stepError (index : Nat) (text : String) : String :=
  "multi-transform step " ++ toString index ++ ": " ++ text

variable (compile : Compile E)

def compileTransformStep (index : Nat) (step : StepSettings) :
    Except String (String × E) :=
  let hasBody := step.setBody ≠ ""
  let hasVar := step.setVar ≠ ""
  if hasBody ∧ hasVar then .error (stepError index "set exactly one of setBody or setVar")
  else if ¬hasBody ∧ ¬hasVar then .error (stepError index "requires setBody or setVar")
  else if hasBody ∧ step.value ≠ "" then .error (stepError index "setBody takes no value")
  else if hasVar ∧ step.value = "" then
    .error (stepError index ("setVar " ++ quoted step.setVar ++ " requires a value expression"))
  else
    match compile (if hasVar then step.value else step.setBody) with
    | .error text => .error (stepError index text)
    | .ok program => .ok (step.setVar, program)

/-- The loop of `newMultiTransform`, from the `i`-th step on. -/
def compileSteps (compile : Compile E) (i : Nat) :
    List StepSettings → Except String (Entries E)
  | [] => .ok []
  | step :: rest => do
    let compiled ← compileTransformStep compile i step
    let others ← compileSteps compile (i + 1) rest
    return compiled :: others

def newMultiTransform (transforms : List StepSettings) :
    Except String (Proc E) :=
  if transforms = [] then .error "multi-transform requires at least one transform"
  else (compileSteps compile 0 transforms).map .multiTransform

def newSetPayload (value : String) : Except String (Proc E) :=
  if value = "" then .error "set-payload requires a value expression"
  else (compile value).map .setPayload

def newSetVariable (name value : String) : Except String (Proc E) :=
  if name = "" then .error "set-variable requires a name"
  else if value = "" then .error "set-variable requires a value expression"
  else (compile value).map (.setVariable name)

/-- The blocks that do one step each, from the `i`-th step on; `names` are the names given to
them. -/
def setters (compile : Compile E) (names : Nat → String) (i : Nat) :
    List StepSettings → Except String (List (Block E))
  | [] => .ok []
  | step :: rest => do
    let block ← if step.setVar = "" then
        (newSetPayload compile step.setBody).map (Block.mk (names i) "set-payload")
      else (newSetVariable compile step.setVar step.value).map (Block.mk (names i) "set-variable")
    let others ← setters compile names (i + 1) rest
    return block :: others

def setter (name : String) : String × E → Block E
  | (setVar, e) =>
    if setVar = "" then ⟨name, "set-payload", .setPayload e⟩
    else ⟨name, "set-variable", .setVariable setVar e⟩

def setterContext (setVar : String) : String :=
  if setVar = "" then "set-payload value" else "set-variable " ++ quoted setVar ++ " value"

/-- The ends of a `multi-transform` and of its chain: both pass the message on, or the expression of
one step failed in both. -/
def SameStep (names : Nat → String) (m : Addr) (steps : Entries E) (r r' : Outcome) :
    Prop :=
  (r = .ok (some m) ∧ r' = .ok (some m)) ∨
    ∃ i step text, steps[i]? = some step ∧ r = .error ⟨stepError i text, none⟩ ∧
      r' = .error (blockError (blockLabel (setter (names i) step).type (names i))
        ⟨setterContext step.1 ++ ": " ++ text, none⟩)

theorem compileTransformStep_eq_ok {compile : Compile E} {i : Nat} {step : StepSettings}
    {compiled : String × E} (h : compileTransformStep compile i step = .ok compiled) :
    compiled.1 = step.setVar ∧
      ((step.setVar = "" ∧ step.setBody ≠ "" ∧ compile step.setBody = .ok compiled.2) ∨
        (step.setVar ≠ "" ∧ step.value ≠ "" ∧ compile step.value = .ok compiled.2)) := by
  unfold compileTransformStep at h
  dsimp only at h
  split at h
  · cases h
  split at h
  · cases h
  split at h
  · cases h
  split at h
  · cases h
  rename_i hboth hneither hbody hvar
  split at h
  · cases h
  next program hcompile =>
    cases h
    refine ⟨rfl, ?_⟩
    by_cases hv : step.setVar = ""
    · rw [if_neg (not_not.2 hv)] at hcompile
      exact .inl ⟨hv, fun h => hneither ⟨not_not.2 h, not_not.2 hv⟩, hcompile⟩
    · rw [if_pos hv] at hcompile
      exact .inr ⟨hv, fun h => hvar ⟨hv, h⟩, hcompile⟩

theorem setters_eq_ok {compile : Compile E} (names : Nat → String) :
    ∀ {settings : List StepSettings} {i : Nat} {steps : Entries E},
      compileSteps compile i settings = .ok steps → setters compile names i settings =
        .ok ((steps.zipIdx i).map fun p => setter (names p.2) p.1)
  | [], i, steps, h => by
    cases h
    rfl
  | step :: rest, i, steps, h => by
    unfold compileSteps at h
    cases hstep : compileTransformStep compile i step with
    | error => rw [hstep] at h; cases h
    | ok compiled =>
      cases hrest : compileSteps compile (i + 1) rest with
      | error => rw [hstep, hrest] at h; cases h
      | ok =>
        rw [hstep, hrest] at h
        cases h
        obtain ⟨setVar, e⟩ := compiled
        obtain ⟨rfl, hcompiled⟩ := compileTransformStep_eq_ok hstep
        unfold setters
        rw [setters_eq_ok names hrest]
        rcases hcompiled with ⟨hvar, hbody, hcompile⟩ | ⟨hvar, hvalue, hcompile⟩
        · simp only [hvar, newSetPayload, if_neg hbody, hcompile]
          rfl
        · simp only [newSetVariable, if_neg hvar, if_neg hvalue, hcompile, zipIdx_cons,
            map_cons, setter]
          rfl

/-- **A `multi-transform` and the chain of its setters make the same accesses.** -/
theorem alike_transform (names : Nat → String) (m : Addr) (all : Entries E) :
    ∀ (rest : Entries E) (i : Nat), all.drop i = rest →
      Alike (SameStep names m all) (transform m i rest : Code N τ E)
        (chain ((rest.zipIdx i).map fun p => setter (names p.2) p.1) m)
  | [], i, _ => by
    exact .done (.inl ⟨rfl, rfl⟩)
  | (setVar, e) :: rest, i, h => by
    have hhead : all[i]? = some (setVar, e) := by
      rw [← Nat.add_zero i, ← getElem?_drop, h, getElem?_cons_zero]
    have htail : all.drop (i + 1) = rest := by
      rw [← drop_drop, h, drop_one, tail_cons]
    have ih := alike_transform names m all rest (i + 1) htail
    have hfail : ∀ text, SameStep names m all (.error ⟨stepError i text, none⟩)
        (.error (blockError (blockLabel (setter (names i) (setVar, e)).type (names i))
          ⟨setterContext setVar ++ ": " ++ text, none⟩)) :=
      fun text => .inr ⟨i, _, text, hhead, rfl, rfl⟩
    rw [zipIdx_cons, map_cons, transform]
    by_cases hv : setVar = ""
    · simp only [setter, setterContext, if_pos hv] at hfail ⊢
      refine .call fun a => .call fun r => ?_
      cases r with
      | error text => exact .done (hfail text)
      | ok => exact .call fun _ => ih
    · simp only [setter, setterContext, if_neg hv] at hfail ⊢
      refine .call fun a => .call fun r => ?_
      cases r with
      | error text => exact .done (hfail text)
      | ok => exact .call fun _ => ih

/-- **A `multi-transform` is the chain it replaces**: the setters of its steps can be built, and for
the same moves both have the same runs, with the same memory, and fail at the same step. -/
theorem multiTransform_eq_chain {compile : Compile E} {settings : List StepSettings} {p : Proc E}
    (hp : newMultiTransform compile settings = .ok p) (name : String) (names : Nat → String) :
    ∃ steps blocks, p = .multiTransform steps ∧ setters compile names 0 settings = .ok blocks ∧
      ∀ (o : Outside N τ E) (t : Thread) (m : Addr) (s s' : Heap N) (ms : List (Move (Choice τ))),
        (∀ r, Run (handle o) t (process p m) s ms (.done r) s' →
          ∃ r', Run (handle o) t (flow ⟨name, blocks⟩ m) s ms (.done r') s' ∧
            SameStep names m steps r r') ∧
        ∀ r', Run (handle o) t (flow ⟨name, blocks⟩ m) s ms (.done r') s' →
          ∃ r, Run (handle o) t (process p m) s ms (.done r) s' ∧ SameStep names m steps r r' := by
  unfold newMultiTransform at hp
  split at hp
  · cases hp
  cases hsteps : compileSteps compile 0 settings with
  | error => rw [hsteps] at hp; cases hp
  | ok steps =>
    rw [hsteps] at hp
    cases hp
    refine ⟨steps, _, rfl, setters_eq_ok names hsteps, fun o t m s s' ms => ?_⟩
    have halike : Alike (SameStep names m steps) (process (.multiTransform steps) m : Code N τ E)
        (flow ⟨name, (steps.zipIdx 0).map fun p => setter (names p.2) p.1⟩ m) := by
      exact alike_transform names m steps steps 0 drop_zero
    exact ⟨fun r => run_alike halike, fun r' => run_alike halike.symm⟩

theorem two_steps_eq_chain :
    newMultiTransform (fun _ => .ok "x") [⟨"a", "", ""⟩, ⟨"", "v", "b"⟩] =
        .ok (.multiTransform [("", "x"), ("v", "x")]) ∧
      ∃ blocks, setters (fun _ => .ok "x") (fun _ => "") 0 [⟨"a", "", ""⟩, ⟨"", "v", "b"⟩] =
          .ok blocks ∧
        ∀ s' ms r, Run (handle echo) [] (process (.multiTransform [("", "x"), ("v", "x")]) ⟨[], 0⟩)
            start ms (.done r) s' →
          ∃ r', Run (handle echo) [] (flow ⟨"main", blocks⟩ ⟨[], 0⟩) start ms (.done r') s' := by
  have hbuilt : newMultiTransform (fun _ => .ok "x") [⟨"a", "", ""⟩, ⟨"", "v", "b"⟩] =
      .ok (.multiTransform [("", "x"), ("v", "x")]) := rfl
  obtain ⟨steps, blocks, -, hblocks, hruns⟩ :=
    multiTransform_eq_chain hbuilt "main" fun _ => ""
  refine ⟨hbuilt, blocks, hblocks, fun s' ms r hrun => ?_⟩
  exact ((hruns echo [] ⟨[], 0⟩ start s' ms).1 r hrun).imp fun _ h => h.1

/-! ## Loops over elements -/

/-- The body ran once for each element, in order: each time from the message the run before passed
on, with the loop variable set to the element. -/
inductive Folds (o : Outside N τ E) (t : Thread) (body : Flow E) (as' : String) :
    List (Val N) → Addr → Heap N → Addr → Heap N → Prop
  | nil {m : Addr} {s s' : Heap N} (hs : ∀ u, Kin t u → s' u = s u) :
      Folds o t body as' [] m s m s'
  | cons {item : Val N} {rest : List (Val N)} {m m₁ out : Addr} {s s₁ s₂ s' : Heap N}
      {ms : List (Move (Choice τ))} (hs : ∀ u, Kin t u → s₁ u = s u)
      (hrun : Run (handle o) t (flow body m) (s₁.setVar t m as' item) ms (.done (.ok (some m₁))) s₂)
      (hrest : Folds o t body as' rest m₁ s₂ out s') : Folds o t body as' (item :: rest) m s out s'

variable {o : Outside N τ E} {t : Thread} {n k : Nat} {m out : Addr} {s s' : Heap N}

theorem Folds.env {body : Flow E} {as' : String} {items : List (Val N)} {s₁ : Heap N}
    (hs : ∀ u, Kin t u → s₁ u = s u) (h : Folds o t body as' items m s₁ out s') :
    Folds o t body as' items m s out s' := by
  cases h with
  | nil hs' => exact .nil fun u hu => (hs' u hu).trans (hs u hu)
  | cons hs' hrun hrest => exact .cons (fun u hu => (hs' u hu).trans (hs u hu)) hrun hrest

theorem run_pass {op : Op N τ E} {ms : List (Move (Choice τ))}
    (hrun : Run (handle o) t (.call op fun _ => pass m) s ms (.done (.ok (some out))) s') :
    out = m ∧ ∃ c s₁, (∀ u, u <:+ t → s₁ u = s u) ∧
      ∀ u, u <:+ t → s' u = (handle o op t c s₁).2 u := by
  obtain ⟨c, ms₁, s₁, -, hs₁, hrest⟩ := run_call hrun
  obtain ⟨heq, -, hs'⟩ := run_done hrest
  cases heq
  exact ⟨rfl, c, s₁, fun u hu => hs₁ u (.inl hu), fun u hu => hs' u (.inl hu)⟩

theorem run_each {body : Flow E} {as' : String} {prev : Option (Val N)} :
    ∀ (items : List (Val N)) {s : Heap N} {ms : List (Move (Choice τ))}, Held t n k m s →
      (∀ x ∈ items, Visible t s x) → (∀ v, prev = some v → Visible t s v) →
      Run (handle o) t (each (flow body) as' prev items m) s ms (.done (.ok (some out))) s' →
      out = m ∧ ∃ s₂, Folds o t body as' items m s m s₂ ∧
        read s' m = (read s₂ m).withVar as' (prev.map s.view)
  | [], s, ms, h, _, hprev, hrun => by
    have hseen := h.seen t.suffix_refl
    cases prev with
    | some v =>
      obtain ⟨rfl, c, s₁, hs₁, hs'⟩ := run_pass hrun
      have h₁ := h.congr hs₁
      have hv₁ := (hprev v rfl).mono (extends_of_eq hs₁)
      refine ⟨rfl, s, .nil fun _ _ => rfl, ?_⟩
      rw [read_eq ((setVar_spec h₁ as' hv₁).held.seen t.suffix_refl) hs', read_setVar h₁ as' hv₁,
        read_eq hseen hs₁, view_extends (extends_of_eq hs₁) (hprev v rfl), map_some]
    | none =>
      obtain ⟨rfl, c, s₁, hs₁, hs'⟩ := run_pass hrun
      have h₁ := h.congr hs₁
      refine ⟨rfl, s, .nil fun _ _ => rfl, ?_⟩
      rw [read_eq ((deleteVar_spec h₁ as').held.seen t.suffix_refl) hs', read_deleteVar h₁ as',
        read_eq hseen hs₁, map_none]
  | item :: rest, s, ms, h, hitems, hprev, hrun => by
    obtain ⟨c, ms₁, s₁, -, hs₁, hrun⟩ := run_call hrun
    have hup : ∀ u, u <:+ t → s₁ u = s u := fun u hu => hs₁ u (.inl hu)
    have hext₁ := extends_of_eq hup
    have h₁ := h.congr hup
    have hitem := (hitems item mem_cons_self).mono hext₁
    obtain ⟨h₂, hg₂, hne₂, -, -⟩ := setVar_spec h₁ as' hitem
    obtain ⟨ms₂, ms₃, r, s₂, -, hbody, hrest⟩ := run_bind hrun
    obtain ⟨⟨hout, h₃⟩, hg₃, hup₃⟩ := run_safe stable_post (Grows.refl _ _)
      (fun _ _ _ => Grows.trans) (safe_flow body h₂) hbody
    -- the values of the loop are still there after the body
    have hext : Extends t s s₂ := fun u hu i obj hobj =>
      hg₃.extends hup₃ u hu i obj ((hg₂.extends fun u _ => hne₂ u) u hu i obj
        (hext₁ u hu i obj hobj))
    cases r with
    | error =>
      obtain ⟨heq, -⟩ := run_done hrest
      cases heq
    | ok res =>
      cases hout res rfl
      obtain ⟨hm, s₄, hfolds, hread⟩ := run_each rest h₃
        (fun x hx => (hitems x (mem_cons_of_mem _ hx)).mono hext)
        (fun v hv => (hprev v hv).mono hext) hrest
      refine ⟨hm, s₄, .cons hs₁ hbody hfolds, ?_⟩
      rw [hread]
      cases prev with
      | none => rfl
      | some v => rw [map_some, map_some, view_extends hext (hprev v rfl)]

/-- **A `foreach` is a fold with a scoped variable**: in every run that passes a message on, the
body ran once for each element of the array, in order, and the message passed on is the result of
the last run, with the loop variable as it was before the loop. -/
theorem foreach_fold (h : Held t n k m s) {items : E} {as' : String} {body : Flow E}
    {ms : List (Move (Choice τ))}
    (hrun : Run (handle o) t (process (.foreachBlock items as' body) m) s ms
      (.done (.ok (some out))) s') :
    ∃ now x v elements s₁ s₂, o.eval items ((activation s m now).input s) = .ok x ∧
      s₁.view v = x.view ∧ s₁.items v = some elements ∧ read s₁ m = read s m ∧
      Folds o t body as' elements m s₁ out s₂ ∧
      read s' out = (read s₂ out).withVar as' ((read s m).vars as') := by
  have hseen := h.seen t.suffix_refl
  obtain ⟨c, ms₁, s₀, -, hs₀, hrun⟩ := run_call hrun
  obtain ⟨c₁, ms₂, s₁, -, hs₁, hrun⟩ := run_call hrun
  have hup : ∀ u, u <:+ t → s₁ u = s u := fun u hu => (hs₁ u (.inl hu)).trans (hs₀ u (.inl hu))
  have hinput : (activation s₀ m c.now).input s₁ = (activation s m c.now).input s := by
    have hact : activation s₀ m c.now = activation s m c.now := by
      simp [activation, hseen.msg_eq fun u hu => hs₀ u (.inl hu)]
    rw [hact]
    exact input_extends h.body h.vals (extends_of_eq hup) (fieldsAt_eq hseen.vars hup)
  cases he : o.eval items ((activation s m c.now).input s) with
  | error =>
    simp only [handle, hinput, he] at hrun
    obtain ⟨heq, -⟩ := run_done hrun
    cases heq
  | ok x =>
    simp only [handle, hinput, he] at hrun
    have h₁ := h.congr hup
    obtain ⟨h₂, -⟩ := h₁.put x
    have hv := visible_put (s := s₁) (t := t) x
    obtain ⟨c₂, ms₃, s₂, -, hs₂, hrun⟩ := run_call hrun
    have hup₂ : ∀ u, u <:+ t → s₂ u = (Heap.put s₁ t x).2 u := fun u hu => hs₂ u (.inl hu)
    have h₃ := h₂.congr hup₂
    have hv₂ := hv.mono (extends_of_eq hup₂)
    have hread : read s₂ m = read s m := by
      rw [read_eq (h₂.seen t.suffix_refl) hup₂, read_put h₁, read_eq hseen hup]
    cases hitems : Heap.items s₂ (Heap.put s₁ t x).1 with
    | none =>
      simp only [handle, hitems] at hrun
      obtain ⟨c₃, ms₄, s₃, -, -, hrun⟩ := run_call hrun
      obtain ⟨heq, -⟩ := run_done hrun
      cases heq
    | some elements =>
      simp only [handle, hitems] at hrun
      obtain ⟨c₃, ms₄, s₃, -, hs₃, hrun⟩ := run_call hrun
      have hup₃ : ∀ u, u <:+ t → s₃ u = s₂ u := fun u hu => hs₃ u (.inl hu)
      have h₄ := h₃.congr hup₃
      obtain ⟨rfl, s₄, hfolds, hread'⟩ := run_each elements h₄
        (fun y hy => (visible_items hv₂ hitems y hy).mono (extends_of_eq hup₃))
        (fun v hprev => h₄.vals _ (mem_of_lookup hprev)) hrun
      have hread₃ := (read_eq (h₃.seen t.suffix_refl) hup₃).trans hread
      refine ⟨c.now, x, _, elements, s₂, s₄, he, ?_, hitems, hread, hfolds.env hs₃, ?_⟩
      · exact (view_extends (extends_of_eq hup₂) hv).trans (view_put x)
      · rw [hread', ← hread₃]
        rfl

/-- `[1, 2]` for every expression. -/
def listing : Outside Nat Unit String where
  eval _ _ := .ok (.arr [.atom (.num 1), .atom (.num 2)])
  roundTrip _ := none

def dropping : Proc String :=
  .foreachBlock "items" "a" ⟨"", [⟨"", "delete-variable", .deleteVariable "a"⟩]⟩

theorem start_folded : Held [] 0 0 ⟨[], 0⟩ start ∧
    ∃ s' ms, Run (handle listing) [] (process dropping ⟨[], 0⟩) start ms
      (.done (.ok (some ⟨[], 0⟩))) s' ∧ (read s' ⟨[], 0⟩).vars "a" = (read start ⟨[], 0⟩).vars "a" := by
  have hheld : Held [] 0 0 ⟨[], 0⟩ start := Decoded.held _
  have hruns : ∃ s', Run (handle listing) [] (process dropping ⟨[], 0⟩) start
      (List.replicate 9 (.act ⟨(), []⟩)) (.done (.ok (some ⟨[], 0⟩))) s' :=
    (exists_run_of_eq (fun _ => ()) (by rfl)).imp fun _ h => h.1
  obtain ⟨s', hrun⟩ := hruns
  obtain ⟨now, x, v, elements, s₁, s₂, -, -, -, -, -, hread⟩ := foreach_fold hheld hrun
  refine ⟨hheld, s', _, hrun, ?_⟩
  rw [hread]
  rfl

end

end Octo.Engine.Builtins
