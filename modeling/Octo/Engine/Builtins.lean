import Octo.Engine.Builder
import Octo.Engine.Readings

/-!
# The built-in blocks

`Process` of the blocks the engine itself has: the setters, `multi-transform`, `if`, `switch`,
`foreach`, `handle-errors`, `fork` and `enrich`.  A processor is a program of accesses to messages
in memory.  The branches of a fork run in parallel, each on its own clone; everything else runs on
the goroutine of its caller.

A fork clones the message for a branch before it submits the branch, while earlier branches may
already run: here the clone is the first access of the branch.

* `safe_process` — **every processor keeps to the message it is given**: it changes that message
  and what it allocates, and nothing else.
-/

namespace Octo.Engine.Builtins

open List Function Octo.Foundation.Parallel Octo.Engine.Memory

/-! ## Processors -/

mutual

/-- The processors of the built-in blocks; `E` is a compiled expression. -/
inductive Proc (E : Type) where
  | setPayload (value : E)
  | setVariable (name : String) (value : E)
  | deleteVariable (name : String)
  | multiTransform (steps : Entries E)
  | ifBlock (condition : E) (then' : Flow E) (els : Option (Flow E))
  | switchBlock (cases : List (Case E)) (def' : Option (Flow E))
  | foreachBlock (items : E) (as' : String) (body : Flow E)
  | handleErrors (name : String) (main alternative : Flow E)
  | fork (branches : List (Flow E))
  | enrichScope (body : Flow E) (setBody : Option E) (setVars : Entries E)

structure Block (E : Type) where
  name : String
  type : String
  processor : Proc E

/-- `switchCase`. -/
structure Case (E : Type) where
  when' : E
  flow : Flow E

structure Flow (E : Type) where
  name : String
  blocks : List (Block E)

end

/-- An error: its text, and the label of the first `blockError` in its chain. -/
structure Failure where
  text : String
  block : Option String := none
deriving DecidableEq

/-- What `Process` returns: a message, none when it was dropped, or an error. -/
abbrev Outcome := Except Failure (Option Addr)

def Failure.within (context : String) (e : Failure) : Failure :=
  { e with text := context ++ ": " ++ e.text }

def blockError (label : String) (e : Failure) : Failure :=
  ⟨"block " ++ quoted label ++ ": " ++ e.text, some label⟩

open Grows

section

variable {N τ E : Type}

abbrev Code (N τ E : Type) := Prog (Op N τ E) Answer Outcome

def pass (m : Addr) : Code N τ E := .done (.ok (some m))

def fail (text : String) : Code N τ E := .done (.error ⟨text, none⟩)

def evalOn (e : E) (m : Addr) (next : Except String (Val N) → Code N τ E) : Code N τ E :=
  .call (.activate m) fun a => .call (.eval e a) next

def evalCondition (e : E) (m : Addr) (next : Except String Bool → Code N τ E) : Code N τ E :=
  evalOn e m fun r =>
    match r with
    | .error text => next (.error text)
    | .ok (.atom (.bool b)) => next (.ok b)
    | .ok v => .call (.typeName v) fun (type : String) =>
      next (.error ("condition must evaluate to a bool, got " ++ type))

/-- `setVariable.Process`, with the context its error gets. -/
def assign (context : String) (name : String) (e : E) (m : Addr) (next : Code N τ E) : Code N τ E :=
  evalOn e m fun r =>
    match r with
    | .error text => fail (context ++ ": " ++ text)
    | .ok v => .call (.setVar m name v) fun _ => next

/-- `setPayload.Process`, with the context its error gets. -/
def assignBody (context : String) (e : E) (m : Addr) (next : Code N τ E) : Code N τ E :=
  evalOn e m fun r =>
    match r with
    | .error text => fail (context ++ ": " ++ text)
    | .ok v => .call (.setBody m v) fun _ => next

/-- The steps of `multiTransform.Process` from the `i`-th on. -/
def transform (m : Addr) (i : Nat) : Entries E → Code N τ E
  | [] => pass m
  | (setVar, e) :: rest =>
    let context := "multi-transform step " ++ toString i
    if setVar = "" then assignBody context e m (transform m (i + 1) rest)
    else assign context setVar e m (transform m (i + 1) rest)

/-- What `SetErrorVariable` stores. -/
def errorValue (name : String) (e : Failure) : Memory.Tree N :=
  .obj [("message", .atom (.str e.text)), ("flow", .atom (.str name)),
    ("block", .atom (.str (e.block.getD "")))]

/-- The loop of `foreachBlock.Process`, and the restoring of the loop variable after it. -/
def each (body : Addr → Code N τ E) (as' : String) (prev : Option (Val N)) :
    List (Val N) → Addr → Code N τ E
  | [], m =>
    match prev with
    | some v => .call (.setVar m as' v) fun _ => pass m
    | none => .call (.deleteVar m as') fun _ => pass m
  | item :: rest, m =>
    .call (.setVar m as' item) fun _ => (body m).bind fun r =>
      match r with
      | .ok (some out) => each body as' prev rest out
      | r => .done r

def joined (names : List String) (m : Addr) {n : Nat} (ended : List (Fin n × Outcome)) :
    Code N τ E :=
  let failed := ended.findSome? fun r =>
    match r.2 with
    | .error e => some (e.within ("fork branch " ++ quoted (names[r.1.val]?.getD "")))
    | .ok _ => none
  match failed with
  | some e => .done (.error e)
  | none => pass m

/-- The variables an `enrich` sets, in the order the map is ranged over. -/
def setAll (a : Activation N τ) (m : Addr) : Entries E → Code N τ E
  | [] => pass m
  | (name, e) :: rest =>
    .call (.eval e a) fun r =>
      match r with
      | .error text => fail ("enrich setVars[" ++ quoted name ++ "]: " ++ text)
      | .ok v => .call (.setVar m name v) fun _ => setAll a m rest

/-- What `enrichScope.Process` sets once it has an activation of the result of its body. -/
def enrichAt (setBody : Option E) (setVars : Entries E) (m : Addr) (a : Activation N τ) :
    Code N τ E :=
  let vars := .call (.range setVars) fun entries => setAll a m entries
  match setBody with
  | none => vars
  | some e => .call (.eval e a) fun r =>
    match r with
    | .error text => fail ("enrich setBody: " ++ text)
    | .ok v => .call (.setBody m v) fun _ => vars

def enrichWith (setBody : Option E) (setVars : Entries E) (m out : Addr) : Code N τ E :=
  .call (.activate out) (enrichAt setBody setVars m)

mutual

/-- `Process` of a built-in block. -/
def process : Proc E → Addr → Code N τ E
  | .setPayload value, m => assignBody "set-payload value" value m (pass m)
  | .setVariable name value, m =>
    assign ("set-variable " ++ quoted name ++ " value") name value m (pass m)
  | .deleteVariable name, m => .call (.deleteVar m name) fun _ => pass m
  | .multiTransform steps, m => transform m 0 steps
  | .ifBlock condition then' els, m =>
    evalCondition condition m fun r =>
      match r with
      | .error text => fail text
      | .ok true => flow then' m
      | .ok false => optional els m
  | .switchBlock cases def', m => switchCases 0 cases m (optional def' m)
  | .foreachBlock items as' body, m =>
    evalOn items m fun r =>
      match r with
      | .error text => fail ("foreach items: " ++ text)
      | .ok v => .call (.items v) fun r =>
        match r with
        | none => .call (.typeName v) fun (type : String) =>
          fail ("foreach items must evaluate to an array, got " ++ type)
        | some items => .call (.getVar m as') fun prev => each (flow body) as' prev items m
  | .handleErrors name main alternative, m =>
    (flow main m).bind fun r =>
      match r with
      | .ok out => .done (.ok out)
      | .error e => .call (.alloc (errorValue name e)) fun v => .call (.setVar m "error" v) fun _ =>
        (flow alternative m).bind fun r =>
          match r with
          | .ok out => .done (.ok out)
          | .error e => .done (.error (e.within "scope alternative"))
  | .fork branches, m =>
    .par (branchCodes branches m).length (branchCodes branches m).get []
      (joined (branches.map (·.name)) m)
  | .enrichScope body setBody setVars, m =>
    .call (.clone m) fun copy => (flow body copy).bind fun r =>
      match r with
      | .ok (some out) => enrichWith setBody setVars m out
      | r => .done r

def flow : Flow E → Addr → Code N τ E
  | ⟨_, blocks⟩, m => chain blocks m

def chain : List (Block E) → Addr → Code N τ E
  | [], m => pass m
  | ⟨name, type, processor⟩ :: rest, m =>
    (process processor m).bind fun r =>
      match r with
      | .error e => .done (.error (blockError (blockLabel type name) e))
      | .ok none => .done (.ok none)
      | .ok (some out) => chain rest out

def optional : Option (Flow E) → Addr → Code N τ E
  | none, m => pass m
  | some f, m => flow f m

/-- The cases of a `switch` from the `i`-th on, and what follows when none matches. -/
def switchCases (i : Nat) : List (Case E) → Addr → Code N τ E → Code N τ E
  | [], _, otherwise => otherwise
  | ⟨when', f⟩ :: rest, m, otherwise =>
    evalCondition when' m fun r =>
      match r with
      | .error text => fail ("switch case " ++ toString i ++ ": " ++ text)
      | .ok true => flow f m
      | .ok false => switchCases (i + 1) rest m otherwise

def branchCodes : List (Flow E) → Addr → List (Code N τ E)
  | [], _ => []
  | f :: rest, m => (.call (.clone m) fun copy => flow f copy) :: branchCodes rest m

end

def branchCode (f : Flow E) (m : Addr) : Code N τ E := .call (.clone m) fun copy => flow f copy

theorem branchCodes_eq (m : Addr) : ∀ branches : List (Flow E),
    (branchCodes branches m : List (Code N τ E)) = branches.map (branchCode · m)
  | [] => by
    rfl
  | f :: rest => by
    unfold branchCodes
    rw [branchCodes_eq m rest]
    rfl

/-! ## Marks -/

/-- What a block may do: leave a mark on the message it passes on, fail, and leave a mark on the
message when it fails.  The variable `error` is no mark. -/
structure Marks where
  passing : Bool := false
  fails : Bool := false
  failing : Bool := false
deriving DecidableEq

namespace Marks

/-- One after the other: when the second fails, the marks of the first are there. -/
def andThen (a b : Marks) : Marks :=
  ⟨a.passing || b.passing, a.fails || b.fails, a.failing || b.failing || a.passing && b.fails⟩

/-- An expression, and then one of the two. -/
def either (a b : Marks) : Marks := ⟨a.passing || b.passing, true, a.failing || b.failing⟩

/-- A variable is set to what an expression evaluates to; the empty name stands for the body. -/
def setting (name : String) : Marks := ⟨name ≠ "error", true, false⟩

/-- A loop whose body leaves these: the loop variable is put back unless the body fails. -/
def loop (as' : String) (b : Marks) : Marks :=
  ⟨b.passing, true, b.fails && (as' ≠ "error" || b.passing || b.failing)⟩

/-- The entries of an `enrich` are set in any order, after the body. -/
def enriching (setBody : Bool) (names : List String) : Marks :=
  let marked := names.any (· ≠ "error")
  ⟨setBody || marked, true, setBody && !names.isEmpty || marked && 2 ≤ names.length⟩

theorem andThen_nothing (a : Marks) : a.andThen {} = a := by
  simp [andThen]

end Marks

mutual

def Proc.marks : Proc E → Marks
  | .setPayload _ => .setting ""
  | .setVariable name _ => .setting name
  | .deleteVariable name => ⟨name ≠ "error", false, false⟩
  | .multiTransform steps => steps.foldr (fun step => (Marks.setting step.1).andThen) {}
  | .ifBlock _ then' els => then'.marks.either (optionalMarks els)
  | .switchBlock cases def' => caseMarks cases (optionalMarks def')
  | .foreachBlock _ as' body => .loop as' body.marks
  | .handleErrors _ main alternative =>
    let a := main.marks
    let b := alternative.marks
    ⟨a.passing || a.failing || b.passing, b.fails, a.failing || b.failing⟩
  | .fork _ => ⟨false, true, false⟩
  | .enrichScope _ setBody setVars => .enriching setBody.isSome (setVars.map (·.1))

def Flow.marks : Flow E → Marks
  | ⟨_, blocks⟩ => chainMarks blocks

def chainMarks : List (Block E) → Marks
  | [] => {}
  | ⟨_, _, p⟩ :: rest => p.marks.andThen (chainMarks rest)

def optionalMarks : Option (Flow E) → Marks
  | none => {}
  | some f => f.marks

def caseMarks : List (Case E) → Marks → Marks
  | [], otherwise => otherwise
  | ⟨_, f⟩ :: rest, otherwise => f.marks.either (caseMarks rest otherwise)

end

/-- What marks allow a processor to end in. -/
def Marks.Left (l : Marks) (before : Reading N) (r : Outcome) (after : Reading N) : Prop :=
  match r with
  | .ok _ => l.passing = false → Unmarked ["error"] before after
  | .error _ => l.fails = true ∧ (l.failing = false → Unmarked ["error"] before after)

theorem Marks.Left.andThen {a b : Marks} {x y z : Reading N} {r : Outcome} (h : b.Left y r z)
    (hxy : a.passing = false → Unmarked ["error"] x y) : (a.andThen b).Left x r z := by
  cases r with
  | ok =>
    intro hp
    obtain ⟨ha, hb⟩ := Bool.or_eq_false_iff.1 hp
    exact (hxy ha).trans (h hb)
  | error =>
    obtain ⟨hf, hm⟩ := h
    refine ⟨by simp [Marks.andThen, hf], fun hp => ?_⟩
    simp only [Marks.andThen, hf, Bool.and_true, Bool.or_eq_false_iff] at hp
    exact (hxy hp.2).trans (hm hp.1.2)

theorem Marks.Left.either {a b : Marks} {x y : Reading N} {r : Outcome}
    (h : a.Left x r y ∨ b.Left x r y) : (a.either b).Left x r y := by
  cases r with
  | ok =>
    intro hp
    obtain ⟨ha, hb⟩ := Bool.or_eq_false_iff.1 hp
    exact h.elim (· ha) (· hb)
  | error =>
    refine ⟨rfl, fun hp => ?_⟩
    obtain ⟨ha, hb⟩ := Bool.or_eq_false_iff.1 hp
    exact h.elim (·.2 ha) (·.2 hb)

/-! ## What code ends in -/

variable {o : Outside N τ E} {t : Thread} {n k : Nat} {m : Addr} {s : Heap N}

/-- A processor that does not fail returns the message it was given, and that message is still held
in any case. -/
def Post (t : Thread) (n k : Nat) (m : Addr) (r : Outcome) (s : Heap N) : Prop :=
  (∀ out, r = .ok out → out = some m) ∧ Held t n k m s

abbrev Keeps (o : Outside N τ E) (t : Thread) (n k : Nat) (m : Addr) (p : Code N τ E)
    (s : Heap N) : Prop :=
  Safe (handle o) p t (Grows n k) (Post t n k m) s

theorem stable_post : Stable t (Post (N := N) t n k m) := fun _ _ _ hs h =>
  ⟨h.1, h.2.congr hs⟩

theorem keeps_pass (h : Held t n k m s) : Keeps o t n k m (pass m) s := by
  refine ⟨fun out hout => ?_, h⟩
  cases hout
  rfl

theorem keeps_fail {e : Failure} (h : Held t n k m s) : Keeps o t n k m (.done (.error e)) s :=
  ⟨fun _ hout => (nomatch hout), h⟩

/-- Besides, only these marks are left on a message that read so before. -/
abbrev Leaves (o : Outside N τ E) (t : Thread) (n k : Nat) (m : Addr) (l : Marks)
    (before : Reading N) (p : Code N τ E) (s : Heap N) : Prop :=
  Safe (handle o) p t (Grows n k) (fun r s' => Post t n k m r s' ∧ l.Left before r (read s' m)) s

variable {l : Marks} {before : Reading N}

theorem leaves_pass (h : Held t n k m s)
    (hu : l.passing = false → Unmarked ["error"] before (read s m)) :
    Leaves o t n k m l before (pass m) s :=
  ⟨keeps_pass (o := o) h, hu⟩

theorem leaves_fail {e : Failure} (h : Held t n k m s) (hfails : l.fails = true)
    (hu : l.failing = false → Unmarked ["error"] before (read s m)) :
    Leaves o t n k m l before (.done (.error e)) s :=
  ⟨keeps_fail (o := o) h, hfails, hu⟩

/-- An expression that fails leaves nothing. -/
theorem leaves_fail_self {e : Failure} (h : Held t n k m s) (hfails : l.fails = true)
    (hread : read s m = before) : Leaves o t n k m l before (.done (.error e)) s :=
  leaves_fail h hfails fun _ => hread ▸ .refl _

theorem Leaves.after {a : Marks} {p : Code N τ E} (h : Leaves o t n k m l (read s m) p s)
    (hu : a.passing = false → Unmarked ["error"] before (read s m)) :
    Leaves o t n k m (a.andThen l) before p s :=
  Safe.imp (fun _ _ => id) (fun _ _ hr => ⟨hr.1, hr.2.andThen hu⟩) h

theorem leaves_either {a b : Marks} {p : Code N τ E}
    (h : Leaves o t n k m a before p s ∨ Leaves o t n k m b before p s) :
    Leaves o t n k m (a.either b) before p s := by
  rcases h with h | h
  · exact Safe.imp (fun _ _ => id) (fun _ _ hr => ⟨hr.1, .either (.inl hr.2)⟩) h
  · exact Safe.imp (fun _ _ => id) (fun _ _ hr => ⟨hr.1, .either (.inr hr.2)⟩) h

/-! ## Expressions -/

variable {Q : Outcome → Heap N → Prop}

variable {e : E}

theorem safe_evalOn {next : Except String (Val N) → Code N τ E} (h : Held t n k m s)
    (herror : ∀ text, Safe (handle o) (next (.error text)) t (Grows n k) Q s)
    (hok : ∀ v s', Held t n k m s' → Visible t s' v → read s' m = read s m → Safe (handle o) (next (.ok v)) t (Grows n k) Q s') :
    Safe (handle o) (evalOn e m next) t (Grows n k) Q s := by
  have hseen := h.seen t.suffix_refl
  refine safe_activate hseen fun now => ?_
  refine safe_eval h hseen.body hseen.vars hseen.vals (fun text _ => herror text) fun x _ => ?_
  exact hok _ _ (h.put x).1 (visible_put x) (read_put h x)

theorem safe_evalCondition {next : Except String Bool → Code N τ E} (h : Held t n k m s)
    (hnext : ∀ r s', Held t n k m s' → read s' m = read s m → Safe (handle o) (next r) t (Grows n k) Q s') :
    Safe (handle o) (evalCondition e m next) t (Grows n k) Q s := by
  refine safe_evalOn h (fun text => hnext _ s h rfl) fun v s' h' hv hread => ?_
  have htype : Safe (handle o) (.call (.typeName v) fun (type : String) =>
      next (.error ("condition must evaluate to a bool, got " ++ type))) t (Grows n k) Q s' :=
    safe_typeName hv.valid fun _ => hnext _ s' h' hread
  cases v with
  | ref => exact htype
  | atom x =>
    cases x with
    | bool => exact hnext _ s' h' hread
    | null => exact htype
    | str => exact htype
    | num => exact htype

theorem leaves_assign {context name : String} {next : Code N τ E} (h : Held t n k m s)
    (hnext : ∀ s', Held t n k m s' → Leaves o t n k m l (read s' m) next s') :
    Leaves o t n k m ((Marks.setting name).andThen l) (read s m) (assign context name e m next) s := by
  refine safe_evalOn h (fun text => leaves_fail_self h rfl rfl) fun v s' h' hv hread => ?_
  refine safe_setVar h' hv ((hnext _ (setVar_spec h' name hv).held).after fun hname => ?_)
  rw [read_setVar h' name hv, hread]
  exact .withVar (.refl _) (by simpa [Marks.setting] using hname) _

theorem leaves_assignBody {context : String} {next : Code N τ E} (h : Held t n k m s)
    (hnext : ∀ s', Held t n k m s' → Leaves o t n k m l (read s' m) next s') :
    Leaves o t n k m ((Marks.setting "").andThen l) (read s m) (assignBody context e m next) s := by
  refine safe_evalOn h (fun text => leaves_fail_self h rfl rfl) fun v s' h' hv _ => ?_
  exact safe_setBody h' hv ((hnext _ (setBody_spec h' hv).held).after fun hp => absurd hp (by decide))

theorem leaves_transform : ∀ (steps : Entries E) (i : Nat) {s : Heap N},
    Held t n k m s → Leaves o t n k m (steps.foldr (fun step => (Marks.setting step.1).andThen) {})
      (read s m) (transform m i steps) s
  | [], _, _, h => leaves_pass h fun _ => .refl _
  | (setVar, e) :: rest, i, s, h => by
    unfold transform
    split
    next hbody =>
      subst hbody
      exact leaves_assignBody h fun s' h' => leaves_transform rest (i + 1) h'
    · exact leaves_assign h fun s' h' => leaves_transform rest (i + 1) h'

/-! ## Loops -/

theorem safe_extends {p : Code N τ E} (h : Safe (handle o) p t (Grows n k) Q s) :
    Safe (handle o) p t (Grows n k) (fun r s' => Q r s' ∧ Extends t s s') s :=
  (h.track (refl n k) fun _ _ _ => trans).imp (fun _ _ => id)
    fun _ _ hr => ⟨hr.1, hr.2.1.extends hr.2.2⟩

theorem leaves_each {body : Addr → Code N τ E} {as' : String} {prev : Option (Val N)} {b : Marks}
    (hbody : ∀ s, Held t n k m s → Leaves o t n k m b (read s m) (body m) s) :
    ∀ (items : List (Val N)) {s : Heap N}, Held t n k m s → (∀ x ∈ items, Visible t s x) →
      (∀ v, prev = some v → Visible t s v) → prev.map s.view = before.vars as' →
      (b.passing = false → Unmarked [as', "error"] before (read s m)) →
      Leaves o t n k m (.loop as' b) before (each body as' prev items m) s
  | [], s, h, _, hprev, hview, hu => by
    cases prev with
    | some v =>
      refine safe_setVar h (hprev v rfl) (leaves_pass (setVar_spec h as' (hprev v rfl)).held fun hp => ?_)
      rw [read_setVar h as' (hprev v rfl), show some (s.view v) = _ from hview]
      exact (hu hp).restore
    | none =>
      refine safe_deleteVar h (leaves_pass (deleteVar_spec h as').held fun hp => ?_)
      rw [read_deleteVar h as', show none = _ from hview]
      exact (hu hp).restore
  | item :: rest, s, h, hitems, hprev, hview, hu => by
    have hitem := hitems item mem_cons_self
    have hchanged := setVar_spec h as' hitem
    have hext₁ := hchanged.extends
    refine safe_setVar h hitem (safe_bind ((safe_extends (hbody _ hchanged.held)).imp (fun _ _ => id) ?_))
    rintro r s₂ ⟨⟨⟨hout, h₂⟩, hleft⟩, hext₂⟩
    rw [read_setVar h as' hitem] at hleft
    -- the values of the loop are still there after the body
    have hkeep : ∀ {x : Val N}, Visible t s x → Visible t s₂ x ∧ Heap.view s₂ x = s.view x := fun hx =>
      ⟨(hx.mono hext₁).mono hext₂,
        (view_extends hext₂ (hx.mono hext₁)).trans (view_extends hext₁ hx)⟩
    have hset (hp : b.passing = false) :=
      (hu hp).withVar mem_cons_self (some (s.view item))
    cases r with
    | error =>
      refine leaves_fail h₂ rfl fun hp => ?_
      simp only [Marks.loop, hleft.1, Bool.true_and, Bool.or_eq_false_iff, decide_eq_false_iff_not,
        not_not] at hp
      obtain ⟨⟨rfl, hpassing⟩, hfailing⟩ := hp
      exact ((hset hpassing).mono (by simp)).trans (hleft.2 hfailing)
    | ok out =>
      cases hout out rfl
      refine leaves_each hbody rest h₂ (fun x hx => (hkeep (hitems x (mem_cons_of_mem _ hx))).1)
        (fun v hv => (hkeep (hprev v hv)).1) ?_ fun hp => ?_
      · rw [← hview]
        cases prev with
        | none => rfl
        | some v => exact congrArg some (hkeep (hprev v rfl)).2
      · exact (hset hp).trans ((hleft hp).mono (by simp))

/-! ## Enrichment -/

structure Source (t : Thread) (m : Addr) (a : Activation N τ) (s : Heap N) : Prop where
  body : Visible t s a.body
  vars : ∀ x, a.vars = some x → x.owner = t ∧ x.index < (s t).maps.length ∧ (s.msg m).vars ≠ some x
  vals : ∀ p ∈ s.fieldsAt a.vars, Visible t s p.2

section Source

variable {a : Activation N τ} {s' : Heap N} (h : Source t m a s)
include h

theorem Source.owner : ∀ x, a.vars = some x → x.owner <:+ t := by
  intro x hx
  exact (h.vars x hx).1 ▸ t.suffix_refl

theorem Source.of_eq (hext : Extends t s s')
    (hmaps : (s t).maps.length ≤ (s' t).maps.length)
    (hsame : ∀ x, a.vars = some x → s'.map x = s.map x)
    (hvars : ∀ x, a.vars = some x → (s'.msg m).vars ≠ some x) :
    Source t m a s' ∧ a.input s' = a.input s := by
  have hfields : s'.fieldsAt a.vars = s.fieldsAt a.vars := by
    cases hv : a.vars with
    | none => rfl
    | some x => exact hsame x hv
  refine ⟨⟨h.body.mono hext, fun x hx => ?_, fun p hp => ?_⟩,
    input_extends h.body h.vals hext hfields⟩
  · obtain ⟨ho, hlt, -⟩ := h.vars x hx
    exact ⟨ho, hlt.trans_le hmaps, hvars x hx⟩
  · rw [hfields] at hp
    exact (h.vals p hp).mono hext

theorem Source.put (hm : Held t n k m s) (x : Memory.Tree N) :
    Source t m a (s.put t x).2 ∧ a.input (s.put t x).2 = a.input s := by
  obtain ⟨-, hmsg, -⟩ := hm.put x
  refine h.of_eq (extends_grow _ _ _) ?_ (fun y hy => ?_) fun y hy => ?_
  · simp [Heap.put]
  · simp [Heap.put, Heap.map, (h.vars y hy).1]
  · rw [hmsg]
    exact (h.vars y hy).2.2

theorem Source.setBody (hm : Held t n k m s) {v : Val N} (hv : Visible t s v) :
    Source t m a (s.modifyMsg m fun x => { x with body := v }) ∧
      a.input (s.modifyMsg m fun x => { x with body := v }) = a.input s := by
  have hchanged := setBody_spec hm hv
  refine h.of_eq hchanged.extends hchanged.grows.mapCount (fun y hy => ?_) fun y hy => ?_
  · simp [Heap.map, (h.vars y hy).1, Heap.modifyMsg, hm.owner]
  · rw [hchanged.msg]
    exact (h.vars y hy).2.2

theorem Source.setVar (hm : Held t n k m s) (name : String) {v : Val N}
    (hv : Visible t s v) :
    Source t m a (s.setVar t m name v) ∧ a.input (s.setVar t m name v) = a.input s := by
  have hchanged := setVar_spec hm name hv
  refine h.of_eq hchanged.extends hchanged.grows.mapCount (fun y hy => ?_) fun y hy => ?_
  · obtain ⟨ho, hlt, hapart⟩ := h.vars y hy
    cases hvars : (s.msg m).vars with
    | none =>
      simp [Heap.setVar, hvars, Heap.map, ho, Heap.modifyMsg, hm.owner, getElem?_append_left hlt]
    | some b =>
      obtain ⟨hb, -, -⟩ := hm.vars b hvars
      have hne : b.index ≠ y.index := by
        intro heq
        obtain ⟨bo, bi⟩ := b
        cases hb
        cases ho
        cases heq
        exact hapart hvars
      simp [Heap.setVar, hvars, Heap.map, ho, Heap.modifyMap, hb, getElem?_modify_ne _ _ hne]
  · obtain ⟨ho, hlt, hapart⟩ := h.vars y hy
    rw [hchanged.msg]
    cases hvars : (s.msg m).vars with
    | none =>
      -- the new map is above all others
      intro heq
      cases heq
      exact absurd hlt (Nat.lt_irrefl _)
    | some =>
      rw [hvars] at hapart
      exact hapart

end Source

/-- What the entries make of a message in this order, and how that ends; `input` is what expressions
read. -/
def settle (o : Outside N τ E) (input : Input N τ) (m : Addr) :
    Entries E → Reading N → Outcome × Reading N
  | [], before => (.ok (some m), before)
  | (name, e) :: rest, before =>
    match o.eval e input with
    | .error text => (.error ⟨"enrich setVars[" ++ quoted name ++ "]: " ++ text, none⟩, before)
    | .ok x => settle o input m rest (before.withVar name (some x.view))

/-- What an `enrich` makes of a message after its body, with its entries in this order. -/
def enriched (o : Outside N τ E) (input : Input N τ) (m : Addr) (setBody : Option E)
    (entries : Entries E) (before : Reading N) : Outcome × Reading N :=
  match setBody with
  | none => settle o input m entries before
  | some e =>
    match o.eval e input with
    | .error text => (.error ⟨"enrich setBody: " ++ text, none⟩, before)
    | .ok x => settle o input m entries { before with body := x.view }

theorem settle_vars (o : Outside N τ E) (input : Input N τ) (m : Addr) :
    ∀ (entries : Entries E) (before : Reading N),
    ∃ vars, (settle o input m entries before).2 = { before with vars := vars } ∧
      ∀ name, vars name = before.vars name ∨
        ∃ e x, (name, e) ∈ entries ∧ o.eval e input = .ok x ∧ vars name = some x.view
  | [], before => ⟨_, rfl, fun _ => .inl rfl⟩
  | (key, e) :: rest, before => by
    unfold settle
    cases heval : o.eval e input with
    | error => exact ⟨_, rfl, fun _ => .inl rfl⟩
    | ok x =>
      obtain ⟨vars, heq, hvars⟩ := settle_vars o input m rest (before.withVar key (some x.view))
      refine ⟨vars, heq, fun name => ?_⟩
      rcases hvars name with h | ⟨e', y, hmem, hy, h⟩
      · by_cases hname : name = key
        · subst hname
          exact .inr ⟨e, x, mem_cons_self, heval, h.trans (before.withVar_self _ _)⟩
        · exact .inl (h.trans (before.withVar_of_ne hname _))
      · exact .inr ⟨e', y, mem_cons_of_mem _ hmem, hy, h⟩

/-- `fmt.Errorf("enrich setVars[%q]: %w", name, err)`. -/
def setVarsError (name text : String) : Failure :=
  ⟨"enrich setVars[" ++ quoted name ++ "]: " ++ text, none⟩

theorem settle_eq_error {f : Failure} : ∀ {input : Input N τ} {entries : Entries E} {before : Reading N},
    (settle o input m entries before).1 = .error f → ∃ name e text, (name, e) ∈ entries ∧
      o.eval e input = .error text ∧ f = setVarsError name text
  | _, [], _, h => by cases h
  | input, (key, e) :: rest, before, h => by
    cases heval : o.eval e input with
    | error text =>
      simp only [settle, heval] at h
      cases h
      exact ⟨key, e, text, mem_cons_self, heval, rfl⟩
    | ok =>
      simp only [settle, heval] at h
      obtain ⟨name, e', text, hmem, hrest⟩ := settle_eq_error h
      exact ⟨name, e', text, mem_cons_of_mem _ hmem, hrest⟩

theorem enriched_cases (o : Outside N τ E) (input : Input N τ) (m : Addr) (setBody : Option E)
    (before : Reading N) : (∃ e text, setBody = some e ∧ o.eval e input = .error text ∧ ∀ entries,
      enriched o input m setBody entries before =
        (.error ⟨"enrich setBody: " ++ text, none⟩, before)) ∨
    ∃ body, (∀ entries, enriched o input m setBody entries before =
        settle o input m entries { before with body := body }) ∧
      (setBody = none → body = before.body) ∧
      ∀ e, setBody = some e → ∃ x, o.eval e input = .ok x ∧ body = x.view := by
  cases setBody with
  | none => exact .inr ⟨before.body, fun _ => rfl, fun _ => rfl, fun _ he => by cases he⟩
  | some e =>
    cases heval : o.eval e input with
    | error text => exact .inl ⟨e, text, rfl, heval, fun _ => by simp [enriched, heval]⟩
    | ok x =>
      refine .inr ⟨x.view, fun _ => by simp [enriched, heval], fun he => (by cases he), ?_⟩
      rintro e' he
      cases he
      exact ⟨x, heval, rfl⟩

/-- What an `enrich` may leave: nothing is set before the only entry fails. -/
theorem left_of_enriched {input : Input N τ} {setBody : Option E} {setVars : Entries E}
    {order : List Nat} {after : Reading N} {r : Outcome}
    (h : (r, after) = enriched o input m setBody (ranged order setVars) before) :
    (Marks.enriching setBody.isSome (setVars.map (·.1))).Left before r after := by
  rcases enriched_cases o input m setBody before with ⟨e, text, -, -, herror⟩ |
    ⟨body, hsettle, hbody, -⟩
  · rw [herror] at h
    cases h
    exact ⟨rfl, fun _ => .refl _⟩
  rw [hsettle] at h
  obtain ⟨vars, heq, hvars⟩ := settle_vars o input m
    (ranged order setVars) { before with body := body }
  rw [← h] at heq
  cases heq
  -- an entry that was set has a name other than `error` only if that is a mark
  have hset (hmarked : (setVars.map (·.1)).any (· ≠ "error") = false) (name : String)
      (hname : name ∉ ["error"]) : vars name = before.vars name := by
    rcases hvars name with hsame | ⟨e, x, hmem, -⟩
    · exact hsame
    · have hall := any_eq_false.1 hmarked name (mem_map_of_mem (mem_ranged.1 hmem))
      simp_all
  cases r with
  | ok =>
    intro hp
    obtain ⟨hnone, hmarked⟩ := Bool.or_eq_false_iff.1 hp
    exact ⟨rfl, hbody (Option.isNone_iff_eq_none.1 (by simpa using hnone)), hset hmarked⟩
  | error f =>
    refine ⟨rfl, fun hp => ?_⟩
    obtain ⟨name, e, text, hmem, heval, -⟩ := settle_eq_error (congrArg Prod.fst h.symm)
    rw [mem_ranged] at hmem
    obtain ⟨first, rest, rfl⟩ := exists_cons_of_ne_nil (ne_nil_of_mem hmem)
    obtain ⟨hnone, hmarked⟩ := Bool.or_eq_false_iff.1 hp
    refine ⟨rfl, hbody (by simpa using hnone), ?_⟩
    rcases Bool.and_eq_false_iff.1 hmarked with hmarked | hshort
    · exact hset hmarked
    · intro other _
      -- there is no entry besides the one that failed
      obtain rfl : rest = [] := by simpa using hshort
      rcases hvars other with hsame | ⟨e', x, hmem', heval', -⟩
      · exact hsame
      · cases (mem_singleton.1 hmem).trans (mem_singleton.1 (mem_ranged.1 hmem')).symm
        cases heval.symm.trans heval'

variable {a : Activation N τ}

theorem safe_setAll : ∀ (entries : Entries E) {s : Heap N},
    Held t n k m s → Source t m a s → Safe (handle o) (setAll a m entries) t (Grows n k)
        (fun r s' => Post t n k m r s' ∧
          (r, read s' m) = settle o (a.input s) m entries (read s m)) s
  | [], s, h, _ => ⟨keeps_pass (o := o) h, rfl⟩
  | (name, e) :: rest, s, h, hsource => by
    refine safe_eval h hsource.body hsource.owner hsource.vals (fun text heval => ?_)
      fun x heval => ?_
    · exact ⟨keeps_fail (o := o) h, by rw [settle, heval]⟩
    · obtain ⟨h₁, -⟩ := h.put x
      obtain ⟨hsource₁, hinput₁⟩ := hsource.put h x
      have hv := visible_put (s := s) (t := t) x
      obtain ⟨hsource₂, hinput₂⟩ := hsource₁.setVar h₁ name hv
      refine safe_setVar h₁ hv ((safe_setAll rest (setVar_spec h₁ name hv).held hsource₂).imp
        (fun _ _ => id) ?_)
      rintro r s' ⟨hpost, hset⟩
      refine ⟨hpost, ?_⟩
      rw [hset, hinput₂, hinput₁, read_setVar h₁ name hv, read_put h, view_put, settle, heval]

theorem Source.body_set (hsource : Source t m a s) (h : Held t n k m s)
    (x : Memory.Tree N) :
    ∃ s₂, s₂ = Heap.modifyMsg (s.put t x).2 m (fun y => { y with body := (s.put t x).1 }) ∧
      Held t n k m s₂ ∧ Source t m a s₂ ∧ a.input s₂ = a.input s ∧
      read s₂ m = { read s m with body := x.view } := by
  obtain ⟨h₁, -⟩ := h.put x
  obtain ⟨hsource₁, hinput₁⟩ := hsource.put h x
  have hv := visible_put (s := s) (t := t) x
  obtain ⟨hsource₂, hinput₂⟩ := hsource₁.setBody h₁ hv
  refine ⟨_, rfl, (setBody_spec h₁ hv).held, hsource₂, hinput₂.trans hinput₁, ?_⟩
  rw [read_setBody h₁ hv, read_put h, view_put]

theorem safe_enrichAt (setBody : Option E) (setVars : Entries E)
    (h : Held t n k m s) (hsource : Source t m a s) :
    Safe (handle o) (enrichAt setBody setVars m a) t (Grows n k)
      (fun r s' => Post t n k m r s' ∧ ∃ order,
        (r, read s' m) = enriched o (a.input s) m setBody (ranged order setVars) (read s m)) s := by
  cases setBody with
  | none =>
    exact safe_range fun order => (safe_setAll _ h hsource).imp (fun _ _ => id)
      fun r s' hr => ⟨hr.1, order, hr.2⟩
  | some =>
    refine safe_eval h hsource.body hsource.owner hsource.vals (fun text heval => ?_)
      fun x heval => ?_
    · exact ⟨keeps_fail (o := o) h, [], by rw [enriched, heval]⟩
    · obtain ⟨s₂, rfl, h₂, hsource₂, hinput₂, hread₂⟩ := hsource.body_set h x
      refine safe_setBody (h.put x).1 (visible_put x) (safe_range fun order =>
        (safe_setAll _ h₂ hsource₂).imp (fun _ _ => id) ?_)
      rintro r s' ⟨hpost, hset⟩
      refine ⟨hpost, order, ?_⟩
      rw [hset, hinput₂, hread₂, enriched, heval]

theorem source_activation {n' k' : Nat} {out : Addr} (hout : Held t n' k' out s)
    (hapart : ∀ a, (s.msg m).vars = some a → a.index < k') (now : τ) :
    Source t m (activation s out now) s := by
  refine ⟨hout.body, fun x hx => ?_, hout.vals⟩
  obtain ⟨ho, hlow, hlt⟩ := hout.vars x hx
  refine ⟨ho, hlt, fun heq => ?_⟩
  have := hapart x heq
  omega

/-! ## Every processor -/

theorem leaves_joined (names : List String) {c : Nat} (ended : List (Fin c × Outcome))
    (h : Held t n k m s) (hread : read s m = before) :
    Leaves o t n k m ⟨false, true, false⟩ before (joined names m ended) s := by
  unfold joined
  dsimp only
  split
  · exact leaves_fail_self h rfl hread
  · exact leaves_pass h fun _ => hread ▸ .refl _

theorem safe_branch {u : Thread} (f : Flow E) (h : Held t n k m s) (hu : t <:+ u)
    (hflow : ∀ {n k : Nat} {c : Addr} {s : Heap N}, Held u n k c s →
      Leaves o u n k c f.marks (read s c) (flow f c) s) :
    Safe (handle o) (.call (.clone m) fun copy => flow f copy) u (fun _ _ => True)
      (fun _ _ => True) s := by
  have hseen := h.seen hu
  obtain ⟨hheld, -⟩ := clone_spec o hseen
  have hsafe : Safe (handle o) (.call (.clone m) fun copy => flow f copy) u (Grows 0 0)
      (fun _ _ => True) s := by
    refine safe_clone hseen (Nat.zero_le _) (Nat.zero_le _) ?_
    exact (hflow hheld).imp (fun _ _ hg => hg.mono (Nat.zero_le _) (Nat.zero_le _))
      fun _ _ _ => trivial
  exact hsafe.imp (fun _ _ _ => trivial) fun _ _ => id

theorem safe_enrich (body : Flow E) (setBody : Option E) (setVars : Entries E)
    (h : Held t n k m s)
    (hflow : ∀ {n k : Nat} {c : Addr} {s : Heap N}, Held t n k c s →
      Leaves o t n k c body.marks (read s c) (flow body c) s)
    (hfails : ∀ e s', Held t n k m s' → read s' m = read s m → Q (.error e) s')
    (hends : ∀ input order r s', Post t n k m r s' → (r, read s' m) = enriched o input m setBody (ranged order setVars) (read s m) → Q r s') :
    Safe (handle o) (process (.enrichScope body setBody setVars) m) t (Grows n k) Q s := by
  have hseen := h.seen t.suffix_refl
  have hlow : n ≤ (s t).msgs.length := h.low.trans h.mem.le
  obtain ⟨hclone, -⟩ := clone_spec o hseen
  refine safe_clone hseen hlow h.room (safe_bind ?_)
  refine ((hflow hclone).track (refl _ _) fun _ _ _ => trans).imp
    (fun _ _ hg => hg.mono hlow h.room) ?_
  rintro r s₂ ⟨⟨⟨hout, hclone₂⟩, -⟩, hg, hup⟩
  obtain ⟨h₂, hapart, hread⟩ := held_beside h o hg hup
  cases r with
  | error e => exact hfails e s₂ h₂ hread
  | ok out =>
    cases hout out rfl
    show Safe (handle o) (enrichWith setBody setVars m (clone o s t m).1) t (Grows n k) Q s₂
    refine safe_activate (hclone₂.seen t.suffix_refl) fun now => ?_
    refine (safe_enrichAt setBody setVars h₂ (source_activation hclone₂ hapart now)).imp
      (fun _ _ => id) ?_
    rintro r s' ⟨hpost, order, hend⟩
    rw [hread] at hend
    exact hends _ order r s' hpost hend

mutual

theorem leaves_process : ∀ (p : Proc E) {t : Thread} {n k : Nat} {m : Addr} {s : Heap N},
    Held t n k m s → Leaves o t n k m p.marks (read s m) (process p m) s
  | .setPayload value, _, _, _, _, _, h => by
    unfold process Proc.marks
    rw [← Marks.andThen_nothing (.setting "")]
    exact leaves_assignBody h fun _ h' => leaves_pass h' fun _ => .refl _
  | .setVariable name value, _, _, _, _, _, h => by
    unfold process Proc.marks
    rw [← Marks.andThen_nothing (.setting name)]
    exact leaves_assign h fun _ h' => leaves_pass h' fun _ => .refl _
  | .deleteVariable name, _, _, _, _, _, h => by
    unfold process Proc.marks
    refine safe_deleteVar h (leaves_pass (deleteVar_spec h name).held fun hp => ?_)
    rw [read_deleteVar h name]
    exact .withVar (.refl _) (by simpa using hp) _
  | .multiTransform steps, _, _, _, _, _, h => by
    unfold process Proc.marks
    exact leaves_transform steps 0 h
  | .ifBlock condition then' els, _, _, _, _, _, h => by
    unfold process Proc.marks
    refine safe_evalCondition h fun r s' h' hread => ?_
    match r with
    | .error text => exact leaves_fail_self h' rfl hread
    | .ok true => exact leaves_either (.inl (hread ▸ leaves_flow then' h'))
    | .ok false => exact leaves_either (.inr (hread ▸ leaves_optional els h'))
  | .switchBlock cases def', _, _, _, _, _, h => by
    unfold process Proc.marks
    exact leaves_switchCases cases 0 h fun s' h' => leaves_optional def' h'
  | .foreachBlock items as' body, _, _, _, _, _, h => by
    unfold process Proc.marks
    refine safe_evalOn h (fun text => leaves_fail_self h rfl rfl) fun v s' h' hv hread => ?_
    refine safe_items hv fun r hr => ?_
    match r with
    | none => exact safe_typeName hv.valid fun _ => leaves_fail_self h' rfl hread
    | some xs =>
      refine safe_getVar (h'.seen (suffix_refl _)) fun hprev => ?_
      rw [← hread]
      exact leaves_each (fun s hs => leaves_flow body hs) xs h' (hr xs rfl) hprev rfl fun _ => .refl _
  | .handleErrors name main alternative, t, _, _, m, s, h => by
    unfold process Proc.marks
    refine safe_bind ((leaves_flow main h).imp (fun _ _ => id) ?_)
    rintro r s' ⟨⟨hout, h'⟩, hleft⟩
    match r with
    | .ok out => exact ⟨⟨hout, h'⟩, fun hp => hleft (by simp_all)⟩
    | .error e =>
      obtain ⟨h₁, -⟩ := h'.put (errorValue name e)
      have hv := visible_put (s := s') (t := t) (errorValue name e)
      have hread := read_setVar h₁ "error" hv
      rw [read_put h'] at hread
      -- the failure is stored in `error`, which is no mark
      have hfailed (hf : main.marks.failing = false) := (hleft.2 hf).withVar
        (mem_cons_self (a := "error")) (some (Heap.view (Heap.put s' t (errorValue name e)).2
          (Heap.put s' t (errorValue name e)).1))
      rw [← hread] at hfailed
      refine safe_alloc h' (safe_setVar h₁ hv (safe_bind ?_))
      refine (leaves_flow alternative (setVar_spec h₁ "error" hv).held).imp (fun _ _ => id) ?_
      rintro r' s'' ⟨⟨hout', h''⟩, hleft'⟩
      match r' with
      | .ok out => exact ⟨⟨hout', h''⟩, fun hp => by
          simp only [Bool.or_eq_false_iff] at hp
          exact (hfailed hp.1.2).trans (hleft' hp.2)⟩
      | .error e' =>
        refine leaves_fail h'' hleft'.1 fun hp => ?_
        obtain ⟨hmain, halternative⟩ := Bool.or_eq_false_iff.1 hp
        exact (hfailed hmain).trans (hleft'.2 halternative)
  | .fork branches, t, _, _, m, s, h => by
    unfold process Proc.marks
    refine ⟨fun i => ?_, fun ended s' hs' => ?_⟩
    · exact safe_branchCodes branches h (suffix_cons _ _) _ (get_mem _ _)
    · exact leaves_joined _ ended (h.congr hs') (read_eq (h.seen t.suffix_refl) hs')
  | .enrichScope body setBody setVars, _, _, _, _, _, h => by
    unfold Proc.marks
    exact safe_enrich body setBody setVars h (fun h' => leaves_flow body h')
      (fun _ _ h' hread => leaves_fail_self (o := o) h' rfl hread)
      fun _ _ _ _ hpost hend => ⟨hpost, left_of_enriched hend⟩

theorem leaves_flow : ∀ (f : Flow E) {t : Thread} {n k : Nat} {m : Addr} {s : Heap N},
    Held t n k m s → Leaves o t n k m f.marks (read s m) (flow f m) s
  | ⟨_, blocks⟩, _, _, _, _, _, h => by
    unfold flow Flow.marks
    exact leaves_chain blocks h

theorem leaves_chain : ∀ (blocks : List (Block E)) {t : Thread} {n k : Nat} {m : Addr} {s : Heap N},
    Held t n k m s → Leaves o t n k m (chainMarks blocks) (read s m) (chain blocks m) s
  | [], _, _, _, _, _, h => by
    unfold chain
    exact leaves_pass h fun _ => .refl _
  | ⟨name, type, processor⟩ :: rest, _, _, _, _, _, h => by
    unfold chain chainMarks
    refine safe_bind ((leaves_process processor h).imp (fun _ _ => id) ?_)
    rintro r s' ⟨⟨hout, h'⟩, hleft⟩
    cases r with
    | error =>
      refine leaves_fail h' (by simp [Marks.andThen, hleft.1]) fun hp => hleft.2 ?_
      simp only [Marks.andThen, Bool.or_eq_false_iff] at hp
      exact hp.1.1
    | ok out =>
      cases hout out rfl
      exact (leaves_chain rest h').after hleft

theorem leaves_optional : ∀ (f : Option (Flow E)) {t : Thread} {n k : Nat} {m : Addr} {s : Heap N},
    Held t n k m s → Leaves o t n k m (optionalMarks f) (read s m) (optional f m) s
  | none, _, _, _, _, _, h => by
    unfold optional
    exact leaves_pass h fun _ => .refl _
  | some f, _, _, _, _, _, h => by
    unfold optional optionalMarks
    exact leaves_flow f h

theorem leaves_switchCases : ∀ (cases : List (Case E)) (i : Nat) {t : Thread} {n k : Nat} {m : Addr}
    {s : Heap N} {otherwise : Code N τ E} {l : Marks}, Held t n k m s →
    (∀ s', Held t n k m s' → Leaves o t n k m l (read s' m) otherwise s') →
      Leaves o t n k m (caseMarks cases l) (read s m) (switchCases i cases m otherwise) s
  | [], _, _, _, _, _, _, _, _, h, hother => by
    unfold switchCases caseMarks
    exact hother _ h
  | ⟨when', f⟩ :: rest, i, _, _, _, _, _, _, _, h, hother => by
    unfold switchCases caseMarks
    refine safe_evalCondition h fun r s' h' hread => ?_
    match r with
    | .error text => exact leaves_fail_self h' rfl hread
    | .ok true => exact leaves_either (.inl (hread ▸ leaves_flow f h'))
    | .ok false => exact leaves_either (.inr (hread ▸ leaves_switchCases rest (i + 1) h' hother))

theorem safe_branchCodes : ∀ (branches : List (Flow E)) {t u : Thread} {n k : Nat} {m : Addr}
    {s : Heap N}, Held t n k m s → t <:+ u → ∀ code ∈ branchCodes branches m,
      Safe (handle o) code u (fun _ _ => True) (fun _ _ => True) s
  | [], _, _, _, _, _, _, _, _ => by
    unfold branchCodes
    exact fun _ hcode => (nomatch hcode)
  | f :: rest, _, _, _, _, _, _, h, hu => by
    unfold branchCodes
    intro code hcode
    rcases mem_cons.1 hcode with rfl | hcode
    · exact safe_branch f h hu fun h' => leaves_flow f h'
    · exact safe_branchCodes rest h hu code hcode

end

theorem safe_process (p : Proc E) (h : Held t n k m s) : Keeps o t n k m (process p m) s :=
  (leaves_process p h).imp (fun _ _ => id) fun _ _ hr => hr.1

theorem safe_flow (f : Flow E) (h : Held t n k m s) : Keeps o t n k m (flow f m) s :=
  (leaves_flow f h).imp (fun _ _ => id) fun _ _ hr => hr.1

end

end Octo.Engine.Builtins
