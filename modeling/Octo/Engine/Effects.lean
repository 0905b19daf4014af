import Octo.Engine.Isolation

/-!
# What a block that fails leaves behind

* `enrich_steady_iff` — the outcome of an `enrich` is the same for every order of its variables, and
  a failure leaves the message as it was, just when no order can show.
-/

namespace Octo.Engine.Builtins

open List Octo.Foundation.Parallel Octo.Engine.Memory

section

variable {N τ E : Type} {o : Outside N τ E} {t : Thread} {n k : Nat} {m : Addr} {s s' : Heap N}
  {input : Input N τ} {before after : Reading N} {setBody : Option E} {setVars : Entries E}

/-! ## Orders -/

inductive Settled (o : Outside N τ E) (input : Input N τ) (before : Reading N) (setBody : Option E)
    (setVars : Entries E) : Prop
  | bodyFails {e : E} {text : String} (hbody : setBody = some e) (h : o.eval e input = .error text)
  | noneFails (h : ∀ name e, (name, e) ∈ setVars → ∃ x, o.eval e input = .ok x)
  | nothingChanges (hbody : ∀ e x, setBody = some e → o.eval e input = .ok x → x.view = before.body)
      (hvars : ∀ name e x, (name, e) ∈ setVars → o.eval e input = .ok x →
        before.vars name = some x.view)
      (herror : ∀ name e text name' e' text', (name, e) ∈ setVars → (name', e') ∈ setVars →
        o.eval e input = .error text → o.eval e' input = .error text' →
        setVarsError name text = setVarsError name' text')

theorem ranged_first {α : Type} {entries : List α} {x : α} (hx : x ∈ entries) :
    ∃ order rest, ranged order entries = x :: rest := by
  obtain ⟨i, hi⟩ := mem_iff_getElem?.1 hx
  obtain ⟨hlt, -⟩ := List.getElem?_eq_some_iff.1 hi
  have hperm : (i :: (List.range entries.length).erase i).isPerm (List.range entries.length) :=
    isPerm_iff.2 (perm_cons_erase (mem_range.2 hlt)).symm
  refine ⟨i :: (List.range entries.length).erase i,
    ((List.range entries.length).erase i).filterMap (entries[·]?), ?_⟩
  rw [ranged, if_pos hperm, filterMap_cons, hi]

theorem settle_same : ∀ {entries : Entries E}, (∀ name e x, (name, e) ∈ entries →
    o.eval e input = .ok x → before.vars name = some x.view) →
      (settle o input m entries before).2 = before
  | [], _ => rfl
  | (key, e) :: rest, h => by
    cases heval : o.eval e input with
    | error => simp [settle, heval]
    | ok x =>
      have hself : before.withVar key (some x.view) = before := by
        have hvars : (before.withVar key (some x.view)).vars = before.vars := by
          funext name
          simp only [Reading.withVar]
          split
          next hname =>
            rw [hname, h key e x mem_cons_self heval]
          · rfl
        exact congrArg (fun vars => { before with vars := vars }) hvars
      simp only [settle, heval, hself]
      exact settle_same fun name e' y hmem => h name e' y (mem_cons_of_mem _ hmem)

theorem entry_eq (hkeys : (setVars.map (·.1)).Nodup) {name : String} {e e' : E}
    (h : (name, e) ∈ setVars) (h' : (name, e') ∈ setVars) : e = e' := by
  have heq := inj_on_of_nodup_map hkeys h h' rfl
  cases heq
  rfl

theorem settle_unique (hkeys : (setVars.map (·.1)).Nodup) {order order' : List Nat}
    {r r' : Option Addr} (h : (settle o input m (ranged order setVars) before).1 = .ok r)
    (h' : (settle o input m (ranged order' setVars) before).1 = .ok r') :
    settle o input m (ranged order setVars) before =
      settle o input m (ranged order' setVars) before := by
  obtain ⟨hr, hok⟩ := settle_eq_ok (Prod.ext h rfl)
  obtain ⟨hr', hok'⟩ := settle_eq_ok (Prod.ext h' rfl)
  obtain ⟨vars, heq, hvars⟩ := settle_vars o input m (ranged order setVars) before
  obtain ⟨vars', heq', hvars'⟩ := settle_vars o input m (ranged order' setVars) before
  have hsame : vars = vars' := by
    funext name
    by_cases hin : ∃ e, (name, e) ∈ setVars
    · obtain ⟨e, hmem⟩ := hin
      obtain ⟨-, e₁, x₁, hmem₁, hx₁, hset₁⟩ := hok name e (mem_ranged.2 hmem)
      obtain ⟨-, e₂, x₂, hmem₂, hx₂, hset₂⟩ := hok' name e (mem_ranged.2 hmem)
      cases entry_eq hkeys (mem_ranged.1 hmem₁) (mem_ranged.1 hmem₂)
      cases hx₁.symm.trans hx₂
      have h₁ : vars name = some x₁.view :=
        (congrArg (fun r : Reading N => r.vars name) heq).symm.trans hset₁
      exact h₁.trans (hset₂.symm.trans (congrArg (fun r : Reading N => r.vars name) heq'))
    · have hother : ∀ {order : List Nat} {e : E}, (name, e) ∉ ranged order setVars := fun hmem =>
        hin ⟨_, mem_ranged.1 hmem⟩
      rcases hvars name with h₁ | ⟨e, x, hmem, -⟩
      · rcases hvars' name with h₂ | ⟨e, x, hmem, -⟩
        · exact h₁.trans h₂.symm
        · exact absurd hmem hother
      · exact absurd hmem hother
  refine Prod.ext ?_ ?_
  · rw [h, h', hr, hr']
  · rw [heq, heq', hsame]

theorem settle_fails (hone : ¬∀ name e, (name, e) ∈ setVars → ∃ x, o.eval e input = .ok x)
    (order : List Nat) : ∃ f, (settle o input m (ranged order setVars) before).1 = .error f := by
  cases h : (settle o input m (ranged order setVars) before).1 with
  | error f => exact ⟨f, rfl⟩
  | ok =>
    obtain ⟨-, hok⟩ := settle_eq_ok (Prod.ext h rfl)
    exact absurd (fun name e hmem => (hok name e (mem_ranged.2 hmem)).1) hone

theorem settle_succeeds (hall : ∀ name e, (name, e) ∈ setVars → ∃ x, o.eval e input = .ok x)
    (order : List Nat) : ∃ r, (settle o input m (ranged order setVars) before).1 = .ok r := by
  cases h : (settle o input m (ranged order setVars) before).1 with
  | ok r => exact ⟨r, rfl⟩
  | error =>
    obtain ⟨name, e, text, hmem, heval, -⟩ := settle_eq_error h
    obtain ⟨x, hx⟩ := hall name e (mem_ranged.1 hmem)
    cases heval.symm.trans hx

theorem settle_first (m : Addr) (before : Reading N) (hkeys : (setVars.map (·.1)).Nodup)
    {name : String} {e : E} {x : Memory.Tree N} (hmem : (name, e) ∈ setVars)
    (hx : o.eval e input = .ok x) :
    ∃ order, (settle o input m (ranged order setVars) before).2.vars name = some x.view := by
  obtain ⟨order, rest, horder⟩ := ranged_first hmem
  refine ⟨order, ?_⟩
  obtain ⟨vars, heq, hvars⟩ := settle_vars o input m rest (before.withVar name (some x.view))
  simp only [horder, settle, hx, heq]
  rcases hvars name with hsame | ⟨e', y, hmem', hy, hset⟩
  · exact hsame.trans (before.withVar_self _ _)
  · -- no other entry has the name
    have hin : (name, e') ∈ setVars := mem_ranged.1 (horder ▸ mem_cons_of_mem (name, e) hmem')
    cases entry_eq hkeys hmem hin
    cases hx.symm.trans hy
    exact hset

theorem steady_iff (hkeys : (setVars.map (·.1)).Nodup) :
    ((∀ order order', enriched o input m setBody (ranged order setVars) before =
        enriched o input m setBody (ranged order' setVars) before) ∧
      ∀ order f, (enriched o input m setBody (ranged order setVars) before).1 = .error f →
        (enriched o input m setBody (ranged order setVars) before).2 = before) ↔
    Settled o input before setBody setVars := by
  rcases enriched_cases o input m setBody before with ⟨e, text, hbody, heval, hfails⟩ |
    ⟨body, hsettle, hnone, hsome⟩
  · refine ⟨fun _ => .bodyFails hbody heval, fun _ => ⟨fun order order' => ?_, fun order f _ => ?_⟩⟩
    · rw [hfails, hfails]
    · rw [hfails]
  simp only [hsettle]
  by_cases hall : ∀ name e, (name, e) ∈ setVars → ∃ x, o.eval e input = .ok x
  · refine ⟨fun _ => .noneFails hall, fun _ => ⟨fun order order' => ?_, fun order f hf => ?_⟩⟩
    · obtain ⟨r, hr⟩ := settle_succeeds hall order
      obtain ⟨r', hr'⟩ := settle_succeeds hall order'
      exact settle_unique hkeys hr hr'
    · obtain ⟨r, hr⟩ := settle_succeeds hall order
      cases hf.symm.trans hr
  constructor
  · rintro ⟨hsame, hleft⟩
    have hkept : ∀ order,
        (settle o input m (ranged order setVars) { before with body := body }).2 = before := by
      intro order
      obtain ⟨f, hf⟩ := settle_fails hall order
      exact hleft order f hf
    refine .nothingChanges (fun e x he hx => ?_) (fun name e x hmem hx => ?_) ?_
    · obtain ⟨vars, heq, -⟩ := settle_vars o input m
        (ranged [] setVars) { before with body := body }
      obtain ⟨y, hy, hbody⟩ := hsome e he
      cases hx.symm.trans hy
      exact hbody.symm.trans (congrArg Reading.body (heq.symm.trans (hkept [])))
    · obtain ⟨order, hset⟩ := settle_first m { before with body := body } hkeys hmem hx
      rw [hkept order] at hset
      exact hset
    · intro name e text name' e' text' hmem hmem' heval heval'
      obtain ⟨order, rest, horder⟩ := ranged_first hmem
      obtain ⟨order', rest', horder'⟩ := ranged_first hmem'
      have heq := congrArg Prod.fst (hsame order order')
      simp only [horder, horder', settle, heval, heval'] at heq
      exact Except.error.inj heq
  · intro hsettled
    cases hsettled with
    | bodyFails hbody heval =>
      obtain ⟨x, hx, -⟩ := hsome _ hbody
      cases heval.symm.trans hx
    | noneFails h => exact absurd h hall
    | nothingChanges hbody hvars herror =>
      have hsame : body = before.body := by
        cases hset : setBody with
        | none => exact hnone hset
        | some e =>
          obtain ⟨x, hx, hview⟩ := hsome e hset
          exact hview.trans (hbody e x hset hx)
      rw [hsame]
      have hkept : ∀ order, (settle o input m (ranged order setVars) before).2 = before :=
        fun order => settle_same fun name e x hmem => hvars name e x (mem_ranged.1 hmem)
      refine ⟨fun order order' => Prod.ext ?_ ((hkept order).trans (hkept order').symm),
        fun order f _ => hkept order⟩
      obtain ⟨f, hf⟩ := settle_fails hall order
      obtain ⟨f', hf'⟩ := settle_fails hall order'
      obtain ⟨name, e, text, hmem, heval, rfl⟩ := settle_eq_error hf
      obtain ⟨name', e', text', hmem', heval', rfl⟩ := settle_eq_error hf'
      rw [herror name e text name' e' text' (mem_ranged.1 hmem) (mem_ranged.1 hmem') heval
        heval'] at hf
      exact hf.trans hf'.symm

/-! ## Enrichment -/

/-- How an `enrich` can end once its body ended in `s` with `out`, for any order of its variables:
the result, and what is then read of the message. -/
def Ends (o : Outside N τ E) (t : Thread) (setBody : Option E) (setVars : Entries E)
    (m out : Addr) (s : Heap N) (now : τ) (r : Outcome) (after : Reading N) : Prop :=
  ∃ order ms s', Run (handle o) t (enrichWith setBody setVars m out) s (.act ⟨now, order⟩ :: ms)
    (.done r) s' ∧ after = read s' m

theorem alike_setAll (a : Activation N τ) (m : Addr) : ∀ entries : Entries E,
    Alike (fun _ _ => True) (setAll a m entries : Code N τ E) (setAll a m entries)
  | [] => .done trivial
  | (name, e) :: rest => by
    refine .call fun r => ?_
    cases r with
    | error => exact .done trivial
    | ok => exact .call fun _ => alike_setAll a m rest

theorem stable_settled {p : Outcome × Reading N} :
    Stable t fun (r : Outcome) s' => Post t n k m r s' ∧ (r, read s' m) = p := by
  rintro r s₁ s₂ hs ⟨hpost, hp⟩
  rw [read_eq (hpost.2.seen t.suffix_refl) hs]
  exact ⟨stable_post r s₁ s₂ hs hpost, hp⟩

theorem ends_of_order {out : Addr} (h : Held t n k m s) {now : τ}
    (hsource : Source t m (activation s out now) s) (order : List Nat) :
    Ends o t setBody setVars m out s now
      (enriched o ((activation s out now).input s) m setBody (ranged order setVars) (read s m)).1
      (enriched o ((activation s out now).input s) m setBody (ranged order setVars)
        (read s m)).2 := by
  have hset : ∀ s₁, Held t n k m s₁ → Source t m (activation s out now) s₁ → ∃ ms r s',
      Run (handle o) t (.call (.range setVars) fun entries =>
        setAll (activation s out now) m entries) s₁ ms (.done r) s' ∧
      (r, read s' m) = settle o ((activation s out now).input s₁) m (ranged order setVars)
        (read s₁ m) := by
    intro s₁ h₁ hsource₁
    obtain ⟨ms, r, s', hrun⟩ : ∃ ms r s', Run (handle o) t
        (setAll (activation s out now) m (ranged order setVars)) s₁ ms (.done r) s' :=
      (alike_setAll _ m _).exists_run t ⟨now, order⟩ s₁
    exact ⟨.act ⟨now, order⟩ :: ms, r, s', .move rfl hrun,
      (run_post stable_settled (safe_setAll _ h₁ hsource₁) hrun).2⟩
  cases setBody with
  | none =>
    obtain ⟨ms, r, s', hrun, heq⟩ := hset s h hsource
    have hend : enriched o ((activation s out now).input s) m none (ranged order setVars)
        (read s m) = (r, read s' m) := heq.symm
    rw [hend]
    exact ⟨order, ms, s', .move rfl hrun, rfl⟩
  | some e =>
    cases heval : o.eval e ((activation s out now).input s) with
    | error =>
      simp only [enriched, heval]
      refine ⟨order, [.act ⟨now, order⟩], s, .move rfl (.move ?_ (.refl _ _)), rfl⟩
      simp only [enrichAt, step, handle, heval]
      rfl
    | ok x =>
      obtain ⟨s₂, rfl, h₂, hsource₂, hinput₂, hread₂⟩ := hsource.body_set h x
      obtain ⟨ms, r, s', hrun, heq⟩ := hset _ h₂ hsource₂
      rw [hinput₂, hread₂] at heq
      simp only [enriched, heval, ← heq]
      have hbody : Run (handle o) t (.call (.setBody m (s.put t x).1) fun _ =>
          .call (.range setVars) fun entries => setAll (activation s out now) m entries)
          (s.put t x).2 (.act ⟨now, order⟩ :: ms) (.done r) s' := .move rfl hrun
      refine ⟨order, .act ⟨now, order⟩ :: .act ⟨now, order⟩ :: ms, s', .move rfl (.move ?_ hbody),
        rfl⟩
      simp [enrichAt, step, handle, heval]

/-- **When an `enrich` is deterministic and leaves no trace of a failure.** -/
theorem enrich_steady_iff (h : Held t n k m s) {body : Flow E} {ms : List (Move (Choice τ))}
    {s₁ : Heap N} (hkeys : (setVars.map (·.1)).Nodup)
    (hbody : Run (handle o) t (flow body (clone o s t m).1) (clone o s t m).2 ms
      (.done (.ok (some (clone o s t m).1))) s₁) (now : τ) :
    ((∀ r r' x x', Ends o t setBody setVars m (clone o s t m).1 s₁ now r x →
        Ends o t setBody setVars m (clone o s t m).1 s₁ now r' x' → r = r' ∧ x = x') ∧
      ∀ f x, Ends o t setBody setVars m (clone o s t m).1 s₁ now (.error f) x → x = read s m) ↔
    Settled o ((activation s₁ (clone o s t m).1 now).input s₁) (read s m) setBody setVars := by
  obtain ⟨h₁, hread, -, hseen, hsource⟩ := run_beside h hbody
  have hends : ∀ {r x}, Ends o t setBody setVars m (clone o s t m).1 s₁ now r x ↔
      ∃ order, (r, x) = enriched o ((activation s₁ (clone o s t m).1 now).input s₁) m setBody
        (ranged order setVars) (read s₁ m) := by
    intro r x
    constructor
    · rintro ⟨order, ms, s', hrun, rfl⟩
      obtain ⟨c, ms₁, order', heq, hend⟩ := run_enrichWith h₁ hseen hsource hrun
      cases heq
      exact ⟨order', hend⟩
    · rintro ⟨order, heq⟩
      have hend : Ends o t setBody setVars m _ s₁ now _ _ := ends_of_order h₁ (hsource now) order
      rw [← heq] at hend
      exact hend
  rw [← steady_iff hkeys, ← hread]
  constructor
  · rintro ⟨hsame, hleft⟩
    refine ⟨fun order order' => ?_, fun order f hf => ?_⟩
    · obtain ⟨hr, hx⟩ := hsame _ _ _ _ (hends.2 ⟨order, rfl⟩) (hends.2 ⟨order', rfl⟩)
      exact Prod.ext hr hx
    · exact hleft f _ (hends.2 ⟨order, by rw [← hf]⟩)
  · rintro ⟨hsame, hleft⟩
    refine ⟨fun r r' x x' hr hr' => ?_, fun f x hf => ?_⟩
    · obtain ⟨order, heq⟩ := hends.1 hr
      obtain ⟨order', heq'⟩ := hends.1 hr'
      exact Prod.mk.inj (heq.trans ((hsame order order').trans heq'.symm))
    · obtain ⟨order, heq⟩ := hends.1 hf
      have hkept := hleft order f (by rw [← heq])
      rw [← heq] at hkept
      exact hkept

end

/-- The expression `bad` fails. -/
def flaky : Outside Nat Unit String where
  eval e _ := if e = "bad" then .error "no" else .ok (.atom (.str e))
  roundTrip _ := none

/-- An enrich that fails after it has set the body to what it was. -/
theorem failed_enrich_steady :
    let out := clone flaky start [] ⟨[], 0⟩
    (∀ r r' x x', Ends flaky [] (some "hi") [("a", "bad")] ⟨[], 0⟩ out.1 out.2 () r x →
      Ends flaky [] (some "hi") [("a", "bad")] ⟨[], 0⟩ out.1 out.2 () r' x' → r = r' ∧ x = x') ∧
    ∀ f x, Ends flaky [] (some "hi") [("a", "bad")] ⟨[], 0⟩ out.1 out.2 () (.error f) x →
      x = read start ⟨[], 0⟩ := by
  intro out
  have hbody : Run (handle flaky) [] (flow ⟨"", []⟩ out.1) out.2 [] (.done (.ok (some out.1))) out.2 :=
    .refl _ _
  refine (enrich_steady_iff (Decoded.held _) (by decide) hbody ()).2 (.nothingChanges ?_ ?_ ?_)
  · rintro e x ⟨⟩ ⟨⟩
    funext path
    cases path <;> rfl
  · intro name e x hmem hx
    cases mem_singleton.1 hmem
    cases hx
  · intro name e text name' e' text' hmem hmem' heval heval'
    cases mem_singleton.1 hmem
    cases mem_singleton.1 hmem'
    cases heval
    cases heval'
    rfl

def overwriting : Proc String := .enrichScope ⟨"", []⟩ (some "x") [("a", "bad")]

def wavering : Proc String := .enrichScope ⟨"", []⟩ none [("a", "bad"), ("b", "y")]

/-- An enrich that fails leaves the body it set, and a variable or not, as the map is ranged over. -/
theorem failed_enrich_shows :
    (∃ ms s' f, Run (handle flaky) [] (process overwriting ⟨[], 0⟩) start ms (.done (.error f)) s' ∧
      (read s' ⟨[], 0⟩).body [] ≠ (read start ⟨[], 0⟩).body []) ∧
    ∃ ms ms' s₁ s₂ f, Run (handle flaky) [] (process wavering ⟨[], 0⟩) start
        (.act ⟨(), []⟩ :: .act ⟨(), []⟩ :: .act ⟨(), [0, 1]⟩ :: ms) (.done (.error f)) s₁ ∧
      Run (handle flaky) [] (process wavering ⟨[], 0⟩) start
        (.act ⟨(), []⟩ :: .act ⟨(), []⟩ :: .act ⟨(), [1, 0]⟩ :: ms') (.done (.error f)) s₂ ∧
      ((read s₁ ⟨[], 0⟩).vars "b").isSome ≠ ((read s₂ ⟨[], 0⟩).vars "b").isSome := by
  have hbody : ∃ s', Run (handle flaky) [] (process overwriting ⟨[], 0⟩) start
      (List.replicate 6 (.act ⟨(), []⟩)) (.done (.error (setVarsError "a" "no"))) s' ∧
      (read s' ⟨[], 0⟩).body [] = some (.atom (.str "x")) :=
    exists_run_of_eq (fun s' => (read s' ⟨[], 0⟩).body []) (by rfl)
  have hfirst : ∃ s₁, Run (handle flaky) [] (process wavering ⟨[], 0⟩) start
      [.act ⟨(), []⟩, .act ⟨(), []⟩, .act ⟨(), [0, 1]⟩, .act ⟨(), []⟩]
      (.done (.error (setVarsError "a" "no"))) s₁ ∧
      ((read s₁ ⟨[], 0⟩).vars "b").isSome = false :=
    exists_run_of_eq (fun s' => ((read s' ⟨[], 0⟩).vars "b").isSome) (by rfl)
  have hlast : ∃ s₂, Run (handle flaky) [] (process wavering ⟨[], 0⟩) start
      [.act ⟨(), []⟩, .act ⟨(), []⟩, .act ⟨(), [1, 0]⟩, .act ⟨(), []⟩, .act ⟨(), []⟩,
        .act ⟨(), []⟩] (.done (.error (setVarsError "a" "no"))) s₂ ∧
      ((read s₂ ⟨[], 0⟩).vars "b").isSome = true :=
    exists_run_of_eq (fun s' => ((read s' ⟨[], 0⟩).vars "b").isSome) (by rfl)
  obtain ⟨s', hrun, hx⟩ := hbody
  obtain ⟨s₁, hrun₁, hb₁⟩ := hfirst
  obtain ⟨s₂, hrun₂, hb₂⟩ := hlast
  refine ⟨⟨_, s', _, hrun, ?_⟩, _, _, s₁, s₂, _, hrun₁, hrun₂, ?_⟩
  · have hstart : (read start ⟨[], 0⟩).body [] = some (.atom (.str "hi")) := rfl
    rw [hx, hstart]
    simp
  · rw [hb₁, hb₂]
    decide

end Octo.Engine.Builtins
