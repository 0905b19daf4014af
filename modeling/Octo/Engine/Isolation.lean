import Octo.Engine.Builtins

/-!
# Clones isolate sub-flows

A `fork` runs its branches and an `enrich` its body on clones of the message.  A clone shares the
values of the variables with the message, so that isolation rests on what the blocks do to them:
`safe_process` says that a block changes only the message it is given and what it allocates itself.

* `clones_isolate` — both, with what a branch sees, for every run.
-/

namespace Octo.Engine.Builtins

open List Option Octo.Foundation.Parallel Octo.Engine.Memory

section

variable {N τ E : Type}

/-! ## Clones and decoded messages -/

/-- The body of a clone: the JSON round trip of the body, which is the body itself when it is null
or when the round trip fails. -/
def copiedBody (o : Outside N τ E) (body : View N) : View N := match body [] with
  | some (.atom .null) => body
  | _ =>
    match o.roundTrip body with
    | some x => x.view
    | none => body

variable {o : Outside N τ E} {t : Thread} {n k : Nat} {m : Addr} {s s' : Heap N}

theorem view_cloneBody {v : Val N} (hv : Visible t s v) (maps : List (Fields N))
    (msgs : List (Message N)) :
    (s.grow t (cloneBody o s t v).2 maps msgs).view (cloneBody o s t v).1 =
      copiedBody o (s.view v) := by
  -- unless the value is null, both sides look at the round trip
  have htrip : ∀ r : Val N × List (Obj N), r = (match o.roundTrip (s.view v) with
        | some x => x.store t (s t).objs.length
        | none => (v, [])) →
      (s.grow t r.2 maps msgs).view r.1 = match o.roundTrip (s.view v) with
        | some x => x.view
        | none => s.view v := by
    rintro r rfl
    cases o.roundTrip (s.view v) with
    | some x => exact funext (view_store x _ (placed_grow _ _ _))
    | none => exact view_extends (extends_grow _ _ _) hv
  cases v with
  | atom x =>
    cases x with
    | null => exact view_extends (extends_grow _ _ _) hv
    | bool => exact htrip _ rfl
    | str => exact htrip _ rfl
    | num => exact htrip _ rfl
  | ref a =>
    obtain ⟨-, obj, hobj⟩ := hv.valid
    have hnode : s.view (.ref a) [] = some obj.node := by
      simp [Heap.view, Heap.node, hobj]
    refine (htrip _ rfl).trans ?_
    unfold copiedBody
    rw [hnode]
    cases obj <;> rfl

theorem read_clone (h : Seen t m s) : read (clone o s t m).2 (clone o s t m).1 =
      { read s m with body := copiedBody o (read s m).body } := by
  obtain ⟨-, hfields, a, hmsg⟩ := clone_spec o h
  have hext : Extends t s (clone o s t m).2 := extends_grow _ _ _
  have hbody : (clone o s t m).2.view (cloneBody o s t (s.msg m).body).1 =
      copiedBody o (s.view (s.msg m).body) := view_cloneBody h.body _ _
  simp [read, hmsg, hfields, lookup_view_extends h hext, hbody]

/-- A message that is not in memory yet; its variables may be nil. -/
structure Decoded (N : Type) where
  eventID : String
  correlationID : String
  bodySchema : List UInt8
  body : Memory.Tree N
  vars : Option (List (String × Memory.Tree N))

def Decoded.heap (d : Decoded N) : Heap N := let body := d.body.store [] 0
  let vars := storeFields [] body.2.length (d.vars.getD [])
  fun t =>
    if t = [] then
      { objs := body.2 ++ vars.2
        maps := (d.vars.map fun _ => vars.1).toList
        msgs := [⟨d.eventID, d.correlationID, d.vars.map fun _ => ⟨[], 0⟩, body.1, d.bodySchema⟩] }
    else {}

theorem Decoded.held (d : Decoded N) : Held [] 0 0 ⟨[], 0⟩ d.heap := by
  have hplaced : Placed d.heap [] 0 ((d.body.store [] 0).2 ++
      (storeFields [] (d.body.store [] 0).2.length (d.vars.getD [])).2) := by
    intro i obj hobj
    rw [Nat.zero_add]
    exact hobj
  obtain ⟨hbody, hvars⟩ := placed_append hplaced
  rw [Nat.zero_add] at hvars
  refine ⟨rfl, Nat.zero_le _, Nat.zero_lt_one, Nat.zero_le _, fun a ha => ?_, ?_, fun p hp => ?_⟩
  · cases hv : d.vars with
    | none => simp [Decoded.heap, Heap.msg, hv] at ha
    | some =>
      simp only [Decoded.heap, Heap.msg, hv, map_some, if_true, getElem?_cons_zero,
        getD_some, Option.some.injEq] at ha
      subst ha
      exact ⟨rfl, Nat.zero_le _, by simp [Decoded.heap, hv]⟩
  · exact visible_store d.body 0 hbody
  · refine visible_storeFields (d.vars.getD []) _ hvars p ?_
    cases hv : d.vars with
    | none => simp [Heap.fields, Decoded.heap, Heap.msg, hv, Heap.fieldsAt] at hp
    | some =>
      simpa [Heap.fields, Decoded.heap, Heap.msg, hv, Heap.fieldsAt, Heap.map] using hp

/-! ## Forks -/

variable {r : Option Addr} {ms : List (Move (Choice τ))}

theorem joined_eq_ok {names : List String} {c : Nat} {ended : List (Fin c × Outcome)}
    (h : (.done (.ok r) : Code N τ E) = joined names m ended) :
    r = some m ∧ ∀ i b, (i, b) ∈ ended → ∃ out, b = .ok out := by
  unfold joined at h
  dsimp only at h
  split at h
  · cases h
  next hnone =>
    cases h
    refine ⟨rfl, fun i b hb => ?_⟩
    have hresult := findSome?_eq_none_iff.1 hnone (i, b) hb
    cases b with
    | ok out => exact ⟨out, rfl⟩
    | error => cases hresult

/-- **A fork that succeeds** returns its message as it was, and each branch ended as it does when
its moves are made alone. -/
theorem run_fork (h : Held t n k m s) {branches : List (Flow E)}
    (hrun : Run (handle o) t (process (.fork branches) m) s ms (.done (.ok r)) s') :
    r = some m ∧ (∀ u, u <:+ t → s' u = s u) ∧ ∀ (i : Nat) f, branches[i]? = some f → ∃ out s₂,
        runMoves (handle o) (branchCode f m) (i :: t) s (ms.filterMap (Move.of i)) =
          some (.done (.ok out), s₂) ∧ ∀ u, Kin (i :: t) u → s₂ u = s' u := by
  have hsafe : Keeps o t n k m (process (.fork branches) m) s := safe_process _ h
  rcases run_par stable_post hsafe (ended_nil _) hrun with ⟨_, _, heq, -⟩ |
    ⟨ms₁, ms₂, branch', results, s₁, rfl, hended, hlen, hruns, hrest⟩
  · cases heq
  · -- what follows the join makes no access
    obtain ⟨b, hb⟩ : ∃ b, joined (branches.map (·.name)) m results = (.done b) := by
      unfold joined
      dsimp only
      split
      · exact ⟨_, rfl⟩
      · exact ⟨_, rfl⟩
    rw [hb] at hrest
    obtain ⟨heq, rfl, hs'⟩ := run_done hrest
    obtain ⟨rfl, hok⟩ := joined_eq_ok (heq.trans hb.symm)
    refine ⟨rfl, fun u hu => (hs' u (.inl hu)).trans (hruns.up u hu), fun i f hf => ?_⟩
    obtain ⟨hi, -⟩ := List.getElem?_eq_some_iff.1 hf
    have hlength : i < (branchCodes branches m : List (Code N τ E)).length := by
      rw [branchCodes_eq, length_map]
      exact hi
    have hcode : (branchCodes branches m).get ⟨i, hlength⟩ =
        branchCode f m := by
      have hget : (branchCodes branches m : List (Code N τ E))[i]? = some (branchCode f m) := by
        rw [branchCodes_eq, getElem?_map, hf, map_some]
      exact (List.getElem?_eq_some_iff.1 hget).2
    obtain ⟨b', hb'⟩ := hended.all hlen ⟨i, hlength⟩
    obtain ⟨out, rfl⟩ := hok _ _ hb'
    have hbranch := hruns.runs ⟨i, hlength⟩
    have hbsafe := hsafe.1 ⟨i, hlength⟩
    rw [hended.result _ _ hb', hcode] at hbranch
    rw [hcode] at hbsafe
    obtain ⟨s₂, hmoves, hs₂⟩ := run_alone stable_true hbsafe hbranch s fun _ _ => rfl
    refine ⟨out, s₂, ?_, fun u hu => (hs₂ u hu).trans (hs' u (kin_cons hu)).symm⟩
    have hjoin : List.filterMap (Move.of i) [(.join : Move (Choice τ))] = [] := rfl
    rw [filterMap_append, hjoin, append_nil]
    exact hmoves

/-! ## Enrichment -/

/-- The message after an enrichment: `input` is what expressions read of the result of the body. -/
structure Enrichment (o : Outside N τ E) (input : Input N τ) (setBody : Option E)
    (setVars : Entries E) (before after : Reading N) : Prop where
  eventID : after.eventID = before.eventID
  correlationID : after.correlationID = before.correlationID
  bodySchema : after.bodySchema = before.bodySchema
  body : setBody = none → after.body = before.body
  setBody : ∀ e, setBody = some e → ∃ x, o.eval e input = .ok x ∧ after.body = x.view
  other : ∀ name, (∀ e, (name, e) ∉ setVars) → after.vars name = before.vars name
  setVars : ∀ name, (∃ e, (name, e) ∈ setVars) →
    ∃ e x, (name, e) ∈ setVars ∧ o.eval e input = .ok x ∧ after.vars name = some x.view

theorem settle_eq_ok {input : Input N τ} {after : Reading N} :
    ∀ {entries : Entries E} {before : Reading N},
      settle o input m entries before = (.ok r, after) → r = some m ∧
        ∀ name e, (name, e) ∈ entries → (∃ x, o.eval e input = .ok x) ∧
          ∃ e' x, (name, e') ∈ entries ∧ o.eval e' input = .ok x ∧ after.vars name = some x.view
  | [], before, h => by
    cases h
    exact ⟨rfl, fun _ _ hmem => (nomatch hmem)⟩
  | (key, e) :: rest, before, h => by
    cases heval : o.eval e input with
    | error =>
      simp only [settle, heval] at h
      cases h
    | ok x =>
      simp only [settle, heval] at h
      obtain ⟨hr, hrest⟩ := settle_eq_ok h
      refine ⟨hr, fun name e₁ hmem => ⟨?_, ?_⟩⟩
      · rcases mem_cons.1 hmem with heq | hmem
        · cases heq
          exact ⟨x, heval⟩
        · exact (hrest name e₁ hmem).1
      · by_cases hin : ∃ e', (name, e') ∈ rest
        · obtain ⟨e', hmem'⟩ := hin
          obtain ⟨-, e₂, y, hmem₂, hy, hafter⟩ := hrest name e' hmem'
          exact ⟨e₂, y, mem_cons_of_mem _ hmem₂, hy, hafter⟩
        · -- no later entry has this name, so the value that was set is the one it has
          rcases mem_cons.1 hmem with heq | hmem
          · cases heq
            obtain ⟨vars, heq, hvars⟩ := settle_vars o input m rest
              (before.withVar key (some x.view))
            rw [h] at heq
            cases heq
            rcases hvars key with hsame | ⟨e', y, hmem', -, -⟩
            · exact ⟨e, x, mem_cons_self, heval, hsame.trans (before.withVar_self _ _)⟩
            · exact absurd ⟨e', hmem'⟩ hin
          · exact absurd ⟨e₁, hmem⟩ hin

variable {setBody : Option E} {setVars : Entries E}

theorem enrichment_of_enriched {input : Input N τ} {order : List Nat} {before after : Reading N}
    (h : (.ok r, after) = enriched o input m setBody (ranged order setVars) before) :
    r = some m ∧ Enrichment o input setBody setVars before after := by
  rcases enriched_cases o input m setBody before with ⟨e, text, -, -, herror⟩ |
    ⟨body, hsettle, hbody, hset⟩
  · rw [herror] at h
    cases h
  rw [hsettle] at h
  obtain ⟨vars, heq, hvars⟩ := settle_vars o input m
    (ranged order setVars) { before with body := body }
  rw [← h] at heq
  cases heq
  obtain ⟨hr, hok⟩ := settle_eq_ok h.symm
  refine ⟨hr, rfl, rfl, rfl, hbody, hset, fun name hname => ?_, fun name hname => ?_⟩
  · rcases hvars name with hsame | ⟨e, x, hmem, -⟩
    · exact hsame
    · exact absurd (mem_ranged.1 hmem) (hname e)
  · obtain ⟨e, hmem⟩ := hname
    obtain ⟨-, e', x, hmem', hx, hafter⟩ := hok name e (mem_ranged.2 hmem)
    exact ⟨e', x, mem_ranged.1 hmem', hx, hafter⟩

theorem run_beside (h : Held t n k m s) {body : Flow E} {r : Outcome}
    (hrun : Run (handle o) t (flow body (clone o s t m).1) (clone o s t m).2 ms (.done r) s') :
    Held t n k m s' ∧ read s' m = read s m ∧ (∀ out, r = .ok out → out = some (clone o s t m).1) ∧
      Seen t (clone o s t m).1 s' ∧ ∀ now : τ, Source t m (activation s' (clone o s t m).1 now) s' := by
  obtain ⟨hclone, -⟩ := clone_spec o (h.seen t.suffix_refl)
  have hsafe : Keeps o t _ _ _ (flow body (clone o s t m).1) (clone o s t m).2 :=
    safe_flow body hclone
  obtain ⟨⟨hout, hclone'⟩, hg, hup⟩ := run_safe stable_post (Grows.refl _ _)
    (fun _ _ _ => Grows.trans) hsafe hrun
  obtain ⟨hm, hapart, hread⟩ := held_beside h o hg hup
  exact ⟨hm, hread, hout, hclone'.seen t.suffix_refl, source_activation hclone' hapart⟩

/-- **How `enrichWith` ends**: as the entries do in some order, evaluated on the activation with the
time of its first move. -/
theorem run_enrichWith {out : Addr} {r : Outcome} (h : Held t n k m s) (hseen : Seen t out s)
    (hsource : ∀ now : τ, Source t m (activation s out now) s)
    (hrun : Run (handle o) t (enrichWith setBody setVars m out) s ms (.done r) s') :
    ∃ c ms₁ order, ms = .act c :: ms₁ ∧
      (r, read s' m) = enriched o ((activation s out c.now).input s) m setBody
        (ranged order setVars) (read s m) := by
  obtain ⟨c, ms₁, s₁, rfl, hs₁, hat⟩ := run_call hrun
  have hact : activation s₁ out c.now = activation s out c.now := by
    simp [activation, hseen.msg_eq fun u hu => hs₁ u (.inl hu)]
  have hat' : Run (handle o) t (enrichAt setBody setVars m (activation s out c.now)) s ms₁ (.done r)
      s' := .env hs₁ (hact ▸ hat)
  have hstable : Stable t fun r s' => Post t n k m r s' ∧ ∃ order,
      (r, read s' m) = enriched o ((activation s out c.now).input s) m setBody
        (ranged order setVars) (read s m) := by
    rintro r s₁ s₂ hs ⟨hpost, horder⟩
    rw [read_eq (hpost.2.seen t.suffix_refl) hs]
    exact ⟨stable_post r s₁ s₂ hs hpost, horder⟩
  obtain ⟨-, order, hend⟩ := run_post hstable (safe_enrichAt setBody setVars h (hsource c.now)) hat'
  exact ⟨c, ms₁, order, rfl, hend⟩

/-- **An enrich that succeeds** returns its message, enriched from what its body made of a clone. -/
theorem run_enrich (h : Held t n k m s) {body : Flow E}
    (hrun : Run (handle o) t (process (.enrichScope body setBody setVars) m) s ms (.done (.ok r)) s') :
    r = some m ∧ ∃ c ms₁ ms₂ s₀ s₁ now, ms = .act c :: (ms₁ ++ ms₂) ∧ (∀ u, Kin t u → s₀ u = s u) ∧
      Run (handle o) t (flow body (clone o s₀ t m).1) (clone o s₀ t m).2 ms₁
        (.done (.ok (some (clone o s₀ t m).1))) s₁ ∧
      Enrichment o ((activation s₁ (clone o s₀ t m).1 now).input s₁) setBody setVars (read s m)
        (read s' m) := by
  obtain ⟨c, ms', s₀, rfl, hs₀, hrun⟩ := run_call hrun
  have hup₀ : ∀ u, u <:+ t → s₀ u = s u := fun u hu => hs₀ u (.inl hu)
  obtain ⟨ms₁, ms₂, res, s₁, rfl, hbody, hrest⟩ := run_bind hrun
  obtain ⟨h₁, hread₁, hres, hseen, hsource⟩ := run_beside (h.congr hup₀) hbody
  cases res with
  | error =>
    obtain ⟨heq, -⟩ := run_done hrest
    cases heq
  | ok res =>
    cases hres res rfl
    obtain ⟨c', -, order, -, hend⟩ := run_enrichWith h₁ hseen hsource hrest
    rw [hread₁, read_eq (h.seen t.suffix_refl) hup₀] at hend
    obtain ⟨hr, henriched⟩ := enrichment_of_enriched hend
    exact ⟨hr, c, ms₁, ms₂, s₀, s₁, c'.now, rfl, hs₀, hbody, henriched⟩

/-! ## Isolation -/

/-- **Clones isolate sub-flows**: for every message a goroutine holds, every tree of built-in blocks
and every run, with any moves of other goroutines in between.

* A fork that succeeds returns its message as it was, and each of its branches ended as it does when
  it makes its moves alone, from the memory in which the fork began.
* A branch begins with a clone that reads as the message, with the round trip of its body.
* An enrich that succeeds returns its message, enriched from what its body made of a clone. -/
theorem clones_isolate (o : Outside N τ E) {t : Thread} {n k : Nat} {m : Addr} {s : Heap N}
    (h : Held t n k m s) :
    (∀ (branches : List (Flow E)) (ms : List (Move (Choice τ))) (r : Option Addr) (s' : Heap N),
      Run (handle o) t (process (.fork branches) m) s ms (.done (.ok r)) s' →
      r = some m ∧ read s' m = read s m ∧
        ∀ (i : Nat) (f : Flow E), branches[i]? = some f → ∃ out s₂,
          runMoves (handle o) (branchCode f m) (i :: t) s (ms.filterMap (Move.of i)) =
            some (.done (.ok out), s₂) ∧ ∀ u, Kin (i :: t) u → s₂ u = s' u) ∧
    (∀ i : Nat, read (clone o s (i :: t) m).2 (clone o s (i :: t) m).1 =
      { read s m with body := copiedBody o (read s m).body }) ∧
    ∀ (body : Flow E) (setBody : Option E) (setVars : Entries E)
      (ms : List (Move (Choice τ))) (r : Option Addr) (s' : Heap N),
      Run (handle o) t (process (.enrichScope body setBody setVars) m) s ms (.done (.ok r)) s' →
      r = some m ∧ ∃ c ms₁ ms₂ s₀ s₁ now, ms = .act c :: (ms₁ ++ ms₂) ∧
        (∀ u, Kin t u → s₀ u = s u) ∧
        Run (handle o) t (flow body (clone o s₀ t m).1) (clone o s₀ t m).2 ms₁
          (.done (.ok (some (clone o s₀ t m).1))) s₁ ∧
        Enrichment o ((activation s₁ (clone o s₀ t m).1 now).input s₁) setBody setVars (read s m)
          (read s' m) := by
  refine ⟨fun branches ms r s' hrun => ?_, fun i => ?_, fun _ _ _ _ _ _ hrun => run_enrich h hrun⟩
  · obtain ⟨hr, hup, hbranches⟩ := run_fork h hrun
    exact ⟨hr, read_eq (h.seen t.suffix_refl) hup, hbranches⟩
  · exact read_clone (h.seen (suffix_cons i t))

end

/-! ## A run -/

def echo : Outside Nat Unit String where
  eval e _ := .ok (.atom (.str e))
  roundTrip _ := some (.atom (.str "copy"))

def start : Heap Nat :=
  Decoded.heap ⟨"e1", "", [], .atom (.str "hi"), some [("a", .atom (.num 1))]⟩

def scatter : Proc String :=
  .fork [⟨"left", [⟨"", "set-variable", .setVariable "a" "x"⟩]⟩,
    ⟨"right", [⟨"", "set-payload", .setPayload "y"⟩]⟩]

def gather : Proc String :=
  .enrichScope ⟨"", [⟨"", "set-payload", .setPayload "y"⟩]⟩ (some "b") [("v", "d")]

def scatterMoves : List (Move (Choice Unit)) := let act : Move (Choice Unit) := .act ⟨(), []⟩
  [.inside 0 act, .inside 1 act, .inside 1 act, .inside 0 act, .inside 0 act, .inside 1 act,
    .inside 1 act, .inside 0 act, .finish 1, .finish 0, .join]

def gatherMoves : List (Move (Choice Unit)) := List.replicate 10 (.act ⟨(), []⟩)

theorem scatter_runs : ∃ s', Run (handle echo) [] (process scatter ⟨[], 0⟩) start scatterMoves
    (.done (.ok (some ⟨[], 0⟩))) s' :=
  (exists_run_of_eq (fun _ => ()) (by rfl)).imp fun _ h => h.1

theorem gather_runs : ∃ s', Run (handle echo) [] (process gather ⟨[], 0⟩) start gatherMoves
    (.done (.ok (some ⟨[], 0⟩))) s' :=
  (exists_run_of_eq (fun _ => ()) (by rfl)).imp fun _ h => h.1

theorem start_isolated : Held [] 0 0 ⟨[], 0⟩ start ∧
      (∃ s', Run (handle echo) [] (process scatter ⟨[], 0⟩) start scatterMoves
        (.done (.ok (some ⟨[], 0⟩))) s' ∧ read s' ⟨[], 0⟩ = read start ⟨[], 0⟩) ∧
      ∃ s' input, Run (handle echo) [] (process gather ⟨[], 0⟩) start gatherMoves
        (.done (.ok (some ⟨[], 0⟩))) s' ∧
        Enrichment echo input (some "b") [("v", "d")] (read start ⟨[], 0⟩) (read s' ⟨[], 0⟩) := by
  have hheld : Held [] 0 0 ⟨[], 0⟩ start := Decoded.held _
  obtain ⟨hfork, -, henrich⟩ := clones_isolate echo hheld
  obtain ⟨s₁, hrun₁⟩ := scatter_runs
  obtain ⟨s₂, hrun₂⟩ := gather_runs
  obtain ⟨-, hread, -⟩ := hfork _ _ _ _ hrun₁
  obtain ⟨-, c, ms₁, ms₂, s₀, s₃, now, -, -, -, he⟩ := henrich _ _ _ _ _ _ hrun₂
  exact ⟨hheld, ⟨s₁, hrun₁, hread⟩, s₂, _, hrun₂, he⟩

end Octo.Engine.Builtins
