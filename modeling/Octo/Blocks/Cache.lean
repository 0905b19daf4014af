import Octo.Blocks.Isolation
import Octo.Foundation.Trace

/-!
# Invalidating a cache entry

`cacheScope.Process` reads the entry and its version, runs the wrapped flow on a miss, and stores
the body under the version it read; `invalidateCache.Process` deletes the entry whatever its
version.  Any number of executions for one key interleave between these calls.

* `step_cases` — what one call can do to the entry and to the log.
* `invalidation_iff` — invalidations take effect throughout a run exactly when no execution stores
  a body whose flow started before an invalidation.
-/

namespace Octo.Blocks.Cache

open List Function Option Octo.Kv Octo.Foundation
open Octo.Types (Value)

/-! ## Executions -/

/-- Where an execution of `cache-scope` stands. -/
inductive Phase where
  | idle
  /-- The key is evaluated; `Get` comes next. -/
  | entered
  /-- The wrapped flow runs; the version `Get` returned is kept for the write. -/
  | running (version : Int)
  | returned
deriving DecidableEq

inductive Event where
  /-- Execution `i` began. -/
  | entered (i : Nat)
  /-- Execution `i` missed, and its wrapped flow started. -/
  | flow (i : Nat)
  /-- Execution `i` stored the body its flow computed. -/
  | stored (i : Nat)
  /-- Execution `i` returned the cached body, computed by `origin`; `none` is a body from before
  the run. -/
  | replayed (i : Nat) (origin : Option Nat)
  /-- An `invalidate-cache` completed. -/
  | invalidated
deriving DecidableEq

/-- One call of an execution on the store, or the return of its wrapped flow. -/
inductive Action where
  | enter (i : Nat)
  | get (i : Nat) (now : Int)
  /-- The wrapped flow of `i` returns a body, or nothing to store: an error or no message. -/
  | finish (i : Nat) (now : Int) (out : Option Value)
  | invalidate

/-- The store, the executions, and two ghosts: who computed the entry, and the log. -/
structure System (b : Backend) where
  store : b.State
  phase : Nat → Phase
  origin : Option Nat
  log : List Event

/-- The entry, and for how long each execution stores it. -/
structure Entry where
  codec : Codec
  sha256 : String → Bytes
  raw : String
  ttl : Nat → Int

abbrev Entry.key (C : Entry) : String := cacheKey C.sha256 C.raw

open Event System

section System

variable (b : Backend) (C : Entry)

def System.init (store : b.State) : System b := ⟨store, fun _ => .idle, none, []⟩

variable {b}

def System.move (s : System b) (i : Nat) (p : Phase) : System b :=
  { s with phase := update s.phase i p }

def System.note (s : System b) (e : Event) : System b := { s with log := s.log ++ [e] }

/-- `kv.Set` of an execution's body; a conflict leaves the result uncached. -/
def put (s : System b) (i : Nat) (version : Int) (encoded : Bytes) : System b :=
  match b.set s.store namespaceUser C.key encoded version with
  | (.ok _, store) => System.note { s with store := store, origin := some i } (.stored i)
  | (.error _, store) => { s with store := store }

def step (s : System b) : Action → System b
  | .enter i =>
    match s.phase i with
    | .idle => (s.move i .entered).note (.entered i)
    | _ => s
  | .get i now =>
    match s.phase i with
    | .entered =>
      match replay b C.codec C.sha256 now s.store C.raw with
      | some _ => (s.move i .returned).note (.replayed i s.origin)
      | none => (s.move i (.running (readVersion b s.store C.key))).note (.flow i)
    | _ => s
  | .finish i now out =>
    match s.phase i with
    | .running version =>
      match out.bind (encodeCached C.codec (C.ttl i) now) with
      | some encoded => put C (s.move i .returned) i version encoded
      | none => s.move i .returned
    | _ => s
  | .invalidate => System.note { s with store := invalidateCache b C.sha256 s.store C.raw } .invalidated

def run (s : System b) (actions : List Action) : System b :=
  actions.foldl (step C) s

/-! ## What one step can do -/

def Replayable (bytes : Bytes) : Prop :=
  ∃ now v, (decodeFreshEnvelope C.codec now bytes).bind C.codec.value = some v

inductive Effect (s : System b) : System b → Prop where
  | quiet (phase store)
      (hstore : valueAt b store C.key = valueAt b s.store C.key) :
    Effect s { s with phase := phase, store := store }
  | entered (i phase) :
    Effect s { s with phase := phase, log := s.log ++ [.entered i] }
  | flow (i phase) :
    Effect s { s with phase := phase, log := s.log ++ [.flow i] }
  | replayed (i phase) (h : valueAt b s.store C.key ≠ none) :
    Effect s { s with phase := phase, log := s.log ++ [.replayed i s.origin] }
  | stored (i phase bytes store) (h : Replayable C bytes)
      (hstore : valueAt b store C.key = some bytes) :
    Effect s ⟨store, phase, some i, s.log ++ [.stored i]⟩
  | invalidated (store) (hstore : valueAt b store C.key = none) :
    Effect s { s with store := store, log := s.log ++ [.invalidated] }

variable {C}

theorem replayable_encodeCached {d now : Int} {out : Value} {bytes : Bytes}
    (h : encodeCached C.codec d now out = some bytes) : Replayable C bytes := by
  obtain ⟨body, hbody, henv⟩ := bind_eq_some_iff.1 h
  obtain ⟨bytes', body', henc, hdec, hvalue⟩ :=
    C.codec.decode_encode_envelope ⟨if d > 0 then (now + d).bmod (2 ^ 64) else 0, body⟩
      (C.codec.value_encodeBody out body hbody)
  obtain rfl : bytes' = bytes := Option.some.inj (henc.symm.trans henv)
  obtain ⟨v, hv⟩ := isSome_iff_exists.1 hvalue
  generalize (if d > 0 then (now + d).bmod (2 ^ 64) else 0) = deadline at hdec
  refine ⟨deadline - 1, v, ?_⟩
  have hfresh : ¬(deadline ≠ 0 ∧ deadline - 1 ≥ deadline) := by omega
  simp [decodeFreshEnvelope, hdec, hfresh, hv]

theorem put_cases (s : System b) (i : Nat) (version : Int) {encoded : Bytes}
    (h : Replayable C encoded) (phase : Nat → Phase) :
    Effect C s (put C { s with phase := phase } i version encoded) := by
  have hset := valueAt_set s.store C.key encoded version
  unfold put
  generalize b.set s.store namespaceUser C.key encoded version = r at hset ⊢
  obtain ⟨result, store⟩ := r
  rcases hset with ⟨v, rfl, hstore⟩ | ⟨rfl, hstore⟩
  · exact .stored i phase encoded store h hstore
  · exact .quiet phase store hstore

theorem step_cases (s : System b) (a : Action) :
    Effect C s (step C s a) := by
  have hquiet : Effect C s s := .quiet s.phase s.store rfl
  cases a with
  | enter i =>
    simp only [step]
    split
    · exact .entered i _
    · exact hquiet
  | get i now =>
    simp only [step]
    split
    · split
      next v hv =>
        refine .replayed i _ fun hnone => ?_
        rw [replay_eq, hnone] at hv
        cases hv
      · exact .flow i _
    · exact hquiet
  | finish i now out =>
    simp only [step]
    split
    · split
      next encoded henc =>
        obtain ⟨v, -, hv⟩ := bind_eq_some_iff.1 henc
        exact put_cases s i _ (replayable_encodeCached hv) _
      · exact .quiet _ s.store rfl
    · exact hquiet
  | invalidate =>
    refine .invalidated _ ?_
    show valueAt b (b.delete s.store namespaceUser C.key 0).2 _ = none
    rw [valueAt_delete, if_pos rfl]

/-! ## Invalidation -/

/-- **A stale replay**: an execution that began after an invalidation returned a body whose flow
started before it, or one from before the run. -/
def Stale (log : List Event) : Prop :=
  ∃ i, (∃ j, [Event.flow j, .invalidated, .entered i, .replayed i (some j)].Sublist log) ∨
    [Event.invalidated, .entered i, .replayed i none].Sublist log

/-- Execution `j` stored a body across an invalidation. -/
def StaleStore (j : Nat) (log : List Event) : Prop :=
  [Event.flow j, .invalidated, .stored j].Sublist log

/-- The entry, if any, was computed after the last invalidation, and so was every body replayed. -/
structure FreshEntry (C : Entry) (s : System b) : Prop where
  computed : ∀ j, s.origin = some j → valueAt b s.store C.key ≠ none →
    ¬[Event.flow j, .invalidated].Sublist s.log
  before : s.origin = none → valueAt b s.store C.key ≠ none →
    Event.invalidated ∉ s.log
  log : ¬Stale s.log

variable {e : Event} {log : List Event}

theorem pair_concat {x y : Event} (h : y ≠ e) :
    [x, y].Sublist (log ++ [e]) ↔ [x, y].Sublist log := by
  have hconcat := concat_sublist_concat (l := [x]) (m := log) (x := y) (e := e)
  simpa [h] using hconcat

theorem stale_concat (h : Stale (log ++ [e])) :
    Stale log ∨ ∃ i, (∃ j, e = .replayed i (some j) ∧ [flow j, .invalidated].Sublist log) ∨
      e = .replayed i none ∧ invalidated ∈ log := by
  obtain ⟨i, ⟨j, hj⟩ | hi⟩ := h
  · rcases (concat_sublist_concat (l := [flow j, .invalidated, .entered i])).1 hj with
      hold | ⟨rfl, hnew⟩
    · exact .inl ⟨i, .inl ⟨j, hold⟩⟩
    · exact .inr ⟨i, .inl ⟨j, rfl, (sublist_append_left [_, _] [_]).trans hnew⟩⟩
  · rcases (concat_sublist_concat (l := [invalidated, .entered i])).1 hi with
      hold | ⟨rfl, hnew⟩
    · exact .inl ⟨i, .inr hold⟩
    · exact .inr ⟨i, .inr ⟨rfl, hnew.subset (mem_cons_self ..)⟩⟩

theorem not_stale_concat (h : ¬Stale log)
    (he : ∀ i o, e ≠ .replayed i o) : ¬Stale (log ++ [e]) := by
  intro hst
  rcases stale_concat hst with hst | ⟨i, ⟨j, hej, -⟩ | ⟨hei, -⟩⟩
  · exact h hst
  · exact he _ _ hej
  · exact he _ _ hei

variable {s : System b}

theorem FreshEntry.logged (h : FreshEntry C s)
    (phase : Nat → Phase) (he : e ≠ .invalidated) (hreplay : ∀ i o, e = .replayed i o →
      o = s.origin ∧ valueAt b s.store C.key ≠ none) :
    FreshEntry C { s with phase := phase, log := s.log ++ [e] } := by
  refine ⟨fun j ho hv => ?_, fun ho hv => ?_, fun hst => ?_⟩
  · rw [pair_concat he.symm]
    exact h.computed j ho hv
  · simpa [he.symm] using h.before ho hv
  · rcases stale_concat hst with hst | ⟨i, ⟨j, hej, hj⟩ | ⟨hei, hmem⟩⟩
    · exact h.log hst
    · obtain ⟨ho, hv⟩ := hreplay i _ hej
      exact h.computed j ho.symm hv hj
    · obtain ⟨ho, hv⟩ := hreplay i _ hei
      exact h.before ho.symm hv hmem

theorem freshEntry_step {s' : System b} (h : FreshEntry C s)
    (hstep : Effect C s s') (hfresh : ∀ j, ¬StaleStore j s'.log) :
    FreshEntry C s' := by
  cases hstep with
  | quiet phase store hstore =>
    exact ⟨fun j ho hv => h.computed j ho (hstore ▸ hv),
      fun ho hv => h.before ho (hstore ▸ hv), h.log⟩
  | entered i phase | flow i phase => exact h.logged phase (by simp) (by simp)
  | replayed i phase hsome =>
    apply h.logged phase (by simp)
    intro k o he
    injection he with _ ho
    exact ⟨ho.symm, hsome⟩
  | stored i phase bytes store =>
    refine ⟨fun j ho _ => ?_, (nomatch ·), not_stale_concat h.log (by simp)⟩
    -- were there an invalidation since the flow of `i` started, this store would be across it
    obtain rfl : i = j := Option.some.inj ho
    rw [pair_concat (by simp)]
    intro hj
    exact hfresh i
      (concat_sublist_concat.2 (.inr ⟨rfl, hj⟩))
  | invalidated store hstore =>
    exact ⟨fun _ _ hv => absurd hstore hv, fun _ hv => absurd hstore hv,
      not_stale_concat h.log (by simp)⟩

/-! ## Whole runs -/

theorem log_sublist_step (s : System b) (a : Action) :
    s.log.Sublist (step C s a).log := by
  have h : Effect C s (step C s a) := step_cases s a
  generalize step C s a = s' at h ⊢
  cases h <;> simp

theorem log_sublist_run (s : System b) (actions : List Action) :
    s.log.Sublist (run C s actions).log :=
  run_induction (step C) (fun t => s.log.Sublist t.log) (.refl _)
    fun _ a _ _ h => h.trans (log_sublist_step _ a)

def Action.execution : Action → Option Nat
  | .enter i => some i
  | .get i _ => some i
  | .finish i _ _ => some i
  | .invalidate => none

theorem put_phase (s : System b) (i : Nat) (version : Int) (encoded : Bytes) :
    (put C s i version encoded).phase = s.phase := by
  unfold put
  split <;> rfl

theorem step_phase_of_ne (s : System b) {a : Action} {k : Nat} (h : a.execution ≠ some k) :
    (step C s a).phase k = s.phase k := by
  have hmove : ∀ i p, i ≠ k → (s.move i p).phase k = s.phase k :=
    fun i p hi => update_of_ne hi.symm ..
  cases a with
  | enter i =>
    have hi : i ≠ k := fun hk => h (congrArg some hk)
    simp only [step]
    split
    · exact hmove i _ hi
    · rfl
  | get i =>
    have hi : i ≠ k := fun hk => h (congrArg some hk)
    simp only [step]
    split
    · split <;> exact hmove i _ hi
    · rfl
  | finish i =>
    have hi : i ≠ k := fun hk => h (congrArg some hk)
    simp only [step]
    split
    · split
      · rw [put_phase]
        exact hmove i _ hi
      · exact hmove i _ hi
    · rfl
  | invalidate => rfl

variable (store : b.State)

variable (actions : List Action)

theorem exists_idle :
    ∃ i, (run C (.init b store) actions).phase i = .idle := by
  have hbound : ∃ n, ∀ i ≥ n,
      (run C (.init b store) actions).phase i = .idle := by
    refine run_induction (step C)
      (fun t : System b => ∃ n, ∀ i ≥ n, t.phase i = .idle) ⟨0, fun _ _ => rfl⟩ ?_
    rintro before a - - ⟨n, hn⟩
    refine ⟨max n (a.execution.getD 0 + 1), fun i hi => ?_⟩
    rw [step_phase_of_ne]
    · exact hn i (by omega)
    · intro he
      rw [he, getD_some] at hi
      omega
  obtain ⟨n, hn⟩ := hbound
  exact ⟨n, hn n le_rfl⟩

theorem run_append (s : System b) (before rest : List Action) :
    run C s (before ++ rest) =
      run C (run C s before) rest :=
  foldl_append

theorem run_freshEntry (h : ∀ j, ¬StaleStore j (run C (.init b store) actions).log) :
    FreshEntry C (run C (.init b store) actions) := by
  refine run_induction (step C) (FreshEntry C) ?_ ?_
  · refine ⟨nofun, fun _ _ => not_mem_nil, ?_⟩
    rintro ⟨i, ⟨j, hj⟩ | hi⟩
    · cases hj
    · cases hi
  · rintro before a rest rfl hbefore
    apply freshEntry_step hbefore (step_cases _ a)
    intro j hj
    apply h j
    rw [run_append]
    exact hj.trans (log_sublist_run (step C _ a) rest)

theorem staleStore_of_read {i j : Nat} {now : Int}
    (h : StaleStore j (run C s [.enter i, .get i now]).log) :
    StaleStore j s.log := by
  have hconcat : ∀ {log : List Event} {e : Event}, e ≠ .stored j → StaleStore j (log ++ [e]) →
      StaleStore j log := by
    intro log e he hj
    rcases (concat_sublist_concat (l := [flow j, .invalidated])).1 hj with hold | ⟨rfl, -⟩
    · exact hold
    · exact absurd rfl he
  have hget : ∀ s : System b, StaleStore j (step C s (.get i now)).log →
      StaleStore j s.log := by
    intro s hj
    simp only [step] at hj
    split at hj
    · split at hj
      · exact hconcat (by simp) hj
      · exact hconcat (by simp) hj
    · exact hj
  have henter := hget _ h
  simp only [step] at henter
  split at henter
  · exact hconcat (by simp) henter
  · exact henter

theorem staleStore_step {s' : System b} {j : Nat} (hstep : Effect C s s')
    (h : ¬StaleStore j s.log) (h' : StaleStore j s'.log) :
    s'.origin = some j ∧ [flow j, .invalidated].Sublist s'.log ∧
      ∃ bytes, Replayable C bytes ∧ valueAt b s'.store C.key = some bytes := by
  have hlast : ∀ {e : Event}, StaleStore j (s.log ++ [e]) →
      .stored j = e ∧ [flow j, .invalidated].Sublist s.log := fun hj =>
    ((concat_sublist_concat (l := [flow j, .invalidated])).1 hj).resolve_left h
  cases hstep with
  | quiet => exact absurd h' h
  | entered => exact nomatch (hlast h').1
  | flow => exact nomatch (hlast h').1
  | replayed => exact nomatch (hlast h').1
  | invalidated => exact nomatch (hlast h').1
  | stored i phase bytes store hbytes hstore =>
    obtain ⟨he, hpair⟩ := hlast h'
    injection he with hij
    exact ⟨congrArg some hij.symm, hpair.trans (sublist_append_left ..), bytes, hbytes, hstore⟩

theorem exists_replay {i : Nat} {bytes : Bytes} (hidle : s.phase i = .idle)
    (hbytes : Replayable C bytes)
    (hstore : valueAt b s.store C.key = some bytes) :
    ∃ now, (run C s [.enter i, .get i now]).log =
      s.log ++ [.entered i, .replayed i s.origin] := by
  obtain ⟨now, v, hv⟩ := hbytes
  have hreplay : replay b C.codec C.sha256 now s.store C.raw = some v := by
    rw [replay_eq, hstore]
    exact hv
  refine ⟨now, ?_⟩
  simp [run, step, hidle, note, move, hreplay]

/-- **Invalidations take effect throughout a run exactly when no execution stores a body whose flow
started before an invalidation.** -/
theorem invalidation_iff :
    (∀ before rest, actions = before ++ rest → ∀ i now,
      ¬Stale (run C (.init b store) (before ++ [.enter i, .get i now])).log) ↔
      ∀ j, ¬StaleStore j (run C (.init b store) actions).log := by
  constructor
  · intro h j hj
    obtain ⟨before, a, rest, rfl, hnot, hnow⟩ := exists_step_of_run
      (step C) (fun s : System b => StaleStore j s.log) (s := .init b store)
      (fun hnil => nomatch hnil) hj
    obtain ⟨horigin, hpair, bytes, hbytes, hstore⟩ := staleStore_step (step_cases _ a) hnot hnow
    -- an execution that begins right after the store is answered with the stale body
    have hrun : run C (.init b store) (before ++ [a]) =
        step C (before.foldl (step C) (.init b store)) a :=
      run_append ..
    rw [← hrun] at horigin hpair hstore
    obtain ⟨i, hidle⟩ :
        ∃ i, (run C (.init b store) (before ++ [a])).phase i = .idle :=
      exists_idle store _
    obtain ⟨now, hlog⟩ : ∃ now, (run C _ [.enter i, .get i now]).log = _ :=
      exists_replay hidle hbytes hstore
    apply h (before ++ [a]) rest (by simp) i now
    rw [run_append, hlog, horigin]
    exact ⟨i, .inl ⟨j, hpair.append (.refl _)⟩⟩
  · rintro h before rest rfl i now
    have hbefore : ∀ k, ¬StaleStore k
        (run C (.init b store) (before ++ [.enter i, .get i now])).log := by
      intro k hk
      apply h k
      rw [run_append] at hk ⊢
      exact (staleStore_of_read hk).trans (log_sublist_run _ rest)
    exact (run_freshEntry store _ hbefore).log

end System

/-- Execution 0 misses, the entry is invalidated, execution 0 stores its body, and execution 1,
begun after the invalidation, is answered with it: the entry is absent when it is read and absent
again after the delete, so the version check passes. -/
theorem invalidation_overtaken :
    Nonempty Codec ∧ ∀ (codec : Codec) (sha256 : String → Bytes) (raw : String) (now : Int),
      [Event.flow 0, .invalidated, .entered 1, .replayed 1 (some 0)].Sublist
        (run ⟨codec, sha256, raw, fun _ => 0⟩ (.init standalone standalone.init)
          [.enter 0, .get 0 now, .invalidate, .finish 0 now (some .null),
            .enter 1, .get 1 now]).log := by
  refine ⟨Codec.nonempty, fun codec sha256 raw now => ?_⟩
  obtain ⟨body, hbody⟩ := isSome_iff_exists.1 codec.encodeBody_null
  obtain ⟨bytes, body', henv, hdec, hvalue⟩ :=
    codec.decode_encode_envelope ⟨0, body⟩ (codec.value_encodeBody _ _ hbody)
  obtain ⟨v, hv⟩ := isSome_iff_exists.1 hvalue
  have hencoded : encodeCached codec 0 now .null = some bytes := by simp [encodeCached, hbody, henv]
  have hmiss : replay standalone codec sha256 now standalone.init raw = none := by
    rfl
  -- the store after the delete is the empty one again, so the write under version 0 succeeds
  have hdelete : invalidateCache standalone sha256 standalone.init raw = standalone.init := rfl
  have hversion : readVersion standalone standalone.init (cacheKey sha256 raw) = 0 := rfl
  have hset : (standalone.set standalone.init namespaceUser (cacheKey sha256 raw) bytes 0).1 =
      .ok 1 := rfl
  have hstored : valueAt standalone
      (standalone.set standalone.init namespaceUser (cacheKey sha256 raw) bytes 0).2
      (cacheKey sha256 raw) = some bytes := by
    rcases valueAt_set standalone.init (cacheKey sha256 raw) bytes 0 with ⟨_, -, h⟩ | ⟨h, -⟩
    · exact h
    · cases h
  generalize hr : standalone.set standalone.init namespaceUser (cacheKey sha256 raw) bytes 0 = r
    at hset hstored
  obtain ⟨result, store⟩ := r
  obtain rfl : result = .ok 1 := hset
  have hhit : replay standalone codec sha256 now store raw = some v := by
    rw [replay_eq, hstored]
    simp [decodeFreshEnvelope, hdec, hv]
  have hlog : (run ⟨codec, sha256, raw, fun _ => 0⟩ (.init standalone standalone.init)
      [.enter 0, .get 0 now, .invalidate, .finish 0 now (some .null), .enter 1, .get 1 now]).log =
      [.entered 0, .flow 0, .invalidated, .stored 0, .entered 1, .replayed 1 (some 0)] := by
    simp [run, step, init, move, note, put, hmiss, hdelete, hversion,
      hencoded, hr, hhit]
  rw [hlog]
  decide

end Octo.Blocks.Cache
