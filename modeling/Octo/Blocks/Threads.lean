import Octo.Blocks.Isolation
import Octo.Foundation.Snapshot

/-!
# Agent runs that share a memory thread

`aiAgent.Process` loads the transcript of its thread, converses, and `saveMemory` writes the
transcript it loaded followed by its own turns, retrying while the version it has just read is
overtaken.  Any number of runs on one thread interleave between these calls on the store.

* `concurrent_turns_iff` — no turn is lost exactly when no run writes between the load and the write
  of another.  The version check does not ensure it: the version written under is read anew by each
  attempt, the transcript is not.
-/

namespace Octo.Blocks.Threads

open Octo.Kv Octo.Agent Octo.Foundation Function Traverse Snapshot Event

/-! ## Runs on one thread -/

inductive Phase where
  | idle
  | conversing (history : Messages)
  /-- `saveMemory` is about to read the version. -/
  | saving (encoded : Bytes) (attempt : Nat)
  /-- `saveMemory` has read the version and is about to write. -/
  | holding (encoded : Bytes) (attempt : Nat) (version : Int)
  | saved
  | stopped

inductive Action where
  | load (i : Nat)
  | converse (i : Nat)
  | get (i : Nat)
  | set (i : Nat)

/-- The store, the runs, and two ghosts: the loads and writes that happened, and the runs whose
transcript was over the budget. -/
structure System (b : Backend) where
  store : b.State
  phase : Nat → Phase
  log : List Event
  compacted : List Nat

/-- A thread and the runs on it. -/
structure Shared where
  codec : Codec
  threadID : String
  runs : Nat → Invocation

section System

variable (b : Backend) (T : Shared)

def System.init (history : Option Messages) : System b :=
  { store := history.elim b.init fun msgs => (saveMemory b T.codec b.init T.threadID msgs).2
    phase := fun _ => .idle, log := [], compacted := [] }

variable {b} (s : System b)

def System.move (i : Nat) (p : Phase) : System b :=
  { s with phase := Function.update s.phase i p }

/-- The loop ends and `persistMemory` encodes what it leaves; a failed request persists nothing. -/
def converse (i : Nat) (history : Messages) : System b :=
  let out := (T.runs i).process history
  match out.exit with
  | .failed => s.move i .stopped
  | _ =>
    let s := if Over (T.runs i).agent.memoryMaxTokens out.messages
      then { s with compacted := s.compacted ++ [i] } else s
    match T.codec.encodeMessages ((T.runs i).compact out.messages).msgs with
    | some encoded => s.move i (.saving encoded 0)
    | none => s.move i .stopped

/-- The write of one attempt; a conflict is retried while attempts are left. -/
def write (i : Nat) (encoded : Bytes) (attempt : Nat) (version : Int) : System b :=
  match b.set s.store namespaceUser (memoryKey T.threadID) encoded version with
  | (.ok _, store) =>
    System.move { s with store := store, log := s.log ++ [.write i] } i .saved
  | (.error _, store) =>
    System.move { s with store := store } i
      (if attempt + 1 < writeAttempts then .saving encoded (attempt + 1) else .stopped)

def step : Action → System b
  | .load i =>
    match s.phase i with
    | .idle =>
      if (T.runs i).loads then
        match loadMemory b T.codec s.store T.threadID with
        | some history =>
          System.move { s with log := s.log ++ [.read i] } i (.conversing history)
        | none => s.move i .stopped
      else s.move i .stopped
    | _ => s
  | .converse i =>
    match s.phase i with
    | .conversing history => converse T s i history
    | _ => s
  | .get i =>
    match s.phase i with
    | .saving encoded attempt =>
      if (T.runs i).saves then
        s.move i (.holding encoded attempt (readVersion b s.store (memoryKey T.threadID)))
      else s.move i .stopped
    | _ => s
  | .set i =>
    match s.phase i with
    | .holding encoded attempt version => write T s i encoded attempt version
    | _ => s

variable (b) in
def run (history : Option Messages) (actions : List Action) : System b :=
  actions.foldl (step T) (.init b T history)

def storedTurns (i : Nat) : Messages := (storedTranscript T.codec.raw (T.runs i).turns).getD []

/-! ## The thread is a register of snapshots -/

def Normal (msgs : Messages) : Prop := storedTranscript T.codec.raw msgs = some msgs

/-- The bytes run `i` is about to write are its snapshot and its turns. -/
structure Ready (log : List Event) (snapshot : Messages) (i : Nat) (encoded : Bytes) :
    Prop where
  read : .read i ∈ log
  turns : storedTurns T i ≠ []
  decodes : T.codec.decodeMessages encoded = some (snapshot ++ storedTurns T i)
  normal : Normal T (snapshot ++ storedTurns T i)

def Holds (log : List Event) (snapshot : Messages) (i : Nat) : Phase → Prop
  | .idle => .read i ∉ log
  | .conversing history => .read i ∈ log ∧ snapshot = history ∧ Normal T history
  | .saving encoded _ => Ready T log snapshot i encoded
  | .holding encoded _ _ => Ready T log snapshot i encoded
  | .saved => True
  | .stopped => True

structure Refines (start : Messages) (s : System b) : Prop where
  legal : Legal s.log
  thread : loadMemory b T.codec s.store T.threadID =
    some (Snapshot.replay (storedTurns T) start s.log).current
  normal : Normal T (Snapshot.replay (storedTurns T) start s.log).current
  phases : ∀ i, Holds T s.log
    ((Snapshot.replay (storedTurns T) start s.log).snapshot i) i (s.phase i)
  turns : ∀ i ∈ writers s.log, storedTurns T i ≠ []

variable {T} {start : Messages}

theorem storedMessage_idem {m m' : LLMMessage} (h : storedMessage T.codec.raw m = some m') :
    storedMessage T.codec.raw m' = some m' := by
  simp only [storedMessage, Option.map_eq_some_iff] at h ⊢
  obtain ⟨calls, hcalls, rfl⟩ := h
  refine ⟨calls, mapM_idem ?_ _ _ hcalls, rfl⟩
  intro a c hac
  simp only [Option.map_eq_some_iff] at hac ⊢
  obtain ⟨raw, hraw, rfl⟩ := hac
  exact ⟨raw, T.codec.raw_idem _ _ hraw, rfl⟩

theorem normal_of_stored {msgs saved : Messages}
    (h : storedTranscript T.codec.raw msgs = some saved) : Normal T saved :=
  mapM_idem (fun _ _ => storedMessage_idem) msgs saved h

variable {i : Nat} {history : Messages}

theorem Holds.concat {log : List Event} {snapshot : Messages} {p : Phase}
    (h : Holds T log snapshot i p) {e : Event} (he : e ≠ .read i) :
    Holds T (log ++ [e]) snapshot i p := by
  have hmem : read i ∈ log → read i ∈ log ++ [e] := List.mem_append_left _
  cases p with
  | idle => simpa [Holds, he.symm] using h
  | conversing => exact ⟨hmem h.1, h.2⟩
  | saving encoded attempt | holding encoded attempt version =>
    exact ⟨hmem h.read, h.turns, h.decodes, h.normal⟩
  | saved => trivial
  | stopped => trivial

variable {s : System b} (h : Refines T start s)
include h

theorem Refines.move {p : Phase}
    (hp : Holds T s.log ((Snapshot.replay (storedTurns T) start s.log).snapshot i) i p) :
    Refines T start (s.move i p) := by
  refine ⟨h.legal, h.thread, h.normal, fun k => ?_, h.turns⟩
  by_cases hk : k = i
  · subst hk
    show Holds T _ _ k (update s.phase k p k)
    rw [update_self]
    exact hp
  · show Holds T _ _ k (update s.phase i p k)
    rw [update_of_ne hk]
    exact h.phases k

theorem Refines.load (hidle : s.phase i = .idle)
    (hload : loadMemory b T.codec s.store T.threadID = some history) : Refines T start
      (System.move { s with log := s.log ++ [.read i] } i (.conversing history)) := by
  obtain rfl : _ = history := Option.some.inj (h.thread.symm.trans hload)
  have hnew : read i ∉ s.log := by
    have := h.phases i
    rwa [hidle] at this
  refine ⟨h.legal.read i hnew, ?_, ?_, fun k => ?_, ?_⟩
  · show loadMemory b T.codec s.store T.threadID =
      some (Snapshot.replay _ _ (s.log ++ [.read i])).current
    simpa using h.thread
  · show Normal T (Snapshot.replay _ _ (s.log ++ [.read i])).current
    simpa using h.normal
  · show Holds T (s.log ++ [.read i])
      ((Snapshot.replay _ _ (s.log ++ [.read i])).snapshot k) k (update s.phase i _ k)
    rw [replay_concat]
    by_cases hk : k = i
    · subst hk
      rw [update_self, apply_read_snapshot]
      exact ⟨by simp, rfl, h.normal⟩
    · rw [update_of_ne hk, apply_read_snapshot_of_ne _ hk]
      exact (h.phases k).concat fun he => hk (read.inj he).symm
  · show ∀ k ∈ writers (s.log ++ [.read i]), _
    simpa using h.turns

theorem Refines.write {encoded : Bytes} {store : b.State}
    (hready : Ready T s.log ((Snapshot.replay (storedTurns T) start s.log).snapshot i) i encoded)
    (hstore : valueAt b store (memoryKey T.threadID) = some encoded) :
    Refines T start
      (System.move { s with store := store, log := s.log ++ [.write i] } i .saved) := by
  refine ⟨h.legal.write i hready.read, ?_, ?_, fun k => ?_, ?_⟩
  · show loadMemory b T.codec store T.threadID =
      some (Snapshot.replay _ _ (s.log ++ [.write i])).current
    rw [loadMemory_eq, hstore, replay_concat]
    exact hready.decodes
  · show Normal T (Snapshot.replay _ _ (s.log ++ [.write i])).current
    rw [replay_concat]
    exact hready.normal
  · show Holds T (s.log ++ [.write i])
      ((Snapshot.replay _ _ (s.log ++ [.write i])).snapshot k) k (update s.phase i _ k)
    rw [replay_concat]
    by_cases hk : k = i
    · subst hk
      rw [update_self]
      trivial
    · rw [update_of_ne hk]
      exact (h.phases k).concat (by simp)
  · show ∀ k ∈ writers (s.log ++ [.write i]), _
    simp only [writers_concat_write, List.mem_append, List.mem_singleton]
    rintro k (hk | rfl)
    · exact h.turns k hk
    · exact hready.turns

theorem Refines.of_store {store : b.State}
    (hstore : valueAt b store (memoryKey T.threadID) = valueAt b s.store (memoryKey T.threadID)) :
    Refines T start { s with store := store } := by
  refine ⟨h.legal, ?_, h.normal, h.phases, h.turns⟩
  rw [loadMemory_eq, hstore, ← loadMemory_eq]
  exact h.thread

omit h

theorem ready_of_encodes {log : List Event} {encoded : Bytes} (hread : .read i ∈ log)
    (hhistory : Normal T history)
    (hover : ¬Over (T.runs i).agent.memoryMaxTokens ((T.runs i).process history).messages)
    (hencoded : T.codec.encodeMessages ((T.runs i).compact ((T.runs i).process history).messages).msgs = some encoded) :
    Ready T log history i encoded := by
  rw [compact_of_not_over _ hover, process_messages] at hencoded
  obtain ⟨saved, hdecodes, hstored⟩ := T.codec.stored_of_encodes hencoded
  obtain ⟨old, new, hold, hnew, rfl⟩ := mapM_append_inv hstored
  obtain rfl : history = old := Option.some.inj (hhistory.symm.trans hold)
  have hturns : storedTurns T i = new := by
    unfold storedTurns storedTranscript
    rw [hnew]
    rfl
  refine ⟨hread, ?_, hturns ▸ hdecodes, hturns ▸ normal_of_stored hstored⟩
  -- reading back keeps the number of turns
  rw [hturns]
  intro hnil
  have hshape := mapM_map_eq (fun _ _ => storedMessage_shape T.codec.raw) _ _ hnew
  rw [hnil] at hshape
  exact turns_ne_nil (T.runs i) (List.map_eq_nil_iff.1 hshape.symm)

theorem Refines.converse (h : Refines T start s)
    (hphase : s.phase i = .conversing history)
    (hbudget : (converse T s i history).compacted = []) :
    Refines T start (converse T s i history) := by
  have hi := h.phases i
  rw [hphase] at hi
  obtain ⟨hread, hsnapshot, hnormal⟩ := hi
  unfold Threads.converse at hbudget ⊢
  simp only at hbudget ⊢
  split at hbudget
  · exact h.move trivial
  · by_cases hover : Over (T.runs i).agent.memoryMaxTokens ((T.runs i).process history).messages
    · -- a compacted transcript is recorded
      simp only [if_pos hover] at hbudget
      split at hbudget <;> simp [System.move] at hbudget
    · simp only [if_neg hover]
      split
      next encoded hencoded =>
        apply h.move
        rw [hsnapshot]
        exact ready_of_encodes hread hnormal hover hencoded
      · exact h.move trivial

/-- **Every step keeps the thread the register of the log**, while nothing is compacted. -/
theorem refines_step (h : Refines T start s) (a : Action)
    (hbudget : (step T s a).compacted = []) :
    Refines T start (step T s a) := by
  cases a with
  | load i =>
    simp only [step]
    split
    next hidle =>
      split
      · split
        next history hload =>
          exact h.load hidle hload
        · exact h.move trivial
      · exact h.move trivial
    · exact h
  | converse i =>
    simp only [step] at hbudget ⊢
    split at hbudget
    next history hphase =>
      exact h.converse hphase hbudget
    · exact h
  | get i =>
    simp only [step]
    split
    next encoded attempt hphase =>
      have hi := h.phases i
      rw [hphase] at hi
      split
      · exact h.move hi
      · exact h.move trivial
    · exact h
  | set i =>
    simp only [step]
    split
    next encoded attempt version hphase =>
      have hi := h.phases i
      rw [hphase] at hi
      have hset := valueAt_set s.store (memoryKey T.threadID) encoded version
      unfold write
      generalize b.set s.store namespaceUser (memoryKey T.threadID) encoded version = r at hset ⊢
      obtain ⟨result, store⟩ := r
      rcases hset with ⟨v, rfl, hstore⟩ | ⟨rfl, hstore⟩
      · exact h.write hi hstore
      · apply (h.of_store hstore).move
        split
        · exact hi
        · trivial
    · exact h

/-! ## Whole runs -/

theorem compacted_step {a : Action} (h : (step T s a).compacted = []) :
    s.compacted = [] := by
  cases a with
  | load i | get i =>
    simp only [step] at h
    repeat' split at h
    all_goals exact h
  | converse i =>
    simp only [step] at h
    split at h
    · unfold Threads.converse at h
      simp only at h
      split at h
      · exact h
      · by_cases hover : Over (T.runs i).agent.memoryMaxTokens
            ((T.runs i).process ‹Messages›).messages
        · simp only [if_pos hover] at h
          split at h <;> simp [System.move] at h
        · simp only [if_neg hover] at h
          split at h <;> exact h
    · exact h
  | set =>
    simp only [step] at h
    split at h
    · unfold write at h
      split at h <;> exact h
    · exact h

def startTurns (b : Backend) (T : Shared) (history : Option Messages) : Messages :=
  (loadMemory b T.codec (System.init b T history).store T.threadID).getD []

variable (history : Option Messages)

theorem refines_init :
    Refines T (startTurns b T history)
      (System.init b T history) := by
  have hthread : ∃ msgs,
      loadMemory b T.codec (System.init b T history).store T.threadID = some msgs ∧
        Normal T msgs := by
    have hempty : loadMemory b T.codec b.init T.threadID = some [] := by
      rw [loadMemory_eq, valueAt_init]
      rfl
    cases history with
    | none => exact ⟨[], hempty, rfl⟩
    | some msgs =>
      show ∃ m, loadMemory b T.codec (saveMemory b T.codec b.init T.threadID msgs).2 T.threadID = some m ∧ _
      unfold saveMemory
      cases hencoded : T.codec.encodeMessages msgs with
      | none => exact ⟨[], hempty, rfl⟩
      | some encoded =>
        obtain ⟨saved, hdecodes, hstored⟩ := T.codec.stored_of_encodes hencoded
        refine ⟨saved, ?_, normal_of_stored hstored⟩
        show loadMemory b T.codec (writeLoop b _ encoded (4 + 1) b.init).2 T.threadID = _
        rw [loadMemory_eq, valueAt_writeLoop, if_pos rfl]
        exact hdecodes
  obtain ⟨msgs, hload, hnormal⟩ := hthread
  have hstart : startTurns b T history = msgs := by
    unfold startTurns
    rw [hload]
    rfl
  rw [hstart]
  exact ⟨.nil, hload, hnormal, fun _ => List.not_mem_nil, fun _ h => nomatch h⟩

/-- **The thread is the register of the log after every run without compaction.** -/
theorem run_refines (actions : List Action)
    (hbudget : (run b T history actions).compacted = []) :
    Refines T (startTurns b T history)
      (run b T history actions) := by
  have hrun : (run b T history actions).compacted = [] →
      Refines T (startTurns b T history)
        (run b T history actions) := by
    refine run_induction (step T) (fun s => s.compacted = [] →
      Refines T (startTurns b T history) s) ?_ ?_
    · exact fun _ => refines_init history
    · intro before a rest _ ih hbudget
      exact refines_step (ih (compacted_step hbudget)) a hbudget
  exact hrun hbudget

/-- **No turn is lost exactly when no run writes between the load and the write of another.** -/
theorem concurrent_turns_iff (history : Option Messages) (actions : List Action)
    (hbudget : (run b T history actions).compacted = []) :
    (∃ transcript,
      loadMemory b T.codec (run b T history actions).store
        T.threadID = some transcript ∧
      (expected (storedTurns T) (startTurns b T history)
        (run b T history actions).log).Subperm transcript ∧
      ∀ i ∈ writers (run b T history actions).log,
        (storedTurns T i).Sublist transcript) ↔
      Serial (run b T history actions).log := by
  have h := run_refines history actions hbudget
  generalize run b T history actions = s at h ⊢
  have hlossless : (expected _ (startTurns b T history) s.log).Subperm _ ↔ _ :=
    lossless_iff_serial h.legal h.turns
  rw [h.thread]
  constructor
  · rintro ⟨transcript, heq, hsub, -⟩
    apply hlossless.1
    rwa [Option.some.inj heq]
  · intro hserial
    refine ⟨_, rfl, hlossless.2 hserial, fun i hi => ?_⟩
    rw [(replay_serial h.legal hserial).1]
    exact (List.sublist_flatten_of_mem (List.mem_map_of_mem hi)).trans
      (List.sublist_append_right ..)

end System

/-! ## Two runs that lose a turn -/

def chatAgent : AIAgent :=
  { branches := [], maxIterations := defaultAgentIterations
    memoryMaxTokens := defaultMemoryMaxTokens, memoryCompaction := .prune
    iterations_pos := by decide, tokens_pos := by decide }

def chatRun (body : String) : Invocation :=
  { agent := chatAgent, body := body
    reply := fun _ => some
      { text := "ok", toolCalls := [], stopReason := .endTurn
        raw := { role := .assistant, text := "ok" }, raw_role := rfl, raw_toolCalls := rfl }
    outcome := fun _ _ => .dropped, summary := fun _ => none }

/-- Run 0 has body `0`, every other run has body `1`. -/
def chatRuns (i : Nat) : Invocation := chatRun (if i = 0 then "0" else "1")

abbrev chat (codec : Codec) : Shared := ⟨codec, "t", chatRuns⟩

theorem converse_of_encodes {b : Backend} {codec : Codec} {s : System b} {i : Nat}
    {encoded : Bytes} (h : codec.encodeMessages (chatRuns i).turns = some encoded)
    (hover : ¬Over (chatRuns i).agent.memoryMaxTokens ((chatRuns i).process []).messages) :
    converse (chat codec) s i [] = s.move i (.saving encoded 0) := by
  have hmsgs : ((chatRuns i).compact ((chatRuns i).process []).messages).msgs =
      (chatRuns i).turns := compact_of_not_over _ hover
  have hexit : ∃ resp, ((chatRuns i).process []).exit = .finished resp := ⟨_, rfl⟩
  obtain ⟨resp, hexit⟩ := hexit
  unfold converse
  simp [hexit, if_neg hover, hmsgs, h]

theorem write_of_current {b : Backend} {T : Shared} (s : System b) (i : Nat)
    (encoded : Bytes) (attempt : Nat) {version : Int}
    (h : version = readVersion b s.store (memoryKey T.threadID)) :
    write T s i encoded attempt version = System.move { s with
          store := (b.set s.store namespaceUser (memoryKey T.threadID) encoded
            (readVersion b s.store (memoryKey T.threadID))).2
          log := s.log ++ [.write i] } i .saved := by
  have hok := set_readVersion s.store (memoryKey T.threadID) encoded
  subst h
  unfold write
  generalize b.set s.store namespaceUser (memoryKey T.threadID) encoded
    (readVersion b s.store (memoryKey T.threadID)) = r at hok ⊢
  obtain ⟨result, store⟩ := r
  obtain rfl : result = .ok _ := hok
  rfl

def overlap : List Action :=
  [.load 0, .load 1, .converse 0, .get 0, .set 0, .converse 1, .get 1, .set 1]

theorem run_overlap (codec : Codec) :
    let final := run standalone (chat codec) none overlap
    final.compacted = [] ∧ final.phase 0 = .saved ∧ final.phase 1 = .saved ∧
      loadMemory standalone codec final.store "t" = some (chatRuns 1).turns := by
  have hstored : ∀ i, storedTranscript codec.raw (chatRuns i).turns = some (chatRuns i).turns :=
    fun _ => rfl
  obtain ⟨first, hfirst, -⟩ := codec.encodes_of_stored (hstored 0)
  obtain ⟨second, hsecond, hdecodes⟩ := codec.encodes_of_stored (hstored 1)
  have hload : loadMemory standalone codec standalone.init "t" = some [] := rfl
  have hloads : ∀ i, (chatRuns i).loads = true := fun _ => rfl
  have hsaves : ∀ i, (chatRuns i).saves = true := fun _ => rfl
  have hconverse := fun s : System standalone =>
    converse_of_encodes (s := s) hfirst (by decide)
  have hconverse' := fun s : System standalone =>
    converse_of_encodes (s := s) hsecond (by decide)
  -- the second write is under the version the first one left
  have hstore : ∀ store : standalone.State, loadMemory standalone codec
      (standalone.set store namespaceUser (memoryKey "t") second
        (readVersion standalone store (memoryKey "t"))).2 "t" = some (chatRuns 1).turns := by
    intro store
    rw [loadMemory_eq, valueAt_set_readVersion]
    exact hdecodes
  simp [run, overlap, step, System.init, System.move, hload, hconverse, hconverse',
    write_of_current, hloads, hsaves, hstore]

/-- Both runs load the new thread, then save one after the other: run 1 reads the version after run
0 wrote, and the turns of run 0 are gone. -/
theorem overlapping_runs_lose_turns :
    Nonempty Codec ∧ ∀ codec : Codec,
      let final := run standalone (chat codec) none overlap
      final.compacted = [] ∧ final.phase 0 = .saved ∧ final.phase 1 = .saved ∧
        loadMemory standalone codec final.store "t" = some (chatRuns 1).turns ∧
        storedTurns (chat codec) 0 = (chatRuns 0).turns ∧
        ¬(chatRuns 0).turns.Sublist (chatRuns 1).turns := by
  refine ⟨Codec.nonempty, fun codec => ?_⟩
  obtain ⟨hcompacted, hphase, hphase', hload⟩ := run_overlap codec
  exact ⟨hcompacted, hphase, hphase', hload, rfl, by decide⟩

theorem concurrent_turns_overlap : Nonempty Codec ∧ ∀ codec : Codec,
      let final := run standalone (chat codec) none overlap
      final.compacted = [] ∧
        ((∃ transcript, loadMemory standalone codec final.store "t" = some transcript ∧
          (expected (storedTurns (chat codec)) (startTurns standalone (chat codec) none)
            final.log).Subperm transcript ∧
          ∀ i ∈ writers final.log, (storedTurns (chat codec) i).Sublist transcript) ↔
        Serial final.log) :=
  ⟨Codec.nonempty, fun codec =>
    ⟨(run_overlap codec).1, concurrent_turns_iff none overlap (run_overlap codec).1⟩⟩

end Octo.Blocks.Threads
