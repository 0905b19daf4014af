import Octo.Blocks.Store
import Mathlib.Data.List.Induction

/-!
# Who sees whose entries

Transcripts, objects and cache entries share a namespace, and the key of an object is any string a
flow computes.

* `memory_isolation_iff` — a thread is isolated from the other users of the store exactly when no
  `object-write` or `object-delete` addresses its key, and `object-read` of a key is isolated from
  the threads exactly when no save or clear addresses it; the cache is always isolated.
-/

namespace Octo.Blocks

open List Option Octo.Kv
open Octo.Agent (Messages storedTranscript)

/-! ## What the calls leave -/

open Keyspace

section Calls

variable (b : Backend)

def valueAt (s : b.State) (key : String) : Option Bytes :=
  (b.get s namespaceUser key).map Entry.value

variable {b} (s : b.State) (ns key : String)

theorem get_set (value : Bytes) (e : Int) :
    b.get (b.set s ns key value e).2 = ((b.get s).set ns key value e).2 :=
  congrArg Prod.snd (b.set_sim s ns key value e)

theorem get_delete (e : Int) :
    b.get (b.delete s ns key e).2 = ((b.get s).delete ns key e).2 :=
  congrArg Prod.snd (b.delete_sim s ns key e)

theorem set_fst (value : Bytes) (e : Int) :
    (b.set s ns key value e).1 = ((b.get s).set ns key value e).1 :=
  congrArg Prod.fst (b.set_sim s ns key value e)

variable (key : String) (value : Bytes)

theorem valueAt_set (e : Int) :
    (∃ v, (b.set s namespaceUser key value e).1 = .ok v ∧
      valueAt b (b.set s namespaceUser key value e).2 key = some value) ∨
    (b.set s namespaceUser key value e).1 = .error .versionConflict ∧
      valueAt b (b.set s namespaceUser key value e).2 key = valueAt b s key := by
  unfold valueAt
  rw [set_fst, get_set]
  unfold Keyspace.set
  split
  · exact .inr ⟨rfl, rfl⟩
  · refine .inl ⟨_, rfl, ?_⟩
    show ((b.get s).put _ _ _ _ _).map Entry.value = _
    rw [put_self]
    rfl

theorem valueAt_set_of_ne {s : b.State} {key k : String} {value : Bytes} {e : Int} (h : k ≠ key) :
    valueAt b (b.set s namespaceUser key value e).2 k = valueAt b s k := by
  unfold valueAt
  rw [get_set]
  unfold Keyspace.set
  split
  · rfl
  · show ((b.get s).put _ _ _ _ _).map Entry.value = _
    rw [put_other _ (fun hk => h hk.2)]

theorem valueAt_delete (key k : String) :
    valueAt b (b.delete s namespaceUser key 0).2 k = if k = key then none else valueAt b s k := by
  unfold valueAt
  rw [get_delete]
  unfold delete
  by_cases hk : k = key
  · subst hk
    cases hget : b.get s namespaceUser k with
    | none => simp [hget]
    | some => simp [put_self]
  · rw [if_neg hk]
    cases hget : b.get s namespaceUser key with
    | none => rfl
    | some => simp [put_other _ (fun h => hk h.2)]

theorem set_readVersion :
    (b.set s namespaceUser key value (readVersion b s key)).1 =
      .ok (nextVersion ((b.get s).version namespaceUser key)) := by
  rw [set_fst]
  show (Keyspace.set (b.get s) namespaceUser key value ((b.get s).version namespaceUser key)).1 = _
  simp [Keyspace.set]

theorem writeLoop_spec (n : Nat) :
    writeLoop b key value (n + 1) s =
      (true, (b.set s namespaceUser key value (readVersion b s key)).2) := by
  have hok := set_readVersion s key value
  rw [writeLoop]
  generalize b.set s namespaceUser key value (readVersion b s key) = r at hok ⊢
  obtain ⟨result, store⟩ := r
  obtain rfl : result = .ok _ := hok
  rfl

theorem valueAt_set_readVersion :
    valueAt b (b.set s namespaceUser key value (readVersion b s key)).2 key = some value := by
  rcases valueAt_set s key value (readVersion b s key) with ⟨_, -, h⟩ | ⟨h, -⟩
  · exact h
  · rw [set_readVersion] at h
    cases h

theorem valueAt_writeLoop (key k : String) (value : Bytes) (n : Nat) :
    valueAt b (writeLoop b key value (n + 1) s).2 k =
      if k = key then some value else valueAt b s k := by
  rw [writeLoop_spec]
  by_cases hk : k = key
  · subst hk
    rw [if_pos rfl, valueAt_set_readVersion]
  · rw [if_neg hk]
    exact valueAt_set_of_ne hk

/-- **What stands under a key after a run is what the last call that wrote it left.** -/
theorem value_foldl {X : Type} (call : b.State → X → b.State) (key : String)
    (writes : X → Option (Option Bytes))
    (hcall : ∀ s x, valueAt b (call s x) key = (writes x).getD (valueAt b s key)) (xs : List X)
    (s : b.State) : valueAt b (xs.foldl call s) key =
      (xs.foldl (fun last x => (writes x).or last) none).getD (valueAt b s key) := by
  have hgen : ∀ (last : Option (Option Bytes)) (s0 : Option Bytes) (s : b.State),
      valueAt b s key = last.getD s0 → valueAt b (xs.foldl call s) key =
        (xs.foldl (fun last x => (writes x).or last) last).getD s0 := by
    induction xs with
    | nil => exact fun _ _ _ h => h
    | cons x xs ih =>
      intro last s0 s h
      apply ih
      rw [hcall, h]
      show (writes x).getD (last.getD s0) = ((writes x).or last).getD s0
      cases writes x <;> rfl
  exact hgen none _ s rfl

theorem lastWrite_eq_none {X : Type} (writes : X → Option (Option Bytes)) (xs : List X) :
    xs.foldl (fun last x => (writes x).or last) none = none ↔ ∀ x ∈ xs, writes x = none := by
  induction xs using List.reverseRecOn with
  | nil => simp
  | append_singleton xs x ih =>
    simp only [foldl_append, foldl_cons, foldl_nil, or_eq_none_iff, ih, mem_append, mem_singleton]
    constructor
    · rintro ⟨hx, hxs⟩ y (hy | rfl)
      · exact hxs y hy
      · exact hx
    · exact fun h => ⟨h x (.inr rfl), fun y hy => h y (.inl hy)⟩

end Calls

/-! ## The users of the store -/

/-- An execution of another block; a `cache-scope` that replays writes nothing, one that runs its
flow ends in `store`. -/
inductive Execution where
  | objectWrite (key : String) (encoded : Bytes)
  | objectDelete (key : String)
  | cacheScope (raw : String) (encoded : Bytes) (expectedVersion : Int)
  | invalidateCache (raw : String)

def Execution.objectKey : Execution → Option String
  | .objectWrite key _ => some key
  | .objectDelete key => some key
  | .cacheScope _ _ _ => none
  | .invalidateCache _ => none

/-- What an agent does to the memory of a thread at the end of a run, and `clear-agent-memory`. -/
inductive MemoryCall where
  | save (threadID : String) (msgs : Messages)
  | clear (threadID : String)

open MemoryCall

open ObjectRead

section Users

variable (b : Backend) (codec : Codec) (sha256 : String → Bytes)

def execute (s : b.State) : Execution → b.State
  | .objectWrite key encoded => (objectWrite b s key encoded).2
  | .objectDelete key => objectDelete b s key
  | .cacheScope raw encoded expectedVersion => cacheStore b sha256 s raw encoded expectedVersion
  | .invalidateCache raw => invalidateCache b sha256 s raw

def remember (s : b.State) : MemoryCall → b.State
  | .save threadID msgs => (saveMemory b codec s threadID msgs).2
  | .clear threadID => clearAgentMemory b s threadID

def Execution.writes (key : String) : Execution → Option (Option Bytes)
  | .objectWrite k encoded => if key = k then some (some encoded) else none
  | .objectDelete k => if key = k then some none else none
  | .cacheScope _ _ _ => none
  | .invalidateCache _ => none

def MemoryCall.writes (key : String) : MemoryCall → Option (Option Bytes)
  | .save threadID msgs =>
    if key = memoryKey threadID then (codec.encodeMessages msgs).map some else none
  | .clear threadID => if key = memoryKey threadID then some none else none

def MemoryCall.changes : MemoryCall → Option String
  | .save threadID msgs => (codec.encodeMessages msgs).map fun _ => memoryKey threadID
  | .clear threadID => some (memoryKey threadID)

variable {b codec sha256}

theorem Execution.writes_eq_none {key : String} {x : Execution} :
    x.writes key = none ↔ x.objectKey ≠ some key := by
  cases x <;> simp [writes, objectKey, eq_comm]

theorem MemoryCall.writes_eq_none {key : String} {m : MemoryCall} :
    m.writes codec key = none ↔ m.changes codec ≠ some key := by
  cases m with
  | clear => simp [writes, changes, eq_comm]
  | save threadID msgs =>
    cases henc : codec.encodeMessages msgs <;> simp [writes, changes, henc, eq_comm]

variable (threadID : String)

theorem valueAt_execute (s : b.State) (x : Execution) :
    valueAt b (execute b sha256 s x) (memoryKey threadID) =
      (x.writes (memoryKey threadID)).getD (valueAt b s (memoryKey threadID)) := by
  cases x with
  | objectWrite key encoded =>
    show valueAt b (writeLoop b key encoded (4 + 1) s).2 _ = _
    rw [valueAt_writeLoop]
    by_cases h : memoryKey threadID = key <;> simp [Execution.writes, h]
  | objectDelete key =>
    show valueAt b (b.delete s namespaceUser key 0).2 _ = _
    rw [valueAt_delete]
    by_cases h : memoryKey threadID = key <;> simp [Execution.writes, h]
  | cacheScope raw =>
    exact valueAt_set_of_ne (memoryKey_ne_cacheKey sha256 threadID raw)
  | invalidateCache raw =>
    show valueAt b (b.delete s namespaceUser (cacheKey sha256 raw) 0).2 _ = _
    rw [valueAt_delete, if_neg (memoryKey_ne_cacheKey sha256 threadID raw)]
    rfl

variable (key : String) (s : b.State)

theorem valueAt_remember (m : MemoryCall) :
    valueAt b (remember b codec s m) key = (m.writes codec key).getD (valueAt b s key) := by
  cases m with
  | clear threadID =>
    show valueAt b (b.delete s namespaceUser (memoryKey threadID) 0).2 _ = _
    rw [valueAt_delete]
    by_cases h : key = memoryKey threadID <;> simp [writes, h]
  | save threadID msgs =>
    show valueAt b (saveMemory b codec s threadID msgs).2 key = _
    unfold saveMemory
    cases henc : codec.encodeMessages msgs with
    | none => simp [writes, henc]
    | some encoded =>
      show valueAt b (writeLoop b (memoryKey threadID) encoded (4 + 1) s).2 _ = _
      rw [valueAt_writeLoop]
      by_cases h : key = memoryKey threadID <;> simp [writes, henc, h]

/-! ## What a reader sees -/

theorem loadMemory_eq : loadMemory b codec s threadID =
      (valueAt b s (memoryKey threadID)).elim (some []) codec.decodeMessages := by
  unfold loadMemory valueAt
  cases b.get s namespaceUser (memoryKey threadID) <;> rfl

theorem objectRead_eq (key : String) : objectRead b codec s key =
      (valueAt b s key).elim .miss fun v => (codec.value v).elim .undecodable .value := by
  unfold objectRead valueAt
  cases b.get s namespaceUser key <;> rfl

theorem replay_eq (now : Int) (s : b.State) (raw : String) : replay b codec sha256 now s raw =
      ((valueAt b s (cacheKey sha256 raw)).bind (decodeFreshEnvelope codec now)).bind
        codec.value := by
  unfold replay valueAt
  cases b.get s namespaceUser (cacheKey sha256 raw) <;> rfl

theorem valueAt_init : valueAt b b.init key = none := by
  unfold valueAt
  rw [b.get_init]
  rfl

theorem exists_valueAt (value : Bytes) :
    ∃ s : b.State, valueAt b s key = some value :=
  ⟨(objectWrite b b.init key value).2, by
    show valueAt b (writeLoop b key value (4 + 1) b.init).2 key = _
    rw [valueAt_writeLoop, if_pos rfl]⟩

theorem reader_kept_iff {X R : Type} (call : b.State → X → b.State) (key : String)
    (writes : X → Option (Option Bytes)) (read : Option Bytes → R)
    (hcall : ∀ s x, valueAt b (call s x) key = (writes x).getD (valueAt b s key))
    (hread : ∀ r, ∃ s : b.State, read (valueAt b s key) ≠ r) (xs : List X) :
    (∀ s, read (valueAt b (xs.foldl call s) key) = read (valueAt b s key)) ↔
      ∀ x ∈ xs, writes x = none := by
  rw [← lastWrite_eq_none]
  simp only [value_foldl call key writes hcall]
  cases hlast : xs.foldl (fun last x => (writes x).or last) none with
  | none => simp
  | some v =>
    simp only [reduceCtorEq, iff_false]
    intro h
    obtain ⟨s, hs⟩ := hread (read v)
    exact hs (h s).symm

theorem loadMemory_varies (r : Option Messages) : ∃ s : b.State,
      (valueAt b s (memoryKey threadID)).elim (some []) codec.decodeMessages ≠ r := by
  by_cases hr : r = some []
  · have hstored : storedTranscript codec.raw [.user ""] = some [.user ""] := rfl
    obtain ⟨bytes, -, hdec⟩ := codec.encodes_of_stored hstored
    obtain ⟨s, hs⟩ := exists_valueAt (memoryKey threadID) bytes
    refine ⟨s, ?_⟩
    rw [hs, hr]
    simp [hdec]
  · refine ⟨b.init, ?_⟩
    rw [valueAt_init]
    exact fun h => hr h.symm

theorem objectRead_varies (r : ObjectRead) :
    ∃ s : b.State, (valueAt b s key).elim miss
      (fun v => (codec.value v).elim .undecodable .value) ≠ r := by
  by_cases hr : r = .miss
  · obtain ⟨s, hs⟩ := exists_valueAt key []
    refine ⟨s, ?_⟩
    rw [hs, hr]
    show (codec.value []).elim undecodable .value ≠ .miss
    cases codec.value [] <;> simp
  · refine ⟨b.init, ?_⟩
    rw [valueAt_init]
    exact fun h => hr h.symm

variable (b codec sha256)

/-- **A thread is isolated from the other users exactly when no object block addresses its key, and
an object from the threads exactly when no save or clear addresses its key.** -/
theorem memory_isolation_iff (threadID key raw : String) (now : Int) (others : List Execution)
    (memory : List MemoryCall) :
    ((∀ s, loadMemory b codec (others.foldl (execute b sha256) s) threadID =
        loadMemory b codec s threadID) ∧
      (∀ s, objectRead b codec (memory.foldl (remember b codec) s) key = objectRead b codec s key) ∧
      ∀ s, replay b codec sha256 now (memory.foldl (remember b codec) s) raw =
        replay b codec sha256 now s raw) ↔ (∀ x ∈ others, x.objectKey ≠ some (memoryKey threadID)) ∧
        ∀ m ∈ memory, m.changes codec ≠ some key := by
  have hload := reader_kept_iff (execute b sha256) (memoryKey threadID)
    (Execution.writes (memoryKey threadID)) (fun v => v.elim (some []) codec.decodeMessages)
    (valueAt_execute threadID) (loadMemory_varies threadID) others
  have hobject := reader_kept_iff (remember b codec) key (writes codec key)
    (fun v => v.elim miss fun v => (codec.value v).elim .undecodable .value)
    (valueAt_remember key) (objectRead_varies key) memory
  simp only [Execution.writes_eq_none, ← loadMemory_eq] at hload
  simp only [writes_eq_none, ← objectRead_eq] at hobject
  -- a save or clear never has the key of a cache entry
  have hreplay : ∀ s, replay b codec sha256 now (memory.foldl (remember b codec) s) raw =
      replay b codec sha256 now s raw := by
    intro s
    have hnone : ∀ m ∈ memory, m.writes codec (cacheKey sha256 raw) = none := by
      intro m _
      rw [writes_eq_none]
      cases m with
      | clear t => exact fun h => memoryKey_ne_cacheKey sha256 t raw (Option.some.inj h)
      | save t =>
        intro h
        obtain ⟨_, -, hkey⟩ := map_eq_some_iff.1 h
        exact memoryKey_ne_cacheKey sha256 t raw hkey
    rw [replay_eq, replay_eq, value_foldl _ _ _ (valueAt_remember (cacheKey sha256 raw)),
      (lastWrite_eq_none _ _).2 hnone]
    rfl
  rw [hload, hobject]
  exact ⟨fun h => ⟨h.1, h.2.1⟩, fun h => ⟨h.1, h.2, hreplay⟩⟩

end Users

/-- The key `agent-memory/t` is the key of thread `t`: an `object-delete` of it wipes the
conversation, and `object-read` of it finds a transcript. -/
theorem object_delete_wipes_thread : Nonempty Codec ∧ ∀ codec : Codec,
      let saved := (saveMemory standalone codec standalone.init "t" [.user "hi"]).2
      loadMemory standalone codec saved "t" = some [.user "hi"] ∧
      loadMemory standalone codec (objectDelete standalone saved "agent-memory/t") "t" = some [] ∧
      objectRead standalone codec standalone.init "agent-memory/t" = .miss ∧
      objectRead standalone codec saved "agent-memory/t" ≠ .miss := by
  refine ⟨Codec.nonempty, fun codec => ?_⟩
  have hstored : storedTranscript codec.raw [.user "hi"] = some [.user "hi"] := rfl
  obtain ⟨bytes, henc, hdec⟩ := codec.encodes_of_stored hstored
  have hsaved : valueAt standalone (saveMemory standalone codec standalone.init "t"
      [.user "hi"]).2 "agent-memory/t" = some bytes := by
    unfold saveMemory
    rw [henc]
    exact (valueAt_writeLoop standalone.init "agent-memory/t" "agent-memory/t" bytes 4).trans
      (if_pos rfl)
  have hkey : memoryKey "t" = "agent-memory/t" := by decide
  refine ⟨?_, ?_, rfl, ?_⟩
  · rw [loadMemory_eq, hkey, hsaved]
    exact hdec
  · rw [loadMemory_eq]
    unfold objectDelete
    rw [valueAt_delete]
    rfl
  · rw [objectRead_eq, hsaved]
    show (codec.value bytes).elim undecodable .value ≠ .miss
    cases codec.value bytes <;> simp

end Octo.Blocks
