import Mathlib.Data.Countable.Basic
import Mathlib.Logic.Equiv.List
import Mathlib.Tactic.DeriveCountable
import Octo.Agent.Thread
import Octo.Kv.Store

/-!
# Blocks that use the key/value store

`engine/object.go`, `engine/cache.go` and the store half of `engine/agentmemory.go`: the objects of
a flow, the entries of `cache-scope` and the transcripts of `ai-agent` all live in the user
namespace of one store.  They are told apart by their keys alone: an object has the key the flow
computed, a cache entry the hexadecimal SHA-256 of it, a transcript a prefix and the thread id.

What a block evaluates (keys, values) is an argument; `encoding/json` and `crypto/sha256` are
parameters.  `writeLoop` is the optimistic retry loop of `object-write` and `saveMemory`, run
without interruption.
-/

namespace Octo.Blocks

open List Option Function Octo.Kv
open Octo.Types (Value)
open Octo.Agent (LLMMessage Messages storedTranscript)

def namespaceUser : String := "user"

/-- A deadline in unix nanoseconds, 0 for none, and the cached body. -/
structure CacheEnvelope where
  expiresAt : Int
  body : Bytes
deriving DecidableEq

/-- What `encoding/json` does with the values these blocks store. -/
structure Codec where
  /-- `json.Unmarshal` into an empty interface. -/
  value : Bytes → Option Value
  /-- A raw JSON argument as it is read back once written, `none` when it is not valid JSON. -/
  raw : Option String → Option String
  /-- `json.Marshal` of a transcript. -/
  encodeMessages : Messages → Option Bytes
  /-- `json.Unmarshal` into a transcript. -/
  decodeMessages : Bytes → Option Messages
  /-- `json.Marshal` of a body, `Message.BodyJSON`. -/
  encodeBody : Value → Option Bytes
  /-- `json.Marshal` of an envelope. -/
  encodeEnvelope : CacheEnvelope → Option Bytes
  /-- `json.Unmarshal` into an envelope. -/
  decodeEnvelope : Bytes → Option CacheEnvelope
  raw_idem : ∀ x y, raw x = some y → raw (some y) = some y
  decode_encode_messages : ∀ msgs,
    (encodeMessages msgs).bind decodeMessages = storedTranscript raw msgs
  decodes_messages : ∀ msgs bytes, encodeMessages msgs = some bytes → (decodeMessages bytes).isSome
  encodeBody_null : (encodeBody .null).isSome
  value_encodeBody : ∀ v body, encodeBody v = some body → (value body).isSome
  /-- An envelope around JSON encodes, and is read back with its deadline and a body that is JSON. -/
  decode_encode_envelope : ∀ env, (value env.body).isSome → ∃ bytes body,
    encodeEnvelope env = some bytes ∧ decodeEnvelope bytes = some ⟨env.expiresAt, body⟩ ∧
      (value body).isSome

theorem Codec.stored_of_encodes (codec : Codec) {msgs : Messages} {bytes : Bytes}
    (h : codec.encodeMessages msgs = some bytes) :
    ∃ saved, codec.decodeMessages bytes = some saved ∧
      storedTranscript codec.raw msgs = some saved := by
  obtain ⟨saved, hsaved⟩ := isSome_iff_exists.1 (codec.decodes_messages msgs bytes h)
  have hstored := codec.decode_encode_messages msgs
  rw [h, bind_some, hsaved] at hstored
  exact ⟨saved, hsaved, hstored.symm⟩

theorem Codec.encodes_of_stored (codec : Codec) {msgs saved : Messages}
    (h : storedTranscript codec.raw msgs = some saved) :
    ∃ bytes, codec.encodeMessages msgs = some bytes ∧ codec.decodeMessages bytes = some saved := by
  rw [← codec.decode_encode_messages] at h
  exact bind_eq_some_iff.1 h

instance countableChar : Countable Char := ⟨Char.toNat, fun _ _ => Char.toNat_inj.1⟩

instance countableString : Countable String :=
  (Function.LeftInverse.injective fun _ => String.ofList_toList).countable

deriving instance Countable for
  Octo.Agent.LLMRole, Octo.Agent.LLMToolCall, Octo.Agent.LLMToolResult, LLMMessage

theorem exists_code (α : Type) [Countable α] : ∃ code : α → Bytes, Function.Injective code := by
  obtain ⟨f, hf⟩ := Countable.exists_injective_nat α
  exact ⟨fun a => replicate (f a) 0, fun a b h => hf (by simpa using congrArg length h)⟩

/-- Transcripts and deadlines are countable, so byte strings can stand for them. -/
theorem Codec.nonempty : Nonempty Codec := by
  obtain ⟨code, hcode⟩ := exists_code Messages
  obtain ⟨wrap, hwrap⟩ := exists_code Int
  let raw : Option String → Option String := fun x => some (x.getD "")
  have hdecode : ∀ msgs, partialInv code (code msgs) = some msgs :=
    partialInv_left hcode
  exact ⟨{
    value := fun _ => some .null
    raw := raw
    encodeMessages := fun msgs => (storedTranscript raw msgs).map code
    decodeMessages := partialInv code
    encodeBody := fun _ => some []
    encodeEnvelope := fun env => some (wrap env.expiresAt)
    decodeEnvelope := fun bytes => (partialInv wrap bytes).map (⟨·, []⟩)
    raw_idem := fun _ _ _ => rfl
    decode_encode_messages := fun msgs => by cases storedTranscript raw msgs <;> simp [hdecode]
    decodes_messages := fun msgs bytes h => by
      obtain ⟨saved, -, rfl⟩ := map_eq_some_iff.1 h
      rw [hdecode]
      rfl
    encodeBody_null := rfl
    value_encodeBody := fun _ _ _ => rfl
    decode_encode_envelope := fun env _ =>
      ⟨wrap env.expiresAt, [], rfl, by rw [partialInv_left hwrap]; rfl, rfl⟩ }⟩

/-! ## Keys -/

def hexDigit (n : Nat) : Char := "0123456789abcdef".toList.getD n '0'

def hexEncode (bytes : Bytes) : String :=
  String.ofList (bytes.flatMap fun x => [hexDigit (x.toNat / 16), hexDigit (x.toNat % 16)])

section Keys

-- `sha256.Sum256` of the UTF-8 bytes of a string
variable (sha256 : String → Bytes)

def cacheKey (raw : String) : String := hexEncode (sha256 raw)

def memoryKey (threadID : String) : String := "agent-memory/" ++ threadID

theorem hexDigit_mem (n : Nat) : hexDigit n ∈ "0123456789abcdef".toList := by
  unfold hexDigit
  by_cases h : n < 16
  · have : ∀ n < 16, "0123456789abcdef".toList.getD n '0' ∈ "0123456789abcdef".toList := by decide
    exact this n h
  · rw [getD_eq_getElem?_getD, getElem?_eq_none (by simpa using Nat.le_of_not_lt h)]
    decide

theorem mem_of_mem_hexEncode {bytes : Bytes} {c : Char} (h : c ∈ (hexEncode bytes).toList) :
    c ∈ "0123456789abcdef".toList := by
  rw [hexEncode, String.toList_ofList] at h
  obtain ⟨x, -, hx⟩ := mem_flatMap.1 h
  rcases mem_cons.1 hx with rfl | hx
  · exact hexDigit_mem _
  · rw [mem_singleton.1 hx]
    exact hexDigit_mem _

/-- **A transcript never has the key of a cache entry**: a `g` is not a hexadecimal digit. -/
theorem memoryKey_ne_cacheKey (threadID raw : String) :
    memoryKey threadID ≠ cacheKey sha256 raw := by
  intro h
  have hg : 'g' ∈ (memoryKey threadID).toList := by
    rw [memoryKey, String.toList_append]
    exact mem_append_left _ (by decide)
  exact absurd (mem_of_mem_hexEncode (h ▸ hg)) (by decide)

end Keys

/-! ## The blocks -/

section Blocks

variable (b : Backend)

/-- The version a `Get` returns, that of the zero entry when the key is absent. -/
def readVersion (s : b.State) (key : String) : Int :=
  ((b.get s namespaceUser key).map Entry.version).getD 0

def writeAttempts : Nat := 5

/-- The retry loop of `object-write` and `saveMemory`: whether it wrote, and the store it leaves. -/
def writeLoop (key : String) (value : Bytes) : Nat → b.State → Bool × b.State
  | 0, s => (false, s)
  | n + 1, s =>
    match b.set s namespaceUser key value (readVersion b s key) with
    | (.ok _, s') => (true, s')
    | (.error _, s') => writeLoop key value n s'

def objectWrite (s : b.State) (key : String) (encoded : Bytes) : Bool × b.State :=
  writeLoop b key encoded writeAttempts s

def objectDelete (s : b.State) (key : String) : b.State := (b.delete s namespaceUser key 0).2

/-- What `object-read` finds. -/
inductive ObjectRead where
  | miss
  | value (v : Value)
  | undecodable

variable (codec : Codec)

/-- `objectRead.Process`, up to where it puts what it found. -/
def objectRead (s : b.State) (key : String) : ObjectRead := match b.get s namespaceUser key with
  | none => .miss
  | some entry => (codec.value entry.value).elim .undecodable .value

variable (sha256 : String → Bytes)

variable (s : b.State)

def invalidateCache (raw : String) : b.State :=
  (b.delete s namespaceUser (cacheKey sha256 raw) 0).2

def decodeFreshEnvelope (now : Int) (value : Bytes) : Option Bytes :=
  (codec.decodeEnvelope value).bind fun env =>
    if env.expiresAt ≠ 0 ∧ now ≥ env.expiresAt then none else some env.body

/-- What `cache-scope` replays: a fresh envelope whose body is JSON. -/
def replay (now : Int) (s : b.State) (raw : String) : Option Value :=
  ((b.get s namespaceUser (cacheKey sha256 raw)).bind fun entry =>
    decodeFreshEnvelope codec now entry.value).bind codec.value

/-- The envelope `cacheScope.store` writes: the deadline is set when the scope has a ttl, on
`int64` nanoseconds. -/
def encodeCached (ttl now : Int) (out : Value) : Option Bytes :=
  (codec.encodeBody out).bind fun body =>
    codec.encodeEnvelope ⟨if ttl > 0 then (now + ttl).bmod (2 ^ 64) else 0, body⟩

def cacheStore (raw : String) (encoded : Bytes) (expectedVersion : Int) : b.State :=
  (b.set s namespaceUser (cacheKey sha256 raw) encoded expectedVersion).2

variable (threadID : String)

/-- A missing thread is a fresh conversation, `none` a transcript that does not decode. -/
def loadMemory : Option Messages :=
  match b.get s namespaceUser (memoryKey threadID) with
  | none => some []
  | some entry => codec.decodeMessages entry.value

def saveMemory (msgs : Messages) : Bool × b.State :=
  match codec.encodeMessages msgs with
  | none => (false, s)
  | some encoded => writeLoop b (memoryKey threadID) encoded writeAttempts s

def clearAgentMemory : b.State :=
  (b.delete s namespaceUser (memoryKey threadID) 0).2

end Blocks

end Octo.Blocks
