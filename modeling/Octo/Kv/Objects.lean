import Octo.Foundation.Base64
import Octo.Kv.Store

/-!
# The object browser and secret values

`internal/kv/objects.go` over `internal/kv/service.go`: a JSON facade over the key/value store of a
deployment.  Values of a namespace with the suffix `_secrets` are encrypted at rest; the browser lists
and deletes their keys and refuses to read or write their values.

* `browser_reveals_no_secret` — no sequence of requests tells two such stores apart.
* `put_back_keeps_bytes` — an object that is put back as it was got keeps its bytes.
-/

namespace Octo.Kv.Objects

open List Function Option Table Foundation

/-! ## The service -/

/-- `isSecret`: `strings.HasSuffix(namespace, "_secrets")`. -/
def isSecret (ns : String) : Bool := "_secrets".toList.isSuffixOf ns.toList

/-- AES-GCM. The length of a ciphertext depends only on the length of the plaintext. -/
structure Cipher where
  /-- `Encrypt`, with the nonce it draws. -/
  encrypt : Bytes → Bytes → Bytes
  decrypt : Bytes → Option Bytes
  sealedLength : Nat → Nat
  encrypt_length : ∀ nonce plaintext,
    (encrypt nonce plaintext).length = sealedLength plaintext.length

/-- What a call takes from outside: the time of the database, whether it fails, and the nonce. -/
structure Ctx where
  now : Nat
  fault : Bool
  nonce : Option Bytes

inductive StoreError where
  | versionConflict
  | encryptionDisabled
  | internal
deriving DecidableEq

/-- `kv_store`, with the column `updated_at`. -/
structure State where
  table : Table
  updatedAt : RowKey → Nat

/-- `Entry` of a listing: a key without its value. -/
structure Listed where
  key : String
  version : Int
  size : Nat
  updatedAt : Nat
deriving DecidableEq

def get (cipher : Option Cipher) (s : State) (ctx : Ctx) (pk : RowKey) :
    Except StoreError (Option Entry) :=
  if ctx.fault then .error .internal
  else
    match Repo.get s.table pk with
    | none => .ok none
    | some e =>
      if isSecret pk.ns then
        match cipher with
        | none => .error .encryptionDisabled
        | some c =>
          match c.decrypt e.value with
          | some value => .ok (some ⟨value, e.version⟩)
          | none => .error .internal
      else .ok (some e)

variable (s : State)

/-- With the time it sets. -/
def write (ctx : Ctx) (pk : RowKey) (value : Bytes) (expected : Int) :
    Except StoreError Int × State :=
  if ctx.fault then (.error .internal, s)
  else
    match Repo.write s.table pk value expected with
    | (.ok version, table) => (.ok version, ⟨table, update s.updatedAt pk ctx.now⟩)
    | (.error .versionConflict, table) => (.error .versionConflict, ⟨table, s.updatedAt⟩)

def set (cipher : Option Cipher) (s : State) (ctx : Ctx) (pk : RowKey) (value : Bytes)
    (expected : Int) : Except StoreError Int × State :=
  if isSecret pk.ns then
    match cipher, ctx.nonce with
    | none, _ => (.error .encryptionDisabled, s)
    | some _, none => (.error .internal, s)
    | some c, some nonce => write s ctx pk (c.encrypt nonce value) expected
  else write s ctx pk value expected

def delete (ctx : Ctx) (pk : RowKey) (expected : Int) :
    Except StoreError Unit × State :=
  if ctx.fault then (.error .internal, s)
  else
    match Repo.delete s.table pk expected with
    | (.ok (), table) => (.ok (), ⟨table, s.updatedAt⟩)
    | (.error .versionConflict, table) => (.error .versionConflict, ⟨table, s.updatedAt⟩)

/-- `Service.List`: `SELECT key, version, octet_length(value), updated_at … ORDER BY key`. -/
def list (collate : String → String → Bool) (s : State) (ctx : Ctx) (id ns : String) :
    Except StoreError (List Listed) :=
  if ctx.fault then .error .internal
  else
    let rows := s.table.rows.filter fun r => r.pk.deploymentID = id ∧ r.pk.ns = ns
    .ok ((rows.map fun r => ⟨r.pk.key, r.version, r.value.length, s.updatedAt r.pk⟩).mergeSort
      fun a b => collate a.key b.key)

/-- `Service.ListNamespaces`: `SELECT DISTINCT namespace … ORDER BY namespace`. -/
def listNamespaces (collate : String → String → Bool) (s : State) (ctx : Ctx) (id : String) :
    Except StoreError (List String) :=
  if ctx.fault then .error .internal
  else
    let rows := s.table.rows.filter fun r => r.pk.deploymentID = id
    .ok ((rows.map fun r => r.pk.ns).dedup.mergeSort collate)

/-! ## The handler -/

structure ObjectValue where
  key : String
  value : String
  encoding : String
  version : Int
deriving DecidableEq

structure Lib where
  collate : String → String → Bool
  /-- `httpx.DecodeJSON` of a request body. -/
  decodeJSON : String → Option ObjectValue
  /-- `strconv.ParseInt(raw, 10, 64)`. -/
  parseInt : String → Option Int

inductive Payload where
  | namespaces (items : List String)
  | entries (items : List Listed)
  | object (o : ObjectValue)
  | version (v : Int)
  | error (text : String)
deriving DecidableEq

structure Response where
  status : Nat
  payload : Option Payload
deriving DecidableEq

/-- The routes, with `?namespace=`, `?version=`, the key and the body. -/
inductive Call where
  | namespaces
  | list (ns : String)
  | get (ns key : String)
  | put (ns key body : String)
  | delete (ns key version : String)

structure Request where
  id : String
  ctx : Ctx
  call : Call

def writeError (status : Nat) (text : String) : Response := ⟨status, some (.error text)⟩

def writeStoreError : StoreError → Response
  | .versionConflict => writeError 409 "version conflict"
  | .encryptionDisabled => writeError 503 "secret storage is not configured"
  | .internal => writeError 500 "internal error"

def respond {ρ : Type} (ok : ρ → Response) : Except StoreError ρ × State → Response × State
  | (.error e, s) => (writeStoreError e, s)
  | (.ok r, s) => (ok r, s)

def userNamespace : String := "user"

/-- The namespace of a request, or the refusal. -/
def objectNamespace (ns : String) (allowSecret : Bool) : Except Response String :=
  if ns = "" then .ok userNamespace
  else if !allowSecret && isSecret ns then
    .error (writeError 400 "secret values are not accessible here")
  else .ok ns

/-- `string(value)`, when `utf8.Valid(value)`. -/
def utf8 (value : Bytes) : Option String := String.fromUTF8? ⟨value.toArray⟩

/-- `[]byte(text)`. -/
def bytes (text : String) : Bytes := text.toUTF8.data.toList

/-- The bytes of a request's value; an encoding other than `base64` is plain text. -/
def decodeValue (value encoding : String) : Option Bytes :=
  if encoding = "base64" then Base64.decode value.toList else some (bytes value)

variable (lib : Lib)

/-- The `version` of a query: absent is zero. -/
def versionQuery (raw : String) : Option Int :=
  if raw = "" then some 0 else lib.parseInt raw

/-- The answer for a stored entry: text where the bytes are valid UTF-8, base64 otherwise. -/
def objectOf (key : String) (e : Entry) : ObjectValue := match utf8 e.value with
  | some text => ⟨key, text, "utf8", e.version⟩
  | none => ⟨key, String.ofList (Base64.encode e.value), "base64", e.version⟩

section Handler

variable (lib : Lib) (cipher : Option Cipher) (s : State) (id : String) (ctx : Ctx)

/-- `ObjectHandler.namespaces`: the default namespace is always there. -/
def serveNamespaces : Response := match listNamespaces lib.collate s ctx id with
  | .error e => writeStoreError e
  | .ok all => ⟨200, some (.namespaces (userNamespace :: all.filter (· ≠ userNamespace)))⟩

/-- `ObjectHandler.list`. -/
def serveList (ns : String) : Response := match objectNamespace ns true with
  | .error refusal => refusal
  | .ok ns =>
    match list lib.collate s ctx id ns with
    | .error e => writeStoreError e
    | .ok entries => ⟨200, some (.entries entries)⟩

/-- `ObjectHandler.get`. -/
def serveGet (ns key : String) : Response := match objectNamespace ns false with
  | .error refusal => refusal
  | .ok ns =>
    match get cipher s ctx ⟨id, ns, key⟩ with
    | .error e => writeStoreError e
    | .ok none => ⟨404, none⟩
    | .ok (some e) => ⟨200, some (.object (objectOf key e))⟩

/-- `ObjectHandler.put`. -/
def servePut (ns key body : String) : Response × State := match objectNamespace ns false with
  | .error refusal => (refusal, s)
  | .ok ns =>
    match lib.decodeJSON body with
    | none => (writeError 400 "invalid request body", s)
    | some req =>
      match decodeValue req.value req.encoding with
      | none => (writeError 400 "invalid value encoding", s)
      | some value =>
        respond (fun version => ⟨200, some (.version version)⟩)
          (set cipher s ctx ⟨id, ns, key⟩ value req.version)

/-- `ObjectHandler.delete`. -/
def serveDelete (ns key version : String) : Response × State := match objectNamespace ns true with
  | .error refusal => (refusal, s)
  | .ok ns =>
    match versionQuery lib version with
    | none => (writeError 400 "invalid version", s)
    | some expected =>
      respond (fun _ => ⟨204, none⟩) (delete s ctx ⟨id, ns, key⟩ expected)

end Handler

/-- `ObjectHandler`: one request. -/
def serve (cipher : Option Cipher) (s : State) (r : Request) : Response × State :=
  match r.call with
  | .namespaces => (serveNamespaces lib s r.id r.ctx, s)
  | .list ns => (serveList lib s r.id r.ctx ns, s)
  | .get ns key => (serveGet cipher s r.id r.ctx ns key, s)
  | .put ns key body => servePut lib cipher s r.id r.ctx ns key body
  | .delete ns key version => serveDelete lib s r.id r.ctx ns key version

def responses (lib : Lib) (cipher : Option Cipher) : State → List Request → List Response
  | _, [] => []
  | s, r :: rest => (serve lib cipher s r).1 :: responses lib cipher (serve lib cipher s r).2 rest

/-! ## What a store shows -/

structure Redacted where
  pk : RowKey
  version : Int
  size : Nat
  updatedAt : Nat
  shown : Option Bytes
deriving DecidableEq

def redact (updatedAt : RowKey → Nat) (r : Row) : Redacted :=
  ⟨r.pk, r.version, r.value.length, updatedAt r.pk, if isSecret r.pk.ns then none else some r.value⟩

def State.view : List Redacted := s.table.rows.map (redact s.updatedAt)

def Alike (s₁ s₂ : State) : Prop := s₁.view = s₂.view

/-- A row that is another one but for the plaintext of a secret, which has the same length. -/
structure SameRow (c : Cipher) (s₁ s₂ : State) (r₁ r₂ : Row) : Prop where
  pk : r₁.pk = r₂.pk
  version : r₁.version = r₂.version
  updatedAt : s₁.updatedAt r₁.pk = s₂.updatedAt r₂.pk
  plain : isSecret r₁.pk.ns = false → r₁.value = r₂.value
  secret : isSecret r₁.pk.ns = true → ∃ nonce₁ nonce₂ plaintext₁ plaintext₂,
    r₁.value = c.encrypt nonce₁ plaintext₁ ∧ r₂.value = c.encrypt nonce₂ plaintext₂ ∧
    plaintext₁.length = plaintext₂.length

def SameButSecrets (c : Cipher) (s₁ s₂ : State) : Prop :=
  List.Forall₂ (SameRow c s₁ s₂) s₁.table.rows s₂.table.rows

variable {s₁ s₂ : State}

theorem redact_eq {c : Cipher} {r₁ r₂ : Row} (h : SameRow c s₁ s₂ r₁ r₂) :
    redact s₁.updatedAt r₁ = redact s₂.updatedAt r₂ := by
  have hsize : r₁.value.length = r₂.value.length := by
    cases hsecret : isSecret r₁.pk.ns with
    | false => rw [h.plain hsecret]
    | true =>
      obtain ⟨nonce₁, nonce₂, plaintext₁, plaintext₂, h₁, h₂, hlength⟩ := h.secret hsecret
      rw [h₁, h₂, c.encrypt_length, c.encrypt_length, hlength]
  have hshown : (if isSecret r₁.pk.ns then none else some r₁.value) =
      if isSecret r₂.pk.ns then none else some r₂.value := by
    rw [← h.pk]
    cases hsecret : isSecret r₁.pk.ns with
    | false => simp [h.plain hsecret]
    | true => rfl
  unfold redact
  rw [hshown, hsize, h.version, h.updatedAt, h.pk]

theorem SameButSecrets.alike {c : Cipher} (h : SameButSecrets c s₁ s₂) : Alike s₁ s₂ := by
  have hmap : ∀ {l₁ l₂ : List Row}, List.Forall₂ (SameRow c s₁ s₂) l₁ l₂ →
      l₁.map (redact s₁.updatedAt) = l₂.map (redact s₂.updatedAt) := by
    intro l₁ l₂ hrows
    induction hrows with
    | nil => rfl
    | cons hrow _ ih => rw [map_cons, map_cons, redact_eq hrow, ih]
  exact hmap h

/-! ## The calls of the service -/

def AlikeResults {ρ : Type} (x y : ρ × State) : Prop := x.1 = y.1 ∧ Alike x.2 y.2

open State

variable (pk : RowKey)

theorem select_view :
    (s.table.select pk).map (redact s.updatedAt) = s.view.find? (·.pk = pk) := by
  unfold view select
  rw [find?_map]
  rfl

theorem select_alike (h : Alike s₁ s₂) (pk : RowKey) :
    (s₁.table.select pk).map (redact s₁.updatedAt) =
      (s₂.table.select pk).map (redact s₂.updatedAt) := by
  rw [select_view, select_view, h]

open Redacted

theorem version_alike (h : Alike s₁ s₂) (pk : RowKey) :
    (s₁.table.select pk).map Row.version = (s₂.table.select pk).map Row.version := by
  have := congrArg (Option.map version) (select_alike h pk)
  simpa [comp_def, redact] using this

theorem get_alike (cipher : Option Cipher) (ctx : Ctx) {pk : RowKey} (h : Alike s₁ s₂)
    (hplain : isSecret pk.ns = false) : get cipher s₁ ctx pk = get cipher s₂ ctx pk := by
  have hget : Repo.get s₁.table pk = Repo.get s₂.table pk := by
    have hrow := select_alike h pk
    unfold Repo.get
    cases h₁ : s₁.table.select pk with
    | none =>
      rw [h₁] at hrow
      rw [map_eq_none_iff.1 hrow.symm]
    | some =>
      rw [h₁] at hrow
      obtain ⟨r₂, h₂, heq⟩ := map_eq_some_iff.1 hrow.symm
      rw [h₂]
      have hshown := congrArg shown heq
      have hversion := congrArg version heq
      simp only [redact, select_pk h₁, select_pk h₂, hplain, Bool.false_eq_true,
        if_false, Option.some.injEq] at hshown hversion
      simp [hshown, hversion]
  unfold get
  rw [hget]

theorem view_update (value : Bytes) (version : Int) (now : Nat) :
    view ⟨s.table.update pk value version, update s.updatedAt pk now⟩ = s.view.map fun v =>
        if v.pk = pk then
          ⟨pk, version, value.length, now, if isSecret pk.ns then none else some value⟩
        else v := by
  unfold view Table.update
  simp only [List.map_map]
  apply List.map_congr_left
  intro r _
  by_cases hr : r.pk = pk
  · simp [redact, hr]
  · simp [redact, hr]

theorem view_insert {s : State} {row : Row} {table : Table} (now : Nat)
    (h : s.table.insert row = some table) : view ⟨table, update s.updatedAt row.pk now⟩ =
      ⟨row.pk, row.version, row.value.length, now,
        if isSecret row.pk.ns then none else some row.value⟩ :: s.view := by
  unfold Table.insert at h
  split at h
  · cases h
  next hfresh =>
    cases h
    unfold view
    rw [map_cons]
    congr 1
    · simp [redact]
    · apply List.map_congr_left
      intro r hr
      have hne : r.pk ≠ row.pk := fun heq => hfresh (heq ▸ mem_map_of_mem hr)
      simp [redact, hne]

def written (value : Bytes) (version : Int) (now : Nat) : Redacted :=
  ⟨pk, version, value.length, now, if isSecret pk.ns then none else some value⟩

def putRow (new : Redacted) (rows : List Redacted) : List Redacted :=
  if (rows.find? (·.pk = new.pk)).isSome then rows.map fun v => if v.pk = new.pk then new else v
  else new :: rows

def State.current : Int := ((s.table.select pk).map Row.version).getD 0

theorem write_spec (ctx : Ctx) (pk : RowKey) (value : Bytes) (expected : Int)
    (hfault : ctx.fault = false) :
    (expected ≠ s.current pk → write s ctx pk value expected = (.error .versionConflict, s)) ∧
    (expected = s.current pk →
      (write s ctx pk value expected).1 = .ok (nextVersion (s.current pk)) ∧
      (write s ctx pk value expected).2.view =
        putRow (written pk value (nextVersion (s.current pk)) ctx.now) s.view) := by
  have hfound : (s.view.find? (·.pk = pk)).isSome = (s.table.select pk).isSome := by
    rw [← select_view, isSome_map]
  unfold write Repo.write
  rw [hfault]
  constructor
  · intro hne
    simp only [Bool.false_eq_true, if_false]
    rw [if_pos (show expected ≠ ((s.table.select pk).map Row.version).getD 0 from hne)]
  · intro heq
    simp only [Bool.false_eq_true, if_false]
    rw [if_neg (not_not_intro (show expected = ((s.table.select pk).map Row.version).getD 0 from heq))]
    unfold putRow written
    rw [hfound]
    cases hrow : s.table.select pk with
    | some =>
      simp only [isSome_some, if_true]
      refine ⟨by simp [current, hrow], ?_⟩
      rw [view_update]
      simp [current, hrow]
    | none =>
      -- the key is free, so the insertion succeeds
      obtain ⟨table, hinsert⟩ : ∃ table, s.table.insert ⟨pk, value, nextVersion 0⟩ = some table := by
        unfold Table.insert
        rw [dif_neg (select_eq_none_iff.1 hrow)]
        exact ⟨_, rfl⟩
      simp only [isSome_none, Bool.false_eq_true, if_false, map_none, getD_none, hinsert]
      refine ⟨by simp [current, hrow], ?_⟩
      rw [view_insert ctx.now hinsert]
      simp [current, hrow]

theorem write_alike (ctx : Ctx) (pk : RowKey) (value : Bytes) (expected : Int) (h : Alike s₁ s₂) :
    AlikeResults (write s₁ ctx pk value expected) (write s₂ ctx pk value expected) := by
  have hcurrent : s₁.current pk = s₂.current pk := by
    unfold current
    rw [version_alike h pk]
  cases hfault : ctx.fault with
  | true => simp [AlikeResults, write, hfault, h]
  | false =>
    obtain ⟨hne₁, heq₁⟩ := write_spec s₁ ctx pk value expected hfault
    obtain ⟨hne₂, heq₂⟩ := write_spec s₂ ctx pk value expected hfault
    by_cases hexpected : expected = s₁.current pk
    · obtain ⟨hok₁, hview₁⟩ := heq₁ hexpected
      obtain ⟨hok₂, hview₂⟩ := heq₂ (hexpected.trans hcurrent)
      unfold AlikeResults Alike
      rw [hok₁, hok₂, hview₁, hview₂, hcurrent, h]
      exact ⟨rfl, rfl⟩
    · rw [hne₁ hexpected, hne₂ (hcurrent ▸ hexpected)]
      exact ⟨rfl, h⟩

theorem deleteWhere_alike (q : Redacted → Bool) {p : Row → Bool}
    (hp : ∀ u r, q (redact u r) = p r) (h : Alike s₁ s₂) :
    (s₁.table.deleteWhere p).1 = (s₂.table.deleteWhere p).1 ∧
      Alike ⟨(s₁.table.deleteWhere p).2, s₁.updatedAt⟩ ⟨(s₂.table.deleteWhere p).2, s₂.updatedAt⟩ := by
  have hcount : ∀ s : State, (s.table.deleteWhere p).1 = s.view.countP q := by
    intro s
    unfold view
    rw [countP_map]
    exact countP_congr fun r _ => by rw [comp_apply, hp]
  have hview : ∀ s : State, view ⟨(s.table.deleteWhere p).2, s.updatedAt⟩ =
      s.view.filter (!q ·) := by
    intro s
    unfold view deleteWhere
    rw [List.filter_map]
    congr 1
    apply filter_congr
    intro r _
    rw [comp_apply, hp]
  unfold Alike
  rw [hcount, hcount, hview, hview, h]
  exact ⟨rfl, rfl⟩

theorem delete_alike (ctx : Ctx) (pk : RowKey) (expected : Int) (h : Alike s₁ s₂) :
    AlikeResults (delete s₁ ctx pk expected) (delete s₂ ctx pk expected) := by
  have hkeyed := deleteWhere_alike (p := Repo.keyed pk) (·.pk = pk) (fun _ _ => rfl) h
  have hkeyedAt := deleteWhere_alike (p := Repo.keyedAt pk expected)
    (fun v => v.pk = pk ∧ v.version = expected) (fun _ _ => rfl) h
  have hsome : (Repo.get s₁.table pk).isSome = (Repo.get s₂.table pk).isSome := by
    simpa [Repo.get] using congrArg Option.isSome (version_alike h pk)
  unfold delete
  cases ctx.fault with
  | true => exact ⟨rfl, h⟩
  | false =>
    unfold Repo.delete
    by_cases hzero : expected = 0
    · rw [if_pos hzero, if_pos hzero]
      exact ⟨rfl, hkeyed.2⟩
    · rw [if_neg hzero, if_neg hzero]
      simp only [hkeyedAt.1, hsome]
      by_cases haffected : (s₂.table.deleteWhere (Repo.keyedAt pk expected)).1 = 0
      · rw [if_pos haffected, if_pos haffected]
        cases (Repo.get s₂.table pk).isSome <;> exact ⟨rfl, hkeyedAt.2⟩
      · rw [if_neg haffected, if_neg haffected]
        exact ⟨rfl, hkeyedAt.2⟩

variable (collate : String → String → Bool)

theorem list_alike (ctx : Ctx) (id ns : String)
    (h : Alike s₁ s₂) : list collate s₁ ctx id ns = list collate s₂ ctx id ns := by
  have hlisted : ∀ s : State,
      ((s.table.rows.filter fun r => r.pk.deploymentID = id ∧ r.pk.ns = ns).map fun r =>
        (⟨r.pk.key, r.version, r.value.length, s.updatedAt r.pk⟩ : Listed)) =
      (s.view.filter fun v => v.pk.deploymentID = id ∧ v.pk.ns = ns).map fun v =>
        ⟨v.pk.key, v.version, v.size, v.updatedAt⟩ := by
    intro s
    unfold view
    rw [List.filter_map, List.map_map]
    rfl
  unfold list
  simp only [hlisted]
  rw [h]

theorem listNamespaces_alike (ctx : Ctx) (id : String)
    (h : Alike s₁ s₂) : listNamespaces collate s₁ ctx id = listNamespaces collate s₂ ctx id := by
  have hnames : ∀ s : State,
      ((s.table.rows.filter fun r => r.pk.deploymentID = id).map fun r => r.pk.ns) =
      (s.view.filter fun v => v.pk.deploymentID = id).map fun v => v.pk.ns := by
    intro s
    unfold view
    rw [List.filter_map, List.map_map]
    rfl
  unfold listNamespaces
  simp only [hnames]
  rw [h]

/-! ## The browser -/

theorem plain_of_objectNamespace {ns target : String} (h : objectNamespace ns false = .ok target) :
    isSecret target = false := by
  unfold objectNamespace at h
  split at h
  · cases h
    decide
  · split at h
    · cases h
    next hplain =>
      cases h
      simpa using hplain

theorem AlikeResults.respond {ρ : Type} {x y : Except StoreError ρ × State} (h : AlikeResults x y)
    (ok : ρ → Response) : AlikeResults (Objects.respond ok x) (Objects.respond ok y) := by
  obtain ⟨r₁, t₁⟩ := x
  obtain ⟨r₂, t₂⟩ := y
  obtain ⟨hanswer, halike⟩ := h
  cases hanswer
  cases r₁ <;> exact ⟨rfl, halike⟩

theorem servePut_alike (cipher : Option Cipher) (id : String) (ctx : Ctx)
    (ns key body : String) (h : Alike s₁ s₂) :
    AlikeResults (servePut lib cipher s₁ id ctx ns key body)
      (servePut lib cipher s₂ id ctx ns key body) := by
  unfold servePut
  cases hns : objectNamespace ns false with
  | error => exact ⟨rfl, h⟩
  | ok target =>
    cases lib.decodeJSON body with
    | none => exact ⟨rfl, h⟩
    | some req =>
      cases hvalue : decodeValue req.value req.encoding with
      | none =>
        simp only [hvalue]
        exact ⟨rfl, h⟩
      | some value =>
        have hwrite := write_alike ctx ⟨id, target, key⟩ value req.version h
        simp only [hvalue, set, plain_of_objectNamespace hns]
        exact hwrite.respond _

theorem serveDelete_alike (id : String) (ctx : Ctx) (ns key version : String)
    (h : Alike s₁ s₂) : AlikeResults (serveDelete lib s₁ id ctx ns key version)
      (serveDelete lib s₂ id ctx ns key version) := by
  unfold serveDelete
  cases objectNamespace ns true with
  | error => exact ⟨rfl, h⟩
  | ok target =>
    cases versionQuery lib version with
    | none => exact ⟨rfl, h⟩
    | some expected =>
      have hdelete := delete_alike ctx ⟨id, target, key⟩ expected h
      exact hdelete.respond _

/-- **One request tells nothing**: the response is the same and the stores stay alike. -/
theorem serve_alike (cipher : Option Cipher) (r : Request) (h : Alike s₁ s₂) :
    AlikeResults (serve lib cipher s₁ r) (serve lib cipher s₂ r) := by
  obtain ⟨id, ctx, call⟩ := r
  cases call with
  | namespaces =>
    refine ⟨?_, h⟩
    show serveNamespaces lib s₁ id ctx = serveNamespaces lib s₂ id ctx
    unfold serveNamespaces
    rw [listNamespaces_alike lib.collate ctx id h]
  | list ns =>
    refine ⟨?_, h⟩
    show serveList lib s₁ id ctx ns = serveList lib s₂ id ctx ns
    unfold serveList
    cases objectNamespace ns true with
    | error => rfl
    | ok target => simp [list_alike lib.collate ctx id target h]
  | get ns key =>
    refine ⟨?_, h⟩
    show serveGet cipher s₁ id ctx ns key = serveGet cipher s₂ id ctx ns key
    unfold serveGet
    cases hns : objectNamespace ns false with
    | error => rfl
    | ok target =>
      have hplain : isSecret (RowKey.mk id target key).ns = false := plain_of_objectNamespace hns
      simp [get_alike cipher ctx h hplain]
  | put ns key body => exact servePut_alike lib cipher id ctx ns key body h
  | delete ns key version => exact serveDelete_alike lib id ctx ns key version h

theorem responses_alike (lib : Lib) (cipher : Option Cipher) :
    ∀ {s₁ s₂ : State} (requests : List Request), Alike s₁ s₂ →
      responses lib cipher s₁ requests = responses lib cipher s₂ requests
  | _, _, [], _ => rfl
  | s₁, s₂, r :: rest, h => by
    obtain ⟨hresponse, hnext⟩ := serve_alike lib cipher r h
    rw [responses, responses, hresponse, responses_alike lib cipher rest hnext]

/-- **The object browser reveals no secret.** Stores that differ only in plaintexts of the same
length in secret namespaces answer every sequence of requests alike. -/
theorem browser_reveals_no_secret (lib : Lib) (cipher : Option Cipher) (c : Cipher) {s₁ s₂ : State}
    (h : SameButSecrets c s₁ s₂) (requests : List Request) :
    responses lib cipher s₁ requests = responses lib cipher s₂ requests :=
  responses_alike lib cipher requests h.alike

def tokenStore (token : Bytes) : State where
  table := ⟨[⟨⟨"d1", "user_secrets", "token"⟩, token, 3⟩, ⟨⟨"d1", "user", "greeting"⟩, [104, 105], 1⟩],
    by simp⟩
  updatedAt := fun _ => 7

/-- A cipher that adds the nonce to every byte and sends it ahead. -/
def shiftCipher : Cipher where
  encrypt nonce plaintext := nonce.headD 0 :: plaintext.map (· + nonce.headD 0)
  decrypt
    | [] => none
    | nonce :: ciphertext => some (ciphertext.map (· - nonce))
  sealedLength n := n + 1
  encrypt_length := by simp

def asciiLib : Lib where
  collate a b := a ≤ b
  decodeJSON body := some ⟨"greeting", body, "utf8", 1⟩
  parseInt := String.toInt?

def browse : List Request := let ctx : Ctx := ⟨9, false, none⟩
  [⟨"d1", ctx, .list "user_secrets"⟩, ⟨"d1", ctx, .get "user_secrets" "token"⟩,
    ⟨"d1", ctx, .put "user_secrets" "token" "x"⟩, ⟨"d1", ctx, .put "" "greeting" "hello"⟩,
    ⟨"d1", ctx, .get "" "greeting"⟩,
    ⟨"d1", ctx, .delete "user_secrets" "token" "3"⟩, ⟨"d1", ctx, .list "user_secrets"⟩]

theorem browse_reveals_no_token :
    responses asciiLib (some shiftCipher) (tokenStore (shiftCipher.encrypt [4] [1, 2])) browse =
      responses asciiLib (some shiftCipher) (tokenStore (shiftCipher.encrypt [6] [8, 5])) browse := by
  refine browser_reveals_no_secret asciiLib (some shiftCipher) shiftCipher ?_ browse
  refine .cons ⟨rfl, rfl, rfl, by decide, fun _ => ?_⟩ (.cons ⟨rfl, rfl, rfl, fun _ => rfl, ?_⟩ .nil)
  · exact ⟨[4], [6], [1, 2], [8, 5], rfl, rfl, rfl⟩
  · intro h
    exact absurd h (by decide)

/-! ## Editing without changes -/

theorem bytes_of_utf8 {value : Bytes} {text : String} (h : utf8 value = some text) :
    bytes text = value := by
  simp only [utf8, String.fromUTF8?] at h
  split at h
  · cases h
    rfl
  · cases h

theorem decodeValue_objectOf (key : String) (e : Entry) :
    decodeValue (objectOf key e).value (objectOf key e).encoding = some e.value := by
  unfold objectOf decodeValue
  cases htext : utf8 e.value with
  | some text => simp [bytes_of_utf8 htext]
  | none => simp [Base64.decode_encode]

/-- **An object that is put back as it was got keeps its bytes**, in a plain namespace and with no
other writer. -/
theorem put_back_keeps_bytes (lib : Lib) (cipher : Option Cipher) (s : State)
    (id ns target key : String) (ctx ctx' : Ctx) (e : Entry)
    (hns : objectNamespace ns false = .ok target)
    (hstored : Repo.get s.table ⟨id, target, key⟩ = some e)
    (hctx : ctx.fault = false) (hctx' : ctx'.fault = false) :
    ∃ o, serveGet cipher s id ctx ns key = ⟨200, some (.object o)⟩ ∧
      ∀ body req, lib.decodeJSON body = some req → req.value = o.value →
        req.encoding = o.encoding → req.version = o.version →
        ∃ s', servePut lib cipher s id ctx' ns key body =
            (⟨200, some (.version (nextVersion e.version))⟩, s') ∧
          Repo.get s'.table ⟨id, target, key⟩ = some ⟨e.value, nextVersion e.version⟩ := by
  have hplain := plain_of_objectNamespace hns
  refine ⟨objectOf key e, ?_, fun body req hbody hvalue hencoding hversion => ?_⟩
  · simp [serveGet, hns, get, hctx, hstored, hplain]
  · have hcurrent : req.version = e.version := by
      rw [hversion]
      unfold objectOf
      split <;> rfl
    have hset : (Repo.view id s.table).version target key = e.version := by
      rw [Keyspace.version, Repo.view, hstored]
      rfl
    have hwrite := Repo.write_sim id s.table target key e.value e.version
    rcases hw : Repo.write s.table ⟨id, target, key⟩ e.value e.version with ⟨result, table⟩
    rw [hw, Keyspace.set, hset, if_neg (by simp), Prod.mk.injEq] at hwrite
    obtain ⟨rfl, hview⟩ := hwrite
    refine ⟨⟨table, update s.updatedAt ⟨id, target, key⟩ ctx'.now⟩, ?_, ?_⟩
    · simp [servePut, hns, hbody, hvalue, hencoding, decodeValue_objectOf, hcurrent, set,
        hplain, write, hctx', hw, respond]
    · exact (congrFun (congrFun hview target) key).trans (Keyspace.put_self _)

/-- A plain greeting and an icon whose bytes are no text. -/
def mixedStore : State where
  table := ⟨[⟨⟨"d1", "user", "greeting"⟩, [104, 105], 1⟩, ⟨⟨"d1", "user", "icon"⟩, [255, 216], 4⟩],
    by simp⟩
  updatedAt := fun _ => 7

/-- Request bodies `greeting` and `icon` stand for the JSON that puts the two objects back. -/
def sameLib : Lib := { asciiLib with
    decodeJSON := fun body =>
      if body = "greeting" then some ⟨"greeting", "hi", "utf8", 1⟩
      else if body = "icon" then some ⟨"icon", "/9g=", "base64", 4⟩
      else none }

theorem mixedStore_kept :
    (∃ s', servePut sameLib none mixedStore "d1" ⟨9, false, none⟩ "" "greeting" "greeting" =
        (⟨200, some (.version 2)⟩, s') ∧
      Repo.get s'.table ⟨"d1", "user", "greeting"⟩ = some ⟨[104, 105], 2⟩) ∧
    ∃ s', servePut sameLib none mixedStore "d1" ⟨9, false, none⟩ "" "icon" "icon" =
        (⟨200, some (.version 5)⟩, s') ∧
      Repo.get s'.table ⟨"d1", "user", "icon"⟩ = some ⟨[255, 216], 5⟩ := by
  constructor
  · obtain ⟨o, hget, hput⟩ := put_back_keeps_bytes sameLib none mixedStore "d1" "" "user" "greeting"
      ⟨8, false, none⟩ ⟨9, false, none⟩ ⟨[104, 105], 1⟩ rfl (by decide) rfl rfl
    cases hget
    exact hput "greeting" _ rfl (by decide) rfl rfl
  · obtain ⟨o, hget, hput⟩ := put_back_keeps_bytes sameLib none mixedStore "d1" "" "user" "icon"
      ⟨8, false, none⟩ ⟨9, false, none⟩ ⟨[255, 216], 4⟩ rfl (by decide) rfl rfl
    cases hget
    exact hput "icon" _ rfl (by decide) rfl rfl

end Octo.Kv.Objects
