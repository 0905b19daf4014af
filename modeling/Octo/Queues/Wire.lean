import Mathlib.Data.List.AList
import Octo.Engine.Builder

/-!
# Messages on the queues

A message enters a queue of the standalone services as its `Clone` (`types/message.go`), and a queue
of the cluster services as a broker message that `encodeMsg` writes and `decodeMsg` reads
(`services/k8s/queues.go`): the body is the payload, the ids and the variables are headers.

* `survives_iff` — a message survives the cluster queue as it survives the standalone one exactly
  when it carries no body schema.
* `schema_is_lost` — a message whose schema does not arrive.
-/

namespace Octo.Queues

open List AList
open Octo.Engine (quoted)
open Octo.Foundation.Traverse

abbrev GoMap (V : Type) := AList fun _ : String => V

/-- What `encoding/json` does to the Go values `V`: the values that decoding gives are encoded to a
text that decodes to them again, and no value has an empty text. -/
structure Json (V : Type) where
  null : V
  IsJSON : V → Prop
  marshal : V → Except String String
  unmarshal : String → Except String V
  null_isJSON : IsJSON null
  unmarshal_marshal : ∀ v, IsJSON v → ∃ raw, marshal v = .ok raw ∧ unmarshal raw = .ok v
  unmarshal_empty : ∀ v, unmarshal "" ≠ .ok v

structure Message (V : Type) where
  eventID : String
  correlationID : String
  vars : GoMap V
  body : V
  bodySchema : String

section

variable {V : Type}

/-- The two messages are equal; maps are equal when they hold the same values. -/
structure Message.Same (m n : Message V) : Prop where
  eventID : m.eventID = n.eventID
  correlationID : m.correlationID = n.correlationID
  vars : ∀ name, m.vars.lookup name = n.vars.lookup name
  body : m.body = n.body
  bodySchema : m.bodySchema = n.bodySchema

structure Message.IsJSON (json : Json V) (m : Message V) : Prop where
  body : json.IsJSON m.body
  vars : ∀ e ∈ m.vars.entries, json.IsJSON e.2

def Message.clone [DecidableEq V] (json : Json V) (m : Message V) : Message V :=
  if m.body = json.null then m
  else
    match json.marshal m.body with
    | .error _ => m
    | .ok raw =>
      match json.unmarshal raw with
      | .error _ => m
      | .ok decoded => { m with body := decoded }

/-! ## The wire form -/

/-- `nats.Msg`. -/
structure NatsMsg where
  subject : String
  data : String
  header : GoMap (List String)

def headerVarPrefix : String := "Octo-Var-"

def headerEventID : String := "Octo-Event-Id"

def headerCorrelationID : String := "Octo-Correlation-Id"

variable (header : GoMap (List String))

def headerSet (key value : String) : GoMap (List String) :=
  header.insert key [value]

def headerGet (key : String) : String :=
  ((header.lookup key).bind List.head?).getD ""

/-- A reserved header of `encodeMsg`, left out when the id is empty. -/
def setId (key id : String) : GoMap (List String) :=
  if id ≠ "" then headerSet header key id else header

/-- The header of one variable in `encodeMsg`. -/
def encodeVar (json : Json V) (header : GoMap (List String)) (e : Sigma fun _ : String => V) :
    Except String (GoMap (List String)) := do
  let encoded ← (json.marshal e.2).mapError fun err =>
    "queues: encode var " ++ quoted e.1 ++ ": " ++ err
  return headerSet header (headerVarPrefix ++ e.1) encoded

variable (json : Json V)

def encodeMsg (subject : String) (msg : Message V) : Except String NatsMsg := do
  let data ← (json.marshal msg.body).mapError fun err => "queues: encode body: " ++ err
  let header := setId (setId ∅ headerEventID msg.eventID) headerCorrelationID msg.correlationID
  let header ← msg.vars.entries.foldlM (encodeVar json) header
  return ⟨subject, data, header⟩

/-- The variable a header key stands for: `strings.HasPrefix` and `strings.TrimPrefix`. -/
def varName (key : String) : Option String := if headerVarPrefix.toList.isPrefixOf key.toList then
    some (String.ofList (key.toList.drop headerVarPrefix.toList.length))
  else none

/-- One header of `decodeMsg`. -/
def decodeVar (vars : GoMap V) (e : Sigma fun _ : String => List String) :
    Except String (GoMap V) :=
  match varName e.1, e.2 with
  | some name, value :: _ => do
    let v ← (json.unmarshal value).mapError fun err =>
      "queues: decode var " ++ quoted name ++ ": " ++ err
    return vars.insert name v
  | _, _ => .ok vars

def decodeMsg (m : NatsMsg) : Except String (Message V) := do
  let body ←
    if m.data ≠ "" then (json.unmarshal m.data).mapError fun err => "queues: decode body: " ++ err
    else .ok json.null
  let vars ← m.header.entries.foldlM (decodeVar json) ∅
  return ⟨headerGet m.header headerEventID, headerGet m.header headerCorrelationID, vars, body,
    ""⟩

/-! ## What encoding writes -/

theorem varName_append (name : String) : varName (headerVarPrefix ++ name) = some name := by
  unfold varName
  simp

variable {key : String} {header : GoMap (List String)} {msg : Message V} {name : String}

theorem eq_of_varName (h : varName key = some name) :
    key = headerVarPrefix ++ name := by
  unfold varName at h
  split at h
  next hpre =>
    obtain ⟨rest, hrest⟩ := isPrefixOf_iff_prefix.1 hpre
    cases h
    apply String.toList_injective
    simp [← hrest]
  · cases h

@[simp] theorem varName_headerEventID : varName headerEventID = none := by decide

@[simp] theorem varName_headerCorrelationID : varName headerCorrelationID = none := by decide

theorem append_ne_reserved (h : varName key = none) :
    headerVarPrefix ++ name ≠ key := by
  rintro rfl
  rw [varName_append] at h
  cases h

def Reads (values : List String) (v : V) : Prop :=
  ∃ raw, values = [raw] ∧ json.unmarshal raw = .ok v

theorem foldlM_encodeVar (json : Json V) :
    ∀ (entries : List (Sigma fun _ : String => V)) (header : GoMap (List String)),
      entries.NodupKeys → (∀ e ∈ entries, json.IsJSON e.2) →
      ∃ header', entries.foldlM (encodeVar json) header = .ok header' ∧
        (∀ e ∈ entries, ∃ values, header'.lookup (headerVarPrefix ++ e.1) = some values ∧
          Reads json values e.2) ∧ ∀ key, (∀ e ∈ entries, key ≠ headerVarPrefix ++ e.1) →
          header'.lookup key = header.lookup key
  | [], header, _, _ => ⟨header, rfl, by simp, fun _ _ => rfl⟩
  | e :: entries, header, hnd, hjson => by
    obtain ⟨raw, hraw, hread⟩ := json.unmarshal_marshal e.2 (hjson e mem_cons_self)
    obtain ⟨hnot, hnd⟩ := nodupKeys_cons.1 hnd
    obtain ⟨header', hfold, hvars, hrest⟩ := foldlM_encodeVar json entries
      (headerSet header (headerVarPrefix ++ e.1) raw) hnd
      fun d hd => hjson d (mem_cons_of_mem _ hd)
    -- No later variable has this one's name, so its header stays.
    have hkeep : header'.lookup (headerVarPrefix ++ e.1) = some [raw] := by
      rw [hrest]
      · exact lookup_insert _
      · intro d hd heq
        have hname : e.1 = d.1 := by simpa using heq
        exact hnot (hname ▸ mem_map_of_mem hd)
    refine ⟨header', ?_, ?_, ?_⟩
    · rw [foldlM_cons, encodeVar, hraw]
      exact hfold
    · intro d hd
      rcases mem_cons.1 hd with rfl | hd
      · exact ⟨[raw], hkeep, raw, rfl, hread⟩
      · exact hvars d hd
    · intro key hkey
      rw [hrest key fun d hd => hkey d (mem_cons_of_mem _ hd)]
      exact lookup_insert_ne (hkey e mem_cons_self)

theorem lookup_setId_ne {k id : String} (h : key ≠ k) :
    (setId header k id).lookup key = header.lookup key := by
  unfold setId
  split
  · exact lookup_insert_ne h
  · rfl

theorem headerGet_setId {id : String} (h : header.lookup key = none) :
    headerGet (setId header key id) key = id := by
  unfold setId headerGet
  split
  · rw [headerSet, lookup_insert]
    rfl
  next hid =>
    rw [h, not_not.1 hid]
    rfl

/-- The broker message holds the body, the ids and the variables of the message, and no other
variable. -/
structure Carries (json : Json V) (msg : Message V) (m : NatsMsg) : Prop where
  body : json.unmarshal m.data = .ok msg.body
  eventID : headerGet m.header headerEventID = msg.eventID
  correlationID : headerGet m.header headerCorrelationID = msg.correlationID
  vars : ∀ e ∈ msg.vars.entries, ∃ values,
    m.header.lookup (headerVarPrefix ++ e.1) = some values ∧ Reads json values e.2
  only : ∀ name, headerVarPrefix ++ name ∈ m.header → name ∈ msg.vars

/-- **Encoding.** A message of JSON values is encoded, to a broker message that carries it. -/
theorem encodeMsg_spec (subject : String) (hjson : msg.IsJSON json) :
    ∃ m, encodeMsg json subject msg = .ok m ∧ Carries json msg m := by
  obtain ⟨data, hdata, hbody⟩ := json.unmarshal_marshal msg.body hjson.body
  obtain ⟨header, hfold, hvars, hrest⟩ := foldlM_encodeVar json msg.vars.entries
    (setId (setId ∅ headerEventID msg.eventID) headerCorrelationID msg.correlationID)
    msg.vars.nodupKeys hjson.vars
  -- A reserved header is no variable's, so it is as the ids left it.
  have hreserved : ∀ key, varName key = none → header.lookup key =
      (setId (setId ∅ headerEventID msg.eventID) headerCorrelationID msg.correlationID).lookup
        key := by
    intro key hkey
    exact hrest key fun e _ => (append_ne_reserved hkey).symm
  refine ⟨⟨subject, data, header⟩, ?_, hbody, ?_, ?_, hvars, ?_⟩
  · refine bind_eq_ok.2 ⟨data, ?_, bind_eq_ok.2 ⟨header, hfold, rfl⟩⟩
    rw [hdata]
    rfl
  · have hget : headerGet (setId ∅ headerEventID msg.eventID) headerEventID = msg.eventID :=
      headerGet_setId (lookup_empty _)
    rw [headerGet, hreserved _ varName_headerEventID, lookup_setId_ne (by decide)]
    exact hget
  · have hget : headerGet (setId (setId ∅ headerEventID msg.eventID) headerCorrelationID
        msg.correlationID) headerCorrelationID = msg.correlationID :=
      headerGet_setId ((lookup_setId_ne (by decide)).trans (lookup_empty _))
    rw [headerGet, hreserved _ varName_headerCorrelationID]
    exact hget
  · intro name hmem
    by_contra hname
    have hlookup : header.lookup (headerVarPrefix ++ name) = none := by
      rw [hrest, lookup_setId_ne (append_ne_reserved varName_headerCorrelationID),
        lookup_setId_ne (append_ne_reserved varName_headerEventID), lookup_empty]
      intro e he heq
      have : name = e.1 := by simpa using heq
      exact hname (this ▸ mem_map_of_mem he)
    exact lookup_eq_none.1 hlookup hmem

/-! ## What decoding reads -/

theorem foldlM_decodeVar (json : Json V) :
    ∀ (entries : List (Sigma fun _ : String => List String)) (vars : GoMap V), entries.NodupKeys →
      (∀ e ∈ entries, ∀ name, varName e.1 = some name → ∃ v, Reads json e.2 v) →
      ∃ vars', entries.foldlM (decodeVar json) vars = .ok vars' ∧
        (∀ e ∈ entries, ∀ name, varName e.1 = some name → ∀ v, Reads json e.2 v →
          vars'.lookup name = some v) ∧
        ∀ name, (∀ e ∈ entries, varName e.1 ≠ some name) → vars'.lookup name = vars.lookup name
  | [], vars, _, _ => ⟨vars, rfl, by simp, fun _ _ => rfl⟩
  | e :: entries, vars, hnd, hreads => by
    obtain ⟨hnot, hnd⟩ := nodupKeys_cons.1 hnd
    have hreads' := fun d hd => hreads d (mem_cons_of_mem _ hd)
    cases hname : varName e.1 with
    | none =>
      obtain ⟨vars', hfold, hvars, hrest⟩ := foldlM_decodeVar json entries vars hnd hreads'
      refine ⟨vars', ?_, ?_, fun name h => hrest name fun d hd => h d (mem_cons_of_mem _ hd)⟩
      · rw [foldlM_cons, decodeVar, hname]
        exact hfold
      · intro d hd name hd'
        rcases mem_cons.1 hd with rfl | hd
        · rw [hname] at hd'
          cases hd'
        · exact hvars d hd name hd'
    | some name =>
      obtain ⟨v, raw, hraw, hread⟩ := hreads e mem_cons_self name hname
      obtain ⟨vars', hfold, hvars, hrest⟩ :=
        foldlM_decodeVar json entries (vars.insert name v) hnd hreads'
      -- Two headers of one variable would be one key.
      have hother : ∀ d ∈ entries, varName d.1 ≠ some name := by
        intro d hd heq
        have hkey : e.1 = d.1 := (eq_of_varName hname).trans (eq_of_varName heq).symm
        exact hnot (hkey ▸ mem_map_of_mem hd)
      refine ⟨vars', ?_, ?_, ?_⟩
      · rw [foldlM_cons, decodeVar, hname, hraw]
        dsimp only
        rw [hread]
        exact hfold
      · intro d hd n hd' w hw
        rcases mem_cons.1 hd with rfl | hd
        · cases hname.symm.trans hd'
          obtain ⟨raw', hraw', hread'⟩ := hw
          cases hraw.symm.trans hraw'
          cases hread.symm.trans hread'
          rw [hrest name hother]
          exact lookup_insert _
        · exact hvars d hd n hd' w hw
      · intro n hn
        rw [hrest n fun d hd => hn d (mem_cons_of_mem _ hd)]
        refine lookup_insert_ne ?_
        rintro rfl
        exact hn e mem_cons_self hname

variable {json : Json V}

theorem Carries.lookup {m : NatsMsg} (hm : Carries json msg m)
    (hperm : header.entries.Perm m.header.entries) {values : List String}
    (hmem : ⟨headerVarPrefix ++ name, values⟩ ∈ header.entries) :
    ∃ v, msg.vars.lookup name = some v ∧ Reads json values v := by
  have hlookup : m.header.lookup (headerVarPrefix ++ name) = some values := by
    rw [← perm_lookup hperm]
    exact mem_lookup_iff.2 hmem
  have hname : name ∈ msg.vars := hm.only name (lookup_isSome.1 (by rw [hlookup]; rfl))
  obtain ⟨v, hv⟩ := Option.isSome_iff_exists.1 (lookup_isSome.2 hname)
  obtain ⟨values', hvalues, hreads⟩ := hm.vars ⟨name, v⟩ (mem_lookup_iff.1 hv)
  cases hlookup.symm.trans hvalues
  exact ⟨v, hv, hreads⟩

/-- **Decoding** reads back what a broker message carries, in whatever order the header map is
walked. -/
theorem decodeMsg_spec {m : NatsMsg} (hm : Carries json msg m)
    (header : GoMap (List String)) (hperm : header.entries.Perm m.header.entries) :
    ∃ out, decodeMsg json { m with header := header } = .ok out ∧
      out.Same { msg with bodySchema := "" } := by
  have hdata : m.data ≠ "" := by
    intro h
    have hbody := hm.body
    rw [h] at hbody
    exact json.unmarshal_empty _ hbody
  have hreads : ∀ e ∈ header.entries, ∀ name, varName e.1 = some name → ∃ v, Reads json e.2 v := by
    rintro ⟨key, values⟩ he name hname
    cases eq_of_varName hname
    obtain ⟨v, -, hv⟩ := hm.lookup hperm he
    exact ⟨v, hv⟩
  obtain ⟨vars, hfold, hvars, hrest⟩ :=
    foldlM_decodeVar json header.entries ∅ header.nodupKeys hreads
  have hget : ∀ key, headerGet header key = headerGet m.header key := by
    intro key
    rw [headerGet, perm_lookup hperm]
    rfl
  refine ⟨⟨headerGet header headerEventID, headerGet header headerCorrelationID, vars, msg.body,
    ""⟩, ?_, (hget _).trans hm.eventID, (hget _).trans hm.correlationID, ?_, rfl, rfl⟩
  · unfold decodeMsg
    rw [if_pos hdata, hm.body]
    exact bind_eq_ok.2 ⟨msg.body, rfl, bind_eq_ok.2 ⟨vars, hfold, rfl⟩⟩
  · intro name
    cases hv : msg.vars.lookup name with
    | some v =>
      obtain ⟨values, hvalues, hread⟩ := hm.vars ⟨name, v⟩ (mem_lookup_iff.1 hv)
      rw [← perm_lookup hperm] at hvalues
      exact hvars _ (mem_lookup_iff.1 hvalues) name (varName_append name) v hread
    | none =>
      rw [hrest name, lookup_empty]
      rintro ⟨key, values⟩ he hname
      cases eq_of_varName hname
      obtain ⟨v, hsome, -⟩ := hm.lookup hperm he
      rw [hv] at hsome
      cases hsome

/-! ## Both queues -/

theorem clone_eq [DecidableEq V] (hjson : msg.IsJSON json) :
    msg.clone json = msg := by
  obtain ⟨raw, hraw, hread⟩ := json.unmarshal_marshal msg.body hjson.body
  unfold Message.clone
  split
  · rfl
  · rw [hraw]
    dsimp only
    rw [hread]

def Survives [DecidableEq V] (json : Json V) (subject : String) (msg : Message V) : Prop :=
  ∃ m, encodeMsg json subject msg = .ok m ∧
    ∀ header : GoMap (List String), header.entries.Perm m.header.entries →
      ∃ out, decodeMsg json { m with header := header } = .ok out ∧ out.Same (msg.clone json)

/-- **Both queues deliver the same message.** -/
theorem survives_iff [DecidableEq V] (json : Json V) (subject : String) (msg : Message V)
    (hjson : msg.IsJSON json) : Survives json subject msg ↔ msg.bodySchema = "" := by
  obtain ⟨m, hm, hcarries⟩ := encodeMsg_spec json subject hjson
  unfold Survives
  rw [clone_eq hjson]
  constructor
  · rintro ⟨m', hm', hdecode⟩
    cases hm.symm.trans hm'
    obtain ⟨out, hout, hsame⟩ := hdecode m.header (List.Perm.refl _)
    obtain ⟨out', hout', hsame'⟩ := decodeMsg_spec hcarries m.header (List.Perm.refl _)
    cases hout.symm.trans hout'
    exact hsame.bodySchema.symm.trans hsame'.bodySchema
  · intro hschema
    refine ⟨m, hm, fun header hperm => ?_⟩
    obtain ⟨out, hout, hsame⟩ := decodeMsg_spec hcarries header hperm
    refine ⟨out, hout, ?_⟩
    rwa [← hschema] at hsame

end

/-! ## A message with a schema -/

/-- `encoding/json` on `null` and the two truth values. -/
def flagJson : Json (Option Bool) where
  null := none
  IsJSON := fun _ => True
  marshal := fun v => .ok (match v with | none => "null" | some b => toString b)
  unmarshal := fun text =>
    if text = "null" then .ok none
    else if text = "true" then .ok (some true)
    else if text = "false" then .ok (some false)
    else .error "invalid character"
  null_isJSON := trivial
  unmarshal_marshal := by
    intro v _
    refine ⟨_, rfl, ?_⟩
    rcases v with _ | _ | _ <;> rfl
  unmarshal_empty := by simp

def flagged (schema : String) : Message (Option Bool) :=
  ⟨"e1", "", AList.singleton "ok" (some true), some false, schema⟩

theorem flagged_survives : (flagged "").IsJSON flagJson ∧ Survives flagJson "orders" (flagged "") :=
  have hjson : (flagged "").IsJSON flagJson := ⟨trivial, fun _ _ => trivial⟩
  ⟨hjson, (survives_iff flagJson "orders" (flagged "") hjson).2 rfl⟩

theorem schema_is_lost :
    (flagged "\x7b\x7d").IsJSON flagJson ∧
      (flagged "\x7b\x7d").clone flagJson = flagged "\x7b\x7d" ∧
      (encodeMsg flagJson "orders" (flagged "\x7b\x7d") >>= decodeMsg flagJson) =
        .ok (flagged "") :=
  ⟨⟨trivial, fun _ _ => trivial⟩, rfl, rfl⟩

end Octo.Queues
