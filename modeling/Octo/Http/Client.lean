import Octo.Foundation.Trim
import Octo.Config.Types
import Octo.Kv.Store

/-!
# The http-client connector and the rest block

`connectors/httpclient`: `Connector.Do` resolves the URL, layers the default headers and the
authorization under those of the request, and answers a GET from the response cache or fills it; the
`rest` block builds the request from a message and folds the response into it.

`net/url`, `net/http` and `encoding/json` are a parameter, `Net`; so is what the upstream answers.
Header names are the canonical ones, a header has the one value `Set` leaves.
-/

namespace Octo.Http

open Octo.Types (Value)
open Octo.Kv (Bytes)
open Octo.Foundation (trimSpace)

/-! ## Requests and responses -/

structure URL where
  scheme : String := ""
  user : String := ""
  host : String := ""
  path : String := ""
  rawPath : String := ""
  rawQuery : String := ""
  fragment : String := ""
deriving DecidableEq

/-- Canonical name to value; a header set to the empty text is there. -/
abbrev Header := String → Option String

/-- An `http.Response`: reading the body gives these bytes, and then the failure if there is one. -/
structure Response where
  status : Int
  header : List (String × String)
  body : Bytes
  failure : Option String := none
deriving DecidableEq

/-- A response whose body ends after `limit` bytes. -/
def Response.limit (limit : Nat) (r : Response) : Response :=
  if limit ≤ r.body.length then { r with body := r.body.take limit, failure := none } else r

def Response.readAll (r : Response) : Except String Bytes := r.failure.elim (.ok r.body) .error

structure Net where
  /-- `textproto.CanonicalMIMEHeaderKey`. -/
  canonical : String → String
  /-- `url.Parse`. -/
  parse : String → Except String URL
  /-- `URL.String`. -/
  render : URL → String
  /-- `URL.Redacted`. -/
  redacted : URL → String
  /-- `url.Values.Encode`. -/
  encodeQuery : List (String × String) → String
  /-- The value `SetBasicAuth` puts in the `Authorization` header. -/
  basic : String → String → String
  /-- The check of the method in `http.NewRequestWithContext`. -/
  validMethod : String → Bool
  /-- `json.Valid`. -/
  validJSON : Bytes → Bool
  /-- `Message.SetBodyJSON`. -/
  decodeJSON : Bytes → Except String Value
  text : Bytes → String

section Client

variable (net : Net)

/-- The empty text when the header is not there. -/
def Header.get (h : Header) (name : String) : String := (h (net.canonical name)).getD ""

def Header.set (h : Header) (name value : String) : Header :=
  Function.update h (net.canonical name) (some value)

/-! ## Settings -/

/-- The schemes of `authSettings`, with the fields each reads. -/
inductive Auth where
  | none
  | bearer (token : String)
  | basic (username password : String)
  | oauth2
deriving DecidableEq

/-- `responseCache` without its entries; `Start` replaces what is not positive by the defaults. -/
structure CacheConfig where
  ttl : Int
  maxEntries : Nat
  ttl_pos : 0 < ttl
  entries_pos : 0 < maxEntries

/-- Durations are in nanoseconds. -/
structure CacheSettings where
  enabled : Bool := false
  ttl : Int := 0
  maxEntries : Int := 0
deriving DecidableEq

/-- The cache `Start` builds. -/
def CacheSettings.config (c : CacheSettings) : Option CacheConfig :=
  if c.enabled then
    some
      { ttl := if c.ttl ≤ 0 then 60000000000 else c.ttl
        maxEntries := if c.maxEntries ≤ 0 then 256 else c.maxEntries.toNat
        ttl_pos := by split <;> omega
        entries_pos := by split <;> omega }
  else none

/-- A started `Connector`. -/
structure Connector where
  base : URL
  auth : Auth
  headers : List (String × String)
  maxBytes : Nat
  cache : Option CacheConfig

/-! ## Requests through the connector -/

def trimRightSlashes (s : String) : String :=
  String.ofList (s.toList.reverse.dropWhile (· = '/')).reverse

def trimLeftSlashes (s : String) : String := String.ofList (s.toList.dropWhile (· = '/'))

def joinPath (base ref : String) : String :=
  if ref = "" then base
  else if base = "" then ref
  else trimRightSlashes base ++ "/" ++ trimLeftSlashes ref

def Connector.resolveURL (c : Connector) (ref : URL) : URL := { c.base with
    path := joinPath c.base.path ref.path
    rawPath := ""
    rawQuery :=
      if c.base.rawQuery = "" then ref.rawQuery
      else if ref.rawQuery = "" then c.base.rawQuery
      else c.base.rawQuery ++ "&" ++ ref.rawQuery
    fragment := ref.fragment }

/-- The order in which a loop over a Go map visits its entries. -/
structure Visit where
  order : List (String × String) → List (String × String)
  perm : ∀ entries, (order entries).Perm entries

/-- A request handed to `Do`.  `visit` is how its loop goes over the default headers; `token` is
what the token source answers, read under `oauth2` only. -/
structure Call where
  method : String
  url : URL
  header : Header
  visit : Visit
  token : Except String String

def setDefaults (defaults : List (String × String)) (h : Header) : Header :=
  defaults.foldl (fun h d => if h.get net d.1 = "" then h.set net d.1 d.2 else h) h

/-- `Connector.authorize` and `applyAuth`. -/
def Connector.authorize (c : Connector) (h : Header) (token : Except String String) :
    Except String Header :=
  if h.get net "Authorization" ≠ "" then .ok h
  else
    match c.auth with
    | .oauth2 =>
      match token with
      | .ok t => .ok (h.set net "Authorization" ("Bearer " ++ t))
      | .error err => .error ("http-client oauth2: " ++ err)
    | .bearer t => .ok (h.set net "Authorization" ("Bearer " ++ t))
    | .basic username password => .ok (h.set net "Authorization" (net.basic username password))
    | .none => .ok h

structure Prepared where
  url : URL
  header : Header

/-- The part of `Do` before the cache. -/
def Connector.prepare (c : Connector) (call : Call) : Except String Prepared :=
  (c.authorize net (setDefaults net (call.visit.order c.headers) call.header) call.token).map fun h =>
    ⟨c.resolveURL call.url, h⟩

/-! ## The response cache -/

structure CacheEntry where
  status : Int
  header : List (String × String)
  body : Bytes
  expires : Int
deriving DecidableEq

def CacheEntry.response (e : CacheEntry) : Response := ⟨e.status, e.header, e.body, none⟩

abbrev Entries := List (String × CacheEntry)

def Entries.find (entries : Entries) (key : String) : Option CacheEntry :=
  (List.find? (·.1 = key) entries).map Prod.snd

def Entries.erase (entries : Entries) (key : String) : Entries := List.filter (·.1 ≠ key) entries

def Entries.get (entries : Entries) (now : Int) (key : String) : Option CacheEntry × Entries :=
  match entries.find key with
  | none => (none, entries)
  | some e => if now > e.expires then (none, entries.erase key) else (some e, entries)

/-- `responseCache.evictIfFull`; `victim` is the entry a loop over a Go map visits first. -/
def evictIfFull (cfg : CacheConfig) (now : Int) (victim : Nat) (entries : Entries) : Entries :=
  if entries.length < cfg.maxEntries then entries
  else
    let live := entries.filter fun e => ¬now > e.2.expires
    if live.length < cfg.maxEntries then live else live.eraseIdx (victim % live.length)

/-- What a call meets besides its request: the time of the lookup, the time of the write, and which
entry goes when the cache is full. -/
structure Moment where
  lookup : Int
  filled : Int
  victim : Nat

def store (cfg : CacheConfig) (m : Moment) (key : String) (e : CacheEntry) (entries : Entries) :
    Entries :=
  (key, e) :: (evictIfFull cfg m.filled m.victim entries).erase key

-- What the upstream answers a method, URL and headers.
variable (upstream : String → String → Header → Except String Response)

/-- `http.Client.Do`. -/
def send (call : Call) (p : Prepared) : Except String Response :=
  (upstream call.method (net.render p.url) p.header).mapError fun err =>
    "http-client do " ++ call.method ++ " " ++ net.redacted p.url ++ ": " ++ err

def Connector.fetch (c : Connector) (cfg : CacheConfig) (filled : Int) (call : Call)
    (p : Prepared) : Except String CacheEntry := do
  let resp ← send net upstream call p
  let body ← (resp.limit c.maxBytes).readAll.mapError ("read response body: " ++ ·)
  return ⟨resp.status, resp.header, body, filled + cfg.ttl⟩

/-- What `Do` answers, and whether it comes from the cache. -/
structure Answer where
  result : Except String Response
  cached : Bool

/-- `Connector.Do` of a request that is prepared. -/
def Connector.exchange (c : Connector) (entries : Entries) (call : Call) (m : Moment)
    (p : Prepared) : Answer × Entries :=
  match c.cache with
  | some cfg =>
    if call.method = "GET" then
      let key := net.render p.url
      match entries.get m.lookup key with
      | (some e, entries) => (⟨.ok e.response, true⟩, entries)
      | (none, entries) =>
        match c.fetch net upstream cfg m.filled call p with
        | .ok e => (⟨.ok e.response, false⟩, store cfg m key e entries)
        | .error err => (⟨.error err, false⟩, entries)
    else (⟨(send net upstream call p).map (·.limit c.maxBytes), false⟩, entries)
  | none => (⟨(send net upstream call p).map (·.limit c.maxBytes), false⟩, entries)

/-- `Connector.Do`. -/
def Connector.doCall (c : Connector) (entries : Entries) (call : Call) (m : Moment) :
    Answer × Entries :=
  match c.prepare net call with
  | .error err => (⟨.error err, false⟩, entries)
  | .ok p => c.exchange net upstream entries call m p

/-! ## The rest block -/

-- What the expressions of a block see of a message.
variable {M : Type}

/-- A built `processor`; an expression is what it evaluates to on a message. -/
structure Processor (M : Type) where
  method : String
  path : String
  query : List (String × (M → Except String String))
  headers : List (String × (M → Except String String))
  body : Option (M → Except String Bytes)
  failOnError : Bool
  statusVar : String

variable (p : Processor M)

def Processor.buildURL (msg : M) : Except String String :=
  if p.query = [] then .ok p.path
  else do
    let values ← p.query.mapM fun q =>
      (q.2 msg).map (q.1, ·) |>.mapError fun err => "rest query " ++ q.1.quote ++ ": " ++ err
    return p.path ++ (if '?' ∈ p.path.toList then "&" else "?") ++ net.encodeQuery values

def Processor.applyHeaders (msg : M) (h : Header) : Except String Header :=
  p.headers.foldlM (fun h q => (q.2 msg).map (h.set net q.1 ·) |>.mapError fun err =>
    "rest header " ++ q.1.quote ++ ": " ++ err) h

/-- The target `processor.Process` builds and the request it hands to the connector. -/
def Processor.call (msg : M) (visit : Visit)
    (token : Except String String) : Except String (String × Call) := do
  let target ← p.buildURL net msg
  let body ← match p.body with
    | none => pure none
    | some body => (body msg).map some
  if !net.validMethod p.method then throw "rest build request: net/http: invalid method"
  let url ← (net.parse target).mapError ("rest build request: " ++ ·)
  let h ← p.applyHeaders net msg fun _ => none
  let h := if body.isSome ∧ h.get net "Content-Type" = ""
    then h.set net "Content-Type" "application/json" else h
  return (target, ⟨p.method, url, h, visit, token⟩)

def foldResponse (body : Bytes) : Except String Value :=
  if trimSpace (net.text body) = "" then .ok .null
  else if net.validJSON body then net.decodeJSON body
  else .ok (.str (net.text body))

/-- The text of the characters that fit into `n` bytes. -/
def takeBytes : Nat → List Char → String
  | n, c :: cs => if c.utf8Size ≤ n then c.toString ++ takeBytes (n - c.utf8Size) cs else ""
  | _, [] => ""

/-- Cut at 200 bytes; a character cut in two is left out. -/
def snippet (text : String) : String :=
  let s := (trimSpace text).toList.map fun c => if c = '\n' then ' ' else c
  if (String.ofList s).utf8ByteSize > 200 then takeBytes 200 s ++ "…" else String.ofList s

/-- What `processor.Process` leaves: the status variable and the body. -/
structure Folded where
  statusVar : String
  status : Int
  body : Value

def Processor.process (c : Connector) (entries : Entries) (msg : M)
    (visit : Visit) (token : Except String String) (m : Moment) :
    Except String Folded × Entries :=
  match p.call net msg visit token with
  | .error err => (.error err, entries)
  | .ok (target, call) =>
    let (answer, entries) := c.doCall net upstream entries call m
    let folded := do
      let resp ← answer.result.mapError ("rest request: " ++ ·)
      let body ← resp.readAll.mapError ("rest read response: " ++ ·)
      if p.failOnError ∧ resp.status ≥ 400 then
        throw ("rest request to " ++ target ++ " returned " ++ toString resp.status ++
          ": " ++ snippet (net.text body))
      let value ← foldResponse net body
      return ⟨p.statusVar, resp.status, value⟩
    (folded, entries)

end Client

end Octo.Http
