import Octo.Foundation.Trim
import Mathlib.Logic.Function.Basic

/-!
# Deploy and Undeploy as steps

`Service.Deploy`, `resolveSlug`, `allocateSlug`, `Service.Undeploy` (`deployment/service.go`),
`Client.Apply`, `ensureInternalService` and `DeleteInternalService` (`kube/deploy.go`): every call
to the database and to the cluster is one step, may fail, and may be separated from the next by
calls of any other request.

A deployment that listens on a port has a slug; its internal address is the Service
`octo-int-{slug}`, which selects one deployment by id.  The row lives in the database, the Service
in the cluster, and nothing but the code below keeps the two together: the slug is a field of a
JSON column without a constraint.

* `World`, `step` — any number of requests over one database and one cluster.
-/

namespace Octo.Deployment

open Function

/-! ## Slugs -/

def isSlugChar (c : Char) : Bool := ('a' ≤ c && c ≤ 'z') || ('0' ≤ c && c ≤ '9')

/-- The loop of `slugify`: what is written so far, and whether it ends in a dash. -/
def slugLoop : List Char → List Char → Bool → List Char
  | [], b, _ => b
  | r :: rest, b, dash =>
    if isSlugChar r then slugLoop rest (b ++ [r]) false
    else if !b.isEmpty && !dash then slugLoop rest (b ++ ['-']) true
    else slugLoop rest b dash

variable (s : List Char)

def trimDash : List Char :=
  ((s.dropWhile (· = '-')).reverse.dropWhile (· = '-')).reverse

def maxLen : Nat := 54

def bounded : List Char := if maxLen < s.length then trimDash (s.take maxLen) else s

-- `strings.ToLower`
variable (toLower : String → String)

def slugify (name : String) : String :=
  String.ofList (bounded (trimDash (slugLoop (toLower name).toList [] false)))

/-- `fmt.Sprintf("-%03d", i)`. -/
def slugSuffix (i : Nat) : List Char := let digits := (toString i).toList
  '-' :: List.replicate (3 - digits.length) '0' ++ digits

/-- The `i`-th candidate of `allocateSlug`. -/
def candidate (base : List Char) (i : Nat) : String := if i = 0 then String.ofList base
  else
    let suffix := slugSuffix i
    let trimmed :=
      if maxLen < base.length + suffix.length then trimDash (base.take (maxLen - suffix.length))
      else base
    String.ofList (trimmed ++ suffix)

/-- The slugs `resolveSlug` tries in turn: the chosen one, or those of `allocateSlug`. -/
def candidates (chosen name : String) : List String :=
  if chosen = "" then
    let base := slugify toLower name
    (List.range 1000).map (candidate (bounded (if base = "" then "integration" else base).toList))
  else if slugify toLower chosen = "" then []
  else [slugify toLower chosen]

theorem length_bounded_le : (bounded s).length ≤ maxLen := by
  unfold bounded
  split
  · have : (trimDash (s.take maxLen)).length ≤ (s.take maxLen).length := Foundation.length_trim_le _
    rw [List.length_take] at this
    omega
  · omega

theorem bounded_of_le {s : List Char} (h : s.length ≤ maxLen) : bounded s = s := if_neg (by omega)

/-! ## The stores -/

/-- A row of `integration_deployments`: the id the database mints, and the slug in its metadata,
empty for a deployment without a port. -/
structure Row where
  id : Nat
  slug : String
deriving DecidableEq

/-- The database and the part of the cluster that is named from slugs. -/
structure Stores where
  rows : List Row := []
  /-- The deployment the Service `octo-int-{slug}` selects, when it exists. -/
  service : String → Option Nat := fun _ => none
  minted : Nat := 0

namespace Stores

variable (s : Stores) (slug : String)

def taken : Bool := slug ≠ "" && s.rows.any (·.slug = slug)

def create : Stores :=
  { s with rows := ⟨s.minted, slug⟩ :: s.rows, minted := s.minted + 1 }

def get (id : Nat) : Option Row := s.rows.find? (·.id = id)

def delete (id : Nat) : Stores := { s with rows := s.rows.filter (·.id ≠ id) }

/-- A Service that exists is left as it is. -/
def ensureInternalService (id : Nat) : Stores :=
  if slug = "" then s
  else
    match s.service slug with
    | some _ => s
    | none => { s with service := update s.service slug (some id) }

/-- By slug, whatever the Service selects. -/
def deleteInternalService : Stores :=
  if slug = "" then s else { s with service := update s.service slug none }

end Stores

/-! ## Requests -/

/-- What `Client.Apply` creates. -/
inductive Resource where
  | configMap
  | deployment
  | service
  | internalService
  | ingress
deriving DecidableEq

/-- What `Client.Apply` creates, in order. -/
def resources (slug : String) (external : Bool) : List Resource := [.configMap, .deployment] ++
    if slug = "" then [] else [.service, .internalService] ++ if external then [.ingress] else []

/-- Where a request is: the call it makes next, with what it has found out. -/
inductive Phase where
  | idle
  /-- `resolveSlug`: the candidates still to look up, the next one first. -/
  | lookup (slug : String) (rest : List String) (external : Bool)
  /-- `ensureSubdomainUnique`. -/
  | subdomain (slug : String)
  /-- `Repo.Create`. -/
  | insert (slug : String) (external : Bool)
  /-- `Client.Apply`: the resources still to create, the next one first. -/
  | apply (id : Nat) (slug : String) (next : Resource) (rest : List Resource)
  /-- The rollback of `Deploy`: `Client.Delete`, `DeleteInternalService`, `Repo.Delete`. -/
  | undoResources (id : Nat) (slug : String)
  | undoService (id : Nat) (slug : String)
  | undoRow (id : Nat) (slug : String)
  /-- `Undeploy`: `Repo.Get`, `Client.Delete`, `Repo.Delete`, `DeleteInternalService`. -/
  | read (id : Nat)
  | removeResources (id : Nat) (slug : String)
  | removeRow (id : Nat) (slug : String)
  | removeService (id : Nat) (slug : String)
deriving DecidableEq

/-- A request that passed the checks before its first call below. -/
inductive Request where
  /-- `Deploy` of an integration of this name, with the slug that was chosen, if any. -/
  | deploy (networked external : Bool) (chosen name : String)
  | undeploy (id : Nat)

/-- The next lookup of `resolveSlug`; without a candidate left the request fails. -/
def seek (external : Bool) : List String → Phase
  | [] => .idle
  | slug :: rest => .lookup slug rest external

def Request.start : Request → Phase
  | .deploy networked external chosen name =>
    if networked then seek external (candidates toLower chosen name) else .insert "" false
  | .undeploy id => .read id

/-- The next resource of `Apply`; when all are created the request is done. -/
def proceed (id : Nat) (slug : String) : List Resource → Phase
  | [] => .idle
  | next :: rest => .apply id slug next rest

/-- The call a request makes next succeeds or fails: what it does to the stores, and where it
leaves the request. -/
def advance (s : Stores) (ok : Bool) : Phase → Stores × Phase
  | .idle => (s, .idle)
  | .lookup slug rest external =>
    (s, if !ok then .idle
      else if s.taken slug then seek external rest
      else if external then .subdomain slug else .insert slug false)
  | .subdomain slug => (s, if ok then .insert slug true else .idle)
  | .insert slug external =>
    if ok then (s.create slug, proceed s.minted slug (resources slug external)) else (s, .idle)
  | .apply id slug next rest =>
    if ok then
      (if next = .internalService then s.ensureInternalService slug id else s, proceed id slug rest)
    else (s, .undoResources id slug)
  -- a rollback goes on whatever its calls answer
  | .undoResources id slug => (s, if slug = "" then .undoRow id slug else .undoService id slug)
  | .undoService id slug => (if ok then s.deleteInternalService slug else s, .undoRow id slug)
  | .undoRow id _ => (if ok then s.delete id else s, .idle)
  | .read id =>
    (s, match if ok then s.get id else none with
      | some row => .removeResources id row.slug
      | none => .idle)
  | .removeResources id slug => (s, if ok then .removeRow id slug else .idle)
  -- a row that is gone is an error
  | .removeRow id slug =>
    if ok && (s.get id).isSome then
      (s.delete id, if slug = "" then .idle else .removeService id slug)
    else (s, .idle)
  | .removeService _ slug => (if ok then s.deleteInternalService slug else s, .idle)

/-! ## Runs -/

structure World where
  stores : Stores := {}
  phase : Nat → Phase := fun _ => .idle

/-- A request arrives, or the next call of a request is answered. -/
inductive Action where
  | begin (r : Nat) (request : Request)
  | call (r : Nat) (ok : Bool)

/-- One step of the system; a request that is in progress is not started again. -/
def step (w : World) : Action → World
  | .begin r request =>
    if w.phase r = .idle then
      { w with phase := update w.phase r (request.start toLower) }
    else w
  | .call r ok =>
    ⟨(advance w.stores ok (w.phase r)).1, update w.phase r (advance w.stores ok (w.phase r)).2⟩

def after (actions : List Action) : World := actions.foldl (step toLower) {}

end Octo.Deployment
