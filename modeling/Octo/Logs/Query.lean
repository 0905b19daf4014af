import Octo.Foundation.Keyset

/-!
# Log queries: `logs/internal/repo/logs.go` and `logs/internal/api/handler.go`

A request whose parameters do not parse is answered 400 and produces no page, so `Request` holds
the parsed parameters.
-/

namespace Octo.Logs

open List Option Octo.Foundation.Keyset

/-- A `timestamptz`, as microseconds since the epoch. -/
abbrev Time := Int

structure LogRow where
  id : String
  deploymentID : String
  appName : String
  appVersion : String
  time : Time
  level : String
  message : String
  attrs : String
  receivedAt : Time
  deriving DecidableEq

/-- An empty field is no constraint. -/
structure Filter where
  deploymentID : String
  appName : String
  appVersion : String
  levels : List String
  from' : Option Time
  to' : Option Time
  search : String
  before : Option Time
  limit : Int
  deriving DecidableEq

/-- The database as `Repo.Query` uses it. -/
structure Postgres where
  /-- `deployment_id = $n::uuid` -/
  uuidEq : String → String → Bool
  /-- `message ILIKE '%' || $n || '%'` -/
  ilike : String → String → Bool
  /-- `ORDER BY ts DESC`, one choice of tie order per executed statement. -/
  tsDesc : TieOrder LogRow.time

variable (pg : Postgres)

/-- The conjuncts of the `WHERE` clause, in the order `Query` adds them. -/
def conditions (f : Filter) : List (LogRow → Bool) :=
  (if f.deploymentID ≠ "" then [fun r => pg.uuidEq r.deploymentID f.deploymentID] else []) ++
  (if f.appName ≠ "" then [fun r => r.appName == f.appName] else []) ++
  (if f.appVersion ≠ "" then [fun r => r.appVersion == f.appVersion] else []) ++
  (if f.levels.length > 0 then [fun r => f.levels.contains r.level] else []) ++
  (f.from'.map fun t (r : LogRow) => decide (t ≤ r.time)).toList ++
  (f.to'.map fun t (r : LogRow) => decide (r.time ≤ t)).toList ++
  (if f.search ≠ "" then [fun r => pg.ilike r.message f.search] else []) ++
  (f.before.map fun t (r : LogRow) => decide (r.time < t)).toList

def Filter.matches (f : Filter) (r : LogRow) : Bool := (conditions pg f).all (· r)

/-- Executed as the `n`-th statement. -/
def query (n : Nat) (table : List LogRow) (f : Filter) : List LogRow :=
  (pg.tsDesc.order n (table.filter (f.matches pg))).take f.limit.toNat

/-! ## The handler -/

def defaultLimit : Int := 200
def maxLimit : Int := 1000

/-- The parsed query parameters of `GET /logs`. -/
structure Request where
  deploymentId : String := ""
  appName : String := ""
  appVersion : String := ""
  level : List String := []
  q : String := ""
  from' : Option Time := none
  to' : Option Time := none
  before : Option Time := none
  limit : Option Int := none
  deriving DecidableEq

def clampLimit (n : Int) : Int := if n < 1 then 1 else if n > maxLimit then maxLimit else n

/-- On parameters that parse. -/
def parseFilter (r : Request) : Filter where
  deploymentID := r.deploymentId
  appName := r.appName
  appVersion := r.appVersion
  levels := r.level
  from' := r.from'
  to' := r.to'
  search := r.q
  before := r.before
  limit := clampLimit (r.limit.getD defaultLimit)

structure ListResponse where
  items : List LogRow
  nextBefore : Option Time
  deriving DecidableEq

/-- The page `list` answers for the rows of a query: a full page carries the cursor. -/
def list (f : Filter) (rows : List LogRow) : ListResponse where
  items := rows
  nextBefore := if (rows.length : Int) = f.limit then rows.getLast?.map LogRow.time else none

/-- A client that asks for a page and follows `next_before` until it is absent. -/
def follow (pg : Postgres) (table : List LogRow) (req : Request) :
    Nat → Nat → Option Time → Option (List (List LogRow))
  | 0, _, _ => none
  | fuel + 1, n, before =>
    let f := parseFilter { req with before := before }
    let resp := list f (query pg n table f)
    match resp.nextBefore with
    | some t => (follow pg table req fuel (n + 1) (some t)).map (resp.items :: ·)
    | none => some [resp.items]

/-! ## The clamp and the cursor conjunct -/

theorem clampLimit_range (n : Int) : 1 ≤ clampLimit n ∧ clampLimit n ≤ maxLimit := by
  unfold clampLimit maxLimit
  split
  · omega
  · split <;> omega

variable (req : Request)

def pageLimit : Nat := (clampLimit (req.limit.getD defaultLimit)).toNat

theorem pageLimit_pos : 1 ≤ pageLimit req := by
  have := (clampLimit_range (req.limit.getD defaultLimit)).1
  unfold pageLimit
  omega

def matching (table : List LogRow) (req : Request) : List LogRow :=
  table.filter ((parseFilter { req with before := none }).matches pg)

theorem matches_before (before : Option Time) (r : LogRow) :
    (parseFilter { req with before := before }).matches pg r =
      (below LogRow.time before r && (parseFilter { req with before := none }).matches pg r) := by
  cases before with
  | none => simp [below]
  | some =>
    simp only [Filter.matches, conditions, parseFilter, all_append, map_some,
      map_none, toList_some, toList_none, all_cons, all_nil,
      Bool.and_true]
    exact Bool.and_comm _ _

end Octo.Logs
