import Mathlib.Data.List.Nodup
import Mathlib.Data.List.Perm.Basic

/-!
# The run proxy

`app/editor/runs/[ns]/[[...path]]/route.ts`, the same in both apps: a request for a namespace goes
to the port its process listens on, and the upstream's answer comes back. Either way the headers
are copied one by one into a new `Headers` object, without those of the connection.

* `forwarded_iff`: nothing but the dropped names is lost exactly when no second `Set-Cookie` value
  was received, because `set` replaces the first one.
-/

namespace Octo.RunHost.Proxy

open List

/-- `toLowerCase` on a header name, which is ASCII. -/
def toLowerCase (s : String) : String := String.ofList (s.toList.map Char.toLower)

/-- A header name, in the lower case the Fetch API keeps names in. -/
def HeaderName := { s : String // toLowerCase s = s }
deriving DecidableEq

def setCookie : HeaderName := ⟨"set-cookie", by decide⟩

/-- The pairs `forEach` yields: a name once, with its combined value, apart from `Set-Cookie`. -/
structure Headers where
  entries : List (HeaderName × String)
  once : ((entries.map (·.1)).filter (· ≠ setCookie)).Nodup

/-- `Headers.set` replaces every value of the name. -/
def set (entries : List (HeaderName × String)) (e : HeaderName × String) :
    List (HeaderName × String) :=
  entries.filter (·.1 ≠ e.1) ++ [e]

def HOP_BY_HOP : List String :=
  ["connection", "keep-alive", "proxy-authenticate", "proxy-authorization", "te", "trailer",
    "transfer-encoding", "upgrade", "host"]

theorem nodup_foldl_set (l : List (HeaderName × String)) {out : List (HeaderName × String)}
    (hout : (out.map (·.1)).Nodup) : ((l.foldl set out).map (·.1)).Nodup := by
  induction l generalizing out with
  | nil => exact hout
  | cons e l ih =>
    refine ih ?_
    rw [set, map_append, nodup_append']
    exact ⟨(filter_sublist.map _).nodup hout, nodup_singleton _, by simp⟩

/-- Names received once each are copied as they are. -/
theorem foldl_set_eq (l : List (HeaderName × String)) {out : List (HeaderName × String)}
    (h : ((out ++ l).map (·.1)).Nodup) : l.foldl set out = out ++ l := by
  induction l generalizing out with
  | nil => simp
  | cons e l ih =>
    have hnew : set out e = out ++ [e] := by
      refine congrArg (· ++ [e]) (filter_eq_self.2 fun x hx => ?_)
      rw [map_append, nodup_append'] at h
      simpa using fun heq => h.2.2 (mem_map_of_mem hx) (by simp [heq])
    rw [foldl_cons, hnew, ih (by simpa using h), append_assoc, singleton_append]

section
variable (dropped : String → Bool)

/-- The pairs whose names are not dropped. -/
def kept (entries : List (HeaderName × String)) : List (HeaderName × String) :=
  entries.filter fun e => !dropped (toLowerCase e.1.1)

/-- The `forEach` both copies run; `dropped` is the test a name is left out by. -/
def copy (entries : List (HeaderName × String)) : List (HeaderName × String) :=
  entries.foldl (fun out e => if !dropped (toLowerCase e.1.1) then set out e else out) []

theorem copy_eq (l : List (HeaderName × String)) : copy dropped l = (kept dropped l).foldl set [] :=
  foldl_filter.symm

def forwardable (headers : Headers) : Headers where
  entries := copy dropped headers.entries
  once := copy_eq dropped headers.entries ▸ (nodup_foldl_set _ (by simp)).filter _

end

def requestDrops (k : String) : Bool := HOP_BY_HOP.contains k

def responseDrops (k : String) : Bool :=
  HOP_BY_HOP.contains k || k == "content-encoding" || k == "content-length"

def forwardableRequestHeaders : Headers → Headers := forwardable requestDrops

def forwardableResponseHeaders : Headers → Headers := forwardable responseDrops

structure Request where
  ns : String
  path : List String
  search : String
  method : String
  headers : Headers
  body : String

structure Response where
  status : Nat
  statusText : String := ""
  headers : Headers := ⟨[], by simp⟩
  body : String

/-- What `fetch` is given besides the target. -/
structure Init where
  method : String
  headers : Headers
  body : Option String

def Request.init (req : Request) : Init :=
  { method := req.method
    headers := forwardableRequestHeaders req.headers
    body := if req.method ≠ "GET" ∧ req.method ≠ "HEAD" then some req.body else none }

/-- The response of the upstream as the caller gets it. -/
def Response.relayed (upstream : Response) : Response :=
  { upstream with headers := forwardableResponseHeaders upstream.headers }

/-- `proxy`; the run host, the URL encoding and the network are parameters. -/
def proxy (isValidNamespace : String → Bool) (runningPort : String → Option Nat)
    (encodeURIComponent : String → String) (fetch : String → Init → Except String Response)
    (req : Request) : Response :=
  if ¬isValidNamespace req.ns then { status := 404, body := "invalid run namespace" }
  else match runningPort req.ns with
    | none => { status := 404, body := "no running networked integration for this run" }
    | some port =>
      let suffix := "/".intercalate (req.path.map encodeURIComponent)
      match fetch ("http://127.0.0.1:" ++ toString port ++ "/" ++ suffix ++ req.search) req.init with
      | .error err => { status := 502, body := "run proxy error: " ++ err }
      | .ok upstream => upstream.relayed

/-! ## What is lost -/

/-- How many `Set-Cookie` values there are. -/
def Headers.cookies (h : Headers) : Nat := (h.entries.map (·.1)).count setCookie

variable {dropped : String → Bool}

theorem nodup_kept_iff (hcookie : dropped "set-cookie" = false) (h : Headers) :
    ((kept dropped h.entries).map (·.1)).Nodup ↔ h.cookies ≤ 1 := by
  have hnames : (kept dropped h.entries).map (·.1) =
      (h.entries.map (·.1)).filter fun k => !dropped (toLowerCase k.1) := by
    rw [filter_map]; rfl
  have hself : (!dropped (toLowerCase setCookie.1)) = true := by
    rw [setCookie.2, setCookie, hcookie, Bool.not_false]
  rw [hnames, nodup_iff_count_le_one, Headers.cookies]
  constructor
  · intro hle
    have hone := hle setCookie
    rwa [count_filter (by exact hself)] at hone
  · intro hle k
    refine Nat.le_trans (filter_sublist.count_le k) ?_
    obtain rfl | hk := eq_or_ne k setCookie
    · exact hle
    · have hone := nodup_iff_count_le_one.1 h.once k
      rwa [count_filter (by simpa using hk)] at hone

theorem forwardable_perm_iff (hcookie : dropped "set-cookie" = false) (h : Headers) :
    (forwardable dropped h).entries.Perm (kept dropped h.entries) ↔ h.cookies ≤ 1 := by
  rw [← nodup_kept_iff hcookie, show (forwardable dropped h).entries = _ from copy_eq _ _]
  constructor
  · intro hperm
    exact (hperm.map _).nodup_iff.1 (nodup_foldl_set _ nodup_nil)
  · intro hnd
    rw [foldl_set_eq _ hnd, nil_append]

/-- **Header forwarding.** A request reaches the upstream, and an answer the caller, with exactly
the received pairs whose names are not dropped, when it has at most one `Set-Cookie` value. -/
theorem forwarded_iff (req : Request) (upstream : Response) :
    (req.init.headers.entries.Perm (kept requestDrops req.headers.entries) ↔
      req.headers.cookies ≤ 1) ∧
    (upstream.relayed.headers.entries.Perm (kept responseDrops upstream.headers.entries) ↔
      upstream.headers.cookies ≤ 1) ∧
    ∀ valid runningPort encode fetch port, valid req.ns → runningPort req.ns = some port →
      (∀ target, fetch target req.init = .ok upstream) →
        proxy valid runningPort encode fetch req = upstream.relayed := by
  refine ⟨forwardable_perm_iff (by decide) _, forwardable_perm_iff (by decide) _, ?_⟩
  intro valid runningPort encode fetch port hvalid hport hfetch
  simp [proxy, hvalid, hport, hfetch]

/-- Of the two cookies of a login the caller gets the second only. -/
theorem login_cookie_lost :
    let login : Response := {
      status := 200, body := ""
      headers := ⟨[(setCookie, "session=1"), (setCookie, "theme=dark")], by simp⟩ }
    login.relayed.headers.entries = [(setCookie, "theme=dark")] ∧
      ¬login.relayed.headers.entries.Perm (kept responseDrops login.headers.entries) := by
  decide

end Octo.RunHost.Proxy
