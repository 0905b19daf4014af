import Octo.Http.Client
import Octo.Foundation.Traverse
import Mathlib.Data.List.Induction

/-!
# Answers across credentials

The response cache is keyed by the final URL alone; the headers a request goes out with, the
`Authorization` header among them, are not part of the key.

* `mem_after` — every entry is the answer to an earlier GET of its URL.
* `cache_isolated_iff` — requests drawn from a set never see each other's answers exactly when, in
  that set, the URL of a GET that is answered determines the headers it goes out with.
-/

namespace Octo.Http

open List Option Connector List.Subset CacheEntry
open Octo.Kv (Bytes)
open Octo.Foundation.Traverse (bind_eq_ok map_eq_ok pure_eq_ok)

section Isolation

variable (net : Net) (upstream : String → String → Header → Except String Response)
  (c : Connector)

def Connector.direct (call : Call) (p : Prepared) : Except String Response := match c.cache with
  | some cfg =>
    if call.method = "GET" then (c.fetch net upstream cfg 0 call p).map CacheEntry.response
    else (send net upstream call p).map (·.limit c.maxBytes)
  | none => (send net upstream call p).map (·.limit c.maxBytes)

def Connector.after (before : List (Call × Moment)) : Entries :=
  before.foldl (fun entries x => (c.doCall net upstream entries x.1 x.2).2) []

def Connector.answer (before : List (Call × Moment)) (x : Call × Moment) : Answer :=
  (c.doCall net upstream (c.after net upstream before) x.1 x.2).1

/-! ## The cache -/

variable {e : CacheEntry} {key : String}

theorem mem_of_find {entries : Entries}
    (h : entries.find key = some e) : (key, e) ∈ entries := by
  obtain ⟨⟨k, e'⟩, hfind, rfl⟩ := map_eq_some_iff.1 h
  have hkey : k = key := by simpa using find?_some hfind
  rw [← hkey]
  exact mem_of_find?_eq_some hfind

theorem erase_subset (entries : Entries) (key : String) : entries.erase key ⊆ entries :=
  filter_subset_self _

theorem get_spec {entries entries' : Entries} {now : Int} {r : Option CacheEntry}
    (h : entries.get now key = (r, entries')) :
    entries' ⊆ entries ∧ ∀ e, r = some e → (key, e) ∈ entries := by
  unfold Entries.get at h
  split at h
  · cases h
    exact ⟨refl _, nofun⟩
  next e he =>
    split at h
    · cases h
      exact ⟨erase_subset entries key, nofun⟩
    · cases h
      refine ⟨refl _, fun e' he' => ?_⟩
      obtain rfl := some.inj he'
      exact mem_of_find he

theorem evictIfFull_subset (cfg : CacheConfig) (now : Int) (victim : Nat) (entries : Entries) :
    evictIfFull cfg now victim entries ⊆ entries := by
  unfold evictIfFull
  split
  · exact refl _
  · simp only
    split
    · exact filter_subset_self _
    · exact List.Subset.trans (eraseIdx_subset ..) (filter_subset_self _)

theorem mem_store {cfg : CacheConfig} {m : Moment}
    {entries : Entries} {x : String × CacheEntry} (h : x ∈ store cfg m key e entries) :
    x = (key, e) ∨ x ∈ entries := by
  rcases mem_cons.1 h with h | h
  · exact .inl h
  · exact .inr (evictIfFull_subset _ _ _ _ (erase_subset _ _ h))

/-! ## One request -/

theorem fetch_response (cfg : CacheConfig) (t : Int) (call : Call) (p : Prepared) :
    (c.fetch net upstream cfg t call p).map response =
      (c.fetch net upstream cfg 0 call p).map response := by
  unfold fetch
  cases send net upstream call p with
  | error err => rfl
  | ok resp =>
    show Except.map _ ((resp.limit c.maxBytes).readAll.mapError _ >>= _) =
      Except.map _ ((resp.limit c.maxBytes).readAll.mapError _ >>= _)
    cases (resp.limit c.maxBytes).readAll <;> rfl

variable {call : Call} {p : Prepared}

theorem fetch_expires {cfg : CacheConfig} {t : Int}
    (h : c.fetch net upstream cfg t call p = .ok e) : e.expires = t + cfg.ttl := by
  obtain ⟨resp, -, h⟩ := bind_eq_ok.1 h
  obtain ⟨body, -, h⟩ := bind_eq_ok.1 h
  rw [← pure_eq_ok.1 h]

/-- `call` is a GET of the key whose answer is the entry. -/
structure Origin (call : Call) (key : String) (e : CacheEntry) : Prop where
  caching : c.cache.isSome
  method : call.method = "GET"
  prepared : ∃ p, c.prepare net call = .ok p ∧ net.render p.url = key ∧
    c.direct net upstream call p = .ok e.response

/-- **What one request does**: it is answered by an entry of its URL, or directly, and may add its
own answer. -/
theorem exchange_cases (entries : Entries) (call : Call) (m : Moment)
    (hp : c.prepare net call = .ok p) :
    (∃ e, c.cache.isSome ∧ call.method = "GET" ∧ (net.render p.url, e) ∈ entries ∧
      (c.exchange net upstream entries call m p).1 = ⟨.ok e.response, true⟩ ∧
      (c.exchange net upstream entries call m p).2 ⊆ entries) ∨
    (c.exchange net upstream entries call m p).1 = ⟨c.direct net upstream call p, false⟩ ∧
      ∀ x ∈ (c.exchange net upstream entries call m p).2,
        x ∈ entries ∨ Origin net upstream c call x.1 x.2 := by
  unfold exchange
  cases hcache : c.cache with
  | none =>
    refine .inr ⟨?_, fun x hx => .inl hx⟩
    unfold direct
    rw [hcache]
  | some cfg =>
    by_cases hget : call.method = "GET"
    · simp only [hget]
      cases hlookup : entries.get m.lookup (net.render p.url) with
      | mk found entries' =>
      obtain ⟨hsub, hfound⟩ := get_spec hlookup
      cases found with
      | some e => exact .inl ⟨e, rfl, trivial, hfound e rfl, rfl, hsub⟩
      | none =>
        have hdirect : c.direct net upstream call p =
            (c.fetch net upstream cfg m.filled call p).map response := by
          unfold direct
          simp only [hcache, hget]
          exact (fetch_response net upstream c cfg m.filled call p).symm
        refine .inr ?_
        rw [hdirect]
        cases hfetch : c.fetch net upstream cfg m.filled call p with
        | error err => exact ⟨rfl, fun x hx => .inl (hsub hx)⟩
        | ok e =>
          refine ⟨rfl, fun x hx => ?_⟩
          rcases mem_store hx with rfl | hx
          · refine .inr ⟨by simp [hcache], hget, p, hp, rfl, ?_⟩
            rw [hdirect, hfetch]
            rfl
          · exact .inl (hsub hx)
    · simp only [hget]
      refine .inr ⟨?_, fun x hx => .inl hx⟩
      unfold direct
      simp [hcache, hget]

/-! ## Sequences of requests -/

variable (before : List (Call × Moment))

theorem mem_after :
    ∀ x ∈ c.after net upstream before, ∃ y ∈ before, Origin net upstream c y.1 x.1 x.2 := by
  induction before using List.reverseRecOn with
  | nil => exact fun x hx => nomatch hx
  | append_singleton before y ih =>
    intro x hx
    unfold Connector.after at hx
    rw [foldl_concat] at hx
    have hold : x ∈ c.after net upstream before →
        ∃ z ∈ before ++ [y], Origin net upstream c z.1 x.1 x.2 := by
      intro hx
      obtain ⟨z, hz, horigin⟩ := ih x hx
      exact ⟨z, mem_append_left _ hz, horigin⟩
    unfold doCall at hx
    split at hx
    · exact hold hx
    next p hp =>
      rcases exchange_cases net upstream c (c.after net upstream before) y.1 y.2 hp with
        ⟨e, -, -, -, -, hsub⟩ | ⟨-, hnew⟩
      · exact hold (hsub hx)
      · rcases hnew x hx with hx | horigin
        · exact hold hx
        · exact ⟨y, by simp, horigin⟩

theorem answer_cases (x : Call × Moment)
    (hp : c.prepare net x.1 = .ok p) :
    c.answer net upstream before x = ⟨c.direct net upstream x.1 p, false⟩ ∨
    ∃ y ∈ before, ∃ e, c.answer net upstream before x = ⟨.ok e.response, true⟩ ∧
      x.1.method = "GET" ∧ Origin net upstream c y.1 (net.render p.url) e := by
  unfold answer doCall
  simp only [hp]
  rcases exchange_cases net upstream c (c.after net upstream before) x.1 x.2 hp with
    ⟨e, -, hget, hmem, hanswer, -⟩ | ⟨hanswer, -⟩
  · obtain ⟨y, hy, horigin⟩ := mem_after net upstream c before _ hmem
    exact .inr ⟨y, hy, e, hanswer, hget, horigin⟩
  · exact .inl hanswer

def Connector.finish (resp : Response) : Except String Response := match c.cache with
  | some _ => (resp.limit c.maxBytes).readAll.mapError ("read response body: " ++ ·) |>.map
      fun body => ⟨resp.status, resp.header, body, none⟩
  | none => .ok (resp.limit c.maxBytes)

theorem direct_get (h : call.method = "GET") (p : Prepared) :
    c.direct net upstream call p = (send net upstream call p).bind c.finish := by
  unfold direct finish fetch
  cases c.cache with
  | none => cases send net upstream call p <;> rfl
  | some cfg =>
    simp only [h]
    cases send net upstream call p with
    | error err => rfl
    | ok resp =>
      show Except.map _ ((resp.limit c.maxBytes).readAll.mapError _ >>= _) =
        Except.map _ ((resp.limit c.maxBytes).readAll.mapError _)
      cases (resp.limit c.maxBytes).readAll <;> rfl

theorem direct_congr {call' : Call} {p' : Prepared} {resp : Response}
    (hcall : call.method = "GET") (hcall' : call'.method = "GET")
    (hurl : net.render p'.url = net.render p.url) (hheader : p'.header = p.header)
    (h : c.direct net upstream call' p' = .ok resp) : c.direct net upstream call p = .ok resp := by
  rw [direct_get net upstream c hcall'] at h
  rw [direct_get net upstream c hcall]
  unfold send at h ⊢
  rw [hcall', hurl, hheader] at h
  rw [hcall]
  cases hup : upstream "GET" (net.render p.url) p.header with
  | error err =>
    rw [hup] at h
    cases h
  | ok r =>
    rw [hup] at h
    exact h

theorem cached_after {call' : Call} {p' : Prepared} {resp : Response}
    (hcache : c.cache.isSome) (hcall : call.method = "GET") (hcall' : call'.method = "GET")
    (hp : c.prepare net call = .ok p) (hp' : c.prepare net call' = .ok p')
    (hurl : net.render p.url = net.render p'.url) (h : c.direct net upstream call p = .ok resp) :
    (c.answer net upstream [(call, ⟨0, 0, 0⟩)] (call', ⟨0, 0, 0⟩)).cached = true := by
  obtain ⟨cfg, hcfg⟩ := isSome_iff_exists.1 hcache
  -- the first request fills the empty cache
  unfold direct at h
  simp only [hcfg, hcall] at h
  obtain ⟨e, hfetch, -⟩ := map_eq_ok.1 h
  have hstore : store cfg ⟨0, 0, 0⟩ (net.render p.url) e [] = [(net.render p.url, e)] := by
    simp [store, evictIfFull, Entries.erase]
  have hfirst : c.after net upstream [(call, ⟨0, 0, 0⟩)] = [(net.render p.url, e)] := by
    show (c.doCall net upstream [] call ⟨0, 0, 0⟩).2 = _
    unfold doCall exchange
    simp only [hp, hcfg, hcall, hfetch]
    exact hstore
  -- and its entry is live at once
  have hexpires := fetch_expires net upstream c hfetch
  have hget : Entries.get [(net.render p.url, e)] 0 (net.render p'.url) =
      (some e, [(net.render p.url, e)]) := by
    have hlive : ¬0 > e.expires := by
      have := cfg.ttl_pos
      omega
    simp [Entries.get, Entries.find, hurl, hlive]
  unfold answer doCall exchange
  simp [hp', hcfg, hcall', hfirst, hget]

/-- **Requests of a set never see each other's answers exactly when, in that set, the URL of a GET
that is answered determines the headers it goes out with.** -/
theorem cache_isolated_iff (R : Call → Prop) : ((∀ before x, (∀ y ∈ before, R y.1) → R x.1 →
        (c.answer net upstream before x).cached = true →
        ∃ y ∈ before, ∃ p p', c.prepare net x.1 = .ok p ∧ c.prepare net y.1 = .ok p' ∧
          net.render p'.url = net.render p.url ∧ p'.header = p.header ∧
          c.direct net upstream y.1 p' = (c.answer net upstream before x).result) ∧
      ∀ before before' x, (∀ y ∈ before, R y.1) → (∀ y ∈ before', R y.1) → R x.1 →
        (c.answer net upstream before x).result = (c.answer net upstream before' x).result) ↔
      (c.cache.isSome → ∀ call call' p p' resp, R call → R call' →
        call.method = "GET" → call'.method = "GET" →
        c.prepare net call = .ok p → c.prepare net call' = .ok p' →
        net.render p.url = net.render p'.url →
        c.direct net upstream call p = .ok resp → p.header = p'.header) := by
  constructor
  · rintro ⟨hsame, -⟩ hcache call call' p p' resp hR hR' hget hget' hp hp' hurl hdirect
    have hhit := cached_after net upstream c hcache hget hget' hp hp' hurl hdirect
    obtain ⟨y, hy, q', q, hq', hq, -, hheader, -⟩ :=
      hsame [(call, ⟨0, 0, 0⟩)] (call', ⟨0, 0, 0⟩) (by simpa using hR) hR' hhit
    obtain rfl : y = (call, ⟨0, 0, 0⟩) := by simpa using hy
    obtain rfl : p' = q' := Except.ok.inj (hp'.symm.trans hq')
    obtain rfl : p = q := Except.ok.inj (hp.symm.trans hq)
    exact hheader
  · intro hcond
    -- an entry that answers a request was left by one with the same headers
    have horigin : ∀ (before : List (Call × Moment)) (x : Call × Moment),
        (∀ y ∈ before, R y.1) → R x.1 → ∀ p, c.prepare net x.1 = .ok p →
        ∀ y ∈ before, ∀ e, x.1.method = "GET" → Origin net upstream c y.1 (net.render p.url) e →
        ∃ p', c.prepare net y.1 = .ok p' ∧ net.render p'.url = net.render p.url ∧
          p'.header = p.header ∧ c.direct net upstream y.1 p' = .ok e.response := by
      rintro before x hbefore hx p hp y hy e hget ⟨hcache, hmethod, p', hp', hurl, hdirect⟩
      exact ⟨p', hp', hurl, hcond hcache y.1 x.1 p' p _ (hbefore y hy) hx hmethod hget hp' hp hurl
        hdirect, hdirect⟩
    have hresult : ∀ before x, (∀ y ∈ before, R y.1) → R x.1 → ∀ p, c.prepare net x.1 = .ok p →
        (c.answer net upstream before x).result = c.direct net upstream x.1 p := by
      intro before x hbefore hx p hp
      rcases answer_cases net upstream c before x hp with hdirect | ⟨y, hy, e, hanswer, hget, hy'⟩
      · rw [hdirect]
      · obtain ⟨p', -, hurl, hheader, hdirect⟩ := horigin before x hbefore hx p hp y hy e hget hy'
        rw [hanswer]
        exact (direct_congr net upstream c hget hy'.method hurl hheader hdirect).symm
    refine ⟨fun before x hbefore hx hcached => ?_, fun before before' x hbefore hbefore' hx => ?_⟩
    · cases hp : c.prepare net x.1 with
      | error err => simp [answer, doCall, hp] at hcached
      | ok p =>
        rcases answer_cases net upstream c before x hp with hdirect | ⟨y, hy, e, hanswer, hget, hy'⟩
        · rw [hdirect] at hcached
          cases hcached
        · obtain ⟨p', hp', hurl, hheader, hdirect⟩ :=
            horigin before x hbefore hx p hp y hy e hget hy'
          refine ⟨y, hy, p, p', rfl, hp', hurl, hheader, ?_⟩
          rw [hanswer, hdirect]
    · cases hp : c.prepare net x.1 with
      | error err => simp [answer, doCall, hp]
      | ok p => rw [hresult before x hbefore hx p hp, hresult before' x hbefore' hx p hp]

end Isolation

/-! ## A leak -/

def plainNet : Net :=
  { canonical := id
    parse := fun s => .ok { path := s }
    render := fun u => u.scheme ++ "://" ++ u.host ++ u.path
    redacted := fun u => u.scheme ++ "://" ++ u.host ++ u.path
    encodeQuery := fun _ => ""
    basic := fun username _ => username
    validMethod := fun _ => true
    validJSON := fun _ => false
    decodeJSON := fun _ => .error "not JSON"
    text := fun bytes => String.ofList (bytes.map fun x => Char.ofNat x.toNat) }

def whoAmI (_method _url : String) (h : Header) : Except String Response :=
  .ok { status := 200, header := []
        body := ((h "Authorization").getD "").toList.map fun x => UInt8.ofNat x.toNat }

def cachingConnector : Connector :=
  { base := { scheme := "https", host := "api" }, auth := .none, headers := [], maxBytes := 1048576
    cache := ({ enabled := true } : CacheSettings).config }

def whoAmIBlock : Processor String :=
  { method := "GET", path := "/me", query := [], headers := [("Authorization", .ok)], body := none
    failOnError := true, statusVar := "statusCode" }

def whoAmIRun (entries : Entries) (credentials : String) : Except String Folded × Entries :=
  whoAmIBlock.process plainNet whoAmI cachingConnector entries credentials ⟨id, .refl⟩ (.ok "")
    ⟨0, 0, 0⟩

/-- With Alice's request before it, Bob's request is answered with Alice's response. -/
theorem cached_answer_leaks :
    (whoAmIRun [] "alice").1 = .ok ⟨"statusCode", 200, .str "alice"⟩ ∧
    (whoAmIRun [] "bob").1 = .ok ⟨"statusCode", 200, .str "bob"⟩ ∧
    (whoAmIRun (whoAmIRun [] "alice").2 "bob").1 = .ok ⟨"statusCode", 200, .str "alice"⟩ := by
  refine ⟨rfl, rfl, rfl⟩

end Octo.Http
