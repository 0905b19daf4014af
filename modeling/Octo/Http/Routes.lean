import Octo.Foundation.Percent

/-!
# The routes of HTTP sources

`NewSource` joins the connector's base path and the source's path to one `net/http` pattern and
registers it on the shared mux, unless the same text is registered already.

* `newSources_iff`: when a sequence of sources is registered without a panic.
-/

namespace Octo.Http.Routes

open Octo.Percent

/-! ## Patterns of `net/http` -/

inductive Segment where
  | literal (text : Bytes)
  | wild (name : Bytes)
  /-- The rest of the path; a pattern that ends in a slash has one without a name. -/
  | multi (name : Bytes)
  | anchor
deriving DecidableEq

def Segment.names : Segment → List Bytes
  | .wild name => [name]
  | .multi name => if name = [] then [] else [name]
  | _ => []

def trimDots (s : Bytes) : Bytes := if ascii "..." <:+ s then s.take (s.length - 3) else s

def nameByte (c : UInt8) : Bool :=
  (97 ≤ c && c ≤ 122) || (65 ≤ c && c ≤ 90) || (48 ≤ c && c ≤ 57) || c == 95 || 128 ≤ c

section Patterns

-- Whether a name of letters, digits and underscores is a Go identifier.
variable (identifier : Bytes → Bool)

def validName (name : Bytes) : Bool := name != [] && name.all nameByte && identifier name

/-- A segment between two slashes; `last` for the one at the end of the pattern. -/
def parseSegment (last : Bool) (seg : Bytes) : Option Segment :=
  if seg = [] ∧ last then some (.multi [])
  else if 123 ∉ seg then some (.literal (pathUnescape seg))
  else if seg.head? ≠ some 123 ∨ seg.getLast? ≠ some 125 then none
  else
    let name := seg.tail.dropLast
    if name = ascii "$" then if last then some .anchor else none
    else if ascii "..." <:+ name then
      if last ∧ validName identifier (trimDots name) then some (.multi (trimDots name)) else none
    else if validName identifier name then some (.wild name)
    else none

def parseSegments : List Bytes → Option (List Segment)
  | [] => some []
  | seg :: rest =>
    match parseSegment identifier rest.isEmpty seg, parseSegments rest with
    | some s, some segs => some (s :: segs)
    | _, _ => none

def wildcards (segs : List Segment) : List Bytes := segs.flatMap Segment.names

def parsePattern : Bytes → Option (List Segment)
  | [] => none
  | c :: rest =>
    if c ≠ 47 ∨ 32 ∈ rest ∨ 9 ∈ rest then none
    else (parseSegments identifier (rest.splitOn 47)).filter fun segs => (wildcards segs).Nodup

end Patterns

/-! ## The connector -/

/-- After `strings.TrimSpace`. -/
def normalizeBasePath (base : Bytes) : Bytes :=
  if base = [] ∨ base = ascii "/" then []
  else (if base.head? = some 47 then base else 47 :: base).rdropWhile (· == 47)

def ensureLeadingSlash (path : Bytes) : Bytes := if path.head? = some 47 then path else 47 :: path

/-- The settings of a source that its route depends on. -/
structure Settings where
  path : Bytes

def pattern (base : Bytes) (set : Settings) : Bytes :=
  normalizeBasePath base ++ ensureLeadingSlash set.path

/-! ## Conflicts -/

/-- Whether the segments of a pattern match those of a request's path. -/
def matchesPath : List Segment → List Bytes → Bool
  | [], path => path.isEmpty
  | .multi _ :: _, path => !path.isEmpty
  | .anchor :: _, path => path == [[]]
  | .literal text :: segs, s :: path => text == s && matchesPath segs path
  | .wild _ :: segs, s :: path => s != [] && matchesPath segs path
  | _ :: _, [] => false

def MoreSpecific (a b : List Segment) : Prop :=
  (∀ path, matchesPath a path → matchesPath b path) ∧
    ∃ path, matchesPath b path ∧ ¬ matchesPath a path

/-- Both match some request, and neither is more specific. -/
def Conflict (identifier : Bytes → Bool) (p q : Bytes) : Prop :=
  ∃ a b, parsePattern identifier p = some a ∧ parsePattern identifier q = some b ∧
    (∃ path, matchesPath a path ∧ matchesPath b path) ∧ ¬ MoreSpecific a b ∧ ¬ MoreSpecific b a

theorem Conflict.symm {identifier : Bytes → Bool} {p q : Bytes} (h : Conflict identifier p q) :
    Conflict identifier q p := by
  obtain ⟨a, b, ha, hb, ⟨path, hpath⟩, hab, hba⟩ := h
  exact ⟨b, a, hb, ha, ⟨path, hpath.symm⟩, hba, hab⟩

inductive Outcome where
  | source
  | error
  | panic
deriving DecidableEq

section Register

variable (identifier : Bytes → Bool) (blank : Bytes → Bool) (base : Bytes)

open Classical in
/-- A pattern that is there is refused, any other goes to `HandleFunc`. -/
noncomputable def registerRoute (routes : List Bytes) (p : Bytes) : Outcome × List Bytes :=
  if p ∈ routes then (.error, routes)
  else if parsePattern identifier p = none ∨ ∃ q ∈ routes, Conflict identifier p q then
    (.panic, p :: routes)
  else (.source, p :: routes)

noncomputable def newSource (routes : List Bytes) (set : Settings) : Outcome × List Bytes :=
  if blank set.path then (.error, routes) else registerRoute identifier routes (pattern base set)

/-- What the calls of `NewSource` for a sequence of sources end in. -/
noncomputable def newSources : List Bytes → List Settings → List Outcome
  | _, [] => []
  | routes, set :: sets =>
    (newSource identifier blank base routes set).1 ::
      newSources (newSource identifier blank base routes set).2 sets

def patterns (sets : List Settings) : List Bytes :=
  (sets.filter fun set => !blank set.path).map (pattern base)

def Apart (l : List Bytes) : Prop := ∀ p ∈ l, ∀ q ∈ l, p ≠ q → ¬ Conflict identifier p q

variable {identifier blank base}

theorem apart_congr {l l' : List Bytes} (h : ∀ p, p ∈ l ↔ p ∈ l') :
    Apart identifier l ↔ Apart identifier l' := by
  simp [Apart, h]

theorem Apart.cons {p : Bytes} {l : List Bytes} (h : Apart identifier l)
    (hp : ∀ q ∈ l, ¬ Conflict identifier p q) : Apart identifier (p :: l) := by
  intro a ha b hb hne hconflict
  obtain rfl | ha' := List.mem_cons.1 ha <;> obtain rfl | hb' := List.mem_cons.1 hb
  · exact hne rfl
  · exact hp b hb' hconflict
  · exact hp a ha' hconflict.symm
  · exact h a ha' b hb' hne hconflict

theorem newSources_from {routes : List Bytes} {sets : List Settings}
    (hvalid : ∀ p ∈ patterns blank base sets, parsePattern identifier p ≠ none)
    (hroutes : Apart identifier routes) :
    (∀ o ∈ newSources identifier blank base routes sets, o ≠ .panic) ↔
      Apart identifier (routes ++ patterns blank base sets) := by
  induction sets generalizing routes with
  | nil => simpa [newSources, patterns] using hroutes
  | cons set sets ih =>
    rw [newSources]
    by_cases hblank : blank set.path = true
    · have hcons : patterns blank base (set :: sets) = patterns blank base sets := by
        simp [patterns, hblank]
      rw [hcons] at hvalid ⊢
      simp [newSource, hblank, ih hvalid hroutes]
    have hcons : patterns blank base (set :: sets) =
        pattern base set :: patterns blank base sets := by
      simp [patterns, hblank]
    rw [hcons] at hvalid ⊢
    obtain ⟨hparse, hvalid⟩ := List.forall_mem_cons.1 hvalid
    simp only [newSource, hblank]
    generalize pattern base set = p at hparse
    by_cases hdup : p ∈ routes
    · have hsame : ∀ q, q ∈ routes ++ p :: patterns blank base sets ↔
          q ∈ routes ++ patterns blank base sets := fun q => by
        simp only [List.mem_append, List.mem_cons]
        exact ⟨fun h => h.elim .inl fun h => h.elim (fun e => .inl (e ▸ hdup)) .inr,
          fun h => h.imp_right .inr⟩
      simp [registerRoute, hdup, ih hvalid hroutes, apart_congr hsame]
    by_cases hconflict : ∃ q ∈ routes, Conflict identifier p q
    · have hnot : ¬ Apart identifier (routes ++ p :: patterns blank base sets) := by
        obtain ⟨q, hq, hpq⟩ := hconflict
        exact fun h => h p (by simp) q (by simp [hq]) (ne_of_mem_of_not_mem hq hdup).symm hpq
      simp [registerRoute, hdup, hconflict, hnot]
    · have hsame : ∀ q, q ∈ routes ++ p :: patterns blank base sets ↔
          q ∈ (p :: routes) ++ patterns blank base sets := fun q => by simp [or_left_comm]
      have happart : Apart identifier (p :: routes) :=
        hroutes.cons fun q hq h => hconflict ⟨q, hq, h⟩
      simp [registerRoute, hdup, hconflict, hparse, ih hvalid happart, apart_congr hsame]

end Register

/-- **A sequence of sources is registered without a panic** exactly when no two different patterns
of it conflict. -/
theorem newSources_iff (identifier blank : Bytes → Bool) (base : Bytes) (sets : List Settings)
    (hvalid : ∀ p ∈ patterns blank base sets, parsePattern identifier p ≠ none) :
    (∀ o ∈ newSources identifier blank base [] sets, o ≠ .panic) ↔
      Apart identifier (patterns blank base sets) :=
  newSources_from hvalid fun _ h => absurd h List.not_mem_nil

/-- A source whose path is `/a/` and the text `rest`. -/
def sourceAt (rest : String) : Settings := { path := ascii "/a/" ++ ascii rest }

theorem same_route_refused :
    patterns (fun _ => false) [] [sourceAt "b", sourceAt "b"] = [ascii "/a/b", ascii "/a/b"] ∧
      ∀ o ∈ newSources (fun _ => true) (fun _ => false) [] [] [sourceAt "b", sourceAt "b"],
        o ≠ .panic := by
  have hpatterns : patterns (fun _ => false) [] [sourceAt "b", sourceAt "b"] =
      [ascii "/a/b", ascii "/a/b"] := by decide +kernel
  refine ⟨hpatterns, (newSources_iff (fun _ => true) (fun _ => false) []
    [sourceAt "b", sourceAt "b"] (by decide +kernel)).2 ?_⟩
  rw [hpatterns]
  intro p hp q hq hne
  exact absurd ((by simpa using hp : p = _).trans (by simpa using hq : q = _).symm) hne

theorem renamed_wildcard_panics : newSources (fun _ => true) (fun _ => false) [] []
      [sourceAt "\x7bx\x7d", sourceAt "\x7by\x7d"] = [.source, .panic] := by
  have hx : parsePattern (fun _ => true) (pattern [] (sourceAt "\x7bx\x7d")) =
      some [.literal (ascii "a"), .wild (ascii "x")] := by decide +kernel
  have hy : parsePattern (fun _ => true) (pattern [] (sourceAt "\x7by\x7d")) =
      some [.literal (ascii "a"), .wild (ascii "y")] := by decide +kernel
  have hne : pattern [] (sourceAt "\x7by\x7d") ≠ pattern [] (sourceAt "\x7bx\x7d") := by
    decide +kernel
  have hsame : ∀ path, matchesPath [.literal (ascii "a"), .wild (ascii "x")] path =
      matchesPath [.literal (ascii "a"), .wild (ascii "y")] path := fun path => by
    rcases path with _ | ⟨s, _ | ⟨t, path⟩⟩ <;> rfl
  have hconflict : Conflict (fun _ => true) (pattern [] (sourceAt "\x7by\x7d"))
      (pattern [] (sourceAt "\x7bx\x7d")) :=
    ⟨_, _, hy, hx, ⟨[ascii "a", ascii "1"], by decide, by decide⟩,
      fun ⟨_, path, h, h'⟩ => h' (hsame path ▸ h), fun ⟨_, path, h, h'⟩ => h' (hsame path ▸ h)⟩
  simp [newSources, newSource, registerRoute, hx, hne, hconflict]

end Octo.Http.Routes
