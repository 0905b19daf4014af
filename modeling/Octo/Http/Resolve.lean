import Octo.Foundation.Percent
import Octo.Http.Client

/-!
# Escaped paths through `resolveURL`

`net/url` keeps the decoded path of a URL and, where the default encoding of that path is another
text, the escaped path as it was written.  `resolveURL` joins the decoded paths and drops the
escaped one.  The texts of a URL stand here for byte strings, one character for each byte.

* `resolve_iff`: the escaped paths of the base and the reference come out joined exactly when both
  are the default encoding of what they decode to, or the joined path is an asterisk.
-/

namespace Octo.Http

open Octo.Percent

/-! ## `net/url` -/

/-- The bytes that `url` leaves as they are in a path. -/
def pathByte (c : UInt8) : Bool :=
  (97 ≤ c && c ≤ 122) || (65 ≤ c && c ≤ 90) || (48 ≤ c && c ≤ 57) ||
    (ascii "-_.~$&+,/:;=@").contains c

def validEncoded (s : Bytes) : Bool :=
  s.all fun c => (ascii "!$&'()*+,;=:@[]%").contains c || pathByte c

/-- Which `url.Parse` ends with. -/
def setPath (u : URL) (p : Bytes) : Option URL := (unescape p).map fun path =>
    { u with path := ofBytes path, rawPath := if escape pathByte path = p then "" else ofBytes p }

def escapedPath (u : URL) : Bytes :=
  if u.rawPath ≠ "" ∧ validEncoded (ascii u.rawPath) ∧
      unescape (ascii u.rawPath) = some (ascii u.path) then ascii u.rawPath
  else if u.path = "*" then ascii "*"
  else escape pathByte (ascii u.path)

/-! ## Joining -/

def joinSlash (a b : Bytes) : Bytes := if b = [] then a
  else if a = [] then b
  else a.rdropWhile (· == 47) ++ 47 :: b.dropWhile (· == 47)

def joinQueries (a b : String) : String := "&".intercalate ([a, b].filter (· ≠ ""))

theorem dropWhile_chars (a : Bytes) : (a.map fun c => Char.ofNat c.toNat).dropWhile (· = '/') =
      (a.dropWhile (· == 47)).map fun c => Char.ofNat c.toNat := by
  have hslash : ∀ c : UInt8, Char.ofNat c.toNat = '/' ↔ c = 47 := fun c =>
    ⟨fun h => by rw [← ofNat_charOfNat c, h]; rfl, fun h => by subst h; rfl⟩
  simp [List.dropWhile_map, Function.comp_def, hslash, beq_eq_decide]

theorem joinPath_ofBytes (a b : Bytes) :
    joinPath (ofBytes a) (ofBytes b) = ofBytes (joinSlash a b) := by
  have hempty : ∀ s, ofBytes s = "" ↔ s = [] := fun s => ofBytes_inj (b := [])
  simp only [joinPath, joinSlash, hempty]
  split
  · rfl
  · split
    · rfl
    · simp [trimRightSlashes, trimLeftSlashes, ofBytes, ← List.map_reverse, dropWhile_chars,
        List.rdropWhile, String.append_assoc]

theorem joinSlash_eq_star {a b : Bytes} :
    joinSlash a b = ascii "*" ↔ a = ascii "*" ∧ b = [] ∨ a = [] ∧ b = ascii "*" := by
  have hslash : ∀ s t : Bytes, s ++ 47 :: t ≠ ascii "*" := fun s t h => by
    have hm : (47) ∈ ascii "*" := h ▸ by simp
    exact absurd hm (by decide)
  unfold joinSlash
  split
  · simp_all [ascii]
  · split
    · simp_all
    · simp_all

theorem joinSlash_escape (a b : Bytes) :
    joinSlash (escape pathByte a) (escape pathByte b) = escape pathByte (joinSlash a b) := by
  have hempty : ∀ s, escape pathByte s = [] ↔ s = [] := fun s => escape_inj (by decide) (t := [])
  simp only [joinSlash, hempty]
  split
  · rfl
  · split
    · rfl
    · rw [rdropWhile_escape (by decide) (by decide) (by decide),
        dropWhile_escape (by decide) (by decide) (by decide), escape_append]
      rfl

/-! ## The escaped path of a URL -/

/-- **The parts of a parsed path**: its escaped form decodes to it, and is the default encoding of
it for no path that is an asterisk. -/
theorem setPath_spec {u₀ u : URL} {p : Bytes} (h : setPath u₀ p = some u) :
    ∃ path, u.path = ofBytes path ∧ unescape (escapedPath u) = some path ∧
      (escapedPath u = escape pathByte path → path ≠ ascii "*") := by
  obtain ⟨path, hp, rfl⟩ := Option.map_eq_some_iff.1 h
  refine ⟨path, rfl, ?_⟩
  have hstar : ofBytes path = "*" ↔ path = ascii "*" := ofBytes_inj (b := ascii "*")
  have hdefault : unescape (if path = ascii "*" then ascii "*" else escape pathByte path) =
      some path ∧ ((if path = ascii "*" then ascii "*" else escape pathByte path) =
        escape pathByte path → path ≠ ascii "*") := by
    split
    case isTrue hpath =>
      subst hpath
      exact ⟨by simp [ascii, unescape], fun heq => absurd heq (by decide)⟩
    case isFalse hpath => exact ⟨unescape_escape (by decide) path, fun _ => hpath⟩
  simp only [escapedPath, ascii_ofBytes, hstar]
  by_cases hcanon : escape pathByte path = p
  · simpa [if_pos hcanon, ne_eq, not_true_eq_false, false_and, if_false] using hdefault
  · simp only [if_neg hcanon, ascii_ofBytes]
    split
    · exact ⟨hp, fun heq => absurd heq.symm hcanon⟩
    · exact hdefault

def DefaultEncoded (u : URL) : Prop := escapedPath u = escape pathByte (ascii u.path)

/-- **The escaped paths come out joined.** -/
theorem resolve_iff (c : Connector) (base₀ ref₀ ref : URL) (basePath refPath : Bytes)
    (hbase : setPath base₀ basePath = some c.base) (href : setPath ref₀ refPath = some ref) :
    (escapedPath (c.resolveURL ref) = joinSlash (escapedPath c.base) (escapedPath ref) ∧
        (c.resolveURL ref).rawQuery = joinQueries c.base.rawQuery ref.rawQuery) ↔
      DefaultEncoded c.base ∧ DefaultEncoded ref ∨
        joinSlash (escapedPath c.base) (escapedPath ref) = ascii "*" := by
  obtain ⟨b, hb, hbdec, hbstar⟩ := setPath_spec hbase
  obtain ⟨r, hr, hrdec, hrstar⟩ := setPath_spec href
  have hquery : (c.resolveURL ref).rawQuery = joinQueries c.base.rawQuery ref.rawQuery := by
    by_cases hbase : c.base.rawQuery = "" <;> by_cases href : ref.rawQuery = ""
    all_goals simp [Connector.resolveURL, joinQueries, hbase, href]
  have hfinal : escapedPath (c.resolveURL ref) =
      if joinSlash b r = ascii "*" then ascii "*" else escape pathByte (joinSlash b r) := by
    have hstar : ofBytes (joinSlash b r) = "*" ↔ joinSlash b r = ascii "*" :=
      ofBytes_inj (b := ascii "*")
    simp [escapedPath, Connector.resolveURL, hb, hr, joinPath_ofBytes, hstar, ascii_ofBytes]
  have hempty : ∀ {u : URL} {s : Bytes}, unescape (escapedPath u) = some s →
      (escapedPath u = [] ↔ s = []) := fun hdec =>
    ⟨fun h => by simpa [h, unescape] using hdec.symm, fun h => unescape_eq_nil.1 (h ▸ hdec)⟩
  have hdefault : ∀ {u : URL} {s t : Bytes}, u.path = ofBytes s →
      unescape (escapedPath u) = some s → escapedPath u = escape pathByte t → DefaultEncoded u := by
    intro u s t hpath hdec heq
    rw [heq, unescape_escape (by decide)] at hdec
    rw [DefaultEncoded, heq, hpath, ascii_ofBytes, Option.some.inj hdec]
  rw [and_iff_left hquery, hfinal]
  constructor
  · intro h
    split at h
    · exact .inr h.symm
    · left
      by_cases hr0 : r = []
      · have hempty' : escapedPath ref = [] := (hempty hrdec).2 hr0
        have hbase' : escape pathByte b = escapedPath c.base := by
          simpa [hr0, hempty', joinSlash] using h
        exact ⟨hdefault hb hbdec hbase'.symm, hdefault hr hrdec (t := []) hempty'⟩
      by_cases hb0 : b = []
      · have hempty' : escapedPath c.base = [] := (hempty hbdec).2 hb0
        have href' : escape pathByte r = escapedPath ref := by
          simpa [hb0, hr0, hempty', joinSlash, hempty hrdec] using h
        exact ⟨hdefault hb hbdec (t := []) hempty', hdefault hr hrdec href'.symm⟩
      -- Between two paths stands a slash, where the default encoding of the joined path is cut.
      nth_rewrite 2 [joinSlash] at h
      rw [if_neg (mt (hempty hrdec).1 hr0), if_neg (mt (hempty hbdec).1 hb0)] at h
      obtain ⟨t, u, -, ht, hu⟩ := escape_eq_append_cons (by decide) (by decide) h
      obtain ⟨s, hs⟩ := eq_escape_of_rdropWhile (by decide) ht
      obtain ⟨s', hs'⟩ := eq_escape_of_dropWhile (by decide) hu
      exact ⟨hdefault hb hbdec hs, hdefault hr hrdec hs'⟩
  · rintro (⟨hbase', href'⟩ | hstar)
    · rw [DefaultEncoded, hb, ascii_ofBytes] at hbase'
      rw [DefaultEncoded, hr, ascii_ofBytes] at href'
      have hne : joinSlash b r ≠ ascii "*" := fun h =>
        (joinSlash_eq_star.1 h).elim (fun h => hbstar hbase' h.1) fun h => hrstar href' h.2
      rw [if_neg hne, hbase', href', joinSlash_escape]
    · have hdec : ∀ {s t : Bytes}, unescape s = some t → s = ascii "*" → t = ascii "*" := by
        rintro s t h rfl
        simpa [ascii, unescape] using h.symm
      have hj : joinSlash b r = ascii "*" := joinSlash_eq_star.2 <|
        (joinSlash_eq_star.1 hstar).imp (fun h => ⟨hdec hbdec h.1, (hempty hrdec).1 h.2⟩)
          fun h => ⟨(hempty hbdec).1 h.1, hdec hrdec h.2⟩
      rw [if_pos hj, hstar]

def connectorAt (base : URL) : Connector := ⟨base, .none, [], 1048576, none⟩

theorem plain_paths_joined :
    escapedPath ((connectorAt { path := "/v1/", rawQuery := "k=1" }).resolveURL
        { path := "/a b", rawQuery := "q=2" }) = joinSlash (ascii "/v1/") (ascii "/a%20b") ∧
      ((connectorAt { path := "/v1/", rawQuery := "k=1" }).resolveURL
        { path := "/a b", rawQuery := "q=2" }).rawQuery = joinQueries "k=1" "q=2" :=
  (resolve_iff (connectorAt { path := "/v1/", rawQuery := "k=1" }) { rawQuery := "k=1" }
    { rawQuery := "q=2" } { path := "/a b", rawQuery := "q=2" } (ascii "/v1/") (ascii "/a%20b")
    (by decide +kernel) (by decide +kernel)).2
      (.inl ⟨by unfold DefaultEncoded; decide +kernel, by unfold DefaultEncoded; decide +kernel⟩)

theorem escaped_slash_lost :
    setPath {} (ascii "/v1") = some (connectorAt { path := "/v1" }).base ∧
      setPath {} (ascii "a%2Fb") = some { path := "a/b", rawPath := "a%2Fb" } ∧
      joinSlash (escapedPath { path := "/v1" })
        (escapedPath { path := "a/b", rawPath := "a%2Fb" }) = ascii "/v1/a%2Fb" ∧
      escapedPath ((connectorAt { path := "/v1" }).resolveURL
        { path := "a/b", rawPath := "a%2Fb" }) = ascii "/v1/a/b" := by
  decide +kernel

end Octo.Http
