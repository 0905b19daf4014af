import Mathlib.Data.List.Chain
import Mathlib.Data.List.Nodup
import Mathlib.Data.List.Perm.Subperm
import Octo.Config.Types
import Octo.Foundation.Trim

/-!
# Generated names

`slugify` and `uniqueSlug` (`model/identity.ts`).  A new connection is named after its type, with a
number when the name is taken.  Among the numbered names up to one more than there are taken
names, one is free, so the search ends there.

* `uniqueSlug_iff`: the search ends with a free name, which is a slug unless a number was put behind
  a dash.
-/

namespace Octo.Editor

open List

def isSlugChar (c : Char) : Bool := ('a' ≤ c && c ≤ 'z') || ('0' ≤ c && c ≤ '9')

/-- `replace(/[^a-z0-9]+/g, "-")`: one dash for each run of other characters; `inRun` tells whether
the dash of the current run is written. -/
def dashRuns (inRun : Bool) : List Char → List Char
  | [] => []
  | c :: rest =>
    if isSlugChar c then c :: dashRuns false rest
    else if inRun then dashRuns true rest
    else '-' :: dashRuns true rest

-- `String.prototype.toLowerCase`
variable (toLowerCase : String → String)

def slugify (s : String) : String :=
  String.ofList ((dashRuns false (toLowerCase s).toList).dropWhile (· = '-'))

def slugBase (base : String) : String :=
  if slugify toLowerCase base = "" then "item" else slugify toLowerCase base

/-- The numbered names `uniqueSlug` tries, as many as it can need. -/
def numbered (slug : String) (count : Nat) : List String :=
  (range count).map fun n => slug ++ "-" ++ toString (n + 2)

def uniqueSlug (base : String) (taken : List String) : String :=
  let slug := slugBase toLowerCase base
  if slug ∉ taken then slug
  else ((numbered slug (taken.length + 1)).find? (· ∉ taken)).getD slug

/-! ## The search -/

theorem exists_free (slug : String) (taken : List String) : ∃ n, (range (taken.length + 1)).find?
    (fun n => slug ++ "-" ++ toString (n + 2) ∉ taken) = some n := by
  rw [← Option.isSome_iff_exists, find?_isSome]
  by_contra hnone
  have hall : ∀ name ∈ numbered slug (taken.length + 1), name ∈ taken := by
    intro name hname
    obtain ⟨n, hn, rfl⟩ := mem_map.1 hname
    by_contra hfree
    exact hnone ⟨n, hn, decide_eq_true hfree⟩
  have hnd : (numbered slug (taken.length + 1)).Nodup :=
    nodup_range.map fun m n h => by
      have hdigits : Nat.toDigits 10 (m + 2) = Nat.toDigits 10 (n + 2) := by
        simpa [Nat.toString_eq_ofList_toDigits] using congrArg String.toList h
      have hnumber := congrArg (Nat.ofDigitChars 10 · 0) hdigits
      simpa [Nat.ofDigitChars_toDigits] using hnumber
  -- more names than are taken, all different
  have hlength := (subperm_of_subset hnd hall).length_le
  simp only [numbered, length_map, length_range] at hlength
  omega

/-! ## Slugs -/

/-- Not both are dashes. -/
def Apart (a b : Char) : Prop := a ≠ '-' ∨ b ≠ '-'

/-- Slug characters and dashes, no dash in front or right behind another. -/
def IsSlug (l : List Char) : Prop :=
  (∀ c ∈ l, isSlugChar c ∨ c = '-') ∧ ('-' :: l).IsChain Apart

theorem ne_dash {c : Char} (h : isSlugChar c) : c ≠ '-' := by
  rintro rfl
  exact absurd h (by decide)

theorem mem_dashRuns (inRun : Bool) (l : List Char) :
    ∀ c ∈ dashRuns inRun l, isSlugChar c ∨ c = '-' := by
  fun_induction dashRuns inRun l with
  | case1 => simp
  | case2 inRun c rest hc ih => exact forall_mem_cons.2 ⟨.inl hc, ih⟩
  | case3 c rest hc ih => exact ih
  | case4 inRun c rest hc hrun ih => exact forall_mem_cons.2 ⟨.inr rfl, ih⟩

theorem isChain_dashRuns (inRun : Bool) (l : List Char) : (dashRuns inRun l).IsChain Apart ∧
    (inRun = true → ∀ c ∈ (dashRuns inRun l).head?, c ≠ '-') := by
  fun_induction dashRuns inRun l with
  | case1 => simp
  | case2 inRun c rest hc ih =>
    exact ⟨ih.1.cons fun _ _ => .inl (ne_dash hc), by simpa using fun _ => ne_dash hc⟩
  | case3 c rest hc ih => exact ih
  | case4 inRun c rest hc hrun ih =>
    exact ⟨ih.1.cons fun d hd => .inr (ih.2 rfl d hd), fun h => absurd h hrun⟩

theorem dashRuns_eq (inRun : Bool) (l : List Char) (hchars : ∀ c ∈ l, isSlugChar c ∨ c = '-')
    (hchain : l.IsChain Apart) (hhead : inRun = true → ∀ c ∈ l.head?, c ≠ '-') :
    dashRuns inRun l = l := by
  induction l generalizing inRun with
  | nil => rfl
  | cons c rest ih =>
    obtain ⟨hc, hrest⟩ := forall_mem_cons.1 hchars
    obtain ⟨hapart, htail⟩ := isChain_cons.1 hchain
    by_cases hslug : isSlugChar c
    · rw [dashRuns, if_pos hslug, ih false hrest htail (by simp)]
    · obtain rfl := hc.resolve_left hslug
      have hrun : ¬inRun = true := fun h => hhead h '-' rfl rfl
      rw [dashRuns, if_neg hslug, if_neg hrun, ih true hrest htail fun _ d hd => by
        simpa [Apart] using hapart d hd]

theorem isSlug_slugify (s : String) : IsSlug (slugify toLowerCase s).toList := by
  rw [slugify, String.toList_ofList]
  have hsuffix := dropWhile_suffix (· = '-') (l := dashRuns false (toLowerCase s).toList)
  refine ⟨fun c hc => mem_dashRuns _ _ c (hsuffix.subset hc), ?_⟩
  refine ((isChain_dashRuns _ _).1.suffix hsuffix).cons fun d hd => .inr ?_
  simpa using Foundation.head?_dropWhile _ d hd

variable {toLowerCase}

theorem slugify_eq_self_iff {s : String} (h : toLowerCase s = s) :
    slugify toLowerCase s = s ↔ IsSlug s.toList := by
  constructor
  · intro he
    exact he ▸ isSlug_slugify toLowerCase s
  · rintro ⟨hchars, hchain⟩
    obtain ⟨hhead, hchain⟩ := isChain_cons.1 hchain
    have hfirst : ∀ c ∈ s.toList.head?, c ≠ '-' := fun c hc => by simpa [Apart] using hhead c hc
    rw [slugify, h, dashRuns_eq false _ hchars hchain (by simp),
      Foundation.dropWhile_eq_of_head? (by simpa using hfirst), String.ofList_toList]

theorem isSlug_slugBase (base : String) : IsSlug (slugBase toLowerCase base).toList := by
  unfold slugBase
  split
  · exact ⟨forall_iff_forall_mem.1 (by decide), by simp [Apart]⟩
  · exact isSlug_slugify toLowerCase base

theorem slugBase_ne_empty (base : String) : slugBase toLowerCase base ≠ "" := by
  unfold slugBase
  split
  · decide
  · assumption

theorem isSlugChar_toDigits (n : Nat) : ∀ c ∈ (toString n).toList, isSlugChar c := by
  intro c hc
  have hdigit := Nat.isDigit_of_mem_toDigits (by decide) (by decide)
    (show c ∈ Nat.toDigits 10 n by simpa [Nat.toString_eq_ofList_toDigits] using hc)
  simp only [isSlugChar, Bool.or_eq_true]
  exact .inr hdigit

/-- A number makes no slug of a name that ends in a dash. -/
theorem slugify_numbered_iff
    (hlower : ∀ s : String, (∀ c ∈ s.toList, isSlugChar c = true ∨ c = '-') → toLowerCase s = s)
    (base : String) (n : Nat) :
    slugify toLowerCase (slugBase toLowerCase base ++ "-" ++ toString n) =
        slugBase toLowerCase base ++ "-" ++ toString n ↔
      (slugBase toLowerCase base).toList.getLast? ≠ some '-' := by
  obtain ⟨hchars, hchain⟩ := @isSlug_slugBase toLowerCase base
  have hdigits := isSlugChar_toDigits n
  have hne : (slugBase toLowerCase base).toList ≠ [] := by simpa using slugBase_ne_empty base
  have hnumber : ('-' :: (toString n).toList).Pairwise Apart :=
    pairwise_cons.2 ⟨fun d hd => .inr (ne_dash (hdigits d hd)),
      pairwise_of_forall_mem_list fun c hc d _ => .inl (ne_dash (hdigits c hc))⟩
  have htext : (slugBase toLowerCase base ++ "-" ++ toString n).toList =
      (slugBase toLowerCase base).toList ++ '-' :: (toString n).toList := by
    simp [String.append_assoc]
  have hall : ∀ c ∈ (slugBase toLowerCase base).toList ++ '-' :: (toString n).toList,
      isSlugChar c ∨ c = '-' := by
    simp only [mem_append, mem_cons]
    rintro c (hc | rfl | hc)
    · exact hchars c hc
    · exact .inr rfl
    · exact .inl (hdigits c hc)
  rw [slugify_eq_self_iff (hlower _ (htext ▸ hall)), htext, IsSlug, and_iff_right hall,
    ← cons_append, isChain_append, and_iff_right hchain, and_iff_right hnumber.isChain,
    getLast?_cons]
  cases hlast : (slugBase toLowerCase base).toList.getLast? with
  | none => exact absurd (getLast?_eq_none_iff.1 hlast) hne
  | some c => simp [Apart]

/-- **Generated names**: the search of `uniqueSlug` ends, at the first number that is free, with a
name that is not empty, not taken and its own slug exactly when the base is free or does not end in
a dash.  `toLowerCase` leaves the characters of a slug alone. -/
theorem uniqueSlug_iff (toLowerCase : String → String)
    (hlower : ∀ s : String, (∀ c ∈ s.toList, isSlugChar c = true ∨ c = '-') → toLowerCase s = s)
    (base : String) (taken : List String) :
    ((slugBase toLowerCase base ∈ taken → ∃ n,
        uniqueSlug toLowerCase base taken =
          slugBase toLowerCase base ++ "-" ++ toString (n + 2) ∧
        ∀ m < n, slugBase toLowerCase base ++ "-" ++ toString (m + 2) ∈ taken) ∧
      uniqueSlug toLowerCase base taken ≠ "" ∧ uniqueSlug toLowerCase base taken ∉ taken ∧
      slugify toLowerCase (uniqueSlug toLowerCase base taken) =
        uniqueSlug toLowerCase base taken) ↔
    slugBase toLowerCase base ∉ taken ∨ (slugBase toLowerCase base).toList.getLast? ≠ some '-' := by
  by_cases hfree : slugBase toLowerCase base ∉ taken
  · have hname : uniqueSlug toLowerCase base taken = slugBase toLowerCase base := if_pos hfree
    have hslug := @isSlug_slugBase toLowerCase base
    rw [hname]
    exact iff_of_true ⟨fun h => absurd h hfree, slugBase_ne_empty base, hfree,
      (slugify_eq_self_iff (hlower _ hslug.1)).2 hslug⟩ (.inl hfree)
  · obtain ⟨n, hn⟩ := exists_free (slugBase toLowerCase base) taken
    have hunique : uniqueSlug toLowerCase base taken =
        slugBase toLowerCase base ++ "-" ++ toString (n + 2) := by
      rw [uniqueSlug, if_neg hfree, numbered, find?_map, Function.comp_def, hn]
      rfl
    obtain ⟨hnew, -, hbefore⟩ := find?_range_eq_some.1 hn
    rw [hunique, slugify_numbered_iff hlower]
    constructor
    · exact fun h => .inr h.2.2.2
    · exact fun h => ⟨fun _ => ⟨n, rfl, fun m hm => by simpa using hbefore m hm⟩, by simp,
        of_decide_eq_true hnew, h.resolve_left hfree⟩

theorem second_http_named : uniqueSlug id "http" ["http"] = "http-2" ∧
    slugify id (uniqueSlug id "http" ["http"]) = uniqueSlug id "http" ["http"] :=
  ⟨by decide +kernel, ((uniqueSlug_iff id (fun _ _ => rfl) "http" ["http"]).mpr
    (.inr (by decide +kernel))).2.2.2⟩

/-- A name that is still being typed ends in a dash; the number is put behind it. -/
theorem trailing_dash_doubled :
    uniqueSlug id "my-" ["my-"] = "my--2" ∧ slugify id "my--2" = "my-2" := by
  decide +kernel

end Octo.Editor
