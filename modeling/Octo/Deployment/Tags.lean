import Mathlib.Data.Nat.Basic
import Mathlib.Order.PiLex
import Mathlib.Order.WellFounded
import Octo.Foundation.Trim

/-!
# The next version tag

`app/model/tags.ts`: tags that read as versions are compared segment by segment, a missing segment
as zero, and the last segment of the highest is raised by one. Segments are numbers below
`2 ^ 53 - 1`, which a double holds exactly, and their successors too.

* `suggestNextTag_highest` — the suggestion is new, reads as a version, and is above every tag.
-/

namespace Octo.Deployment.Tags

open List
open Octo.Foundation (trim trim_eq isBlank isWhiteSpace)

/-- `ParsedTag`; `mark` is its `prefix`. -/
structure ParsedTag where
  mark : List Char
  parts : List Nat
  mark_ok : mark = [] ∨ mark = ['v'] ∨ mark = ['V']
  parts_ne : parts ≠ []

variable (t : ParsedTag)

/-- The tag as it is written. -/
def ParsedTag.render : String :=
  String.ofList (t.mark ++ ['.'].intercalate (t.parts.map (Nat.toDigits 10)))

variable (text : List Char)

/-- The numbers of `\d+(\.\d+)*`. -/
def parseParts : Option { parts : List Nat // parts ≠ [] } :=
  if (text.splitOn '.').all fun s => s ≠ [] && s.all Char.isDigit then
    some ⟨(text.splitOn '.').map (Nat.ofDigitChars 10 · 0), by simp [splitOn_ne_nil]⟩
  else none

/-- The `v` a text starts with. -/
def leadingV : List Char := (text.head?.filter fun c => c = 'v' ∨ c = 'V').toList

theorem leadingV_ok :
    leadingV text = [] ∨ leadingV text = ['v'] ∨ leadingV text = ['V'] := by
  rcases text with _ | ⟨c, text⟩
  · exact .inl rfl
  · simp only [leadingV, head?_cons, Option.filter]
    split
    · next h => simpa using h
    · simp

def parse (tag : String) : Option ParsedTag :=
  let text := trim isWhiteSpace tag.toList
  (parseParts (text.drop (leadingV text).length)).map fun p =>
    ⟨leadingV text, p.1, leadingV_ok text, p.2⟩

/-- `a.parts[i] ?? 0`. -/
def ParsedTag.part (i : Nat) : Nat := t.parts.getD i 0

/-- The first difference, if any. -/
def compare (a b : ParsedTag) : Int :=
  match (range (max a.parts.length b.parts.length)).find? fun i => a.part i ≠ b.part i with
  | some i => a.part i - b.part i
  | none => 0

/-- `next[next.length - 1] += 1`. -/
def ParsedTag.bump : ParsedTag :=
  { t with
    parts := t.parts.modify (t.parts.length - 1) (· + 1)
    parts_ne := by simpa [← length_eq_zero_iff] using t.parts_ne }

def DEFAULT_TAG : String := "v1.0.0"

def suggestNextTag (existingTags : List String) : String :=
  match existingTags.filterMap parse with
  | [] => DEFAULT_TAG
  | first :: rest =>
    (rest.foldl (fun best cur => if compare cur best > 0 then cur else best) first).bump.render

/-! ## The order -/

theorem compare_pos_iff {a b : ParsedTag} : 0 < compare a b ↔ toLex b.part < toLex a.part := by
  constructor
  · intro h
    unfold compare at h
    split at h
    · next i hi =>
      obtain ⟨-, -, hbefore⟩ := find?_range_eq_some.1 hi
      exact ⟨i, fun j hj => by simpa [eq_comm] using hbefore j hj, by simpa using h⟩
    · exact absurd h (lt_irrefl 0)
  · rintro ⟨i, hbefore, hlt⟩
    have hlt : b.part i < a.part i := hlt
    have hlen : i < a.parts.length := by
      by_contra hge
      have hzero : a.part i = 0 := by simp [ParsedTag.part, getElem?_eq_none (not_lt.1 hge)]
      omega
    have hfind : (range (max a.parts.length b.parts.length)).find?
        (fun i => a.part i ≠ b.part i) = some i :=
      find?_range_eq_some.2 ⟨by simpa using hlt.ne', by simp [hlen], fun j hj => by
        simpa using (hbefore j hj).symm⟩
    rw [compare, hfind]
    dsimp only
    omega

theorem le_highest (rest : List ParsedTag) (first : ParsedTag) : ∀ t ∈ first :: rest,
    toLex t.part ≤ toLex (rest.foldl (fun best cur =>
      if compare cur best > 0 then cur else best) first).part := by
  induction rest generalizing first with
  | nil => simp
  | cons cur rest ih =>
    have hbest : ∀ t ∈ [first, cur],
        toLex t.part ≤ toLex (if compare cur first > 0 then cur else first).part := by
      split
      · next h => simp [(compare_pos_iff.1 h).le]
      · next h => simp [not_lt.1 (mt compare_pos_iff.2 h)]
    intro t ht
    obtain ht | ht := mem_append.1 (show t ∈ [first, cur] ++ rest from ht)
    · exact (hbest t ht).trans (ih _ _ mem_cons_self)
    · exact ih _ t (mem_cons_of_mem _ ht)

theorem lt_bump : toLex t.part < toLex t.bump.part := by
  have hlast : t.parts.length - 1 < t.parts.length :=
    Nat.sub_one_lt (mt length_eq_zero_iff.1 t.parts_ne)
  refine ⟨t.parts.length - 1, fun j hj => ?_, ?_⟩
  · have hne : t.parts.length - 1 ≠ j := Nat.ne_of_gt hj
    simp [ParsedTag.bump, ParsedTag.part, hne]
  · simp [ParsedTag.bump, ParsedTag.part, getElem?_eq_getElem hlast]

/-! ## Reading back -/

theorem mem_dotted {c : Char} : ∀ {ls : List (List Char)}, (∀ l ∈ ls, ∀ c ∈ l, c.isDigit) →
    c ∈ ['.'].intercalate ls → c = '.' ∨ c.isDigit
  | [], _, h => by simp at h
  | [l], hls, h => .inr (hls l (by simp) c (by simpa using h))
  | l :: m :: ls, hls, h => by
    simp only [intercalate_cons_cons, mem_append, mem_singleton] at h
    obtain (h | h) | h := h
    · exact .inr (hls l (by simp) c h)
    · exact .inl h
    · exact mem_dotted (fun l' hl' => hls l' (mem_cons_of_mem _ hl')) h

theorem not_space_of_digit {c : Char} (h : c = '.' ∨ c.isDigit) :
    ¬isWhiteSpace c ∧ c ≠ 'v' ∧ c ≠ 'V' := by
  obtain rfl | h := h
  · decide
  · have hn : 48 ≤ c.toNat ∧ c.toNat ≤ 57 := Char.isDigit_iff_toNat.1 h
    refine ⟨by simp [isWhiteSpace, isBlank]; omega, ?_, ?_⟩ <;> (rintro rfl; simp at hn)

theorem parse_render : parse t.render = some t := by
  obtain ⟨mark, parts, hmark, hne⟩ := t
  have hdigits : ∀ l ∈ parts.map (Nat.toDigits 10), ∀ c ∈ l, c.isDigit := by
    simp only [mem_map, forall_exists_index, and_imp, forall_apply_eq_imp_iff₂]
    exact fun n _ c => Nat.isDigit_of_mem_toDigits (by decide) (by decide)
  have hsplit : (['.'].intercalate (parts.map (Nat.toDigits 10))).splitOn '.' =
      parts.map (Nat.toDigits 10) :=
    splitOn_intercalate _ (fun l hl hdot => absurd (hdigits l hl _ hdot) (by decide)) (by simpa)
  have hparts : parseParts (['.'].intercalate (parts.map (Nat.toDigits 10))) =
      some ⟨parts, hne⟩ := by
    have hall : (parts.map (Nat.toDigits 10)).all (fun s => s ≠ [] && s.all Char.isDigit) := by
      simpa [Nat.toDigits_ne_nil] using hdigits
    have hread : (parts.map (Nat.toDigits 10)).map (Nat.ofDigitChars 10 · 0) = parts := by
      rw [map_map]
      exact map_id'' (fun n => Nat.ofDigitChars_toDigits (by decide) (by decide)) parts
    simp only [parseParts, hsplit, if_pos hall, hread]
  have hchars := fun c hc => not_space_of_digit (mem_dotted (c := c) hdigits hc)
  generalize hbody : ['.'].intercalate (parts.map (Nat.toDigits 10)) = body at *
  have hspace : ∀ c ∈ mark ++ body, ¬isWhiteSpace c := by
    intro c hc
    obtain hc | hc := mem_append.1 hc
    · obtain rfl | rfl | rfl := hmark <;> simp at hc <;> (subst hc; decide)
    · exact (hchars c hc).1
  have hlead : leadingV (mark ++ body) = mark := by
    obtain rfl | rfl | rfl := hmark
    · cases body with
      | nil => rfl
      | cons c body => simp [leadingV, hchars c mem_cons_self]
    · rfl
    · rfl
  have htrim : trim isWhiteSpace (mark ++ body) = mark ++ body :=
    trim_eq (fun c hc => hspace c (mem_of_head? hc)) fun c hc => hspace c (mem_of_getLast? hc)
  simp [parse, ParsedTag.render, hbody, htrim, hlead, hparts]

/-- **The suggestion is new and highest.** -/
theorem suggestNextTag_highest (tags : List String) :
    suggestNextTag tags ∉ tags ∧ ∃ p, parse (suggestNextTag tags) = some p ∧
      ∀ t ∈ tags, ∀ q, parse t = some q → 0 < compare p q := by
  obtain ⟨p, hp, hhigh⟩ : ∃ p, parse (suggestNextTag tags) = some p ∧
      ∀ t ∈ tags, ∀ q, parse t = some q → 0 < compare p q := by
    unfold suggestNextTag
    split
    · next hnone =>
      have hdefault : DEFAULT_TAG = (ParsedTag.mk ['v'] [1, 0, 0] (by simp) (by simp)).render := by
        decide
      refine ⟨_, hdefault ▸ parse_render _, fun t ht q hq => ?_⟩
      rw [filterMap_eq_nil_iff] at hnone
      exact absurd (hnone t ht) (by simp [hq])
    · next first rest hsome =>
      refine ⟨_, parse_render _, fun t ht q hq => compare_pos_iff.2 ?_⟩
      have hq : q ∈ first :: rest := hsome ▸ mem_filterMap.2 ⟨t, ht, hq⟩
      exact (le_highest rest first q hq).trans_lt (lt_bump _)
  refine ⟨fun hin => ?_, p, hp, hhigh⟩
  exact lt_irrefl _ (compare_pos_iff.1 (hhigh _ hin p hp))

end Octo.Deployment.Tags
