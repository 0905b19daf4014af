import Octo.Deployment.Requests
import Mathlib.Data.List.Chain
import Mathlib.Data.Nat.Digits.Defs

/-!
# Slugs are stable

What `slugify` and `allocateSlug` produce are words of letters and digits joined by single dashes,
within the length a Service name leaves; `slugify` leaves such a slug as it is.

* `slugify_of_isSlug` — a slug is its own slug.
* `isSlug_slugify`, `isSlug_candidates` — what is normalised or allocated is a slug.
-/

namespace Octo.Deployment

open List Octo.Foundation

/-! ## What a slug looks like -/

def SingleDash (a b : Char) : Prop := ¬(a = '-' ∧ b = '-')

instance : DecidableRel SingleDash := fun _ _ => inferInstanceAs (Decidable ¬_)

structure Dashed (l : List Char) : Prop where
  chars : ∀ c ∈ l, isSlugChar c ∨ c = '-'
  chain : l.IsChain SingleDash
  first : l.head? ≠ some '-'

structure IsSlug (l : List Char) : Prop extends Dashed l where
  last : l.getLast? ≠ some '-'
  ne_nil : l ≠ []
  length_le : l.length ≤ maxLen

theorem ne_dash_of_isSlugChar {c : Char} (h : isSlugChar c) : c ≠ '-' := by
  rintro rfl
  exact absurd h (by decide)

namespace Dashed

theorem nil : Dashed [] := ⟨by simp, .nil, by simp⟩

theorem of_append {l t : List Char} (h : Dashed (l ++ t)) : Dashed l := by
  refine ⟨fun c hc => h.chars c (mem_append_left t hc), h.chain.left_of_append, fun hl => ?_⟩
  apply h.first
  rw [head?_append, hl]
  rfl

theorem concat_char {l : List Char} (h : Dashed l) {c : Char} (hc : isSlugChar c) :
    Dashed (l ++ [c]) := by
  refine ⟨?_, ?_, ?_⟩
  · refine forall_mem_append.2 ⟨h.chars, ?_⟩
    simpa using Or.inl hc
  · refine h.chain.append (.singleton c) fun x _ y hy hdash => ?_
    cases hy
    exact ne_dash_of_isSlugChar hc hdash.2
  · cases l with
    | nil => simpa using ne_dash_of_isSlugChar hc
    | cons => exact h.first

theorem concat_dash {l : List Char} (h : Dashed l) (hne : l ≠ []) (hlast : l.getLast? ≠ some '-') :
    Dashed (l ++ ['-']) := by
  refine ⟨?_, ?_, ?_⟩
  · exact forall_mem_append.2 ⟨h.chars, by simp⟩
  · refine h.chain.append (.singleton _) fun x hx y _ hdash => ?_
    exact hlast (hdash.1 ▸ hx)
  · cases l with
    | nil => exact absurd rfl hne
    | cons => exact h.first

end Dashed

/-! ## Normalising -/

theorem dashed_slugLoop : ∀ (l b : List Char) (dash : Bool), Dashed b →
    (dash = false → b.getLast? ≠ some '-') → Dashed (slugLoop l b dash)
  | [], _, _, h, _ => h
  | r :: rest, b, dash, h, hlast => by
    unfold slugLoop
    split
    next hr =>
      refine dashed_slugLoop rest _ false (h.concat_char hr) fun _ => ?_
      simpa using ne_dash_of_isSlugChar hr
    · split
      next hdash =>
        rw [Bool.and_eq_true, Bool.not_eq_true', Bool.not_eq_true'] at hdash
        have hne : b ≠ [] := by simpa using hdash.1
        exact dashed_slugLoop rest _ true (h.concat_dash hne (hlast hdash.2)) (by simp)
      · exact dashed_slugLoop rest b dash h hlast

theorem slugLoop_eq : ∀ (l b : List Char) (dash : Bool), (∀ c ∈ l, isSlugChar c ∨ c = '-') →
    l.IsChain SingleDash → (b = [] ∨ dash = true → l.head? ≠ some '-') → slugLoop l b dash = b ++ l
  | [], b, _, _, _, _ => by simp [slugLoop]
  | r :: rest, b, dash, hchars, hchain, hfirst => by
    have hrest : ∀ c ∈ rest, isSlugChar c ∨ c = '-' := fun c hc =>
      hchars c (mem_cons_of_mem r hc)
    unfold slugLoop
    split
    next hr =>
      rw [slugLoop_eq rest _ _ hrest hchain.tail (by simp), append_assoc, singleton_append]
    next hr =>
      -- a dash, after a letter or digit and before another
      have hdash : r = '-' := (hchars r mem_cons_self).resolve_left hr
      have hopen : b ≠ [] ∧ dash = false := by
        constructor
        · exact fun hb => hfirst (.inl hb) (congrArg some hdash)
        · exact Bool.eq_false_iff.2 fun hd => hfirst (.inr hd) (congrArg some hdash)
      rw [if_pos (by simpa using hopen), slugLoop_eq rest _ _ hrest hchain.tail,
        append_assoc, singleton_append, hdash]
      intro _ hhead
      exact hchain.rel_head? hhead ⟨hdash, rfl⟩

theorem trimDash_eq_trim (l : List Char) : trimDash l = trim (· = '-') l := rfl

theorem Dashed.trimmed {l : List Char} (h : Dashed l) :
    ∀ c ∈ l.head?, ¬(decide (c = '-')) = true := by
  intro c hc hdash
  exact h.first (of_decide_eq_true hdash ▸ hc)

theorem Dashed.isSlug_trimDash {l : List Char} (h : Dashed l) (hne : trimDash l ≠ [])
    (hlen : (trimDash l).length ≤ maxLen) : IsSlug (trimDash l) := by
  obtain ⟨t, ht⟩ := trim_append h.trimmed
  refine ⟨of_append (ht.symm ▸ h), fun hlast => ?_, hne, hlen⟩
  exact getLast?_trim l '-' hlast (by simp)

variable {toLower : String → String}

theorem IsSlug.trimmed_last {l : List Char} (h : IsSlug l) :
    ∀ c ∈ l.getLast?, ¬(decide (c = '-')) = true := by
  intro c hc hdash
  exact h.last (of_decide_eq_true hdash ▸ hc)

theorem isSlug_slugify (name : String) (hne : slugify toLower name ≠ "") :
    IsSlug (slugify toLower name).toList := by
  have hloop : Dashed (slugLoop (toLower name).toList [] false) :=
    dashed_slugLoop _ [] false .nil (by simp)
  obtain ⟨t, ht⟩ := trim_append hloop.trimmed
  have htrim : Dashed (trimDash (slugLoop (toLower name).toList [] false)) :=
    Dashed.of_append (ht.symm ▸ hloop)
  unfold slugify at hne ⊢
  rw [String.toList_ofList]
  have hne : bounded (trimDash (slugLoop (toLower name).toList [] false)) ≠ [] := by
    simpa using hne
  have hlen := length_bounded_le (trimDash (slugLoop (toLower name).toList [] false))
  unfold bounded at hne hlen ⊢
  split
  next hlong =>
    rw [if_pos hlong] at hne hlen
    have htake : Dashed ((trimDash (slugLoop (toLower name).toList [] false)).take maxLen) := by
      apply Dashed.of_append
      rwa [take_append_drop]
    exact htake.isSlug_trimDash hne hlen
  next hshort =>
    rw [if_neg hshort] at hne hlen
    exact hloop.isSlug_trimDash hne hlen

/-- A DNS-1123 label of at most `maxLen` characters. -/
structure IsLabel (l : List Char) : Prop where
  chars : ∀ c ∈ l, isSlugChar c ∨ c = '-'
  first : ∃ c ∈ l.head?, isSlugChar c
  last : ∃ c ∈ l.getLast?, isSlugChar c
  length_le : l.length ≤ maxLen

theorem IsSlug.isLabel {l : List Char} (h : IsSlug l) : IsLabel l := by
  have hchar : ∀ c ∈ l, some c ≠ some '-' → isSlugChar c := fun c hc hne =>
    (h.chars c hc).resolve_right fun heq => hne (congrArg some heq)
  refine ⟨h.chars, ⟨_, head?_eq_some_head h.ne_nil, ?_⟩, ⟨_, getLast?_eq_some_getLast h.ne_nil, ?_⟩,
    h.length_le⟩
  · exact hchar _ (head_mem h.ne_nil) (head?_eq_some_head h.ne_nil ▸ h.first)
  · exact hchar _ (getLast_mem h.ne_nil) (getLast?_eq_some_getLast h.ne_nil ▸ h.last)

theorem slugify_of_isSlug (hlower : ∀ s : String, (∀ c ∈ s.toList, isSlugChar c ∨ c = '-') →
    toLower s = s) {slug : String} (h : IsSlug slug.toList) : slugify toLower slug = slug := by
  have hloop := slugLoop_eq slug.toList [] false h.chars h.chain fun _ => h.first
  unfold slugify
  rw [hlower slug h.chars, hloop, nil_append, trimDash_eq_trim, trim_eq h.trimmed h.trimmed_last,
    bounded_of_le h.length_le, String.ofList_toList]

/-! ## Allocating -/

theorem slugSuffix_spec {i : Nat} (hi : i < 1000) :
    ∃ digits, slugSuffix i = '-' :: digits ∧ (∀ c ∈ digits, isSlugChar c) ∧ digits ≠ [] ∧
      digits.length ≤ 3 := by
  have hdigits : (toString i).toList = Nat.toDigits 10 i := by
    rw [Nat.toString_eq_ofList_toDigits, String.toList_ofList]
  have hlen : (Nat.toDigits 10 i).length ≤ 3 := Nat.toDigits_length 10 i 3 (by decide) hi
  have hpos : 0 < (Nat.toDigits 10 i).length := Nat.length_toDigits_pos
  refine ⟨List.replicate (3 - (Nat.toDigits 10 i).length) '0' ++ Nat.toDigits 10 i, ?_, ?_, ?_, ?_⟩
  · unfold slugSuffix
    rw [hdigits]
    rfl
  · refine forall_mem_append.2 ⟨fun c hc => ?_, fun c hc => ?_⟩
    · rw [eq_of_mem_replicate hc]
      decide
    · have hdigit : c.isDigit := Nat.isDigit_of_mem_toDigits (by decide) (by decide) hc
      unfold isSlugChar
      rw [Bool.or_eq_true]
      right
      simpa [Char.isDigit, Char.le_def] using hdigit
  · intro h
    rw [(append_eq_nil_iff.1 h).2] at hpos
    exact absurd hpos (by decide)
  · rw [length_append, length_replicate]
    omega

theorem Dashed.append_chars {l : List Char} : ∀ {d : List Char}, Dashed l →
    (∀ c ∈ d, isSlugChar c) → Dashed (l ++ d)
  | [], h, _ => by rwa [append_nil]
  | c :: d, h, hd => by
    have hc := h.concat_char (hd c mem_cons_self)
    have := append_chars hc fun c' hc' => hd c' (mem_cons_of_mem c hc')
    rwa [append_assoc] at this

theorem IsSlug.append_suffix {t : List Char} (h : IsSlug t) {i : Nat} (hi : i < 1000)
    (hlen : t.length + (slugSuffix i).length ≤ maxLen) : IsSlug (t ++ slugSuffix i) := by
  obtain ⟨digits, hsuffix, hdigits, hne, -⟩ := slugSuffix_spec hi
  have hdashed : Dashed (t ++ slugSuffix i) := by
    rw [hsuffix, ← singleton_append, ← append_assoc]
    exact (h.concat_dash h.ne_nil h.last).append_chars hdigits
  refine ⟨hdashed, fun hlast => ?_, by simp [h.ne_nil], by rwa [length_append]⟩
  have hmem : '-' ∈ digits := by
    apply mem_of_getLast?
    rwa [hsuffix, getLast?_append_cons, getLast?_cons_of_ne_nil hne] at hlast
  exact ne_dash_of_isSlugChar (hdigits _ hmem) rfl

theorem isSlug_candidate {base : List Char} (h : IsSlug base) {i : Nat} (hi : i < 1000) :
    IsSlug (candidate base i).toList := by
  unfold candidate
  split
  · rwa [String.toList_ofList]
  · rw [String.toList_ofList]
    have hsuffix : (slugSuffix i).length ≤ 4 := by
      obtain ⟨digits, hdigits, -, -, hlen⟩ := slugSuffix_spec hi
      rw [hdigits, length_cons]
      omega
    have hmax : maxLen = 54 := rfl
    split
    · -- the base is cut to leave room, and still starts with a letter or digit
      set cut := base.take (maxLen - (slugSuffix i).length) with hcut
      have hdashed : Dashed cut := by
        apply Dashed.of_append
        rw [take_append_drop]
        exact h.toDashed
      have hcutne : cut ≠ [] := by
        rw [Ne, take_eq_nil_iff, not_or]
        exact ⟨by omega, h.ne_nil⟩
      have hcutlen : (trimDash cut).length ≤ maxLen - (slugSuffix i).length :=
        (length_trim_le cut).trans (length_take_le ..)
      have htrim := hdashed.isSlug_trimDash (trim_ne_nil hcutne hdashed.trimmed) (by omega)
      exact htrim.append_suffix hi (by omega)
    · exact h.append_suffix hi (by omega)

/-- What `allocateSlug` starts from. -/
def plainSlug (toLower : String → String) (name : String) : String :=
  if slugify toLower name = "" then "integration" else slugify toLower name

theorem isSlug_plainSlug (name : String) : IsSlug (plainSlug toLower name).toList := by
  unfold plainSlug
  split
  · refine ⟨⟨?_, by decide, by decide⟩, by decide, by decide, by decide⟩
    -- the characters of the text one by one, not all characters
    exact fun c hc => .inl (all_eq_true.1 (by decide) c hc)
  next hne => exact isSlug_slugify name hne

theorem candidates_plainSlug (name : String) : candidates toLower "" name =
    (List.range 1000).map (candidate (plainSlug toLower name).toList) := by
  rw [candidates, if_pos rfl]
  show List.map (candidate (bounded (plainSlug toLower name).toList)) _ = _
  rw [bounded_of_le (isSlug_plainSlug name).length_le]

theorem isSlug_candidates {chosen name slug : String} (h : slug ∈ candidates toLower chosen name) :
    IsSlug slug.toList := by
  by_cases hchosen : chosen = ""
  · rw [hchosen, candidates_plainSlug] at h
    obtain ⟨i, hi, rfl⟩ := mem_map.1 h
    exact isSlug_candidate (isSlug_plainSlug name) (mem_range.1 hi)
  · rw [candidates, if_neg hchosen] at h
    split at h
    · cases h
    next hne =>
      rw [mem_singleton.1 h]
      exact isSlug_slugify chosen hne

end Octo.Deployment
