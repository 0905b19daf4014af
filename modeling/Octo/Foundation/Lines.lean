import Mathlib.Data.List.Infix

/-!
# Lines of a text

A text is split at its line feeds; the last line may or may not be ended by one.

* `exists_line_infix_iff` — a word without line feeds is in a line exactly when it is in the text.
* `map_stripReturn_lines_iff` — the lines of a first part of a text, without their carriage returns,
  are those of the text exactly when nothing but a final line feed is missing and no line has one.
-/

namespace Octo.Foundation.Lines

open List

def chomp (text : List Char) : List Char :=
  if text.getLast? = some '\n' then text.dropLast else text

def lines (text : List Char) : List (List Char) :=
  if text = [] then [] else (chomp text).splitOn '\n'

variable (line : List Char)

def stripReturn : List Char :=
  if line.getLast? = some '\r' then line.dropLast else line

theorem chomp_cases (text : List Char) :
    chomp text = text ∧ text.getLast? ≠ some '\n' ∨ chomp text ++ ['\n'] = text := by
  unfold chomp
  split
  next h =>
    exact .inr (dropLast_append_getLast? '\n' h)
  next h =>
    exact .inl ⟨rfl, h⟩

theorem stripReturn_cases :
    stripReturn line = line ∨ stripReturn line ++ ['\r'] = line := by
  unfold stripReturn
  split
  next h =>
    exact .inr (dropLast_append_getLast? '\r' h)
  · exact .inl rfl

/-! ## Words -/

variable {word text : List Char}

theorem eq_nil_of_prefix_cons {b : List Char} {c : Char} (hc : c ∉ word) (h : word <+: c :: b) :
    word = [] := by
  cases word with
  | nil => rfl
  | cons =>
    obtain ⟨rfl, -⟩ := cons_prefix_cons.1 h
    exact absurd mem_cons_self hc

theorem infix_append_cons_iff {a b : List Char} {c : Char} (hc : c ∉ word) :
    word <:+: a ++ c :: b ↔ word <:+: a ∨ word <:+: b := by
  constructor
  · intro h
    rcases infix_append_iff.1 h with ha | hb | ⟨l₁, l₂, rfl, hl₁, hl₂⟩
    · exact .inl ha
    · rcases infix_cons_iff.1 hb with hpre | hb
      · rw [eq_nil_of_prefix_cons hc hpre]
        exact .inl nil_infix
      · exact .inr hb
    · have hnil := eq_nil_of_prefix_cons (fun h => hc (mem_append_right _ h)) hl₂
      rw [hnil, append_nil]
      exact .inl hl₁.isInfix
  · rintro (h | h)
    · exact infix_append_of_infix_left h
    · exact infix_append_of_infix_right (infix_cons_iff.2 (.inr h))

theorem exists_mem_intercalate_iff (hword : word ≠ []) (hline : '\n' ∉ word) :
    ∀ ls : List (List Char), (∃ l ∈ ls, word <:+: l) ↔ word <:+: ['\n'].intercalate ls
  | [] => by simp [hword]
  | [l] => by simp
  | l :: m :: ls => by
    rw [intercalate_cons_cons, append_assoc, singleton_append,
      infix_append_cons_iff hline, ← exists_mem_intercalate_iff hword hline (m :: ls)]
    simp

theorem infix_chomp_iff (hline : '\n' ∉ word) (hword : word ≠ []) :
    word <:+: chomp text ↔ word <:+: text := by
  rcases chomp_cases text with ⟨h, -⟩ | h
  · rw [h]
  · conv_rhs => rw [← h, infix_append_cons_iff hline]
    simp [hword]

theorem exists_line_infix_iff (hword : word ≠ []) (hline : '\n' ∉ word) :
    (∃ l ∈ lines text, word <:+: l) ↔ word <:+: text := by
  unfold lines
  split
  next h =>
    simp [h, hword]
  · rw [exists_mem_intercalate_iff hword hline, intercalate_splitOn, infix_chomp_iff hline hword]

theorem infix_stripReturn_iff {line : List Char} (hword : word ≠ []) (hreturn : '\r' ∉ word) :
    word <:+: stripReturn line ↔ word <:+: line := by
  rcases stripReturn_cases line with h | h
  · rw [h]
  · conv_rhs => rw [← h, infix_append_cons_iff hreturn]
    simp [hword]

/-! ## First parts of a text -/

theorem length_stripReturn_le : (stripReturn line).length ≤ line.length := by
  rcases stripReturn_cases line with h | h
  · rw [h]
  · conv_rhs => rw [← h, length_append]
    omega

theorem stripReturn_eq_of_length {line : List Char}
    (h : line.length ≤ (stripReturn line).length) : stripReturn line = line := by
  rcases stripReturn_cases line with heq | heq
  · exact heq
  · have hlen := congrArg List.length heq
    rw [length_append, length_singleton] at hlen
    omega

theorem intercalate_stripReturn : ∀ ls : List (List Char),
    (['\n'].intercalate (ls.map stripReturn)).length ≤ (['\n'].intercalate ls).length ∧
      ((['\n'].intercalate ls).length ≤ (['\n'].intercalate (ls.map stripReturn)).length →
        ∀ l ∈ ls, stripReturn l = l)
  | [] => ⟨Nat.le_refl _, fun _ _ h => nomatch h⟩
  | [l] => by
    simp only [map_cons, map_nil, intercalate_singleton, mem_singleton]
    refine ⟨length_stripReturn_le l, ?_⟩
    rintro h _ rfl
    exact stripReturn_eq_of_length h
  | l :: m :: ls => by
    obtain ⟨hle, heq⟩ := intercalate_stripReturn (m :: ls)
    have hl := length_stripReturn_le l
    simp only [map_cons, intercalate_cons_cons, length_append] at hle heq ⊢
    refine ⟨by omega, fun h k hk => ?_⟩
    rcases mem_cons.1 hk with rfl | hk
    · exact stripReturn_eq_of_length (by omega)
    · exact heq (by omega) k hk

def Whole (part text : List Char) : Prop :=
  part = text ∨ part ++ ['\n'] = text ∧ part ≠ [] ∧ part.getLast? ≠ some '\n'

variable {part : List Char}

theorem lines_of_whole (h : Whole part text) : lines part = lines text := by
  rcases h with rfl | ⟨rfl, hne, hlast⟩
  · rfl
  · have hpart : chomp part = part := if_neg hlast
    have htext : chomp (part ++ ['\n']) = part := by
      unfold chomp
      simp
    unfold lines
    rw [hpart, htext, if_neg hne, if_neg (by simp)]

theorem length_chomp (text : List Char) :
    (chomp text).length ≤ text.length ∧ text.length ≤ (chomp text).length + 1 := by
  rcases chomp_cases text with ⟨h, -⟩ | h
  · rw [h]
    omega
  · have hlen := congrArg List.length h
    rw [length_append, length_singleton] at hlen
    omega

theorem whole_of_length (hpart : part <+: text) (hne : part ≠ [])
    (h : (chomp text).length ≤ (chomp part).length) : Whole part text := by
  obtain ⟨rest, rfl⟩ := hpart
  have hchomp := length_chomp part
  cases rest with
  | nil => exact .inl (append_nil part).symm
  | cons c rest =>
    -- At most one character is missing, and it is the line feed.
    have htext := length_chomp (part ++ c :: rest)
    simp only [length_append, length_cons] at htext
    have hrest : rest = [] := eq_nil_of_length_eq_zero (by omega)
    subst hrest
    rcases chomp_cases part with ⟨heq, hlast⟩ | heq
    · refine .inr ⟨?_, hne, hlast⟩
      rcases chomp_cases (part ++ [c]) with ⟨hsame, -⟩ | hdrop
      · rw [hsame, length_append, length_singleton] at h
        omega
      · obtain ⟨-, hc⟩ := append_inj' hdrop rfl
        rw [hc]
    · have hlen := congrArg List.length heq
      simp only [length_append, length_singleton] at hlen htext
      omega

theorem length_chomp_of_whole (h : Whole part text) :
    (chomp part).length ≤ (chomp text).length := by
  rcases h with rfl | ⟨rfl, -, -⟩
  · exact Nat.le_refl _
  · have hpart := length_chomp part
    have htext := length_chomp (part ++ ['\n'])
    rw [length_append, length_singleton] at htext
    omega

theorem map_stripReturn_lines_iff (hpart : part <+: text) :
    (lines part).map stripReturn = lines text ↔
      Whole part text ∧ ∀ l ∈ lines text, stripReturn l = l := by
  constructor
  · intro h
    by_cases htext : text = []
    · subst htext
      rw [prefix_nil] at hpart
      exact ⟨.inl hpart, fun _ hl => nomatch hl⟩
    · by_cases hempty : part = []
      · rw [hempty, lines, lines, if_neg htext] at h
        exact absurd h.symm (splitOn_ne_nil _ _)
      · have hpartLines : lines part = (chomp part).splitOn '\n' := if_neg hempty
        rw [hpartLines, lines, if_neg htext] at h
        obtain ⟨hle, heq⟩ := intercalate_stripReturn ((chomp part).splitOn '\n')
        rw [h, intercalate_splitOn, intercalate_splitOn] at hle heq
        have hwhole := whole_of_length hpart hempty hle
        refine ⟨hwhole, ?_⟩
        rw [← lines_of_whole hwhole, hpartLines]
        exact heq (length_chomp_of_whole hwhole)
  · rintro ⟨hwhole, hlines⟩
    rw [lines_of_whole hwhole]
    exact (map_congr_left hlines).trans (map_id _)

end Octo.Foundation.Lines
