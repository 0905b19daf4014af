import Mathlib.Data.List.Basic
import Mathlib.Data.List.TakeWhile

/-!
# Trimming a list at both ends

* `trim_eq` — a list with none of them at its ends stays as it is; `trim_trim`.

`trimSpace` is `strings.TrimSpace` of Go, `isWhiteSpace` what `String.prototype.trim` of JavaScript
removes.
-/

namespace Octo.Foundation

open List

variable {α : Type} {p : α → Bool} {l : List α}

variable (p) in
def trim (l : List α) : List α := ((l.dropWhile p).reverse.dropWhile p).reverse

theorem dropWhile_eq_of_head? (h : ∀ a ∈ l.head?, ¬p a) : l.dropWhile p = l := by
  cases l with
  | nil => rfl
  | cons a => exact dropWhile_cons_of_neg (h a rfl)

theorem head?_dropWhile (l : List α) : ∀ a ∈ (l.dropWhile p).head?, ¬p a := by
  intro a ha
  have h := head?_dropWhile_not p l
  rw [Option.mem_def.1 ha] at h
  simpa using h

theorem trim_append (h : ∀ a ∈ l.head?, ¬p a) : ∃ t, trim p l ++ t = l := by
  obtain ⟨t, ht⟩ := List.dropWhile_suffix p
  refine ⟨t.reverse, ?_⟩
  unfold trim
  rw [dropWhile_eq_of_head? h, ← reverse_append, ht, reverse_reverse]

theorem getLast?_trim (l : List α) : ∀ a ∈ (trim p l).getLast?, ¬p a := by
  unfold trim
  rw [getLast?_reverse]
  exact head?_dropWhile _

theorem head?_trim (l : List α) : ∀ a ∈ (trim p l).head?, ¬p a := by
  intro a ha
  -- what is left in front is what was there before the end was cut
  obtain ⟨t, ht⟩ := trim_append (head?_dropWhile l)
  have htrim : trim p (l.dropWhile p) = trim p l := by
    unfold trim
    rw [dropWhile_eq_of_head? (head?_dropWhile l)]
  rw [htrim] at ht
  apply head?_dropWhile l
  rw [← ht, head?_append, Option.mem_def.1 ha]
  rfl

theorem trim_eq (hfirst : ∀ a ∈ l.head?, ¬p a) (hlast : ∀ a ∈ l.getLast?, ¬p a) : trim p l = l := by
  unfold trim
  rw [dropWhile_eq_of_head? hfirst, dropWhile_eq_of_head? (by rwa [head?_reverse]), reverse_reverse]

theorem trim_trim (l : List α) : trim p (trim p l) = trim p l :=
  trim_eq (head?_trim l) (getLast?_trim l)

theorem trim_ne_nil (hne : l ≠ []) (hfirst : ∀ a ∈ l.head?, ¬p a) : trim p l ≠ [] := by
  intro h
  unfold trim at h
  rw [dropWhile_eq_of_head? hfirst, reverse_eq_nil_iff, dropWhile_eq_nil_iff] at h
  obtain ⟨a, l, rfl⟩ := exists_cons_of_ne_nil hne
  exact hfirst a rfl (h a (by simp))

theorem length_trim_le (l : List α) : (trim p l).length ≤ l.length := by
  have h1 := (dropWhile_sublist p (l := l)).length_le
  have h2 := (dropWhile_sublist p (l := (l.dropWhile p).reverse)).length_le
  simp only [trim, length_reverse] at *
  omega

/-! ## White space -/

/-- What both languages count as white space. -/
def isBlank (c : Char) : Bool :=
  [0x09, 0x0A, 0x0B, 0x0C, 0x0D, 0x20, 0xA0, 0x1680, 0x2028, 0x2029, 0x202F, 0x205F,
    0x3000].contains c.toNat || (0x2000 ≤ c.toNat && c.toNat ≤ 0x200A)

def isSpace (c : Char) : Bool := isBlank c || c.toNat = 0x85

def isWhiteSpace (c : Char) : Bool := isBlank c || c.toNat = 0xFEFF

def trimSpace (s : String) : String := String.ofList (trim isSpace s.toList)

end Octo.Foundation
