import Mathlib.Data.List.DropRight

/-!
# Percent encoding of byte strings

A byte that `keep` accepts is written as it is, every other one as `%` and two upper-case
hexadecimal digits.

* `unescape_escape`: decoding is a left inverse of encoding;
* `mem_escape`: a byte that is no `%` and no digit stands in an encoded text only where it
  stands in the text itself;
* `escape_eq_append_cons`, `dropWhile_escape`, `rdropWhile_escape`: cutting an encoded text at
  such a byte, or trimming it there, cuts or trims the text.
-/

namespace Octo.Percent

open List

abbrev Bytes := List UInt8

def ascii (s : String) : Bytes := s.toList.map fun c => UInt8.ofNat c.toNat

def ofBytes (b : Bytes) : String := String.ofList (b.map fun c => Char.ofNat c.toNat)

theorem ofNat_charOfNat (c : UInt8) : UInt8.ofNat (Char.ofNat c.toNat).toNat = c := by
  have hfin : ∀ n : Fin 256, (Char.ofNat n).toNat = n := by decide +kernel
  rw [hfin ⟨c.toNat, c.toNat_lt⟩, UInt8.ofNat_toNat]

theorem ascii_ofBytes (b : Bytes) : ascii (ofBytes b) = b := by
  simp [ascii, ofBytes, Function.comp_def, ofNat_charOfNat]

theorem ofBytes_inj {a b : Bytes} : ofBytes a = ofBytes b ↔ a = b :=
  (Function.LeftInverse.injective ascii_ofBytes).eq_iff

def hexDigit (n : Nat) : UInt8 := UInt8.ofNat (if n < 10 then 48 + n else 55 + n)

def unhex (c : UInt8) : Option Nat := if 48 ≤ c ∧ c ≤ 57 then some (c.toNat - 48)
  else if 65 ≤ c ∧ c ≤ 70 then some (c.toNat - 55)
  else if 97 ≤ c ∧ c ≤ 102 then some (c.toNat - 87)
  else none

def unescape : Bytes → Option Bytes
  | [] => some []
  | c :: rest =>
    if c = 37 then
      match rest with
      | a :: b :: rest =>
        match unhex a, unhex b with
        | some x, some y => (unescape rest).map (UInt8.ofNat (16 * x + y) :: ·)
        | _, _ => none
      | _ => none
    else (unescape rest).map (c :: ·)

def pathUnescape (s : Bytes) : Bytes := (unescape s).getD s

variable (keep : UInt8 → Bool)

def escapeByte (c : UInt8) : Bytes :=
  if keep c then [c] else [37, hexDigit (c.toNat / 16), hexDigit (c.toNat % 16)]

def escape (s : Bytes) : Bytes := s.flatMap (escapeByte keep)

variable {keep} {c x : UInt8} {s t u : Bytes}

@[simp] theorem escape_nil : escape keep [] = [] := rfl

@[simp] theorem escape_cons : escape keep (x :: s) = escapeByte keep x ++ escape keep s := rfl

@[simp] theorem escape_append : escape keep (s ++ t) = escape keep s ++ escape keep t :=
  flatMap_append

theorem unhex_hexDigit : ∀ n < 16, unhex (hexDigit n) = some n := by decide

theorem unhex_high (x : UInt8) : unhex (hexDigit (x.toNat / 16)) = some (x.toNat / 16) :=
  unhex_hexDigit _ (by have := x.toNat_lt; omega)

theorem unhex_low (x : UInt8) : unhex (hexDigit (x.toNat % 16)) = some (x.toNat % 16) :=
  unhex_hexDigit _ (Nat.mod_lt _ (by decide))

theorem unescape_escapeByte (h : keep 37 = false) :
    unescape (escapeByte keep x ++ t) = (unescape t).map (x :: ·) := by
  unfold escapeByte
  split
  case isTrue hx =>
    have hne : x ≠ 37 := fun e => by simp [e, h] at hx
    rw [unescape.eq_def]
    simp [hne]
  case isFalse =>
    have hb : UInt8.ofNat (16 * (x.toNat / 16) + x.toNat % 16) = x := by
      rw [Nat.div_add_mod, UInt8.ofNat_toNat]
    simp [unescape, unhex_high, unhex_low, hb]

theorem unescape_escape (h : keep 37 = false) (s : Bytes) : unescape (escape keep s) = some s := by
  induction s with
  | nil => rfl
  | cons x s ih => rw [escape_cons, unescape_escapeByte h, ih]; rfl

theorem unescape_eq_nil : unescape s = some [] ↔ s = [] := by
  refine ⟨fun h => ?_, fun h => by subst h; rfl⟩
  unfold unescape at h
  split at h
  · rfl
  · repeat' split at h
    all_goals simp at h

theorem escape_inj (h : keep 37 = false) : escape keep s = escape keep t ↔ s = t := by
  refine ⟨fun e => ?_, congrArg _⟩
  have hs := unescape_escape h s
  rw [e, unescape_escape h t] at hs
  exact (Option.some.inj hs).symm

theorem escape_eq_self (h : ∀ x ∈ s, keep x = true) : escape keep s = s := by
  induction s with
  | nil => rfl
  | cons x s ih =>
    rw [escape_cons, ih fun y hy => h y (.tail _ hy), escapeByte, if_pos (h x (.head _))]
    rfl

section Separator

variable (h37 : c ≠ 37) (hc : unhex c = none)
include h37 hc

theorem mem_escapeByte (h : c ∈ escapeByte keep x) : c = x ∧ keep x = true := by
  unfold escapeByte at h
  split at h
  case isTrue hx => exact ⟨by simpa using h, hx⟩
  case isFalse =>
    have hh : c ≠ hexDigit (x.toNat / 16) := fun e => by simp [e, unhex_high] at hc
    have hl : c ≠ hexDigit (x.toNat % 16) := fun e => by simp [e, unhex_low] at hc
    simp [h37, hh, hl] at h

theorem mem_escape (h : c ∈ escape keep s) : c ∈ s ∧ keep c = true := by
  obtain ⟨x, hx, hcx⟩ := mem_flatMap.1 h
  obtain ⟨rfl, hk⟩ := mem_escapeByte h37 hc hcx
  exact ⟨hx, hk⟩

theorem escape_eq_append_cons (h : escape keep s = t ++ c :: u) :
    ∃ t' u', s = t' ++ c :: u' ∧ t = escape keep t' ∧ u = escape keep u' := by
  induction s generalizing t with
  | nil => simp at h
  | cons x s ih =>
    obtain ⟨v, rfl, hv⟩ | ⟨v, hv, hu⟩ := append_eq_append_iff.1 h
    · obtain ⟨t', u', rfl, rfl, rfl⟩ := ih hv
      exact ⟨x :: t', u', rfl, rfl, rfl⟩
    · cases v with
      | nil =>
        obtain ⟨t', u', rfl, ht, rfl⟩ := ih (t := []) hu.symm
        exact ⟨x :: t', u', rfl, by simpa [← ht] using hv.symm, rfl⟩
      | cons y v =>
        obtain ⟨rfl, rfl⟩ := cons.inj hu
        have hm : c ∈ escapeByte keep x := by simp [hv]
        obtain ⟨rfl, hk⟩ := mem_escapeByte h37 hc hm
        rw [escapeByte, if_pos hk] at hv
        obtain ⟨rfl, rfl⟩ : t = [] ∧ v = [] := by
          have := congrArg length hv
          simp only [length_append, length_cons, length_nil] at this
          exact ⟨length_eq_zero_iff.1 (by omega), length_eq_zero_iff.1 (by omega)⟩
        exact ⟨[], s, rfl, rfl, rfl⟩

theorem dropWhile_escape (hk : keep c = true) (s : Bytes) :
    (escape keep s).dropWhile (· == c) = escape keep (s.dropWhile (· == c)) := by
  induction s with
  | nil => rfl
  | cons x s ih =>
    by_cases hx : x = c
    · subst hx
      simp [escapeByte, hk, ih]
    · have hh : ∃ y l, escapeByte keep x = y :: l ∧ y ≠ c := by
        unfold escapeByte
        split
        · exact ⟨x, [], rfl, hx⟩
        · exact ⟨37, _, rfl, h37.symm⟩
      obtain ⟨y, l, he, hy⟩ := hh
      simp [he, hy, hx]

theorem rdropWhile_escape (hk : keep c = true) (s : Bytes) :
    (escape keep s).rdropWhile (· == c) = escape keep (s.rdropWhile (· == c)) := by
  induction s using reverseRecOn with
  | nil => rfl
  | append_singleton s x ih =>
    by_cases hx : x = c
    · subst hx
      simp [escapeByte, hk, ih]
    · have hh : ∃ l y, escapeByte keep x = l ++ [y] ∧ y ≠ c := by
        unfold escapeByte
        split
        · exact ⟨[], x, rfl, hx⟩
        · exact ⟨[37, _], _, rfl, fun e => by simp [← e, unhex_low] at hc⟩
      obtain ⟨l, y, he, hy⟩ := hh
      simp [he, hy, hx]

end Separator

theorem eq_escape_of_dropWhile (hk : keep c = true) (h : s.dropWhile (· == c) = escape keep t) :
    ∃ s', s = escape keep s' := by
  induction s with
  | nil => exact ⟨[], rfl⟩
  | cons x s ih =>
    by_cases hx : x = c
    · obtain ⟨s', rfl⟩ := ih (by simpa [hx] using h)
      exact ⟨x :: s', by simp [escapeByte, hx, hk]⟩
    · exact ⟨t, by simpa [hx] using h⟩

theorem eq_escape_of_rdropWhile (hk : keep c = true) (h : s.rdropWhile (· == c) = escape keep t) :
    ∃ s', s = escape keep s' := by
  induction s using reverseRecOn with
  | nil => exact ⟨[], rfl⟩
  | append_singleton s x ih =>
    by_cases hx : x = c
    · obtain ⟨s', rfl⟩ := ih (by simpa [hx] using h)
      exact ⟨s' ++ [x], by simp [escapeByte, hx, hk]⟩
    · exact ⟨t, by simpa [hx] using h⟩

end Octo.Percent
