import Mathlib.Data.List.Basic

/-!
# Base64

The standard alphabet with padding. Decoding ignores line breaks, wants every group of four
characters complete and the padding at the end, and does not look at the bits that padding cuts
off.

* `decode_encode`: every byte string is read back from its text.
-/

namespace Octo.Foundation.Base64

/-- The digits, in order of their values. -/
def alphabet : List Char :=
  "ABCDEFGHIJKLMNOPQRSTUVWXYZabcdefghijklmnopqrstuvwxyz0123456789+/".toList

def digit (n : Nat) : Char := alphabet.getD n 'A'

def value (c : Char) : Option Nat := alphabet.findIdx? (· = c)

/-- The byte of the low eight bits. -/
def byte (n : Nat) : UInt8 := UInt8.ofNat n

/-- Three bytes give four digits; a rest of one or two bytes is padded. -/
def encode : List UInt8 → List Char
  | [] => []
  | [a] => [digit (a.toNat / 4), digit (a.toNat % 4 * 16), '=', '=']
  | [a, b] => [digit (a.toNat / 4), digit (a.toNat % 4 * 16 + b.toNat / 16),
      digit (b.toNat % 16 * 4), '=']
  | a :: b :: c :: rest => digit (a.toNat / 4) :: digit (a.toNat % 4 * 16 + b.toNat / 16) ::
      digit (b.toNat % 16 * 4 + c.toNat / 64) :: digit (c.toNat % 64) :: encode rest

/-- The bytes of groups of four characters, of which the last may be padded. -/
def decodeGroups : List Char → Option (List UInt8)
  | [] => some []
  | a :: b :: c :: d :: rest => do
    let x ← value a
    let y ← value b
    let first := byte (x * 4 + y / 16)
    if d = '=' then
      if rest ≠ [] then none
      else if c = '=' then some [first]
      else return [first, byte (y * 16 + (← value c) / 4)]
    else
      let z ← value c
      let w ← value d
      return first :: byte (y * 16 + z / 4) :: byte (z * 64 + w) ::
        (← decodeGroups rest)
  | _ => none

def decode (text : List Char) : Option (List UInt8) :=
  decodeGroups (text.filter fun c => c ≠ '\r' ∧ c ≠ '\n')

theorem byte_eq {n : Nat} {b : UInt8} (h : n % 256 = b.toNat) : byte n = b :=
  UInt8.toNat_inj.mp (by simpa [byte] using h)

theorem value_digit {n : Nat} (h : n < 64) : value (digit n) = some n := by
  have hall : ∀ i : Fin 64, value (digit i) = some i.1 := by decide +kernel
  exact hall ⟨n, h⟩

theorem digit_ne {n : Nat} (h : n < 64) : digit n ≠ '=' ∧ digit n ≠ '\r' ∧ digit n ≠ '\n' := by
  have hall : ∀ i : Fin 64, digit i ≠ '=' ∧ digit i ≠ '\r' ∧ digit i ≠ '\n' := by decide +kernel
  exact hall ⟨n, h⟩

theorem mem_encode {bytes : List UInt8} : ∀ c ∈ encode bytes, c ≠ '\r' ∧ c ≠ '\n' := by
  fun_induction encode bytes with
  | case1 => simp
  | case2 a =>
    have := a.toNat_lt
    simp (disch := omega) [digit_ne]
  | case3 a b =>
    have := a.toNat_lt
    have := b.toNat_lt
    simp (disch := omega) [digit_ne]
  | case4 a b c rest ih =>
    have := a.toNat_lt
    have := b.toNat_lt
    have := c.toNat_lt
    simpa (disch := omega) [digit_ne] using ih

theorem decodeGroups_encode (bytes : List UInt8) : decodeGroups (encode bytes) = some bytes := by
  fun_induction encode bytes with
  | case1 => rfl
  | case2 a =>
    have := a.toNat_lt
    simp (disch := omega) [decodeGroups, value_digit, byte_eq (b := a)]
  | case3 a b =>
    have := a.toNat_lt
    have := b.toNat_lt
    simp (disch := omega) [decodeGroups, value_digit, digit_ne, byte_eq (b := a), byte_eq (b := b)]
  | case4 a b c rest ih =>
    have := a.toNat_lt
    have := b.toNat_lt
    have := c.toNat_lt
    simp (disch := omega) [decodeGroups, value_digit, digit_ne, ih, byte_eq (b := a),
      byte_eq (b := b), byte_eq (b := c)]

theorem decode_encode (bytes : List UInt8) : decode (encode bytes) = some bytes := by
  rw [decode, List.filter_eq_self.mpr fun c hc => decide_eq_true (mem_encode c hc),
    decodeGroups_encode]

end Octo.Foundation.Base64
