import UMail.Library.Utf8

-- Characters as sixteen bit units. Those beyond the units take two surrogates.
namespace Utf16

open Utf8 (Scalar runeError)

def isSurrogate (r : Nat) : Bool := 0xD800 ≤ r ∧ r < 0xE000

def encodeRune (r : Nat) : Nat × Nat :=
  if r < 0x10000 ∨ 0x110000 ≤ r then (runeError, runeError)
  else (0xD800 + (r - 0x10000) / 1024 % 1024, 0xDC00 + (r - 0x10000) % 1024)

def decodeRune (r₁ r₂ : Nat) : Nat :=
  if (0xD800 ≤ r₁ ∧ r₁ < 0xDC00) ∧ 0xDC00 ≤ r₂ ∧ r₂ < 0xE000 then
    (r₁ - 0xD800) * 1024 + (r₂ - 0xDC00) + 0x10000
  else runeError

def units (r : Nat) : List Nat :=
  if (encodeRune r).1 ≠ runeError ∨ (encodeRune r).2 ≠ runeError then
    [(encodeRune r).1, (encodeRune r).2]
  else [r]

variable {r u v : Nat}

theorem units_of_lt (h : r < 0x10000) : units r = [r] := by
  simp [units, encodeRune, h]

theorem units_of_le (h : 0x10000 ≤ r) (hr : Scalar r) :
    units r = [0xD800 + (r - 0x10000) / 1024, 0xDC00 + (r - 0x10000) % 1024] := by
  unfold Scalar at hr
  have hmod : (r - 0x10000) / 1024 % 1024 = (r - 0x10000) / 1024 := Nat.mod_eq_of_lt (by omega)
  have hpair : encodeRune r = (0xD800 + (r - 0x10000) / 1024, 0xDC00 + (r - 0x10000) % 1024) := by
    rw [encodeRune, if_neg (by omega), hmod]
  rw [units, hpair, if_pos (by unfold runeError; omega)]

theorem units_ne_nil (r : Nat) : units r ≠ [] := by
  unfold units
  split_ifs <;> exact List.cons_ne_nil _ _

theorem units_lt (hr : Scalar r) (h : u ∈ units r) : u < 0x10000 := by
  unfold Scalar at hr
  by_cases hlt : r < 0x10000
  · rw [units_of_lt hlt, List.mem_singleton] at h
    omega
  · rw [units_of_le (by omega) hr, List.mem_pair] at h
    omega

theorem not_isSurrogate (h : r < 0x10000) (hr : Scalar r) : isSurrogate r = false := by
  unfold Scalar at hr
  simp only [isSurrogate, decide_eq_false_iff_not]
  omega

theorem scalar_of_not_isSurrogate (h : isSurrogate u = false) (hu : u < 0x10000) : Scalar u := by
  simp only [isSurrogate, decide_eq_false_iff_not] at h
  unfold Scalar
  omega

-- Two units that are no pair of surrogates decode to the replacement, which no
-- pair stands for.
theorem units_decodeRune (h : decodeRune u v ≠ runeError) :
    Scalar (decodeRune u v) ∧ 0x10000 ≤ decodeRune u v ∧ units (decodeRune u v) = [u, v] := by
  unfold decodeRune at h ⊢
  split_ifs at h ⊢ with hpair
  · have hscalar : Scalar ((u - 0xD800) * 1024 + (v - 0xDC00) + 0x10000) := .inr (by omega)
    refine ⟨hscalar, by omega, ?_⟩
    rw [units_of_le (by omega) hscalar]
    simp only [List.cons.injEq, and_true]
    omega
  · exact absurd rfl h

theorem decodeRune_units (h : 0x10000 ≤ r) (hr : Scalar r) :
    ∃ u v, units r = [u, v] ∧ isSurrogate u = true ∧ decodeRune u v = r ∧ r ≠ runeError := by
  refine ⟨_, _, units_of_le h hr, ?_, ?_, by unfold runeError; omega⟩
  · unfold Scalar at hr
    simp only [isSurrogate, decide_eq_true_eq]
    omega
  · unfold Scalar at hr
    unfold decodeRune
    rw [if_pos (by omega)]
    omega

end Utf16
