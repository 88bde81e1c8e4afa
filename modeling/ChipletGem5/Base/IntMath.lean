import Mathlib.Data.Nat.Bitwise
import Mathlib.Tactic

/-!
# Integer functions

`isPowerOf2` and `divCeil` of base/intmath.hh, for natural numbers.
-/

namespace ChipletGem5

open Nat

def isPowerOf2 (n : ℕ) : Bool := n != 0 && n &&& (n - 1) == 0

lemma exists_eq_two_pow {n : ℕ} (h : isPowerOf2 n) : n = 2 ^ n.log2 := by
  rw [isPowerOf2, Bool.and_eq_true, bne_iff_ne, beq_iff_eq] at h
  obtain ⟨hpos, hand⟩ := h
  have hle : 2 ^ n.log2 ≤ n := log2_self_le hpos
  have hlt : n < 2 ^ (n.log2 + 1) := lt_log2_self
  by_contra hne
  -- otherwise the highest bit is in both numbers
  have hbit : n.testBit n.log2 := testBit_of_two_pow_le_and_two_pow_add_one_gt hle hlt
  have hbit' : (n - 1).testBit n.log2 :=
    testBit_of_two_pow_le_and_two_pow_add_one_gt (by omega) (by omega)
  have hzero := congrArg (testBit · n.log2) hand
  simp [hbit, hbit'] at hzero

lemma dvd_of_isPowerOf2 {m n : ℕ} (hm : isPowerOf2 m) (hn : isPowerOf2 n)
    (hle : m ≤ n) : m ∣ n := by
  rw [exists_eq_two_pow hm, exists_eq_two_pow hn] at hle ⊢
  exact Nat.pow_dvd_pow 2 ((Nat.pow_le_pow_iff_right (by omega)).1 hle)

lemma isPowerOf2_two_pow (k : ℕ) : isPowerOf2 (2 ^ k) := by
  rw [isPowerOf2, Bool.and_eq_true, bne_iff_ne, beq_iff_eq]
  exact ⟨by positivity, by rw [and_two_pow_sub_one_eq_mod, mod_self]⟩

def divCeil (a b : ℕ) : ℕ := (a + b - 1) / b

lemma le_divCeil_mul (a : ℕ) {b : ℕ} (hb : 0 < b) : a ≤ divCeil a b * b := by
  unfold divCeil
  have hlt := lt_mul_div_succ (a + b - 1) hb
  rw [Nat.mul_succ, mul_comm] at hlt
  omega

end ChipletGem5
