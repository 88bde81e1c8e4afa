import Mathlib.Data.Nat.Count
import Mathlib.Tactic

/-!
# Counting in dyadic blocks

Block `j` of level `k` has the positions `r` with `r / 2 ^ k = j`.  A block of level `k + 1` is
made of two blocks of level `k`, so the number of marked positions in it, `span`, is the sum of
two such numbers: `span_succ`.  `before` counts from the start, over all blocks.
-/

namespace ChipletGem5.Blocks

open Nat

variable {p q : ℕ → Bool} {k j r : ℕ}

/-- The number of marked positions before `n`. -/
def before (p : ℕ → Bool) (n : ℕ) : ℕ := Nat.count (fun r => p r) n

/-- The number of marked positions in block `j` of level `k`. -/
def span (p : ℕ → Bool) (k j : ℕ) : ℕ := Nat.count (fun r => p (j * 2 ^ k + r)) (2 ^ k)

lemma before_succ (p : ℕ → Bool) (n : ℕ) :
    before p (n + 1) = before p n + if p n then 1 else 0 := count_succ _ n

lemma before_eq_countP {l : List ℕ} (hl : l.Nodup) (hp : ∀ r, p r ↔ r ∈ l) (n : ℕ) :
    before p n = l.countP (· < n) := by
  induction n with
  | zero => simp [before]
  | succ n ih =>
    have hsplit : l.countP (· < n + 1) = l.countP (· < n) + l.count n := by
      clear hl hp ih
      induction l with
      | nil => rfl
      | cons r l ih =>
        simp only [List.countP_cons, List.count_cons, ih, decide_eq_true_eq, beq_iff_eq]
        split_ifs <;> omega
    rw [before_succ, ih, hsplit]
    by_cases hn : n ∈ l
    · rw [List.count_eq_one_of_mem hl hn, if_pos ((hp n).2 hn)]
    · rw [List.count_eq_zero_of_not_mem hn, if_neg fun h => hn ((hp n).1 h)]

lemma before_block (p : ℕ → Bool) (k j : ℕ) :
    before p ((j + 1) * 2 ^ k) = before p (j * 2 ^ k) + span p k j := by
  rw [succ_mul]
  exact count_add _ _ _

lemma span_zero (p : ℕ → Bool) (j : ℕ) : span p 0 j = if p j then 1 else 0 := by
  simp only [span, pow_zero, mul_one, count_one, add_zero]

lemma span_succ (p : ℕ → Bool) (k j : ℕ) :
    span p (k + 1) j = span p k (2 * j) + span p k (2 * j + 1) := by
  have h := before_block p (k + 1) j
  have h1 := before_block p k (2 * j)
  have h2 := before_block p k (2 * j + 1)
  have e1 : j * 2 ^ (k + 1) = 2 * j * 2 ^ k := by ring
  have e2 : (j + 1) * 2 ^ (k + 1) = (2 * j + 1 + 1) * 2 ^ k := by ring
  rw [e1, e2] at h
  omega

lemma block_div {i : ℕ} (h : i < 2 ^ k) : (j * 2 ^ k + i) / 2 ^ k = j := by
  rw [mul_comm, mul_add_div (by positivity), div_eq_of_lt h, add_zero]

lemma lt_block_end (r k : ℕ) : r < (r / 2 ^ k + 1) * 2 ^ k := by
  rw [mul_comm]
  exact lt_mul_div_succ r (by positivity)

lemma div_two_pow_succ (r k : ℕ) : r / 2 ^ (k + 1) = r / 2 ^ k / 2 := by
  rw [pow_succ, Nat.div_div_eq_div_mul]

lemma span_congr (h : ∀ r, r / 2 ^ k = j → p r = q r) : span p k j = span q k j := by
  refine le_antisymm (count_mono_left fun i hi hp => ?_)
    (count_mono_left fun i hi hq => ?_)
  · rwa [← h _ (block_div hi)]
  · rwa [h _ (block_div hi)]

lemma span_eq_zero : span p k j = 0 ↔ ∀ r, r / 2 ^ k = j → p r = false := by
  refine count_iff_forall_not.trans ⟨fun h r hr => ?_, fun h i hi => ?_⟩
  · cases hr
    have hm := h (r % 2 ^ k) (mod_lt _ (by positivity))
    rwa [mul_comm, div_add_mod, Bool.not_eq_true] at hm
  · simpa using h _ (block_div hi)

end ChipletGem5.Blocks
