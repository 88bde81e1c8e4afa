import Mathlib.Algebra.BigOperators.Intervals
import Mathlib.Tactic.Linarith
import Mathlib.Tactic.Ring

/-!
# The matrix benchmark

`benchmark/matrix/test01.cpp`: two processes of four threads each compute the product of two
matrices, every thread a slice of the result.  Indices are natural numbers and the elements are
integers, without overflow.
-/

namespace ChipletGem5.MatrixBenchmark

open Function List

variable (N : ℕ) (matrix1 matrix2 : ℕ → ℤ)

/-- The slices, with offset and length, that `launch_threads` gives to the `thread_num` = 4
threads of the processes 0 and 1. -/
def slices : List (ℕ × ℕ) :=
  [0, 1].flatMap fun id =>
    (range 4).map fun i => (i * N * N / 4 / 2 + id * N * N / 2, N * N / 4 / 2)

def caculate (matrix3 : ℕ → ℤ) (offset length : ℕ) : ℕ → ℤ :=
  (range length).foldl (fun m i =>
    let currentX := (i + offset) / N
    let currentY := (i + offset) % N
    (range N).foldl (fun m k => update m (i + offset)
      (m (i + offset) + matrix1 (currentY * N + k) * matrix2 (k * N + currentX))) m) matrix3

/-- An element of the product. -/
def product (x y : ℕ) : ℤ := ∑ k ∈ Finset.range N, matrix1 (x * N + k) * matrix2 (k * N + y)

/-- The slices are a partition of the result, and the threads compute the product. -/
structure Computed : Prop where
  disjoint : (slices N).Pairwise fun s t => s.1 + s.2 ≤ t.1 ∨ t.1 + t.2 ≤ s.1
  inside : ∀ s ∈ slices N, s.1 + s.2 ≤ N * N
  cover : ∀ p < N * N, ∃ s ∈ slices N, s.1 ≤ p ∧ p < s.1 + s.2
  right : ∀ x < N, ∀ y < N,
    (slices N).foldl (fun m s => caculate N matrix1 matrix2 m s.1 s.2) (fun _ => 0) (x * N + y)
      = product N matrix1 matrix2 x y

variable {N} {matrix1 matrix2}

lemma foldl_update (m : ℕ → ℤ) (p : ℕ) (f : ℕ → ℤ) (n : ℕ) :
    (range n).foldl (fun m k => update m p (m p + f k)) m =
      update m p (m p + ∑ k ∈ Finset.range n, f k) := by
  induction n with
  | zero => simp
  | succ n ih => simp [range_succ, ih, Finset.sum_range_succ, add_assoc]

lemma caculate_apply (m : ℕ → ℤ) (offset length p : ℕ) :
    caculate N matrix1 matrix2 m offset length p = m p +
      if offset ≤ p ∧ p < offset + length then product N matrix1 matrix2 (p % N) (p / N)
      else 0 := by
  induction length with
  | zero => simp [caculate]
  | succ n ih =>
    rw [caculate] at ih ⊢
    rw [range_succ, foldl_append, foldl_cons, foldl_nil, foldl_update]
    rcases eq_or_ne p (n + offset) with rfl | hp
    · rw [update_self, ih, if_neg (by omega), if_pos (by omega), add_zero, product]
    · rw [update_of_ne hp, ih]
      congr 2
      rw [eq_iff_iff]
      omega

lemma foldl_caculate (l : List (ℕ × ℕ)) (m : ℕ → ℤ) (p : ℕ) :
    l.foldl (fun m s => caculate N matrix1 matrix2 m s.1 s.2) m p = m p +
      l.countP (fun s => s.1 ≤ p ∧ p < s.1 + s.2) * product N matrix1 matrix2 (p % N) (p / N) := by
  induction l generalizing m with
  | nil => simp
  | cons s l ih =>
    rw [foldl_cons, ih, caculate_apply, countP_cons]
    by_cases hs : s.1 ≤ p ∧ p < s.1 + s.2
    · rw [if_pos hs, if_pos (by simpa using hs)]
      push_cast
      ring
    · rw [if_neg hs, if_neg (by simpa using hs)]
      simp

lemma slices_eq {m : ℕ} (hm : N * N = 8 * m) : slices N = (range 8).map fun j => (j * m, m) := by
  simp [slices, range_succ, mul_assoc, hm]
  omega

lemma countP_slices {m p : ℕ} (hm : N * N = 8 * m) (hp : p < N * N) :
    (slices N).countP (fun s => s.1 ≤ p ∧ p < s.1 + s.2) = 1 := by
  have hpos : 0 < m := by omega
  rw [slices_eq hm, countP_map, ← count_eq_one_of_mem nodup_range
    (mem_range.2 ((Nat.div_lt_iff_lt_mul hpos).2 (hm ▸ hp : p < 8 * m)))]
  refine countP_congr fun j _ => ?_
  rw [comp_apply, decide_eq_true_eq, beq_iff_eq, eq_comm, Nat.div_eq_iff hpos]
  exact and_congr_right fun _ => by omega

/-- **The benchmark computes the product** if and only if the number of elements is divisible by
eight and the product is symmetric. -/
theorem computed_iff (hN : 0 < N) : Computed N matrix1 matrix2 ↔ 8 ∣ N * N ∧
    ∀ x < N, ∀ y < N, product N matrix1 matrix2 y x = product N matrix1 matrix2 x y := by
  have hright : ∀ {m}, N * N = 8 * m → ∀ x < N, ∀ y < N, (slices N).foldl
      (fun m s => caculate N matrix1 matrix2 m s.1 s.2) (fun _ => 0) (x * N + y) =
        product N matrix1 matrix2 y x := by
    intro m hm x hx y hy
    have hp : x * N + y < N * N := by nlinarith
    rw [foldl_caculate, countP_slices hm hp, Nat.mul_add_mod', Nat.mod_eq_of_lt hy, mul_comm x,
      Nat.mul_add_div hN, Nat.div_eq_of_lt hy]
    simp
  constructor
  · intro h
    obtain ⟨s, hs, hlast⟩ := h.cover (N * N - 1) (Nat.sub_lt (Nat.mul_pos hN hN) one_pos)
    have hm : N * N = 8 * (N * N / 8) := by
      simp only [slices, range_succ, mul_assoc, Nat.div_div_eq_div_mul] at hs
      have := Nat.mul_pos hN hN
      generalize N * N = n at *
      simp at hs
      rcases hs with rfl | rfl | rfl | rfl | rfl | rfl | rfl | rfl <;> simp only at hlast <;> omega
    exact ⟨⟨_, hm⟩, fun x hx y hy => (hright hm x hx y hy).symm.trans (h.right x hx y hy)⟩
  · rintro ⟨⟨m, hm⟩, hsymm⟩
    refine ⟨?_, ?_, fun p hp => ?_, fun x hx y hy => ?_⟩
    · simp [slices, range_succ, mul_assoc, hm]
      omega
    · simp [slices, range_succ, mul_assoc, hm]
      omega
    · obtain ⟨s, hs, hin⟩ := countP_pos_iff.1 ((countP_slices hm hp).symm ▸ one_pos)
      exact ⟨s, hs, of_decide_eq_true hin⟩
    · exact (hright hm x hx y hy).trans (hsymm x hx y hy)

/-- Matrices of four rows with equal elements. -/
theorem computed_iff_four : Computed 4 (fun _ => 1) (fun _ => 2) :=
  (computed_iff (by decide)).2 ⟨by decide, fun _ _ _ _ => rfl⟩

/-- The last of nine elements is in no slice. -/
theorem not_computed_three : ¬ Computed 3 (fun _ => 1) (fun _ => 2) := fun h =>
  absurd (h.cover 8 (by decide)) (by decide)

end ChipletGem5.MatrixBenchmark
