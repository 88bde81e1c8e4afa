import Mathlib.Data.Finset.Card
import Mathlib.Tactic

/-!
# Prefixes of words

The first bits of a word, from the most significant one on, are selected by a mask whose first bits
are set and whose other bits are clear.  Two words have the same prefix of some width if they agree
on these bits.  The width of a mask is how many bits of it are set.
-/

namespace ChipletGem5

open BitVec Finset

variable {w l l' i : ℕ} {x y z : BitVec w}

/-- The mask for the first `l` bits. -/
def prefixMask (w l : ℕ) : BitVec w := BitVec.allOnes w <<< (w - l)

/-- The first `l` bits are the same. -/
def AgreeOn (l : ℕ) (x y : BitVec w) : Prop := ∀ i < l, x.getMsbD i = y.getMsbD i

/-- The number of bits that are set. -/
def maskWidth (m : BitVec w) : ℕ := ((Finset.range w).filter (fun i => m.getMsbD i)).card

lemma getMsbD_prefixMask (hl : l ≤ w) : (prefixMask w l).getMsbD i = decide (i < l) := by
  have hiff : i + (w - l) < w ↔ i < l := by omega
  rwa [prefixMask, getMsbD_shiftLeft, getMsbD_allOnes, decide_eq_decide]

lemma maskWidth_prefixMask (hl : l ≤ w) : maskWidth (prefixMask w l) = l := by
  have hfilter : (range w).filter (fun i => (prefixMask w l).getMsbD i) =
      range l := by
    ext i
    rw [mem_filter, mem_range, mem_range, getMsbD_prefixMask hl,
      decide_eq_true_eq]
    omega
  rw [maskWidth, hfilter, card_range]

lemma prefixMask_inj (hl : l ≤ w) (hl' : l' ≤ w) : prefixMask w l = prefixMask w l' ↔ l = l' := by
  constructor
  · intro h
    rw [← maskWidth_prefixMask hl, h, maskWidth_prefixMask hl']
  · rintro rfl
    rfl

lemma prefixMask_zero (w : ℕ) : prefixMask w 0 = 0 := by
  apply eq_of_getMsbD_eq
  intro i _
  rw [getMsbD_prefixMask (Nat.zero_le w)]
  simp

lemma prefixMask_and_prefixMask (hl : l ≤ w) (hl' : l' ≤ w) :
    prefixMask w l &&& prefixMask w l' = prefixMask w l ↔ l ≤ l' := by
  constructor
  · intro h
    by_contra hlt
    have hbit : (prefixMask w l &&& prefixMask w l').getMsbD l' = (prefixMask w l).getMsbD l' := by
      rw [h]
    rw [getMsbD_and, getMsbD_prefixMask hl, getMsbD_prefixMask hl'] at hbit
    simp [Nat.lt_of_not_le hlt] at hbit
  · intro hle
    apply eq_of_getMsbD_eq
    intro i _
    rw [getMsbD_and, getMsbD_prefixMask hl, getMsbD_prefixMask hl', ← Bool.decide_and,
      decide_eq_decide]
    omega

lemma and_prefixMask_eq_iff (hl : l ≤ w) :
    x &&& prefixMask w l = y &&& prefixMask w l ↔ AgreeOn l x y := by
  constructor
  · intro h i hi
    have hbit : (x &&& prefixMask w l).getMsbD i = (y &&& prefixMask w l).getMsbD i := by rw [h]
    simpa [getMsbD_prefixMask hl, hi] using hbit
  · intro h
    apply eq_of_getMsbD_eq
    intro i _
    rw [getMsbD_and, getMsbD_and, getMsbD_prefixMask hl]
    by_cases hi : i < l
    · rw [h i hi]
    · simp [hi]

lemma and_prefixMask_agreeOn (hl : l ≤ w) : AgreeOn l (x &&& prefixMask w l) x := by
  rw [← and_prefixMask_eq_iff hl, BitVec.and_assoc, BitVec.and_self]

namespace AgreeOn

lemma symm (h : AgreeOn l x y) : AgreeOn l y x := fun i hi => (h i hi).symm

lemma trans (h : AgreeOn l x y) (h' : AgreeOn l y z) : AgreeOn l x z :=
  fun i hi => (h i hi).trans (h' i hi)

lemma mono (h : AgreeOn l x y) (hl : l' ≤ l) : AgreeOn l' x y :=
  fun i hi => h i (hi.trans_le hl)

lemma zero (x y : BitVec w) : AgreeOn 0 x y := fun i hi => absurd hi (Nat.not_lt_zero i)

lemma succ_iff : AgreeOn (l + 1) x y ↔ AgreeOn l x y ∧ x.getMsbD l = y.getMsbD l := by
  constructor
  · intro h
    exact ⟨h.mono (Nat.le_succ l), h l (Nat.lt_succ_self l)⟩
  · rintro ⟨h, hl⟩ i hi
    rcases Nat.lt_succ_iff_lt_or_eq.1 hi with hlt | rfl
    · exact h i hlt
    · exact hl

end AgreeOn

end ChipletGem5
