import Mathlib.Data.Nat.Nth
import Mathlib.Tactic

/-!
# Taking bits out of a sequence, and putting bits in

`dropAll` takes the bits at the positions of an increasing list out of a sequence of bits, where
the `i`-th position has moved down by `i` when its turn comes.  The bit at a position `j` that stays
is then at the number of the positions below `j` that stay (`dropAll_count`).  `gapAll` makes gaps,
each by a copy of the bit below, and moves the `i`-th gap up by `i`.
-/

namespace ChipletGem5.BitGaps

open List Nat Finset

variable {bs : List ℕ} {f : ℕ → Bool} {b j : ℕ}

/-- Take out the bit at a position. -/
def drop (p : ℕ) (f : ℕ → Bool) (j : ℕ) : Bool := if j < p then f j else f (j + 1)

/-- Move the bits from a position on up by one. -/
def gap (p : ℕ) (f : ℕ → Bool) (j : ℕ) : Bool := if j < p then f j else decide (0 < j) && f (j - 1)

/-- Take out the bits at some positions. -/
def dropAll (bs : List ℕ) (f : ℕ → Bool) : ℕ → Bool :=
  bs.zipIdx.foldl (fun f b => drop (b.1 - b.2) f) f

def gapAll (bs : List ℕ) (f : ℕ → Bool) : ℕ → Bool :=
  bs.zipIdx.foldl (fun f b => gap (b.1 + b.2) f) f

lemma dropAll_append (bs : List ℕ) (b : ℕ) (f : ℕ → Bool) :
    dropAll (bs ++ [b]) f = drop (b - bs.length) (dropAll bs f) := by
  simp [dropAll, zipIdx_append]

lemma gapAll_append (bs : List ℕ) (b : ℕ) (f : ℕ → Bool) :
    gapAll (bs ++ [b]) f = gap (b + bs.length) (gapAll bs f) := by
  simp [gapAll, zipIdx_append]

/-! ### Positions that stay -/

lemma count_notMem (hnodup : bs.Nodup) (h : ∀ x ∈ bs, x < b) :
    Nat.count (· ∉ bs) b + bs.length = b := by
  have hsub : bs.toFinset ⊆ range b := fun x hx => by
    rw [mem_toFinset] at hx
    exact Finset.mem_range.2 (h x hx)
  have hfilter : (Finset.range b).filter (· ∉ bs) = Finset.range b \ bs.toFinset := by
    ext x
    simp
  have hcard := card_sdiff_add_card_eq_card hsub
  rwa [← hfilter, toFinset_card_of_nodup hnodup, card_range,
    ← count_eq_card_filter_range] at hcard

lemma count_notMem_append (h : ∀ x ∈ bs, x < b) (j : ℕ) :
    Nat.count (· ∉ bs ++ [b]) j + (if b < j then 1 else 0) = Nat.count (· ∉ bs) j := by
  induction j with
  | zero => simp
  | succ j ih =>
    rw [count_succ, count_succ, ← ih]
    by_cases hj : j = b
    · subst hj
      have hnot : j ∉ bs := fun hmem => lt_irrefl _ (h j hmem)
      simp [hnot]
    · by_cases hlt : b < j
      · simp [hj, hlt, hlt.trans (lt_succ_self j)]
        omega
      · have hlt' : ¬ b < j + 1 := by omega
        simp [hj, hlt, hlt']

lemma count_notMem_add (hs : bs.Pairwise (· < ·)) (j : ℕ) :
    Nat.count (· ∉ bs) j + bs.countP (· < j) = j := by
  induction bs using List.reverseRecOn with
  | nil => simp
  | append_singleton bs b ih =>
    obtain ⟨hsort, -, hlt⟩ := pairwise_append.1 hs
    have hcount := count_notMem_append (fun x hx => hlt x hx b (by simp)) j
    have hih := ih hsort
    have hlast : [b].countP (· < j) = if b < j then 1 else 0 := by
      by_cases hb : b < j <;> simp [hb]
    rw [countP_append]
    omega

lemma exists_count_eq (bs : List ℕ) (m : ℕ) : ∃ j ∉ bs, Nat.count (· ∉ bs) j = m := by
  have hinf : {x | x ∉ bs}.Infinite := by
    have hfin : {x | x ∈ bs}.Finite := bs.finite_toSet
    exact hfin.infinite_compl
  exact ⟨Nat.nth (· ∉ bs) m, nth_mem_of_infinite hinf m, count_nth_of_infinite hinf m⟩

/-! ### The sequences -/

lemma dropAll_count (hs : bs.Pairwise (· < ·)) (f : ℕ → Bool) (hj : j ∉ bs) :
    dropAll bs f (Nat.count (· ∉ bs) j) = f j := by
  induction bs using List.reverseRecOn generalizing j with
  | nil => simp [dropAll]
  | append_singleton bs b ih =>
    obtain ⟨hsort, -, hlt⟩ := pairwise_append.1 hs
    have hlt' : ∀ x ∈ bs, x < b := fun x hx => hlt x hx b (by simp)
    have hjb : j ≠ b := fun he => hj (by simp [he])
    have hjbs : j ∉ bs := fun hmem => hj (by simp [hmem])
    have hb : b ∉ bs := fun hmem => lt_irrefl _ (hlt' b hmem)
    have hcount := count_notMem_append hlt' j
    have hcountb := count_notMem hsort.nodup hlt'
    rw [dropAll_append, drop, ← ih hsort hjbs]
    rcases lt_or_gt_of_ne hjb with hlow | hhigh
    · -- the bits below `b` stay where they are
      have hmono : Nat.count (· ∉ bs) j < Nat.count (· ∉ bs) b := count_strict_mono hjbs hlow
      rw [if_neg (by omega)] at hcount
      rw [if_pos (by omega), ← hcount, add_zero]
    · have hmono : Nat.count (· ∉ bs) b < Nat.count (· ∉ bs) j := count_strict_mono hb hhigh
      rw [if_pos hhigh] at hcount
      rw [if_neg (by omega), hcount]

lemma dropAll_of_lt (hs : bs.Pairwise (· < ·)) (f : ℕ → Bool) (h : ∀ x ∈ bs, x < j) :
    dropAll bs f (j - bs.length) = f j := by
  have hj : j ∉ bs := fun hmem => lt_irrefl _ (h j hmem)
  have hcount := count_notMem hs.nodup h
  rw [← dropAll_count hs f hj, ← Nat.eq_sub_of_add_eq hcount]

lemma gap_lt (hlt : ∀ x ∈ bs, x < b) {x : ℕ × ℕ} (hx : x ∈ bs.zipIdx) :
    x.1 + x.2 + 1 < b + bs.length := by
  obtain ⟨hi, hxi⟩ := mem_zipIdx' hx
  have hmem : x.1 ∈ bs := by
    rw [hxi]
    exact getElem_mem hi
  have hxb := hlt x.1 hmem
  omega

lemma gapAll_of_pos (hs : bs.Pairwise (· < ·)) (f : ℕ → Bool) (hj : 0 < j) :
    gapAll bs f j = f (j - bs.zipIdx.countP fun b => b.1 + b.2 ≤ j) := by
  induction bs using List.reverseRecOn generalizing j with
  | nil => simp [gapAll]
  | append_singleton bs b ih =>
    obtain ⟨hsort, -, hlt⟩ := pairwise_append.1 hs
    have hlt' : ∀ x ∈ bs, x < b := fun x hx => hlt x hx b (by simp)
    rw [gapAll_append, gap, zipIdx_append, countP_append]
    have hlast : List.countP (fun b : ℕ × ℕ => decide (b.1 + b.2 ≤ j))
        ([b].zipIdx (0 + bs.length)) = if b + bs.length ≤ j then 1 else 0 := by
      by_cases hle : b + bs.length ≤ j <;> simp [hle]
    rw [hlast]
    by_cases hle : b + bs.length ≤ j
    · -- all other gaps are below
      have hall : ∀ k, j - 1 ≤ k →
          bs.zipIdx.countP (fun b : ℕ × ℕ => decide (b.1 + b.2 ≤ k)) = bs.length := by
        intro k hk
        rw [← length_zipIdx (l := bs), countP_eq_length]
        intro x hx
        have hgap := gap_lt hlt' hx
        simp only [decide_eq_true_eq]
        omega
      have hrest : gapAll bs f (j - 1) = f (j - 1 - bs.length) := by
        rcases bs with _ | ⟨x, bs⟩
        · simp [gapAll]
        · have hxb := hlt' x (by simp)
          rw [length_cons] at hle
          rw [ih hsort (by omega), hall _ le_rfl]
      rw [if_neg (by omega), if_pos hle, hrest, hall _ (by omega)]
      simp only [hj, decide_true, Bool.true_and]
      congr 1
      omega
    · rw [if_pos (by omega), if_neg hle, ih hsort hj, add_zero]

lemma gapAll_zero (h : 0 ∉ bs) (f : ℕ → Bool) : gapAll bs f 0 = f 0 := by
  induction bs using List.reverseRecOn with
  | nil => rfl
  | append_singleton bs b ih =>
    have hb : 0 < b := pos_of_ne_zero fun he => h (by simp [he])
    rw [gapAll_append, gap, if_pos (by omega), ih fun hmem => h (by simp [hmem])]

/-- The gaps above a position that are made for bits below it. -/
def slip (bs : List ℕ) (j : ℕ) : ℕ := bs.zipIdx.countP fun b => b.1 < j ∧ j < b.1 + b.2

lemma countP_add_slip (hj : j ∉ bs) :
    (bs.zipIdx.countP fun b => b.1 + b.2 ≤ j) + slip bs j = bs.countP (· < j) := by
  have hfst : bs.countP (· < j) = bs.zipIdx.countP fun b => b.1 < j := by
    conv_lhs => rw [← zipIdx_map_fst 0 bs, countP_map]
    rfl
  have hne : ∀ x ∈ bs.zipIdx, x.1 ≠ j := by
    rintro x hx rfl
    exact hj (fst_mem_of_mem_zipIdx hx)
  rw [hfst, slip]
  generalize bs.zipIdx = l at hne
  induction l with
  | nil => rfl
  | cons x l ih =>
    have hx : x.1 ≠ j := hne x (by simp)
    have hih := ih fun y hy => hne y (by simp [hy])
    rw [countP_cons, countP_cons, countP_cons]
    by_cases hlt : x.1 < j
    · by_cases hle : x.1 + x.2 ≤ j
      · simp only [hlt, hle, hle.not_gt, and_false, decide_true, decide_false,
          Bool.false_eq_true, if_true, if_false]
        omega
      · simp only [hlt, hle, not_le.1 hle, and_true, decide_true, decide_false,
          Bool.false_eq_true, if_true, if_false]
        omega
    · have hle : ¬ x.1 + x.2 ≤ j := by omega
      simp only [hlt, hle, false_and, decide_false, Bool.false_eq_true, if_false]
      omega

/-- When the bits at some positions are taken out and the gaps made, a bit that is not in the list
is one that was above it, by the number of gaps that have slipped. -/
lemma gapAll_dropAll (hs : bs.Pairwise (· < ·)) (f : ℕ → Bool) {j' : ℕ} (hj : j ∉ bs)
    (hj' : j' ∉ bs) (hcount : Nat.count (· ∉ bs) j' = Nat.count (· ∉ bs) j + slip bs j) :
    gapAll bs (dropAll bs f) j = f j' := by
  have hsum := count_notMem_add hs j
  have hslip := countP_add_slip hj
  rw [← dropAll_count hs f hj']
  rcases Nat.eq_zero_or_pos j with rfl | hpos
  · rw [gapAll_zero hj]
    congr 1
    omega
  · rw [gapAll_of_pos hs _ hpos]
    congr 1
    omega

end ChipletGem5.BitGaps
