import ChipletGem5.Base.CircularQueueRuns

/-!
# Valid indices and the arithmetic of iterators

All of this holds for every queue that calls lead to, however often its round has overflowed: the
fields only have to be in their ranges (`Bounded`), and rounds are compared modulo `2 ^ 32`.
The arithmetic of iterators divides negative numbers as unsigned ones, which gives the right result
for the powers of two below `2 ^ 31` only.
-/

namespace ChipletGem5.CircularQueue

open Iterator Nat Function

variable {α : Type} {q q' : CircularQueue α} {n k d : ℕ} {a : Iterator}

/-! ### The fields of the queue -/

/-- The fields of a queue of capacity `n` are in their ranges. -/
structure Bounded (n : ℕ) (q : CircularQueue α) : Prop where
  two_le : 2 ≤ n
  lt : n < 2 ^ 32
  capacity : q.capacity = n
  head_lt : q.head < n
  tail_lt : q.tail < n
  round_lt : q.round < 2 ^ 32
  empty : q.empty → q.head = (q.tail + 1) % n

lemma toUInt32_lt (m : ℕ) : toUInt32 m < 2 ^ 32 := mod_lt _ (by decide)

namespace Bounded

section

variable (h : Bounded n q)
include h

lemma moduloAdd_lt (x y : ℕ) : moduloAdd x y q.capacity < n := by
  have htwo := h.two_le
  rw [h.capacity]
  exact mod_lt _ (by omega)

lemma endIt_idx : q.endIt.idx = (q.tail + 1) % n := by
  have htail := h.tail_lt
  have hlt := h.lt
  change moduloAdd q.tail 1 q.capacity = _
  rw [moduloAdd, h.capacity, toUInt32_of_lt (by omega)]

lemma advanceTail : Bounded n q.advanceTail := by
  refine { h with
    head_lt := ?_, tail_lt := h.moduloAdd_lt _ _, round_lt := ?_, empty := nofun }
  all_goals
    simp only [CircularQueue.advanceTail]
    split_ifs
  · exact h.moduloAdd_lt _ _
  · exact h.head_lt
  · exact toUInt32_lt _
  · exact h.round_lt

lemma advanceTailBy (k : ℕ) : Bounded n (q.advanceTailBy k) := by
  induction k generalizing q with
  | zero => exact h
  | succ k ih => exact ih h.advanceTail

lemma setAt {i : ℕ} {x : α} (hq : q.setAt i x = .ok q') : Bounded n q' := by
  unfold CircularQueue.setAt at hq
  split_ifs at hq
  cases hq
  exact { h with }

lemma copyTo {it : Iterator} {xs : List α} (hq : q.copyTo it xs = .ok q') : Bounded n q' := by
  induction xs generalizing q it with
  | nil =>
    cases hq
    exact h
  | cons x xs ih =>
    obtain ⟨q1, hq1, hq⟩ := bind_eq_ok.1 hq
    exact ih (h.setAt hq1) hq

lemma popFront (hq : q.popFront k = .ok q') : Bounded n q' := by
  unfold CircularQueue.popFront at hq
  split_ifs at hq
  · cases hq
    exact h
  · obtain ⟨-, -, rfl⟩ := bind_pure_eq_ok.1 hq
    refine { h with head_lt := h.moduloAdd_lt _ _, empty := fun hend => ?_ }
    rw [← h.endIt_idx]
    exact congrArg Iterator.idx (beq_iff_eq.1 hend)

lemma popBack (hq : q.popBack = .ok q') : Bounded n q' := by
  obtain ⟨-, -, rfl⟩ := bind_pure_eq_ok.1 hq
  have htail := h.tail_lt
  have hcap := h.capacity
  refine { h with tail_lt := ?_, round_lt := ?_, empty := fun hend => ?_ }
  · simp only [decrease]
    split_ifs <;> omega
  · split_ifs
    · exact toUInt32_lt _
    · exact h.round_lt
  · simp only [decrease]
    rw [beq_iff_eq.1 hend]
    split_ifs with hzero
    · rw [Nat.sub_add_cancel (by omega), Nat.mod_eq_of_lt htail]
    · rw [hcap, Nat.sub_add_cancel (by omega), Nat.mod_self]
      omega

end

lemma step {s s' : System α} {op : Op α} (h : Bounded n s.queue) (hs : s.step op = .ok s') :
    Bounded n s'.queue := by
  cases op with
  | pushBack x =>
    obtain ⟨q, hq, rfl⟩ := bind_pure_eq_ok.1 hs
    exact h.advanceTail.setAt hq
  | advanceTail =>
    obtain ⟨x, -, rfl⟩ := bind_pure_eq_ok.1 hs
    exact h.advanceTail
  | popFront k =>
    obtain ⟨q, hq, rfl⟩ := bind_pure_eq_ok.1 hs
    exact h.popFront hq
  | popBack =>
    obtain ⟨q, hq, rfl⟩ := bind_pure_eq_ok.1 hs
    exact h.popBack hq
  | flush =>
    cases hs
    have htwo := h.two_le
    exact { h with
      head_lt := htwo
      tail_lt := zero_lt_of_lt htwo
      round_lt := Nat.two_pow_pos 32
      empty := fun _ => (mod_eq_of_lt htwo).symm }
  | write xs =>
    obtain ⟨q, hq, rfl⟩ := bind_pure_eq_ok.1 hs
    obtain ⟨q1, hq1, rfl⟩ := bind_pure_eq_ok.1 hq
    exact (h.copyTo hq1).advanceTailBy _
  | peek offset len =>
    obtain ⟨-, -, rfl⟩ := bind_pure_eq_ok.1 hs
    exact h
  | read len =>
    obtain ⟨r, hr, rfl⟩ := bind_pure_eq_ok.1 hs
    obtain ⟨out, -, hr⟩ := bind_eq_ok.1 hr
    obtain ⟨q, hq, rfl⟩ := bind_pure_eq_ok.1 hr
    exact h.popFront hq

end Bounded

/-- The calls that return, in any order. -/
abbrev Run [Inhabited α] (n : ℕ) (ops : List (Op α)) (s : System α) : Prop :=
  Exec (Guarded (fun _ _ => True) System.step) (System.initial n) ops s

lemma bounded_of_run [Inhabited α] {ops : List (Op α)} {s : System α} (hn : 2 ≤ n)
    (hlt : n < 2 ^ 32) (h : Run n ops s) : Bounded n s.queue := by
  refine h.invariant_state (I := fun s => Bounded n s.queue) ?_ fun hs hstep => hs.step hstep.2
  exact ⟨hn, hlt, rfl, hn, zero_lt_of_lt hn, Nat.two_pow_pos 32,
    fun _ => (mod_eq_of_lt hn).symm⟩

/-! ### Positions -/

/-- The iterator that `k` increments lead to. -/
def Iterator.plus (n : ℕ) (a : Iterator) (k : ℕ) : Iterator :=
  ⟨(a.idx + k) % n, toUInt32 (a.round + (a.idx + k) / n)⟩

/-- The index and the round of an iterator are in their ranges. -/
def Iterator.InRange (n : ℕ) (a : Iterator) : Prop := a.idx < n ∧ a.round < 2 ^ 32

lemma Iterator.InRange.plus_zero (h : InRange n a) : a.plus n 0 = a := by
  obtain ⟨hidx, hround⟩ := h
  rw [plus, add_zero, mod_eq_of_lt hidx, div_eq_of_lt hidx, add_zero, toUInt32_of_lt hround]

lemma Iterator.InRange.plus_cases (h : InRange n a) (hk : k ≤ n) :
    (a.plus n k).idx = a.idx + k ∧ (a.plus n k).round = a.round ∧ a.idx + k < n ∨
      (a.plus n k).idx + n = a.idx + k ∧ (a.plus n k).round = toUInt32 (a.round + 1) := by
  obtain ⟨hidx, hround⟩ := h
  have hdiv := div_eq_of_lt hidx
  have hlt := mod_lt (a.idx + k) (by omega : 0 < n)
  rcases Ring.div_mod_cases (by omega : 0 < n) (le_add_right a.idx k) (by omega) with
    ⟨hd, hm⟩ | ⟨hd, hm⟩
  · rw [mod_eq_of_lt hidx] at hm
    refine .inl ⟨by simp only [plus]; omega, ?_, by omega⟩
    rw [plus, hd, hdiv, add_zero, toUInt32_of_lt hround]
  · rw [mod_eq_of_lt hidx] at hm
    refine .inr ⟨by simp only [plus]; omega, ?_⟩
    rw [plus, hd, hdiv]

lemma Iterator.InRange.eq_plus_iff {b : Iterator} (h : InRange n a) (hb : b.idx < n) (hk : k ≤ n) :
    b = a.plus n k ↔ b.idx = a.idx + k ∧ b.round = a.round ∨
      b.idx + n = a.idx + k ∧ b.round = toUInt32 (a.round + 1) := by
  have hcases := h.plus_cases hk
  constructor
  · rintro rfl
    omega
  · intro heq
    have hidx : b.idx = (a.plus n k).idx := by omega
    have hround : b.round = (a.plus n k).round := by omega
    change Iterator.mk b.idx b.round = ⟨(a.plus n k).idx, (a.plus n k).round⟩
    rw [hidx, hround]

lemma Bounded.iterate_next (h : Bounded n q) (ha : InRange n a) (k : ℕ) :
    (next q)^[k] a = a.plus n k := by
  induction k with
  | zero => exact ha.plus_zero.symm
  | succ k ih =>
    have hcap := h.capacity
    have htwo := h.two_le
    have hidx := increase_mod (q := q) (p := a.idx + k) (by omega) (by have := h.lt; omega)
    rw [hcap] at hidx
    rw [iterate_succ_apply', ih, next, plus, hidx, plus, ← add_assoc, Nat.succ_div]
    simp only [dvd_iff_mod_eq_zero]
    split_ifs
    · rw [toUInt32, toUInt32, toUInt32, mod_add_mod, ← add_assoc]
    · rw [add_zero]

lemma Bounded.inRange_beginIt (h : Bounded n q) : InRange n q.beginIt := by
  have hend : InRange n q.endIt := by
    refine ⟨h.moduloAdd_lt _ _, ?_⟩
    simp only [endIt]
    split_ifs
    · exact toUInt32_lt _
    · exact h.round_lt
  unfold beginIt
  split_ifs
  · exact hend
  · exact ⟨h.head_lt, toUInt32_lt _⟩
  · exact ⟨h.head_lt, h.round_lt⟩

/-! ### Valid indices -/

lemma Bounded.slot_iff (h : Bounded n q) (hempty : q.empty = false) {idx : ℕ} (hidx : idx < n) :
    (∃ k < q.size, idx = (q.head + k) % n) ↔
      if q.head ≤ q.tail then q.head ≤ idx ∧ idx ≤ q.tail else q.head ≤ idx ∨ idx ≤ q.tail := by
  have hhead := h.head_lt
  have htail := h.tail_lt
  rw [size, hempty, if_neg Bool.false_ne_true, h.capacity]
  constructor
  · rintro ⟨k, hk, rfl⟩
    rcases InRange.plus_cases (a := ⟨q.head, 0⟩) (k := k) ⟨hhead, Nat.two_pow_pos 32⟩
      (by split_ifs at hk <;> omega) with ⟨hmod, -⟩ | ⟨hmod, -⟩
    all_goals
      simp only [plus] at hmod
      split_ifs at hk ⊢ <;> omega
  · intro hmem
    by_cases hle : q.head ≤ idx
    · refine ⟨idx - q.head, by split_ifs at hmem ⊢ <;> omega, ?_⟩
      rw [Nat.add_sub_cancel' hle, Nat.mod_eq_of_lt hidx]
    · refine ⟨idx + n - q.head, by split_ifs at hmem ⊢ <;> omega, ?_⟩
      rw [Nat.add_sub_cancel' (by omega), Nat.add_mod_right, Nat.mod_eq_of_lt hidx]

lemma isValidIdx_iff (idx : ℕ) : q.isValidIdx idx ↔ q.empty = false ∧
    (q.head < q.tail → q.head ≤ idx ∧ idx ≤ q.tail) ∧ (idx ≤ q.tail ∨ q.head ≤ idx) := by
  simp only [isValidIdx, Bool.not_eq_true', Bool.or_eq_false_iff, Bool.and_eq_false_iff,
    decide_eq_false_iff_not]
  rw [and_assoc]
  refine and_congr_right fun _ => ?_
  omega

lemma Bounded.dereferenceable_iff (h : Bounded n q) (ha : InRange n a) :
    a.dereferenceable q ↔ ∃ k < q.size, a = (next q)^[k] q.beginIt := by
  obtain ⟨hidx, hround⟩ := ha
  simp only [h.iterate_next h.inRange_beginIt]
  cases hempty : q.empty with
  | true => simp [dereferenceable, isValidIdxIn, size, hempty]
  | false =>
    have hhead := h.head_lt
    have htail := h.tail_lt
    have hr := h.round_lt
    have hbegin : q.beginIt = ⟨q.head,
        if q.tail < q.head then toUInt32 (q.round + 2 ^ 32 - 1) else q.round⟩ := by
      rw [beginIt, hempty, if_neg Bool.false_ne_true]
      split_ifs <;> rfl
    have hsize : q.size = if q.head ≤ q.tail then q.tail - q.head + 1
        else n - q.head + q.tail + 1 := by
      rw [size, hempty, if_neg Bool.false_ne_true, h.capacity]
    have hplus : ∀ k < q.size, (a = q.beginIt.plus n k ↔ _) := fun k hk =>
      h.inRange_beginIt.eq_plus_iff hidx (by split_ifs at hsize <;> omega)
    rw [hbegin] at hplus ⊢
    simp only [dereferenceable, isValidIdxIn, hempty, Bool.not_false, Bool.true_and,
      Bool.or_eq_true, Bool.and_eq_true, beq_iff_eq, decide_eq_true_eq, toUInt32] at hplus ⊢
    constructor
    · intro hvalid
      by_cases hle : q.head ≤ a.idx
      · have hk : a.idx - q.head < q.size := by split_ifs at hsize <;> omega
        refine ⟨_, hk, (hplus _ hk).2 (.inl ⟨by omega, ?_⟩)⟩
        split_ifs <;> omega
      · have hk : a.idx + n - q.head < q.size := by split_ifs at hsize <;> omega
        refine ⟨_, hk, (hplus _ hk).2 (.inr ⟨by omega, ?_⟩)⟩
        split_ifs <;> omega
    · rintro ⟨k, hk, heq⟩
      have hcases := (hplus k hk).1 heq
      split_ifs at hcases hsize <;> omega

/-- An index is one of the slots from the head to the tail. -/
def Slot (q : CircularQueue α) (idx : ℕ) : Prop := ∃ k < q.size, idx = (q.head + k) % q.capacity

/-- Valid indices are those of the elements, and dereferenceable iterators as well, just if the
queue does not have one element that is somewhere else. -/
theorem isValidIdx_exact_iff [Inhabited α] {ops : List (Op α)} {s : System α} {idx : ℕ}
    (hn : 2 ≤ n) (hlt : n < 2 ^ 32) (h : Run n ops s) (hidx : idx < n) :
    ((s.queue.isValidIdx idx ↔ Slot s.queue idx) ∧
      ∀ a : Iterator, a.idx < n → a.round < 2 ^ 32 → (a.dereferenceable s.queue ↔
        ∃ k < s.queue.size, a = (next s.queue)^[k] s.queue.beginIt)) ↔
    (s.queue.size = 1 → idx = s.queue.head) := by
  have hb := bounded_of_run hn hlt h
  have hderef := fun a ha hr => hb.dereferenceable_iff (a := a) ⟨ha, hr⟩
  rw [and_iff_left hderef, isValidIdx_iff, Slot, hb.capacity]
  have hhead := hb.head_lt
  cases hempty : s.queue.empty with
  | true => simp [size, hempty]
  | false =>
    rw [hb.slot_iff hempty hidx, size, hempty, if_neg Bool.false_ne_true, hb.capacity]
    simp only [true_and]
    split_ifs <;> omega

theorem isValidIdx_exact_iff_two : ∃ s : System ℕ, Run 4 [.pushBack 7, .pushBack 8] s ∧
    s.queue.isValidIdx 2 ∧ Slot s.queue 2 := by
  have hrun : Run 4 [.pushBack 7, .pushBack 8] _ := exec_of_replay rfl
  have hexact := (isValidIdx_exact_iff (by decide) (by decide) hrun (show 2 < 4 by decide)).2
    (by decide)
  exact ⟨_, hrun, rfl, hexact.1.1 rfl⟩

/-- In a queue of capacity 4 with one element, in the slot 1, the index 3 is valid as well. -/
theorem not_isValidIdx_exact : ¬ ∀ (n : ℕ) (ops : List (Op ℕ)) (s : System ℕ) (idx : ℕ), 2 ≤ n →
    n < 2 ^ 32 → Run n ops s → idx < n →
    (s.queue.isValidIdx idx ↔ Slot s.queue idx) := by
  intro h
  obtain ⟨k, hk, hslot⟩ := (h 4 [.pushBack 7] _ 3 (by decide) (by decide) (exec_of_replay rfl)
    (by decide)).1 rfl
  change k < 1 at hk
  change 3 = (1 + k) % 4 at hslot
  omega

/-! ### Arithmetic -/

/-- What the iterators between `begin()` and `end()` are to be: sums and differences with offsets
lead from the one at position `i` to that at `j`, and the difference of the two is the offset. -/
def RandomAccess (q : CircularQueue α) : Prop :=
  ∀ i ≤ q.size, ∀ j ≤ q.size,
    ((next q)^[i] q.beginIt).addOffset q (j - i) = (next q)^[j] q.beginIt ∧
    ((next q)^[i] q.beginIt).subOffset q (i - j) = (next q)^[j] q.beginIt ∧
    ((next q)^[j] q.beginIt).diff q ((next q)^[i] q.beginIt) = (j : ℤ) - i

lemma sub_of_lt {x y : ℕ} (hlt : n < 2 ^ 31) (hx : x < y + n) (hy : y < x + n) :
    sub x y n = (x : ℤ) - y := by
  rw [sub]
  split_ifs with hcomp
  · rw [mod_eq_of_lt (by omega), toInt32_of_lt (by omega) (by omega)]
    omega
  · rw [mod_eq_of_lt (by omega), toInt32_of_lt (by omega) (by omega)]
    omega

section Arithmetic

variable (h : Bounded n q) (ha : InRange n a) (hd : d ≤ n)
include h ha hd

lemma Bounded.addOffset_plus (hlt : n < 2 ^ 31) : a.addOffset q d = a.plus n d := by
  have hidx := ha.1
  have hoff : ofInt 32 d = d := by
    rw [ofInt]
    omega
  have hsum : ofInt 64 (d + a.idx) = a.idx + d := by
    rw [ofInt]
    omega
  rw [addOffset, plus, h.capacity, moduloAdd, hoff, hsum, toUInt32_of_lt (by omega)]

/-- The round of the earlier iterator, as `n` divides what is added to a negative number. -/
lemma Bounded.round_plus (hn : n ∣ 2 ^ 32) :
    toUInt32 ((a.plus n d).round + ofInt 64 (-d + (a.plus n d).idx) / q.capacity) = a.round := by
  obtain ⟨c, hc⟩ := hn
  have hidx := ha.1
  have hround := ha.2
  have hlt := h.lt
  rw [h.capacity]
  rcases ha.plus_cases hd with ⟨hi, hr, -⟩ | ⟨hi, hr⟩
  · have hoff : ofInt 64 (-d + (a.plus n d).idx) = a.idx := by
      rw [ofInt]
      omega
    rw [hoff, hr, div_eq_of_lt hidx, add_zero, toUInt32_of_lt hround]
  · have hmul : n * (c * 2 ^ 32 - 1) = 2 ^ 64 - n := by
      rw [Nat.mul_sub, ← mul_assoc, ← hc]
      norm_num
    have hoff : ofInt 64 (-d + (a.plus n d).idx) = a.idx + n * (c * 2 ^ 32 - 1) := by
      rw [ofInt]
      omega
    have hpos : 0 < c := Nat.pos_of_mul_pos_left (hc ▸ Nat.two_pow_pos 32)
    rw [hoff, hr, add_mul_div_left _ _ (by omega), div_eq_of_lt hidx, toUInt32, toUInt32]
    omega

lemma Bounded.addOffset_neg (hn : n ∣ 2 ^ 32) : (a.plus n d).addOffset q (-d) = a := by
  have hidx := ha.1
  have hlt := h.lt
  have hmod : moduloAdd (a.plus n d).idx (ofInt 32 (-d)) q.capacity = a.idx := by
    rw [moduloAdd, h.capacity, toUInt32, ofInt]
    obtain ⟨c, hc⟩ := hn
    rcases ha.plus_cases hd with ⟨hi, -⟩ | ⟨hi, -⟩
    · have hsum : ((a.plus n d).idx + (-(d : ℤ) % 2 ^ 32).toNat) % 2 ^ 32 = a.idx := by omega
      rw [hsum, mod_eq_of_lt hidx]
    · have hmul : n * (c - 1) = 2 ^ 32 - n := by rw [Nat.mul_sub, ← hc, mul_one]
      have hsum : ((a.plus n d).idx + (-(d : ℤ) % 2 ^ 32).toNat) % 2 ^ 32 =
          a.idx + n * (c - 1) := by omega
      rw [hsum, add_mul_mod_self_left, mod_eq_of_lt hidx]
  rw [addOffset, h.round_plus ha hd hn, hmod]

lemma Bounded.subOffset_plus (hn : n ∣ 2 ^ 32) (hlt : n < 2 ^ 31) :
    (a.plus n d).subOffset q d = a := by
  have hidx := ha.1
  have hoff : ofInt 32 d = d := by
    rw [ofInt]
    omega
  have hmod : moduloSub (a.plus n d).idx d q.capacity = a.idx := by
    rw [moduloSub, h.capacity]
    rcases ha.plus_cases hd with ⟨hi, -⟩ | ⟨hi, -⟩
    · rw [sub_of_lt hlt (by omega) (by omega), if_pos (by omega)]
      omega
    · rcases Nat.eq_zero_or_pos a.idx with hzero | hpos
      · have hfull : d - (a.plus n d).idx = n := by omega
        have hsub : sub (a.plus n d).idx d n = 0 := by
          rw [sub, if_neg (by omega), hfull, mod_self]
          rfl
        rw [hsub, hzero]
        rfl
      · rw [sub_of_lt hlt (by omega) (by omega), if_neg (by omega), ofInt]
        omega
  rw [subOffset, if_pos (by omega), h.round_plus ha hd hn, hoff, hmod]

lemma Bounded.diff_plus (hlt : n < 2 ^ 31) :
    (a.plus n d).diff q a = d ∧ a.diff q (a.plus n d) = -d := by
  have hidx := ha.1
  have hround := ha.2
  rw [diff, diff, h.capacity]
  rcases ha.plus_cases hd with ⟨hi, hr, hsum⟩ | ⟨hi, hr⟩
  · rw [sub_of_lt hlt (by omega) (by omega), sub_of_lt hlt (by omega) (by omega)]
    omega
  · have hne : (a.plus n d).round ≠ a.round := by
      rw [hr, toUInt32]
      omega
    have hone : toUInt32 ((a.plus n d).round + 2 ^ 32 - a.round) = 1 := by
      rw [hr, toUInt32, toUInt32]
      omega
    have hback : toUInt32 (a.round + 2 ^ 32 - (a.plus n d).round) = 2 ^ 32 - 1 := by
      rw [hr, toUInt32, toUInt32]
      omega
    rw [hone, hback, sub_of_lt hlt (by omega) (by omega),
      sub_of_lt hlt (by omega) (by omega)]
    constructor
    · rw [toInt32_of_lt (by omega) (by omega)]
      omega
    · have hsum : (a.idx : ℤ) - (a.plus n d).idx + ((2 ^ 32 - 1 : ℕ) : ℤ) * n =
          -d + 2 ^ 32 * n := by omega
      simp only [hsum, toInt32, Int.bmod]
      omega

end Arithmetic

lemma Bounded.randomAccess (h : Bounded n q) (hn : n ∣ 2 ^ 32) (hlt : n < 2 ^ 31) :
    RandomAccess q := by
  have hsize : q.size ≤ n := by
    have htail := h.tail_lt
    rw [size, h.capacity]
    split_ifs <;> omega
  have hin : ∀ k, InRange n ((next q)^[k] q.beginIt) := by
    intro k
    rw [h.iterate_next h.inRange_beginIt]
    exact ⟨mod_lt _ (by have htwo := h.two_le; omega), toUInt32_lt _⟩
  intro i hi j hj
  rcases le_total i j with hle | hle
  · obtain ⟨d, rfl⟩ := Nat.exists_eq_add_of_le hle
    have hd : d ≤ n := by omega
    rw [add_comm i d, iterate_add_apply, h.iterate_next (hin i)]
    have hplus := h.addOffset_plus (hin i) hd hlt
    refine ⟨?_, ?_, ?_⟩
    · simpa using hplus
    · rcases Nat.eq_zero_or_pos d with rfl | hpos
      · have hzero := h.subOffset_plus (hin i) hd hn hlt
        rw [(hin i).plus_zero] at hzero ⊢
        simpa using hzero
      · rw [subOffset, if_neg (by omega)]
        simpa using hplus
    · rw [(h.diff_plus (hin i) hd hlt).1]
      omega
  · obtain ⟨d, rfl⟩ := Nat.exists_eq_add_of_le hle
    have hd : d ≤ n := by omega
    rw [add_comm j d, iterate_add_apply, h.iterate_next (hin j)]
    refine ⟨?_, ?_, ?_⟩
    · simpa using h.addOffset_neg (hin j) hd hn
    · simpa using h.subOffset_plus (hin j) hd hn hlt
    · rw [(h.diff_plus (hin j) hd hlt).2]
      omega

lemma diff_lt (a b : Iterator) : a.diff q b < 2 ^ 31 := by
  have hlt : ∀ m, toInt32 m < 2 ^ 31 := fun m => Int.bmod_lt (by decide)
  rw [diff, sub]
  split_ifs <;> exact hlt _

/-- The iterators of all queues of a capacity are random-access iterators just for the powers of
two below `2 ^ 31`. -/
theorem randomAccess_iff [Inhabited α] (hn : 2 ≤ n) (hlt : n < 2 ^ 32) :
    (∀ (ops : List (Op α)) (s : System α), Run n ops s → RandomAccess s.queue) ↔
      n ∣ 2 ^ 32 ∧ n < 2 ^ 31 := by
  constructor
  · intro h
    -- a full queue, with its head in the slot 1
    have hdiv : n / n < 2 ^ 32 := (div_le_self n n).trans_lt hlt
    obtain ⟨s, hs, hcap, href, hlen, hnext⟩ := System.exec_pushes α hn hlt n hdiv
    rw [min_self] at hlen
    have hrun : Run n _ s := hs.mono fun hstep => ⟨trivial, hstep.2⟩
    have hb := bounded_of_run hn hlt hrun
    have hsize : s.queue.size = n := href.shape.size_eq.trans hlen
    have hbegin : s.queue.beginIt.idx = 1 := by
      have hhead : s.queue.head = 1 := by
        rw [href.shape.head, hcap, hlen, hnext, Nat.add_sub_cancel_left, Nat.mod_eq_of_lt hn]
      rw [beginIt, href.shape.empty, decide_eq_false (by omega), if_neg Bool.false_ne_true]
      split_ifs <;> exact hhead
    constructor
    · have hidx := congrArg idx (h _ s hrun n hsize.ge 0 (zero_le _)).1
      rw [hb.iterate_next hb.inRange_beginIt, addOffset, plus, hbegin, hcap, add_mod_right,
        mod_eq_of_lt hn, moduloAdd, iterate_zero_apply, hbegin] at hidx
      have hsum : toUInt32 (1 + ofInt 32 ((0 : ℕ) - n)) = 1 + (2 ^ 32 - n) := by
        rw [toUInt32, ofInt]
        omega
      rw [hsum] at hidx
      have hmod := sub_mod_eq_zero_of_mod_eq (hidx.trans (mod_eq_of_lt hn).symm)
      rw [Nat.add_sub_cancel_left] at hmod
      exact (dvd_sub_iff_left hlt.le dvd_rfl).1 (dvd_of_mod_eq_zero hmod)
    · have hdiff := (h _ s hrun 0 (zero_le _) n hsize.ge).2.2
      have hbound := diff_lt (q := s.queue) ((next s.queue)^[n] s.queue.beginIt)
        ((next s.queue)^[0] s.queue.beginIt)
      omega
  · rintro ⟨hdvd, hlt'⟩ ops s hrun
    exact (bounded_of_run hn hlt hrun).randomAccess hdvd hlt'

theorem randomAccess_iff_eight :
    (∀ (ops : List (Op ℕ)) (s : System ℕ), Run 8 ops s → RandomAccess s.queue) ↔
      8 ∣ 2 ^ 32 ∧ 8 < 2 ^ 31 :=
  randomAccess_iff (by decide) (by decide)

/-- The iterator that is one before `begin() + 1` in a queue of capacity 3 with 4 elements pushed
to it: from the slot 0 it should get to the slot 2, but stays there. -/
theorem not_randomAccess_three : ¬ ∀ (n : ℕ) (ops : List (Op ℕ)) (s : System ℕ), 2 ≤ n →
    n < 2 ^ 32 → Run n ops s → RandomAccess s.queue := by
  intro h
  have hadd := (h 3 [.pushBack 7, .pushBack 8, .pushBack 9, .pushBack 10] _ (by decide) (by decide)
    (exec_of_replay rfl) 1 (by decide) 0 (by decide)).1
  exact absurd hadd (by decide)

end ChipletGem5.CircularQueue
