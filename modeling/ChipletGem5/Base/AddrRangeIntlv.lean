import ChipletGem5.Base.AddrRange
import ChipletGem5.Lib.BitGaps
import ChipletGem5.Lib.Result

/-!
# Interleaving bits

`AddrRange::removeIntlvBits` takes the lowest bit of each mask out of an address, and
`addIntlvBits` puts these bits in again, with the values that the selector asks for.  But it makes
the gap of the `i`-th lowest bit `i` places too high, which does not matter for the first two of
them, and it clears the lowest bit of a mask by an `int`.
-/

namespace ChipletGem5

open BitVec (ofNat getLsbD_or getLsbD_and getLsbD_not getLsbD_shiftLeft getLsbD_one
  eq_of_getLsbD_eq getLsbD_ushiftRight)

open List BitGaps Nat

namespace AddrRange

/-- `mask(nbits)`. -/
def lowMask (nbits : ℕ) : Addr := (1 : Addr) <<< nbits - 1

/-- `insertBits(val, n - 1, 0, bits)`. -/
def insertLow (val : Addr) (n : ℕ) (bits : Addr) : Addr :=
  bits &&& lowMask n ||| val &&& ~~~ lowMask n

/-- `insertBits(val, bit, bit_val)`. -/
def insertBit (val : Addr) (bit : ℕ) (bitVal : Addr) : Addr :=
  bitVal <<< bit &&& lowMask 1 <<< bit ||| val &&& ~~~ (lowMask 1 <<< bit)

variable (r : AddrRange)

/-- The array `masks_lsb`, when it has been sorted. -/
def masksLsb : List ℕ := (r.masks.map ctz64).insertionSort (· ≤ ·)

def removeIntlvBits (a : Addr) : Addr :=
  r.masksLsb.zipIdx.foldl
    (fun a bit => if 0 < bit.1 then insertLow (a >>> 1) (bit.1 - bit.2) a else a >>> 1) a

/-- The first loop of `AddrRange::addIntlvBits`. -/
def addGaps (a : Addr) : Addr :=
  r.masksLsb.zipIdx.foldl
    (fun a bit => if 0 < bit.1 then insertLow (a <<< 1) (bit.1 + bit.2) a else a <<< 1) a

/-- `~(1 << lsb)`: the shift is one of an `int`. -/
def notOneShl (lsb : ℕ) : Result Addr :=
  if lsb < 32 then .ok ((~~~ ((1 : BitVec 32) <<< lsb)).signExtend 64)
  else .error (.undefined "1 << lsb")

/-- The second loop of `AddrRange::addIntlvBits`, for the mask number `i`. -/
def setIntlvBit (a : Addr) (m : Addr × ℕ) : Result Addr := do
  let lsb := ctz64 m.1
  let intlvBit : Addr := (r.intlvMatch >>> m.2 &&& 1).setWidth 64
  let keep ← notOneShl lsb
  let masked := a &&& m.1 &&& keep
  return insertBit a lsb (intlvBit ^^^ BitVec.ofNat 64 (popCount masked))

def addIntlvBits (a : Addr) : Result Addr :=
  r.masks.zipIdx.foldlM r.setIntlvBit (r.addGaps a)

def getOffset (a : Addr) : Addr :=
  if r.start ≤ a ∧ a < r.endAddr then
    if r.interleaved then r.removeIntlvBits a - r.removeIntlvBits r.start else a - r.start
  else MaxAddr

variable {r : AddrRange} {a a' x y m : Addr} {j k n : ℕ}

/-! ### Bits -/

lemma getLsbD_lowMask (n j : ℕ) : (lowMask n).getLsbD j = decide (j < n ∧ j < 64) := by
  unfold lowMask
  rcases lt_or_ge n 64 with hn | hn
  · have h : (1 : Addr) <<< n - 1 = ofNat 64 (2 ^ n - 1) := by
      apply BitVec.eq_of_toNat_eq
      have hpos : 0 < 2 ^ n := by positivity
      have hlt : 2 ^ n < 2 ^ 64 := Nat.pow_lt_pow_right (by norm_num) hn
      rw [BitVec.toNat_sub, BitVec.toNat_shiftLeft, BitVec.toNat_ofNat]
      have hone : (1 : Addr).toNat = 1 := rfl
      rw [hone]
      omega
    rw [h, BitVec.getLsbD_ofNat]
    simp [Bool.and_comm]
  · have h : (1 : Addr) <<< n - 1 = BitVec.allOnes 64 := by
      rw [BitVec.shiftLeft_eq_zero hn]
      rfl
    rw [h, BitVec.getLsbD_allOnes]
    congr 1
    simp only [eq_iff_iff]
    omega

lemma getLsbD_insertLow (h : j < 64) :
    (insertLow x n y).getLsbD j = if j < n then y.getLsbD j else x.getLsbD j := by
  simp only [insertLow, getLsbD_or, getLsbD_and, getLsbD_not, getLsbD_lowMask]
  by_cases hn : j < n <;> simp only [h, hn] <;> simp

lemma getLsbD_insertBit (hk : k < 64) (h : j < 64) :
    (insertBit x k y).getLsbD j = if j = k then y.getLsbD 0 else x.getLsbD j := by
  simp only [insertBit, getLsbD_or, getLsbD_and, getLsbD_not,
    getLsbD_shiftLeft, getLsbD_lowMask]
  rcases lt_trichotomy j k with hlt | rfl | hgt
  · simp only [h, hlt, hlt.ne]
    simp
  · simp only [h]
    simp
  · have hne : ¬ (j - k < 1 ∧ j - k < 64) := by omega
    simp only [h, hgt.ne', hgt.not_gt, hne]
    simp

/-- The bits of `~(1 << lsb)`: for the sign bit of an `int` all higher bits are cleared as well. -/
lemma getLsbD_notOneShl (hk : k < 32) (hj : j < 64) :
    ((~~~ ((1 : BitVec 32) <<< k)).signExtend 64).getLsbD j =
      decide (j ≠ k ∧ ¬ (k = 31 ∧ 31 ≤ j)) := by
  have hbit : ∀ i < 32, (~~~ ((1 : BitVec 32) <<< k)).getLsbD i = decide (i ≠ k) := by
    intro i hi
    rw [getLsbD_not, show (1 : BitVec 32) <<< k = .twoPow 32 k from rfl, BitVec.getLsbD_twoPow]
    simp [hi, hk, eq_comm]
  rw [BitVec.getLsbD_signExtend, BitVec.msb_eq_getLsbD_last, hbit 31 (by omega)]
  by_cases h32 : j < 32
  · rw [if_pos h32, hbit j h32]
    simp only [hj, decide_true, Bool.true_and, decide_eq_decide]
    omega
  · rw [if_neg h32]
    simp only [hj, decide_true, Bool.true_and, decide_eq_decide]
    omega

/-! ### The lowest bit of a mask -/

lemma ctz64_eq_some (h : m ≠ 0) : (List.range 64).find? m.getLsbD = some (ctz64 m) := by
  rcases hf : (range 64).find? m.getLsbD with _ | i
  · refine absurd (eq_of_getLsbD_eq fun i hi => ?_) h
    have hnone := find?_eq_none.1 hf i (by simpa using hi)
    simpa using hnone
  · simp [ctz64, hf]

lemma ctz64_lt (h : m ≠ 0) : ctz64 m < 64 := by
  have hmem := mem_of_find?_eq_some (ctz64_eq_some h)
  simpa using hmem

lemma getLsbD_ctz64 (h : m ≠ 0) : m.getLsbD (ctz64 m) :=
  find?_some (ctz64_eq_some h)

lemma getLsbD_of_lt_ctz64 (h : m ≠ 0) (hj : j < ctz64 m) : m.getLsbD j = false := by
  have hrange := (find?_range_eq_some.1 (ctz64_eq_some h)).2.2 j hj
  simpa using hrange

lemma mem_masksLsb : k ∈ r.masksLsb ↔ ∃ m ∈ r.masks, ctz64 m = k := by
  rw [masksLsb, mem_insertionSort, mem_map]

lemma length_masksLsb (r : AddrRange) : r.masksLsb.length = r.masks.length := by
  rw [masksLsb, length_insertionSort, length_map]

lemma pairwise_masksLsb (h : (r.masks.map ctz64).Nodup) : r.masksLsb.Pairwise (· < ·) := by
  have hsorted : r.masksLsb.Pairwise (· ≤ ·) := pairwise_insertionSort _ _
  have hnodup : r.masksLsb.Nodup := (perm_insertionSort _ _).nodup_iff.2 h
  exact hsorted.imp₂ (fun _ _ hle hne => lt_of_le_of_ne hle hne) hnodup

/-! ### Parities -/

/-- An odd number of bits is set. -/
def parity (x : Addr) : Bool := decide (popCount x % 2 = 1)

lemma popCount_add (hk : k < 64) (h : ∀ j < 64, j ≠ k → x.getLsbD j = y.getLsbD j) :
    popCount x + (y.getLsbD k).toNat = popCount y + (x.getLsbD k).toNat := by
  have hperm : (range 64).Perm (k :: (range 64).erase k) :=
    perm_cons_erase (mem_range.2 hk)
  have hrest : ((range 64).erase k).countP x.getLsbD =
      ((range 64).erase k).countP y.getLsbD := by
    refine countP_congr fun j hj => ?_
    have hmem := (nodup_range.mem_erase_iff).1 hj
    rw [h j (mem_range.1 hmem.2) hmem.1]
  have hcount : ∀ z : Addr, popCount z =
      ((range 64).erase k).countP z.getLsbD + (z.getLsbD k).toNat := by
    intro z
    rw [popCount, hperm.countP_eq, countP_cons]
    cases z.getLsbD k <;> rfl
  rw [hcount x, hcount y]
  omega

lemma parity_xor (hk : k < 64) (h : ∀ j < 64, j ≠ k → x.getLsbD j = y.getLsbD j) :
    (parity x ^^ x.getLsbD k) = (parity y ^^ y.getLsbD k) := by
  have hcount := popCount_add hk h
  unfold parity
  cases hx : x.getLsbD k <;> cases hy : y.getLsbD k <;>
    simp only [hx, hy, Bool.toNat_true, Bool.toNat_false] at hcount <;>
    simp only [Bool.xor_false, Bool.xor_true, decide_eq_decide, ← decide_not] <;> omega

/-! ### The selector -/

lemma getLsbD_ofNat_popCount (x : Addr) (j : ℕ) :
    (ofNat 32 (popCount x % 2)).getLsbD j = (decide (j = 0) && parity x) := by
  unfold parity
  rcases mod_two_eq_zero_or_one (popCount x) with h | h <;> rw [h]
  · simp
  · cases j with
    | zero => rfl
    | succ j => simp

lemma getLsbD_selFrom (a : Addr) {i : ℕ} {masks : List Addr} (s : BitVec 32)
    (h : i + masks.length ≤ 32) (j : ℕ) :
    (selFrom a i masks s).getLsbD j = (s.getLsbD j ||
      decide (i ≤ j) && (masks[j - i]?.map fun m => parity (a &&& m)).getD false) := by
  induction masks generalizing i s with
  | nil => simp [selFrom]
  | cons m masks ih =>
    rw [length_cons] at h
    rw [selFrom, ih _ (by omega), getLsbD_or, getLsbD_shiftLeft,
      mod_eq_of_lt (show i < 32 by omega), getLsbD_ofNat_popCount]
    rcases lt_trichotomy j i with hlt | rfl | hgt
    · simp [hlt.not_ge, hlt, show ¬ i + 1 ≤ j by omega]
    · simp [show j < 32 by omega]
    · obtain ⟨d, rfl⟩ : ∃ d, j = i + 1 + d := ⟨j - (i + 1), by omega⟩
      simp [show i + 1 + d - i = d + 1 by omega, show i ≤ i + 1 + d by omega]

lemma getLsbD_sel (h : r.masks.length ≤ 32) (a : Addr) (j : ℕ) :
    (r.sel a).getLsbD j = (r.masks[j]?.map fun m => parity (a &&& m)).getD false := by
  rw [sel, getLsbD_selFrom a _ (by omega)]
  simp

/-! ### The two loops over the lowest bits -/

lemma getLsbD_removeIntlvBits (r : AddrRange) (a : Addr) :
    (r.removeIntlvBits a).getLsbD = BitGaps.dropAll r.masksLsb a.getLsbD := by
  refine (foldl_hom BitVec.getLsbD fun a bit => ?_).symm
  ext j
  by_cases hj : j < 64
  · by_cases hbit : 0 < bit.1
    · rw [if_pos hbit, getLsbD_insertLow hj, BitGaps.drop, getLsbD_ushiftRight, add_comm]
    · rw [if_neg hbit, BitGaps.drop, if_neg (by omega), getLsbD_ushiftRight, add_comm]
  · have hge : ∀ (x : Addr) (i : ℕ), 64 ≤ i → x.getLsbD i = false :=
      BitVec.getLsbD_of_ge
    rw [hge _ j (by omega), BitGaps.drop, hge _ j (by omega), hge _ (j + 1) (by omega), ite_self]

lemma getLsbD_shiftLeft_one (hj : j < 64) :
    (x <<< 1).getLsbD j = (decide (0 < j) && x.getLsbD (j - 1)) := by
  rw [getLsbD_shiftLeft]
  cases j with
  | zero => simp
  | succ j => simp [hj]

lemma getLsbD_addGaps (hs : r.masksLsb.Pairwise (· < ·)) (a : Addr) (hj : j < 64) :
    (r.addGaps a).getLsbD j = BitGaps.gapAll r.masksLsb a.getLsbD j := by
  unfold addGaps
  generalize r.masksLsb = bs at hs
  induction bs using reverseRecOn generalizing j with
  | nil => rfl
  | append_singleton bs b ih =>
    obtain ⟨hsort, -, hlt⟩ := pairwise_append.1 hs
    rw [gapAll_append, gap, zipIdx_append, foldl_append,
      zipIdx_singleton, foldl_cons, foldl_nil, zero_add]
    by_cases hb : 0 < b
    · rw [if_pos hb, getLsbD_insertLow hj, getLsbD_shiftLeft_one hj, ih hj hsort,
        ih (by omega) hsort]
    · -- the lowest bit of a word can only be the first of the list
      obtain rfl : bs = [] := eq_nil_iff_forall_not_mem.2 fun x hx => by
        have := hlt x hx b (by simp)
        omega
      rw [if_neg hb, getLsbD_shiftLeft_one hj, if_neg (by simp; omega)]
      rfl

/-- The condition on the bits: each bit which is not the lowest bit of a mask is equal to the bit
that gets to its place.  This is the bit above it, by as many places as gaps have slipped, where the
lowest bits of the masks are not counted. -/
def KeepsBits (r : AddrRange) (a : Addr) : Prop :=
  ∀ j < 64, j ∉ r.masksLsb → ∀ j' ∉ r.masksLsb,
    Nat.count (· ∉ r.masksLsb) j' = Nat.count (· ∉ r.masksLsb) j + BitGaps.slip r.masksLsb j →
      a.getLsbD j' = a.getLsbD j

lemma addGaps_removeIntlvBits (hs : r.masksLsb.Pairwise (· < ·)) (a : Addr) :
    (∀ j < 64, j ∉ r.masksLsb → (r.addGaps (r.removeIntlvBits a)).getLsbD j = a.getLsbD j) ↔
      r.KeepsBits a := by
  have hbit : ∀ j < 64, j ∉ r.masksLsb → ∀ j' ∉ r.masksLsb,
      count (· ∉ r.masksLsb) j' = count (· ∉ r.masksLsb) j + slip r.masksLsb j →
      (r.addGaps (r.removeIntlvBits a)).getLsbD j = a.getLsbD j' := by
    intro j hj hmem j' hmem' hcount
    rw [getLsbD_addGaps hs _ hj, getLsbD_removeIntlvBits,
      gapAll_dropAll hs _ hmem hmem' hcount]
  refine ⟨fun h j hj hmem j' hmem' hcount => ?_, fun h j hj hmem => ?_⟩
  · rw [← hbit j hj hmem j' hmem' hcount, h j hj hmem]
  · obtain ⟨j', hmem', hcount⟩ := exists_count_eq r.masksLsb
      (count (· ∉ r.masksLsb) j + slip r.masksLsb j)
    rw [hbit j hj hmem j' hmem' hcount, h j hj hmem j' hmem' hcount]

/-! ### The second loop -/

/-- The bits of a word under a mask, but for the lowest bit of the mask. -/
def upperBits (a m : Addr) : Addr := a &&& m &&& ~~~ ((1 : Addr) <<< ctz64 m)

lemma getLsbD_upperBits (hj : j < 64) :
    (upperBits a m).getLsbD j = (a.getLsbD j && m.getLsbD j && decide (j ≠ ctz64 m)) := by
  rw [upperBits, getLsbD_and, getLsbD_and, getLsbD_not,
    show (1 : Addr) <<< ctz64 m = .twoPow 64 (ctz64 m) from rfl, BitVec.getLsbD_twoPow]
  rcases eq_or_ne j (ctz64 m) with he | hne
  · simp [← he, hj]
  · simp [hne, hne.symm, hj]

lemma parity_and (hm : m ≠ 0) (a : Addr) :
    parity (a &&& m) = (parity (upperBits a m) ^^ a.getLsbD (ctz64 m)) := by
  have hlt := ctz64_lt hm
  have h := parity_xor (x := a &&& m) (y := upperBits a m) hlt fun j hj hne => by
    rw [getLsbD_upperBits hj]
    simp [hne]
  rw [getLsbD_upperBits hlt, getLsbD_and, getLsbD_ctz64 hm] at h
  simp only [ne_eq, not_true_eq_false, decide_false, Bool.and_false, Bool.and_true,
    Bool.xor_false] at h
  rw [← h, Bool.xor_assoc, Bool.xor_self, Bool.xor_false]

/-- The parity that the second loop of `addIntlvBits` computes. -/
def maskedParity (a m : Addr) : Bool := !decide (ctz64 m = 31) && parity (upperBits a m)

lemma parity_masked (hm : m ≠ 0) (hk : ctz64 m < 32) (a : Addr) :
    parity (a &&& m &&& (~~~ ((1 : BitVec 32) <<< ctz64 m)).signExtend 64) = maskedParity a m := by
  unfold maskedParity
  by_cases h31 : ctz64 m = 31
  · -- no bit is left under the mask
    have hzero : a &&& m &&& (~~~ ((1 : BitVec 32) <<< ctz64 m)).signExtend 64 = 0 := by
      refine eq_of_getLsbD_eq fun j hj => ?_
      rw [getLsbD_and, getLsbD_notOneShl hk hj]
      by_cases hlow : j < 31
      · simp [getLsbD_of_lt_ctz64 hm (h31 ▸ hlow)]
      · simp [h31, not_lt.1 hlow]
    rw [hzero]
    simp only [h31, decide_true, Bool.not_true, Bool.false_and]
    rfl
  · have heq : a &&& m &&& (~~~ ((1 : BitVec 32) <<< ctz64 m)).signExtend 64 = upperBits a m := by
      refine eq_of_getLsbD_eq fun j hj => ?_
      rw [getLsbD_and, getLsbD_notOneShl hk hj, getLsbD_upperBits hj]
      simp [h31]
    rw [heq]
    simp [h31]

lemma maskedParity_congr (h : ∀ j < 64, m.getLsbD j → j ≠ ctz64 m →
    a.getLsbD j = a'.getLsbD j) : maskedParity a m = maskedParity a' m := by
  have heq : upperBits a m = upperBits a' m := by
    refine eq_of_getLsbD_eq fun j hj => ?_
    rw [getLsbD_upperBits hj, getLsbD_upperBits hj]
    cases hbit : m.getLsbD j with
    | false => simp
    | true =>
      by_cases hne : j = ctz64 m
      · simp [hne]
      · rw [h j hj hbit hne]
  rw [maskedParity, maskedParity, heq]

lemma setIntlvBit_ok (hm : m ≠ 0) (hk : ctz64 m < 32) (x : Addr) (i : ℕ) :
    ∃ y, r.setIntlvBit x (m, i) = .ok y ∧ ∀ j < 64, y.getLsbD j =
      if j = ctz64 m then (r.intlvMatch.getLsbD i ^^ maskedParity x m) else x.getLsbD j := by
  simp only [setIntlvBit, notOneShl, hk, if_true, ok_bind]
  refine ⟨_, rfl, fun j hj => ?_⟩
  rw [getLsbD_insertBit (ctz64_lt hm) hj, ← parity_masked hm hk]
  congr 1
  rw [BitVec.getLsbD_xor, BitVec.getLsbD_setWidth, BitVec.getLsbD_ofNat]
  simp [parity, testBit_zero]

lemma lt_of_setIntlvBit (h : r.setIntlvBit x (m, j) = .ok y) : ctz64 m < 32 := by
  by_contra hk
  simp [setIntlvBit, notOneShl, hk] at h

lemma getLsbD_ctz64_of_disjoint {m' : Addr} (hm : m ≠ 0) (h : m &&& m' = 0) :
    m'.getLsbD (ctz64 m) = false := by
  have hbit := congrArg (·.getLsbD (ctz64 m)) h
  simp only [getLsbD_and, getLsbD_ctz64 hm, Bool.true_and] at hbit
  exact hbit.trans BitVec.getLsbD_zero

lemma ctz64_ne_of_disjoint {m' : Addr} (hm : m ≠ 0) (hm' : m' ≠ 0) (h : m &&& m' = 0) :
    ctz64 m ≠ ctz64 m' := fun he => by
  have hbit := getLsbD_ctz64_of_disjoint hm h
  rw [he, getLsbD_ctz64 hm'] at hbit
  exact Bool.noConfusion hbit

/-- The second loop sets the lowest bits of the masks; the parities are those at its start. -/
lemma setIntlvBits_ok {ms : List (Addr × ℕ)} (hne : ∀ p ∈ ms, p.1 ≠ 0)
    (hdisj : ms.Pairwise fun p p' => p.1 &&& p'.1 = 0) (hk : ∀ p ∈ ms, ctz64 p.1 < 32) (x : Addr) :
    ∃ y, ms.foldlM r.setIntlvBit x = .ok y ∧
      (∀ j < 64, (∀ p ∈ ms, ctz64 p.1 ≠ j) → y.getLsbD j = x.getLsbD j) ∧
      ∀ p ∈ ms, y.getLsbD (ctz64 p.1) = (r.intlvMatch.getLsbD p.2 ^^ maskedParity x p.1) := by
  induction ms generalizing x with
  | nil => exact ⟨x, rfl, fun _ _ _ => rfl, nofun⟩
  | cons p ms ih =>
    obtain ⟨m, i⟩ := p
    obtain ⟨hfirst, hrest⟩ := pairwise_cons.1 hdisj
    have hm : m ≠ 0 := hne (m, i) (by simp)
    obtain ⟨x1, hset, hx1⟩ := setIntlvBit_ok (r := r) hm (hk (m, i) (by simp)) x i
    obtain ⟨y, hrun, hsame, hbits⟩ := ih (fun p hp => hne p (by simp [hp])) hrest
      (fun p hp => hk p (by simp [hp])) x1
    refine ⟨y, ?_, fun j hj hnot => ?_, fun p hp => ?_⟩
    · rwa [foldlM_cons, hset]
    · rw [hsame j hj fun p hp => hnot p (by simp [hp]), hx1 j hj,
        if_neg fun he => hnot (m, i) (by simp) he.symm]
    · obtain rfl | hp := mem_cons.1 hp
      · -- the later rounds leave this bit alone
        rw [hsame _ (ctz64_lt hm) fun p hp => (ctz64_ne_of_disjoint hm
          (hne p (by simp [hp])) (hfirst p hp)).symm, hx1 _ (ctz64_lt hm), if_pos rfl]
      · rw [hbits p hp, maskedParity_congr fun j hj hbit _ => ?_]
        rw [hx1 j hj, if_neg]
        rintro rfl
        rw [getLsbD_ctz64_of_disjoint hm (hfirst p hp)] at hbit
        exact Bool.noConfusion hbit

lemma lt_of_setIntlvBits {ms : List (Addr × ℕ)} (h : ms.foldlM r.setIntlvBit x = .ok y) :
    ∀ p ∈ ms, ctz64 p.1 < 32 := by
  induction ms generalizing x with
  | nil => nofun
  | cons p ms ih =>
    obtain ⟨x1, hset, hrun⟩ := bind_eq_ok.1 h
    intro q hq
    obtain rfl | hq := mem_cons.1 hq
    · exact lt_of_setIntlvBit hset
    · exact ih hrun q hq

/-! ### The round trip -/

/-- The addresses that are restored: the lowest bits of the masks are bits of an `int`; under a
mask that begins at the sign bit of an `int` the other bits do not count; and the bits which are
not lowest bits of the masks come back. -/
structure Restores (r : AddrRange) (a : Addr) : Prop where
  lsb_lt : ∀ m ∈ r.masks, ctz64 m < 32
  even : ∀ m ∈ r.masks, ctz64 m = 31 → popCount (upperBits a m) % 2 = 0
  bits : r.KeepsBits a

lemma exists_zipIdx_of_mem (h : m ∈ r.masks) : ∃ i, (m, i) ∈ r.masks.zipIdx := by
  obtain ⟨i, hi, rfl⟩ := mem_iff_getElem.1 h
  exact ⟨i, mem_zipIdx_iff_getElem?.2 (by simp [hi])⟩

lemma getLsbD_intlvMatch (hlen : r.masks.length ≤ 8) (ha : r.contains a) {p : Addr × ℕ}
    (hp : p ∈ r.masks.zipIdx) : r.intlvMatch.getLsbD p.2 = parity (a &&& p.1) := by
  have hsel := (contains_iff.1 ha).2
  have hget : r.masks[p.2]? = some p.1 := mem_zipIdx_iff_getElem?.1 hp
  have hlt : p.2 < r.masks.length := (List.getElem?_eq_some_iff.1 hget).1
  have hbit := getLsbD_sel (show r.masks.length ≤ 32 by omega) a p.2
  rw [hsel, hget] at hbit
  simpa [show p.2 < 32 by omega] using hbit

/-- `addIntlvBits` gives an address of the range back that has gone through `removeIntlvBits`, if
and only if the address is one of those which are restored. -/
theorem addIntlvBits_removeIntlvBits_iff (r : AddrRange) (hne : ∀ m ∈ r.masks, m ≠ 0)
    (hdisj : r.masks.Pairwise fun m m' => m &&& m' = 0) (hlen : r.masks.length ≤ 8) (a : Addr)
    (ha : r.contains a) :
    r.addIntlvBits (r.removeIntlvBits a) = .ok a ↔ r.Restores a := by
  have : Std.Symm fun m m' : Addr => m &&& m' = 0 := ⟨fun m m' h => by rwa [BitVec.and_comm]⟩
  have hs := pairwise_masksLsb (pairwise_map.2
    (hdisj.imp_of_mem fun hm hm' => ctz64_ne_of_disjoint (hne _ hm) (hne _ hm')))
  set x := r.addGaps (r.removeIntlvBits a) with hx
  have hnez : ∀ p ∈ r.masks.zipIdx, p.1 ≠ 0 := fun p hp => hne p.1 (fst_mem_of_mem_zipIdx hp)
  have hdisjz : r.masks.zipIdx.Pairwise fun p p' => p.1 &&& p'.1 = 0 := by
    rwa [← zipIdx_map_fst 0 r.masks, pairwise_map] at hdisj
  have hnot : ∀ j ∉ r.masksLsb, ∀ p ∈ r.masks.zipIdx, ctz64 p.1 ≠ j := by
    rintro j hj p hp rfl
    exact hj (mem_masksLsb.2 ⟨p.1, fst_mem_of_mem_zipIdx hp, rfl⟩)
  constructor
  · intro h
    have hlt := lt_of_setIntlvBits h
    obtain ⟨y, hrun, hsame, hbits⟩ := setIntlvBits_ok hnez hdisjz hlt x
    obtain rfl : y = a := Except.ok.inj (hrun.symm.trans h)
    refine ⟨fun m hm => ?_, fun m hm h31 => ?_, ?_⟩
    · obtain ⟨i, hi⟩ := exists_zipIdx_of_mem hm
      exact hlt _ hi
    · obtain ⟨i, hi⟩ := exists_zipIdx_of_mem hm
      have hbit := hbits _ hi
      rw [getLsbD_intlvMatch hlen ha hi, parity_and (hne m hm), maskedParity] at hbit
      simp only [h31, decide_true, Bool.not_true, Bool.false_and, Bool.xor_false] at hbit
      have hpar : parity (upperBits y m) = false := by
        cases hodd : parity (upperBits y m) with
        | false => rfl
        | true => simp [hodd] at hbit
      have hodd : ¬ popCount (upperBits y m) % 2 = 1 := of_decide_eq_false hpar
      omega
    · exact (addGaps_removeIntlvBits hs y).1 fun j hj hmem => (hsame j hj (hnot j hmem)).symm
  · intro h
    have hkeep := (addGaps_removeIntlvBits hs a).2 h.bits
    have hlt : ∀ p ∈ r.masks.zipIdx, ctz64 p.1 < 32 := fun p hp =>
      h.lsb_lt p.1 (fst_mem_of_mem_zipIdx hp)
    obtain ⟨y, hrun, hsame, hbits⟩ := setIntlvBits_ok hnez hdisjz hlt x
    have hy : y = a := by
      refine eq_of_getLsbD_eq fun j hj => ?_
      by_cases hmem : j ∈ r.masksLsb
      · obtain ⟨m, hm, rfl⟩ := mem_masksLsb.1 hmem
        obtain ⟨i, hi⟩ := exists_zipIdx_of_mem hm
        -- the bits under the mask are right, so is the parity
        have hmasked : maskedParity x m = maskedParity a m := by
          refine maskedParity_congr fun j hj hbit hne' => hkeep j hj fun hmem' => ?_
          obtain ⟨m', hm', rfl⟩ := mem_masksLsb.1 hmem'
          have hmm' : m' &&& m = 0 := hdisj.forall hm' hm fun he => hne' (by rw [he])
          rw [getLsbD_ctz64_of_disjoint (hne m' hm') hmm'] at hbit
          exact Bool.noConfusion hbit
        rw [hbits _ hi, getLsbD_intlvMatch hlen ha hi, parity_and (hne m hm), hmasked, maskedParity]
        by_cases h31 : ctz64 m = 31
        · have heven := h.even m hm h31
          simp only [h31, parity, heven]
          simp
        · simp only [h31, decide_false, Bool.not_false, Bool.true_and]
          rw [Bool.xor_comm, ← Bool.xor_assoc, Bool.xor_self, Bool.false_xor]
      · rw [hsame j hj (hnot j hmem), hkeep j hj hmem]
    rw [addIntlvBits, hrun, hy]

/-- The two masks of a unit test. -/
def twoMasks : AddrRange := ⟨0, 0x10000, [0xf, 0xf00], 1⟩

theorem addIntlvBits_removeIntlvBits_twoMasks :
    twoMasks.contains 0x301 ∧ twoMasks.addIntlvBits (twoMasks.removeIntlvBits 0x301) = .ok 0x301 ∧
      twoMasks.Restores 0x301 := by
  have hrun : twoMasks.addIntlvBits (twoMasks.removeIntlvBits 0x301) = .ok 0x301 := by
    decide +kernel
  have hin : twoMasks.contains 0x301 := by decide +kernel
  exact ⟨hin, hrun, (addIntlvBits_removeIntlvBits_iff twoMasks (by simp [twoMasks])
    (by simp [twoMasks]) (by simp [twoMasks]) 0x301 hin).1 hrun⟩

/-- The first of eight channels, by three adjacent bits. -/
def eightChannels : AddrRange := ⟨0, 0x1000, [0x40, 0x80, 0x100], 0⟩

/-- The address 0x200 comes back as 0. -/
theorem not_addIntlvBits_eightChannels :
    ¬ ∀ r : AddrRange, (∀ m ∈ r.masks, m ≠ 0) →
      (r.masks.Pairwise fun m m' => m &&& m' = 0) → r.masks.length ≤ 8 →
      ∀ a, r.contains a → r.addIntlvBits (r.removeIntlvBits a) = .ok a := by
  intro h
  have hback := h eightChannels (by simp [eightChannels]) (by simp [eightChannels])
    (by simp [eightChannels]) 0x200 (by decide +kernel)
  have hzero : eightChannels.addIntlvBits (eightChannels.removeIntlvBits 0x200) = .ok 0 := by
    decide +kernel
  have heq : (0 : Addr) = 0x200 := Except.ok.inj (hzero.symm.trans hback)
  simp at heq

end AddrRange

end ChipletGem5
