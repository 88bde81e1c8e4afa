import ChipletGem5.Base.Types

/-!
# Address ranges

The class `AddrRange` of `base/addr_range.hh`, with the functions of `base/bitfield.hh` that it
uses.  An interleaved range keeps of an interval the addresses whose selector, one bit for the
parity under each mask, is the match value.

Addresses have 64 bits.  The selector and the combined mask of `granularity` are of type `int` in
the source, hence 32 bits wide here; the counts of shifts are reduced as on the host.  A call of
`panic` keeps the format of the message and the ranges printed in it.
-/

namespace ChipletGem5

open BitVec (lt_def le_def toNat_inj toNat_allOnes)

def MaxAddr : Addr := BitVec.allOnes 64

/-! ### Bit functions -/

/-- The number of bits that are set. -/
def popCount (val : Addr) : ℕ := (List.range 64).countP val.getLsbD

/-- The number of zeros below the lowest bit that is set, 64 if there is none. -/
def ctz64 (value : Addr) : ℕ := ((List.range 64).find? value.getLsbD).getD 64

/-! ### Ranges -/

/-- A range of addresses, perhaps interleaved with others. -/
structure AddrRange where
  /-- The field `_start`, the first address. -/
  start : Addr
  /-- The field `_end`, the address behind the range. -/
  endAddr : Addr
  /-- The bits of an address that are combined to each bit of the selector. -/
  masks : List Addr
  /-- The value to compare the selector with. -/
  intlvMatch : BitVec 8
deriving DecidableEq, Repr

/-- `RangeSize`: a plain range; the end wraps around. -/
def RangeSize (start size : Addr) : AddrRange := ⟨start, start + size, [], 0⟩

namespace AddrRange

/-- The message of a `panic`. -/
structure Panic where
  format : String
  args : List AddrRange
deriving DecidableEq, Repr

variable (r : AddrRange)

def interleaved : Bool := !r.masks.isEmpty

def size : Addr := (r.endAddr - r.start) >>> (r.masks.length % 64)

def valid : Bool := decide (r.start ≤ r.endAddr)

/-- The combined mask in `AddrRange::granularity`. -/
def combinedMask : BitVec 32 :=
  r.masks.foldl (fun combined mask => combined ||| mask.setWidth 32) 0

def granularity : Addr :=
  if r.interleaved then (1 : Addr) <<< (ctz64 (r.combinedMask.signExtend 64) % 64) else r.size

def mergesWith (r r' : AddrRange) : Bool :=
  r'.start == r.start && r'.endAddr == r.endAddr && r'.masks == r.masks

/-- The loop of `AddrRange::contains` over the masks, from the mask number `i` on. -/
def selFrom (a : Addr) : ℕ → List Addr → BitVec 32 → BitVec 32
  | _, [], sel => sel
  | i, mask :: masks, sel =>
      selFrom a (i + 1) masks (sel ||| BitVec.ofNat 32 (popCount (a &&& mask) % 2) <<< (i % 32))

/-- The selector of an address. -/
def sel (a : Addr) : BitVec 32 := selFrom a 0 r.masks 0

def contains (a : Addr) : Bool :=
  if r.start ≤ a ∧ a < r.endAddr then r.sel a == r.intlvMatch.setWidth 32 else false

def intersects (r r' : AddrRange) : Except Panic Bool :=
  if r'.endAddr ≤ r.start ∨ r.endAddr ≤ r'.start then .ok false
  else if !r.interleaved && !r'.interleaved then .ok true
  else if r'.size = 1 then .ok (r.contains r'.start)
  else if r.mergesWith r' then .ok (r.intlvMatch == r'.intlvMatch)
  else .error ⟨"Cannot test intersection of %s and %s\n", [r, r']⟩

def isSubset (r r' : AddrRange) : Except Panic Bool :=
  if r.interleaved then .error ⟨"Cannot test subset of interleaved range %s\n", [r]⟩
  else if r'.interleaved then
    .ok (r'.contains r.start && r'.contains (r.endAddr - 1) && decide (r.size ≤ r'.granularity))
  else .ok (decide (r'.start ≤ r.start) && decide (r.endAddr ≤ r'.endAddr))

variable {r r' : AddrRange}

/-- `AddrRange::operator<`. -/
def lt (r r' : AddrRange) : Bool :=
  if r.start ≠ r'.start then decide (r.start < r'.start)
  else decide (r.intlvMatch < r'.intlvMatch)

/-! ### Order -/

lemma lt_iff :
    r.lt r' ↔ r.start < r'.start ∨ r.start = r'.start ∧ r.intlvMatch < r'.intlvMatch := by
  unfold lt
  by_cases h : r.start = r'.start <;> simp [h]

lemma lt_trans {r1 r2 r3 : AddrRange} (h12 : r1.lt r2) (h23 : r2.lt r3) : r1.lt r3 := by
  rw [lt_iff] at *
  rcases h12 with h12 | ⟨he, h12⟩
  · rcases h23 with h23 | ⟨he', -⟩
    · exact .inl (BitVec.lt_trans h12 h23)
    · exact .inl (he' ▸ h12)
  · rcases h23 with h23 | ⟨he', h23⟩
    · exact .inl (he ▸ h23)
    · exact .inr ⟨he.trans he', BitVec.lt_trans h12 h23⟩

lemma lt_irrefl (r : AddrRange) : ¬ r.lt r := by
  simp [lt_iff]

instance : IsTrans AddrRange fun r r' => r.lt r' = true := ⟨fun _ _ _ => lt_trans⟩

instance : Std.Irrefl fun r r' : AddrRange => r.lt r' := ⟨lt_irrefl⟩

lemma mergesWith_iff :
    r.mergesWith r' ↔ r'.start = r.start ∧ r'.endAddr = r.endAddr ∧ r'.masks = r.masks := by
  simp [mergesWith, and_assoc]

lemma mergesWith_refl (r : AddrRange) : r.mergesWith r := by
  simp [mergesWith_iff]

lemma mergesWith_comm : r.mergesWith r' ↔ r'.mergesWith r := by
  rw [mergesWith_iff, mergesWith_iff, eq_comm, eq_comm (a := r.endAddr), eq_comm (a := r.masks)]

lemma mergesWith_trans {r1 r2 r3 : AddrRange} (h12 : r1.mergesWith r2)
    (h23 : r2.mergesWith r3) : r1.mergesWith r3 := by
  rw [mergesWith_iff] at *
  exact ⟨h23.1.trans h12.1, h23.2.1.trans h12.2.1, h23.2.2.trans h12.2.2⟩

lemma interleaved_eq_of_mergesWith (h : r.mergesWith r') : r'.interleaved = r.interleaved := by
  rw [interleaved, interleaved, (mergesWith_iff.1 h).2.2]

/-! ### Single addresses -/

/-- A valid range that is not empty.  A plain range with a match value has no address. -/
structure NonEmpty (r : AddrRange) : Prop where
  start_lt : r.start < r.endAddr
  plain : r.masks = [] → r.intlvMatch = 0

def Disjoint (r r' : AddrRange) : Prop := ∀ a, ¬ (r.contains a ∧ r'.contains a)

lemma Disjoint.symm (h : r.Disjoint r') : r'.Disjoint r :=
  fun a ha => h a ha.symm

lemma contains_iff {a : Addr} :
    r.contains a ↔ (r.start ≤ a ∧ a < r.endAddr) ∧ r.sel a = r.intlvMatch.setWidth 32 := by
  unfold contains
  by_cases h : r.start ≤ a ∧ a < r.endAddr <;> simp [h]

lemma disjoint_of_end_le (h : r.endAddr ≤ r'.start) : r.Disjoint r' := by
  rintro a ⟨ha, ha'⟩
  rw [contains_iff] at ha ha'
  have hlt := ha.1.2
  have hle := ha'.1.1
  rw [lt_def] at hlt
  rw [le_def] at h hle
  omega

lemma disjoint_of_mergesWith (h : r.mergesWith r')
    (hne : r.intlvMatch ≠ r'.intlvMatch) : r.Disjoint r' := by
  rintro a ⟨ha, ha'⟩
  rw [contains_iff] at ha ha'
  have hsel : r'.sel a = r.sel a := by rw [sel, sel, (mergesWith_iff.1 h).2.2]
  have hmatch : r.intlvMatch.setWidth 32 = r'.intlvMatch.setWidth 32 := by
    rw [← ha.2, ← ha'.2, hsel]
  apply hne
  rw [← toNat_inj, BitVec.toNat_setWidth, BitVec.toNat_setWidth] at hmatch
  rw [← toNat_inj]
  omega

variable {r : AddrRange}

lemma one_le_granularity (h : r.interleaved) : 1 ≤ r.granularity := by
  have hlt : ctz64 (r.combinedMask.signExtend 64) % 64 < 64 := Nat.mod_lt _ (by omega)
  rw [granularity, if_pos h, le_def, BitVec.toNat_shiftLeft, Nat.shiftLeft_eq]
  have hpow : 2 ^ (ctz64 (r.combinedMask.signExtend 64) % 64) < 2 ^ 64 :=
    Nat.pow_lt_pow_right (by omega) hlt
  have hone : (1 : Addr).toNat = 1 := rfl
  rw [hone, one_mul, Nat.mod_eq_of_lt hpow]
  exact Nat.one_le_two_pow

@[simp] lemma size_rangeSize (a s : Addr) : (RangeSize a s).size = s := by
  show (a + s - a) >>> 0 = s
  bv_omega

lemma contains_of_not_interleaved (hr : r.NonEmpty) (h : r.interleaved = false) (a : Addr) :
    r.contains a = (decide (r.start ≤ a) && decide (a < r.endAddr)) := by
  have hmasks : r.masks = [] := by simpa [interleaved] using h
  have hsel : r.sel a = 0 := by rw [sel, hmasks, selFrom]
  rw [contains, hr.plain hmasks]
  by_cases hin : r.start ≤ a ∧ a < r.endAddr <;> simp_all

lemma isSubset_rangeSize (hr : r.NonEmpty) {a : Addr} (ha : a ≠ MaxAddr) :
    (RangeSize a 1).isSubset r = .ok (r.contains a) := by
  unfold isSubset
  rw [if_neg (by simp [RangeSize, interleaved])]
  rcases hi : r.interleaved with _ | _
  · rw [if_neg (by simp), contains_of_not_interleaved hr hi]
    have hend : (a + 1 ≤ r.endAddr) ↔ a < r.endAddr := by
      simp only [MaxAddr, ne_eq, ← toNat_inj, toNat_allOnes] at ha
      bv_omega
    show Except.ok (decide (r.start ≤ a) && decide (a + 1 ≤ r.endAddr)) = _
    rw [decide_eq_decide.2 hend]
  · have hg : (1 : Addr) ≤ r.granularity := one_le_granularity hi
    have hlast : a + 1 - 1 = a := by bv_omega
    rw [if_pos rfl, size_rangeSize]
    simp only [RangeSize, hlast, hg, decide_true, Bool.and_true, Bool.and_self]

lemma not_contains_max (r : AddrRange) : r.contains MaxAddr = false := by
  have hlt : ¬ MaxAddr < r.endAddr := by
    simp only [MaxAddr, lt_def, toNat_allOnes]
    omega
  rw [contains, if_neg fun h => hlt h.2]

/-- The range of the largest address wraps around, to the end 0: every plain range passes for a
superset. -/
lemma isSubset_rangeSize_max (r : AddrRange) :
    (RangeSize MaxAddr 1).isSubset r = .ok !r.interleaved := by
  unfold isSubset
  rw [if_neg (by simp [RangeSize, interleaved])]
  rcases hi : r.interleaved with _ | _
  · have hstart : r.start ≤ MaxAddr := by
      simp only [MaxAddr, le_def, toNat_allOnes]
      omega
    have hend : MaxAddr + 1 ≤ r.endAddr := by
      exact Nat.zero_le _
    rw [if_neg (by simp)]
    simp only [RangeSize, hstart, hend, decide_true, Bool.and_self, Bool.not_false]
  · simp [RangeSize, not_contains_max]

end AddrRange

end ChipletGem5
