import ChipletGem5.Base.AddrRange
import ChipletGem5.Lib.Result

/-!
# Allocation of physical pages

`System::allocPhysPages` (sim/system.cc) hands out the pages of the physical memory in order, and
jumps when it reaches the range of the m5ops.  The address that it returns for the jump is not
that of a page, and the pages after it may lie in the range, which is noticed only if a block ends
in it.
-/

namespace ChipletGem5.Pages

open List BitVec Nat

/-! ### The allocator -/

/-- The instruction set that the simulator is built for. -/
inductive TheISA where
  | arm | mips | null | power | riscv | sparc | x86
deriving DecidableEq

/-- `TheISA::PageShift` (arch/*/isa_traits.hh). -/
def TheISA.pageShift : TheISA → ℕ
  | .mips | .sparc => 13
  | _ => 12

def TheISA.pageBytes (isa : TheISA) : ℕ := 2 ^ isa.pageShift

/-- The parts of `System` that the allocation of pages uses. -/
structure System where
  isa : TheISA
  /-- `physmem.totalSize()`. -/
  totalSize : Addr
  m5opRange : AddrRange
  pagePtr : Addr
deriving DecidableEq

namespace System

/-- The range of the m5ops that the constructor makes. -/
def m5opRangeOf (m5opsBase : Addr) : AddrRange :=
  if m5opsBase ≠ 0 then RangeSize m5opsBase 0x10000 else ⟨1, 0, [], 0⟩

/-- `System::allocPhysPages`: the address and the state afterwards. -/
def allocPhysPages (npages : BitVec 32) (s : System) : Result (Addr × System) :=
  let returnAddr := s.pagePtr <<< s.isa.pageShift
  let pagePtr := s.pagePtr + npages.signExtend 64
  let nextReturnAddr := pagePtr <<< s.isa.pageShift
  let (returnAddr, pagePtr) :=
    if s.m5opRange.contains nextReturnAddr then
      ((0xffffffff : Addr), (0xffffffff : Addr) >>> s.isa.pageShift)
    else (returnAddr, pagePtr)
  if pagePtr <<< s.isa.pageShift > s.totalSize then
    .error (.fatal "Out of memory, please increase size of physical memory.")
  else .ok (returnAddr, { s with pagePtr })

/-- A system before any page is allocated. -/
def new (isa : TheISA) (totalSize : Addr) (m5opRange : AddrRange) : System :=
  ⟨isa, totalSize, m5opRange, 0⟩

end System

/-- A block of pages that was handed out. -/
structure Block where
  addr : Addr
  npages : BitVec 32
deriving DecidableEq

/-- The calls one after the other, with the blocks that they return. -/
def allocAll : List (BitVec 32) → System → Result (List Block × System)
  | [], s => .ok ([], s)
  | npages :: calls, s => do
      let (addr, s₁) ← s.allocPhysPages npages
      let (blocks, s₂) ← allocAll calls s₁
      return (⟨addr, npages⟩ :: blocks, s₂)

/-! ### Safe blocks -/

section Safe

variable (isa : TheISA) (totalSize : Addr) (m5opRange : AddrRange)

def Block.endAddr (b : Block) : ℕ := b.addr.toNat + b.npages.toNat * isa.pageBytes

/-- What is asked of a single block. -/
structure Block.Safe (b : Block) : Prop where
  aligned : isa.pageBytes ∣ b.addr.toNat
  below : b.endAddr isa ≤ totalSize.toNat
  notM5op : ∀ a : Addr, b.addr.toNat ≤ a.toNat → a.toNat < b.endAddr isa →
    m5opRange.contains a = false

/-- No address is in both blocks. -/
def Block.Apart (b b' : Block) : Prop :=
  b.endAddr isa ≤ b'.addr.toNat ∨ b'.endAddr isa ≤ b.addr.toNat

/-- What is asked of all blocks. -/
structure Safe (blocks : List Block) : Prop where
  block : ∀ b ∈ blocks, b.Safe isa totalSize m5opRange
  apart : blocks.Pairwise (Block.Apart isa)

end Safe

/-- The call hands out a block that ends before the range of the m5ops, or starts behind it, if
the range is not empty; and the address behind the block exists. -/
def System.Clear (s : System) (npages : BitVec 32) : Prop :=
  (s.pagePtr.toNat + npages.toNat) * s.isa.pageBytes < 2 ^ 64 ∧
    (s.m5opRange.endAddr.toNat ≤ s.m5opRange.start.toNat ∨
      (s.pagePtr.toNat + npages.toNat) * s.isa.pageBytes < s.m5opRange.start.toNat ∨
      s.m5opRange.endAddr.toNat ≤ s.pagePtr.toNat * s.isa.pageBytes)

/-- Every one of the calls is clear in the state in which it is made. -/
def AllClear : List (BitVec 32) → System → Prop
  | [], _ => True
  | npages :: calls, s => s.Clear npages ∧
      ∀ addr s', s.allocPhysPages npages = .ok (addr, s') → AllClear calls s'

/-- A range that is not interleaved. -/
def Plain (r : AddrRange) : Prop := r.masks = [] ∧ r.intlvMatch = 0

lemma Plain.contains_iff {r : AddrRange} (h : Plain r) (a : Addr) :
    r.contains a ↔ r.start.toNat ≤ a.toNat ∧ a.toNat < r.endAddr.toNat := by
  obtain ⟨hmasks, hmatch⟩ := h
  simp [AddrRange.contains, AddrRange.sel, hmasks, hmatch, AddrRange.selFrom, le_def, lt_def]

lemma plain_m5opRangeOf (m5opsBase : Addr) : Plain (System.m5opRangeOf m5opsBase) := by
  rw [System.m5opRangeOf]
  split_ifs <;> exact ⟨rfl, rfl⟩

/-! ### One call -/

section Call

variable {s s' : System} {npages : BitVec 32} {addr : Addr}

lemma toNat_shiftLeft_pageShift (isa : TheISA) (a : Addr) :
    (a <<< isa.pageShift).toNat = a.toNat * isa.pageBytes % 2 ^ 64 := by
  rw [toNat_shiftLeft, Nat.shiftLeft_eq, TheISA.pageBytes]

lemma toNat_signExtend_of_pos (h : 1 ≤ npages.toInt) :
    (npages.signExtend 64).toNat = npages.toNat ∧ 1 ≤ npages.toNat ∧ npages.toNat < 2 ^ 31 := by
  have hmsb : npages.msb = false := by
    by_contra hneg
    have := toInt_neg_of_msb_true (Bool.eq_true_of_not_eq_false hneg)
    omega
  have hnat := toInt_eq_toNat_of_msb hmsb
  have hlt := msb_eq_false_iff_two_mul_lt.1 hmsb
  rw [signExtend_eq_setWidth_of_msb_false hmsb, toNat_setWidth]
  refine ⟨mod_eq_of_lt (by omega), by omega, by omega⟩

lemma pageBytes_spec (isa : TheISA) : 2 ∣ isa.pageBytes ∧ 4096 ≤ isa.pageBytes := by
  cases isa <;> decide

lemma pageBytes_pos (isa : TheISA) : 0 < isa.pageBytes := Nat.two_pow_pos _

/-- The address of the next page exists. -/
def System.InRange (s : System) : Prop := s.pagePtr.toNat * s.isa.pageBytes < 2 ^ 64

lemma System.InRange.toNat_add (h : s.InRange) (hpos : 1 ≤ npages.toInt) :
    (s.pagePtr + npages.signExtend 64).toNat = s.pagePtr.toNat + npages.toNat := by
  obtain ⟨hext, -, hlt⟩ := toNat_signExtend_of_pos hpos
  have hle := mul_le_mul_left s.pagePtr.toNat (pageBytes_spec s.isa).2
  rw [InRange] at h
  rw [BitVec.toNat_add, hext, mod_eq_of_lt (by omega)]

/-- What a call returns: the next pages, or an address that has nothing to do with them if these
end in the range of the m5ops. -/
lemma allocPhysPages_cases (h : s.allocPhysPages npages = .ok (addr, s')) :
    s'.isa = s.isa ∧ s'.totalSize = s.totalSize ∧ s'.m5opRange = s.m5opRange ∧
      (s'.pagePtr <<< s.isa.pageShift).toNat ≤ s.totalSize.toNat ∧
      (s.m5opRange.contains ((s.pagePtr + npages.signExtend 64) <<< s.isa.pageShift) ∧
          addr = 0xffffffff ∨
        s.m5opRange.contains ((s.pagePtr + npages.signExtend 64) <<< s.isa.pageShift) = false ∧
          addr = s.pagePtr <<< s.isa.pageShift ∧
          s'.pagePtr = s.pagePtr + npages.signExtend 64) := by
  rw [System.allocPhysPages] at h
  dsimp only at h
  split_ifs at h with hcontains hmem hmem
  · cases h
    exact ⟨rfl, rfl, rfl, not_lt.1 hmem, .inl ⟨hcontains, rfl⟩⟩
  · cases h
    exact ⟨rfl, rfl, rfl, not_lt.1 hmem, .inr ⟨by simpa using hcontains, rfl, rfl⟩⟩

lemma System.Clear.alloc (hclear : s.Clear npages) (hs : s.InRange) (hpos : 1 ≤ npages.toInt)
    (hplain : Plain s.m5opRange) (h : s.allocPhysPages npages = .ok (addr, s')) :
    addr.toNat = s.pagePtr.toNat * s.isa.pageBytes ∧
      s'.pagePtr.toNat = s.pagePtr.toNat + npages.toNat ∧
      s'.pagePtr.toNat * s.isa.pageBytes ≤ s.totalSize.toNat := by
  obtain ⟨hfits, hrange⟩ := hclear
  have hadd := hs.toNat_add hpos
  obtain ⟨-, -, -, hmem, ⟨hcontains, -⟩ | ⟨-, haddr, hptr⟩⟩ := allocPhysPages_cases h
  · rw [hplain.contains_iff, toNat_shiftLeft_pageShift, hadd, mod_eq_of_lt hfits] at hcontains
    have := mul_le_mul_right s.isa.pageBytes (le_add_right s.pagePtr.toNat npages.toNat)
    omega
  · rw [← hptr] at hadd
    refine ⟨?_, hadd, ?_⟩
    · rw [haddr, toNat_shiftLeft_pageShift, mod_eq_of_lt hs]
    · rwa [toNat_shiftLeft_pageShift, hadd, mod_eq_of_lt hfits, ← hadd] at hmem

lemma safe_iff_clear (hs : s.InRange) (hpos : 1 ≤ npages.toInt) (hplain : Plain s.m5opRange)
    (h : s.allocPhysPages npages = .ok (addr, s')) :
    Block.Safe s.isa s.totalSize s.m5opRange ⟨addr, npages⟩ ↔ s.Clear npages := by
  have hend : Block.endAddr s.isa ⟨addr, npages⟩ = addr.toNat + npages.toNat * s.isa.pageBytes :=
    rfl
  have hsum : (s.pagePtr.toNat + npages.toNat) * s.isa.pageBytes =
      s.pagePtr.toNat * s.isa.pageBytes + npages.toNat * s.isa.pageBytes := add_mul ..
  have hadd := hs.toNat_add hpos
  constructor
  · rintro ⟨haligned, hbelow, hnot⟩
    obtain ⟨-, -, -, hmem, ⟨hcontains, rfl⟩ | ⟨hcontains, haddr, hptr⟩⟩ := allocPhysPages_cases h
    · -- the address that is returned instead is odd
      have hodd : ¬ 2 ∣ (0xffffffff : Addr).toNat := by decide
      exact absurd ((pageBytes_spec s.isa).1.trans haligned) hodd
    have haddr' : addr.toNat = s.pagePtr.toNat * s.isa.pageBytes := by
      rw [haddr, toNat_shiftLeft_pageShift, mod_eq_of_lt hs]
    have hfits : (s.pagePtr.toNat + npages.toNat) * s.isa.pageBytes < 2 ^ 64 := by
      have := s.totalSize.isLt
      omega
    refine ⟨hfits, ?_⟩
    by_contra hrange
    push Not at hrange
    obtain ⟨hlt, hstart, hend'⟩ := hrange
    -- the larger one of the two starts is in the block and in the range
    have hnext : ¬ (s.pagePtr.toNat + npages.toNat) * s.isa.pageBytes <
        s.m5opRange.endAddr.toNat := by
      intro hlt'
      have htrue := (hplain.contains_iff
        ((s.pagePtr + npages.signExtend 64) <<< s.isa.pageShift)).2
          (by rw [toNat_shiftLeft_pageShift, hadd, mod_eq_of_lt hfits]; exact ⟨hstart, hlt'⟩)
      rw [hcontains] at htrue
      cases htrue
    rcases le_total s.m5opRange.start.toNat addr.toNat with hle | hle
    · have := hnot addr le_rfl (by omega)
      rw [(hplain.contains_iff addr).2 ⟨hle, by omega⟩] at this
      cases this
    · have := hnot s.m5opRange.start hle (by omega)
      rw [(hplain.contains_iff _).2 ⟨le_rfl, hlt⟩] at this
      cases this
  · intro hclear
    obtain ⟨haddr, hptr, hmem⟩ := hclear.alloc hs hpos hplain h
    rw [hptr] at hmem
    refine ⟨by rw [haddr]; exact dvd_mul_left _ _, by omega, fun a hle hlt => ?_⟩
    rw [Bool.eq_false_iff, ne_eq, hplain.contains_iff]
    have := hclear.2
    dsimp only at hle
    omega

end Call

/-! ### Sequences of calls -/

section Calls

variable {calls : List (BitVec 32)} {s s' : System} {blocks : List Block}

lemma allocAll_cons {npages : BitVec 32} (h : allocAll (npages :: calls) s = .ok (blocks, s')) :
    ∃ addr s1 rest, s.allocPhysPages npages = .ok (addr, s1) ∧
      allocAll calls s1 = .ok (rest, s') ∧ blocks = ⟨addr, npages⟩ :: rest := by
  obtain ⟨⟨addr, s1⟩, h1, h⟩ := bind_eq_ok.1 h
  obtain ⟨⟨rest, s2⟩, h2, ⟨⟩⟩ := bind_pure_eq_ok.1 h
  exact ⟨addr, s1, rest, h1, h2, rfl⟩

lemma System.Clear.inRange {npages : BitVec 32} {addr : Addr} {s1 : System}
    (hclear : s.Clear npages) (hs : s.InRange) (hpos : 1 ≤ npages.toInt)
    (hplain : Plain s.m5opRange) (h : s.allocPhysPages npages = .ok (addr, s1)) :
    s1.InRange := by
  obtain ⟨hisa, -, -, -, -⟩ := allocPhysPages_cases h
  rw [InRange, hisa, (hclear.alloc hs hpos hplain h).2.1]
  exact hclear.1

/-- Clear calls hand out blocks in ascending order, from the next page on. -/
lemma safe_iff_allClear (hs : s.InRange) (hpos : ∀ npages ∈ calls, 1 ≤ npages.toInt)
    (hplain : Plain s.m5opRange) (h : allocAll calls s = .ok (blocks, s')) :
    (Safe s.isa s.totalSize s.m5opRange blocks ↔ AllClear calls s) ∧ (AllClear calls s →
      ∀ b ∈ blocks, s.pagePtr.toNat * s.isa.pageBytes ≤ b.addr.toNat) := by
  induction calls generalizing s blocks with
  | nil =>
    cases h
    exact ⟨iff_of_true ⟨by simp, .nil⟩ trivial, by simp⟩
  | cons npages calls ih =>
    obtain ⟨addr, s1, rest, h1, hrest, rfl⟩ := allocAll_cons h
    have hpos1 : 1 ≤ npages.toInt := hpos npages mem_cons_self
    have hiff := safe_iff_clear hs hpos1 hplain h1
    obtain ⟨hisa, htotal, hm5op, -, -⟩ := allocPhysPages_cases h1
    -- the later calls, if the first one is clear
    have hlater := fun hfirst : s.Clear npages => ih (hfirst.inRange hs hpos1 hplain h1)
      (fun n hn => hpos n (.tail _ hn)) (hm5op ▸ hplain) hrest
    rw [hisa, htotal, hm5op] at hlater
    have hfrom : AllClear (npages :: calls) s → addr.toNat = s.pagePtr.toNat * s.isa.pageBytes ∧
        ∀ b ∈ rest, addr.toNat + npages.toNat * s.isa.pageBytes ≤ b.addr.toNat := by
      rintro ⟨hfirst, hclear⟩
      obtain ⟨haddr, hptr, -⟩ := hfirst.alloc hs hpos1 hplain h1
      have hge := (hlater hfirst).2 (hclear addr s1 h1)
      rw [hptr, Nat.add_mul, ← haddr] at hge
      exact ⟨haddr, hge⟩
    refine ⟨⟨fun hsafe => ?_, fun hclear => ⟨forall_mem_cons.2 ⟨hiff.2 hclear.1, ?_⟩, ?_⟩⟩,
      fun hclear => forall_mem_cons.2 ⟨(hfrom hclear).1.ge, fun b hb => ?_⟩⟩
    · have hfirst := hiff.1 (hsafe.block _ mem_cons_self)
      refine ⟨hfirst, fun addr' s1' h1' => ?_⟩
      cases h1.symm.trans h1'
      exact (hlater hfirst).1.1
        ⟨fun b hb => hsafe.block b (.tail _ hb), hsafe.apart.of_cons⟩
    · exact ((hlater hclear.1).1.2 (hclear.2 addr s1 h1)).block
    · exact .cons (fun b hb => .inl ((hfrom hclear).2 b hb))
        ((hlater hclear.1).1.2 (hclear.2 addr s1 h1)).apart
    · have := (hfrom hclear).2 b hb
      have := (hfrom hclear).1
      omega

end Calls

/-- In every sequence of calls that returns, the blocks are safe if and only if every call is
clear in the state in which it is made. -/
theorem allocAll_safe_iff (isa : TheISA) (totalSize : Addr) (m5opRange : AddrRange)
    (hplain : Plain m5opRange) (calls : List (BitVec 32))
    (hpos : ∀ npages ∈ calls, 1 ≤ npages.toInt) (blocks : List Block) (s' : System)
    (h : allocAll calls (.new isa totalSize m5opRange) = .ok (blocks, s')) :
    Safe isa totalSize m5opRange blocks ↔ AllClear calls (.new isa totalSize m5opRange) := by
  have hs : (System.new isa totalSize m5opRange).InRange := by
    simp [System.InRange, System.new]
  exact (safe_iff_allClear hs hpos hplain h).1

theorem allocAll_safe_iff_two :
    Safe .x86 0x40000000 (System.m5opRangeOf 0xffff0000) [⟨0, 16⟩, ⟨0x10000, 3⟩] ↔
      AllClear [16, 3] (.new .x86 0x40000000 (System.m5opRangeOf 0xffff0000)) :=
  allocAll_safe_iff .x86 0x40000000 (System.m5opRangeOf 0xffff0000) (plain_m5opRangeOf _) [16, 3]
    (by simp) [⟨0, 16⟩, ⟨0x10000, 3⟩]
    ⟨.x86, 0x40000000, System.m5opRangeOf 0xffff0000, 19⟩ (by decide +kernel)

/-- The block that ends where the range of the m5ops starts gets an address that is not that of a
page, and the next block is in the range. -/
theorem not_allocAll_safe : ¬ ∀ (isa : TheISA) (totalSize m5opsBase : Addr)
    (calls : List (BitVec 32)) (blocks : List Block) (s' : System),
      isa.pageBytes ∣ m5opsBase.toNat → (∀ npages ∈ calls, 1 ≤ npages.toInt) →
      allocAll calls (.new isa totalSize (System.m5opRangeOf m5opsBase)) = .ok (blocks, s') →
      Safe isa totalSize (System.m5opRangeOf m5opsBase) blocks := by
  intro hall
  have hsafe := hall .x86 0x200000000 0xffff0000 [0xffff0, 1]
    [⟨0xffffffff, 0xffff0⟩, ⟨0xfffff000, 1⟩]
    ⟨.x86, 0x200000000, System.m5opRangeOf 0xffff0000, 0x100000⟩
    (by decide +kernel) (by simp) (by decide +kernel)
  have hnot := (hsafe.block ⟨0xfffff000, 1⟩ (by simp)).notM5op 0xfffff000 (by decide +kernel)
    (by decide +kernel)
  exact absurd hnot (by decide +kernel)

end ChipletGem5.Pages
