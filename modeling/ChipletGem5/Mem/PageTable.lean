import ChipletGem5.Sim.PhysPages
import Mathlib.Data.List.AList

/-!
# The page table of a process

`EmulationPageTable` (mem/page_table.cc) is a hash table from the addresses of virtual pages to
physical pages with flags.  It is modelled by a list of entries without repeated keys, in any order,
together with the fact that all keys are addresses of pages, which its functions assert.
-/

namespace ChipletGem5.Pages

open BitVec Nat

/-! ### Pages -/

section Pages

variable (isa : TheISA)

def TheISA.offsetMask : Addr := BitVec.ofNat 64 (isa.pageBytes - 1)

def TheISA.pageOffset (a : Addr) : Addr := a &&& isa.offsetMask

def TheISA.pageAlign (a : Addr) : Addr := a &&& ~~~isa.offsetMask

variable {isa} {a v : Addr}

lemma pageBytes_lt (isa : TheISA) : isa.pageBytes < 2 ^ 64 := by
  cases isa <;> decide

lemma toNat_pageOffset (isa : TheISA) (a : Addr) :
    (isa.pageOffset a).toNat = a.toNat % isa.pageBytes := by
  have hlt := pageBytes_lt isa
  have hmask : isa.offsetMask.toNat = 2 ^ isa.pageShift - 1 := by
    rw [TheISA.offsetMask, toNat_ofNat, mod_eq_of_lt (by omega), TheISA.pageBytes]
  rw [TheISA.pageOffset, toNat_and, hmask, and_two_pow_sub_one_eq_mod, TheISA.pageBytes]

lemma pageAlign_add_pageOffset (isa : TheISA) (a : Addr) :
    isa.pageAlign a + isa.pageOffset a = a := by
  rw [TheISA.pageAlign, TheISA.pageOffset, add_eq_or_of_and_eq_zero]
  · ext i hi
    simp only [getElem_or, getElem_and, getElem_not]
    cases a[i] <;> cases isa.offsetMask[i] <;> rfl
  · ext i hi
    simp only [getElem_and, getElem_not, getElem_zero]
    cases a[i] <;> cases isa.offsetMask[i] <;> rfl

lemma pageOffset_eq_zero_iff : isa.pageOffset a = 0 ↔ isa.pageBytes ∣ a.toNat := by
  rw [← toNat_inj, toNat_pageOffset, dvd_iff_mod_eq_zero]
  rfl

lemma pageAlign_of_aligned (h : isa.pageOffset a = 0) : isa.pageAlign a = a := by
  simpa [h] using pageAlign_add_pageOffset isa a

lemma pageBytes_dvd (isa : TheISA) : isa.pageBytes ∣ 2 ^ 64 := by
  cases isa <;> decide

lemma page_add (hv : isa.pageOffset v = 0) (h : a.toNat < isa.pageBytes) :
    isa.pageAlign (v + a) = v ∧ isa.pageOffset (v + a) = a := by
  have hdvd := pageOffset_eq_zero_iff.1 hv
  have hoff : isa.pageOffset (v + a) = a := by
    rw [← toNat_inj, toNat_pageOffset, toNat_add,
      mod_mod_of_dvd _ (pageBytes_dvd isa), add_mod, mod_eq_zero_of_dvd hdvd,
      zero_add, mod_mod, mod_eq_of_lt h]
  refine ⟨?_, hoff⟩
  have hsum := pageAlign_add_pageOffset isa (v + a)
  rw [hoff] at hsum
  simpa using hsum

lemma pageOffset_lt (isa : TheISA) (a : Addr) : (isa.pageOffset a).toNat < isa.pageBytes := by
  rw [toNat_pageOffset]
  exact mod_lt _ (pageBytes_pos isa)

end Pages

/-! ### The table -/

/-- The translation of a page. -/
structure Entry where
  paddr : Addr
  flags : BitVec 64
deriving DecidableEq

def Clobber : BitVec 64 := 1

def Uncacheable : BitVec 64 := 4

def ReadOnly : BitVec 64 := 8

/-- A page table whose keys are page addresses. -/
structure EmulationPageTable (isa : TheISA) where
  pTable : AList fun _ : Addr => Entry
  aligned : ∀ v ∈ pTable, isa.pageOffset v = 0

namespace EmulationPageTable

variable {isa : TheISA} (pt : EmulationPageTable isa)

def empty (isa : TheISA) : EmulationPageTable isa := ⟨∅, by simp⟩

/-- Put an entry into the table, in the place of the one for the page if there is one. -/
def insert (v : Addr) (hv : isa.pageOffset v = 0) (e : Entry) : EmulationPageTable isa where
  pTable := pt.pTable.insert v e
  aligned w hw := by
    rcases (AList.mem_insert _).1 hw with rfl | hw
    · exact hv
    · exact pt.aligned w hw

lemma pageOffset_add_pageBytes {v : Addr} (hv : isa.pageOffset v = 0) :
    isa.pageOffset (v + BitVec.ofNat 64 isa.pageBytes) = 0 := by
  rw [pageOffset_eq_zero_iff] at hv ⊢
  rw [toNat_add, toNat_ofNat, mod_eq_of_lt (pageBytes_lt isa)]
  exact (dvd_mod_iff (pageBytes_dvd isa)).2 (dvd_add hv (dvd_refl _))

/-- The loop of `EmulationPageTable::map`, with the number of its rounds. -/
def mapPages (flags : BitVec 64) : ℕ → EmulationPageTable isa → (v : Addr) →
    isa.pageOffset v = 0 → Addr → Result (EmulationPageTable isa)
  | 0, pt, _, _, _ => .ok pt
  | k + 1, pt, v, hv, paddr =>
      if (pt.pTable.lookup v).isSome ∧ flags &&& Clobber = 0 then
        .error (.panic "EmulationPageTable::allocate: addr %#x already mapped")
      else
        mapPages flags k (pt.insert v hv ⟨paddr, flags⟩) (v + BitVec.ofNat 64 isa.pageBytes)
          (pageOffset_add_pageBytes hv) (paddr + BitVec.ofNat 64 isa.pageBytes)

def map (vaddr paddr : Addr) (size : ℕ) (flags : BitVec 64) : Result (EmulationPageTable isa) :=
  if hv : isa.pageOffset vaddr = 0 then
    mapPages flags ((size + isa.pageBytes - 1) / isa.pageBytes) pt vaddr hv paddr
  else .error (.assertion "pageOffset(vaddr) == 0")

/-- `EmulationPageTable::getMappings`: the pages that are mapped, with their addresses. -/
def getMappings : List (Addr × Addr) := pt.pTable.entries.map fun x => (x.1, x.2.paddr)

def lookup (vaddr : Addr) : Option Entry := pt.pTable.lookup (isa.pageAlign vaddr)

/-- `EmulationPageTable::translate`, of an address. -/
def translate (vaddr : Addr) : Option Addr :=
  (pt.lookup vaddr).map fun e => isa.pageOffset vaddr + e.paddr

/-- `EmulationPageTable::translate`, of a request: no address is a page fault. -/
def translateReq (vaddr : Addr) (size : ℕ) : Result (Option Addr) := do
  require (isa.pageAlign (vaddr + BitVec.ofNat 64 size - 1) = isa.pageAlign vaddr)
    (.assertion "pageAlign(req->getVaddr() + req->getSize() - 1) == pageAlign(req->getVaddr())")
  match pt.translate vaddr with
  | none => pure none
  | some paddr =>
      if isa.pageBytes < (isa.pageOffset paddr).toNat + size then
        .error (.panic "Request spans page boundaries!")
      else pure (some paddr)

/-- `TLB::translateFunctional` (arch/*/tlb.cc) for a request of a process; no address is a page
fault.  Only some instruction sets use the translation of a request, which checks that it fits into
a page; the null one has no processes.  What a TLB of SPARC holds is taken to be in the table. -/
def translateFunctional (vaddr : Addr) (size : ℕ) : Result (Option Addr) :=
  match isa with
  | .x86 | .riscv => .ok ((pt.lookup vaddr).map fun e => e.paddr ||| isa.pageOffset vaddr)
  | .arm => .ok (pt.translate vaddr)
  | .mips | .power | .sparc => pt.translateReq vaddr size
  | .null => .error (.undefined "no TLB")

end EmulationPageTable

end ChipletGem5.Pages
