import ChipletGem5.Mem.PageTable

/-!
# The copy of an address space

`Process::clone` (sim/process.cc) gives a child process a copy of every page of its parent.  It maps
the pages of the child with the flag to replace a mapping and no other one, so that the child may
write to pages that are read-only for its parent, and caches those that must not be cached.
`clone_forked_iff` says when the copy is right.
-/

namespace ChipletGem5.Pages

open BitVec (add_assoc ofNat_add toNat_ofNat toNat ofNat not_lt add_comm)

open Nat EmulationPageTable Option

variable {isa : TheISA}

/-! ### Processes and memory -/

/-- The contents of the physical memory. -/
abbrev PhysMem := Addr → BitVec 8

/-- Write a page, whose bytes are given by their offsets. -/
def PhysMem.writePage (isa : TheISA) (mem : PhysMem) (paddr : Addr) (buf : PhysMem) : PhysMem :=
  fun a => if (a - paddr).toNat < isa.pageBytes then buf (a - paddr) else mem a

namespace EmulationPageTable

variable (pt : EmulationPageTable isa) (mem : PhysMem)

variable (vaddr : Addr)

/-- The translation for an access of a functional port to a page.  The port would call
`Process::fixupFault` for a write to a page that is not mapped, which does not happen here. -/
def translatePage : Result Addr := do
  let paddr? ← pt.translateFunctional vaddr isa.pageBytes
  getOrError paddr? (.panic "Page table fault when accessing virtual address %#x ")

/-- `TranslatingPortProxy::readBlob` of a page. -/
def readBlob : Result PhysMem := do
  let paddr ← pt.translatePage vaddr
  pure fun i => mem (paddr + i)

/-- `TranslatingPortProxy::writeBlob` of a page. -/
def writeBlob (buf : PhysMem) : Result PhysMem := do
  let paddr ← pt.translatePage vaddr
  pure (mem.writePage isa paddr buf)

/-- The byte that a process sees at an address. -/
def load : Option (BitVec 8) := (pt.translate vaddr).map mem

/-- A store of a process. -/
def store (b : BitVec 8) : PhysMem :=
  match pt.translate vaddr with
  | some paddr => Function.update mem paddr b
  | none => mem

end EmulationPageTable

open EmulationPageTable

/-- What a clone changes: the page table of the child, the memory and the allocator. -/
structure CloneState (isa : TheISA) where
  child : EmulationPageTable isa
  mem : PhysMem
  sys : System

namespace CloneState

variable (parent : EmulationPageTable isa) (st : CloneState isa)

/-- The physical page for a page of the child, a new one if it is not mapped. -/
def physPage (vaddr : Addr) : Result (Addr × System) :=
  match st.child.translate vaddr with
  | some paddr => .ok (paddr, st.sys)
  | none => st.sys.allocPhysPages 1

/-- The body of the loop of `Process::clone`, with `Process::replicatePage`. -/
def replicatePage (vaddr : Addr) : Result (CloneState isa) := do
  let (newPaddr, sys) ← st.physPage vaddr
  let buf ← parent.readBlob st.mem vaddr
  let child ← st.child.map vaddr newPaddr isa.pageBytes Clobber
  let mem ← child.writeBlob st.mem vaddr buf
  pure ⟨child, mem, sys⟩

/-- The part of `Process::clone` that copies the memory, without `CLONE_VM`. -/
def clone : Result (CloneState isa) :=
  parent.getMappings.foldlM (fun st map => st.replicatePage parent map.1) st

/-- What is asked of a clone. -/
structure Forked (mem : PhysMem) (st' : CloneState isa) : Prop where
  /-- The parent sees the same memory as before. -/
  parent_load : ∀ v, parent.load st'.mem v = parent.load mem v
  /-- The child has the pages of the parent. -/
  mapped : ∀ v, (st'.child.lookup v).isSome = (parent.lookup v).isSome
  flags : ∀ v e e', parent.lookup v = some e → st'.child.lookup v = some e' →
    e'.flags &&& (Uncacheable ||| ReadOnly) = e.flags &&& (Uncacheable ||| ReadOnly)
  /-- The child sees what the parent has seen. -/
  child_load : ∀ v, st'.child.load st'.mem v = parent.load mem v
  /-- The physical pages of the child are different from each other. -/
  distinct : ∀ v v' e e', st'.child.lookup v = some e → st'.child.lookup v' = some e' →
    e.paddr = e'.paddr → isa.pageAlign v = isa.pageAlign v'
  /-- They are different from those of the parent. -/
  apart : ∀ v v' e e', st'.child.lookup v = some e → parent.lookup v' = some e' →
    e.paddr ≠ e'.paddr
  /-- No store of the child is seen by the parent. -/
  child_store : ∀ m v b a, parent.load (st'.child.store m v b) a = parent.load m a
  /-- No store of the parent is seen by the child. -/
  parent_store : ∀ m v b a, st'.child.load (parent.store m v b) a = st'.child.load m a

end CloneState

/-! ### When the copy is right -/

namespace System

/-- The address of the page that a call for one page hands out after `k` others. -/
def page (s : System) (k : ℕ) : Addr := (s.pagePtr + BitVec.ofNat 64 k) <<< s.isa.pageShift

/-- After `k` other calls for one page, the next one hands out the next page: it does not end in the
range of the m5ops, and it is in the memory. -/
def PageClear (s : System) (k : ℕ) : Prop :=
  s.m5opRange.contains (s.page (k + 1)) = false ∧ s.page (k + 1) ≤ s.totalSize

/-- The parent has whole pages, and the allocator enough of them for the child. -/
structure Forkable (s : System) (parent : EmulationPageTable isa) : Prop where
  /-- The physical addresses in the table are those of pages. -/
  aligned : ∀ v e, parent.lookup v = some e → isa.pageOffset e.paddr = 0
  /-- The allocator has enough pages before the range of the m5ops. -/
  clear : ∀ k < parent.pTable.keys.length, s.PageClear k

/-- The allocator does not hand out a page of the parent. -/
def Fresh (s : System) (parent : EmulationPageTable isa) : Prop :=
  ∀ k < parent.pTable.keys.length, ∀ v e, parent.lookup v = some e → e.paddr ≠ s.page k

/-- The allocator after `k` calls for one page. -/
def advance (s : System) (k : ℕ) : System := { s with pagePtr := s.pagePtr + BitVec.ofNat 64 k }

variable {s : System}

lemma advance_advance (j k : ℕ) : (s.advance j).advance k = s.advance (j + k) := by
  simp only [advance, add_assoc, ofNat_add]

lemma page_advance (j k : ℕ) : (s.advance j).page k = s.page (j + k) := by
  simp only [advance, page, add_assoc, ofNat_add]

lemma pageClear_advance (k : ℕ) : (s.advance k).PageClear 0 ↔ s.PageClear k := by
  rw [PageClear, PageClear, page_advance]
  rfl

lemma toNat_page (k : ℕ) : (s.page k).toNat = (s.pagePtr.toNat + k) * s.isa.pageBytes % 2 ^ 64 := by
  rw [page, toNat_shiftLeft_pageShift, BitVec.toNat_add, toNat_ofNat, add_mod_mod,
    mod_mul_mod]

lemma pageOffset_page (k : ℕ) : s.isa.pageOffset (s.page k) = 0 := by
  rw [pageOffset_eq_zero_iff, toNat_page]
  exact (dvd_mod_iff (pageBytes_dvd s.isa)).2 (dvd_mul_left _ _)

lemma signExtend_one : (1 : BitVec 32).signExtend 64 = ofNat 64 1 := by decide

lemma allocPhysPages_one_of_clear (h : s.PageClear 0) :
    s.allocPhysPages 1 = .ok (s.page 0, s.advance 1) := by
  obtain ⟨hcontains, hmem⟩ := h
  rw [page, zero_add] at hcontains hmem
  rw [allocPhysPages]
  rw [signExtend_one, hcontains]
  simp only [Bool.false_eq_true, if_false]
  rw [if_neg (not_lt.2 hmem)]
  simp [page, advance]

end System

/-! ### One page -/

section OnePage

variable {pt : EmulationPageTable isa} {v : Addr} {e : Entry}

lemma translateReq_page (hv : isa.pageOffset v = 0) (ht : pt.translate v = some e.paddr)
    (hoff : isa.pageOffset e.paddr = 0) :
    pt.translateReq v isa.pageBytes = .ok (some e.paddr) := by
  have hpos := (pageBytes_spec isa).2
  have hlt := pageBytes_lt isa
  have hlast : v + ofNat 64 isa.pageBytes - 1 =
      v + ofNat 64 (isa.pageBytes - 1) := by
    have hsucc : ofNat 64 isa.pageBytes = ofNat 64 (isa.pageBytes - 1) + 1 := by
      conv_lhs => rw [← Nat.sub_add_cancel (show 1 ≤ isa.pageBytes by omega), ofNat_add]
      rfl
    rw [hsucc, ← add_assoc, BitVec.add_sub_cancel]
  have halign : isa.pageAlign (v + ofNat 64 isa.pageBytes - 1) = isa.pageAlign v := by
    rw [hlast, pageAlign_of_aligned hv]
    refine (page_add hv ?_).1
    rw [toNat_ofNat, mod_eq_of_lt (by omega)]
    omega
  rw [translateReq, halign]
  simp [require, ht, hoff]

/-- A whole page is where the table says, for every instruction set with processes. -/
lemma translatePage_of_lookup (hnull : isa ≠ .null) (hv : isa.pageOffset v = 0)
    (h : pt.pTable.lookup v = some e) (hoff : isa.pageOffset e.paddr = 0) :
    pt.translatePage v = .ok e.paddr := by
  have hlookup : pt.lookup v = some e := by
    rw [lookup, pageAlign_of_aligned hv, h]
  have htranslate : pt.translate v = some e.paddr := by
    simp [EmulationPageTable.translate, hlookup, hv]
  have hreq := translateReq_page hv htranslate hoff
  have hfunctional : pt.translateFunctional v isa.pageBytes = .ok (some e.paddr) := by
    unfold translateFunctional
    split
    case h_7 => exact absurd rfl hnull
    all_goals simp [hlookup, hv, htranslate, hreq]
  rw [translatePage, hfunctional]
  rfl

lemma map_one (hv : isa.pageOffset v = 0) (paddr : Addr) :
    pt.map v paddr isa.pageBytes Clobber = .ok (pt.insert v hv ⟨paddr, Clobber⟩) := by
  have hpos := (pageBytes_spec isa).2
  have hcount : (isa.pageBytes + isa.pageBytes - 1) / isa.pageBytes = 1 := by
    rw [Nat.div_eq_iff (by omega)]
    omega
  have hclobber : Clobber &&& Clobber ≠ 0 := by decide
  rw [map, dif_pos hv, hcount, mapPages, if_neg (fun hand => hclobber hand.2)]
  rfl

lemma writePage_apply {mem buf : PhysMem} {q : Addr} (hq : isa.pageOffset q = 0) (a : Addr) :
    mem.writePage isa q buf a = if isa.pageAlign a = q then buf (isa.pageOffset a) else mem a := by
  have hsum := pageAlign_add_pageOffset isa a
  rw [PhysMem.writePage]
  by_cases h : isa.pageAlign a = q
  · have hdiff : a - q = isa.pageOffset a := by
      rw [BitVec.sub_eq_iff_eq_add, add_comm, ← h]
      exact hsum.symm
    rw [if_pos h, hdiff, if_pos (pageOffset_lt isa a)]
  · rw [if_neg h, if_neg]
    intro hlt
    have := (page_add hq hlt).1
    rw [add_comm, BitVec.sub_add_cancel] at this
    exact h this

end OnePage

/-! ### The loop -/

namespace CloneState

variable {parent : EmulationPageTable isa} {s : System} {st st' : CloneState isa}
  {done : List Addr} {v : Addr} {e : Entry} {mem : PhysMem}

/-- The pages in `done` are mapped to the pages that the allocator has handed out. -/
structure MapsTo (s : System) (done : List Addr) (st : CloneState isa) : Prop where
  sys : st.sys = s.advance done.length
  mapped : ∀ i v, done[i]? = some v → st.child.pTable.lookup v = some ⟨s.page i, Clobber⟩
  unmapped : ∀ v, v ∉ done → st.child.pTable.lookup v = none

lemma MapsTo.start (s : System) (mem : PhysMem) :
    MapsTo s [] (⟨.empty isa, mem, s⟩ : CloneState isa) where
  sys := by simp [System.advance]
  mapped := by simp
  unmapped v _ := AList.lookup_empty v

lemma getElem?_concat {i : ℕ} {w : Addr} (h : (done ++ [v])[i]? = some w) :
    i < done.length ∧ done[i]? = some w ∨ i = done.length ∧ v = w := by
  by_cases hlt : i < done.length
  · exact .inl ⟨hlt, by rwa [List.getElem?_append_left hlt] at h⟩
  · rw [List.getElem?_append_right (by omega), List.getElem?_singleton] at h
    split_ifs at h with hzero
    exact .inr ⟨by omega, some.inj h⟩

lemma MapsTo.insert (h : MapsTo s done st) (hv : isa.pageOffset v = 0) (hnew : v ∉ done)
    (mem : PhysMem) :
    MapsTo s (done ++ [v])
      ⟨st.child.insert v hv ⟨s.page done.length, Clobber⟩, mem, s.advance (done.length + 1)⟩ where
  sys := by simp
  mapped i w hi := by
    obtain ⟨-, hold⟩ | ⟨rfl, rfl⟩ := getElem?_concat hi
    · have hne : w ≠ v := by
        rintro rfl
        exact hnew (List.mem_of_getElem? hold)
      rw [EmulationPageTable.insert, AList.lookup_insert_ne hne]
      exact h.mapped i w hold
    · simp [EmulationPageTable.insert]
  unmapped w hw := by
    simp only [List.mem_append, List.mem_singleton, not_or] at hw
    rw [EmulationPageTable.insert, AList.lookup_insert_ne hw.2]
    exact h.unmapped w hw.1

lemma MapsTo.translate_eq_none (h : MapsTo s done st) (hv : isa.pageOffset v = 0)
    (hnew : v ∉ done) : st.child.translate v = none := by
  rw [EmulationPageTable.translate, lookup, pageAlign_of_aligned hv, h.unmapped v hnew]
  rfl

/-- One round maps the next page and copies the page of the parent. -/
lemma MapsTo.replicatePage (hisa : s.isa = isa) (hnull : isa ≠ .null) (h : MapsTo s done st)
    (hv : isa.pageOffset v = 0) (hnew : v ∉ done) (he : parent.pTable.lookup v = some e)
    (hclear : s.PageClear done.length) (hparent : isa.pageOffset e.paddr = 0) :
    st.replicatePage parent v = .ok
      ⟨st.child.insert v hv ⟨s.page done.length, Clobber⟩,
        st.mem.writePage isa (s.page done.length) fun i => st.mem (e.paddr + i),
        s.advance (done.length + 1)⟩ := by
  subst hisa
  have halloc : st.sys.allocPhysPages 1 =
      .ok (s.page done.length, s.advance (done.length + 1)) := by
    rw [h.sys, System.allocPhysPages_one_of_clear ((System.pageClear_advance _).2 hclear),
      System.page_advance, System.advance_advance, add_zero]
  have hread : parent.readBlob st.mem v = .ok fun i => st.mem (e.paddr + i) := by
    rw [readBlob, translatePage_of_lookup hnull hv he hparent]
    rfl
  have hwrite : (st.child.insert v hv ⟨s.page done.length, Clobber⟩).translatePage v = _ :=
    translatePage_of_lookup hnull hv (AList.lookup_insert _) (System.pageOffset_page done.length)
  rw [CloneState.replicatePage, physPage, h.translate_eq_none hv hnew]
  exact bind_eq_ok.2 ⟨_, halloc, bind_eq_ok.2 ⟨_, hread, bind_eq_ok.2 ⟨_, map_one hv _,
    bind_eq_ok.2 ⟨_, bind_eq_ok.2 ⟨_, hwrite, rfl⟩, rfl⟩⟩⟩⟩

/-- The pages in `done` are copied, and the rest of the memory is as it was. -/
structure Copies (s : System) (parent : EmulationPageTable isa) (mem : PhysMem)
    (done : List Addr) (st : CloneState isa) : Prop where
  copied : ∀ i v e, done[i]? = some v → parent.pTable.lookup v = some e →
    ∀ off : Addr, off.toNat < isa.pageBytes → st.mem (s.page i + off) = mem (e.paddr + off)
  kept : ∀ a, (∀ i < done.length, isa.pageAlign a ≠ s.page i) → st.mem a = mem a

lemma keys_length_le (pt : EmulationPageTable isa) :
    pt.pTable.keys.length ≤ 2 ^ 64 / isa.pageBytes := by
  -- the numbers of the pages are different and in range
  have hinj : ∀ v ∈ pt.pTable.keys, ∀ w ∈ pt.pTable.keys,
      v.toNat / isa.pageBytes = w.toNat / isa.pageBytes → v = w := by
    intro v hv w hw h
    have hv' := pageOffset_eq_zero_iff.1 (pt.aligned v (AList.mem_keys.2 hv))
    have hw' := pageOffset_eq_zero_iff.1 (pt.aligned w (AList.mem_keys.2 hw))
    refine BitVec.eq_of_toNat_eq ?_
    rw [← Nat.div_mul_cancel hv', ← Nat.div_mul_cancel hw', h]
  have hnodup : (pt.pTable.keys.map fun v => v.toNat / isa.pageBytes).Nodup :=
    List.Nodup.map_on hinj pt.pTable.keys_nodup
  have hsub : (pt.pTable.keys.map fun v => v.toNat / isa.pageBytes) ⊆
      List.range (2 ^ 64 / isa.pageBytes) := by
    intro n hn
    obtain ⟨v, -, rfl⟩ := List.mem_map.1 hn
    rw [List.mem_range]
    exact div_lt_div_of_lt_of_dvd (pageBytes_dvd isa) v.isLt
  simpa using (List.subperm_of_subset hnodup hsub).length_le

/-- As many pages as a table can have are different from each other. -/
lemma page_injective {parent : EmulationPageTable s.isa} {i j : ℕ}
    (hi : i < parent.pTable.keys.length) (hj : j < parent.pTable.keys.length)
    (h : s.page i = s.page j) : i = j := by
  have hlen := keys_length_le parent
  have hmod : (s.pagePtr.toNat + i) * s.isa.pageBytes ≡ (s.pagePtr.toNat + j) * s.isa.pageBytes
      [MOD 2 ^ 64 / s.isa.pageBytes * s.isa.pageBytes] := by
    rw [Nat.div_mul_cancel (pageBytes_dvd s.isa), Nat.ModEq, ← System.toNat_page,
      ← System.toNat_page, h]
  have hij := Nat.ModEq.add_left_cancel' _
    (Nat.ModEq.mul_right_cancel' (pageBytes_pos s.isa).ne' hmod)
  exact hij.eq_of_lt_of_lt (hi.trans_le hlen) (hj.trans_le hlen)

lemma exists_lookup_of_mem (hv : v ∈ parent.pTable.keys) : ∃ e, parent.pTable.lookup v = some e :=
  isSome_iff_exists.1 (AList.lookup_isSome.2 (AList.mem_keys.2 hv))

section

variable (hdone : done ++ [v] <+: parent.pTable.keys)
include hdone

lemma notMem_of_passed : v ∉ done :=
  (List.nodup_append_comm.1 (parent.pTable.keys_nodup.sublist hdone.sublist)).notMem

lemma aligned_of_passed : isa.pageOffset v = 0 :=
  parent.aligned v (AList.mem_keys.2 (hdone.subset (by simp)))

end

lemma Copies.replicatePage (hisa : s.isa = isa) (hfork : s.Forkable parent)
    (hfresh : s.Fresh parent) (hdone : done ++ [v] <+: parent.pTable.keys)
    (he : parent.pTable.lookup v = some e) (hlookup : parent.lookup v = some e)
    (h : Copies s parent mem done st)
    (hmem : st'.mem = st.mem.writePage isa (s.page done.length) fun i => st.mem (e.paddr + i)) :
    Copies s parent mem (done ++ [v]) st' := by
  subst hisa
  have hlen : done.length < parent.pTable.keys.length := by simpa using hdone.length_le
  constructor
  · intro i w e' hi he' off hoff
    have hpage := page_add (System.pageOffset_page (s := s) i) hoff
    rw [hmem, writePage_apply (System.pageOffset_page _), hpage.1, hpage.2]
    obtain ⟨hlt, hi⟩ | ⟨rfl, rfl⟩ := getElem?_concat hi
    · rw [if_neg fun heq => hlt.ne (page_injective (hlt.trans hlen) hlen heq)]
      exact h.copied i w e' hi he' off hoff
    · -- the new page, copied from a page of the parent that was not changed
      cases he.symm.trans he'
      rw [if_pos rfl]
      refine h.kept _ fun j hj => ?_
      rw [(page_add (hfork.aligned v e hlookup) hoff).1]
      exact hfresh j (by omega) v e hlookup
  · intro a ha
    rw [hmem, writePage_apply (System.pageOffset_page _), if_neg (ha _ (by simp))]
    exact h.kept a fun i hi => ha i (by simp; omega)

lemma clone_eq_foldlM : st.clone parent =
    parent.pTable.keys.foldlM (fun st v => st.replicatePage parent v) st := by
  rw [clone, getMappings, AList.keys, List.keys, List.foldlM_map, List.foldlM_map]

/-- The clone returns, and if the allocator hands out no page of the parent it is a copy. -/
lemma MapsTo.exists_clone (hisa : s.isa = isa) (hnull : isa ≠ .null) (hfork : s.Forkable parent)
    (h : MapsTo s [] st) :
    ∃ st', st.clone parent = .ok st' ∧ MapsTo s parent.pTable.keys st' ∧
      (s.Fresh parent → Copies s parent st.mem parent.pTable.keys st') := by
  rw [clone_eq_foldlM]
  refine foldlM_ok (P := fun done st' => MapsTo s done st' ∧
    (s.Fresh parent → Copies s parent st.mem done st')) _ ⟨h, fun _ => ⟨by simp, fun _ _ => rfl⟩⟩ ?_
  rintro done st v hdone ⟨h, hcopies⟩
  have hv := aligned_of_passed hdone
  have hnew := notMem_of_passed hdone
  obtain ⟨e, he⟩ := exists_lookup_of_mem (hdone.subset (by simp : v ∈ _))
  have hlookup : parent.lookup v = some e := by
    rw [lookup, pageAlign_of_aligned hv, he]
  have hround := h.replicatePage hisa hnull hv hnew he
    (hfork.clear _ (by simpa using hdone.length_le)) (hfork.aligned v e hlookup)
  exact ⟨_, hround, h.insert hv hnew _,
    fun hfresh => (hcopies hfresh).replicatePage hisa hfork hfresh hdone he hlookup rfl⟩

/-! ### The result -/

lemma MapsTo.lookup_eq (h : MapsTo s parent.pTable.keys st) (he : parent.lookup v = some e) :
    ∃ i < parent.pTable.keys.length, parent.pTable.keys[i]? = some (isa.pageAlign v) ∧
      st.child.lookup v = some ⟨s.page i, Clobber⟩ := by
  have hmem : isa.pageAlign v ∈ parent.pTable.keys :=
    AList.mem_keys.1 (AList.lookup_isSome.1 (isSome_iff_exists.2 ⟨e, he⟩))
  obtain ⟨i, hi, hget⟩ := List.getElem_of_mem hmem
  have hget' : parent.pTable.keys[i]? = some (isa.pageAlign v) :=
    List.getElem?_eq_some_iff.2 ⟨hi, hget⟩
  exact ⟨i, hi, hget', h.mapped i _ hget'⟩

lemma MapsTo.lookup_eq_none (h : MapsTo s parent.pTable.keys st) (he : parent.lookup v = none) :
    st.child.lookup v = none :=
  h.unmapped _ fun hin => by
    obtain ⟨e, he'⟩ := exists_lookup_of_mem hin
    rw [lookup, he'] at he
    cases he

lemma MapsTo.exists_of_lookup (h : MapsTo s parent.pTable.keys st)
    (he : st.child.lookup v = some e) :
    ∃ i < parent.pTable.keys.length, parent.pTable.keys[i]? = some (isa.pageAlign v) ∧
      e = ⟨s.page i, Clobber⟩ := by
  rcases hparent : parent.lookup v with _ | e'
  · rw [h.lookup_eq_none hparent] at he
    cases he
  · obtain ⟨i, hi, hget, hchild⟩ := h.lookup_eq hparent
    exact ⟨i, hi, hget, some.inj (he.symm.trans hchild)⟩

/-- A store through one table is not seen through another one if the tables have no physical address
in common. -/
lemma load_store {pt pt' : EmulationPageTable isa}
    (h : ∀ v v' p p', pt.translate v = some p → pt'.translate v' = some p' → p ≠ p')
    (m : PhysMem) (v a : Addr) (b : BitVec 8) : pt.load (pt'.store m v b) a = pt.load m a := by
  rw [load, load, store]
  rcases hp : pt.translate a with _ | p
  · rfl
  · rcases hp' : pt'.translate v with _ | p'
    · rfl
    · simp [Function.update_of_ne (h a v p p' hp hp')]

lemma clobber_flags : Clobber &&& (Uncacheable ||| ReadOnly) = 0 := by decide

lemma forked_of_copies (hisa : s.isa = isa) (hfork : s.Forkable parent)
    (hfresh : s.Fresh parent)
    (hflags : ∀ v e, parent.lookup v = some e → e.flags &&& (Uncacheable ||| ReadOnly) = 0)
    (hmaps : MapsTo s parent.pTable.keys st')
    (hcopies : Copies s parent mem parent.pTable.keys st') :
    Forked parent mem st' := by
  subst hisa
  -- the physical addresses of the parent and of the child
  have hparent : ∀ v p, parent.translate v = some p → ∃ e, parent.lookup v = some e ∧
      p = e.paddr + s.isa.pageOffset v ∧ s.isa.pageAlign p = e.paddr := by
    intro v p hp
    obtain ⟨e, he, rfl⟩ := map_eq_some_iff.1 hp
    rw [add_comm]
    exact ⟨e, he, rfl, (page_add (hfork.aligned v e he) (pageOffset_lt _ v)).1⟩
  have hchild : ∀ v p, st'.child.translate v = some p → ∃ i < parent.pTable.keys.length,
      s.isa.pageAlign p = s.page i := by
    intro v p hp
    obtain ⟨e, he, rfl⟩ := map_eq_some_iff.1 hp
    obtain ⟨i, hi, -, rfl⟩ := hmaps.exists_of_lookup he
    rw [add_comm]
    exact ⟨i, hi, (page_add (System.pageOffset_page i) (pageOffset_lt _ v)).1⟩
  have hdisjoint : ∀ v v' p p', parent.translate v = some p → st'.child.translate v' = some p' →
      p ≠ p' := by
    rintro v v' p p' hp hp' rfl
    obtain ⟨e, he, -, halign⟩ := hparent v p hp
    obtain ⟨i, hi, halign'⟩ := hchild v' p hp'
    exact hfresh i hi v e he (halign.symm.trans halign')
  constructor
  · intro v
    rw [load, load]
    rcases hp : parent.translate v with _ | p
    · rfl
    · obtain ⟨e, he, -, halign⟩ := hparent v p hp
      refine congrArg some (hcopies.kept p fun i hi => ?_)
      rw [halign]
      exact hfresh i hi v e he
  · intro v
    rcases he : parent.lookup v with _ | e
    · rw [hmaps.lookup_eq_none he]
    · obtain ⟨i, -, -, hlookup⟩ := hmaps.lookup_eq he
      rw [hlookup]
      rfl
  · intro v e e' he he'
    obtain ⟨i, -, -, rfl⟩ := hmaps.exists_of_lookup he'
    rw [hflags v e he]
    exact clobber_flags
  · intro v
    rw [load, load, EmulationPageTable.translate, EmulationPageTable.translate]
    rcases he : parent.lookup v with _ | e
    · rw [hmaps.lookup_eq_none he]
      rfl
    · obtain ⟨i, -, hget, hlookup⟩ := hmaps.lookup_eq he
      rw [hlookup]
      refine congrArg some ?_
      dsimp only
      rw [add_comm, hcopies.copied i _ e hget he _ (pageOffset_lt _ v), add_comm]
  · intro v v' e e' he he' heq
    obtain ⟨i, hi, hget, rfl⟩ := hmaps.exists_of_lookup he
    obtain ⟨j, hj, hget', rfl⟩ := hmaps.exists_of_lookup he'
    obtain rfl := page_injective hi hj heq
    exact some.inj (hget.symm.trans hget')
  · intro v v' e e' he he'
    obtain ⟨i, hi, -, rfl⟩ := hmaps.exists_of_lookup he
    exact (hfresh i hi v' e' he').symm
  · exact fun m v b a => load_store hdisjoint m v a b
  · exact fun m v b a =>
      load_store (fun v v' p p' hp hp' => (hdisjoint v' v p' p hp' hp).symm) m v a b

/-- If the physical addresses of the parent are those of pages and the allocator has enough pages,
a clone into a child without pages returns; and it is a right copy if and only if no page of the
parent is read-only or not to be cached, and no page that the child gets is mapped by the parent. -/
theorem clone_forked_iff (s : System) (hisa : s.isa = isa) (hnull : isa ≠ .null)
    (parent : EmulationPageTable isa) (mem : PhysMem) (hfork : s.Forkable parent) :
    ∃ st', clone parent ⟨.empty isa, mem, s⟩ = .ok st' ∧ (Forked parent mem st' ↔
      (∀ v e, parent.lookup v = some e → e.flags &&& (Uncacheable ||| ReadOnly) = 0) ∧
        s.Fresh parent) := by
  obtain ⟨st', hst', hmaps, hcopies⟩ := (MapsTo.start s mem).exists_clone hisa hnull hfork
  refine ⟨st', hst', fun hforked => ⟨fun v e he => ?_, fun k hk v e he heq => ?_⟩, ?_⟩
  · obtain ⟨i, -, -, hchild⟩ := hmaps.lookup_eq he
    rw [← hforked.flags v e _ he hchild]
    exact clobber_flags
  · have hget := List.getElem?_eq_getElem hk
    have hkey := parent.aligned _ (AList.mem_keys.2 (List.getElem_mem hk))
    have hchild : st'.child.lookup parent.pTable.keys[k] = some ⟨s.page k, Clobber⟩ := by
      rw [lookup, pageAlign_of_aligned hkey]
      exact hmaps.mapped k _ hget
    exact hforked.apart _ v _ e hchild he heq.symm
  · rintro ⟨hflags, hfresh⟩
    exact forked_of_copies hisa hfork hfresh hflags hmaps (hcopies hfresh)

/-- A process with one page, at the first physical page. -/
def onePage (flags : BitVec 64) : EmulationPageTable .x86 :=
  (EmulationPageTable.empty .x86).insert 0x1000 (by decide) ⟨0, flags⟩

/-- A system with four pages, of which the first one is handed out. -/
def fourPages : System := ⟨.x86, 0x4000, System.m5opRangeOf 0, 1⟩

lemma lookup_onePage {flags : BitVec 64} (h : (onePage flags).lookup v = some e) :
    e = ⟨0, flags⟩ := by
  rw [lookup, onePage, EmulationPageTable.insert] at h
  by_cases hv : TheISA.x86.pageAlign v = 0x1000
  · rw [hv, AList.lookup_insert] at h
    exact (some.inj h).symm
  · rw [AList.lookup_insert_ne hv] at h
    exact absurd h (by simp [empty])

lemma forkable_onePage (flags : BitVec 64) : fourPages.Forkable (onePage flags) where
  aligned v e he := by
    rw [lookup_onePage he]
    exact (by decide : TheISA.x86.pageOffset 0 = 0)
  clear k hk := by
    obtain rfl : k = 0 := lt_one_iff.1 hk
    exact ⟨by decide +kernel, by decide +kernel⟩

theorem clone_forked_iff_onePage : ∃ st', clone (onePage 0) ⟨.empty .x86, fun _ => 0, fourPages⟩ =
    .ok st' ∧ Forked (onePage 0) (fun _ => 0) st' := by
  obtain ⟨st', hst', hiff⟩ := clone_forked_iff fourPages rfl (by decide) (onePage 0) (fun _ => 0)
    (forkable_onePage 0)
  refine ⟨st', hst', hiff.2 ⟨fun v e he => ?_, fun k hk v e he => ?_⟩⟩
  · rw [lookup_onePage he]
    decide
  · obtain rfl : k = 0 := lt_one_iff.1 hk
    rw [lookup_onePage he]
    decide +kernel

/-- The copy of a read-only page is not read-only. -/
theorem not_clone_forked : ¬ ∀ (isa : TheISA) (s : System) (parent : EmulationPageTable isa)
    (mem : PhysMem) (st' : CloneState isa), s.isa = isa →
      clone parent ⟨.empty isa, mem, s⟩ = .ok st' → Forked parent mem st' := by
  intro hall
  obtain ⟨st', hst', hmaps, -⟩ := (MapsTo.start fourPages fun _ => 0).exists_clone rfl (by decide)
    (forkable_onePage ReadOnly)
  have hforked := hall .x86 fourPages (onePage ReadOnly) (fun _ => 0) st' rfl hst'
  have hparent : (onePage ReadOnly).lookup 0x1000 = some ⟨0, ReadOnly⟩ := by decide +kernel
  obtain ⟨i, -, -, hchild⟩ := hmaps.lookup_eq hparent
  have hflags := hforked.flags 0x1000 _ _ hparent hchild
  rw [clobber_flags] at hflags
  exact absurd hflags (by decide)

end CloneState

end ChipletGem5.Pages
