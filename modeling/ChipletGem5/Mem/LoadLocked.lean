import ChipletGem5.Lib.Since
import ChipletGem5.Mem.AccessEffect

/-!
# Load-locked and store-conditional over whole runs

A store-conditional is to succeed only if its context has a reservation: since its last
load-locked, which was to the same granule of 16 bytes, no packet has written a byte of the
granule.  The comment at `writeOK` asks that every store clear the records it matches.  But a swap
or atomic operation writes to the memory without a look at the records, and a store that reaches
beyond one granule clears the records of the first only.  `storeCond_reserved` shows that nothing
else can go wrong.
-/

namespace ChipletGem5.AbstractMemory

open LockedAddr List

variable {m m₀ m' : AbstractMemory} {pkt pkt' : Packet}

/-! ### Records -/

variable {paddr : Addr} {c : ContextID} {l : List LockedAddr} {hist : History}

lemma mem_relock {x : LockedAddr} (hl : (l.map contextId).Nodup) (h : x ∈ relock paddr c l) :
    x = ⟨paddr, c⟩ ∨ x ∈ l ∧ x.contextId ≠ c := by
  induction l with
  | nil => simp [relock] at h
  | cons i l ih =>
    obtain ⟨hi, hl⟩ := nodup_cons.1 hl
    rw [relock] at h
    by_cases hc : i.contextId = c
    · rw [if_pos hc] at h
      rcases mem_cons.1 h with rfl | hx
      · exact .inl rfl
      · -- the records behind the first one of the context are of other contexts
        refine .inr ⟨mem_cons_of_mem _ hx, fun hxc => hi ?_⟩
        rw [hc, ← hxc]
        exact mem_map_of_mem hx
    · rw [if_neg hc] at h
      rcases mem_cons.1 h with rfl | h
      · exact .inr ⟨mem_cons_self, hc⟩
      · exact (ih hl h).imp_right (And.imp_left (mem_cons_of_mem _))

lemma contextIds_relock (paddr : Addr) (c : ContextID) (l : List LockedAddr) :
    (relock paddr c l).map contextId = l.map contextId := by
  induction l with
  | nil => rfl
  | cons i l ih =>
    rw [relock]
    split
    · rename_i hc
      rw [map_cons, map_cons, hc]
    · rw [map_cons, map_cons, ih]

lemma mem_lockFor {x : LockedAddr} (hl : (l.map contextId).Nodup) (h : x ∈ lockFor paddr c l) :
    x = ⟨paddr, c⟩ ∨ x ∈ l ∧ x.contextId ≠ c := by
  unfold lockFor at h
  split at h
  · exact mem_relock hl h
  · rename_i hc
    rcases mem_cons.1 h with rfl | hx
    · exact .inl rfl
    · refine .inr ⟨hx, fun hxc => hc ?_⟩
      rw [← hxc]
      exact mem_map_of_mem hx

lemma nodup_lockFor (hl : (l.map contextId).Nodup) : ((lockFor paddr c l).map contextId).Nodup := by
  unfold lockFor
  split
  · rwa [contextIds_relock]
  · rename_i hc
    exact nodup_cons.2 ⟨hc, hl⟩

lemma unlock_sublist (m : AbstractMemory) (pkt : Packet) :
    (m.unlock pkt).Sublist m.lockedAddrList := by
  unfold unlock
  split
  · exact filter_sublist
  · exact List.Sublist.refl _

lemma Accessed.nodup (h : Accessed m pkt m' pkt') (hm : (m.lockedAddrList.map contextId).Nodup) :
    (m'.lockedAddrList.map contextId).Nodup := by
  have hlocked := h.locked
  unfold LockedAfter at hlocked
  split_ifs at hlocked
  · obtain ⟨paddr, c, -, -, hl⟩ := hlocked
    rw [hl]
    exact nodup_lockFor hm
  · rw [hlocked]
    exact hm.sublist ((unlock_sublist m pkt).map _)
  · rwa [hlocked]

/-! ### Runs -/

/-- The packets handled so far, the latest last, each with the memory it found. -/
abbrev History := List (AbstractMemory × Packet)

/-- A run of packets from a memory. -/
inductive Run (m₀ : AbstractMemory) : History → AbstractMemory → Prop
  | nil : Run m₀ [] m₀
  | access {hist : History} {m m' : AbstractMemory} (h : Run m₀ hist m) (pkt : Packet)
      {pkt' : Packet} (ha : m.access pkt = .ok (m', pkt')) : Run m₀ (hist ++ [(m, pkt)]) m'

/-- A load-locked packet of a context. -/
def LoadLockedBy (c : ContextID) (pkt : Packet) : Prop :=
  isLoadLocked pkt ∧ pkt.req.contextId = some c

/-- A context has a reservation: its last load-locked was to the granule, and no packet has
written a byte of the granule since. -/
def Reserved (c : ContextID) (granule : Addr) : History → Prop :=
  Since (fun e => LoadLockedBy c e.2 ∧ LockedAddr.mask e.2.addr = granule)
    fun e => ¬ LoadLockedBy c e.2 ∧ ∀ b ∈ e.1.wrote e.2, LockedAddr.mask b ≠ granule

/-- A packet that keeps the records right.  A load-locked or store-conditional packet has the
address of its request, up to the granule.  If a packet writes a byte of a granule that has a
record, then it is a store and the address of its request is in the granule. -/
structure Accounted (m : AbstractMemory) (pkt : Packet) : Prop where
  addr : pkt.isLLSC → lockAddr pkt = some (LockedAddr.mask pkt.addr)
  clears : ∀ b ∈ m.wrote pkt, (∃ l ∈ m.lockedAddrList, l.addr = LockedAddr.mask b) →
    isStore pkt ∧ lockAddr pkt = some (LockedAddr.mask b)

instance (m : AbstractMemory) (pkt : Packet) : Decidable (Accounted m pkt) :=
  -- the bytes are those of the list, not all of the 64-bit addresses
  have : Decidable (∀ b ∈ m.wrote pkt, (∃ l ∈ m.lockedAddrList, l.addr = LockedAddr.mask b) →
      isStore pkt ∧ lockAddr pkt = some (LockedAddr.mask b)) := List.decidableBAll _ _
  decidable_of_iff ((pkt.isLLSC → lockAddr pkt = some (LockedAddr.mask pkt.addr)) ∧ _)
    ⟨fun h => ⟨h.1, h.2⟩, fun h => ⟨h.addr, h.clears⟩⟩

/-- Every record stands for a reservation, and no context has two. -/
structure RecordsReserved (m : AbstractMemory) (hist : History) : Prop where
  nodup : (m.lockedAddrList.map LockedAddr.contextId).Nodup
  reserved : ∀ l ∈ m.lockedAddrList, Reserved l.contextId l.addr hist

lemma wrote_of_loadLocked (h : isLoadLocked pkt) : m.wrote pkt = [] := by
  obtain ⟨⟨hi, hr⟩, hl⟩ : (ignores pkt = false ∧ pkt.isRead) ∧ pkt.isLLSC := by
    simpa [isLoadLocked] using h
  have hswap : pkt.cmd ≠ .swapReq := by
    intro hswap
    rw [CmdPacket.isLLSC, hswap] at hl
    cases hl
  have hst : isStore pkt = false := by simp [isStore, hr]
  rw [wrote_of_ne_swapReq hi hswap, hst]
  rfl

lemma allowsStore_of_wrote (h : isStore pkt) {b : Addr} (hb : b ∈ m.wrote pkt) :
    m.allowsStore pkt := by
  simp only [isStore, Bool.and_eq_true, Bool.not_eq_true', bne_iff_ne] at h
  obtain ⟨⟨⟨⟨hi, hswap⟩, -⟩, -⟩, -⟩ := h
  by_contra hallow
  rw [wrote_of_ne_swapReq hi hswap] at hb
  simp [hallow] at hb

lemma RecordsReserved.access (h : RecordsReserved m hist)
    (hacc : Accounted m pkt) (ha : m.access pkt = .ok (m', pkt')) :
    RecordsReserved m' (hist ++ [(m, pkt)]) := by
  have hd := accessed_of_access ha
  refine ⟨hd.nodup h.nodup, fun l hl => ?_⟩
  have hlocked := hd.locked
  unfold LockedAfter at hlocked
  split_ifs at hlocked with hll hst
  · obtain ⟨paddr, c, hp, hc, hl'⟩ := hlocked
    have hsc : pkt.isLLSC := by
      simp only [isLoadLocked, Bool.and_eq_true] at hll
      exact hll.2
    rcases mem_lockFor h.nodup (hl' ▸ hl) with rfl | ⟨hl, hne⟩
    · have haddr := Option.some.inj ((hacc.addr hsc).symm.trans hp)
      exact since_concat.2 (.inl ⟨⟨hll, hc⟩, haddr⟩)
    · refine since_concat.2 (.inr ⟨h.reserved l hl, ?_, by simp [wrote_of_loadLocked hll]⟩)
      rintro ⟨-, hc'⟩
      exact hne (Option.some.inj (hc'.symm.trans hc))
  · have hmem : l ∈ m.lockedAddrList := (unlock_sublist m pkt).subset (hlocked ▸ hl)
    refine since_concat.2 (.inr ⟨h.reserved l hmem, fun hby => hll hby.1, ?_⟩)
    intro b hb hgran
    -- the record would have been cleared
    have hlock := (hacc.clears b hb ⟨l, hmem, hgran.symm⟩).2
    rw [hlocked, unlock, if_pos (allowsStore_of_wrote hst hb)] at hl
    simp [hlock, hgran] at hl
  · rw [hlocked] at hl
    refine since_concat.2 (.inr ⟨h.reserved l hl, fun hby => hll hby.1, ?_⟩)
    intro b hb hgran
    exact hst (hacc.clears b hb ⟨l, hl, hgran.symm⟩).1

lemma Run.recordsReserved (hrun : Run m₀ hist m)
    (h0 : m₀.lockedAddrList = []) (hacc : ∀ e ∈ hist, Accounted e.1 e.2) :
    RecordsReserved m hist := by
  induction hrun with
  | nil => exact ⟨by simp [h0], by simp [h0]⟩
  | @access hist m m' hrun pkt pkt' ha ih =>
    have hhist := ih fun e he => hacc e (mem_append_left _ he)
    exact hhist.access (hacc (m, pkt) (by simp)) ha

/-- A store-conditional that succeeds: the extra data of the request comes back as 1. -/
def StoreCondSucceeds (m : AbstractMemory) (pkt : Packet) : Prop :=
  (isStore pkt ∧ pkt.isLLSC) ∧
    ∃ m' pkt', m.access pkt = .ok (m', pkt') ∧ pkt'.req.extraData = some 1

lemma StoreCondSucceeds.exists_record (h : StoreCondSucceeds m pkt) :
    ∃ l ∈ m.lockedAddrList, lockAddr pkt = some l.addr ∧
      pkt.req.contextId = some l.contextId := by
  obtain ⟨⟨hst, hsc⟩, m', pkt', ha, hx⟩ := h
  have hx' := (accessed_of_access ha).extraData hst hsc
  rw [hx] at hx'
  have hallow : m.allowsStore pkt := by
    by_contra hallow
    rw [if_neg hallow] at hx'
    simp at hx'
  simpa [allowsStore, hsc] using hallow

/-- In a run from a memory without records, in which every packet is accounted for, a
store-conditional succeeds only if its context has a reservation of the granule. -/
theorem storeCond_reserved {hist : History} (h₀ : m₀.lockedAddrList = [])
    (hrun : Run m₀ hist m) (hacc : ∀ e ∈ hist, Accounted e.1 e.2) (hpkt : Accounted m pkt)
    (h : StoreCondSucceeds m pkt) :
    ∃ c, pkt.req.contextId = some c ∧ Reserved c (LockedAddr.mask pkt.addr) hist := by
  obtain ⟨l, hl, hlock, hc⟩ := h.exists_record
  refine ⟨l.contextId, hc, ?_⟩
  rw [Option.some.inj ((hpkt.addr h.1.2).symm.trans hlock)]
  exact (hrun.recordsReserved h₀ hacc).reserved l hl

/-- A memory of 4 KiB. -/
def page : AbstractMemory := ⟨RangeSize 0 0x1000, some fun _ => 0, [], []⟩

/-- A packet of 8 bytes. -/
def wordPacket (cmd : MemCmd) (a : Addr) (c : ContextID) : Packet where
  cmd := cmd
  addr := a
  size := 8
  data := some (List.replicate 8 1)
  length_data := by simp
  cacheResponding := false
  req := ⟨some a, some c, none, [], false, false, false, none⟩

/-- A store of another context to another granule in between does no harm. -/
theorem storeCond_reserved_after_store :
    ∃ hist m, hist.map Prod.snd =
        [wordPacket .loadLockedReq 0x100 1, wordPacket .writeReq 0x200 2] ∧
      StoreCondSucceeds m (wordPacket .storeCondReq 0x108 1) ∧
      ∃ c, some 1 = some c ∧ Reserved c (LockedAddr.mask 0x108) hist := by
  have hrun : Run page _ _ := (Run.nil.access (wordPacket .loadLockedReq 0x100 1) rfl).access
    (wordPacket .writeReq 0x200 2) rfl
  have hreserved (h : StoreCondSucceeds _ (wordPacket .storeCondReq 0x108 1)) :=
    And.intro h (storeCond_reserved rfl hrun (by decide) (by decide) h)
  exact ⟨_, _, rfl, hreserved ⟨by decide, _, _, rfl, rfl⟩⟩

/-- A swap of another context in between writes to the granule, and the store-conditional
succeeds. -/
theorem storeCond_succeeds_after_swap :
    ∃ hist m, Run page hist m ∧ StoreCondSucceeds m (wordPacket .storeCondReq 0x100 1) ∧
      ¬ Reserved 1 (LockedAddr.mask 0x100) hist := by
  refine ⟨_, _, (Run.nil.access (wordPacket .loadLockedReq 0x100 1) rfl).access
    (wordPacket .swapReq 0x100 2) rfl, ⟨by decide, _, _, rfl, rfl⟩, ?_⟩
  intro h
  rcases since_concat.1 h with ⟨⟨hll, -⟩, -⟩ | ⟨-, -, hw⟩
  · cases hll
  · exact hw 0x100 (by decide) rfl

end ChipletGem5.AbstractMemory
