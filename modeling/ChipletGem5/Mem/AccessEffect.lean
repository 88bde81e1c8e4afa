import ChipletGem5.Mem.AbstractMemory

/-!
# What a packet does to the abstract memory

`wrote` is the list of the bytes that a packet writes, by conditions on the state in which it
comes in.  `accessed_of_access` says what `AbstractMemory::access` does with a packet: all bytes
but these stay as they are, a load-locked packet adds a record to the locked addresses or moves
one, a store that is performed erases the records of its address, and a swap leaves the records
alone.
-/

namespace ChipletGem5.AbstractMemory

open ByteMemory Except

variable {m m' : AbstractMemory} {pkt pkt' : Packet}

/-! ### The bytes that a packet writes -/

/-- The branch of `AbstractMemory::access` for writes is taken. -/
def isStore (pkt : Packet) : Bool :=
  !ignores pkt && pkt.cmd != .swapReq && !pkt.isRead && !(pkt.isInvalidate || pkt.isClean) &&
    pkt.isWrite

/-- A load-locked packet that is not left alone. -/
def isLoadLocked (pkt : Packet) : Bool := !ignores pkt && pkt.isRead && pkt.isLLSC

/-- The address that is compared with the locked addresses. -/
def lockAddr (pkt : Packet) : Option Addr := pkt.req.paddr.map LockedAddr.mask

/-- Whether a store is performed: if it is conditional, there has to be a record of its address
and context. -/
def allowsStore (m : AbstractMemory) (pkt : Packet) : Bool :=
  !pkt.isLLSC || m.lockedAddrList.any fun l =>
    lockAddr pkt == some l.addr && pkt.req.contextId == some l.contextId

def storeAddrs (pkt : Packet) : List Addr :=
  if pkt.isMaskedWrite then
    ByteMemory.written pkt.addr
      (pkt.req.byteEnable.map fun enable => if enable then some 0 else none)
  else ByteMemory.addrs pkt.addr pkt.size

def swapAddrs (mem : ByteMemory 64) (pkt : Packet) : List Addr :=
  if pkt.req.isAtomic then
    match pkt.req.atomicOpFunctor with
    | some op => ByteMemory.addrs pkt.addr op.width
    | none => []
  else
    match overwriteMem mem pkt with
    | .ok true => storeAddrs pkt
    | _ => []

def wrote (m : AbstractMemory) (pkt : Packet) : List Addr :=
  if ignores pkt then []
  else if pkt.cmd = .swapReq then
    match m.pmem with
    | some mem => swapAddrs mem pkt
    | none => []
  else if isStore pkt && m.allowsStore pkt then storeAddrs pkt
  else []

lemma written_writeData {bytes : List (Option UInt8)} (h : pkt.writeData = .ok bytes) :
    ByteMemory.written pkt.addr bytes = storeAddrs pkt := by
  obtain ⟨base, hbase, h⟩ := bind_eq_ok.1 h
  have hlen : base.length = pkt.size := pkt.length_data base (getOrError_eq_ok.1 hbase)
  unfold storeAddrs
  rcases hm : pkt.isMaskedWrite with _ | _
  · rw [hm] at h
    rw [if_neg (by simp), ← pure_eq_ok.1 h, written_map_some, hlen]
  · rw [hm] at h
    obtain ⟨_, hsize, h⟩ := bind_eq_ok.1 h
    have hsize : pkt.req.byteEnable.length = pkt.size := by simpa using require_eq_ok.1 hsize
    rw [← pure_eq_ok.1 h]
    -- the byte enables say which bytes are left out
    apply written_congr
    apply List.ext_getElem
    · simp [hsize, hlen]
    · intro i h1 h2
      simp only [List.getElem_map, List.getElem_zipWith]
      split <;> rfl

/-- All bytes but some are the same. -/
def SameBytes (except : List Addr) (m m' : AbstractMemory) : Prop :=
  ∀ b ∉ except, (m'.pmem.map fun mem => mem b) = m.pmem.map fun mem => mem b

lemma SameBytes.of_eq {l : List Addr} (h : m'.pmem = m.pmem) : SameBytes l m m' := by
  intro b _
  rw [h]

variable {mem : ByteMemory 64} {req : Request} {b : Bool} {paddr : Addr} {l : List LockedAddr}

lemma SameBytes.writeBytes (h : m.pmem = some mem) (a : Addr) (bytes : List (Option UInt8)) :
    SameBytes (ByteMemory.written a bytes) m
      { m with pmem := some (mem.writeBytes a bytes) } := by
  intro b hb
  rw [h, Option.map_some, Option.map_some, writeBytes_of_notMem hb]

/-! ### Load-locked packets -/

/-- The records after the first one of a context is moved to an address. -/
def relock (paddr : Addr) (c : ContextID) : List LockedAddr → List LockedAddr
  | [] => []
  | i :: l => if i.contextId = c then ⟨paddr, c⟩ :: l else i :: relock paddr c l

/-- The records after a load-locked packet. -/
def lockFor (paddr : Addr) (c : ContextID) (l : List LockedAddr) : List LockedAddr :=
  if c ∈ l.map LockedAddr.contextId then relock paddr c l else ⟨paddr, c⟩ :: l

lemma matchesContext_eq_ok {i : LockedAddr} (h : i.matchesContext req = .ok b) :
    ∃ c, req.contextId = some c ∧ b = (i.contextId == c) := by
  obtain ⟨-, -, h⟩ := bind_eq_ok.1 h
  obtain ⟨-, -, h⟩ := bind_eq_ok.1 h
  obtain ⟨c, hc, h⟩ := bind_eq_ok.1 h
  exact ⟨c, getOrError_eq_ok.1 hc, (pure_eq_ok.1 h).symm⟩

lemma updateLocked_eq_ok {c : ContextID}
    {o : Option (List LockedAddr)} (hreq : req.contextId = some c)
    (h : updateLocked paddr req l = .ok o) :
    o = if c ∈ l.map LockedAddr.contextId then some (relock paddr c l) else none := by
  induction l generalizing o with
  | nil => exact (ok.inj h).symm
  | cons i l ih =>
    obtain ⟨b, hb, h⟩ := bind_eq_ok.1 h
    obtain ⟨c', hc', rfl⟩ := matchesContext_eq_ok hb
    cases hreq.symm.trans hc'
    by_cases hc : i.contextId = c
    · rw [if_pos (by simp [hc])] at h
      rw [← pure_eq_ok.1 h, relock, if_pos hc, if_pos (by simp [hc]), hc]
    · rw [if_neg (by simp [hc])] at h
      obtain ⟨o', ho', h⟩ := bind_eq_ok.1 h
      have hmem : c ∈ (i :: l).map LockedAddr.contextId ↔ c ∈ l.map LockedAddr.contextId := by
        simp [Ne.symm hc]
      rw [← pure_eq_ok.1 h, ih ho', relock]
      simp only [hmem]
      split <;> rfl

/-- Only a request with a context passes: the loop fails at the first record without one, and so
does the creation of a new record. -/
lemma trackLoadLocked_eq_ok (h : m.trackLoadLocked pkt = .ok m') :
    m'.pmem = m.pmem ∧ ∃ paddr c, lockAddr pkt = some paddr ∧ pkt.req.contextId = some c ∧
      m'.lockedAddrList = lockFor paddr c m.lockedAddrList := by
  obtain ⟨paddr, hp, h⟩ := bind_eq_ok.1 h
  obtain ⟨o, ho, h⟩ := bind_eq_ok.1 h
  have hlock : lockAddr pkt = some (LockedAddr.mask paddr) := by
    rw [lockAddr, getOrError_eq_ok.1 hp, Option.map_some]
  have hctx : ∃ c, pkt.req.contextId = some c := by
    rcases hl : m.lockedAddrList with _ | ⟨i, l⟩
    · rw [hl] at ho
      cases ho
      obtain ⟨c, hc, -⟩ := bind_eq_ok.1 h
      exact ⟨c, getOrError_eq_ok.1 hc⟩
    · rw [hl] at ho
      obtain ⟨b, hb, -⟩ := bind_eq_ok.1 ho
      obtain ⟨c, hc, -⟩ := matchesContext_eq_ok hb
      exact ⟨c, hc⟩
  obtain ⟨c, hc⟩ := hctx
  have ho' := updateLocked_eq_ok hc ho
  by_cases hmem : c ∈ m.lockedAddrList.map LockedAddr.contextId
  · rw [if_pos hmem] at ho'
    subst ho'
    rw [← pure_eq_ok.1 h]
    exact ⟨rfl, _, c, hlock, hc, by rw [lockFor, if_pos hmem]⟩
  · rw [if_neg hmem] at ho'
    subst ho'
    obtain ⟨c', hc', h⟩ := bind_eq_ok.1 h
    cases hc.symm.trans (getOrError_eq_ok.1 hc')
    rw [← pure_eq_ok.1 h]
    exact ⟨rfl, _, c, hlock, hc, by rw [lockFor, if_neg hmem]⟩

lemma track_eq_ok (h : m.track pkt = .ok m') :
    m'.pmem = m.pmem ∧
      if pkt.isLLSC then ∃ paddr c, lockAddr pkt = some paddr ∧ pkt.req.contextId = some c ∧
        m'.lockedAddrList = lockFor paddr c m.lockedAddrList
      else m'.lockedAddrList = m.lockedAddrList := by
  unfold track at h
  rcases hl : pkt.isLLSC with _ | _
  · rw [hl] at h
    cases h
    exact ⟨rfl, by simp⟩
  · rw [hl] at h
    obtain ⟨-, -, h⟩ := bind_eq_ok.1 h
    exact trackLoadLocked_eq_ok h

/-! ### Stores -/

/-- The records after a store, if it is performed. -/
def unlock (m : AbstractMemory) (pkt : Packet) : List LockedAddr :=
  if m.allowsStore pkt then m.lockedAddrList.filter fun i => some i.addr ≠ lockAddr pkt
  else m.lockedAddrList

lemma findLocked_eq_ok (h : findLocked paddr req l = .ok b) :
    b = l.any fun i => some paddr == some i.addr && req.contextId == some i.contextId := by
  induction l with
  | nil => exact (ok.inj h).symm
  | cons i l ih =>
    rw [findLocked] at h
    by_cases ha : i.addr = paddr
    · rw [if_pos ha] at h
      obtain ⟨b', hb', h⟩ := bind_eq_ok.1 h
      obtain ⟨c, hc, rfl⟩ := matchesContext_eq_ok hb'
      by_cases hic : i.contextId = c
      · rw [if_pos (by simp [hic])] at h
        simp [← pure_eq_ok.1 h, ha, hc, hic]
      · rw [if_neg (by simp [hic])] at h
        simp [ih h, ha, hc, Ne.symm hic]
    · rw [if_neg ha] at h
      simp [ih h, Ne.symm ha]

lemma eraseLocked_eq_ok {requester : ContextID} {l' : List LockedAddr}
    {cleared cleared' : List ContextID}
    (h : eraseLocked paddr requester l cleared = .ok (l', cleared')) :
    l' = l.filter fun i => some i.addr ≠ some paddr := by
  induction l generalizing l' cleared cleared' with
  | nil =>
    obtain ⟨rfl, -⟩ := Prod.mk.inj (ok.inj h)
    rfl
  | cons i l ih =>
    rw [eraseLocked] at h
    by_cases ha : i.addr = paddr
    · rw [if_pos ha] at h
      obtain ⟨-, -, h⟩ := bind_eq_ok.1 h
      simpa [ha] using ih h
    · rw [if_neg ha] at h
      obtain ⟨_, he, ⟨⟩⟩ := bind_pure_eq_ok.1 h
      simpa [ha] using ih he

lemma allowStore_eq_ok (hp : lockAddr pkt = some paddr)
    (h : m.allowStore pkt paddr = .ok b) : b = m.allowsStore pkt := by
  unfold allowStore at h
  unfold allowsStore
  rcases hl : pkt.isLLSC with _ | _
  · rw [hl] at h
    exact (ok.inj h).symm
  · rw [hl] at h
    rw [findLocked_eq_ok h, hp]
    rfl

/-- The packet after the locked addresses are checked. -/
def checked (m : AbstractMemory) (pkt : Packet) : Packet :=
  if pkt.isLLSC then pkt.setExtraData (if m.allowsStore pkt then 1 else 0) else pkt

lemma storeAddrs_checked (m : AbstractMemory) (pkt : Packet) :
    storeAddrs (m.checked pkt) = storeAddrs pkt := by
  unfold checked
  split <;> rfl

lemma checkLockedAddrList_eq_ok {ok : Bool} (h : m.checkLockedAddrList pkt = .ok (ok, m', pkt')) :
    ok = m.allowsStore pkt ∧ m'.pmem = m.pmem ∧ m'.lockedAddrList = m.unlock pkt ∧
      pkt' = m.checked pkt := by
  obtain ⟨paddr, hp, h⟩ := bind_eq_ok.1 h
  obtain ⟨allow, hallow, h⟩ := bind_eq_ok.1 h
  have hlock : lockAddr pkt = some (LockedAddr.mask paddr) := by
    rw [lockAddr, getOrError_eq_ok.1 hp, Option.map_some]
  cases allowStore_eq_ok hlock hallow
  unfold unlock checked
  rcases hs : m.allowsStore pkt with _ | _
  · rw [hs] at h
    obtain ⟨rfl, hrest⟩ := Prod.mk.inj (pure_eq_ok.1 h)
    cases hrest
    exact ⟨rfl, rfl, by simp, rfl⟩
  · rw [hs] at h
    obtain ⟨_, he, h⟩ := bind_eq_ok.1 h
    obtain ⟨rfl, hrest⟩ := Prod.mk.inj (pure_eq_ok.1 h)
    cases hrest
    refine ⟨rfl, rfl, ?_, rfl⟩
    rw [hlock]
    exact eraseLocked_eq_ok he

lemma writeOK_eq_ok {ok : Bool} (h : m.writeOK pkt = .ok (ok, m', pkt')) :
    ok = m.allowsStore pkt ∧ m'.pmem = m.pmem ∧ m'.lockedAddrList = m.unlock pkt ∧
      pkt' = m.checked pkt := by
  unfold writeOK at h
  rcases hl : m.lockedAddrList with _ | ⟨i, l⟩
  · -- without records, the stores performed are those that are not conditional
    have hallow : m.allowsStore pkt = !pkt.isLLSC := by simp [allowsStore, hl]
    rw [if_pos (by simp [hl])] at h
    obtain ⟨rfl, hrest⟩ := Prod.mk.inj (Except.ok.inj h)
    cases hrest
    refine ⟨hallow.symm, rfl, by simp [unlock, hl], ?_⟩
    rw [checked, hallow]
    rcases pkt.isLLSC with _ | _ <;> rfl
  · rw [if_neg (by simp [hl])] at h
    exact checkLockedAddrList_eq_ok h

lemma store_eq_ok (h : m.store pkt = .ok m') :
    m'.lockedAddrList = m.lockedAddrList ∧ SameBytes (storeAddrs pkt) m m' := by
  unfold store at h
  rcases hm : m.pmem with _ | mem
  · rw [hm] at h
    cases h
    exact ⟨rfl, .of_eq rfl⟩
  · rw [hm] at h
    obtain ⟨bytes, hw, rfl⟩ := bind_pure_eq_ok.1 h
    rw [← written_writeData hw]
    exact ⟨rfl, SameBytes.writeBytes hm _ _⟩

lemma write_eq_ok (h : m.write pkt = .ok (m', pkt')) :
    m'.lockedAddrList = m.unlock pkt ∧
      SameBytes (if m.allowsStore pkt then storeAddrs pkt else []) m m' ∧
      pkt'.req = (m.checked pkt).req := by
  obtain ⟨⟨ok, m1, pkt1⟩, hok, h⟩ := bind_eq_ok.1 h
  obtain ⟨rfl, hpmem, hlocked, rfl⟩ := writeOK_eq_ok hok
  rcases hallow : m.allowsStore pkt with _ | _
  · rw [hallow] at h
    cases h
    exact ⟨hlocked, .of_eq hpmem, rfl⟩
  · rw [hallow] at h
    obtain ⟨m2, hs, h⟩ := bind_eq_ok.1 h
    obtain ⟨-, -, ⟨⟩⟩ := bind_pure_eq_ok.1 h
    obtain ⟨hlocked2, hsame⟩ := store_eq_ok hs
    refine ⟨hlocked2.trans hlocked, fun b hb => ?_, rfl⟩
    rw [← storeAddrs_checked m pkt] at hb
    rw [← hpmem]
    exact hsame b hb

/-! ### Swaps -/

lemma atomicOp_eq_ok (hm : m.pmem = some mem)
    (ha : pkt.req.isAtomic) (h : m.atomicOp mem pkt = .ok (m', pkt')) :
    m'.lockedAddrList = m.lockedAddrList ∧ SameBytes (swapAddrs mem pkt) m m' := by
  obtain ⟨pkt1, -, h⟩ := bind_eq_ok.1 h
  obtain ⟨op, hop, ⟨⟩⟩ := bind_pure_eq_ok.1 h
  refine ⟨rfl, ?_⟩
  have hlen : (op.execute (mem.readBytes pkt.addr op.width)).length = op.width :=
    op.length_execute _ (by simp)
  have haddrs : swapAddrs mem pkt = written pkt.addr
      ((op.execute (mem.readBytes pkt.addr op.width)).map some) := by
    rw [written_map_some, hlen, swapAddrs, if_pos ha, getOrError_eq_ok.1 hop]
  rw [haddrs]
  exact SameBytes.writeBytes hm _ _

lemma swapData_eq_ok (hm : m.pmem = some mem)
    (ha : pkt.req.isAtomic = false) (h : m.swapData mem pkt = .ok (m', pkt')) :
    m'.lockedAddrList = m.lockedAddrList ∧ SameBytes (swapAddrs mem pkt) m m' := by
  obtain ⟨bytes, hw, h⟩ := bind_eq_ok.1 h
  obtain ⟨pkt1, -, h⟩ := bind_eq_ok.1 h
  obtain ⟨overwrite, ho, h⟩ := bind_eq_ok.1 h
  obtain ⟨-, -, ⟨⟩⟩ := bind_pure_eq_ok.1 h
  rcases overwrite with _ | _
  · exact ⟨rfl, .of_eq rfl⟩
  · have haddrs : swapAddrs mem pkt = written pkt.addr bytes := by
      rw [written_writeData hw, swapAddrs, if_neg (by simp [ha]), ho]
    rw [haddrs]
    exact ⟨rfl, SameBytes.writeBytes hm _ _⟩

lemma swap_eq_ok (h : m.swap pkt = .ok (m', pkt')) :
    m'.lockedAddrList = m.lockedAddrList ∧
      SameBytes (match m.pmem with | some mem => swapAddrs mem pkt | none => []) m m' := by
  unfold swap at h
  rcases hm : m.pmem with _ | mem
  · rw [hm] at h
    rcases ha : pkt.req.isAtomic with _ | _
    · simp [ha] at h
    · obtain ⟨rfl, -⟩ : m = m' ∧ pkt = pkt' := by simpa [ha] using h
      exact ⟨rfl, .of_eq rfl⟩
  · rw [hm] at h
    rcases ha : pkt.req.isAtomic with _ | _
    · exact swapData_eq_ok hm ha (by simpa [ha] using h)
    · exact atomicOp_eq_ok hm ha (by simpa [ha] using h)

/-! ### Whole packets -/

lemma access_eq_ok (h : m.access pkt = .ok (m', pkt')) :
    (ignores pkt ∧ m' = m) ∨
      ignores pkt = false ∧ ∃ pkt1, m.handle pkt = .ok (m', pkt1) ∧ pkt'.req = pkt1.req := by
  unfold access at h
  rcases hi : ignores pkt with _ | _
  · rw [hi] at h
    obtain ⟨-, -, h⟩ := bind_eq_ok.1 h
    obtain ⟨⟨m1, pkt1⟩, hh, h⟩ := bind_eq_ok.1 h
    obtain ⟨pkt2, hr, ⟨⟩⟩ := bind_pure_eq_ok.1 h
    refine .inr ⟨rfl, pkt1, hh, ?_⟩
    unfold respond at hr
    split at hr
    · exact Packet.req_of_makeResponse hr
    · rw [ok.inj hr]
  · rw [hi] at h
    obtain ⟨rfl, -⟩ := Prod.mk.inj (ok.inj h)
    exact .inl ⟨rfl, rfl⟩

/-- What `access` does to the locked addresses. -/
def LockedAfter (m : AbstractMemory) (pkt : Packet) (l : List LockedAddr) : Prop :=
  if isLoadLocked pkt then ∃ paddr c, lockAddr pkt = some paddr ∧ pkt.req.contextId = some c ∧
    l = lockFor paddr c m.lockedAddrList
  else if isStore pkt then l = m.unlock pkt
  else l = m.lockedAddrList

/-- The effect of a packet on the bytes of the memory, the locked addresses and, for a
store-conditional, the extra data of the request. -/
structure Accessed (m : AbstractMemory) (pkt : Packet) (m' : AbstractMemory) (pkt' : Packet) :
    Prop where
  frame : SameBytes (m.wrote pkt) m m'
  locked : LockedAfter m pkt m'.lockedAddrList
  extraData : isStore pkt → pkt.isLLSC →
    pkt'.req.extraData = some (if m.allowsStore pkt then 1 else 0)

lemma Accessed.of_other (hll : isLoadLocked pkt = false) (hst : isStore pkt = false)
    (hlocked : m'.lockedAddrList = m.lockedAddrList) (hframe : SameBytes (m.wrote pkt) m m') :
    Accessed m pkt m' pkt' := by
  refine ⟨hframe, ?_, by simp [hst]⟩
  rw [LockedAfter, if_neg (by simp [hll]), if_neg (by simp [hst])]
  exact hlocked

lemma wrote_of_ne_swapReq (hi : ignores pkt = false) (hswap : pkt.cmd ≠ .swapReq) :
    m.wrote pkt = if isStore pkt && m.allowsStore pkt then storeAddrs pkt else [] := by
  rw [wrote, if_neg (by simp [hi]), if_neg hswap]

lemma accessed_of_swap (hi : ignores pkt = false) (hswap : pkt.cmd = .swapReq)
    (h : m.swap pkt = .ok (m', pkt')) : Accessed m pkt m' pkt' := by
  have hsc : pkt.isLLSC = false := by
    rw [CmdPacket.isLLSC, hswap]
    rfl
  obtain ⟨hlocked, hsame⟩ := swap_eq_ok h
  refine .of_other (by simp [isLoadLocked, hsc]) (by simp [isStore, hswap]) hlocked ?_
  rw [wrote, if_neg (by simp [hi]), if_pos hswap]
  exact hsame

lemma accessed_of_read (hi : ignores pkt = false) (hr : pkt.isRead)
    (h : m.read pkt = .ok (m', pkt')) : Accessed m pkt m' pkt' := by
  have hst : isStore pkt = false := by simp [isStore, hr]
  obtain ⟨-, -, h⟩ := bind_eq_ok.1 h
  obtain ⟨m1, ht, h⟩ := bind_eq_ok.1 h
  obtain ⟨-, -, ⟨⟩⟩ := bind_pure_eq_ok.1 h
  obtain ⟨hpmem, hlocked⟩ := track_eq_ok ht
  have hll : isLoadLocked pkt = pkt.isLLSC := by simp [isLoadLocked, hi, hr]
  refine ⟨.of_eq hpmem, ?_, by simp [hst]⟩
  rw [LockedAfter, hll]
  simp only [hst, Bool.false_eq_true, if_false]
  exact hlocked

lemma accessed_of_write (hst : isStore pkt) (h : m.write pkt = .ok (m', pkt')) :
    Accessed m pkt m' pkt' := by
  have hparts := hst
  simp only [isStore, Bool.and_eq_true, Bool.not_eq_true', bne_iff_ne] at hparts
  obtain ⟨⟨⟨⟨hi, hswap⟩, hr⟩, -⟩, -⟩ := hparts
  obtain ⟨hlocked, hsame, hreq⟩ := write_eq_ok h
  refine ⟨?_, ?_, ?_⟩
  · rwa [wrote_of_ne_swapReq hi hswap, hst]
  · rw [LockedAfter, if_neg (by simp [isLoadLocked, hr]), if_pos hst]
    exact hlocked
  · intro _ hsc
    rw [hreq, checked, if_pos hsc]
    rfl

lemma accessed_of_access (h : m.access pkt = .ok (m', pkt')) : Accessed m pkt m' pkt' := by
  rcases access_eq_ok h with ⟨hi, rfl⟩ | ⟨hi, pkt1, hh, hreq⟩
  · exact .of_other (by simp [isLoadLocked, hi]) (by simp [isStore, hi]) rfl (.of_eq rfl)
  have hd : Accessed m pkt m' pkt1 := by
    unfold handle at hh
    split_ifs at hh with hswap hr hc hw
    · exact accessed_of_swap hi hswap hh
    · exact accessed_of_read hi hr hh
    · obtain ⟨-, -, ⟨⟩⟩ := bind_pure_eq_ok.1 hh
      exact .of_other (by simp [isLoadLocked, hr]) (by simp [isStore, hc]) rfl (.of_eq rfl)
    · refine accessed_of_write ?_ hh
      simp [isStore, hi, hswap, hr, hc, hw]
  exact ⟨hd.frame, hd.locked, fun hst hsc => hreq ▸ hd.extraData hst hsc⟩

end ChipletGem5.AbstractMemory
