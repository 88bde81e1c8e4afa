import Mathlib.Data.List.AList
import ChipletGem5.Mem.Packet

/-!
# The snoop filter

`SnoopFilter` of `mem/snoop_filter.cc` keeps, for each line, a mask of the ports that hold it
and one of the ports that have requested it, so that a crossbar need not snoop all of its ports.
The slave ports of the crossbar are given by their numbers; those that snoop have a bit in the
masks.  The latency, the statistics and the tracing are left out, and of a packet only what the
filter reads is kept.
-/

namespace ChipletGem5.SnoopFilter

abbrev snoopMaskSize : ℕ := 256

/-- One bit for each snooping port. -/
abbrev SnoopMask := BitVec snoopMaskSize

/-- The number of a slave port. -/
abbrev PortID := ℕ

/-- The snooping slave ports of a crossbar, as `setSlavePorts` leaves them. -/
structure Ports where
  slavePorts : List PortID
  nodup : slavePorts.Nodup
  length_le : slavePorts.length ≤ snoopMaskSize

namespace Ports

/-- `SnoopFilter::setSlavePorts`, from the numbers of the ports and whether they snoop. -/
def setSlavePorts (slavePorts : List (PortID × Bool)) (hnodup : (slavePorts.map Prod.fst).Nodup) :
    Result Ports :=
  if hlen : ((slavePorts.filter Prod.snd).map Prod.fst).length ≤ snoopMaskSize then
    .ok ⟨_, hnodup.sublist (List.filter_sublist.map _), hlen⟩
  else .error (.fatal "Snoop filter only supports %d snooping ports, got %d\n")

variable (ports : Ports)

def isSnooping (port : PortID) : Bool := decide (port ∈ ports.slavePorts)

/-- The local number of a port, an entry of `localSlavePortIds`. -/
def localId (port : PortID) : ℕ := ports.slavePorts.idxOf port

def portToMask (port : PortID) : SnoopMask :=
  if !ports.isSnooping port then 0 else (1 : SnoopMask) <<< ports.localId port

def maskToPortList (mask : SnoopMask) : List PortID :=
  ports.slavePorts.filter fun p => mask &&& ports.portToMask p != 0

end Ports

/-- What the filter reads of a packet and its request. -/
structure SnoopPacket extends CmdPacket where
  addr : Addr
  isSecure : Bool
  /-- The flag `UNCACHEABLE` of the request. -/
  isUncacheable : Bool
  /-- One of the flags `CLEAN` and `INVALIDATE` of the request. -/
  isCacheMaintenance : Bool
  cacheResponding : Bool
  hasSharers : Bool
  isBlockCached : Bool
deriving DecidableEq, Repr

/-- The ports that asked for a line and those that hold it. -/
structure SnoopItem where
  requested : SnoopMask
  holder : SnoopMask
deriving DecidableEq, Repr

end SnoopFilter

/-- The filter and the lookup it has not finished. -/
structure SnoopFilter where
  ports : SnoopFilter.Ports
  linesize : ℕ
  maxEntryCount : ℕ
  cachedLocations : AList fun _ : Addr => SnoopFilter.SnoopItem
  /-- `reqLookupResult.it`, by the line it refers to; `none` at the end of the map. -/
  it : Option Addr
  /-- `reqLookupResult.retryItem`. -/
  retryItem : SnoopFilter.SnoopItem

namespace SnoopFilter

def new (ports : Ports) (linesize maxEntryCount : ℕ) : SnoopFilter :=
  ⟨ports, linesize, maxEntryCount, ∅, none, ⟨0, 0⟩⟩

variable (f : SnoopFilter)

/-- The key of a line, with `LineSecure` for lines of the secure memory space. -/
def lineKey (addr : Addr) (isSecure : Bool) : Addr :=
  (addr &&& ~~~(BitVec.ofNat 64 (f.linesize - 1))) ||| if isSecure then 0x01 else 0

variable (pkt : SnoopPacket)

def lineAddr : Addr := f.lineKey pkt.addr pkt.isSecure

def setItem (line : Addr) (item : SnoopItem) : SnoopFilter :=
  { f with cachedLocations := f.cachedLocations.insert line item }

def eraseIfNullEntry (line : Addr) : SnoopFilter :=
  match f.cachedLocations.lookup line with
  | none => f
  | some item =>
      if item.requested ||| item.holder = 0 then
        { f with cachedLocations := f.cachedLocations.erase line }
      else f

/-- What `lookupRequest` makes of the entry of the line, for a request that allocates. -/
def requestItem (reqPort : SnoopMask) (item : SnoopItem) : Result SnoopItem :=
  if pkt.needsResponse then
    if !pkt.cacheResponding then do
      require (item.requested &&& reqPort == 0)
        (.panic "double request :( SF value %x.%x\n")
      return { item with requested := item.requested ||| reqPort }
    else do
      require (item.holder &&& reqPort != 0) (.panic "Need to hold the value!")
      return item
  else do
    require pkt.isEviction (.assertion "cpkt->isEviction()")
    require (item.holder &&& reqPort != 0)
      (.panic "requester %x is not a holder :( SF value %x.%x\n")
    return if pkt.isBlockCached then item else { item with holder := item.holder &&& ~~~reqPort }

/-- A request comes from a cache that the filter keeps track of. -/
def allocates (port : PortID) : Bool :=
  !pkt.isUncacheable && f.ports.isSnooping port && pkt.fromCache

/-- `SnoopFilter::lookupRequest`, with the ports to snoop. -/
def lookupRequest (port : PortID) : Result (SnoopFilter × List PortID) :=
  let line := f.lineAddr pkt
  let reqPort := f.ports.portToMask port
  if f.cachedLocations.lookup line = none ∧ f.allocates pkt port = false then
    .ok ({ f with it := none }, [])
  else do
    let item := (f.cachedLocations.lookup line).getD ⟨0, 0⟩
    let interested := item.holder ||| item.requested
    let item' ← if f.allocates pkt port then requestItem pkt reqPort item else .ok item
    return ({ f with it := some line, retryItem := item }.setItem line item',
      f.ports.maskToPortList (interested &&& ~~~reqPort))

/-- `SnoopFilter::finishRequest`.  An iterator to an entry that has been erased must not be
followed. -/
def finishRequest (willRetry : Bool) (addr : Addr) (isSecure : Bool) : Result SnoopFilter :=
  match f.it with
  | none => .ok f
  | some line => do
      require (f.cachedLocations.lookup line).isSome (.assertion "valid iterator")
      require (line == f.lineKey addr isSecure)
        (.assertion "reqLookupResult.it->first == line_addr")
      return (if willRetry then f.setItem line f.retryItem else f).eraseIfNullEntry line

/-- `SnoopFilter::lookupSnoop`, with the ports to snoop. -/
def lookupSnoop : Result (SnoopFilter × List PortID) := do
  require pkt.isRequest (.assertion "cpkt->isRequest()")
  let line := f.lineAddr pkt
  match f.cachedLocations.lookup line with
  | none =>
      require (decide (f.cachedLocations.entries.length < f.maxEntryCount))
        (.panic "snoop filter exceeded capacity of %d cache blocks\n")
      return (f, [])
  | some item =>
      require (pkt.isWriteback || pkt.isUncacheable || pkt.isInvalidate == pkt.needsWritable ||
          pkt.isCacheMaintenance)
        (.assertion ("cpkt->isWriteback() || cpkt->req->isUncacheable() || " ++
          "(cpkt->isInvalidate() == cpkt->needsWritable()) || cpkt->req->isCacheMaintenance()"))
      let f' := if pkt.isInvalidate && item.requested == 0 then
          (f.setItem line { item with holder := 0 }).eraseIfNullEntry line
        else f
      return (f', f.ports.maskToPortList (item.holder ||| item.requested))

def updateSnoopResponse (rspPort reqPort : PortID) : Result SnoopFilter := do
  require pkt.isResponse (.assertion "cpkt->isResponse()")
  require pkt.cacheResponding (.assertion "cpkt->cacheResponding()")
  if pkt.isUncacheable || !f.ports.isSnooping reqPort then return f
  else
    let line := f.lineAddr pkt
    let rspMask := f.ports.portToMask rspPort
    let reqMask := f.ports.portToMask reqPort
    let item := (f.cachedLocations.lookup line).getD ⟨0, 0⟩
    require (item.holder &&& rspMask != 0) (.panic "SF value %x.%x does not have the line\n")
    require (item.requested &&& reqMask != 0)
      (.panic "SF value %x.%x missing the original request\n")
    require (!pkt.isWriteback) (.assertion "!cpkt->isWriteback()")
    let holder := if !pkt.hasSharers then 0 else item.holder
    let item' : SnoopItem := ⟨item.requested &&& ~~~reqMask, holder ||| reqMask⟩
    require (item'.requested ||| item'.holder != 0)
      (.assertion "(sf_item.requested | sf_item.holder).any()")
    return f.setItem line item'

def updateSnoopForward : Result SnoopFilter := do
  require pkt.isResponse (.assertion "cpkt->isResponse()")
  require pkt.cacheResponding (.assertion "cpkt->cacheResponding()")
  let line := f.lineAddr pkt
  match f.cachedLocations.lookup line with
  | none => return f
  | some item =>
      if !pkt.hasSharers then
        return (f.setItem line { item with holder := 0 }).eraseIfNullEntry line
      else return f

/-- What `updateResponse` does to the entry of the line. -/
def respond (port : PortID) (item : SnoopItem) : Result SnoopFilter := do
  let line := f.lineAddr pkt
  let slaveMask := f.ports.portToMask port
  require (item.requested &&& slaveMask != 0) (.panic "SF value %x.%x missing request bit\n")
  let requested := item.requested &&& ~~~slaveMask
  if pkt.isCacheMaintenance then
    let holder := if pkt.isInvalidate then item.holder &&& ~~~slaveMask else item.holder
    return (f.setItem line ⟨requested, holder⟩).eraseIfNullEntry line
  else
    require (item.holder ||| slaveMask ||| requested != 0)
      (.assertion "(sf_item.holder | sf_item.requested).any()")
    return f.setItem line ⟨requested, item.holder ||| slaveMask⟩

def updateResponse (port : PortID) : Result SnoopFilter := do
  require pkt.isResponse (.assertion "cpkt->isResponse()")
  if pkt.isUncacheable || !f.ports.isSnooping port then return f
  else
    match f.cachedLocations.lookup (f.lineAddr pkt) with
    | none => return f
    | some item => f.respond pkt port item

/-! ### Masks -/

namespace Ports

variable {ports : Ports} {m m' : SnoopMask} {p q : PortID}

/-- The bit of a port is set in a mask. -/
def Bit (ports : Ports) (m : SnoopMask) (p : PortID) : Prop :=
  p ∈ ports.slavePorts ∧ m.getLsbD (ports.localId p)

lemma localId_lt (hp : p ∈ ports.slavePorts) : ports.localId p < snoopMaskSize :=
  (List.idxOf_lt_length_iff.2 hp).trans_le ports.length_le

lemma getLsbD_portToMask (hp : p ∈ ports.slavePorts) {i : ℕ} :
    (ports.portToMask p).getLsbD i ↔ i = ports.localId p := by
  have hlt := localId_lt hp
  have hmask : ports.portToMask p = BitVec.ofNat snoopMaskSize 1 <<< ports.localId p := by
    simp [portToMask, isSnooping, hp]
  rw [hmask, BitVec.getLsbD_shiftLeft, BitVec.getLsbD_one]
  simp only [Bool.and_eq_true, Bool.not_eq_eq_eq_not, Bool.not_true, decide_eq_false_iff_not,
    decide_eq_true_eq]
  omega

lemma portToMask_of_notMem (hp : p ∉ ports.slavePorts) : ports.portToMask p = 0 := by
  simp [portToMask, isSnooping, hp]

@[simp] lemma not_bit_zero : ¬ ports.Bit (BitVec.ofNat snoopMaskSize 0) p := by
  simp [Bit]

lemma bit_or : ports.Bit (m ||| m') p ↔ ports.Bit m p ∨ ports.Bit m' p := by
  simp only [Bit, BitVec.getLsbD_or, Bool.or_eq_true]
  tauto

lemma bit_portToMask : ports.Bit (ports.portToMask q) p ↔ p ∈ ports.slavePorts ∧ p = q := by
  by_cases hq : q ∈ ports.slavePorts
  · refine and_congr_right fun hp => ?_
    rw [getLsbD_portToMask hq]
    exact List.idxOf_inj hp
  · rw [portToMask_of_notMem hq]
    constructor
    · simp
    · rintro ⟨hp, rfl⟩
      exact absurd hp hq

lemma bit_andNot : ports.Bit (m &&& ~~~ports.portToMask q) p ↔ ports.Bit m p ∧ p ≠ q := by
  have hq : ports.Bit (ports.portToMask q) p ↔ p ∈ ports.slavePorts ∧ p = q := bit_portToMask
  unfold Bit at hq ⊢
  rw [BitVec.getLsbD_and, BitVec.getLsbD_not, Bool.and_eq_true, Bool.and_eq_true]
  constructor
  · rintro ⟨hp, hm, -, hnot⟩
    refine ⟨⟨hp, hm⟩, fun heq => ?_⟩
    rw [(hq.2 ⟨hp, heq⟩).2] at hnot
    simp at hnot
  · rintro ⟨⟨hp, hm⟩, hne⟩
    refine ⟨hp, hm, by simpa using localId_lt hp, ?_⟩
    rw [Bool.not_eq_eq_eq_not, Bool.not_true, Bool.eq_false_iff]
    exact fun hset => hne (hq.1 ⟨hp, hset⟩).2

lemma Bit.ne_zero (h : ports.Bit m p) : m ≠ 0 := by
  rintro rfl
  exact not_bit_zero h

lemma and_portToMask_ne_zero : m &&& ports.portToMask p ≠ 0 ↔ ports.Bit m p := by
  constructor
  · intro hne
    obtain ⟨i, hi⟩ : ∃ i, (m &&& ports.portToMask p).getLsbD i := by
      by_contra hnone
      push Not at hnone
      exact hne (BitVec.eq_of_getLsbD_eq fun i _ => by simpa using hnone i)
    rw [BitVec.getLsbD_and, Bool.and_eq_true] at hi
    by_cases hp : p ∈ ports.slavePorts
    · cases (getLsbD_portToMask hp).1 hi.2
      exact ⟨hp, hi.1⟩
    · simp [portToMask_of_notMem hp] at hi
  · rintro ⟨hp, hm⟩ hzero
    have hbit : ports.Bit (m &&& ports.portToMask p) p := by
      refine ⟨hp, ?_⟩
      rw [BitVec.getLsbD_and, hm]
      exact (bit_portToMask.2 ⟨hp, rfl⟩).2
    exact hbit.ne_zero hzero

lemma mem_maskToPortList : p ∈ ports.maskToPortList m ↔ ports.Bit m p := by
  rw [maskToPortList, List.mem_filter, bne_iff_ne, and_portToMask_ne_zero]
  exact ⟨fun h => h.2, fun h => ⟨h.1, h⟩⟩

end Ports

/-! ### Entries -/

section Entries

open Function Ports

variable {f f' : SnoopFilter} {pkt : SnoopPacket} {port : PortID} {list : List PortID}

/-- The entry of a line; a line without one has an entry without bits. -/
def item (f : SnoopFilter) (line : Addr) : SnoopItem :=
  (f.cachedLocations.lookup line).getD ⟨0, 0⟩

lemma item_eq_of_lookup {line : Addr} {i : SnoopItem}
    (h : f.cachedLocations.lookup line = some i) : f.item line = i := by
  rw [item, h, Option.getD_some]

lemma item_eq_zero {line : Addr} (h : f.cachedLocations.lookup line = none) :
    f.item line = ⟨0, 0⟩ := by
  rw [item, h, Option.getD_none]

lemma lookup_setItem (f : SnoopFilter) (line l : Addr) (i : SnoopItem) :
    (f.setItem line i).cachedLocations.lookup l =
      if l = line then some i else f.cachedLocations.lookup l := by
  split_ifs with hl
  · rw [hl]
    exact AList.lookup_insert _
  · exact AList.lookup_insert_ne hl

lemma lookup_eraseIfNullEntry (f : SnoopFilter) (line l : Addr) :
    (f.eraseIfNullEntry line).cachedLocations.lookup l =
      if l = line then
        (f.cachedLocations.lookup line).filter fun i => i.requested ||| i.holder != 0
      else f.cachedLocations.lookup l := by
  cases hline : f.cachedLocations.lookup line with
  | none =>
    rw [eraseIfNullEntry, hline]
    split_ifs with hl
    · rw [hl, hline]
      rfl
    · rfl
  | some i =>
    simp only [eraseIfNullEntry, hline]
    split_ifs with hnull hl hl
    · rw [hl, AList.lookup_erase, Option.filter_some, if_neg (by simpa using hnull)]
    · exact AList.lookup_erase_ne hl
    · rw [hl, hline, Option.filter_some, if_pos (by simpa using hnull)]
    · rfl

lemma item_setItem (f : SnoopFilter) (line : Addr) (i : SnoopItem) :
    (f.setItem line i).item = update f.item line i := by
  ext l
  rw [item, lookup_setItem, update_apply]
  split_ifs <;> rfl

lemma item_eraseIfNullEntry (f : SnoopFilter) (line : Addr) :
    (f.eraseIfNullEntry line).item = f.item := by
  ext l
  rw [item, item, lookup_eraseIfNullEntry]
  split_ifs with hl
  · rw [hl]
    rcases f.cachedLocations.lookup line with _ | ⟨requested, holder⟩
    · rfl
    · rw [Option.filter_some]
      split_ifs with hbits
      · rfl
      · -- an entry that is erased has no bits
        obtain ⟨hreq, hhold⟩ := BitVec.or_eq_zero_iff.1 (by simpa using hbits)
        exact congrArg₂ SnoopItem.mk hreq.symm hhold.symm
  · rfl

/-- An entry has been written, and erased if it has no bits. -/
def Written (f f' : SnoopFilter) (line : Addr) (i : SnoopItem) : Prop :=
  f' = (f.setItem line i).eraseIfNullEntry line ∨
    f' = f.setItem line i ∧ i.requested ||| i.holder ≠ 0

lemma Written.item_eq {line : Addr} {i : SnoopItem} (h : Written f f' line i) :
    f'.item = update f.item line i := by
  obtain rfl | ⟨rfl, -⟩ := h
  · rw [item_eraseIfNullEntry, item_setItem]
  · exact item_setItem _ _ _

/-! ### The operations -/

/-- What `lookupRequest` does: there is no entry and none is made, or the entry is saved and
updated. -/
lemma lookupRequest_eq_ok (h : f.lookupRequest pkt port = .ok (f', list)) :
    list = f.ports.maskToPortList (((f.item (f.lineAddr pkt)).holder |||
        (f.item (f.lineAddr pkt)).requested) &&& ~~~f.ports.portToMask port) ∧
      ((f' = { f with it := none } ∧ f.item (f.lineAddr pkt) = ⟨0, 0⟩ ∧
          f.allocates pkt port = false) ∨
        ∃ i, (if f.allocates pkt port then
            requestItem pkt (f.ports.portToMask port) (f.item (f.lineAddr pkt))
          else .ok (f.item (f.lineAddr pkt))) = .ok i ∧
          f' = { f with
            it := some (f.lineAddr pkt)
            retryItem := f.item (f.lineAddr pkt) }.setItem (f.lineAddr pkt) i) := by
  unfold lookupRequest at h
  simp only at h
  split_ifs at h with hnone halloc
  · cases h
    have hitem := item_eq_zero hnone.1
    refine ⟨?_, .inl ⟨rfl, hitem, hnone.2⟩⟩
    simp [hitem, maskToPortList]
  all_goals
    obtain ⟨i, hi, heq⟩ := bind_pure_eq_ok.1 h
    cases heq
    refine ⟨rfl, .inr ⟨i, ?_, rfl⟩⟩
    simp only [halloc]
    exact hi

lemma finishRequest_eq_ok {willRetry isSecure : Bool} {addr : Addr}
    (h : f.finishRequest willRetry addr isSecure = .ok f') :
    (f.it = none ∧ f' = f) ∨ ∃ line, f.it = some line ∧
      f' = (if willRetry then f.setItem line f.retryItem else f).eraseIfNullEntry line := by
  rw [finishRequest] at h
  split at h
  · cases h
    exact .inl ⟨‹_›, rfl⟩
  · simp only [bind_eq_ok, pure_eq_ok] at h
    obtain ⟨-, -, -, -, rfl⟩ := h
    exact .inr ⟨_, ‹_›, rfl⟩

lemma lookupSnoop_eq_ok (h : f.lookupSnoop pkt = .ok (f', list)) :
    list = f.ports.maskToPortList ((f.item (f.lineAddr pkt)).holder |||
        (f.item (f.lineAddr pkt)).requested) ∧
      (f' = f ∨ pkt.isInvalidate ∧ Written f f' (f.lineAddr pkt)
        { f.item (f.lineAddr pkt) with holder := 0 }) := by
  simp only [lookupSnoop, bind_eq_ok] at h
  obtain ⟨-, -, h⟩ := h
  split at h
  · obtain ⟨-, -, heq⟩ := bind_pure_eq_ok.1 h
    cases heq
    refine ⟨?_, .inl rfl⟩
    simp [item_eq_zero ‹_›, maskToPortList]
  · obtain ⟨-, -, heq⟩ := bind_pure_eq_ok.1 h
    cases heq
    rw [item_eq_of_lookup ‹_›]
    refine ⟨rfl, ?_⟩
    split_ifs with hinv
    · exact .inr ⟨(Bool.and_eq_true_iff.1 hinv).1, .inl rfl⟩
    · exact .inl rfl

lemma not_skipped (h : ¬ (pkt.isUncacheable || !f.ports.isSnooping port)) :
    port ∈ f.ports.slavePorts ∧ pkt.isUncacheable = false := by
  simpa [isSnooping, and_comm] using h

lemma updateSnoopResponse_eq_ok {rspPort reqPort : PortID}
    (h : f.updateSnoopResponse pkt rspPort reqPort = .ok f') :
    (f' = f ∧ (pkt.isUncacheable ∨ reqPort ∉ f.ports.slavePorts)) ∨
      (reqPort ∈ f.ports.slavePorts ∧ pkt.isUncacheable = false) ∧
        Written f f' (f.lineAddr pkt)
          ⟨(f.item (f.lineAddr pkt)).requested &&& ~~~f.ports.portToMask reqPort,
            (if !pkt.hasSharers then 0 else (f.item (f.lineAddr pkt)).holder) |||
              f.ports.portToMask reqPort⟩ := by
  simp only [updateSnoopResponse, bind_eq_ok] at h
  obtain ⟨-, -, -, -, h⟩ := h
  split at h
  · rename_i hskip
    cases h
    exact .inl ⟨rfl, by simpa [isSnooping] using hskip⟩
  · simp only [bind_eq_ok, pure_eq_ok, require_eq_ok, bne_iff_ne] at h
    obtain ⟨-, -, -, -, -, -, -, hbits, rfl⟩ := h
    exact .inr ⟨not_skipped ‹_›, .inr ⟨rfl, hbits⟩⟩

lemma updateSnoopForward_eq_ok (h : f.updateSnoopForward pkt = .ok f') :
    f' = f ∨ pkt.hasSharers = false ∧ Written f f' (f.lineAddr pkt)
      { f.item (f.lineAddr pkt) with holder := 0 } := by
  simp only [updateSnoopForward, bind_eq_ok] at h
  obtain ⟨-, -, -, -, h⟩ := h
  split at h
  · cases h
    exact .inl rfl
  · split_ifs at h with hsharers
    · cases h
      rw [item_eq_of_lookup ‹_›]
      exact .inr ⟨by simpa using hsharers, .inl rfl⟩
    · cases h
      exact .inl rfl

/-- The holders after a response to a port. -/
def responseHolder (pkt : SnoopPacket) (slaveMask holder : SnoopMask) : SnoopMask :=
  if pkt.isCacheMaintenance then
    if pkt.isInvalidate then holder &&& ~~~slaveMask else holder
  else holder ||| slaveMask

/-- What `updateResponse` does: the response is not recorded, or it answers the request of the
port. -/
lemma updateResponse_eq_ok (h : f.updateResponse pkt port = .ok f') :
    (f' = f ∧ (pkt.isUncacheable ∨ port ∉ f.ports.slavePorts ∨
        f.item (f.lineAddr pkt) = ⟨0, 0⟩)) ∨
      (port ∈ f.ports.slavePorts ∧ pkt.isUncacheable = false) ∧
        Written f f' (f.lineAddr pkt)
          ⟨(f.item (f.lineAddr pkt)).requested &&& ~~~f.ports.portToMask port,
            responseHolder pkt (f.ports.portToMask port) (f.item (f.lineAddr pkt)).holder⟩ := by
  simp only [updateResponse, bind_eq_ok] at h
  obtain ⟨-, -, h⟩ := h
  split_ifs at h with hskip
  · cases h
    refine .inl ⟨rfl, Or.imp_right .inl ?_⟩
    simpa [isSnooping] using hskip
  split at h
  · cases h
    exact .inl ⟨rfl, .inr (.inr (item_eq_zero ‹_›))⟩
  · refine .inr ⟨not_skipped hskip, ?_⟩
    simp only [respond, bind_eq_ok] at h
    obtain ⟨-, -, h⟩ := h
    rw [item_eq_of_lookup ‹_›, responseHolder]
    split at h <;> rename_i hmaint
    · cases h
      rw [if_pos hmaint]
      exact .inl rfl
    · simp only [bind_eq_ok, pure_eq_ok, require_eq_ok, bne_iff_ne] at h
      obtain ⟨-, hbits, rfl⟩ := h
      rw [if_neg hmaint]
      exact .inr ⟨rfl, by rwa [BitVec.or_comm]⟩

end Entries

/-- Two snooping ports, as they come from the three ports of a crossbar. -/
def twoPorts : Ports := ⟨[0, 1], by decide, by decide⟩

example : Ports.setSlavePorts [(0, true), (1, true), (2, false)] (by decide) = .ok twoPorts := rfl

/-- A packet for the line at `0x40`. -/
def linePacket (cmd : MemCmd) : SnoopPacket :=
  ⟨⟨cmd⟩, 0x40, false, false, false, false, false, false⟩

end ChipletGem5.SnoopFilter
