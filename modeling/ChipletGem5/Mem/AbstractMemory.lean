import ChipletGem5.Lib.ByteMemory
import ChipletGem5.Mem.Packet

/-!
# The abstract memory

`AbstractMemory::access` of `mem/abstract_mem.cc`, with the list of locked addresses that the
load-locked and store-conditional instructions rely on.  The bytes of the memory are addressed
by physical addresses, which differ from host addresses by a constant.  Calls of
`globalClearExclusive` are recorded in the state.  Statistics and tracing are left out.
-/

namespace ChipletGem5

/-! ### Locked addresses -/

/-- A record of a load-locked operation. -/
structure LockedAddr where
  addr : Addr
  contextId : ContextID
deriving DecidableEq, Repr

namespace LockedAddr

/-- `LockedAddr::mask`: the address of the granule of 16 bytes. -/
def mask (paddr : Addr) : Addr := paddr &&& ~~~(0xf : Addr)

def matchesContext (l : LockedAddr) (req : Request) : Result Bool := do
  require (l.contextId ≠ InvalidContextID) (.assertion "contextId != InvalidContextID")
  require req.contextId.isSome (.assertion "req->hasContextId()")
  return l.contextId == (← req.getContextId)

end LockedAddr

/-- A memory with its load-linked monitors. -/
structure AbstractMemory where
  range : AddrRange
  /-- The bytes, if the memory has any. -/
  pmem : Option (ByteMemory 64)
  lockedAddrList : List LockedAddr
  /-- The contexts passed to `globalClearExclusive`, the latest first. -/
  cleared : List ContextID

namespace AbstractMemory

/-- The loop of `AbstractMemory::trackLoadLocked`; `none` if there is no record for the context
of the request. -/
def updateLocked (paddr : Addr) (req : Request) :
    List LockedAddr → Result (Option (List LockedAddr))
  | [] => .ok none
  | i :: l => do
      if ← i.matchesContext req then return some ({ i with addr := paddr } :: l)
      else return (← updateLocked paddr req l).map (i :: ·)

variable (m : AbstractMemory)

def trackLoadLocked (pkt : Packet) : Result AbstractMemory := do
  let paddr := LockedAddr.mask (← pkt.req.getPaddr)
  match ← updateLocked paddr pkt.req m.lockedAddrList with
  | some l => return { m with lockedAddrList := l }
  | none =>
      return { m with lockedAddrList := ⟨paddr, ← pkt.req.getContextId⟩ :: m.lockedAddrList }

/-- The first loop of `AbstractMemory::checkLockedAddrList`: whether the context of the request
has a record with the address. -/
def findLocked (paddr : Addr) (req : Request) : List LockedAddr → Result Bool
  | [] => .ok false
  | i :: l =>
      if i.addr = paddr then do
        if ← i.matchesContext req then return true else findLocked paddr req l
      else findLocked paddr req l

/-- The second loop of `AbstractMemory::checkLockedAddrList`: erase the records with the address,
and collect their owners other than the requester. -/
def eraseLocked (paddr : Addr) (requester : ContextID) :
    List LockedAddr → List ContextID → Result (List LockedAddr × List ContextID)
  | [], cleared => .ok ([], cleared)
  | i :: l, cleared =>
      if i.addr = paddr then do
        require (i.contextId ≠ InvalidContextID) (.assertion "owner_cid != InvalidContextID")
        eraseLocked paddr requester l
          (if i.contextId ≠ requester then i.contextId :: cleared else cleared)
      else do
        let (l', cleared) ← eraseLocked paddr requester l cleared
        return (i :: l', cleared)

/-- Whether `AbstractMemory::checkLockedAddrList` allows a store. -/
def allowStore (pkt : Packet) (paddr : Addr) : Result Bool :=
  if pkt.isLLSC then findLocked paddr pkt.req m.lockedAddrList else .ok true

/-- `AbstractMemory::checkLockedAddrList`.  The result is whether to store, the memory, and the
packet, whose request has its extra data set. -/
def checkLockedAddrList (pkt : Packet) : Result (Bool × AbstractMemory × Packet) := do
  let paddr := LockedAddr.mask (← pkt.req.getPaddr)
  let allow ← m.allowStore pkt paddr
  let pkt' := if pkt.isLLSC then pkt.setExtraData (if allow then 1 else 0) else pkt
  if allow then
    let (l, cleared) ← eraseLocked paddr (pkt.req.contextId.getD InvalidContextID)
      m.lockedAddrList m.cleared
    return (true, { m with lockedAddrList := l, cleared }, pkt')
  else return (false, m, pkt')

def writeOK (pkt : Packet) : Result (Bool × AbstractMemory × Packet) :=
  if m.lockedAddrList.isEmpty then
    -- no locked addresses: a store-conditional fails
    .ok (!pkt.isLLSC, m, if pkt.isLLSC then pkt.setExtraData 0 else pkt)
  else m.checkLockedAddrList pkt

/-! ### Access -/

/-- The lowest bytes of a number, as the host stores it. -/
def hostBytes (n : ℕ) (v : BitVec 64) : List UInt8 :=
  (List.range n).map fun i => UInt8.ofBitVec ((v >>> (8 * i)).setWidth 8)

/-- Whether a swap that is not an atomic operation overwrites the memory. -/
def overwriteMem (mem : ByteMemory 64) (pkt : Packet) : Result Bool :=
  if pkt.req.isCondSwap then
    if pkt.size = 8 ∨ pkt.size = 4 then do
      return hostBytes pkt.size (← pkt.req.getExtraData) == mem.readBytes pkt.addr pkt.size
    else .error (.panic "Invalid size for conditional read/write\n")
  else .ok true

def atomicOp (mem : ByteMemory 64) (pkt : Packet) : Result (AbstractMemory × Packet) := do
  let pkt' ← pkt.setData (mem.readBytes pkt.addr pkt.size) (by simp)
  let op ← pkt.req.getAtomicOpFunctor
  let bytes := op.execute (mem.readBytes pkt.addr op.width)
  return ({ m with pmem := some (mem.writeBytes pkt.addr (bytes.map some)) }, pkt')

/-- A conditional or unconditional swap of the packet's data and the memory's. -/
def swapData (mem : ByteMemory 64) (pkt : Packet) : Result (AbstractMemory × Packet) := do
  let overwriteVal ← pkt.writeData
  let pkt' ← pkt.setData (mem.readBytes pkt.addr pkt.size) (by simp)
  let overwrite ← overwriteMem mem pkt
  require (!pkt.req.isInstFetch) (.assertion "!pkt->req->isInstFetch()")
  return (if overwrite then { m with pmem := some (mem.writeBytes pkt.addr overwriteVal) } else m,
    pkt')

/-- The branch of `AbstractMemory::access` for swaps. -/
def swap (pkt : Packet) : Result (AbstractMemory × Packet) :=
  match m.pmem with
  | none =>
      if pkt.req.isAtomic then .ok (m, pkt)
      else .error (.panic "Swap only works if there is real memory (i.e. null=False)")
  | some mem => if pkt.req.isAtomic then m.atomicOp mem pkt else m.swapData mem pkt

/-- Copy the bytes of the memory, if it has any, into a packet. -/
def fetch (pkt : Packet) : Result Packet :=
  match m.pmem with
  | none => .ok pkt
  | some mem => pkt.setData (mem.readBytes pkt.addr pkt.size) (by simp)

/-- The tracking of load-locked packets in `AbstractMemory::access`. -/
def track (pkt : Packet) : Result AbstractMemory :=
  if pkt.isLLSC then do
    require (!pkt.fromCache) (.assertion "!pkt->fromCache()")
    m.trackLoadLocked pkt
  else .ok m

/-- The branch of `AbstractMemory::access` for reads. -/
def read (pkt : Packet) : Result (AbstractMemory × Packet) := do
  require (!pkt.isWrite) (.assertion "!pkt->isWrite()")
  let m ← m.track pkt
  return (m, ← m.fetch pkt)

/-- The branch of `AbstractMemory::access` for cache maintenance. -/
def maintain (pkt : Packet) : Result (AbstractMemory × Packet) := do
  require (!pkt.isWrite) (.assertion "!pkt->isWrite()")
  return (m, pkt)

/-- Copy the bytes of a packet into the memory, if it has any bytes. -/
def store (pkt : Packet) : Result AbstractMemory :=
  match m.pmem with
  | none => .ok m
  | some mem => do return { m with pmem := some (mem.writeBytes pkt.addr (← pkt.writeData)) }

/-- The branch of `AbstractMemory::access` for writes. -/
def write (pkt : Packet) : Result (AbstractMemory × Packet) := do
  let (ok, m, pkt) ← m.writeOK pkt
  if ok then
    let m ← m.store pkt
    require (!pkt.req.isInstFetch) (.assertion "!pkt->req->isInstFetch()")
    return (m, pkt)
  else return (m, pkt)

/-- The branches of `AbstractMemory::access`. -/
def handle (pkt : Packet) : Result (AbstractMemory × Packet) :=
  if pkt.cmd = .swapReq then m.swap pkt
  else if pkt.isRead then m.read pkt
  else if pkt.isInvalidate || pkt.isClean then m.maintain pkt
  else if pkt.isWrite then m.write pkt
  else .error (.panic "Unexpected packet %s")

/-- The end of `AbstractMemory::access`. -/
def respond (pkt : Packet) : Result Packet :=
  if pkt.needsResponse then pkt.makeResponse else .ok pkt

/-- Whether `AbstractMemory::access` leaves a packet alone: a cache responds, or there is nothing
to be done. -/
def ignores (pkt : Packet) : Bool :=
  pkt.cacheResponding || pkt.cmd == .cleanEvict || pkt.cmd == .writebackClean

/-- Whether a packet lies in the range of a memory. -/
def inRange (pkt : Packet) : Bool :=
  match pkt.getAddrRange.isSubset m.range with
  | .ok b => b
  | .error _ => false

def access (pkt : Packet) : Result (AbstractMemory × Packet) :=
  if ignores pkt then .ok (m, pkt)
  else do
    require (m.inRange pkt) (.assertion "pkt->getAddrRange().isSubset(range)")
    let (m, pkt) ← m.handle pkt
    return (m, ← respond pkt)

end AbstractMemory

end ChipletGem5
