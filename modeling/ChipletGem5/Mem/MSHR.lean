import ChipletGem5.Base.Flags
import ChipletGem5.Mem.PacketQueue

/-!
# Miss status holding registers

An `MSHR` of `mem/cache/mshr.cc` stands for the outstanding miss of one block.  It keeps its targets
in two lists: those that the request under way will serve, and those that are deferred until after
its response.  Snoops that arrive while the request is under way are put between the targets.

While an MSHR holds a target whose packet came from an MSHR above, that one is marked
`downstreamPending`; of the MSHRs above the model has these marks.  What `std::list::front` returns
for an empty list, or `std::fill` does outside of a vector, is not defined, and such a call does not
return here.
-/

namespace ChipletGem5.MSHR

abbrev Counter := BitVec 64

/-- The number of an MSHR in a cache above. -/
abbrev UpstreamId := ℕ

/-- The flags `downstreamPending` of the MSHRs above. -/
abbrev Upstream := UpstreamId → Bool

/-! ### Requests and packets -/

/-- What an MSHR reads of a request. -/
structure Request where
  flags : BitVec 64
  paddr : Option Addr
deriving DecidableEq, Repr

namespace Request

def uncacheable : BitVec 64 := 0x400

def strictOrder : BitVec 64 := 0x800

def privileged : BitVec 64 := 0x8000

def llsc : BitVec 64 := 0x200000

def memSwap : BitVec 64 := 0x400000

def memSwapCond : BitVec 64 := 0x800000

def secure : BitVec 64 := 0x10000000

def invalidate : BitVec 64 := 0x100000000

def clean : BitVec 64 := 0x200000000

/-- The flags of the writes that are not merged, `no_merge_flags` in `updateWriteFlags`. -/
def noMergeFlags : BitVec 64 :=
  uncacheable ||| strictOrder ||| privileged ||| llsc ||| memSwap ||| memSwapCond ||| secure

def isUncacheable (req : Request) : Bool := Flags.isSet req.flags uncacheable

def isSecure (req : Request) : Bool := Flags.isSet req.flags secure

def isCacheInvalidate (req : Request) : Bool := Flags.isSet req.flags invalidate

def isCacheMaintenance (req : Request) : Bool := Flags.isSet req.flags (clean ||| invalidate)

end Request

/-- What an MSHR reads of a packet, which is known by its address `ptr` in memory. -/
structure Packet extends CmdPacket where
  ptr : ℕ
  req : Request
  addr : Addr
  size : ℕ
  isSecure : Bool
  /-- The flag `STATIC_DATA`. -/
  staticData : Bool
  /-- The flag `DYNAMIC_DATA`. -/
  dynamicData : Bool
  isExpressSnoop : Bool
  cacheResponding : Bool
  responderHadWritable : Bool
  satisfied : Bool
  hasSharers : Bool
  /-- The first MSHR of the sender state, `findNextSenderState<MSHR>()`. -/
  senderState : Option UpstreamId
deriving DecidableEq, Repr

namespace Packet

variable (pkt : Packet)

def hasRespData : Bool := pkt.cmd.responseCommand.testCmdAttrib .hasData

def needsWritable : Result Bool := do
  require pkt.isRequest (.assertion "isRequest()")
  return pkt.cmd.testCmdAttrib .needsWritable

def getOffset (blkSize : ℕ) : ℕ :=
  (pkt.addr &&& BitVec.ofNat 64 (blkSize - 1)).toNat

def getBlockAddr (blkSize : ℕ) : Addr :=
  pkt.addr &&& ~~~BitVec.ofNat 64 (blkSize - 1)

def matchBlockAddr (pkt pkt' : Packet) (blkSize : ℕ) : Bool :=
  pkt.getBlockAddr blkSize == pkt'.getBlockAddr blkSize && pkt.isSecure == pkt'.isSecure

def allocate : Result Packet :=
  if pkt.hasData || pkt.hasRespData then do
    require (!pkt.staticData && !pkt.dynamicData)
      (.assertion "flags.noneSet(STATIC_DATA|DYNAMIC_DATA)")
    return { pkt with dynamicData := true }
  else return pkt

def setCacheResponding : Result Packet := do
  require pkt.isRequest (.assertion "isRequest()")
  require (!pkt.cacheResponding) (.assertion "!flags.isSet(CACHE_RESPONDING)")
  return { pkt with cacheResponding := true }

def setResponderHadWritable : Result Packet := do
  require pkt.cacheResponding (.assertion "cacheResponding()")
  require (!pkt.responderHadWritable) (.assertion "!responderHadWritable()")
  return { pkt with responderHadWritable := true }

def setSatisfied : Result Packet := do
  require pkt.isClean (.assertion "cmd.isClean()")
  require (!pkt.satisfied) (.assertion "!flags.isSet(SATISFIED)")
  return { pkt with satisfied := true }

/-- The constructor `Packet(pkt, true, true)`: a copy without the flags and with data of its
own, at a new address. -/
def copy (ptr : ℕ) : Packet where
  ptr := ptr
  cmd := pkt.cmd
  req := pkt.req
  addr := pkt.addr
  size := pkt.size
  isSecure := pkt.isSecure
  staticData := pkt.staticData
  dynamicData := !pkt.staticData && (pkt.hasData || pkt.hasRespData)
  isExpressSnoop := false
  cacheResponding := false
  responderHadWritable := false
  satisfied := false
  hasSharers := false
  senderState := pkt.senderState

/-- The constructor `Packet(req, cmd, blkSize, id)` for the request and the command of a
packet, at a new address. -/
def ofRequest (blkSize ptr : ℕ) : Packet where
  ptr := ptr
  cmd := pkt.cmd
  req := pkt.req
  addr := (pkt.req.paddr.map (· &&& ~~~BitVec.ofNat 64 (blkSize - 1))).getD 0
  size := blkSize
  isSecure := pkt.req.paddr.isSome && pkt.req.isSecure
  staticData := false
  dynamicData := false
  isExpressSnoop := false
  cacheResponding := false
  responderHadWritable := false
  satisfied := false
  hasSharers := false
  senderState := none

end Packet

/-- The command that `replaceUpgrade` puts in the place of an upgrade. -/
def replacement : MemCmd → MemCmd
  | .upgradeReq => .readExReq
  | .scUpgradeReq => .scUpgradeFailReq
  | .storeCondReq => .storeCondFailReq
  | cmd => cmd

def replaceUpgrade (pkt : Packet) : Result Packet :=
  let pkt' := { pkt with cmd := replacement pkt.cmd }
  if !(pkt.hasData || pkt.hasRespData) then do
    require (!pkt'.hasData) (.assertion "!pkt->hasData()")
    if pkt'.hasRespData then pkt'.allocate else return pkt'
  else return pkt'

/-! ### Lists of targets -/

inductive Source where
  | fromCPU
  | fromSnoop
  | fromPrefetcher
deriving DecidableEq, Repr

/-- A packet that waits for the miss. -/
structure Target where
  recvTime : Tick
  readyTime : Tick
  order : Counter
  pkt : Packet
  source : Source
  markedPending : Bool
  allocOnFill : Bool
deriving DecidableEq, Repr

/-- The targets and the flags they imply. -/
structure TargetList where
  targets : List Target
  needsWritable : Bool
  hasUpgrade : Bool
  allocOnFill : Bool
  hasFromCache : Bool
  blkAddr : Addr
  blkSize : ℕ
  canMergeWrites : Bool
  writesBitmap : List Bool
deriving DecidableEq, Repr

/-- The search for an MSHR above that `TargetList::add` makes if it is to mark one as pending.
It returns whether there is one to be cleared later. -/
def markUpstream (up : Upstream) (pkt : Packet) (markPending : Bool) : Result (Bool × Upstream) :=
  if markPending then
    match pkt.senderState with
    | some mshr => do
        require (!up mshr) (.assertion "!mshr->downstreamPending")
        return (true, Function.update up mshr true)
    | none => return (false, up)
  else return (false, up)

/-- The call of `clearDownstreamPending` for the MSHR that a packet came from.  What that one
then clears further up is part of its own state. -/
def clearUpstream (up : Upstream) (pkt : Packet) : Result Upstream :=
  match pkt.senderState with
  | some mshr => do
      require (up mshr) (.assertion "downstreamPending")
      return Function.update up mshr false
  | none => return up

/-- `TargetList::clearDownstreamPending` for a part of a list. -/
def clearMarks (up : Upstream) : List Target → Result (List Target × Upstream)
  | [] => return ([], up)
  | t :: l => do
      let up' ← (if t.markedPending then clearUpstream up t.pkt else pure up)
      let r ← clearMarks up' l
      return ({ t with markedPending := false } :: r.1, r.2)

namespace TargetList

variable (l : TargetList)

def isWholeLineWrite : Bool := l.writesBitmap.all id

def resetFlags : TargetList :=
  { l with
    canMergeWrites := true
    writesBitmap := List.replicate l.writesBitmap.length false
    needsWritable := false
    hasUpgrade := false
    allocOnFill := false
    hasFromCache := false }

def init (blkAddr : Addr) (blkSize : ℕ) : TargetList :=
  ({ l with blkAddr, blkSize, writesBitmap := List.replicate blkSize false } :
    TargetList).resetFlags

def empty : TargetList := ⟨[], false, false, false, false, 0, 0, true, []⟩

def isReset : Bool :=
  !l.needsWritable && !l.hasUpgrade && !l.allocOnFill && !l.hasFromCache && l.canMergeWrites

/-- The call of `std::fill` that marks the bytes of a write. -/
def fillBitmap (offset size : ℕ) : Result TargetList := do
  require (decide (offset + size ≤ l.writesBitmap.length)) (.undefined "std::fill")
  return { l with
    writesBitmap := l.writesBitmap.take offset ++ List.replicate size true ++
      l.writesBitmap.drop (offset + size) }

def updateWriteFlags (pkt : Packet) : Result TargetList :=
  if l.isWholeLineWrite then return l
  else if l.canMergeWrites then
    if !pkt.isWrite then return { l with canMergeWrites := false }
    else do
      let compatWrite := !Flags.isSet pkt.req.flags Request.noMergeFlags
      let l' ← (if l.targets.isEmpty || compatWrite then
          l.fillBitmap (pkt.getOffset l.blkSize) pkt.size
        else pure l)
      return { l' with canMergeWrites := l'.canMergeWrites && compatWrite }
  else return l

def updateFlags (pkt : Packet) (source : Source) (allocOnFill : Bool) : Result TargetList :=
  if source ≠ .fromSnoop then do
    let writable ← pkt.needsWritable
    let l' := { l with
      needsWritable := l.needsWritable || writable
      hasUpgrade := l.hasUpgrade || (pkt.isUpgrade || pkt.cmd == .storeCondReq)
      allocOnFill := l.allocOnFill || allocOnFill }
    if source ≠ .fromPrefetcher then
      updateWriteFlags { l' with hasFromCache := l.hasFromCache || pkt.fromCache } pkt
    else return l'
  else return l

/-- The loop of `populateFlags`. -/
def updateAllFlags (l : TargetList) : List Target → Result TargetList
  | [] => return l
  | t :: ts => do
      let l' ← l.updateFlags t.pkt t.source t.allocOnFill
      l'.updateAllFlags ts

def populateFlags : Result TargetList :=
  l.resetFlags.updateAllFlags l.targets

def add (up : Upstream) (curTick : Tick) (pkt : Packet) (readyTime : Tick)
    (order : Counter) (source : Source) (markPending allocOnFill : Bool) :
    Result (TargetList × Upstream) := do
  let l' ← l.updateFlags pkt source allocOnFill
  let marked ← markUpstream up pkt markPending
  return ({ l' with
      targets := l'.targets ++
        [⟨curTick, readyTime, order, pkt, source, marked.1, allocOnFill⟩] }, marked.2)

/-- The loop of `replaceUpgrades`. -/
def replaceAll : List Target → Result (List Target)
  | [] => return []
  | t :: l => do
      let pkt ← replaceUpgrade t.pkt
      let l' ← replaceAll l
      return { t with pkt } :: l'

def replaceUpgrades : Result TargetList :=
  if !l.hasUpgrade then return l
  else do
    let targets ← replaceAll l.targets
    return { l with targets, hasUpgrade := false }

def clearDownstreamPending (up : Upstream) : Result (TargetList × Upstream) := do
  let r ← clearMarks up l.targets
  return ({ l with targets := r.1 }, r.2)

def front (l : TargetList) : Result Target :=
  getOrError l.targets.head? (.undefined "targets.front()")

end TargetList

end MSHR

/-! ### Registers -/

/-- A miss status holding register. -/
structure MSHR where
  blkAddr : Addr
  blkSize : ℕ
  isSecure : Bool
  readyTime : Tick
  order : MSHR.Counter
  isUncacheable : Bool
  inService : Bool
  downstreamPending : Bool
  pendingModified : Bool
  postInvalidate : Bool
  postDowngrade : Bool
  wasWholeLineWrite : Bool
  isForward : Bool
  targets : MSHR.TargetList
  deferredTargets : MSHR.TargetList
deriving DecidableEq, Repr

namespace MSHR

def init : MSHR where
  blkAddr := 0
  blkSize := 0
  isSecure := false
  readyTime := 0
  order := 0
  isUncacheable := false
  inService := false
  downstreamPending := false
  pendingModified := false
  postInvalidate := false
  postDowngrade := false
  wasWholeLineWrite := false
  isForward := false
  targets := .empty
  deferredTargets := .empty

variable (m : MSHR)

def getNumTargets : ℕ := m.targets.targets.length + m.deferredTargets.targets.length

def isPendingModified : Result Bool := do
  require m.inService (.assertion "inService")
  return m.pendingModified

def hasPostInvalidate : Result Bool := do
  require m.inService (.assertion "inService")
  return m.postInvalidate

def hasPostDowngrade : Result Bool := do
  require m.inService (.assertion "inService")
  return m.postDowngrade

def allocate (up : Upstream) (curTick : Tick) (blkAddr : Addr) (blkSize : ℕ)
    (target : Packet) (whenReady : Tick) (order : Counter) (allocOnFill : Bool) :
    Result (MSHR × Upstream) := do
  let source := if target.cmd = .hardPFReq then Source.fromPrefetcher else .fromCPU
  let r ← (m.targets.init blkAddr blkSize).add up curTick target whenReady order source true
    allocOnFill
  let tgt ← r.1.front
  require (target.matchBlockAddr tgt.pkt blkSize)
    (.assertion "target->matchBlockAddr(targets.front().pkt, blkSize)")
  return ({ m with
      blkAddr, blkSize, order
      isSecure := target.isSecure
      readyTime := whenReady
      isForward := false
      wasWholeLineWrite := false
      isUncacheable := target.req.isUncacheable
      inService := false
      downstreamPending := false
      targets := r.1
      deferredTargets := m.deferredTargets.init blkAddr blkSize }, r.2)

def clearDownstreamPending (up : Upstream) : Result (MSHR × Upstream) := do
  require m.downstreamPending (.assertion "downstreamPending")
  let r ← m.targets.clearDownstreamPending up
  return ({ m with downstreamPending := false, targets := r.1 }, r.2)

def markInService (up : Upstream) (pendingModifiedResp : Bool) : Result (MSHR × Upstream) := do
  require (!m.inService) (.assertion "!inService")
  let r ← (if !m.downstreamPending then m.targets.clearDownstreamPending up
    else pure (m.targets, up))
  return ({ m with
      inService := true
      pendingModified := m.targets.needsWritable || pendingModifiedResp
      postInvalidate := false
      postDowngrade := false
      targets := r.1
      wasWholeLineWrite := r.1.isWholeLineWrite }, r.2)

def deallocate : Result MSHR := do
  require m.targets.targets.isEmpty (.assertion "targets.empty()")
  require m.deferredTargets.isReset (.assertion "deferredTargets.isReset()")
  return { m with targets := m.targets.resetFlags, inService := false }

/-- Does `allocateTarget` put a packet on the deferred list? -/
def defers (pkt tgtPkt : Packet) : Result Bool :=
  if pkt.req.isCacheMaintenance || tgtPkt.req.isCacheMaintenance ||
      !m.deferredTargets.targets.isEmpty then return true
  else if m.inService then do
    let postInvalidate ← m.hasPostInvalidate
    if postInvalidate then return true
    else do
      let writable ← pkt.needsWritable
      return writable && (!m.pendingModified || m.postDowngrade || m.isForward)
  else return false

def allocateTarget (up : Upstream) (curTick : Tick) (pkt : Packet) (whenReady : Tick)
    (order : Counter) (allocOnFill : Bool) : Result (MSHR × Upstream) := do
  require (pkt.cmd != .hardPFReq) (.assertion "pkt->cmd != MemCmd::HardPFReq")
  let tgt ← m.targets.front
  let deferred ← m.defers pkt tgt.pkt
  if deferred then do
    let pkt' ← (if m.inService && m.postInvalidate then replaceUpgrade pkt else pure pkt)
    let r ← m.deferredTargets.add up curTick pkt' whenReady order .fromCPU true allocOnFill
    return ({ m with deferredTargets := r.1 }, r.2)
  else do
    let r ← m.targets.add up curTick pkt whenReady order .fromCPU (!m.inService) allocOnFill
    return ({ m with targets := r.1 }, r.2)

/-- The marks that `handleSnoop` leaves on a snoop that it saves. -/
def markSnoop (pkt : Packet) (pendingModified willRespond : Bool) : Result Packet :=
  if willRespond then do
    let pkt' ← pkt.setCacheResponding
    pkt'.setResponderHadWritable
  else if pendingModified && pkt.isClean then pkt.setSatisfied
  else return pkt

/-- The part of `handleSnoop` that saves a copy of the snoop among the targets. -/
def saveSnoop (up : Upstream) (curTick : Tick) (pkt : Packet) (order : Counter)
    (cpPtr : ℕ) (willRespond : Bool) : Result (MSHR × Upstream × Packet) := do
  let cpPkt := if willRespond then pkt.copy cpPtr else pkt.ofRequest m.blkSize cpPtr
  let pkt' ← markSnoop pkt m.pendingModified willRespond
  let r ← m.targets.add up curTick cpPkt curTick order .fromSnoop
    (m.downstreamPending && m.targets.needsWritable) false
  let writable ← pkt'.needsWritable
  return ({ m with
      targets := r.1
      postInvalidate := m.postInvalidate || writable || pkt'.isInvalidate }, r.2, pkt')

/-- The part of `handleSnoop` for a snoop that comes after the request under way.  Returns the
snoop with the marks that it gets, and whether the cache will respond to it. -/
def snoopInService (up : Upstream) (curTick : Tick) (pkt : Packet) (order : Counter)
    (cpPtr : ℕ) : Result (MSHR × Upstream × Packet × Bool) := do
  let tgt ← m.targets.front
  let postInvalidate ← m.hasPostInvalidate
  if postInvalidate || tgt.pkt.req.isCacheInvalidate then return (m, up, pkt, true)
  else do
    let pendingModified ← m.isPendingModified
    let willRespond := pendingModified && pkt.needsResponse && !pkt.isClean
    let r ← (if pendingModified || pkt.isInvalidate then
        m.saveSnoop up curTick pkt order cpPtr willRespond
      else pure (m, up, pkt))
    let writable ← r.2.2.needsWritable
    if !writable && !r.2.2.req.isUncacheable then
      return ({ r.1 with postDowngrade := true }, r.2.1, { r.2.2 with hasSharers := true },
        willRespond)
    else return (r.1, r.2.1, r.2.2, willRespond)

/-- `MSHR::handleSnoop`; a copy of the packet would be at `cpPtr`. -/
def handleSnoop (up : Upstream) (curTick : Tick) (pkt : Packet) (order : Counter)
    (cpPtr : ℕ) : Result (MSHR × Upstream × Packet × Bool) := do
  let writable ← pkt.needsWritable
  require (writable == pkt.isInvalidate || pkt.req.isCacheMaintenance)
    (.panic "%s got snoop %s where needsWritable, does not match isInvalidate")
  let invalidating := writable || pkt.req.isCacheInvalidate
  if !m.inService || (pkt.isExpressSnoop && m.downstreamPending) then do
    -- the snoop comes before the request of this MSHR, and leaves it alone but for upgrades
    let targets ← (if invalidating then m.targets.replaceUpgrades else pure m.targets)
    let deferredTargets ← (if invalidating then m.deferredTargets.replaceUpgrades
      else pure m.deferredTargets)
    return ({ m with targets, deferredTargets }, up, pkt, false)
  else do
    let deferredTargets ← (if invalidating then m.deferredTargets.replaceUpgrades
      else pure m.deferredTargets)
    ({ m with deferredTargets } : MSHR).snoopInService up curTick pkt order cpPtr

/-- The loop of `extractServiceableTargets` for a response that invalidates the block: the
targets to be served, and those that stay. -/
def extractSnoops : List Target → Result (List Target × List Target)
  | [] => return ([], [])
  | t :: l =>
      if t.source = .fromCPU then do
        let r ← extractSnoops l
        return (r.1, t :: r.2)
      else do
        require (t.source == .fromSnoop) (.assertion "it->source == Target::FromSnoop")
        let r ← extractSnoops l
        return (t :: r.1, r.2)

/-- `MSHR::extractServiceableTargets` for a response with a command.  Returns the targets to be
served. -/
def extractServiceableTargets (cmd : MemCmd) : Result (MSHR × TargetList) :=
  let readyTargets := TargetList.empty.init m.blkAddr m.blkSize
  if cmd = .readRespWithInvalidate then do
    let t ← m.targets.front
    require (t.source == .fromCPU || t.source == .fromPrefetcher)
      (.assertion "(it->source == Target::FromCPU) || (it->source == Target::FromPrefetcher)")
    let r ← extractSnoops m.targets.targets.tail
    let ready ← ({ readyTargets with targets := t :: r.1 } : TargetList).populateFlags
    let targets ← ({ m.targets with targets := r.2 } : TargetList).populateFlags
    return ({ m with targets }, ready)
  else do
    let targets ← readyTargets.populateFlags
    return ({ m with targets }, m.targets)

/-- The targets that `promoteDeferredTargets` moves, and those that it leaves deferred. -/
def promoted : List Target × List Target :=
  let deferred := m.deferredTargets.targets
  let before := deferred.takeWhile fun t => !t.pkt.req.isCacheMaintenance
  if before.isEmpty then
    if m.targets.targets.isEmpty then (deferred.take 1, deferred.drop 1) else ([], deferred)
  else (before, deferred.drop before.length)

def promoteDeferredTargets (curTick : Tick) : Result (MSHR × Bool) :=
  if m.targets.targets.isEmpty && m.deferredTargets.targets.isEmpty then return (m, false)
  else do
    let deferredTargets ←
      ({ m.deferredTargets with targets := m.promoted.2 } : TargetList).populateFlags
    let targets ←
      ({ m.targets with targets := m.targets.targets ++ m.promoted.1 } : TargetList).populateFlags
    let tgt ← targets.front
    return ({ m with
        targets, deferredTargets
        order := tgt.order
        readyTime := if curTick < tgt.readyTime then tgt.readyTime else curTick }, true)

/-- `std::find_if_not` over the deferred targets: those before the target that it finds, and
those from there on. -/
def findIfNot (pred : Target → Result Bool) :
    List Target → Result (List Target × List Target)
  | [] => return ([], [])
  | t :: l => do
      let holds ← pred t
      if holds then do
        let r ← findIfNot pred l
        return (t :: r.1, r.2)
      else return ([], t :: l)

def promoteIf (up : Upstream) (pred : Target → Result Bool) : Result (MSHR × Upstream) := do
  require (!m.downstreamPending) (.assertion "!downstreamPending")
  let r ← findIfNot pred m.deferredTargets.targets
  let cleared ← clearMarks up r.1
  let deferredTargets ← ({ m.deferredTargets with targets := r.2 } : TargetList).populateFlags
  return ({ m with
      targets := { m.targets with targets := m.targets.targets ++ cleared.1 }
      deferredTargets }, cleared.2)

def promoteReadable (up : Upstream) : Result (MSHR × Upstream) :=
  if m.deferredTargets.targets.isEmpty then return (m, up)
  else do
    let postInvalidate ← m.hasPostInvalidate
    if postInvalidate then return (m, up)
    else m.promoteIf up fun t => do
      require (t.source == .fromCPU) (.assertion "t.source == Target::FromCPU")
      if t.pkt.req.isCacheInvalidate then return false
      else do
        let writable ← t.pkt.needsWritable
        return !writable

/-- `MSHR::promoteWritable`.  The first deferred target is looked at only if some deferred
target needs a writable copy. -/
def promoteWritable (up : Upstream) : Result (MSHR × Upstream) :=
  if !m.deferredTargets.needsWritable then return (m, up)
  else do
    let postInvalidate ← m.hasPostInvalidate
    let postDowngrade ← m.hasPostDowngrade
    let tgt ← m.deferredTargets.front
    if postInvalidate || postDowngrade || tgt.pkt.req.isCacheInvalidate then return (m, up)
    else do
      require (!m.targets.needsWritable) (.assertion "!targets.needsWritable")
      ({ m with targets := { m.targets with needsWritable := true } } : MSHR).promoteIf up fun t =>
        do
          require (t.source == .fromCPU) (.assertion "t.source == Target::FromCPU")
          return !t.pkt.req.isCacheInvalidate

def delay (curTick delayTicks : Tick) : Result MSHR := do
  require (decide (m.readyTime ≤ curTick)) (.assertion "readyTime <= curTick()")
  return { m with readyTime := curTick + delayTicks }

end MSHR

end ChipletGem5
