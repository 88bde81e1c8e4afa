import ChipletGem5.Lib.Result
import ChipletGem5.Base.AddrRange

/-!
# Packets

The commands, requests and packets of the memory system, from `mem/packet.hh`, `mem/packet.cc`
and `mem/request.hh`.  A request and a packet have the fields that the modelled components read:
fields that a flag of the source marks as valid are options.  A packet has an address and a size,
and its data, if there is any, has as many bytes as its size says.
-/

namespace ChipletGem5

/-! ### Commands -/

/-- `MemCmd::Command`.  The two deprecated values have a row in the table of the attributes, and
no name in the source. -/
inductive MemCmd where
  | invalidCmd | readReq | readResp | readRespWithInvalidate | writeReq | writeResp
  | writebackDirty | writebackClean | writeClean | cleanEvict | softPFReq | softPFExReq
  | hardPFReq | softPFResp | hardPFResp | writeLineReq | upgradeReq | scUpgradeReq | upgradeResp
  | scUpgradeFailReq | upgradeFailResp | readExReq | readExResp | readCleanReq | readSharedReq
  | loadLockedReq | storeCondReq | storeCondFailReq | storeCondResp | swapReq | swapResp
  | deprecatedMessageReq | deprecatedMessageResp | memFenceReq | memFenceResp | cleanSharedReq
  | cleanSharedResp | cleanInvalidReq | cleanInvalidResp | invalidDestError | badAddressError
  | functionalReadError | functionalWriteError | printReq | flushReq | invalidateReq
  | invalidateResp
deriving DecidableEq, Repr

namespace MemCmd

inductive Attribute where
  | isRead | isWrite | isUpgrade | isInvalidate | isClean | needsWritable | isRequest | isResponse
  | needsResponse | isEviction | isSWPrefetch | isHWPrefetch | isLlsc | hasData | isError
  | isPrint | isFlush | fromCache
deriving DecidableEq, Repr

open Attribute in
/-- The attributes and the response of a command, from the table `MemCmd::commandInfo`. -/
def commandInfo : MemCmd → List Attribute × MemCmd
  | invalidCmd => ([], invalidCmd)
  | readReq => ([isRead, isRequest, needsResponse], readResp)
  | readResp => ([isRead, isResponse, hasData], invalidCmd)
  | readRespWithInvalidate => ([isRead, isResponse, hasData, isInvalidate], invalidCmd)
  | writeReq => ([isWrite, needsWritable, isRequest, needsResponse, hasData], writeResp)
  | writeResp => ([isWrite, isResponse], invalidCmd)
  | writebackDirty => ([isWrite, isRequest, isEviction, hasData, fromCache], invalidCmd)
  | writebackClean => ([isWrite, isRequest, isEviction, hasData, fromCache], invalidCmd)
  | writeClean => ([isWrite, isRequest, hasData, fromCache], invalidCmd)
  | cleanEvict => ([isRequest, isEviction, fromCache], invalidCmd)
  | softPFReq => ([isRead, isRequest, isSWPrefetch, needsResponse], softPFResp)
  | softPFExReq =>
      ([isRead, needsWritable, isInvalidate, isRequest, isSWPrefetch, needsResponse], softPFResp)
  | hardPFReq => ([isRead, isRequest, isHWPrefetch, needsResponse, fromCache], hardPFResp)
  | softPFResp => ([isRead, isResponse, isSWPrefetch, hasData], invalidCmd)
  | hardPFResp => ([isRead, isResponse, isHWPrefetch, hasData], invalidCmd)
  | writeLineReq => ([isWrite, needsWritable, isRequest, needsResponse, hasData], writeResp)
  | upgradeReq =>
      ([isInvalidate, needsWritable, isUpgrade, isRequest, needsResponse, fromCache], upgradeResp)
  | scUpgradeReq =>
      ([isInvalidate, needsWritable, isUpgrade, isLlsc, isRequest, needsResponse, fromCache],
        upgradeResp)
  | upgradeResp => ([isUpgrade, isResponse], invalidCmd)
  | scUpgradeFailReq =>
      ([isRead, needsWritable, isInvalidate, isLlsc, isRequest, needsResponse, fromCache],
        upgradeFailResp)
  | upgradeFailResp => ([isRead, isResponse, hasData], invalidCmd)
  | readExReq =>
      ([isRead, needsWritable, isInvalidate, isRequest, needsResponse, fromCache], readExResp)
  | readExResp => ([isRead, isResponse, hasData], invalidCmd)
  | readCleanReq => ([isRead, isRequest, needsResponse, fromCache], readResp)
  | readSharedReq => ([isRead, isRequest, needsResponse, fromCache], readResp)
  | loadLockedReq => ([isRead, isLlsc, isRequest, needsResponse], readResp)
  | storeCondReq =>
      ([isWrite, needsWritable, isLlsc, isRequest, needsResponse, hasData], storeCondResp)
  | storeCondFailReq =>
      ([isWrite, needsWritable, isLlsc, isRequest, needsResponse, hasData], storeCondResp)
  | storeCondResp => ([isWrite, isLlsc, isResponse], invalidCmd)
  | swapReq => ([isRead, isWrite, needsWritable, isRequest, hasData, needsResponse], swapResp)
  | swapResp => ([isRead, isWrite, isResponse, hasData], invalidCmd)
  | deprecatedMessageReq => ([], invalidCmd)
  | deprecatedMessageResp => ([], invalidCmd)
  | memFenceReq => ([isRequest, needsResponse], memFenceResp)
  | memFenceResp => ([isResponse], invalidCmd)
  | cleanSharedReq => ([isRequest, isClean, needsResponse, fromCache], cleanSharedResp)
  | cleanSharedResp => ([isResponse, isClean], invalidCmd)
  | cleanInvalidReq =>
      ([isRequest, isInvalidate, isClean, needsResponse, fromCache], cleanInvalidResp)
  | cleanInvalidResp => ([isResponse, isInvalidate, isClean], invalidCmd)
  | invalidDestError => ([isResponse, isError], invalidCmd)
  | badAddressError => ([isResponse, isError], invalidCmd)
  | functionalReadError => ([isRead, isResponse, isError], invalidCmd)
  | functionalWriteError => ([isWrite, isResponse, isError], invalidCmd)
  | printReq => ([isRequest, isPrint], invalidCmd)
  | flushReq => ([isRequest, isFlush, needsWritable], invalidCmd)
  | invalidateReq =>
      ([isInvalidate, isRequest, needsWritable, needsResponse, fromCache], invalidateResp)
  | invalidateResp => ([isInvalidate, isResponse], invalidCmd)

def testCmdAttrib (cmd : MemCmd) (attrib : Attribute) : Bool :=
  cmd.commandInfo.1.contains attrib

def responseCommand (cmd : MemCmd) : MemCmd := cmd.commandInfo.2

end MemCmd

/-! ### Requests -/

abbrev ContextID := ℤ

def InvalidContextID : ContextID := -1

/-- An atomic operation on the `width` bytes at an address: `AtomicOpFunctor`. -/
structure AtomicOpFunctor where
  width : ℕ
  execute : List UInt8 → List UInt8
  length_execute : ∀ l, l.length = width → (execute l).length = width

/-- The fields of a request that are read here. -/
structure Request where
  /-- The physical address. -/
  paddr : Option Addr
  contextId : Option ContextID
  extraData : Option (BitVec 64)
  /-- Which bytes to write, if not all of them. -/
  byteEnable : List Bool
  /-- The flag `MEM_SWAP_COND`. -/
  isCondSwap : Bool
  /-- The flag `INST_FETCH`. -/
  isInstFetch : Bool
  /-- One of the flags `ATOMIC_RETURN_OP` and `ATOMIC_NO_RETURN_OP`. -/
  isAtomic : Bool
  atomicOpFunctor : Option AtomicOpFunctor

namespace Request

variable (req : Request)

def getPaddr : Result Addr :=
  getOrError req.paddr (.assertion "privateFlags.isSet(VALID_PADDR)")

def getContextId : Result ContextID :=
  getOrError req.contextId (.assertion "privateFlags.isSet(VALID_CONTEXT_ID)")

def getExtraData : Result (BitVec 64) :=
  getOrError req.extraData (.assertion "privateFlags.isSet(VALID_EXTRA_DATA)")

def getAtomicOpFunctor : Result AtomicOpFunctor :=
  getOrError req.atomicOpFunctor (.assertion "atomicOpFunctor")

def setExtraData (extraData : BitVec 64) : Request :=
  { req with extraData := some extraData }

def isMasked : Bool := req.byteEnable.contains false

end Request

/-! ### Packets -/

/-- What every packet has: a command, whose attributes are those of the packet. -/
structure CmdPacket where
  cmd : MemCmd
deriving DecidableEq, Repr

namespace CmdPacket

variable (pkt : CmdPacket)

def isRead : Bool := pkt.cmd.testCmdAttrib .isRead

def isWrite : Bool := pkt.cmd.testCmdAttrib .isWrite

def isUpgrade : Bool := pkt.cmd.testCmdAttrib .isUpgrade

def isRequest : Bool := pkt.cmd.testCmdAttrib .isRequest

def isResponse : Bool := pkt.cmd.testCmdAttrib .isResponse

def needsWritable : Bool := pkt.cmd.testCmdAttrib .needsWritable

def needsResponse : Bool := pkt.cmd.testCmdAttrib .needsResponse

def isInvalidate : Bool := pkt.cmd.testCmdAttrib .isInvalidate

def isEviction : Bool := pkt.cmd.testCmdAttrib .isEviction

def isClean : Bool := pkt.cmd.testCmdAttrib .isClean

def fromCache : Bool := pkt.cmd.testCmdAttrib .fromCache

def isLLSC : Bool := pkt.cmd.testCmdAttrib .isLlsc

def hasData : Bool := pkt.cmd.testCmdAttrib .hasData

def isWriteback : Bool := pkt.isEviction && pkt.hasData

end CmdPacket

/-- A packet; its data has the size it states. -/
structure Packet extends CmdPacket where
  addr : Addr
  size : ℕ
  data : Option (List UInt8)
  length_data : ∀ d ∈ data, d.length = size
  /-- The flag `CACHE_RESPONDING`. -/
  cacheResponding : Bool
  req : Request

namespace Packet

variable (pkt : Packet)

def isMaskedWrite : Bool := pkt.cmd == .writeReq && pkt.req.isMasked

def getAddrRange : AddrRange := RangeSize pkt.addr (BitVec.ofNat 64 pkt.size)

/-- `Request::setExtraData` for the request of a packet. -/
def setExtraData (extraData : BitVec 64) : Packet :=
  { pkt with req := pkt.req.setExtraData extraData }

def getConstPtr : Result (List UInt8) :=
  getOrError pkt.data (.assertion "flags.isSet(STATIC_DATA|DYNAMIC_DATA)")

/-- `Packet::setData`: copy bytes into the packet. -/
def setData (p : List UInt8) (hp : p.length = pkt.size) : Result Packet := do
  let _ ← pkt.getConstPtr
  require (!pkt.isMaskedWrite) (.assertion "!isMaskedWrite()")
  return { pkt with data := some p, length_data := by simpa using hp }

/-- `Packet::writeData`: the bytes to copy out of the packet, `none` for those to be left
untouched. -/
def writeData : Result (List (Option UInt8)) := do
  let base ← pkt.getConstPtr
  if !pkt.isMaskedWrite then return base.map some
  else
    require (pkt.req.byteEnable.length = pkt.size)
      (.assertion "req->getByteEnable().size() == getSize()")
    return List.zipWith (fun enable b => if enable then some b else none) pkt.req.byteEnable base

def makeResponse : Result Packet := do
  require pkt.needsResponse (.assertion "needsResponse()")
  require pkt.isRequest (.assertion "isRequest()")
  return { pkt with cmd := pkt.cmd.responseCommand }

/-! ### Lemmas -/

lemma req_of_makeResponse {pkt pkt' : Packet} (h : pkt.makeResponse = .ok pkt') :
    pkt'.req = pkt.req := by
  obtain ⟨-, -, h⟩ := bind_eq_ok.1 h
  obtain ⟨-, -, rfl⟩ := bind_pure_eq_ok.1 h
  rfl

end Packet

end ChipletGem5
