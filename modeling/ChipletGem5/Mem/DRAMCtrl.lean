import ChipletGem5.Base.AddrRangeIntlv
import ChipletGem5.Base.IntMath
import ChipletGem5.Lib.Buckets

/-!
# The queues of the DRAM controller

`DRAMCtrl` (mem/dram_ctrl.cc, over qos/mem_ctrl.cc) splits a request into bursts, none of which
crosses a burst boundary.  A burst that is written is merged with one of the same burst address
in the write queue; a burst that is read is taken from the write queue if an entry there has all
of its bytes, and otherwise put into the read queue.  The burst helper counts the bursts of a
request that are done, and the request is answered after the last one.

Which of the queued bursts goes next depends on the timing of the DRAM and on the policies for the
quality of service, so the model lets the choice come from outside.  Of these policies it has the
priorities that they set and the moves of queued bursts to other priorities.  A request is known by
its number among the accepted ones.
-/

namespace ChipletGem5

open Function

namespace DRAM

/-! ### Requests and their bursts -/

/-- The parameters of a controller.  The constructor checks the burst size. -/
structure Config where
  burstSize : ℕ
  readBufferSize : ℕ
  writeBufferSize : ℕ
  numPriorities : ℕ
  range : AddrRange
  burstSize_pow : isPowerOf2 burstSize
  burstSize_lt : burstSize < 2 ^ 32

/-- The fields of a packet the controller reads. -/
structure Pkt where
  addr : Addr
  size : ℕ
  masterId : ℕ
  isRead : Bool
  isWrite : Bool
  size_lt : size < 2 ^ 32

namespace Config

variable (cfg : Config)

def getCtrlAddr (a : Addr) : ℕ := (cfg.range.getOffset a).toNat

def burstAlign (addr : ℕ) : ℕ := addr &&& (2 ^ 64 - cfg.burstSize)

/-- `dram_pkt_count`, in 32 bits. -/
def pktCount (pkt : Pkt) : ℕ :=
  let offset := pkt.addr.toNat &&& (cfg.burstSize - 1)
  ((offset + pkt.size) % 2 ^ 32 + cfg.burstSize - 1) % 2 ^ 32 / cfg.burstSize

/-- The start of the next burst. -/
def nextBurst (addr : ℕ) : ℕ := ((addr ||| (cfg.burstSize - 1)) + 1) % 2 ^ 64

/-- The size of the burst at an address of a request that ends at `stop`. -/
def burstBytes (addr stop : ℕ) : ℕ :=
  (min (cfg.nextBurst addr) stop + 2 ^ 64 - addr) % 2 ^ 64 % 2 ^ 32

/-- The bursts that the loops go through, by address and size. -/
def burstsFrom : ℕ → ℕ → ℕ → List (ℕ × ℕ)
  | 0, _, _ => []
  | cnt + 1, addr, stop =>
      (addr, cfg.burstBytes addr stop) :: burstsFrom cnt (cfg.nextBurst addr) stop

/-- The bursts of a request. -/
def bursts (pkt : Pkt) : List (ℕ × ℕ) :=
  let base := cfg.getCtrlAddr pkt.addr
  cfg.burstsFrom (cfg.pktCount pkt) base ((base + pkt.size) % 2 ^ 64)

end Config

/-! ### The controller -/

/-- The direction of the data bus. -/
inductive BusState where
  | READ
  | WRITE
deriving DecidableEq

/-- A burst of a request, which is given by its number. -/
structure Burst where
  pkt : ℕ
  masterId : ℕ
  addr : ℕ
  size : ℕ
  burstHelper : Option ℕ
deriving DecidableEq

structure DRAMPacket extends Burst where
  qosValue : ℕ
deriving DecidableEq

/-- How much of a split read is served. -/
structure BurstHelper where
  burstCount : ℕ
  burstsServiced : ℕ

/-- `DRAMCtrl`.  `queue` has `readQueue` and `writeQueue`, by priorities; in the same way for the
sizes.  Of `requestTimes` it has the number of the times. -/
structure DRAMCtrl where
  queue : BusState → ℕ → List DRAMPacket
  respQueue : List DRAMPacket
  isInWriteQueue : Finset ℕ
  helpers : ℕ → Option BurstHelper
  nextHelper : ℕ
  queueSizes : BusState → ℕ → ℕ
  totalQueueSize : BusState → ℕ
  packetPriorities : ℕ → ℕ → ℕ
  requestTimes : ℕ → ℕ → ℕ
  /-- The number of accepted requests. -/
  requests : ℕ
  /-- The requests that have been accessed and answered, by `accessAndRespond`. -/
  responses : List ℕ

namespace DRAMCtrl

variable (cfg : Config) (s : DRAMCtrl)

def init : DRAMCtrl where
  queue := fun _ _ => []
  respQueue := []
  isInWriteQueue := ∅
  helpers := fun _ => none
  nextHelper := 0
  queueSizes := fun _ _ => 0
  totalQueueSize := fun _ => 0
  packetPriorities := fun _ _ => 0
  requestTimes := fun _ _ => 0
  requests := 0
  responses := []

/-- Set a counter with two indices. -/
def add₂ {α : Type} [DecidableEq α] (f : α → ℕ → ℕ) (i : α) (j : ℕ) (x : ℕ) : α → ℕ → ℕ :=
  update f i (update (f i) j x)

def setQueue (dir : BusState) (p : ℕ) (l : List DRAMPacket) : DRAMCtrl :=
  { s with queue := update s.queue dir (update (s.queue dir) p l) }

/-- `logRequest`, for one entry. -/
def logRequest (dir : BusState) (m qos addr : ℕ) : DRAMCtrl :=
  { s with
    queueSizes := add₂ s.queueSizes dir qos (s.queueSizes dir qos + 1)
    totalQueueSize := update s.totalQueueSize dir (s.totalQueueSize dir + 1)
    packetPriorities := add₂ s.packetPriorities m qos (s.packetPriorities m qos + 1)
    requestTimes := add₂ s.requestTimes m addr (s.requestTimes m addr + 1) }

/-- The counters with one entry less. -/
def uncount (dir : BusState) (m qos addr : ℕ) : DRAMCtrl :=
  { s with
    queueSizes := add₂ s.queueSizes dir qos (s.queueSizes dir qos - 1)
    totalQueueSize := update s.totalQueueSize dir (s.totalQueueSize dir - 1)
    packetPriorities := add₂ s.packetPriorities m qos (s.packetPriorities m qos - 1)
    requestTimes := add₂ s.requestTimes m addr (s.requestTimes m addr - 1) }

/-- `logResponse`, for one entry. -/
def logResponse (dir : BusState) (m qos addr : ℕ) : Result DRAMCtrl := do
  require (s.packetPriorities m qos != 0)
    (.panic "QoSMemCtrl::logResponse master %s negative packets for priority %d")
  require (s.requestTimes m addr != 0)
    (.panic "QoSMemCtrl::logResponse master %s unmatched response for address %d received")
  return s.uncount dir m qos addr

def accessAndRespond (pkt : ℕ) : DRAMCtrl := { s with responses := s.responses ++ [pkt] }

/-! ### Priorities -/

/-- The message of `escalateQueues` for a size that would become negative. -/
def negativePackets : BusState → String
  | .READ => "QoSMemCtrl::escalate master %s negative READ packets for priority %d"
  | .WRITE => "QoSMemCtrl::escalate master %s negative WRITE packets for priority %d"

/-- `escalateQueues` moves an entry; `rest` are the others of its queue. -/
def move (dir : BusState) (curr tgt : ℕ) (e : DRAMPacket) (rest : List DRAMPacket) :
    Result DRAMCtrl := do
  let m := e.masterId
  let moved := (e.size + cfg.burstSize - 1) / cfg.burstSize
  require (moved ≤ s.queueSizes dir curr) (.panic (negativePackets dir))
  let sizes := add₂ s.queueSizes dir curr (s.queueSizes dir curr - moved)
  let s := { s with queueSizes := add₂ sizes dir tgt (sizes dir tgt + moved) }
  let s := s.setQueue dir tgt (s.queue dir tgt ++ [{ e with qosValue := tgt }])
  let s := s.setQueue dir curr rest
  require (moved ≤ s.packetPriorities m curr)
    (.panic "QoSMemCtrl::escalate master %s negative packets for priority %d")
  let prios := add₂ s.packetPriorities m curr (s.packetPriorities m curr - moved)
  return { s with packetPriorities := add₂ prios m tgt (prios m tgt + moved) }

/-- The loop of `escalateQueues`, from an entry of the queue on. -/
def escalateFrom (m curr tgt : ℕ) (dir : BusState) :
    List DRAMPacket → List DRAMPacket → DRAMCtrl → Result DRAMCtrl
  | _, [], s => .ok s
  | kept, e :: rest, s =>
      if s.packetPriorities m curr = 0 then .ok s
      else if e.masterId = m then do
        let s ← s.move cfg dir curr tgt e (kept ++ rest)
        escalateFrom m curr tgt dir kept rest s
      else escalateFrom m curr tgt dir (kept ++ [e]) rest s

def escalateQueues (m curr tgt : ℕ) (dir : BusState) : Result DRAMCtrl :=
  escalateFrom cfg m curr tgt dir [] (s.queue dir curr) s

/-- The loop of `escalate` for one priority, with at most `fuel` rounds. -/
def escalateWhile (m curr tgt : ℕ) : ℕ → DRAMCtrl → Result DRAMCtrl
  | fuel, s =>
      if s.packetPriorities m curr = 0 then .ok s
      else
        match fuel with
        | 0 => .error (.undefined "while (packetPriorities[m_id][curr_prio] > 0)")
        | fuel + 1 => do
            let s ← s.escalateQueues cfg m curr tgt .READ
            let s ← s.escalateQueues cfg m curr tgt .WRITE
            escalateWhile m curr tgt fuel s

/-- One priority in `escalate`. -/
def escalateOne (m tgt : ℕ) (s : DRAMCtrl) (curr : ℕ) : Result DRAMCtrl :=
  if curr = tgt then .ok s
  else escalateWhile cfg m curr tgt (s.packetPriorities m curr) s

/-- `escalate`: all entries of a master get a priority. -/
def escalate (m tgt : ℕ) : Result DRAMCtrl :=
  (List.range cfg.numPriorities).foldlM (escalateOne cfg m tgt) s

/-- `qosSchedule`, where the policy has chosen a priority for the request, and priorities for
entries of some masters. -/
def qosSchedule (prio : ℕ) (escalations : List (ℕ × ℕ)) : Result DRAMCtrl := do
  require (prio < cfg.numPriorities) (.assertion "pkt_priority < numPriorities()")
  escalations.foldlM (fun s x => s.escalate cfg x.1 x.2) s

/-! ### Reads -/

def readQueueFull (neededEntries : ℕ) : Bool :=
  s.totalQueueSize .READ + s.respQueue.length + neededEntries > cfg.readBufferSize

def writeQueueFull (neededEntries : ℕ) : Bool :=
  s.totalQueueSize .WRITE + neededEntries > cfg.writeBufferSize

/-- Does an entry have all the bytes of a burst? -/
def subsumes (addr size : ℕ) (e : DRAMPacket) : Bool :=
  e.addr ≤ addr && addr + size ≤ e.addr + e.size

/-- The number of priorities whose write queue has a burst: the `break` leaves only the inner
loop. -/
def servicedByWrQ (addr size : ℕ) : ℕ :=
  if cfg.burstAlign addr ∈ s.isInWriteQueue then
    (List.range cfg.numPriorities).countP fun p => (s.queue .WRITE p).any (subsumes addr size)
  else 0

/-- The variables of the loop in `addToReadQueue`. -/
structure ReadLoop where
  ctrl : DRAMCtrl
  pktsServicedByWrQ : ℕ
  burstHelper : Option ℕ

/-- Make the burst helper of a request that is split. -/
def withHelper (count : ℕ) (helper : Option ℕ) : DRAMCtrl × Option ℕ :=
  if 1 < count ∧ helper = none then
    ({ s with
        helpers := update s.helpers s.nextHelper (some ⟨count, 0⟩)
        nextHelper := s.nextHelper + 1 }, some s.nextHelper)
  else (s, helper)

variable (pkt : Pkt)

/-- One round of the loop in `addToReadQueue`. -/
def readBurst (prio : ℕ) (l : ReadLoop) (burst : ℕ × ℕ) : Result ReadLoop := do
  let found := l.ctrl.servicedByWrQ cfg burst.1 burst.2
  if found ≠ 0 then return { l with pktsServicedByWrQ := l.pktsServicedByWrQ + found }
  let (s, helper) := l.ctrl.withHelper (cfg.pktCount pkt) l.burstHelper
  require (!s.readQueueFull cfg 1) (.assertion "!readQueueFull(1)")
  let e : DRAMPacket := ⟨⟨s.requests, pkt.masterId, burst.1, burst.2, helper⟩, prio⟩
  let s := s.setQueue .READ prio (s.queue .READ prio ++ [e])
  return ⟨s.logRequest .READ pkt.masterId prio burst.1, l.pktsServicedByWrQ, helper⟩

/-- What `addToReadQueue` does after the loop. -/
def finishRead (count : ℕ) (l : ReadLoop) : DRAMCtrl :=
  let s := { l.ctrl with requests := l.ctrl.requests + 1 }
  if l.pktsServicedByWrQ = count then s.accessAndRespond l.ctrl.requests
  else
    match l.burstHelper with
    | some h =>
        { s with
          helpers := update s.helpers h
            ((s.helpers h).map fun b => { b with burstsServiced := l.pktsServicedByWrQ }) }
    | none => s

def addToReadQueue (prio : ℕ) : Result DRAMCtrl := do
  require (!pkt.isWrite) (.assertion "!pkt->isWrite()")
  require (cfg.pktCount pkt != 0) (.assertion "pktCount != 0")
  let l ← (cfg.bursts pkt).foldlM (readBurst cfg pkt prio) ⟨s, 0, none⟩
  return finishRead (cfg.pktCount pkt) l

/-! ### Writes -/

/-- One round of the loop in `addToWriteQueue`. -/
def writeBurst (prio : ℕ) (s : DRAMCtrl) (burst : ℕ × ℕ) : Result DRAMCtrl := do
  if cfg.burstAlign burst.1 ∈ s.isInWriteQueue then return s
  require (s.totalQueueSize .WRITE < cfg.writeBufferSize)
    (.assertion "totalWriteQueueSize < writeBufferSize")
  let e : DRAMPacket := ⟨⟨s.requests, pkt.masterId, burst.1, burst.2, none⟩, prio⟩
  let s := s.setQueue .WRITE prio (s.queue .WRITE prio ++ [e])
  let s := { s with isInWriteQueue := insert (cfg.burstAlign burst.1) s.isInWriteQueue }
  let s := s.logRequest .WRITE pkt.masterId prio burst.1
  require (s.totalQueueSize .WRITE = s.isInWriteQueue.card)
    (.assertion "totalWriteQueueSize == isInWriteQueue.size()")
  return s

def addToWriteQueue (prio : ℕ) : Result DRAMCtrl := do
  require pkt.isWrite (.assertion "pkt->isWrite()")
  let s ← (cfg.bursts pkt).foldlM (writeBurst cfg pkt prio) s
  return { s with requests := s.requests + 1 }.accessAndRespond s.requests

/-- `recvTimingReq`: is the request accepted? -/
def recvTimingReq (prio : ℕ) (escalations : List (ℕ × ℕ)) : Result (Bool × DRAMCtrl) := do
  require (pkt.isRead || pkt.isWrite)
    (.panic "Should only see read and writes at memory controller\n")
  let s ← s.qosSchedule cfg prio escalations
  require (pkt.size != 0) (.assertion "size != 0")
  if pkt.isWrite then
    if s.writeQueueFull cfg (cfg.pktCount pkt) then return (false, s)
    let s ← s.addToWriteQueue cfg pkt prio
    return (true, s)
  else
    if s.readQueueFull cfg (cfg.pktCount pkt) then return (false, s)
    let s ← s.addToReadQueue cfg pkt prio
    return (true, s)

/-! ### Service -/

/-- `processNextReqEvent`, when the entry `i` of a read queue has been chosen. -/
def nextRead (prio i : ℕ) : Result DRAMCtrl := do
  let e ← getOrError (s.queue .READ prio)[i]? (.undefined "*to_read")
  require (e.size ≤ cfg.burstSize) (.assertion "dram_pkt->size <= burstSize")
  let s ← s.logResponse .READ e.masterId e.qosValue e.addr
  require (e.qosValue = prio) (.undefined "readQueue[dram_pkt->qosValue()].erase(to_read)")
  return { s.setQueue .READ prio ((s.queue .READ prio).eraseIdx i) with
    respQueue := s.respQueue ++ [e] }

/-- `processNextReqEvent`, when the entry `i` of a write queue has been chosen. -/
def nextWrite (prio i : ℕ) : Result DRAMCtrl := do
  let e ← getOrError (s.queue .WRITE prio)[i]? (.undefined "*to_write")
  require (e.size ≤ cfg.burstSize) (.assertion "dram_pkt->size <= burstSize")
  let s := { s with isInWriteQueue := s.isInWriteQueue.erase (cfg.burstAlign e.addr) }
  let s ← s.logResponse .WRITE e.masterId e.qosValue e.addr
  require (e.qosValue = prio) (.undefined "writeQueue[dram_pkt->qosValue()].erase(to_write)")
  return s.setQueue .WRITE prio ((s.queue .WRITE prio).eraseIdx i)

/-- `processRespondEvent`: the first burst of the response queue is done. -/
def processRespondEvent : Result DRAMCtrl :=
  match s.respQueue with
  | [] => .error (.undefined "respQueue.front()")
  | e :: rest => do
      let s := { s with respQueue := rest }
      match e.burstHelper with
      | none => return s.accessAndRespond e.pkt
      | some h =>
          let b ← getOrError (s.helpers h) (.undefined "dram_pkt->burstHelper->burstsServiced")
          if b.burstsServiced + 1 = b.burstCount then
            return { s with helpers := update s.helpers h none }.accessAndRespond e.pkt
          else
            return { s with
              helpers := update s.helpers h
                (some { b with burstsServiced := b.burstsServiced + 1 }) }

end DRAMCtrl

inductive Op where
  | recvTimingReq (pkt : Pkt) (prio : ℕ) (escalations : List (ℕ × ℕ))
  | nextRead (prio i : ℕ)
  | nextWrite (prio i : ℕ)
  | respond

def DRAMCtrl.step (cfg : Config) (s : DRAMCtrl) : Op → Result DRAMCtrl
  | .recvTimingReq pkt prio escalations => do
      let (_, s) ← s.recvTimingReq cfg pkt prio escalations
      return s
  | .nextRead prio i => s.nextRead cfg prio i
  | .nextWrite prio i => s.nextWrite cfg prio i
  | .respond => s.processRespondEvent

end DRAM

end ChipletGem5
