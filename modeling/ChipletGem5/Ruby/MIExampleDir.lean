import ChipletGem5.Ruby.MIExampleCache

/-!
# The directory and the DMA controllers of `MI_example`

`MI_example-dir.sm` and `MI_example-dma.sm`, for one line, in the form of the cache controller:
tables of transitions, and the meaning of their actions.  The queue of the memory is served by
`AbstractController.cc`, and the DMA requests for a line are made by `DMASequencer.cc`.
-/

namespace ChipletGem5.MIExample

open Lines

variable {C D : Type} {n : ℕ}

/-! ### The directory -/

/-- The states of a line at the directory. -/
inductive DirState where
  | I | M
  /-- Blocked on an invalidation for a DMA read. -/
  | M_DRD
  /-- Blocked on an invalidation for a DMA write. -/
  | M_DWR
  | M_DWRI | M_DRDI | IM | MI
  /-- Intermediate state for `DMA_READ` when in `I`. -/
  | ID
  /-- Intermediate state for `DMA_WRITE` when in `I`. -/
  | ID_W
deriving DecidableEq, Repr

inductive DirEvent where
  | GETX | GETS | PUTX | PUTX_NotOwner | DMA_READ | DMA_WRITE | Memory_Data | Memory_Ack
deriving DecidableEq, Repr

/-- `TBE`; its physical address is given by the offset in the line. -/
structure DirTBE (C D : Type) (n : ℕ) where
  state : DirState := .I
  dataBlk : Block n := 0
  offset : ℕ := 0
  len : ℕ := 0
  dmaRequestor : Option (MachineID C D) := none
deriving DecidableEq

/-- A line in the directory: the state and the owner of its entry, and its TBE.  The set of
owners is the list of its elements. -/
structure DirLine (C D : Type) (n : ℕ) where
  directoryState : DirState := .I
  owner : List (MachineID C D) := []
  tbe : Option (DirTBE C D n) := none
deriving DecidableEq

/-- `getState`. -/
def DirLine.state (l : DirLine C D n) : DirState :=
  match l.tbe with
  | some t => t.state
  | none => l.directoryState

def DirLine.setState (l : DirLine C D n) (st : DirState) : Result (DirLine C D n) := do
  require (st ≠ .M || l.owner.length == 1)
    (.assertion "getDirectoryEntry(addr).Owner.count() == 1")
  require (st ≠ .I || l.owner.length == 0)
    (.assertion "getDirectoryEntry(addr).Owner.count() == 0")
  return { l with directoryState := st, tbe := l.tbe.map fun t => { t with state := st } }

/-- The actions, without the letters that the source puts before their names, apart from the ones
of `dr_sendDMAData` and `drp_sendDMAData`. -/
inductive DirAction where
  | sendWriteBackAck | sendWriteBackNack | clearOwner | sendData | drSendDMAData | drpSendDMAData
  | sendDMAAck | ownerIsRequestor | forwardRequest | sendCacheInvalidate | popIncomingRequestQueue
  | popIncomingDMARequestQueue | allocateTBE | allocateTbeForDmaRead | allocateTBEFromRequestNet
  | deallocateTBE | recycleRequestQueue | recycleDMARequestQueue | queueMemoryFetchRequest
  | queueMemoryFetchRequestDMA | queueMemoryWBRequestPartial | queueMemoryWBRequestPartialTBE
  | queueMemoryWBRequest | popMemQueue
deriving DecidableEq, Repr

/-- The transitions of `MI_example-dir.sm`. -/
def dirTransition : DirState → DirEvent → Option (Transition DirState DirAction)
  | .M_DRD, .GETX => some (.run [.recycleRequestQueue] .M_DRD)
  | .M_DWR, .GETX => some (.run [.recycleRequestQueue] .M_DWR)
  | .M_DWRI, .GETX => some (.run [.recycleRequestQueue] .M_DWRI)
  | .M_DRDI, .GETX => some (.run [.recycleRequestQueue] .M_DRDI)
  | .IM, .GETX | .IM, .GETS | .IM, .PUTX | .IM, .PUTX_NotOwner =>
      some (.run [.recycleRequestQueue] .IM)
  | .MI, .GETX | .MI, .GETS | .MI, .PUTX | .MI, .PUTX_NotOwner =>
      some (.run [.recycleRequestQueue] .MI)
  | .ID, .GETX | .ID, .GETS | .ID, .PUTX | .ID, .PUTX_NotOwner =>
      some (.run [.recycleRequestQueue] .ID)
  | .ID_W, .GETX | .ID_W, .GETS | .ID_W, .PUTX | .ID_W, .PUTX_NotOwner =>
      some (.run [.recycleRequestQueue] .ID_W)
  | .IM, .DMA_READ | .IM, .DMA_WRITE => some (.run [.recycleDMARequestQueue] .IM)
  | .MI, .DMA_READ | .MI, .DMA_WRITE => some (.run [.recycleDMARequestQueue] .MI)
  | .ID, .DMA_READ | .ID, .DMA_WRITE => some (.run [.recycleDMARequestQueue] .ID)
  | .ID_W, .DMA_READ | .ID_W, .DMA_WRITE => some (.run [.recycleDMARequestQueue] .ID_W)
  | .I, .GETX =>
      some (.run [.allocateTBEFromRequestNet, .queueMemoryFetchRequest, .ownerIsRequestor,
        .popIncomingRequestQueue] .IM)
  | .IM, .Memory_Data => some (.run [.sendData, .deallocateTBE, .popMemQueue] .M)
  | .I, .DMA_READ =>
      some (.run [.allocateTbeForDmaRead, .queueMemoryFetchRequestDMA,
        .popIncomingDMARequestQueue] .ID)
  | .ID, .Memory_Data => some (.run [.drSendDMAData, .deallocateTBE, .popMemQueue] .I)
  | .I, .DMA_WRITE =>
      some (.run [.allocateTBE, .queueMemoryWBRequestPartial, .popIncomingDMARequestQueue] .ID_W)
  | .ID_W, .Memory_Ack => some (.run [.sendDMAAck, .deallocateTBE, .popMemQueue] .I)
  | .M, .DMA_READ =>
      some (.run [.allocateTBE, .sendCacheInvalidate, .popIncomingDMARequestQueue] .M_DRD)
  | .M_DRD, .PUTX =>
      some (.run [.drpSendDMAData, .clearOwner, .queueMemoryWBRequest,
        .popIncomingRequestQueue] .M_DRDI)
  | .M_DRDI, .Memory_Ack => some (.run [.sendWriteBackAck, .deallocateTBE, .popMemQueue] .I)
  | .M, .DMA_WRITE =>
      some (.run [.allocateTBE, .sendCacheInvalidate, .popIncomingDMARequestQueue] .M_DWR)
  | .M_DWR, .PUTX =>
      some (.run [.queueMemoryWBRequestPartialTBE, .clearOwner, .popIncomingRequestQueue] .M_DWRI)
  | .M_DWRI, .Memory_Ack =>
      some (.run [.sendWriteBackAck, .sendDMAAck, .deallocateTBE, .popMemQueue] .I)
  | .M, .GETX =>
      some (.run [.forwardRequest, .ownerIsRequestor, .popIncomingRequestQueue] .M)
  | .M, .PUTX =>
      some (.run [.clearOwner, .allocateTBEFromRequestNet, .queueMemoryWBRequest,
        .popIncomingRequestQueue] .MI)
  | .MI, .Memory_Ack => some (.run [.sendWriteBackAck, .deallocateTBE, .popMemQueue] .I)
  | .M, .PUTX_NotOwner => some (.run [.sendWriteBackNack, .popIncomingRequestQueue] .M)
  | .I, .PUTX_NotOwner => some (.run [.sendWriteBackNack, .popIncomingRequestQueue] .I)
  | _, _ => none

/-- What the actions of a transition change. -/
structure DirContext (C D : Type) (n : ℕ) where
  line : DirLine C D n
  sends : List (Chan C D × Msg C D n)
  fate : Fate

def DirContext.enqueue (x : DirContext C D n) (ch : Chan C D) (m : Msg C D n) : DirContext C D n :=
  { x with sends := x.sends ++ [(ch, m)] }

/-- `is_valid(tbe)`. -/
def DirContext.tbe (x : DirContext C D n) : Result (DirTBE C D n) :=
  getOrError x.line.tbe (.assertion "is_valid(tbe)")

/-- `TBEs.allocate`, and the fields that the action sets. -/
def DirContext.allocate (x : DirContext C D n) (t : DirTBE C D n) : Result (DirContext C D n) := do
  require x.line.tbe.isNone (.assertion "!isPresent(address)")
  return { x with line := { x.line with tbe := some t } }

/-- Send a message to all owners of the line. -/
def DirContext.toOwner (x : DirContext C D n) (m : RequestMsg C D n) : Result (DirContext C D n) :=
  x.line.owner.foldlM (fun x o => do
    let ch ← toCache .forward o
    return x.enqueue ch (.request m)) x

/-- The actions of the directory. -/
def DirAction.run (inMsg : Option (Msg C D n)) :
    DirAction → DirContext C D n → Result (DirContext C D n)
  | .sendWriteBackAck, x => do
      let m ← peekMemory inMsg
      let ch ← toCache .forward m.machine
      return x.enqueue ch (.request { type := .WB_ACK, requestor := m.machine })
  | .sendWriteBackNack, x => do
      let m ← peekRequest inMsg
      let ch ← toCache .forward m.requestor
      return x.enqueue ch (.request { type := .WB_NACK, requestor := m.requestor })
  | .clearOwner, x => .ok { x with line := { x.line with owner := [] } }
  | .sendData, x => do
      let m ← peekMemory inMsg
      let ch ← toCache (.response .directory) m.machine
      return x.enqueue ch (.response ⟨.DATA, .directory, m.dataBlk⟩)
  | .drSendDMAData, x => do
      let m ← peekMemory inMsg
      let t ← x.tbe
      let ch ← toDMA t.dmaRequestor
      return x.enqueue ch (.dmaResponse { type := .DATA, dataBlk := m.dataBlk })
  | .drpSendDMAData, x => do
      let m ← peekRequest inMsg
      let t ← x.tbe
      let ch ← toDMA t.dmaRequestor
      return x.enqueue ch (.dmaResponse { type := .DATA, dataBlk := m.dataBlk })
  | .sendDMAAck, x => do
      let t ← x.tbe
      let ch ← toDMA t.dmaRequestor
      return x.enqueue ch (.dmaResponse { type := .ACK })
  | .ownerIsRequestor, x => do
      let m ← peekRequest inMsg
      return { x with line := { x.line with owner := [m.requestor] } }
  | .forwardRequest, x => do
      let m ← peekRequest inMsg
      x.toOwner { type := m.type, requestor := m.requestor }
  | .sendCacheInvalidate, x => do
      let _ ← peekDMARequest inMsg
      x.toOwner { type := .INV, requestor := .directory }
  | .popIncomingRequestQueue, x | .popIncomingDMARequestQueue, x | .popMemQueue, x =>
      .ok { x with fate := .pop }
  | .allocateTBE, x => do
      let m ← peekDMARequest inMsg
      x.allocate ⟨.I, m.dataBlk, m.offset, m.len, some m.requestor⟩
  | .allocateTbeForDmaRead, x => do
      let m ← peekDMARequest inMsg
      x.allocate { dmaRequestor := some m.requestor }
  | .allocateTBEFromRequestNet, x => do
      let m ← peekRequest inMsg
      x.allocate { dataBlk := m.dataBlk }
  | .deallocateTBE, x => do
      require x.line.tbe.isSome (.assertion "isPresent(address)")
      return { x with line := { x.line with tbe := none } }
  | .recycleRequestQueue, x | .recycleDMARequestQueue, x => .ok { x with fate := .recycle }
  | .queueMemoryFetchRequest, x => do
      let m ← peekRequest inMsg
      return x.enqueue .toMemory (.memory { type := .MEMORY_READ, machine := m.requestor })
  | .queueMemoryFetchRequestDMA, x => do
      let m ← peekDMARequest inMsg
      return x.enqueue .toMemory (.memory { type := .MEMORY_READ, machine := m.requestor })
  | .queueMemoryWBRequestPartial, x => do
      let m ← peekDMARequest inMsg
      return x.enqueue .toMemory (.memory ⟨.MEMORY_WB, m.requestor, m.dataBlk, m.len⟩)
  | .queueMemoryWBRequestPartialTBE, x => do
      let m ← peekRequest inMsg
      let t ← x.tbe
      return x.enqueue .toMemory (.memory ⟨.MEMORY_WB, m.requestor, t.dataBlk, t.len⟩)
  | .queueMemoryWBRequest, x => do
      let m ← peekRequest inMsg
      return x.enqueue .toMemory (.memory ⟨.MEMORY_WB, m.requestor, m.dataBlk, 0⟩)

/-- `doTransition`. -/
def dirTrigger (inMsg : Option (Msg C D n)) (ev : DirEvent) (l : DirLine C D n) :
    Result (DirContext C D n) :=
  match dirTransition l.state ev with
  | none => .error invalidTransition
  | some .stall => .ok ⟨l, [], .keep⟩
  | some (.run actions next) => do
      let x ← actions.foldlM (fun x a => a.run inMsg x) ⟨l, [], .keep⟩
      let line ← x.line.setState next
      return { x with line := line }

/-- `requestQueue_in`. -/
def requestEvent [DecidableEq C] [DecidableEq D] (l : DirLine C D n) (m : RequestMsg C D n) :
    Result DirEvent :=
  match m.type with
  | .GETS => .ok .GETS
  | .GETX => .ok .GETX
  | .PUTX => .ok (if m.requestor ∈ l.owner then .PUTX else .PUTX_NotOwner)
  | _ => .error (.panic "Invalid message")

/-- `dmaRequestQueue_in`. -/
def dmaRequestEvent : DMARequestType → Result DirEvent
  | .READ => .ok .DMA_READ
  | .WRITE => .ok .DMA_WRITE
  | .NULL => .error (.panic "Invalid message")

/-- `memQueue_in`. -/
def memoryEvent : MemoryRequestType → DirEvent
  | .MEMORY_READ => .Memory_Data
  | .MEMORY_WB => .Memory_Ack

/-! ### The memory -/

/-- The memory after the bytes of a block, up to a size, were written to the start of the line. -/
def written (mem dataBlk : Block n) (size : ℕ) : Block n :=
  fun i => if (i : ℕ) < size then dataBlk i else mem i

/-- The size of a memory request: a length of zero stands for the line. -/
def reqSize (n len : ℕ) : ℕ := if 0 < len then len else n

/-- `serviceMemoryQueue` and `recvTimingResp`: the request goes to the address of the line. -/
def serviceMemory (mem : Block n) (m : MemoryMsg C D n) : Result (Block n × MemoryMsg C D n) :=
  match m.type with
  | .MEMORY_WB => do
      require (reqSize n m.len ≤ n)
        (.assertion "offset + len <= RubySystem::getBlockSizeBytes()")
      return (written mem m.dataBlk (reqSize n m.len), { type := .MEMORY_WB, machine := m.machine })
  | .MEMORY_READ => do
      -- the response is copied to a whole block
      require (reqSize n m.len == n) (.undefined "setData(pkt->getPtr<uint8_t>(), 0, blockSize)")
      return (mem, { type := .MEMORY_READ, machine := m.machine, dataBlk := mem })

/-! ### The DMA controllers -/

inductive DMAState where
  | READY | BUSY_RD | BUSY_WR
deriving DecidableEq, Repr

inductive DMAEvent where
  | ReadRequest | WriteRequest | Data | Ack
deriving DecidableEq, Repr

/-- `TBE`. -/
structure DMATBE (n : ℕ) where
  state : DMAState
  dataBlk : Block n

/-- `getState`. -/
def dmaState (tbe : Option (DMATBE n)) : DMAState :=
  match tbe with
  | some t => t.state
  | none => .READY

/-- The actions, without the letters that the source puts before their names. -/
inductive DMAAction where
  | sendReadRequest | sendWriteRequest | ackCallback | dataCallback | updateTBEData | allocateTBE
  | deallocateTBE | popRequestQueue | popResponseQueue | wakeUpAllDependents
deriving DecidableEq, Repr

/-- The transitions of `MI_example-dma.sm`. -/
def dmaTransition : DMAState → DMAEvent → Option (Transition DMAState DMAAction)
  | .READY, .ReadRequest =>
      some (.run [.allocateTBE, .sendReadRequest, .popRequestQueue] .BUSY_RD)
  | .READY, .WriteRequest =>
      some (.run [.allocateTBE, .sendWriteRequest, .popRequestQueue] .BUSY_WR)
  | .BUSY_RD, .Data =>
      some (.run [.updateTBEData, .dataCallback, .deallocateTBE, .popResponseQueue,
        .wakeUpAllDependents] .READY)
  | .BUSY_WR, .Ack =>
      some (.run [.ackCallback, .deallocateTBE, .popResponseQueue, .wakeUpAllDependents] .READY)
  | .BUSY_RD, .ReadRequest | .BUSY_RD, .WriteRequest
  | .BUSY_WR, .ReadRequest | .BUSY_WR, .WriteRequest => some .stall
  | _, _ => none

/-- `SequencerMsg`, the part of a DMA request that is about one line. -/
structure SequencerMsg (n : ℕ) where
  write : Bool
  offset : ℕ
  dataBlk : Block n
  len : ℕ

/-- `DMASequencer::makeRequest`: the bytes of a write stand at their offset in the block. -/
def SequencerMsg.make (write : Bool) (offset : Fin n) (data : List (BitVec 8)) : SequencerMsg n :=
  let len := if offset + data.length ≤ n then data.length else n - offset
  { write := write, offset := offset, len := len
    dataBlk := if write then (0 : Block n).setData data offset len else 0 }

/-- What the actions of a transition change. -/
structure DMAContext (C D : Type) (n : ℕ) where
  tbe : Option (DMATBE n)
  sends : List (Chan C D × Msg C D n)
  popped : Bool

/-- The actions of the DMA controller `d`, for a request of its sequencer or a response. -/
def DMAAction.run (d : D) (req : Option (SequencerMsg n)) (inMsg : Option (Msg C D n)) :
    DMAAction → DMAContext C D n → Result (DMAContext C D n)
  | .sendReadRequest, x => do
      let m ← getOrError req (.undefined "peek")
      return { x with sends := x.sends ++
        [(.dmaRequest d, .dmaRequest ⟨.READ, m.offset, .dma d, m.dataBlk, m.len⟩)] }
  | .sendWriteRequest, x => do
      let m ← getOrError req (.undefined "peek")
      return { x with sends := x.sends ++
        [(.dmaRequest d, .dmaRequest ⟨.WRITE, m.offset, .dma d, m.dataBlk, m.len⟩)] }
  | .updateTBEData, x => do
      let t ← getOrError x.tbe (.assertion "is_valid(tbe)")
      let m ← peekDMAResponse inMsg
      return { x with tbe := some { t with dataBlk := m.dataBlk } }
  | .allocateTBE, x => do
      require x.tbe.isNone (.assertion "!isPresent(address)")
      return { x with tbe := some ⟨.READY, 0⟩ }
  | .deallocateTBE, x => do
      require x.tbe.isSome (.assertion "isPresent(address)")
      return { x with tbe := none }
  | .popResponseQueue, x => .ok { x with popped := true }
  -- the sequencer is told, and goes on with the next line of the request
  | .ackCallback, x | .dataCallback, x | .popRequestQueue, x | .wakeUpAllDependents, x => .ok x

/-- `doTransition`. -/
def dmaTrigger (d : D) (req : Option (SequencerMsg n)) (inMsg : Option (Msg C D n))
    (ev : DMAEvent) (tbe : Option (DMATBE n)) : Result (DMAContext C D n) :=
  match dmaTransition (dmaState tbe) ev with
  | none => .error invalidTransition
  | some .stall => .ok ⟨tbe, [], false⟩
  | some (.run actions next) => do
      let x ← actions.foldlM (fun x a => a.run d req inMsg x) ⟨tbe, [], false⟩
      return { x with tbe := x.tbe.map fun t => { t with state := next } }

/-- `dmaResponseQueue_in`. -/
def dmaResponseEvent : DMAResponseType → Result DMAEvent
  | .ACK => .ok .Ack
  | .DATA => .ok .Data
  | .NULL => .error (.panic "Invalid response type")

end ChipletGem5.MIExample
