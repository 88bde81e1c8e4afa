import ChipletGem5.Lib.Lines

/-!
# The messages of the `MI_example` protocol

The controllers of `MI_example` are the L1 caches `C`, one directory and the DMA controllers `D`.
A message is about one line of `n` bytes, so that its address and its destination are left to
the channel that carries it: `Chan` has one channel for each source, destination and virtual
network, and the two queues between the directory and the memory.
-/

namespace ChipletGem5.MIExample

variable {C D : Type} {n : ℕ}

/-- `DataBlock`: the bytes of a line. -/
def Block (n : ℕ) : Type := Fin n → BitVec 8

/-- A new `DataBlock` is cleared. -/
instance : Zero (Block n) := ⟨fun _ => 0⟩

instance : DecidableEq (Block n) := inferInstanceAs (DecidableEq (Fin n → BitVec 8))

def Block.setData (b : Block n) (data : List (BitVec 8)) (offset len : ℕ) : Block n :=
  fun i => if offset ≤ i ∧ i < offset + len then data.getD (i - offset) 0 else b i

inductive MachineID (C D : Type) where
  | l1Cache (c : C)
  | directory
  | dma (d : D)
deriving DecidableEq

inductive CoherenceRequestType where
  | GETX | GETS | PUTX | WB_ACK | WB_NACK | INV
deriving DecidableEq, Repr

inductive CoherenceResponseType where
  | ACK | DATA | DATA_EXCLUSIVE_CLEAN | DATA_EXCLUSIVE_DIRTY | UNBLOCK | UNBLOCK_EXCLUSIVE
  | WRITEBACK_CLEAN | WRITEBACK_DIRTY | WRITEBACK
deriving DecidableEq, Repr

inductive DMARequestType where
  | READ | WRITE | NULL
deriving DecidableEq, Repr

inductive DMAResponseType where
  | DATA | ACK | NULL
deriving DecidableEq, Repr

inductive MemoryRequestType where
  | MEMORY_READ | MEMORY_WB
deriving DecidableEq, Repr

/-- Requests of the caches, and what the directory forwards. -/
structure RequestMsg (C D : Type) (n : ℕ) where
  type : CoherenceRequestType
  requestor : MachineID C D
  dataBlk : Block n := 0
deriving DecidableEq

structure ResponseMsg (C D : Type) (n : ℕ) where
  type : CoherenceResponseType
  sender : MachineID C D
  dataBlk : Block n
deriving DecidableEq

/-- The physical address of a DMA request is given by its offset in the line. -/
structure DMARequestMsg (C D : Type) (n : ℕ) where
  type : DMARequestType
  offset : ℕ
  requestor : MachineID C D
  dataBlk : Block n
  len : ℕ
deriving DecidableEq

structure DMAResponseMsg (n : ℕ) where
  type : DMAResponseType
  dataBlk : Block n := 0
deriving DecidableEq

/-- Requests to the memory carry `Sender`, responses `OriginalRequestorMachId`. -/
structure MemoryMsg (C D : Type) (n : ℕ) where
  type : MemoryRequestType
  machine : MachineID C D
  dataBlk : Block n := 0
  len : ℕ := 0
deriving DecidableEq

/-- The messages of every network. -/
inductive Msg (C D : Type) (n : ℕ) where
  | request (m : RequestMsg C D n)
  | response (m : ResponseMsg C D n)
  | dmaRequest (m : DMARequestMsg C D n)
  | dmaResponse (m : DMAResponseMsg n)
  | memory (m : MemoryMsg C D n)
deriving DecidableEq

/-- The channels, one for each network and end point. -/
inductive Chan (C D : Type) where
  /-- Virtual network 2, from a cache to the directory. -/
  | request (c : C)
  /-- Virtual network 3, from the directory to a cache. -/
  | forward (c : C)
  /-- Virtual network 4, from the directory or a cache to a cache. -/
  | response (src : MachineID C D) (c : C)
  /-- Virtual network 0, from a DMA controller to the directory. -/
  | dmaRequest (d : D)
  /-- Virtual network 1, from the directory to a DMA controller. -/
  | dmaResponse (d : D)
  /-- `requestToMemory`. -/
  | toMemory
  /-- `responseFromMemory`. -/
  | fromMemory
deriving DecidableEq

/-- What happened to a line: the completed requests of the processors, and the DMA writes that
the directory has sent to the memory. -/
inductive Record (C D : Type) (n : ℕ) where
  | load (c : C) (observed : Block n)
  | store (c : C) (observed produced : Block n)
  /-- The controller and the bytes of a DMA write, the value of the line and the contents of the
  memory then. -/
  | dmaWrite (d : D) (offset len : ℕ) (dataBlk coherent stale : Block n)
deriving DecidableEq

/-- A channel of a virtual network on which only the caches receive. -/
def toCache (f : C → Chan C D) : MachineID C D → Result (Chan C D)
  | .l1Cache c => .ok (f c)
  | _ => .error (.undefined "out_msg.Destination")

/-- The channel of the responses to a DMA controller. -/
def toDMA : Option (MachineID C D) → Result (Chan C D)
  | some (.dma d) => .ok (.dmaResponse d)
  | _ => .error (.undefined "out_msg.Destination")

/-! ### Peeking at the message of a port -/

def peekRequest : Option (Msg C D n) → Result (RequestMsg C D n)
  | some (.request m) => .ok m
  | _ => .error (.undefined "peek")

def peekResponse : Option (Msg C D n) → Result (ResponseMsg C D n)
  | some (.response m) => .ok m
  | _ => .error (.undefined "peek")

def peekDMARequest : Option (Msg C D n) → Result (DMARequestMsg C D n)
  | some (.dmaRequest m) => .ok m
  | _ => .error (.undefined "peek")

def peekDMAResponse : Option (Msg C D n) → Result (DMAResponseMsg n)
  | some (.dmaResponse m) => .ok m
  | _ => .error (.undefined "peek")

def peekMemory : Option (Msg C D n) → Result (MemoryMsg C D n)
  | some (.memory m) => .ok m
  | _ => .error (.undefined "peek")

end ChipletGem5.MIExample
