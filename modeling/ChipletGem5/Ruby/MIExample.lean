import ChipletGem5.Ruby.MIExampleDir

/-!
# The `MI_example` protocol

The controllers put together, as a program over lines that share channels: the handler of a
channel is the port of the controller at its end, and the spontaneous actions are the requests
of the processors, replacements and DMA requests.

The first request of the mandatory queue of a line may be looked at whatever the requests for other
lines do, and any line may be chosen for replacement; that includes the choices that the capacity
of the caches forces.  The memory may answer requests for different lines in any order.
-/

namespace ChipletGem5.MIExample

open Lines Function

variable {A C D : Type} {n : ℕ} [DecidableEq A] [DecidableEq C] [DecidableEq D]

/-- A line in all controllers and in the memory, and what has happened to it, the latest first. -/
structure Local (C D : Type) (n : ℕ) where
  l1 : C → L1Line n := fun _ => {}
  dir : DirLine C D n := {}
  dma : D → Option (DMATBE n) := fun _ => none
  mem : Block n
  log : List (Record C D n) := []

/-- What the controllers do on their own. -/
inductive Action (C D : Type) (n : ℕ) where
  /-- A processor makes a request. -/
  | request (c : C) (r : Request n)
  /-- A cache looks at the first request of its mandatory queue. -/
  | mandatory (c : C)
  /-- A cache makes room. -/
  | replacement (c : C)
  /-- A DMA sequencer presents a request for a part of the line to its controller. -/
  | dma (d : D) (write : Bool) (offset : Fin n) (data : List (BitVec 8))

/-- A cache handles an event. -/
def Local.onL1 (s : Local C D n) (c : C) (inMsg : Option (Msg C D n)) (ev : CacheEvent) :
    Result (Outcome (Local C D n) (Chan C D) (Msg C D n)) := do
  let x ← l1Trigger c inMsg ev (s.l1 c) s.log
  return ⟨{ s with l1 := update s.l1 c x.line, log := x.log },
    if x.popped then .pop else .keep, x.sends⟩

/-- The DMA writes that the directory sends to the memory, for the log: the value of the line
is that of the memory, or that of the owner's message. -/
def Local.dmaWrites (s : Local C D n) (inMsg : Msg C D n) (ev : DirEvent) : List (Record C D n) :=
  match s.dir.state, ev, inMsg, s.dir.tbe with
  | .I, .DMA_WRITE, .dmaRequest ⟨_, offset, .dma d, dataBlk, len⟩, _ =>
      [.dmaWrite d offset len dataBlk s.mem s.mem]
  | .M_DWR, .PUTX, .request m, some ⟨_, dataBlk, offset, len, some (.dma d)⟩ =>
      [.dmaWrite d offset len dataBlk m.dataBlk s.mem]
  | _, _, _, _ => []

/-- The directory handles an event. -/
def Local.onDir (s : Local C D n) (inMsg : Msg C D n) (ev : DirEvent) :
    Result (Outcome (Local C D n) (Chan C D) (Msg C D n)) := do
  let x ← dirTrigger (some inMsg) ev s.dir
  return ⟨{ s with dir := x.line, log := s.dmaWrites inMsg ev ++ s.log }, x.fate, x.sends⟩

/-- A DMA controller handles an event. -/
def Local.onDMA (s : Local C D n) (d : D) (req : Option (SequencerMsg n))
    (inMsg : Option (Msg C D n)) (ev : DMAEvent) :
    Result (Outcome (Local C D n) (Chan C D) (Msg C D n)) := do
  let x ← dmaTrigger d req inMsg ev (s.dma d)
  return ⟨{ s with dma := update s.dma d x.tbe }, if x.popped then .pop else .keep,
    x.sends⟩

/-- The port at the end of a channel. -/
def handle (ch : Chan C D) (m : Msg C D n) (s : Local C D n) :
    Result (Outcome (Local C D n) (Chan C D) (Msg C D n)) :=
  match ch, m with
  | .request _, .request r => do
      let ev ← requestEvent s.dir r
      s.onDir m ev
  | .dmaRequest _, .dmaRequest r => do
      let ev ← dmaRequestEvent r.type
      s.onDir m ev
  | .fromMemory, .memory r => s.onDir m (memoryEvent r.type)
  | .forward c, .request r => do
      let ev ← forwardEvent r.type
      s.onL1 c (some m) ev
  | .response _ c, .response r => do
      let ev ← responseEvent r.type
      s.onL1 c (some m) ev
  | .dmaResponse d, .dmaResponse r => do
      let ev ← dmaResponseEvent r.type
      s.onDMA d none (some m) ev
  | .toMemory, .memory r => do
      let (mem, answer) ← serviceMemory s.mem r
      return ⟨{ s with mem := mem }, .pop, [(.fromMemory, .memory answer)]⟩
  | _, _ => .error (.undefined "a message of another virtual network")

def Action.perform (act : Action C D n) (s : Local C D n) :
    Result (Outcome (Local C D n) (Chan C D) (Msg C D n)) :=
  match act with
  | .request c r =>
      .ok ⟨{ s with l1 := update s.l1 c ((s.l1 c).makeRequest r) }, .keep, []⟩
  | .mandatory c =>
      match (s.l1 c).mandatory with
      | t :: _ => do
          let ev ← mandatoryEvent t
          s.onL1 c none ev
      | [] => .ok ⟨s, .keep, []⟩
  | .replacement c => s.onL1 c none .Replacement
  | .dma d write offset data =>
      s.onDMA d (some (.make write offset data)) none
        (if write then .WriteRequest else .ReadRequest)

def program : Program (Local C D n) (Chan C D) (Msg C D n) (Action C D n) CallFault where
  handle := handle
  act := Action.perform
  unordered ch := ch == .toMemory || ch == .fromMemory

abbrev MILine (C D : Type) (n : ℕ) := Line (Local C D n) (Chan C D) (Msg C D n)

abbrev MISystem (A C D : Type) (n : ℕ) := System A (Local C D n) (Chan C D) (Msg C D n)

abbrev MIMove (A C D : Type) (n : ℕ) := Move (Chan C D) (A × Action C D n)

/-- At the start no cache has a line, and no message is under way. -/
def initial (C D : Type) (mem : A → Block n) : MISystem A C D n where
  loc a := { mem := mem a }
  chan _ := []

/-! ### The history of a line -/

/-- The value of a line: what the latest store has produced, or the latest DMA write has left in
the memory, and the initial contents of the memory otherwise. -/
def current (init : Block n) : List (Record C D n) → Block n
  | [] => init
  | .load _ _ :: log => current init log
  | .store _ _ produced :: _ => produced
  | .dmaWrite _ _ len dataBlk _ stale :: _ => written stale dataBlk (reqSize n len)

/-- Every load and store has observed the value that the line had then. -/
def Coherent (init : Block n) : List (Record C D n) → Prop
  | [] => True
  | .load _ observed :: log => observed = current init log ∧ Coherent init log
  | .store _ observed _ :: log => observed = current init log ∧ Coherent init log
  | .dmaWrite _ _ _ _ coherent _ :: log => coherent = current init log ∧ Coherent init log

end ChipletGem5.MIExample
