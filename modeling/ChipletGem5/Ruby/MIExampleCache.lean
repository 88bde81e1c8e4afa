import ChipletGem5.Ruby.MIExampleMsg
import ChipletGem5.Ruby.Sequencer

/-!
# The L1 cache controller of `MI_example`

`MI_example-cache.sm`, for one line: its cache entry, its TBE (the entry of the table of
outstanding transactions), and the requests that the sequencer holds for it.  The transitions
are the table `l1Transition`.  A transition whose only action is `z_stall` leaves everything
as it is.

Of the sequencer there is the list of the line, with loads, fetches and stores and the data that
they see; other types, and requests that are made inside of a callback, are in `Ruby.Sequencer`.
It issues one request for a line at a time and keeps the ones that arrive meanwhile.  A
`writeCallback` completes all of them, a `readCallback` the loads before the first store, which is
then issued.
-/

namespace ChipletGem5.MIExample

open Sequencer (RubyRequestType)

variable {C D : Type} {n : ℕ}

/-! ### The sequencer -/

/-- A request of the processor.  A store turns the contents of the line into others. -/
inductive Request (n : ℕ) where
  | load
  | ifetch
  | store (f : Block n → Block n)

/-- The type under which the sequencer issues a request. -/
def Request.secondType : Request n → RubyRequestType
  | .load => .LD
  | .ifetch => .IFETCH
  | .store _ => .ST

/-- Complete requests one after the other, each on the data that the one before has left. -/
def hitCallbacks (c : C) : List (Request n) → Block n → List (Record C D n) →
    Block n × List (Record C D n)
  | [], data, log => (data, log)
  | .store f :: rs, data, log => hitCallbacks c rs (f data) (.store c data (f data) :: log)
  | _ :: rs, data, log => hitCallbacks c rs data (.load c data :: log)

/-- Complete the loads before the first store, and return what is left. -/
def hitLoads (c : C) (data : Block n) : List (Request n) → List (Record C D n) →
    List (Request n) × List (Record C D n)
  | [], log => ([], log)
  | .store f :: rs, log => (.store f :: rs, log)
  | _ :: rs, log => hitLoads c data rs (.load c data :: log)

/-! ### The state of a line -/

inductive CacheState where
  /-- Not present. -/
  | I
  /-- Not present, issued PUT. -/
  | II
  /-- Modified. -/
  | M
  /-- Modified, issued PUT. -/
  | MI
  /-- Modified, issued PUTX, received nack. -/
  | MII
  /-- Issued request for LOAD/IFETCH. -/
  | IS
  /-- Issued request for STORE/ATOMIC. -/
  | IM
deriving DecidableEq, Repr

/-- `Entry`, and `TBE`: a state and a data block. -/
structure CacheEntry (n : ℕ) where
  state : CacheState
  dataBlk : Block n

/-- A line in an L1 cache, with the requests for it in the sequencer's table and the ones in the
mandatory queue. -/
structure L1Line (n : ℕ) where
  entry : Option (CacheEntry n) := none
  tbe : Option (CacheEntry n) := none
  requests : List (Request n) := []
  mandatory : List RubyRequestType := []

/-- `getState`. -/
def L1Line.state (l : L1Line n) : CacheState :=
  match l.tbe, l.entry with
  | some t, _ => t.state
  | none, some e => e.state
  | none, none => .I

def L1Line.setState (l : L1Line n) (st : CacheState) : L1Line n :=
  { l with
    tbe := l.tbe.map fun t => { t with state := st }
    entry := l.entry.map fun e => { e with state := st } }

/-- `Sequencer::makeRequest`: a request for a line that has none is issued. -/
def L1Line.makeRequest (l : L1Line n) (r : Request n) : L1Line n :=
  { l with
    requests := l.requests ++ [r]
    mandatory := if l.requests.isEmpty then l.mandatory ++ [r.secondType] else l.mandatory }

/-! ### Transitions -/

inductive CacheEvent where
  | Load | Ifetch | Store | Data | Fwd_GETX | Inv | Replacement | Writeback_Ack | Writeback_Nack
deriving DecidableEq, Repr

/-- `mandatory_request_type_to_event`. -/
def mandatoryEvent : RubyRequestType → Result CacheEvent
  | .LD => .ok .Load
  | .IFETCH => .ok .Ifetch
  | .ST => .ok .Store
  | _ => .error (.panic "Invalid RubyRequestType")

/-- The actions, without the letters that the source puts before their names. -/
inductive L1Action where
  | issueRequest | issuePUT | sendData | sendDataFromTBE | allocateL1CacheBlock
  | deallocateL1CacheBlock | popMandatoryQueue | popResponseQueue | popForwardedRequestQueue
  | profileMiss | profileHit | loadHit | xLoadHit | storeHit | xStoreHit | writeDataToCache
  | forwardEvictionToCpu | allocateTBE | deallocateTBE | copyDataFromCacheToTBE
deriving DecidableEq, Repr

/-- A declared transition. -/
inductive Transition (σ α : Type) where
  /-- The event waits. -/
  | stall
  /-- Run the actions and go to a state. -/
  | run (actions : List α) (next : σ)

/-- The transitions of `MI_example-cache.sm`. -/
def l1Transition : CacheState → CacheEvent → Option (Transition CacheState L1Action)
  | .IS, .Load | .IS, .Ifetch | .IS, .Store | .IS, .Replacement
  | .IM, .Load | .IM, .Ifetch | .IM, .Store | .IM, .Replacement
  | .MI, .Load | .MI, .Ifetch | .MI, .Store | .MI, .Replacement
  | .II, .Load | .II, .Ifetch | .II, .Store | .II, .Replacement
  | .MII, .Load | .MII, .Ifetch | .MII, .Store | .MII, .Replacement => some .stall
  | .IS, .Fwd_GETX | .IS, .Inv | .IM, .Fwd_GETX | .IM, .Inv => some .stall
  | .MI, .Inv => some (.run [.popForwardedRequestQueue] .MI)
  | .M, .Store => some (.run [.storeHit, .profileHit, .popMandatoryQueue] .M)
  | .M, .Load | .M, .Ifetch => some (.run [.loadHit, .profileHit, .popMandatoryQueue] .M)
  | .I, .Inv => some (.run [.popForwardedRequestQueue] .I)
  | .I, .Store =>
      some (.run [.allocateTBE, .allocateL1CacheBlock, .issueRequest, .profileMiss,
        .popMandatoryQueue] .IM)
  | .I, .Load | .I, .Ifetch =>
      some (.run [.allocateTBE, .allocateL1CacheBlock, .issueRequest, .profileMiss,
        .popMandatoryQueue] .IS)
  | .IS, .Data => some (.run [.writeDataToCache, .xLoadHit, .deallocateTBE, .popResponseQueue] .M)
  | .IM, .Data => some (.run [.writeDataToCache, .xStoreHit, .deallocateTBE, .popResponseQueue] .M)
  | .M, .Fwd_GETX =>
      some (.run [.sendData, .forwardEvictionToCpu, .popForwardedRequestQueue] .I)
  | .I, .Replacement => some (.run [.deallocateL1CacheBlock] .I)
  | .M, .Replacement | .M, .Inv =>
      some (.run [.allocateTBE, .issuePUT, .copyDataFromCacheToTBE, .forwardEvictionToCpu,
        .deallocateL1CacheBlock] .MI)
  | .MI, .Writeback_Ack => some (.run [.deallocateTBE, .popForwardedRequestQueue] .I)
  | .MI, .Fwd_GETX => some (.run [.sendDataFromTBE, .popForwardedRequestQueue] .II)
  | .MI, .Writeback_Nack => some (.run [.popForwardedRequestQueue] .MII)
  | .MII, .Fwd_GETX =>
      some (.run [.sendDataFromTBE, .deallocateTBE, .popForwardedRequestQueue] .I)
  | .II, .Writeback_Nack => some (.run [.deallocateTBE, .popForwardedRequestQueue] .I)
  | _, _ => none

/-- What the actions of a transition work on. -/
structure L1Context (C D : Type) (n : ℕ) where
  line : L1Line n
  sends : List (Chan C D × Msg C D n)
  popped : Bool
  log : List (Record C D n)

def L1Context.enqueue (x : L1Context C D n) (ch : Chan C D) (m : Msg C D n) : L1Context C D n :=
  { x with sends := x.sends ++ [(ch, m)] }

/-- `is_valid(cache_entry)`. -/
def L1Context.entry (x : L1Context C D n) : Result (CacheEntry n) :=
  getOrError x.line.entry (.assertion "is_valid(cache_entry)")

/-- `is_valid(tbe)`. -/
def L1Context.tbe (x : L1Context C D n) : Result (CacheEntry n) :=
  getOrError x.line.tbe (.assertion "is_valid(tbe)")

/-- `Sequencer::readCallback`. -/
def L1Context.readCallback (c : C) (x : L1Context C D n) (data : Block n) :
    Result (L1Context C D n) :=
  match x.line.requests with
  | [] => .error (.assertion "m_RequestTable.find(address) != m_RequestTable.end()")
  | .store _ :: _ => .error (.assertion ("(seq_req.m_type == RubyRequestType_LD) || " ++
      "(seq_req.m_type == RubyRequestType_Load_Linked) || " ++
      "(seq_req.m_type == RubyRequestType_IFETCH)"))
  | rs =>
      let (left, log) := hitLoads c data rs x.log
      .ok { x with
        line := { x.line with
          requests := left
          mandatory := x.line.mandatory ++ (left.head?.map Request.secondType).toList }
        log := log }

/-- `Sequencer::writeCallback`. -/
def L1Context.writeCallback (c : C) (x : L1Context C D n) (e : CacheEntry n) :
    Result (L1Context C D n) :=
  match x.line.requests with
  | [] => .error (.assertion "m_RequestTable.find(address) != m_RequestTable.end()")
  | .load :: _ => .error (.assertion "seq_req.m_type != RubyRequestType_LD")
  | .ifetch :: _ => .error (.assertion "seq_req.m_type != RubyRequestType_IFETCH")
  | rs =>
      let (data, log) := hitCallbacks c rs e.dataBlk x.log
      .ok { x with
        line := { x.line with requests := [], entry := some { e with dataBlk := data } }
        log := log }

/-- The actions of the cache `c`. -/
def L1Action.run (c : C) (inMsg : Option (Msg C D n)) :
    L1Action → L1Context C D n → Result (L1Context C D n)
  | .issueRequest, x =>
      .ok (x.enqueue (.request c) (.request { type := .GETX, requestor := .l1Cache c }))
  | .issuePUT, x => do
      let e ← x.entry
      return x.enqueue (.request c)
        (.request { type := .PUTX, requestor := .l1Cache c, dataBlk := e.dataBlk })
  | .sendData, x => do
      let m ← peekRequest inMsg
      let e ← x.entry
      let ch ← toCache (.response (.l1Cache c)) m.requestor
      return x.enqueue ch (.response ⟨.DATA, .l1Cache c, e.dataBlk⟩)
  | .sendDataFromTBE, x => do
      let m ← peekRequest inMsg
      let t ← x.tbe
      let ch ← toCache (.response (.l1Cache c)) m.requestor
      return x.enqueue ch (.response ⟨.DATA, .l1Cache c, t.dataBlk⟩)
  | .allocateL1CacheBlock, x =>
      match x.line.entry with
      | some _ => .ok x
      | none => .ok { x with line := { x.line with entry := some ⟨.I, 0⟩ } }
  | .deallocateL1CacheBlock, x => .ok { x with line := { x.line with entry := none } }
  | .popMandatoryQueue, x =>
      .ok { x with line := { x.line with mandatory := x.line.mandatory.tail } }
  | .popResponseQueue, x | .popForwardedRequestQueue, x => .ok { x with popped := true }
  | .profileMiss, x | .profileHit, x | .forwardEvictionToCpu, x => .ok x
  | .loadHit, x => do
      let e ← x.entry
      x.readCallback c e.dataBlk
  | .xLoadHit, x => do
      let _ ← peekResponse inMsg
      let e ← x.entry
      x.readCallback c e.dataBlk
  | .storeHit, x => do
      let e ← x.entry
      x.writeCallback c e
  | .xStoreHit, x => do
      let _ ← peekResponse inMsg
      let e ← x.entry
      x.writeCallback c e
  | .writeDataToCache, x => do
      let m ← peekResponse inMsg
      let e ← x.entry
      return { x with line := { x.line with entry := some { e with dataBlk := m.dataBlk } } }
  | .allocateTBE, x => do
      require x.line.tbe.isNone (.assertion "!isPresent(address)")
      return { x with line := { x.line with tbe := some ⟨.I, 0⟩ } }
  | .deallocateTBE, x => do
      require x.line.tbe.isSome (.assertion "isPresent(address)")
      return { x with line := { x.line with tbe := none } }
  | .copyDataFromCacheToTBE, x => do
      let e ← x.entry
      let t ← x.tbe
      return { x with line := { x.line with tbe := some { t with dataBlk := e.dataBlk } } }

/-- The format of the message for an event that has no transition. -/
def invalidTransition : CallFault :=
  .panic "Invalid transition\n%s time: %d addr: %#x event: %s state: %s\n"

/-- `doTransition`: a stalled event leaves no trace. -/
def l1Trigger (c : C) (inMsg : Option (Msg C D n)) (ev : CacheEvent) (l : L1Line n)
    (log : List (Record C D n)) : Result (L1Context C D n) :=
  match l1Transition l.state ev with
  | none => .error invalidTransition
  | some .stall => .ok ⟨l, [], false, log⟩
  | some (.run actions next) => do
      let x ← actions.foldlM (fun x a => a.run c inMsg x) ⟨l, [], false, log⟩
      return { x with line := x.line.setState next }

/-- `forwardRequestNetwork_in`. -/
def forwardEvent : CoherenceRequestType → Result CacheEvent
  | .GETX => .ok .Fwd_GETX
  | .WB_ACK => .ok .Writeback_Ack
  | .WB_NACK => .ok .Writeback_Nack
  | .INV => .ok .Inv
  | _ => .error (.panic "Unexpected message")

/-- `responseNetwork_in`. -/
def responseEvent : CoherenceResponseType → Result CacheEvent
  | .DATA => .ok .Data
  | _ => .error (.panic "Unexpected message")

end ChipletGem5.MIExample
