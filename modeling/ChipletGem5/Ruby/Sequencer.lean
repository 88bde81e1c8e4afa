import ChipletGem5.Base.AddrRange
import ChipletGem5.Lib.Exec
import ChipletGem5.Lib.Result

/-!
# The Ruby sequencer

`Sequencer` (mem/ruby/system/Sequencer.cc) keeps the requests of a processor in a table with a list
for each cache line, and issues only the first of a list to the cache controller.  When the
controller calls back, the requests of the list are answered by `hitCallback`: all of them after a
write, those up to the next write after a read.

Inside of `hitCallback` the processor may make new requests.  A callback is therefore modelled by
the steps from one `hitCallback` to the next: `readCallback` and `writeCallback` go up to the first
one, and `hitReturned` goes on when a `hitCallback` has returned.  Callbacks do not nest, since a
request takes some time in the mandatory queue.

The data, the monitor for load-linked and store-conditional, the deadlock check and the statistics
are left out.
-/

namespace ChipletGem5

namespace Sequencer

/-! ### Requests -/

/-- `RubyRequestType`, those that the sequencer uses. -/
inductive RubyRequestType where
  | LD
  | ST
  | IFETCH
  | Load_Linked
  | Store_Conditional
  | RMW_Read
  | Locked_RMW_Read
  | Locked_RMW_Write
  | FLUSH
deriving DecidableEq

/-- The types that `readCallback` answers. -/
def RubyRequestType.isLoad : RubyRequestType → Bool
  | .LD => true
  | .IFETCH => true
  | .Load_Linked => true
  | _ => false

/-- The answer to `makeRequest`. -/
inductive RequestStatus where
  | Ready
  | Issued
  | BufferFull
  | Aliased
deriving DecidableEq

/-- A packet from one of the ports. -/
structure Packet where
  /-- A number for the object. -/
  id : ℕ
  port : ℕ
  addr : Addr
  isRead : Bool
  isWrite : Bool
  isFlush : Bool
  isLLSC : Bool
  isLockedRMW : Bool
  isInstFetch : Bool
  /-- The flag `X86ISA::StoreCheck`. -/
  storeCheck : Bool
deriving DecidableEq

/-- A request that waits for its callback. -/
structure SequencerRequest where
  pkt : Packet
  type : RubyRequestType
  secondType : RubyRequestType
deriving DecidableEq

structure Params where
  maxOutstandingRequests : ℕ
  blockSizeBits : ℕ
  /-- `PROTOCOL_MESI_Three_Level` is defined. -/
  threeLevel : Bool
  maxOutstandingRequests_pos : 0 < maxOutstandingRequests

def Params.makeLineAddress (c : Params) (a : Addr) : Addr :=
  a &&& ~~~ ((1 : Addr) <<< c.blockSizeBits - 1)

/-- The line of a request. -/
def Params.line (c : Params) (r : SequencerRequest) : Addr := c.makeLineAddress r.pkt.addr

/-- The primary and the secondary type that `makeRequest` finds. -/
def requestTypes (c : Params) (pkt : Packet) : Result (RubyRequestType × RubyRequestType) :=
  if pkt.isLLSC then
    if pkt.isWrite then
      .ok (.Store_Conditional, if c.threeLevel then .Store_Conditional else .ST)
    else if pkt.isRead then .ok (.Load_Linked, .LD)
    else .error (.assertion "pkt->isRead()")
  else if pkt.isLockedRMW then
    if pkt.isWrite then .ok (.Locked_RMW_Write, .ST)
    else if pkt.isRead then .ok (.Locked_RMW_Read, .ST)
    else .error (.assertion "pkt->isRead()")
  else if pkt.isWrite then .ok (.ST, .ST)
  else if pkt.isRead then
    if pkt.isInstFetch then .ok (.IFETCH, .IFETCH)
    else if pkt.storeCheck then .ok (.RMW_Read, .ST)
    else .ok (.LD, .LD)
  else if pkt.isFlush then .ok (.FLUSH, .FLUSH)
  else .error (.panic "Unsupported ruby packet type\n")

/-- A callback that goes on: for its line, one of its requests is in `hitCallback`. -/
structure Callback where
  address : Addr
  /-- `writeCallback`, not `readCallback`. -/
  write : Bool
  /-- The variable `ruby_request`. -/
  rubyRequest : Bool
deriving DecidableEq

end Sequencer

open Sequencer

/-- A sequencer, with its controller. -/
structure Sequencer where
  /-- `m_RequestTable`; a line without requests is not in the table. -/
  requestTable : Addr → List SequencerRequest
  outstandingCount : ℤ
  /-- The lines in `m_block_map` of the controller. -/
  blockMap : Finset Addr
  /-- The requests that have been put into the mandatory queue and not been answered. -/
  issued : List SequencerRequest
  callback : Option Callback
  /-- The requests for which `makeRequest` has returned `Issued`. -/
  accepted : List SequencerRequest
  /-- The requests for which `hitCallback` has been called. -/
  hits : List SequencerRequest

namespace Sequencer

variable (c : Params) (s : Sequencer)

/-! ### New requests -/

def insertRequest (r : SequencerRequest) : RequestStatus × Sequencer :=
  let list := s.requestTable (c.line r) ++ [r]
  let s := { s with
    requestTable := Function.update s.requestTable (c.line r) list
    outstandingCount := s.outstandingCount + 1 }
  if list.length > 1 then (.Aliased, s) else (.Ready, s)

def issueRequest (r : SequencerRequest) : Sequencer := { s with issued := s.issued ++ [r] }

/-- What `makeRequest` does after the checks. -/
def insertAndIssue (r : SequencerRequest) : Sequencer :=
  match s.insertRequest c r with
  | (.Ready, s) => s.issueRequest r
  | (_, s) => s

def makeRequest (pkt : Packet) : Result (RequestStatus × Sequencer) := do
  if s.outstandingCount ≥ c.maxOutstandingRequests then return (.BufferFull, s)
  let (primary, secondary) ← requestTypes c pkt
  if c.makeLineAddress pkt.addr ∈ s.blockMap ∧ primary ≠ .Locked_RMW_Write then
    return (.Aliased, s)
  let r : SequencerRequest := ⟨pkt, primary, secondary⟩
  let s := s.insertAndIssue c r
  return (.Issued, { s with accepted := s.accepted ++ [r] })

/-! ### Callbacks -/

/-- `markRemoved` and the call of `hitCallback`. -/
def hit (cb : Callback) (r : SequencerRequest) : Sequencer :=
  { s with
    outstandingCount := s.outstandingCount - 1
    callback := some { cb with rubyRequest := false }
    hits := s.hits ++ [r] }

/-- `blockOnQueue` and `unblock`, by the type of the request. -/
def block (a : Addr) : RubyRequestType → Sequencer
  | .Locked_RMW_Read => { s with blockMap := insert a s.blockMap }
  | .Locked_RMW_Write => { s with blockMap := s.blockMap.erase a }
  | _ => s

/-- A round of the loop in `writeCallback`, for the first request of the list. -/
def writeRound (cb : Callback) (r : SequencerRequest) : Result Sequencer := do
  require (!cb.rubyRequest || r.type != .LD)
    (.assertion "seq_req.m_type != RubyRequestType_LD")
  require (!cb.rubyRequest || r.type != .Load_Linked)
    (.assertion "seq_req.m_type != RubyRequestType_Load_Linked")
  require (!cb.rubyRequest || r.type != .IFETCH)
    (.assertion "seq_req.m_type != RubyRequestType_IFETCH")
  if r.type.isLoad then do
    require (!cb.rubyRequest) (.assertion "!ruby_request")
    return s.hit cb r
  else return (s.block cb.address r.type).hit cb r

/-- A round of the loop in `readCallback`, for the first request of the list. -/
def readRound (cb : Callback) (r : SequencerRequest) : Result Sequencer := do
  require (!cb.rubyRequest || r.type.isLoad)
    (.assertion ("(seq_req.m_type == RubyRequestType_LD) || " ++
      "(seq_req.m_type == RubyRequestType_Load_Linked) || " ++
      "(seq_req.m_type == RubyRequestType_IFETCH)"))
  if r.type.isLoad then return s.hit cb r
  else return { s.issueRequest r with callback := none }

/-- The loops of the callbacks, from their head to the next `hitCallback` or to the end. -/
def round (cb : Callback) : Result Sequencer :=
  match s.requestTable cb.address with
  | [] => .ok { s with callback := none }
  | r :: _ => if cb.write then s.writeRound cb r else s.readRound cb r

/-- `writeCallback` and `readCallback`, up to the first `hitCallback`. -/
def startCallback (write : Bool) (address : Addr) : Result Sequencer := do
  require (address = c.makeLineAddress address)
    (.assertion "address == makeLineAddress(address)")
  require (s.requestTable address ≠ [])
    (.assertion "m_RequestTable.find(address) != m_RequestTable.end()")
  round { s with issued := s.issued.filter (c.line · ≠ address) } ⟨address, write, true⟩

/-- `hitCallback` returns: `pop_front`, and the loop goes on. -/
def hitReturned : Result Sequencer :=
  match s.callback with
  | none => .error (.undefined "hitCallback")
  | some cb =>
      round { s with
        requestTable := Function.update s.requestTable cb.address
          (s.requestTable cb.address).tail } cb

/-! ### Runs -/

def init : Sequencer := ⟨fun _ => [], 0, ∅, [], none, [], []⟩

/-- What a sequencer is called with. -/
inductive Action where
  | makeRequest (pkt : Packet)
  | readCallback (address : Addr)
  | writeCallback (address : Addr)
  | hitReturned
deriving DecidableEq

def step : Action → Result Sequencer
  | .makeRequest pkt => Prod.snd <$> s.makeRequest c pkt
  | .readCallback address => s.startCallback c false address
  | .writeCallback address => s.startCallback c true address
  | .hitReturned => s.hitReturned

/-- The packets that the sequencer has a type for. -/
def Supported (pkt : Packet) : Prop :=
  pkt.isWrite ∨ pkt.isRead ∨
    pkt.isFlush ∧ pkt.isLLSC = false ∧ pkt.isLockedRMW = false

/-- What processor and controller may do: a callback is for a line with a request in flight, of the
kind of the request, and not inside of another callback. -/
def Permitted : Action → Prop
  | .makeRequest pkt => Supported pkt
  | .readCallback address => s.callback = none ∧
      ∃ r ∈ s.issued, c.line r = address ∧ r.secondType.isLoad
  | .writeCallback address => s.callback = none ∧
      ∃ r ∈ s.issued, c.line r = address ∧ r.secondType.isLoad = false
  | .hitReturned => s.callback.isSome

instance (a : Action) : Decidable (Permitted c s a) := by
  cases a <;> dsimp only [Permitted, Supported] <;> infer_instance

end Sequencer

end ChipletGem5
