import ChipletGem5.Lib.Exec
import ChipletGem5.Lib.Result

/-!
# The synchronisation of a distributed simulation

Several gem5 processes simulate the nodes of a network and one its switch
(dev/net/dist_iface.cc).  They meet at barriers.  There `SyncNode::run` of a node sends a request to
the switch and waits for its acknowledgement; `SyncSwitch::run` waits for the requests of all nodes
and acknowledges them.  The threads that receive the messages call `progress`.

The functions that wait are modelled by their parts: what is done before, and what after.  Ticks and
the numbers of threads and requests are natural numbers; in the source they have 64 and 32 bits and
do not get that far.  The only exception is a difference of ticks, which may be negative.
-/

namespace ChipletGem5.DistIface

/-! ### Messages -/

/-- How a node asks for an exit or a checkpoint. -/
inductive ReqType where
  | immediate
  | collective
  | pending
  | none
deriving DecidableEq

/-- `DistHeaderPkt::Header` of a message that is not a data packet. -/
structure Header where
  sendTick : ℕ
  syncRepeat : ℕ
  needCkpt : ReqType
  needStopSync : ReqType
  needExit : ReqType
deriving DecidableEq

/-- `std::numeric_limits<Tick>::max()`. -/
def maxTick : ℕ := 2 ^ 64 - 1

/-- `DistIface::Sync`, without its mutex and condition variable. -/
structure Sync where
  /-- The number of receiver threads that have not completed the current barrier. -/
  waitNum : ℕ
  doExit : Bool
  doCkpt : Bool
  doStopSync : Bool
  nextRepeat : ℕ
  nextAt : ℕ
  isAbort : Bool
deriving DecidableEq

/-! ### Nodes -/

/-- The barrier of a node. -/
structure SyncNode extends Sync where
  needExit : ReqType
  needCkpt : ReqType
  needStopSync : ReqType
deriving DecidableEq

namespace SyncNode

def new : SyncNode := ⟨⟨0, false, false, false, maxTick, maxTick, false⟩, .none, .none, .none⟩

/-- What `run` makes of a request after it has been sent. -/
def sent : ReqType → ReqType
  | .none => .none
  | _ => .pending

/-- `run`, up to the wait: the request that is sent, and the node. -/
def runStart (s : SyncNode) (recvThreadsNum curTick : ℕ) : Result (Header × SyncNode) := do
  require (s.waitNum = 0) (.assertion "waitNum == 0")
  require (s.isAbort = false) (.assertion "!isAbort")
  return (⟨curTick, s.nextRepeat, s.needCkpt, s.needStopSync, s.needExit⟩,
    { s with
      waitNum := recvThreadsNum
      needCkpt := sent s.needCkpt
      needExit := sent s.needExit
      needStopSync := sent s.needStopSync })

/-- `run`, after the wait. -/
def runEnd (s : SyncNode) (sameTick : Bool) (curTick : ℕ) : Result Bool := do
  require (s.isAbort ∨ sameTick = false ∨ s.nextAt = curTick)
    (.assertion "isAbort || !same_tick || (nextAt == curTick())")
  return !s.isAbort

def progress (s : SyncNode) (h : Header) : Result (Bool × SyncNode) := do
  if s.isAbort then return (false, s)
  require (0 < s.waitNum) (.assertion "waitNum > 0")
  return (h.needExit = .none,
    { s with
      nextAt := h.sendTick
      nextRepeat := h.syncRepeat
      doCkpt := h.needCkpt ≠ .none
      doExit := h.needExit ≠ .none
      doStopSync := h.needStopSync ≠ .none
      waitNum := s.waitNum - 1 })

def requestCkpt (s : SyncNode) (req : ReqType) : Result SyncNode := do
  require (req ≠ .none) (.assertion "req != ReqType::none")
  return if s.needCkpt = .none ∨ req = .immediate then { s with needCkpt := req } else s

end SyncNode

/-! ### The switch -/

/-- The barrier of the switch, which counts the requests. -/
structure SyncSwitch extends Sync where
  numExitReq : ℕ
  numCkptReq : ℕ
  numStopSyncReq : ℕ
  numNodes : ℕ
deriving DecidableEq

namespace SyncSwitch

def new (numNodes : ℕ) : SyncSwitch :=
  ⟨⟨numNodes, false, false, false, maxTick, maxTick, false⟩, 0, 0, 0, numNodes⟩

def answer (doIt : Bool) : ReqType := if doIt then .immediate else .none

/-- `run`, after the wait: the acknowledgement that is sent, unless the barrier was aborted. -/
def run (s : SyncSwitch) (sameTick : Bool) (curTick : ℕ) : Result (Option Header × SyncSwitch) := do
  require (s.waitNum = 0) (.assertion "waitNum == 0")
  if s.isAbort then return (none, s)
  require (sameTick = false ∨ s.nextAt = curTick)
    (.assertion "!same_tick || (nextAt == curTick())")
  let doCkpt : Bool := s.doCkpt || s.numCkptReq = s.numNodes
  let doExit : Bool := s.doExit || s.numExitReq = s.numNodes
  let doStopSync : Bool := s.doStopSync || s.numStopSyncReq = s.numNodes
  return (some ⟨s.nextAt, s.nextRepeat, answer doCkpt, answer doStopSync, answer doExit⟩,
    { s with
      waitNum := s.numNodes
      doCkpt, doExit, doStopSync
      numCkptReq := if doCkpt then 0 else s.numCkptReq
      numStopSyncReq := if doStopSync then 0 else s.numStopSyncReq })

def progress (s : SyncSwitch) (h : Header) : Result (Bool × SyncSwitch) := do
  if s.isAbort then return (false, s)
  require (0 < s.waitNum) (.assertion "waitNum > 0")
  return (true,
    { s with
      nextAt := if h.sendTick > s.nextAt then h.sendTick else s.nextAt
      nextRepeat := if s.nextRepeat > h.syncRepeat then h.syncRepeat else s.nextRepeat
      numCkptReq := if h.needCkpt = .collective then s.numCkptReq + 1 else s.numCkptReq
      doCkpt := h.needCkpt = .immediate || s.doCkpt
      numExitReq := if h.needExit = .collective then s.numExitReq + 1 else s.numExitReq
      doExit := h.needExit = .immediate || s.doExit
      numStopSyncReq :=
        if h.needStopSync = .collective then s.numStopSyncReq + 1 else s.numStopSyncReq
      doStopSync := h.needStopSync = .immediate || s.doStopSync
      waitNum := s.waitNum - 1 })

end SyncSwitch

end ChipletGem5.DistIface
