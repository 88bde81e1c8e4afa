import ChipletGem5.Base.IntMath
import ChipletGem5.Lib.Exec
import ChipletGem5.Lib.Result

/-!
# The bridge

`Bridge` (mem/bridge.cc) forwards requests from its slave port to its master port and responses
back, through two queues with a delay.  A request is accepted if there is room in the request queue
and, where it expects a response, room for the response as well; otherwise the sender is told to
wait, and gets a retry after a packet has left the bridge.

A peer may call the bridge again before its own function returns, so `trySendTiming` is modelled in
two steps: the call of the peer, and what is done when the peer returns.  Ticks are natural numbers;
in the source they have 64 bits and do not get that far.
-/

namespace ChipletGem5

open List

namespace Bridge

/-- A packet, with what the bridge reads of it. -/
structure Packet where
  /-- A number for the object; a response has that of its request. -/
  id : ℕ
  needsResponse : Bool
  cacheResponding : Bool
  headerDelay : BitVec 32
  payloadDelay : BitVec 32
deriving DecidableEq

/-- The packet without its delays, which the bridge takes over. -/
def Packet.received (pkt : Packet) : Packet := { pkt with headerDelay := 0, payloadDelay := 0 }

/-- A packet and the tick to send it at. -/
structure DeferredPacket where
  tick : ℕ
  pkt : Packet
deriving DecidableEq

/-- The queue of a port with its event. -/
structure SendPort where
  transmitList : List DeferredPacket
  /-- The time that `sendEvent` is scheduled for. -/
  sendEvent : Option ℕ
deriving DecidableEq

structure Params where
  reqQueueLimit : ℕ
  respQueueLimit : ℕ
  /-- The delay, in cycles. -/
  delay : ℕ
  clockPeriod : ℕ
  reqQueueLimit_pos : 0 < reqQueueLimit
  respQueueLimit_pos : 0 < respQueueLimit
  clockPeriod_pos : 0 < clockPeriod

end Bridge

open Bridge

/-- A bridge, with one queue for each direction. -/
structure Bridge where
  /-- The queue of requests. -/
  masterPort : SendPort
  /-- The queue of responses. -/
  slavePort : SendPort
  outstandingResponses : ℕ
  retryReq : Bool
  /-- The clock edge of the last `Clocked::update`. -/
  tick : ℕ
  /-- The number of calls of `sendRetryReq`. -/
  retries : ℕ
deriving DecidableEq

namespace Bridge

variable (c : Params) (b : Bridge) (curTick : ℕ)

/-! ### Events and the clock -/

/-- `Clocked::update`: the clock edge for the current tick, from the one of the last update. -/
def Params.edge (tick : ℕ) : ℕ :=
  if curTick ≤ tick then tick
  else if curTick ≤ tick + c.clockPeriod then tick + c.clockPeriod
  else
    tick + c.clockPeriod +
      divCeil (curTick - (tick + c.clockPeriod)) c.clockPeriod * c.clockPeriod

def update : Bridge := { b with tick := c.edge curTick b.tick }

/-- `Clocked::clockEdge`, after `update`. -/
def clockEdge (cycles : ℕ) : ℕ := b.tick + c.clockPeriod * cycles

namespace SendPort

variable (p : SendPort)

/-- `schedule`, for the event of a port. -/
def schedule (when : ℕ) : Result SendPort := do
  require (curTick ≤ when) (.assertion "when >= getCurTick()")
  require p.sendEvent.isNone (.assertion "!event->scheduled()")
  return { p with sendEvent := some when }

/-- The event for a packet that comes to the head of the queue. -/
def scheduleFirst (when : ℕ) : Result SendPort :=
  if p.transmitList = [] then p.schedule curTick when else .ok p

/-- `trySendTiming`, up to the call of the peer. -/
def trySendTiming : Result SendPort :=
  match p.transmitList with
  | [] => .error (.assertion "!transmitList.empty()")
  | d :: _ => do
      require (d.tick ≤ curTick) (.assertion "req.tick <= curTick()")
      return p

def fire : SendPort := { p with sendEvent := none }

end SendPort

/-- The event for the next packet, when one has been sent. -/
def scheduleNext (p : SendPort) : Result (Bridge × SendPort) :=
  match p.transmitList with
  | [] => .ok (b, p)
  | d :: _ => do
      let b := b.update c curTick
      let p ← p.schedule curTick (max d.tick (b.clockEdge c 0))
      return (b, p)

/-! ### Requests -/

def reqQueueFull : Bool := b.masterPort.transmitList.length = c.reqQueueLimit

def respQueueFull : Bool := b.outstandingResponses = c.respQueueLimit

/-- The time at which a packet is ready; the delays are added in 32 bits. -/
def readyTick (pkt : Packet) : ℕ :=
  b.clockEdge c c.delay + (pkt.headerDelay + pkt.payloadDelay).toNat

def schedTimingReq (pkt : Packet) (when : ℕ) : Result Bridge := do
  let p ← b.masterPort.scheduleFirst curTick when
  require (p.transmitList.length != c.reqQueueLimit)
    (.assertion "transmitList.size() != reqQueueLimit")
  return { b with masterPort := { p with transmitList := p.transmitList ++ [⟨when, pkt⟩] } }

/-- The room for the response to a request. -/
def reserve (pkt : Packet) : Result Bridge :=
  if pkt.needsResponse then do
    require (b.outstandingResponses != c.respQueueLimit)
      (.assertion "outstandingResponses != respQueueLimit")
    return { b with outstandingResponses := b.outstandingResponses + 1 }
  else .ok b

/-- `recvTimingReq`: is the request accepted? -/
def recvTimingReq (pkt : Packet) : Result (Bool × Bridge) := do
  require (!pkt.cacheResponding) (.panic "Should not see packets where cache is responding")
  if b.retryReq then return (false, b)
  if b.reqQueueFull c || pkt.needsResponse && b.respQueueFull c then
    return (false, { b with retryReq := true })
  let b ← b.reserve c pkt
  let b := b.update c curTick
  let b ← b.schedTimingReq c curTick pkt.received (b.readyTick c pkt)
  return (true, b)

def retryStalledReq : Bridge :=
  if b.retryReq then { b with retryReq := false, retries := b.retries + 1 } else b

/-- `BridgeMasterPort::trySendTiming`, when the peer has taken the packet. -/
def reqSent : Result Bridge := do
  let p := { b.masterPort with transmitList := b.masterPort.transmitList.tail }
  let (b, p) ← b.scheduleNext c curTick p
  return { b with masterPort := p }.retryStalledReq

/-! ### Responses -/

/-- `recvTimingResp`, with `schedTimingResp`. -/
def recvTimingResp (pkt : Packet) : Result Bridge := do
  let b := b.update c curTick
  let when := b.readyTick c pkt
  let p ← b.slavePort.scheduleFirst curTick when
  return { b with
    slavePort := { p with transmitList := p.transmitList ++ [⟨when, pkt.received⟩] } }

/-- `BridgeSlavePort::trySendTiming`, when the peer has taken the packet. -/
def respSent : Result Bridge := do
  let p := { b.slavePort with transmitList := b.slavePort.transmitList.tail }
  require (b.outstandingResponses != 0) (.assertion "outstandingResponses != 0")
  let b := { b with outstandingResponses := b.outstandingResponses - 1 }
  let (b, p) ← b.scheduleNext c curTick p
  let b := { b with slavePort := p }
  return if b.reqQueueFull c then b else b.retryStalledReq

def init : Bridge := ⟨⟨[], none⟩, ⟨[], none⟩, 0, false, 0, 0⟩

/-! ### Runs -/

/-- What has happened between a port and its peer. -/
structure Peer where
  /-- The bridge has called the peer, which has not returned. -/
  sending : Bool
  /-- The peer has refused a packet and not called for a retry since. -/
  waiting : Bool
  /-- The packets that have come and were accepted, with the time at which they are ready. -/
  entered : List DeferredPacket
  /-- The packets that the peer has taken, with the time. -/
  left : List (ℕ × DeferredPacket)
deriving DecidableEq

/-- A bridge with the time and its history. -/
structure System where
  bridge : Bridge
  curTick : ℕ
  /-- The requests. -/
  req : Peer
  /-- The responses. -/
  resp : Peer
deriving DecidableEq

/-- What the ports and events of a bridge do. -/
inductive Action where
  /-- Time goes on. -/
  | advance (tick : ℕ)
  | recvTimingReq (pkt : Packet)
  | recvTimingResp (pkt : Packet)
  /-- The event of the master port goes off. -/
  | reqSendEvent
  /-- The peer of the master port asks for a retry. -/
  | recvReqRetry
  /-- The peer of the master port returns. -/
  | reqReturned (accepted : Bool)
  /-- The event of the slave port goes off. -/
  | respSendEvent
  /-- The peer of the slave port asks for a retry. -/
  | recvRespRetry
  /-- The peer of the slave port returns. -/
  | respReturned (accepted : Bool)

namespace Peer

/-- A packet has come. -/
def enter (h : Peer) (d : DeferredPacket) : Peer := { h with entered := h.entered ++ [d] }

/-- The bridge calls the peer. -/
def call (h : Peer) : Peer := { h with sending := true, waiting := false }

/-- The peer has taken the first packet of the queue. -/
def take (h : Peer) (p : SendPort) (curTick : ℕ) : Peer :=
  { h with
    sending := false
    left := h.left ++ p.transmitList.head?.toList.map (curTick, ·) }

def refuse (h : Peer) : Peer := { h with sending := false, waiting := true }

end Peer

/-- A packet that comes now: it is ready after the delay of the bridge from the next clock edge on,
and after its own delays. -/
def System.arrival (s : System) (pkt : Packet) : DeferredPacket :=
  ⟨c.edge s.curTick s.bridge.tick + c.clockPeriod * c.delay +
    (pkt.headerDelay + pkt.payloadDelay).toNat, pkt.received⟩

def System.step (s : System) : Action → Result System
  | .advance tick => .ok { s with curTick := tick }
  | .recvTimingReq pkt => do
      let (accepted, b) ← s.bridge.recvTimingReq c s.curTick pkt
      return { s with
        bridge := b
        req := if accepted then s.req.enter (s.arrival c pkt) else s.req }
  | .recvTimingResp pkt => do
      let b ← s.bridge.recvTimingResp c s.curTick pkt
      return { s with bridge := b, resp := s.resp.enter (s.arrival c pkt) }
  | .reqSendEvent => do
      let p ← s.bridge.masterPort.fire.trySendTiming s.curTick
      return { s with bridge := { s.bridge with masterPort := p }, req := s.req.call }
  | .recvReqRetry => do
      let p ← s.bridge.masterPort.trySendTiming s.curTick
      return { s with bridge := { s.bridge with masterPort := p }, req := s.req.call }
  | .reqReturned false => .ok { s with req := s.req.refuse }
  | .reqReturned true => do
      let b ← s.bridge.reqSent c s.curTick
      return { s with bridge := b, req := s.req.take s.bridge.masterPort s.curTick }
  | .respSendEvent => do
      let p ← s.bridge.slavePort.fire.trySendTiming s.curTick
      return { s with bridge := { s.bridge with slavePort := p }, resp := s.resp.call }
  | .recvRespRetry => do
      let p ← s.bridge.slavePort.trySendTiming s.curTick
      return { s with bridge := { s.bridge with slavePort := p }, resp := s.resp.call }
  | .respReturned false => .ok { s with resp := s.resp.refuse }
  | .respReturned true => do
      let b ← s.bridge.respSent c s.curTick
      return { s with bridge := b, resp := s.resp.take s.bridge.slavePort s.curTick }

def System.init : System := ⟨Bridge.init, 0, ⟨false, false, [], []⟩, ⟨false, false, [], []⟩⟩

/-- The objects of requests that expect a response. -/
def expecting (l : List DeferredPacket) : List ℕ :=
  (l.filter (·.pkt.needsResponse)).map (·.pkt.id)

/-- What peers and the event queue may do: time does not pass an event nor goes on while a peer is
called; a response belongs to a request that has been forwarded and expects one, and comes once;
an event goes off at its time; a peer that has refused a packet asks for one retry. -/
def Permitted (s : System) : Action → Prop
  | .advance tick => s.curTick ≤ tick ∧ (∀ t ∈ s.bridge.masterPort.sendEvent, tick ≤ t) ∧
      (∀ t ∈ s.bridge.slavePort.sendEvent, tick ≤ t) ∧ s.req.sending = false ∧
      s.resp.sending = false
  | .recvTimingReq pkt => pkt.cacheResponding = false
  | .recvTimingResp pkt => (s.resp.entered.map (·.pkt.id)).count pkt.id <
      (expecting (s.req.left.map Prod.snd)).count pkt.id
  | .reqSendEvent => s.bridge.masterPort.sendEvent = some s.curTick
  | .recvReqRetry => s.req.waiting
  | .reqReturned _ => s.req.sending
  | .respSendEvent => s.bridge.slavePort.sendEvent = some s.curTick
  | .recvRespRetry => s.resp.waiting
  | .respReturned _ => s.resp.sending

instance (s : System) (a : Action) : Decidable (Permitted s a) := by
  cases a <;> dsimp only [Permitted] <;> infer_instance

variable {c b curTick} {p : SendPort} {h : Peer} {pkt : Packet} {when : ℕ} {s s' : System}

/-! ### One port -/

/-- The packets in the queue are those that have entered and not left, and none has left before
its tick.  If the queue is not empty, its head waits for the event, which is not before the tick of
the packet, or for the peer. -/
structure Side (p : SendPort) (h : Peer) (curTick : ℕ) : Prop where
  order : h.entered = h.left.map Prod.snd ++ p.transmitList
  onTime : ∀ x ∈ h.left, x.2.tick ≤ x.1
  idle : p.transmitList = [] → p.sendEvent = none ∧ h.sending = false ∧ h.waiting = false
  busy : ∀ d l, p.transmitList = d :: l →
    (∃ t, p.sendEvent = some t ∧ curTick ≤ t ∧ d.tick ≤ t ∧ h.sending = false ∧
      h.waiting = false) ∨
    p.sendEvent = none ∧ d.tick ≤ curTick ∧ h.sending = !h.waiting

lemma le_edge (c : Params) (curTick tick : ℕ) : curTick ≤ c.edge curTick tick := by
  unfold Params.edge
  split_ifs with h h'
  · exact h
  · exact h'
  · have hle := le_divCeil_mul (curTick - (tick + c.clockPeriod)) c.clockPeriod_pos
    omega

lemma SendPort.schedule_ok (hw : curTick ≤ when) (he : p.sendEvent = none) :
    p.schedule curTick when = .ok { p with sendEvent := some when } := by
  simp [SendPort.schedule, require, hw, he]

namespace Side

section

variable (hs : Side p h curTick)
include hs

lemma advance {tick : ℕ} (hle : curTick ≤ tick)
    (he : ∀ t ∈ p.sendEvent, tick ≤ t) : Side p h tick := by
  refine { hs with busy := fun d l hl => ?_ }
  obtain ⟨t, ht, -, hd, hrest⟩ | ⟨ht, hd, hrest⟩ := hs.busy d l hl
  · exact .inl ⟨t, ht, he t ht, hd, hrest⟩
  · exact .inr ⟨ht, hd.trans hle, hrest⟩

/-- A packet is put into the queue, with an event if there is none before it. -/
lemma push (hw : curTick ≤ when) (pkt : Packet) :
    ∃ p', p.scheduleFirst curTick when = .ok p' ∧ p'.transmitList = p.transmitList ∧
      Side { p' with transmitList := p'.transmitList ++ [⟨when, pkt⟩] }
        (h.enter ⟨when, pkt⟩) curTick := by
  have horder := hs.order
  unfold SendPort.scheduleFirst
  rcases hl : p.transmitList with _ | ⟨d, l⟩
  · obtain ⟨he, hsend, hwait⟩ := hs.idle hl
    rw [SendPort.schedule_ok hw he]
    refine ⟨_, rfl, hl, ⟨?_, hs.onTime, by simp, ?_⟩⟩
    · simp [Peer.enter, horder, hl]
    · intro d l hdl
      simp only [hl, nil_append, cons.injEq] at hdl
      obtain ⟨rfl, -⟩ := hdl
      exact .inl ⟨when, rfl, hw, le_rfl, hsend, hwait⟩
  · refine ⟨p, rfl, hl, ⟨?_, hs.onTime, by simp, ?_⟩⟩
    · simp [Peer.enter, horder, hl]
    · intro d' l' hdl
      simp only [hl, cons_append, cons.injEq] at hdl
      obtain ⟨rfl, -⟩ := hdl
      exact hs.busy d l hl

lemma fire (he : p.sendEvent = some curTick) :
    p.fire.trySendTiming curTick = .ok p.fire ∧ Side p.fire h.call curTick := by
  rcases hl : p.transmitList with _ | ⟨d, l⟩
  · rw [(hs.idle hl).1] at he
    cases he
  · have hready : d.tick ≤ curTick := by
      obtain ⟨t, ht, -, hd, -⟩ | ⟨ht, hd, -⟩ := hs.busy d l hl
      · cases he.symm.trans ht
        exact hd
      · exact hd
    refine ⟨?_, ⟨hs.order, hs.onTime, fun hnil => ?_, fun d' l' hl' => ?_⟩⟩
    · simp [SendPort.trySendTiming, SendPort.fire, hl, require, hready]
    · simp [SendPort.fire, hl] at hnil
    · obtain ⟨rfl, -⟩ := cons.inj (hl.symm.trans hl')
      exact .inr ⟨rfl, hready, rfl⟩

lemma retry (hw : h.waiting) : p.trySendTiming curTick = .ok p ∧ Side p h.call curTick := by
  rcases hl : p.transmitList with _ | ⟨d, l⟩
  · rw [(hs.idle hl).2.2] at hw
    cases hw
  · obtain ⟨he, hready⟩ : p.sendEvent = none ∧ d.tick ≤ curTick := by
      obtain ⟨t, -, -, -, -, hwait⟩ | ⟨he, hd, -⟩ := hs.busy d l hl
      · rw [hwait] at hw
        cases hw
      · exact ⟨he, hd⟩
    refine ⟨?_, ⟨hs.order, hs.onTime, fun hnil => ?_, fun d' l' hl' => ?_⟩⟩
    · simp [SendPort.trySendTiming, hl, require, hready]
    · simp [hl] at hnil
    · obtain ⟨rfl, -⟩ := cons.inj (hl.symm.trans hl')
      exact .inr ⟨he, hready, rfl⟩

lemma head_of_sending (hsend : h.sending) :
    ∃ d l, p.transmitList = d :: l ∧ p.sendEvent = none ∧ d.tick ≤ curTick ∧
      h.waiting = false := by
  rcases hl : p.transmitList with _ | ⟨d, l⟩
  · rw [(hs.idle hl).2.1] at hsend
    cases hsend
  · obtain ⟨t, -, -, -, hno, -⟩ | ⟨he, hd, hxor⟩ := hs.busy d l hl
    · rw [hno] at hsend
      cases hsend
    · rw [hsend] at hxor
      exact ⟨d, l, rfl, he, hd, by simpa using hxor⟩

lemma refuse (hsend : h.sending) : Side p h.refuse curTick := by
  obtain ⟨d, l, hl, he, hd, -⟩ := hs.head_of_sending hsend
  refine ⟨hs.order, hs.onTime, fun hnil => ?_, fun d' l' hl' => ?_⟩
  · simp [hl] at hnil
  · obtain ⟨rfl, -⟩ := cons.inj (hl.symm.trans hl')
    exact .inr ⟨he, hd, rfl⟩

lemma take (hsend : h.sending) (b : Bridge) :
    ∃ t p', b.scheduleNext c curTick { p with transmitList := p.transmitList.tail } =
        .ok ({ b with tick := t }, p') ∧ p'.transmitList = p.transmitList.tail ∧
      Side p' (h.take p curTick) curTick := by
  obtain ⟨d, l, hl, he, hd, hwait⟩ := hs.head_of_sending hsend
  have horder : (h.take p curTick).entered =
      (h.take p curTick).left.map Prod.snd ++ p.transmitList.tail := by
    simp [Peer.take, hs.order, hl]
  have honTime : ∀ x ∈ (h.take p curTick).left, x.2.tick ≤ x.1 := by
    intro x hx
    simp only [Peer.take, hl, head?_cons, Option.toList_some, map_cons, map_nil,
      mem_append, mem_singleton] at hx
    obtain hx | rfl := hx
    · exact hs.onTime x hx
    · exact hd
  unfold scheduleNext
  rw [hl] at horder ⊢
  rcases l with _ | ⟨d', l'⟩
  · refine ⟨b.tick, _, rfl, rfl, ⟨horder, honTime, fun _ => ⟨he, rfl, hwait⟩, nofun⟩⟩
  · have hmax : curTick ≤ max d'.tick ((b.update c curTick).clockEdge c 0) :=
      le_max_of_le_right (le_edge c curTick b.tick)
    have hsched := SendPort.schedule_ok (p := ⟨d' :: l', p.sendEvent⟩) hmax he
    simp only [tail_cons, hsched]
    refine ⟨c.edge curTick b.tick, _, rfl, rfl,
      ⟨horder, honTime, nofun, fun d'' l'' hl'' => ?_⟩⟩
    obtain ⟨rfl, -⟩ := cons.inj hl''
    exact .inl ⟨_, rfl, hmax, le_max_left _ _, rfl, hwait⟩

end

end Side

end Bridge

end ChipletGem5
