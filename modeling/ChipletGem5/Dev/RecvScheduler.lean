import ChipletGem5.Base.Types
import ChipletGem5.Lib.Result

/-!
# Packets that are pending at a checkpoint

`DistIface::RecvScheduler` (dev/net/dist_iface.cc) keeps the packets that wait to be received by a
simulated link.  When a checkpoint has been restored, `resumeRecvTicks` gives all of them the same
send tick.  But each packet needs a receive window that starts when the packet before it has been
received.  So the third packet already finds no window, unless the second one takes no time.  Ticks
have 64 bits, and the result is about schedules in which none of them overflows.
-/

namespace ChipletGem5.DistIface

structure EthPacketData where
  data : List UInt8
  simLength : BitVec 32

/-- A received packet with its time of sending. -/
structure Desc where
  packet : EthPacketData
  sendTick : Tick
  sendDelay : Tick

/-- The descriptor after a restore: a byte takes one tick at most. -/
def Desc.resume (curTick : Tick) (d : Desc) : Desc :=
  { d with sendTick := curTick, sendDelay := d.packet.simLength.setWidth 64 }

/-- The packets that wait for their receive tick. -/
structure RecvScheduler where
  descQueue : List Desc
  prevRecvTick : Tick
  linkDelay : Tick
  /-- The tick for which the event is scheduled. -/
  recvDone : Option Tick
  ckptRestore : Bool

namespace RecvScheduler

/-- What `serialize` writes, with the event, which the link writes. -/
structure Checkpoint where
  prevRecvTick : Tick
  /-- The sections `rxDesc_0`, `rxDesc_1` and so on. -/
  rxDesc : List Desc
  eventTime : Option Tick

variable (s : RecvScheduler) (curTick : Tick)

def serialize : Checkpoint := ⟨s.prevRecvTick, s.descQueue, s.recvDone⟩

/-- `unserialize`, and the event that the link schedules afterwards. -/
def unserialize (cp : Checkpoint) : Result RecvScheduler := do
  require (s.descQueue.length = 0) (.assertion "descQueue.size() == 0")
  require s.recvDone.isNone (.assertion "!recvDone->scheduled()")
  require (!s.ckptRestore) (.assertion "!ckptRestore")
  return { s with
    prevRecvTick := cp.prevRecvTick
    descQueue := cp.rxDesc
    recvDone := cp.eventTime
    ckptRestore := true }

def calcReceiveTick (sendTick sendDelay prevRecvTick : Tick) : Result Tick := do
  let recvTick := sendTick + sendDelay + s.linkDelay
  require (recvTick ≥ prevRecvTick + sendDelay)
    (.assertion "recv_tick >= prev_recv_tick + send_delay")
  require (¬ prevRecvTick + sendDelay > recvTick)
    (.panic "Receive window is smaller than send delay")
  require (¬ recvTick ≤ curTick)
    (.panic "Simulators out of sync - missed packet receive by %llu ticks")
  return recvTick

def resumeRecvTicks : Result RecvScheduler :=
  if !s.ckptRestore then .ok s
  else do
    let v := s.descQueue.map (·.resume curTick)
    if s.recvDone.isSome then
      require (!v.isEmpty) (.assertion "!descQueue.empty()")
      return { s with descQueue := v, recvDone := some curTick, ckptRestore := false }
    else
      require v.isEmpty (.assertion "descQueue.empty() && v.empty()")
      return { s with descQueue := v, ckptRestore := false }

def popPacket : Result (EthPacketData × RecvScheduler) :=
  match s.descQueue with
  | [] => .error (.undefined "descQueue.front()")
  | [d] => .ok (d.packet, { s with descQueue := [], prevRecvTick := curTick })
  | d :: d' :: ds => do
    let recvTick ← s.calcReceiveTick curTick d'.sendTick d'.sendDelay curTick
    return (d.packet,
      { s with descQueue := d' :: ds, recvDone := some recvTick, prevRecvTick := curTick })

/-- The packets that are received at the next `n` events, with their ticks. -/
def receive (s : RecvScheduler) : ℕ → Result (List (EthPacketData × Tick))
  | 0 => .ok []
  | n + 1 =>
    match s.recvDone with
    | none => .ok []
    | some tick => do
      let (packet, s) ← { s with recvDone := none }.popPacket tick
      let rest ← s.receive n
      return (packet, tick) :: rest

/-- Restore a checkpoint with another link delay, and receive the packets that were pending. -/
def restore (linkDelay : Tick) : Result (List (EthPacketData × Tick)) := do
  let r ← (⟨[], 0, linkDelay, none, false⟩ : RecvScheduler).unserialize s.serialize
  let r ← r.resumeRecvTicks curTick
  r.receive s.descQueue.length

/-- The pending packets are received in their order. -/
def Delivered (linkDelay : Tick) : Prop :=
  ∃ log, s.restore curTick linkDelay = .ok log ∧ log.map Prod.fst = s.descQueue.map Desc.packet ∧
    (log.map Prod.snd).Pairwise (· ≤ ·)

/-- The lengths of the pending packets for which there is always a receive window. -/
def Fits (linkDelay : Tick) : List (BitVec 32) → Prop
  | [] | [_] => True
  | [_, a] => a ≠ 0 ∨ linkDelay ≠ 0
  | [_, a, b] => a = 0 ∧ linkDelay ≠ 0 ∧ b ≠ 0
  | _ => False

/-- The scheduler after the restore, when the first of some packets is to be received. -/
def waiting (linkDelay prevRecvTick tick : Tick) (ds : List Desc) : RecvScheduler :=
  ⟨ds.map (·.resume curTick), prevRecvTick, linkDelay, some tick, false⟩

variable {curTick} {linkDelay prev tick : Tick} {n : ℕ} {d d' : Desc} {ds : List Desc}
  {log : List (EthPacketData × Tick)}

/-- A packet is received if there is a window for the next one, whose tick does not overflow. -/
lemma receive_waiting_iff
    (hfit : tick.toNat + d'.packet.simLength.toNat < 2 ^ 64)
    (hfit' : curTick.toNat + linkDelay.toNat + d'.packet.simLength.toNat < 2 ^ 64) :
    (waiting curTick linkDelay prev tick (d :: d' :: ds)).receive (n + 1) = .ok log ↔
      (tick.toNat ≤ curTick.toNat + linkDelay.toNat ∧
        tick.toNat < curTick.toNat + d'.packet.simLength.toNat + linkDelay.toNat) ∧
        ∃ rest, (waiting curTick linkDelay tick
          (curTick + d'.packet.simLength.setWidth 64 + linkDelay) (d' :: ds)).receive n = .ok rest ∧
          (d.packet, tick) :: rest = log := by
  have hlen := d'.packet.simLength.isLt
  have hwindow : curTick + d'.packet.simLength.setWidth 64 + linkDelay ≥
      tick + d'.packet.simLength.setWidth 64 ↔
      tick.toNat ≤ curTick.toNat + linkDelay.toNat := by bv_omega
  have hlate : curTick + d'.packet.simLength.setWidth 64 + linkDelay ≤ tick ↔
      ¬ tick.toNat < curTick.toNat + d'.packet.simLength.toNat + linkDelay.toNat := by bv_omega
  simp [receive, waiting, popPacket, calcReceiveTick, Desc.resume, bind_eq_ok, require_eq_ok,
    hwindow, hlate, and_assoc]

lemma receive_last :
    (waiting curTick linkDelay prev tick [d]).receive 1 = .ok [(d.packet, tick)] := rfl

/-- If no tick overflows, the pending packets are delivered exactly if there are at most two of
them, or three of which the second takes no time. -/
theorem delivered_iff (s : RecvScheduler) (curTick linkDelay : Tick)
    (hfit : curTick.toNat + linkDelay.toNat +
      (s.descQueue.map fun d => d.packet.simLength.toNat).sum < 2 ^ 64) :
    s.Delivered curTick linkDelay ↔ (s.recvDone.isSome ↔ s.descQueue ≠ []) ∧
      Fits linkDelay (s.descQueue.map fun d => d.packet.simLength) := by
  obtain ⟨ds, prev, delay, _ | t, restored⟩ := s
  · rcases ds with _ | ⟨d, ds⟩ <;>
      simp [Delivered, restore, unserialize, serialize, resumeRecvTicks, require, receive, Fits]
  rcases ds with _ | ⟨d, ds⟩
  · simp [Delivered, restore, unserialize, serialize, resumeRecvTicks, require]
  have hrun : restore ⟨d :: ds, prev, delay, some t, restored⟩ curTick linkDelay =
      (waiting curTick linkDelay prev curTick (d :: ds)).receive (ds.length + 1) := rfl
  simp only [Delivered, hrun]
  rcases ds with _ | ⟨d2, ds⟩
  · simp [receive_last, Fits]
  simp only [List.map_cons, List.sum_cons] at hfit
  have hfit2 : curTick.toNat + d2.packet.simLength.toNat < 2 ^ 64 := by omega
  have hdelay2 : curTick.toNat + linkDelay.toNat + d2.packet.simLength.toNat < 2 ^ 64 := by omega
  simp only [List.length_cons, receive_waiting_iff hfit2 hdelay2]
  rcases ds with _ | ⟨d3, ds⟩
  · simp [receive_last, Fits]
    bv_omega
  simp only [List.map_cons, List.sum_cons] at hfit
  have hlen2 := d2.packet.simLength.isLt
  have htick : (curTick + d2.packet.simLength.setWidth 64 + linkDelay).toNat =
      curTick.toNat + d2.packet.simLength.toNat + linkDelay.toNat := by bv_omega
  have hfit3 : (curTick + d2.packet.simLength.setWidth 64 + linkDelay).toNat +
      d3.packet.simLength.toNat < 2 ^ 64 := by omega
  have hdelay3 : curTick.toNat + linkDelay.toNat + d3.packet.simLength.toNat < 2 ^ 64 := by omega
  simp only [List.length_cons, receive_waiting_iff hfit3 hdelay3, htick]
  rcases ds with _ | ⟨d4, ds⟩
  · simp [receive_last, Fits]
    bv_omega
  -- the second packet would have to take no time, and the third some but none as well
  refine iff_of_false ?_ (by simp [Fits])
  rintro ⟨log, ⟨-, rest2, ⟨⟨h2, h3⟩, rest3, h4, -⟩, -⟩, -⟩
  simp only [List.map_cons, List.sum_cons] at hfit
  have hlen3 := d3.packet.simLength.isLt
  have htick3 : (curTick + d3.packet.simLength.setWidth 64 + linkDelay).toNat =
      curTick.toNat + d3.packet.simLength.toNat + linkDelay.toNat := by bv_omega
  rw [List.length_cons, receive_waiting_iff (by omega) (by omega)] at h4
  omega

/-- Two packets of one byte, the second of which is received eleven ticks after the restore. -/
theorem delivered_iff_two :
    Delivered ⟨List.replicate 2 ⟨⟨[0], 1⟩, 1, 1⟩, 0, 10, some 12, false⟩ 5 10 :=
  (delivered_iff _ 5 10 (by decide)).2 ⟨by simp, by simp [Fits]⟩

/-- Three packets of one byte. -/
theorem not_delivered_three :
    ¬ Delivered ⟨List.replicate 3 ⟨⟨[0], 1⟩, 1, 1⟩, 0, 10, some 12, false⟩ 5 10 := by
  rintro ⟨log, hlog, -⟩
  cases hlog

end RecvScheduler

end ChipletGem5.DistIface
