import ChipletGem5.Lib.Exec
import ChipletGem5.Mem.Packet

/-!
# Packet queues

`PacketQueue` of `mem/packet_queue.cc` holds packets back until their tick and sends them
through a port.  The port may refuse a packet, and then calls `retry` later on; a port that
accepts one may, before it returns, put further packets into the same queue.  `Safe` says of the
states between the calls that the event is scheduled whenever there is something to send and no
retry is due, and that no packet is lost, sent twice or sent early.

There is one packet that the queue forgets: `schedSendEvent` takes `MaxTick` to mean that there
is nothing to send.
-/

namespace ChipletGem5.PacketQueue

/-! ### The model -/

/-- The latest tick; here it stands for no tick at all. -/
def MaxTick : Tick := 0xffffffffffffffff

/-- A pointer to a packet, with what the queue reads of the packet. -/
structure PacketPtr where
  ptr : ℕ
  addr : Addr
  isSecure : Bool
  isExpressSnoop : Bool
deriving DecidableEq, Repr

def PacketPtr.matchAddr (p pkt : PacketPtr) : Bool :=
  p.addr == pkt.addr && p.isSecure == pkt.isSecure

structure DeferredPacket where
  tick : Tick
  pkt : PacketPtr
deriving DecidableEq, Repr

inductive DrainState where
  | running
  | draining
  | drained
  | resuming
deriving DecidableEq, Repr

end PacketQueue

/-- A queue of timed packets with its send event. -/
structure PacketQueue where
  transmitList : List PacketQueue.DeferredPacket
  /-- The time that `sendEvent` is scheduled for. -/
  sendEvent : Option Tick
  disableSanityCheck : Bool
  forceOrder : Bool
  waitingOnRetry : Bool
  drainState : PacketQueue.DrainState
deriving DecidableEq, Repr

namespace PacketQueue

open List

variable (q : PacketQueue)

def deferredPacketReady (curTick : Tick) : Bool :=
  match q.transmitList with
  | [] => false
  | dp :: _ => decide (dp.tick ≤ curTick)

def deferredPacketReadyTime : Tick :=
  match q.transmitList with
  | [] => MaxTick
  | dp :: _ => dp.tick

/-- `EventManager::schedule` and `reschedule` of the send event, with the assertion on the time
that both make. -/
def scheduleAt (curTick when : Tick) : Result PacketQueue := do
  require (decide (curTick ≤ when)) (.assertion "when >= getCurTick()")
  return { q with sendEvent := some when }

/-- `Drainable::signalDrainDone`, and the branch of `schedSendEvent` that calls it. -/
def checkDrained : PacketQueue :=
  if q.drainState = .draining ∧ q.transmitList = [] ∧ q.sendEvent = none then
    { q with drainState := .drained }
  else q

/-- The time `std::max(when, curTick() + 1)`. -/
def sendTime (curTick when : Tick) : Tick := if when < curTick + 1 then curTick + 1 else when

def schedSendEvent (curTick when : Tick) : Result PacketQueue :=
  if q.waitingOnRetry then do
    require q.sendEvent.isNone (.assertion "!sendEvent.scheduled()")
    return q
  else if when ≠ MaxTick then
    match q.sendEvent with
    | none => q.scheduleAt curTick (sendTime curTick when)
    | some t =>
        if sendTime curTick when < t then q.scheduleAt curTick (sendTime curTick when) else .ok q
  else .ok q.checkDrained

/-- The search of `schedSendTiming`, from the end of the list, for a packet to insert behind;
`none` if there is none. -/
def emplace (forceOrder : Bool) (dp : DeferredPacket) :
    List DeferredPacket → Option (List DeferredPacket)
  | [] => none
  | it :: l =>
      match emplace forceOrder dp l with
      | some l' => some (it :: l')
      | none =>
          if (forceOrder && it.pkt.matchAddr dp.pkt) || decide (it.tick ≤ dp.tick) then
            some (it :: dp :: l)
          else none

def schedSendTiming (curTick : Tick) (dp : DeferredPacket) : Result PacketQueue := do
  require (decide (curTick ≤ dp.tick)) (.assertion "when >= curTick()")
  require (!dp.pkt.isExpressSnoop) (.assertion "!pkt->isExpressSnoop()")
  require (q.disableSanityCheck || decide (q.transmitList.length ≤ 100))
    (.panic "Packet queue %s has grown beyond 100 packets\n")
  match emplace q.forceOrder dp q.transmitList with
  | some l => return { q with transmitList := l }
  | none =>
      ({ q with transmitList := dp :: q.transmitList } : PacketQueue).schedSendEvent curTick
        dp.tick

/-- What a call of `sendTiming` does: the packets that are put into the queue before it returns,
and what it returns. -/
structure SendTiming where
  enqueues : List DeferredPacket
  success : Bool
deriving DecidableEq, Repr

/-- The calls of `schedSendTiming` made by the receiver of a packet. -/
def schedAll (curTick : Tick) : List DeferredPacket → PacketQueue → Result PacketQueue
  | [], q => .ok q
  | dp :: dps, q => q.schedSendTiming curTick dp >>= schedAll curTick dps

/-- What `sendDeferredPacket` does when `sendTiming` has returned. -/
def afterSend (curTick : Tick) (dp : DeferredPacket) (success : Bool) : Result PacketQueue :=
  if success then
    ({ q with waitingOnRetry := false } : PacketQueue).schedSendEvent curTick
      q.deferredPacketReadyTime
  else .ok { q with waitingOnRetry := true, transmitList := dp :: q.transmitList }

def sendDeferredPacket (curTick : Tick) (send : SendTiming) : Result PacketQueue := do
  require (!q.waitingOnRetry) (.assertion "!waitingOnRetry")
  require (q.deferredPacketReady curTick) (.assertion "deferredPacketReady()")
  match q.transmitList with
  | [] => return q
  | dp :: l =>
      let q' ← schedAll curTick send.enqueues { q with transmitList := l }
      q'.afterSend curTick dp send.success

def retry (curTick : Tick) (send : SendTiming) : Result PacketQueue := do
  require q.waitingOnRetry (.assertion "waitingOnRetry")
  ({ q with waitingOnRetry := false } : PacketQueue).sendDeferredPacket curTick send

/-- `PacketQueue::processSendEvent`, as the event queue calls it: the event is no longer
scheduled. -/
def processSendEvent (curTick : Tick) (send : SendTiming) : Result PacketQueue := do
  require (!q.waitingOnRetry) (.assertion "!waitingOnRetry")
  ({ q with sendEvent := none } : PacketQueue).sendDeferredPacket curTick send

/-- `PacketQueue::drain`; the drain manager keeps the result. -/
def drain : PacketQueue :=
  { q with drainState := if q.transmitList = [] then .drained else .draining }

/-! ### Runs -/

/-- A queue with the time and its history. -/
structure System where
  queue : PacketQueue
  curTick : Tick
  /-- The packets that were put into the queue. -/
  enqueued : List DeferredPacket
  /-- The packets that `sendTiming` accepted, with the time of the call. -/
  sent : List (Tick × DeferredPacket)
deriving DecidableEq, Repr

/-- The packets that were accepted, and those in the list, in their order. -/
def System.leaving (s : System) : List DeferredPacket :=
  s.sent.map Prod.snd ++ s.queue.transmitList

/-- What happens to a queue. -/
inductive Action where
  /-- Time goes on. -/
  | advance (tick : Tick)
  /-- A packet is put into the queue. -/
  | schedSendTiming (dp : DeferredPacket)
  /-- The send event goes off. -/
  | sendEvent (send : SendTiming)
  /-- The port asks for a retry. -/
  | retry (send : SendTiming)
  /-- The simulation is drained. -/
  | drain
deriving DecidableEq, Repr

/-- The packets that an action puts into the queue. -/
def Action.enqueues : Action → List DeferredPacket
  | .schedSendTiming dp => [dp]
  | .sendEvent send => send.enqueues
  | .retry send => send.enqueues
  | _ => []

/-- The packet that a call of `sendTiming` takes out of the queue. -/
def handed (s : System) (send : SendTiming) : List (Tick × DeferredPacket) :=
  if send.success then s.queue.transmitList.head?.toList.map fun dp => (s.curTick, dp) else []

/-- The system after a call of `sendTiming`. -/
def called (s : System) (send : SendTiming) (q : PacketQueue) : System where
  queue := q
  curTick := s.curTick
  enqueued := s.enqueued ++ send.enqueues
  sent := s.sent ++ handed s send

def step (s : System) : Action → Result System
  | .advance tick => .ok { s with curTick := tick }
  | .schedSendTiming dp => do
      let q ← s.queue.schedSendTiming s.curTick dp
      return { s with queue := q, enqueued := s.enqueued ++ [dp] }
  | .sendEvent send => do
      let q ← s.queue.processSendEvent s.curTick send
      return called s send q
  | .retry send => do
      let q ← s.queue.retry s.curTick send
      return called s send q
  | .drain => .ok { s with queue := s.queue.drain }

/-- A call of `sendTiming` that refuses the packet puts none into the queue. -/
def SendTiming.Allowed (send : SendTiming) : Prop := send.success = false → send.enqueues = []

/-- When an action can happen: time does not pass over the send event, no packet is put into the
queue for a tick that is over, and a retry is asked for only if it is due. -/
def Enabled (s : System) (a : Action) : Prop :=
  (∀ dp ∈ a.enqueues, s.curTick ≤ dp.tick) ∧
    match a with
    | .advance tick => s.curTick ≤ tick ∧ ∀ t ∈ s.queue.sendEvent, tick ≤ t
    | .sendEvent send => s.queue.sendEvent = some s.curTick ∧ send.Allowed
    | .retry send => s.queue.waitingOnRetry ∧ send.Allowed
    | _ => True

instance (send : SendTiming) : Decidable send.Allowed :=
  inferInstanceAs (Decidable (_ → _))

instance (s : System) : (a : Action) → Decidable (Enabled s a)
  | .advance tick =>
      have := Option.decidableForallMem (p := fun t => tick ≤ t) s.queue.sendEvent
      instDecidableAnd
  | .schedSendTiming _ | .sendEvent _ | .retry _ | .drain => instDecidableAnd

/-- A queue as the constructor leaves it, at some time. -/
def initial (curTick : Tick) (disableSanityCheck forceOrder : Bool) : System where
  queue := ⟨[], none, disableSanityCheck, forceOrder, false, .running⟩
  curTick := curTick
  enqueued := []
  sent := []

/-- What is to hold between the calls. -/
structure Safe (s : System) : Prop where
  /-- No packet is lost, and none is accepted twice. -/
  conserved : s.enqueued.Perm s.leaving
  /-- No packet is sent early. -/
  onTime : ∀ x ∈ s.sent, x.2.tick ≤ x.1
  /-- No packet is stranded. -/
  wakeUp : ∀ dp ∈ s.queue.transmitList.head?,
    (s.queue.waitingOnRetry ∧ s.queue.sendEvent = none) ∨
      ∃ t, s.queue.sendEvent = some t ∧ dp.tick ≤ t

/-- The assertions that the queue makes about its own state. -/
def stateAssertions : List CallFault :=
  [.assertion "waitingOnRetry", .assertion "!waitingOnRetry", .assertion "deferredPacketReady()",
    .assertion "!sendEvent.scheduled()"]

/-! ### Scheduling -/

variable {q q' : PacketQueue} {curTick when : Tick} {dp : DeferredPacket} {s s' : System}
  {f : CallFault} {send : SendTiming}

lemma deferredPacketReady_iff :
    q.deferredPacketReady curTick ↔ ∃ dp ∈ q.transmitList.head?, dp.tick ≤ curTick := by
  unfold deferredPacketReady
  rcases q.transmitList with _ | ⟨dp, l⟩ <;> simp

lemma le_sendTime (curTick when : Tick) : when ≤ sendTime curTick when := by
  unfold sendTime
  split
  · exact BitVec.le_of_lt ‹_›
  · exact BitVec.le_refl _

lemma scheduleAt_eq_ok : q.scheduleAt curTick when = .ok q' ↔
    curTick ≤ when ∧ { q with sendEvent := some when } = q' := by
  simp only [scheduleAt, bind_eq_ok, require_eq_ok, pure_eq_ok, decide_eq_true_eq,
    exists_and_left, exists_const]

lemma schedSendEvent_eq_ok (h : q.schedSendEvent curTick when = .ok q') :
    q'.transmitList = q.transmitList ∧ q'.waitingOnRetry = q.waitingOnRetry ∧
      q'.forceOrder = q.forceOrder ∧
      if q.waitingOnRetry = false ∧ when ≠ MaxTick then
        ∃ t, q'.sendEvent = some t ∧ (when ≤ t ∨ q.sendEvent = some t)
      else q'.sendEvent = q.sendEvent := by
  unfold schedSendEvent at h
  split_ifs at h with hw hmax
  · obtain ⟨-, -, rfl⟩ := bind_pure_eq_ok.1 h
    simp [hw]
  · rw [if_pos ⟨by simpa using hw, hmax⟩]
    split at h
    · obtain ⟨-, rfl⟩ := scheduleAt_eq_ok.1 h
      exact ⟨rfl, rfl, rfl, _, rfl, .inl (le_sendTime _ _)⟩
    · rename_i t ht
      split_ifs at h with hlt
      · obtain ⟨-, rfl⟩ := scheduleAt_eq_ok.1 h
        exact ⟨rfl, rfl, rfl, _, rfl, .inl (le_sendTime _ _)⟩
      · cases h
        exact ⟨rfl, rfl, rfl, t, ht, .inr ht⟩
  · cases h
    rw [if_neg (by tauto)]
    unfold checkDrained
    split <;> exact ⟨rfl, rfl, rfl, rfl⟩

lemma schedSendEvent_eq_error (hq : q.waitingOnRetry → q.sendEvent = none)
    (h : q.schedSendEvent curTick when = .error f) : f = .assertion "when >= getCurTick()" := by
  have hsched : ∀ t, q.scheduleAt curTick t = .error f → f = .assertion "when >= getCurTick()" := by
    intro t ht
    simp only [scheduleAt, bind_eq_error, require_eq_error] at ht
    rcases ht with ⟨-, rfl⟩ | ⟨-, -, hpure⟩
    · rfl
    · cases hpure
  unfold schedSendEvent at h
  split_ifs at h with hw hmax
  · simp [hq hw, require] at h
  · split at h
    · exact hsched _ h
    · split_ifs at h
      exact hsched _ h

/-! ### Putting packets into the queue -/

/-- A packet of the list that `schedSendTiming` does not put `dp` in front of. -/
def StaysBefore (forceOrder : Bool) (dp it : DeferredPacket) : Prop :=
  (forceOrder ∧ it.pkt.matchAddr dp.pkt) ∨ it.tick ≤ dp.tick

lemma emplace_eq_none {forceOrder : Bool} {l : List DeferredPacket}
    (h : emplace forceOrder dp l = none) : ∀ it ∈ l, ¬ StaysBefore forceOrder dp it := by
  induction l with
  | nil => simp
  | cons it l ih =>
    rw [emplace] at h
    split at h
    · simp at h
    · rename_i hl
      split_ifs at h with hit
      rintro x (_ | ⟨_, hx⟩)
      · simpa [StaysBefore] using hit
      · exact ih hl x hx

lemma emplace_eq_some {forceOrder : Bool} {l l' : List DeferredPacket}
    (h : emplace forceOrder dp l = some l') : ∃ l1 it l2, l = l1 ++ it :: l2 ∧
      l' = l1 ++ it :: dp :: l2 ∧ StaysBefore forceOrder dp it ∧
      ∀ x ∈ l2, ¬ StaysBefore forceOrder dp x := by
  induction l generalizing l' with
  | nil => simp [emplace] at h
  | cons it l ih =>
    rw [emplace] at h
    split at h
    · rename_i l1 hl1
      cases h
      obtain ⟨l1, x, l2, rfl, rfl, hx, hrest⟩ := ih hl1
      exact ⟨it :: l1, x, l2, rfl, rfl, hx, hrest⟩
    · rename_i hl
      split_ifs at h with hit
      cases h
      exact ⟨[], it, l, rfl, rfl, by simpa [StaysBefore] using hit, emplace_eq_none hl⟩

/-- The list with a packet put into it. -/
def emplaced (forceOrder : Bool) (l : List DeferredPacket) (dp : DeferredPacket) :
    List DeferredPacket :=
  (emplace forceOrder dp l).getD (dp :: l)

lemma emplaced_eq (forceOrder : Bool) (l : List DeferredPacket) (dp : DeferredPacket) :
    ∃ l1 l2, l = l1 ++ l2 ∧ emplaced forceOrder l dp = l1 ++ dp :: l2 ∧
      (∀ it ∈ l1.getLast?, StaysBefore forceOrder dp it) ∧
      ∀ x ∈ l2, ¬ StaysBefore forceOrder dp x := by
  unfold emplaced
  cases h : emplace forceOrder dp l with
  | none => exact ⟨[], l, rfl, rfl, by simp, emplace_eq_none h⟩
  | some l' =>
    obtain ⟨l1, it, l2, rfl, rfl, hit, hrest⟩ := emplace_eq_some h
    exact ⟨l1 ++ [it], l2, by simp, by simp, by simpa using hit, hrest⟩

lemma foldl_emplaced_perm (forceOrder : Bool) (l dps : List DeferredPacket) :
    (dps.foldl (emplaced forceOrder) l).Perm (l ++ dps) := by
  induction dps generalizing l with
  | nil => simp
  | cons dp dps ih =>
    obtain ⟨l1, l2, rfl, hl, -⟩ := emplaced_eq forceOrder l dp
    refine (ih _).trans ?_
    rw [hl, append_assoc, append_assoc]
    exact perm_middle.symm.append_left l1

/-- The event, if it is scheduled, does not go off before the first packet is ready. -/
def Covered (q : PacketQueue) : Prop :=
  ∀ t ∈ q.sendEvent, ∃ dp ∈ q.transmitList.head?, dp.tick ≤ t

/-- What a call of `schedSendTiming` does: the packet is put into the list; at its front, with
the event scheduled for it, or behind a packet. -/
lemma schedSendTiming_eq_ok (h : q.schedSendTiming curTick dp = .ok q') :
    q'.transmitList = emplaced q.forceOrder q.transmitList dp ∧ q'.forceOrder = q.forceOrder ∧
      curTick ≤ dp.tick ∧ q'.waitingOnRetry = q.waitingOnRetry ∧
      ((q'.transmitList.head? = q.transmitList.head? ∧ q.transmitList ≠ [] ∧
          q'.sendEvent = q.sendEvent) ∨
        (q'.transmitList = dp :: q.transmitList ∧ (∀ it ∈ q.transmitList, dp.tick < it.tick) ∧
          if q.waitingOnRetry = false ∧ dp.tick ≠ MaxTick then
            ∃ t, q'.sendEvent = some t ∧ (dp.tick ≤ t ∨ q.sendEvent = some t)
          else q'.sendEvent = q.sendEvent)) := by
  simp only [schedSendTiming, bind_eq_ok, require_eq_ok, decide_eq_true_eq] at h
  obtain ⟨-, hwhen, -, -, -, -, h⟩ := h
  unfold emplaced
  split at h
  · rename_i l hl
    obtain ⟨l1, it, l2, hlist, rfl, -⟩ := emplace_eq_some hl
    cases h
    refine ⟨by rw [hl]; rfl, rfl, hwhen, rfl, .inl ?_⟩
    rw [hlist]
    exact ⟨by cases l1 <;> rfl, by simp, rfl⟩
  · rename_i hl
    obtain ⟨hlist, hwait, hforce, hevent⟩ := schedSendEvent_eq_ok h
    rw [hl]
    refine ⟨hlist, hforce, hwhen, hwait, .inr ⟨hlist, fun it hit => ?_, hevent⟩⟩
    exact BitVec.not_le.1 fun hle => emplace_eq_none hl it hit (.inr hle)

lemma Covered.schedSendTiming (hq : Covered q) (h : q.schedSendTiming curTick dp = .ok q') :
    Covered q' := by
  obtain ⟨-, -, -, -, ⟨hhead, -, hevent⟩ | ⟨hlist, hlt, hevent⟩⟩ := schedSendTiming_eq_ok h
  · intro t ht
    rw [hevent] at ht
    rw [hhead]
    exact hq t ht
  · intro t ht
    refine ⟨dp, by simp [hlist], ?_⟩
    -- an event that is kept was not too early for the packets behind, which are later
    have hkept : q.sendEvent = some t → dp.tick ≤ t := by
      intro hqt
      obtain ⟨it, hit, hle⟩ := hq t hqt
      have hfirst := hlt it (mem_of_mem_head? hit)
      bv_omega
    split_ifs at hevent
    · obtain ⟨t', ht', hle⟩ := hevent
      cases ht'.symm.trans ht
      exact hle.elim id hkept
    · exact hkept (hevent ▸ ht)

lemma schedSendTiming_eq_error (hq : q.waitingOnRetry → q.sendEvent = none)
    (h : q.schedSendTiming curTick dp = .error f) : f ∉ stateAssertions := by
  simp only [schedSendTiming, bind_eq_error, require_eq_error, require_eq_ok] at h
  rcases h with ⟨-, rfl⟩ | ⟨-, -, ⟨-, rfl⟩ | ⟨-, -, ⟨-, rfl⟩ | ⟨-, -, h⟩⟩⟩
  · decide
  · decide
  · decide
  · split at h
    · cases h
    · rw [schedSendEvent_eq_error (by exact hq) h]
      decide

lemma schedAll_eq_ok {dps : List DeferredPacket} (h : schedAll curTick dps q = .ok q') :
    q'.transmitList = dps.foldl (emplaced q.forceOrder) q.transmitList ∧
      q'.forceOrder = q.forceOrder ∧ (∀ dp ∈ dps, curTick ≤ dp.tick) ∧
      q'.waitingOnRetry = q.waitingOnRetry ∧ (Covered q → Covered q') := by
  induction dps generalizing q with
  | nil =>
    cases h
    exact ⟨rfl, rfl, by simp, rfl, id⟩
  | cons dp dps ih =>
    rw [schedAll, bind_eq_ok] at h
    obtain ⟨q1, hq1, h⟩ := h
    obtain ⟨hlist, hforce, hwhen, hwait, -⟩ := schedSendTiming_eq_ok hq1
    obtain ⟨hlist', hforce', hwhen', hwait', hc⟩ := ih h
    rw [hlist, hforce] at hlist'
    exact ⟨hlist', hforce'.trans hforce, forall_mem_cons.2 ⟨hwhen, hwhen'⟩,
      hwait'.trans hwait, fun hq => hc (hq.schedSendTiming hq1)⟩

lemma schedAll_eq_error {dps : List DeferredPacket} (hw : q.waitingOnRetry = false)
    (h : schedAll curTick dps q = .error f) : f ∉ stateAssertions := by
  induction dps generalizing q with
  | nil => simp [schedAll] at h
  | cons dp dps ih =>
    rw [schedAll, bind_eq_error] at h
    rcases h with h | ⟨q1, hq1, h⟩
    · exact schedSendTiming_eq_error (by simp [hw]) h
    · exact ih ((schedSendTiming_eq_ok hq1).2.2.2.1.trans hw) h

/-! ### Sending -/

/-- The event is scheduled if there is something to send. -/
def Scheduled (q : PacketQueue) : Prop := q.transmitList ≠ [] → q.sendEvent ≠ none

lemma afterSend_success (hc : Covered q) (hmax : ∀ x ∈ q.transmitList, x.tick ≠ MaxTick)
    (h : q.afterSend curTick dp true = .ok q') :
    q'.waitingOnRetry = false ∧ Covered q' ∧ Scheduled q' := by
  rw [afterSend, if_pos rfl] at h
  obtain ⟨hlist, hwait, -, hevent⟩ := schedSendEvent_eq_ok h
  simp only at hlist hwait hevent
  refine ⟨hwait, ?_⟩
  unfold Covered Scheduled
  rw [hlist]
  rcases hl : q.transmitList with _ | ⟨x, l⟩
  · -- nothing is left, and the event was not scheduled
    have hnone : q.sendEvent = none := by
      rcases hq : q.sendEvent with _ | t
      · rfl
      · obtain ⟨y, hy, -⟩ := hc t hq
        simp [hl] at hy
    have htime : q.deferredPacketReadyTime = MaxTick := by simp [deferredPacketReadyTime, hl]
    rw [if_neg (by simp [htime]), hnone] at hevent
    simp [hevent]
  · have htime : q.deferredPacketReadyTime = x.tick := by simp [deferredPacketReadyTime, hl]
    rw [htime, if_pos ⟨trivial, hmax x (by simp [hl])⟩] at hevent
    obtain ⟨t, ht, hle⟩ := hevent
    refine ⟨fun t' ht' => ⟨x, rfl, ?_⟩, by simp [ht]⟩
    cases ht.symm.trans ht'
    rcases hle with hle | hq
    · exact hle
    · obtain ⟨y, hy, hyt⟩ := hc t hq
      obtain rfl : x = y := by simpa [hl] using hy
      exact hyt

lemma sendDeferredPacket_eq_ok (h : q.sendDeferredPacket curTick send = .ok q') :
    ∃ dp l q1, q.transmitList = dp :: l ∧ dp.tick ≤ curTick ∧ q.waitingOnRetry = false ∧
      schedAll curTick send.enqueues { q with transmitList := l } = .ok q1 ∧
      q1.afterSend curTick dp send.success = .ok q' := by
  simp only [sendDeferredPacket, bind_eq_ok, require_eq_ok] at h
  obtain ⟨-, hw, -, hready, h⟩ := h
  rcases hl : q.transmitList with _ | ⟨dp, l⟩
  · simp [deferredPacketReady, hl] at hready
  simp only [hl, bind_eq_ok] at h
  obtain ⟨q1, hq1, h⟩ := h
  exact ⟨dp, l, q1, rfl, by simpa [deferredPacketReady, hl] using hready, by simpa using hw, hq1, h⟩

lemma sendDeferredPacket_eq_error (hw : q.waitingOnRetry = false)
    (hready : q.deferredPacketReady curTick)
    (h : q.sendDeferredPacket curTick send = .error f) : f ∉ stateAssertions := by
  simp only [sendDeferredPacket, bind_eq_error, require_eq_error, hw, hready] at h
  simp only [Bool.not_false, Bool.true_eq_false, false_and, false_or] at h
  obtain ⟨-, -, -, -, h⟩ := h
  rcases hl : q.transmitList with _ | ⟨dp, l⟩
  · simp [hl] at h
  simp only [hl, bind_eq_error] at h
  rcases h with h | ⟨q1, -, h⟩
  · exact schedAll_eq_error (by rfl) h
  · unfold afterSend at h
    split_ifs at h
    rw [schedSendEvent_eq_error (by simp) h]
    decide

/-- What an action does to the list: the packets `out` leave it, and the packets `new` are put
into what is behind `kept`, a packet that is refused. -/
def Moved (s s' : System) : Prop :=
  s'.queue.forceOrder = s.queue.forceOrder ∧ ∃ out kept l new,
    s.queue.transmitList = out ++ kept ++ l ∧
    s'.queue.transmitList = kept ++ new.foldl (emplaced s.queue.forceOrder) l ∧
    s'.sent.map Prod.snd = s.sent.map Prod.snd ++ out ∧ s'.enqueued = s.enqueued ++ new ∧
    ∀ x ∈ kept, ∀ dp ∈ new, x.tick ≤ dp.tick

lemma moved_sendDeferredPacket {q0 : PacketQueue} (hlist : q0.transmitList = s.queue.transmitList)
    (hforce : q0.forceOrder = s.queue.forceOrder)
    (h : q0.sendDeferredPacket s.curTick send = .ok q) : Moved s (called s send q) := by
  obtain ⟨dp, l, q1, hl, hdp, -, hq1, h⟩ := sendDeferredPacket_eq_ok h
  obtain ⟨hlist1, hforce1, hwhen, -⟩ := schedAll_eq_ok hq1
  simp only [hforce] at hlist1 hforce1
  rw [hl] at hlist
  cases hsucc : send.success with
  | true =>
    rw [hsucc, afterSend, if_pos rfl] at h
    obtain ⟨hlist', -, hforce', -⟩ := schedSendEvent_eq_ok h
    refine ⟨hforce'.trans hforce1, [dp], [], l, send.enqueues, hlist.symm, hlist'.trans hlist1, ?_,
      rfl, by simp⟩
    simp [called, handed, hsucc, ← hlist]
  | false =>
    rw [hsucc] at h
    cases h
    refine ⟨hforce1, [], [dp], l, send.enqueues, hlist.symm, congrArg (dp :: ·) hlist1, ?_, rfl,
      fun x hx y hy => ?_⟩
    · simp [called, handed, hsucc]
    · rw [mem_singleton.1 hx]
      exact BitVec.le_trans hdp (hwhen y hy)

lemma moved_of_step {a : Action} (h : step s a = .ok s') : Moved s s' := by
  cases a with
  | advance tick | drain =>
    cases h
    exact ⟨rfl, [], [], s.queue.transmitList, [], rfl, rfl, by simp, by simp, by simp⟩
  | schedSendTiming dp =>
    obtain ⟨q, hq, rfl⟩ := bind_pure_eq_ok.1 h
    obtain ⟨hlist, hforce, -⟩ := schedSendTiming_eq_ok hq
    exact ⟨hforce, [], [], s.queue.transmitList, [dp], rfl, hlist, by simp, rfl, by simp⟩
  | sendEvent send =>
    simp only [PacketQueue.step, processSendEvent, bind_eq_ok, pure_eq_ok] at h
    obtain ⟨q, ⟨-, -, hq⟩, rfl⟩ := h
    exact moved_sendDeferredPacket (by rfl) (by rfl) hq
  | retry send =>
    simp only [PacketQueue.step, PacketQueue.retry, bind_eq_ok, pure_eq_ok] at h
    obtain ⟨q, ⟨-, -, hq⟩, rfl⟩ := h
    exact moved_sendDeferredPacket (by rfl) (by rfl) hq

lemma Moved.conserved (h : Moved s s') (hs : s.enqueued.Perm s.leaving) :
    s'.enqueued.Perm s'.leaving := by
  obtain ⟨-, out, kept, l, new, hlist, hlist', hsent, henq, -⟩ := h
  unfold System.leaving at hs ⊢
  rw [hlist] at hs
  rw [hlist', hsent, henq]
  refine (hs.append_right new).trans ?_
  simpa using (foldl_emplaced_perm _ l new).symm.append_left (s.sent.map Prod.snd ++ out ++ kept)

/-! ### Safety -/

/-- The invariant between the calls. -/
structure Sound (s : System) : Prop where
  conserved : s.enqueued.Perm s.leaving
  onTime : ∀ x ∈ s.sent, x.2.tick ≤ x.1
  /-- A packet that was refused stays ready, and only a retry sends it. -/
  retry : s.queue.waitingOnRetry →
    s.queue.sendEvent = none ∧ s.queue.deferredPacketReady s.curTick
  covered : Covered s.queue
  scheduled : s.queue.waitingOnRetry = false → Scheduled s.queue
  below : ∀ dp ∈ s.enqueued, dp.tick ≠ MaxTick

lemma Sound.safe (h : Sound s) : Safe s where
  conserved := h.conserved
  onTime := h.onTime
  wakeUp := by
    intro dp hdp
    rcases hw : s.queue.waitingOnRetry
    · right
      have hne : s.queue.transmitList ≠ [] := ne_nil_of_mem (mem_of_mem_head? hdp)
      obtain ⟨t, ht⟩ := Option.ne_none_iff_exists'.1 (h.scheduled hw hne)
      obtain ⟨dp', hdp', hle⟩ := h.covered t ht
      cases hdp.symm.trans hdp'
      exact ⟨t, ht, hle⟩
    · exact .inl ⟨rfl, (h.retry hw).1⟩

/-- No packet is put into the queue for `MaxTick`. -/
def BelowMaxTick (a : Action) : Prop := ∀ dp ∈ a.enqueues, dp.tick ≠ MaxTick

instance (a : Action) : Decidable (BelowMaxTick a) :=
  inferInstanceAs (Decidable (∀ dp ∈ a.enqueues, dp.tick ≠ MaxTick))

lemma Sound.schedSendTiming (h : Sound s) (hmax : dp.tick ≠ MaxTick)
    (hs : step s (.schedSendTiming dp) = .ok s') : Sound s' := by
  have hconserved := (moved_of_step hs).conserved h.conserved
  obtain ⟨q, hq, rfl⟩ := bind_pure_eq_ok.1 hs
  obtain ⟨-, -, hwhen, hwait, hcases⟩ := schedSendTiming_eq_ok hq
  refine ⟨hconserved, h.onTime, ?_, h.covered.schedSendTiming hq, ?_, ?_⟩
  · intro hw
    obtain ⟨hnone, hready⟩ := h.retry (hwait ▸ hw)
    rcases hcases with ⟨hhead, -, hevent⟩ | ⟨-, hlt, -⟩
    · refine ⟨hevent.trans hnone, ?_⟩
      rw [deferredPacketReady_iff] at hready ⊢
      rwa [hhead]
    · -- the first packet is ready, so that no later one goes in front of it
      obtain ⟨x, hx, hle⟩ := deferredPacketReady_iff.1 hready
      have hlater := hlt x (mem_of_mem_head? hx)
      bv_omega
  · intro hw hne
    rw [hwait] at hw
    rcases hcases with ⟨-, hold, hevent⟩ | ⟨-, -, hevent⟩
    · rw [hevent]
      exact h.scheduled hw hold
    · rw [if_pos ⟨hw, hmax⟩] at hevent
      obtain ⟨t, ht, -⟩ := hevent
      simp [ht]
  · intro x hx
    rcases mem_append.1 hx with hx | hx
    · exact h.below x hx
    · rwa [mem_singleton.1 hx]

lemma Sound.sendDeferredPacket {q0 : PacketQueue} (h : Sound s)
    (hlist : q0.transmitList = s.queue.transmitList)
    (hforce : q0.forceOrder = s.queue.forceOrder) (hevent : q0.sendEvent = none)
    (hsend : send.Allowed) (hmax : ∀ dp ∈ send.enqueues, dp.tick ≠ MaxTick)
    (hq : q0.sendDeferredPacket s.curTick send = .ok q) : Sound (called s send q) := by
  have hconserved := (moved_sendDeferredPacket hlist hforce hq).conserved h.conserved
  have hbelow : ∀ x ∈ s.enqueued ++ send.enqueues, x.tick ≠ MaxTick :=
    fun x hx => (mem_append.1 hx).elim (h.below x) (hmax x)
  obtain ⟨dp, l, q1, hl, hready, hw, hq1, hres⟩ := sendDeferredPacket_eq_ok hq
  obtain ⟨hlist1, -, -, hw1, hc1⟩ := schedAll_eq_ok hq1
  rw [hl] at hlist
  cases hsucc : send.success with
  | true =>
    have hmax1 : ∀ x ∈ q1.transmitList, x.tick ≠ MaxTick := by
      intro x hx
      rw [hlist1, (foldl_emplaced_perm _ _ _).mem_iff, mem_append] at hx
      refine hbelow x (mem_append.2 (hx.imp_left fun hx => ?_))
      refine h.conserved.mem_iff.2 (mem_append_right _ ?_)
      rw [← hlist]
      exact mem_cons_of_mem _ hx
    rw [hsucc] at hres
    obtain ⟨hw', hc, hs⟩ := afterSend_success (hc1 (by simp [Covered, hevent])) hmax1 hres
    refine ⟨hconserved, ?_, by simp [called, hw'], hc, fun _ => hs, hbelow⟩
    intro x hx
    have hhanded : handed s send = [(s.curTick, dp)] := by simp [handed, hsucc, ← hlist]
    rw [called, hhanded] at hx
    rcases mem_append.1 hx with hx | hx
    · exact h.onTime x hx
    · rwa [mem_singleton.1 hx]
  | false =>
    rw [hsend hsucc] at hq1
    cases hq1
    rw [hsucc] at hres
    cases hres
    refine ⟨hconserved, ?_, fun _ => ⟨hevent, ?_⟩, ?_, by simp [called], hbelow⟩
    · simpa [called, handed, hsucc] using h.onTime
    · exact decide_eq_true hready
    · simp [called, Covered, hevent]

lemma Sound.step {a : Action} (h : Sound s) (ha : Enabled s a) (hmax : BelowMaxTick a)
    (hs : step s a = .ok s') : Sound s' := by
  obtain ⟨-, ha⟩ := ha
  cases a with
  | advance tick =>
    cases hs
    refine ⟨h.conserved, h.onTime, fun hw => ⟨(h.retry hw).1, ?_⟩, h.covered, h.scheduled, h.below⟩
    obtain ⟨dp, hdp, hle⟩ := deferredPacketReady_iff.1 (h.retry hw).2
    exact deferredPacketReady_iff.2 ⟨dp, hdp, BitVec.le_trans hle ha.1⟩
  | schedSendTiming dp => exact h.schedSendTiming (hmax dp (by simp [Action.enqueues])) hs
  | sendEvent send =>
    simp only [PacketQueue.step, processSendEvent, bind_eq_ok, pure_eq_ok] at hs
    obtain ⟨q, ⟨-, -, hq⟩, rfl⟩ := hs
    exact h.sendDeferredPacket (by rfl) (by rfl) (by rfl) ha.2 hmax hq
  | retry send =>
    simp only [PacketQueue.step, PacketQueue.retry, bind_eq_ok, pure_eq_ok] at hs
    obtain ⟨q, ⟨-, -, hq⟩, rfl⟩ := hs
    exact h.sendDeferredPacket (by rfl) (by rfl) (by exact (h.retry ha.1).1) ha.2 hmax hq
  | drain =>
    cases hs
    exact ⟨h.conserved, h.onTime, h.retry, h.covered, h.scheduled, h.below⟩

lemma Sound.step_eq_error {a : Action} (h : Sound s) (ha : Enabled s a)
    (hs : PacketQueue.step s a = .error f) : f ∉ stateAssertions := by
  obtain ⟨-, ha⟩ := ha
  cases a with
  | schedSendTiming dp =>
    exact schedSendTiming_eq_error (fun hw => (h.retry hw).1) (bind_pure_eq_error.1 hs)
  | sendEvent send =>
    have hw : s.queue.waitingOnRetry = false := by
      by_contra hw
      rw [Bool.not_eq_false] at hw
      simp [(h.retry hw).1] at ha
    have hready : s.queue.deferredPacketReady s.curTick :=
      deferredPacketReady_iff.2 (h.covered _ ha.1)
    have hs := bind_pure_eq_error.1 hs
    simp only [processSendEvent, hw, require, Bool.not_false, if_true, ok_bind] at hs
    exact sendDeferredPacket_eq_error (by rfl) (by exact hready) hs
  | retry send =>
    obtain ⟨-, hready⟩ := h.retry ha.1
    have hs := bind_pure_eq_error.1 hs
    simp only [PacketQueue.retry, ha.1, require, if_true, ok_bind] at hs
    exact sendDeferredPacket_eq_error (by rfl) (by exact hready) hs
  | advance _ | drain => simp [PacketQueue.step] at hs

/-- In every run in which no packet is put into the queue for `MaxTick`, the states between the
calls are safe, and no call fails an assertion about the state of the queue. -/
theorem exec_safe {curTick : Tick} {disableSanityCheck forceOrder : Bool} {as : List Action}
    (h : Exec (Guarded (fun s a => Enabled s a ∧ BelowMaxTick a) step)
      (initial curTick disableSanityCheck forceOrder) as s) :
    Safe s ∧ ∀ a, Enabled s a → ∀ f, step s a = .error f → f ∉ stateAssertions := by
  have hsound : Sound s := h.invariant_state
    ⟨.refl _, by simp [initial], by simp [initial], by simp [initial, Covered],
      by simp [initial, Scheduled], by simp [initial]⟩
    fun hs ⟨⟨ha, hmax⟩, hstep⟩ => hs.step ha hmax hstep
  exact ⟨hsound.safe, fun a ha f hf => hsound.step_eq_error ha hf⟩

/-- A packet with nothing but a name. -/
def plainPacket (ptr : ℕ) : PacketPtr := ⟨ptr, 0x40, false, false⟩

/-- Two packets, the second put into the queue while the first is taken; the port refuses the
second one until it asks for a retry. -/
def refusedRun : List Action :=
  [.schedSendTiming ⟨5, plainPacket 0⟩, .advance 5, .sendEvent ⟨[⟨5, plainPacket 1⟩], true⟩,
    .advance 6, .sendEvent ⟨[], false⟩, .advance 9]

theorem exec_safe_refusedRun : ∃ s, Safe s ∧ s.queue.waitingOnRetry ∧
    s.sent = [(5, ⟨5, plainPacket 0⟩)] ∧
    ∀ a, Enabled s a → ∀ f, step s a = .error f → f ∉ stateAssertions := by
  have h : Exec (Guarded (fun s a => Enabled s a ∧ BelowMaxTick a) step) (initial 0 false false)
    refusedRun _ := exec_of_replay rfl
  exact ⟨_, (exec_safe h).1, rfl, rfl, (exec_safe h).2⟩

/-- A packet that is scheduled for `MaxTick` on an empty queue is stranded: no retry is due and
the send event is not scheduled. -/
theorem maxTick_packet_is_stranded :
    ∃ s, Exec (Guarded Enabled step) (initial 0 false false)
        [.schedSendTiming ⟨MaxTick, plainPacket 0⟩] s ∧
      s.queue.transmitList = [⟨MaxTick, plainPacket 0⟩] ∧ s.queue.waitingOnRetry = false ∧
      s.queue.sendEvent = none ∧ ¬ Safe s := by
  refine ⟨_, exec_of_replay rfl, rfl, rfl, rfl, fun hsafe => ?_⟩
  rcases hsafe.wakeUp ⟨MaxTick, plainPacket 0⟩ rfl with ⟨hretry, -⟩ | ⟨t, ht, -⟩
  · cases hretry
  · cases ht

/-! ### The order of the packets -/

lemma filter_foldl_emplaced {forceOrder : Bool} {P : DeferredPacket → Bool}
    (hP : ∀ it dp, P it → P dp → StaysBefore forceOrder dp it)
    (l dps : List DeferredPacket) :
    (dps.foldl (emplaced forceOrder) l).filter P = l.filter P ++ dps.filter P := by
  induction dps generalizing l with
  | nil => simp
  | cons dp dps ih =>
    obtain ⟨l1, l2, rfl, hl, -, hrest⟩ := emplaced_eq forceOrder l dp
    rw [foldl_cons, ih, hl]
    by_cases hdp : P dp
    · have hnil : l2.filter P = [] :=
        filter_eq_nil_iff.2 fun x hx hPx => hrest x hx (hP x dp hPx hdp)
      simp [hdp, hnil]
    · simp [hdp]

/-- The packets are in the order of their ticks. -/
def Sorted (l : List DeferredPacket) : Prop := l.Pairwise fun x y => x.tick ≤ y.tick

lemma Sorted.foldl_emplaced {l : List DeferredPacket} (hl : Sorted l)
    (dps : List DeferredPacket) : Sorted (dps.foldl (emplaced false) l) := by
  induction dps generalizing l with
  | nil => exact hl
  | cons dp dps ih =>
    refine ih ?_
    obtain ⟨l1, l2, rfl, hl', hlast, hrest⟩ := emplaced_eq false l dp
    obtain ⟨h1, h2, h12⟩ := pairwise_append.1 hl
    rw [hl', Sorted, pairwise_append, pairwise_cons]
    refine ⟨h1, ⟨fun x hx => ?_, h2⟩, fun x hx y hy => ?_⟩
    · exact (BitVec.le_total dp.tick x.tick).resolve_right fun hle => hrest x hx (.inr hle)
    · rcases mem_cons.1 hy with rfl | hy
      · -- the last packet that stays before the new one is behind all the others
        obtain ⟨l0, it, rfl⟩ := (eq_nil_or_concat' l1).resolve_left (ne_nil_of_mem hx)
        have hit : it.tick ≤ y.tick := (hlast it (by simp)).resolve_left (by simp)
        rcases mem_append.1 hx with hx | hx
        · exact BitVec.le_trans ((pairwise_append.1 h1).2.2 x hx it (by simp)) hit
        · rwa [mem_singleton.1 hx]
      · exact h12 x hx y hy

lemma Moved.filter_leaving {P : DeferredPacket → Bool} (h : Moved s s')
    (hP : ∀ it dp, P it → P dp → StaysBefore s.queue.forceOrder dp it)
    (hs : s.leaving.filter P = s.enqueued.filter P) :
    s'.leaving.filter P = s'.enqueued.filter P := by
  obtain ⟨-, out, kept, l, new, hlist, hlist', hsent, henq, -⟩ := h
  unfold System.leaving at hs ⊢
  rw [hlist] at hs
  rw [hlist', hsent, henq, filter_append s.enqueued, ← hs]
  simp [filter_foldl_emplaced hP]

lemma Moved.sorted (h : Moved s s') (hforce : s.queue.forceOrder = false)
    (hs : Sorted s.queue.transmitList) : Sorted s'.queue.transmitList := by
  obtain ⟨-, out, kept, l, new, hlist, hlist', -, -, hle⟩ := h
  rw [hlist] at hs
  obtain ⟨hk, hl, hkl⟩ := pairwise_append.1 hs
  rw [hlist', hforce]
  refine pairwise_append.2 ⟨hk.sublist (by simp), Sorted.foldl_emplaced hl new, ?_⟩
  intro x hx y hy
  rcases mem_append.1 ((foldl_emplaced_perm _ _ _).mem_iff.1 hy) with hy | hy
  · exact hkl x (by simp [hx]) y hy
  · exact hle x hx y hy

/-- The order in which packets leave a queue: with `forceOrder` those for one address of one
address space leave it as they were put into it, and otherwise the list is sorted by ticks, with
the packets for one tick as they were put into it. -/
structure InOrder (forceOrder : Bool) (s : System) : Prop where
  kept : s.queue.forceOrder = forceOrder
  addr : forceOrder → ∀ pkt : PacketPtr,
    s.leaving.filter (·.pkt.matchAddr pkt) = s.enqueued.filter (·.pkt.matchAddr pkt)
  sorted : forceOrder = false → Sorted s.queue.transmitList
  tick : forceOrder = false → ∀ tick : Tick,
    s.leaving.filter (·.tick == tick) = s.enqueued.filter (·.tick == tick)

lemma InOrder.moved {forceOrder : Bool} (h : InOrder forceOrder s) (hm : Moved s s') :
    InOrder forceOrder s' where
  kept := hm.1.trans h.kept
  addr := by
    intro hforce pkt
    refine hm.filter_leaving (fun it dp hit hdp => ?_) (h.addr hforce pkt)
    refine .inl ⟨h.kept.trans hforce, ?_⟩
    simp only [PacketPtr.matchAddr, Bool.and_eq_true, beq_iff_eq] at hit hdp ⊢
    exact ⟨hit.1.trans hdp.1.symm, hit.2.trans hdp.2.symm⟩
  sorted := fun hforce => hm.sorted (h.kept.trans hforce) (h.sorted hforce)
  tick := by
    intro hforce tick
    refine hm.filter_leaving (fun it dp hit hdp => .inr ?_) (h.tick hforce tick)
    rw [beq_iff_eq] at hit hdp
    rw [hit, hdp]
    exact BitVec.le_refl _

theorem exec_sentInOrder {curTick : Tick} {disableSanityCheck forceOrder : Bool} {as : List Action}
    (h : Exec (Guarded (fun _ _ => True) step) (initial curTick disableSanityCheck forceOrder)
      as s) : InOrder forceOrder s := by
  refine h.invariant_state ⟨rfl, ?_, ?_, ?_⟩ fun hs ⟨_, hstep⟩ => hs.moved (moved_of_step hstep)
  · exact fun _ _ => rfl
  · exact fun _ => Pairwise.nil
  · exact fun _ _ => rfl

theorem exec_sentInOrder_refusedRun : ∃ s, replay (fun _ _ => True) step (initial 0 false true)
    refusedRun = some s ∧ s.sent = [(5, ⟨5, plainPacket 0⟩)] ∧ InOrder true s := by
  have h : Exec (Guarded (fun _ _ => True) step) (initial 0 false true) refusedRun _ :=
    exec_of_replay rfl
  exact ⟨_, rfl, rfl, exec_sentInOrder h⟩

/-- Packets with equal addresses, one of them secure, leave a queue with `forceOrder` by their
ticks. -/
theorem not_inOrder_secure : ¬ ∀ (as : List Action) (s : System),
    Exec (Guarded Enabled step) (initial 0 false true) as s → ∀ addr : Addr,
      (s.sent.map Prod.snd).filter (·.pkt.addr == addr) <+:
        s.enqueued.filter (·.pkt.addr == addr) := by
  intro h
  have hfirst := h [.schedSendTiming ⟨10, ⟨0, 0x40, true, false⟩⟩,
    .schedSendTiming ⟨5, plainPacket 1⟩, .advance 5, .sendEvent ⟨[], true⟩] _ (exec_of_replay rfl)
  exact absurd (hfirst 0x40) (by decide)

end ChipletGem5.PacketQueue
