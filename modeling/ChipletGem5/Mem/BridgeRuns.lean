import ChipletGem5.Mem.Bridge

/-!
# Runs of the bridge

The invariant joins the two ports (`Side`) with the counter of outstanding responses: it is the
number of the accepted requests that expect a response which has not been sent.  All responses are
for requests that have been forwarded, so when a response is sent the counter is not zero.
-/

namespace ChipletGem5.Bridge

open Multiset (le_iff_count coe_card coe_count)

open List Bool

variable {c : Params} {s s' : System} {pkt : Packet}

structure Inv (c : Params) (s : System) : Prop where
  req : Side s.bridge.masterPort s.req s.curTick
  resp : Side s.bridge.slavePort s.resp s.curTick
  reqLimit : s.bridge.masterPort.transmitList.length ≤ c.reqQueueLimit
  respLimit : s.bridge.outstandingResponses ≤ c.respQueueLimit
  outstanding : s.bridge.outstandingResponses + s.resp.left.length =
    (expecting s.req.entered).length
  matched : ∀ i, (s.resp.entered.map (·.pkt.id)).count i ≤
    (expecting (s.req.left.map Prod.snd)).count i
  stalled : s.bridge.retryReq →
    s.bridge.masterPort.transmitList ≠ [] ∨ 0 < s.bridge.outstandingResponses

lemma expecting_append (l l' : List DeferredPacket) :
    expecting (l ++ l') = expecting l ++ expecting l' := by
  simp [expecting]

lemma retryStalledReq_eq (b : Bridge) : b.retryStalledReq = { b with
    retryReq := false
    retries := b.retries + if b.retryReq then 1 else 0 } := by
  obtain ⟨_, _, _, _ | _, _, _⟩ := b <;> rfl

lemma inv_init : Inv c System.init := by
  refine ⟨⟨rfl, nofun, fun _ => ⟨rfl, rfl, rfl⟩, nofun⟩,
    ⟨rfl, nofun, fun _ => ⟨rfl, rfl, rfl⟩, nofun⟩, Nat.zero_le _, Nat.zero_le _, rfl,
    fun i => Nat.zero_le _, nofun⟩

/-! ### Requests -/

section

variable (h : Inv c s)
include h

lemma Inv.accept (hp : pkt.cacheResponding = false) (hretry : s.bridge.retryReq = false)
    (hroom : ¬ (s.bridge.reqQueueFull c || pkt.needsResponse && s.bridge.respQueueFull c)) :
    ∃ s', s.step c (.recvTimingReq pkt) = .ok s' ∧ Inv c s' := by
  have hlen : s.bridge.masterPort.transmitList.length < c.reqQueueLimit := by
    refine lt_of_le_of_ne h.reqLimit fun he => hroom ?_
    simp [reqQueueFull, he]
  let b1 : Bridge := { s.bridge with
    outstandingResponses := s.bridge.outstandingResponses + if pkt.needsResponse then 1 else 0 }
  obtain ⟨hreserve, hlimit⟩ : s.bridge.reserve c pkt = .ok b1 ∧
      b1.outstandingResponses ≤ c.respQueueLimit := by
    simp only [reserve, b1]
    cases hn : pkt.needsResponse with
    | false => exact ⟨rfl, h.respLimit⟩
    | true =>
      have hne : s.bridge.outstandingResponses ≠ c.respQueueLimit := fun he => hroom (by
        simp [respQueueFull, hn, he])
      have hlt := lt_of_le_of_ne h.respLimit hne
      refine ⟨?_, hlt⟩
      simp [require, hne]
  -- the packet that is put into the queue is the one that has come
  set b2 : Bridge := { b1 with tick := c.edge s.curTick s.bridge.tick } with hb2
  have hready : s.curTick ≤ b2.readyTick c pkt :=
    ((le_edge c s.curTick s.bridge.tick).trans (Nat.le_add_right _ _)).trans (Nat.le_add_right _ _)
  have harrival : s.arrival c pkt = ⟨b2.readyTick c pkt, pkt.received⟩ := rfl
  have hside : Side b2.masterPort s.req s.curTick := h.req
  obtain ⟨q, hfirst, hq, hside'⟩ := hside.push hready pkt.received
  rw [← harrival] at hside'
  set p : SendPort := ⟨q.transmitList ++ [s.arrival c pkt], q.sendEvent⟩
  have hl : p.transmitList = s.bridge.masterPort.transmitList ++ [s.arrival c pkt] :=
    congrArg (· ++ _) hq
  have hne : q.transmitList.length ≠ c.reqQueueLimit := hq ▸ hlen.ne
  have hsched : b2.schedTimingReq c s.curTick pkt.received (b2.readyTick c pkt) =
      .ok { b2 with masterPort := p } := by
    simp [schedTimingReq, hfirst, require, hne, p, harrival]
  have hupdate : b1.update c s.curTick = b2 := rfl
  refine ⟨{ s with bridge := { b2 with masterPort := p }, req := s.req.enter (s.arrival c pkt) },
    ?_, ?_⟩
  · simp only [System.step, recvTimingReq, require, hp, hretry, hroom, hreserve, hupdate, hsched,
      ok_bind, pure_eq, Bool.not_false, if_true, if_false, false_eq_true]
  · refine ⟨hside', h.resp, ?_, hlimit, ?_, h.matched, ?_⟩
    · rwa [hl, length_append]
    · rw [Peer.enter, expecting_append, length_append, ← h.outstanding]
      cases hn : pkt.needsResponse
      · simp [expecting, System.arrival, Packet.received, hn, hb2, b1]
      · simp [expecting, System.arrival, Packet.received, hn, hb2, b1]
        omega
    · intro _
      rw [hl]
      exact .inl (by simp)

lemma Inv.recvTimingReq (hp : pkt.cacheResponding = false) :
    ∃ s', s.step c (.recvTimingReq pkt) = .ok s' ∧ Inv c s' := by
  cases hretry : s.bridge.retryReq with
  | true =>
    refine ⟨s, ?_, h⟩
    simp only [System.step, Bridge.recvTimingReq, require, hp, hretry, ok_bind, pure_eq,
      Bool.not_false, if_true, Bool.false_eq_true, if_false]
  | false =>
    by_cases hroom :
        (s.bridge.reqQueueFull c || pkt.needsResponse && s.bridge.respQueueFull c)
    · refine ⟨{ s with bridge := { s.bridge with retryReq := true } }, ?_,
        { h with stalled := fun _ => ?_ }⟩
      · simp only [System.step, Bridge.recvTimingReq, require, hp, hretry, hroom, ok_bind,
          pure_eq, Bool.not_false, if_true, false_eq_true, if_false]
      · -- a full queue is not empty
        have hreq := c.reqQueueLimit_pos
        have hresp := c.respQueueLimit_pos
        rcases or_eq_true_iff.1 hroom with hfull | hfull
        · have hlen : s.bridge.masterPort.transmitList.length = c.reqQueueLimit :=
            of_decide_eq_true hfull
          exact .inl (ne_nil_of_length_pos
            (show 0 < s.bridge.masterPort.transmitList.length by omega))
        · have hout : s.bridge.outstandingResponses = c.respQueueLimit :=
            of_decide_eq_true (and_eq_true_iff.1 hfull).2
          exact .inr (show 0 < s.bridge.outstandingResponses by omega)
    · exact h.accept hp hretry hroom

/-- The responses that have come are not more than the requests that have been accepted and expect
one. -/
lemma Inv.length_le : s.resp.entered.length ≤ (expecting s.req.entered).length := by
  have hle : (s.resp.entered.map (·.pkt.id) : Multiset ℕ) ≤ expecting (s.req.left.map Prod.snd) :=
    le_iff_count.2 fun i => by simpa using h.matched i
  have hcard := Multiset.card_le_card hle
  rw [coe_card, coe_card, length_map] at hcard
  rw [h.req.order, expecting_append, length_append]
  omega

lemma Inv.reqSent (hsend : s.req.sending) :
    ∃ s', s.step c (.reqReturned true) = .ok s' ∧ Inv c s' ∧ s'.bridge.retryReq = false ∧
      s'.bridge.retries = s.bridge.retries + if s.bridge.retryReq then 1 else 0 := by
  obtain ⟨d, l, hl, -⟩ := h.req.head_of_sending hsend
  obtain ⟨t, p, hnext, hp, hside⟩ := h.req.take (c := c) hsend s.bridge
  set b1 : Bridge := { s.bridge with tick := t, masterPort := p } with hb1
  refine ⟨{ s with bridge := b1.retryStalledReq, req := s.req.take s.bridge.masterPort s.curTick },
    ?_, ?_⟩
  · simp only [System.step, Bridge.reqSent, hnext, ok_bind, pure_eq, hb1]
  have hlen := h.reqLimit
  have hleft : (s.req.take s.bridge.masterPort s.curTick).left =
      s.req.left ++ [(s.curTick, d)] := by
    simp [Peer.take, hl]
  simp only [retryStalledReq_eq]
  refine ⟨⟨hside, h.resp, ?_, h.respLimit, h.outstanding, fun i => ?_, by simp⟩, trivial, rfl⟩
  · simp only [hb1, hp, length_tail]
    omega
  · rw [hleft, map_append, expecting_append, count_append]
    exact (h.matched i).trans (Nat.le_add_right _ _)

/-! ### Responses -/

lemma Inv.recvTimingResp (hp : Permitted s (.recvTimingResp pkt)) :
    ∃ s', s.step c (.recvTimingResp pkt) = .ok s' ∧ Inv c s' := by
  set b : Bridge := s.bridge.update c s.curTick with hb
  have hready : s.curTick ≤ b.readyTick c pkt :=
    ((le_edge c s.curTick s.bridge.tick).trans (Nat.le_add_right _ _)).trans (Nat.le_add_right _ _)
  have harrival : s.arrival c pkt = ⟨b.readyTick c pkt, pkt.received⟩ := rfl
  have hside : Side b.slavePort s.resp s.curTick := h.resp
  obtain ⟨p, hfirst, hl, hside'⟩ := hside.push hready pkt.received
  rw [← harrival] at hside'
  refine ⟨{ s with
    bridge := { b with slavePort := ⟨p.transmitList ++ [s.arrival c pkt], p.sendEvent⟩ }
    resp := s.resp.enter (s.arrival c pkt) }, ?_, ?_⟩
  · simp only [System.step, Bridge.recvTimingResp, ← hb, hfirst, ok_bind, pure_eq, harrival]
  · refine ⟨h.req, hside', h.reqLimit, h.respLimit, h.outstanding, fun i => ?_, h.stalled⟩
    have hcount := h.matched i
    rw [Peer.enter]
    by_cases hi : i = pkt.id
    · have hlt : (s.resp.entered.map (·.pkt.id)).count pkt.id <
        (expecting (s.req.left.map Prod.snd)).count pkt.id := hp
      subst hi
      simpa [System.arrival, Packet.received] using hlt
    · simpa [System.arrival, Packet.received, Ne.symm hi] using hcount

/-- A response leaves: there was room reserved for it.  If the request queue is not full, a
request that is stalled gets its retry. -/
lemma Inv.respSent (hsend : s.resp.sending) :
    ∃ s', s.step c (.respReturned true) = .ok s' ∧ Inv c s' ∧
      (s.bridge.masterPort.transmitList = [] → s'.bridge.retryReq = false ∧
        s'.bridge.retries = s.bridge.retries + if s.bridge.retryReq then 1 else 0) := by
  obtain ⟨d, l, hl, -⟩ := h.resp.head_of_sending hsend
  have hpos : 0 < s.bridge.outstandingResponses := by
    have hle := h.length_le
    have hout := h.outstanding
    rw [h.resp.order, hl, length_append, length_map, length_cons] at hle
    omega
  set b0 : Bridge := { s.bridge with
    outstandingResponses := s.bridge.outstandingResponses - 1 } with hb0
  obtain ⟨t, p, hnext, hp, hside⟩ := h.resp.take (c := c) hsend b0
  set b1 : Bridge := { b0 with tick := t, slavePort := p } with hb1
  set b2 : Bridge := if b1.reqQueueFull c then b1 else b1.retryStalledReq with hb2
  have hne : (s.bridge.outstandingResponses != 0) := by simpa using hpos.ne'
  refine ⟨{ s with bridge := b2, resp := s.resp.take s.bridge.slavePort s.curTick }, ?_, ?_⟩
  · simp only [System.step, Bridge.respSent, require, hne, ok_bind, pure_eq, if_true]
    rw [hnext]
    rfl
  obtain ⟨hmaster, hslave, hout⟩ : b2.masterPort = s.bridge.masterPort ∧ b2.slavePort = p ∧
      b2.outstandingResponses = s.bridge.outstandingResponses - 1 := by
    rw [hb2, retryStalledReq_eq]
    split_ifs <;> exact ⟨rfl, rfl, rfl⟩
  have hleft : (s.resp.take s.bridge.slavePort s.curTick).left.length = s.resp.left.length + 1 := by
    simp [Peer.take, hl]
  have hlimit := h.respLimit
  have houtstanding := h.outstanding
  have hreq := c.reqQueueLimit_pos
  refine ⟨⟨?_, ?_, ?_, ?_, ?_, h.matched, fun hr => ?_⟩, fun hnil => ?_⟩
  · exact hmaster ▸ h.req
  · exact hslave ▸ hside
  · exact hmaster ▸ h.reqLimit
  · change b2.outstandingResponses ≤ _
    omega
  · rw [hleft, hout, ← houtstanding]
    omega
  · -- no retry was sent, so the request queue is full
    by_cases hfull : b1.reqQueueFull c
    · have hlen : s.bridge.masterPort.transmitList.length = c.reqQueueLimit :=
        of_decide_eq_true hfull
      refine .inl ?_
      rw [hmaster]
      exact ne_nil_of_length_pos (by omega)
    · rw [hb2, if_neg hfull, retryStalledReq_eq] at hr
      cases hr
  · have hfull : ¬ b1.reqQueueFull c := by
      simp [reqQueueFull, hb1, hb0, hnil, hreq.ne]
    rw [hb2, if_neg hfull, retryStalledReq_eq]
    exact ⟨rfl, rfl⟩

/-! ### Runs -/

lemma Inv.step {a : Action} (hok : Permitted s a) : ∃ s', s.step c a = .ok s' ∧ Inv c s' := by
  cases a with
  | advance tick =>
    obtain ⟨hle, hreq, hresp, -⟩ := hok
    exact ⟨_, rfl, { h with req := h.req.advance hle hreq, resp := h.resp.advance hle hresp }⟩
  | recvTimingReq pkt => exact h.recvTimingReq hok
  | recvTimingResp pkt => exact h.recvTimingResp hok
  | reqSendEvent =>
    obtain ⟨hrun, hside⟩ := h.req.fire hok
    refine ⟨⟨{ s.bridge with masterPort := s.bridge.masterPort.fire }, s.curTick, s.req.call,
      s.resp⟩, ?_, { h with req := hside }⟩
    simp only [System.step, hrun, ok_bind]
    rfl
  | recvReqRetry =>
    obtain ⟨hrun, hside⟩ := h.req.retry hok
    refine ⟨⟨s.bridge, s.curTick, s.req.call, s.resp⟩, ?_, { h with req := hside }⟩
    simp only [System.step, hrun, ok_bind]
    rfl
  | reqReturned accepted =>
    cases accepted with
    | false => exact ⟨_, rfl, { h with req := h.req.refuse hok }⟩
    | true =>
      obtain ⟨s', hrun, h', -⟩ := h.reqSent hok
      exact ⟨s', hrun, h'⟩
  | respSendEvent =>
    obtain ⟨hrun, hside⟩ := h.resp.fire hok
    refine ⟨⟨{ s.bridge with slavePort := s.bridge.slavePort.fire }, s.curTick, s.req,
      s.resp.call⟩, ?_, { h with resp := hside }⟩
    simp only [System.step, hrun, ok_bind]
    rfl
  | recvRespRetry =>
    obtain ⟨hrun, hside⟩ := h.resp.retry hok
    refine ⟨⟨s.bridge, s.curTick, s.req, s.resp.call⟩, ?_, { h with resp := hside }⟩
    simp only [System.step, hrun, ok_bind]
    rfl
  | respReturned accepted =>
    cases accepted with
    | false => exact ⟨_, rfl, { h with resp := h.resp.refuse hok }⟩
    | true =>
      obtain ⟨s', hrun, h', -⟩ := h.respSent hok
      exact ⟨s', hrun, h'⟩

end

/-- The packets that were accepted have left in the same order, or are in the queue; none has left
before it was ready; and if there is one in the queue, the next one waits for the event, for a peer
that is called, or for the retry of a peer. -/
structure Forwards (p : SendPort) (h : Peer) : Prop where
  order : h.entered = h.left.map Prod.snd ++ p.transmitList
  onTime : ∀ x ∈ h.left, x.2.tick ≤ x.1
  pending : p.transmitList ≠ [] → p.sendEvent.isSome ∨ h.sending ∨ h.waiting

/-- The requests that have been accepted and expect a response which has not been sent. -/
def System.unanswered (s : System) : Multiset ℕ :=
  (expecting s.req.entered : Multiset ℕ) - (s.resp.left.map (·.2.pkt.id) : Multiset ℕ)

/-- Both directions forward in order and on time, within the limits. -/
structure Sound (c : Params) (s : System) : Prop where
  requests : Forwards s.bridge.masterPort s.req
  responses : Forwards s.bridge.slavePort s.resp
  answered : (s.resp.left.map (·.2.pkt.id) : Multiset ℕ) ≤ expecting s.req.entered
  outstanding : s.bridge.outstandingResponses = s.unanswered.card
  reqLimit : s.bridge.masterPort.transmitList.length ≤ c.reqQueueLimit
  respLimit : s.bridge.outstandingResponses ≤ c.respQueueLimit
  stalled : s.bridge.retryReq →
    s.bridge.masterPort.transmitList ≠ [] ∨ 0 < s.bridge.outstandingResponses

lemma Side.forwards {p : SendPort} {h : Peer} {curTick : ℕ} (hs : Side p h curTick) :
    Forwards p h := by
  refine ⟨hs.order, hs.onTime, fun hne => ?_⟩
  obtain ⟨d, l, hl⟩ := exists_cons_of_ne_nil hne
  obtain ⟨t, ht, -⟩ | ⟨-, -, hxor⟩ := hs.busy d l hl
  · exact .inl (by simp [ht])
  · cases hw : h.waiting with
    | true => exact .inr (.inr rfl)
    | false => exact .inr (.inl (by simpa [hw] using hxor))

lemma Inv.sound (h : Inv c s) : Sound c s := by
  have hanswered : (s.resp.left.map (·.2.pkt.id) : Multiset ℕ) ≤ expecting s.req.entered := by
    refine le_iff_count.2 fun i => ?_
    have hi := h.matched i
    rw [h.resp.order, map_append, count_append, map_map] at hi
    rw [h.req.order, expecting_append, coe_count, coe_count, count_append]
    exact (Nat.le_of_add_right_le hi).trans (Nat.le_add_right _ _)
  refine ⟨h.req.forwards, h.resp.forwards, hanswered, ?_, h.reqLimit, h.respLimit, h.stalled⟩
  have hout := h.outstanding
  rw [System.unanswered, Multiset.card_sub hanswered, coe_card, coe_card,
    length_map]
  omega

end ChipletGem5.Bridge
