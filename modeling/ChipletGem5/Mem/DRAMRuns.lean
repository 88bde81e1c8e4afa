import ChipletGem5.Mem.DRAMQueues
import ChipletGem5.Lib.Exec

/-!
# Every read is answered once

The bursts of a read that are queued and not done are its outstanding bursts.  The invariant says
that the answered requests are those without outstanding bursts, each answered once, and that
the burst helper of a request counts the bursts that are not outstanding (`Requests`).  For the
write queue it says that there is one entry for each address in `isInWriteQueue` (`Contents`).
-/

namespace ChipletGem5.DRAM

open Buckets DRAMCtrl Function Multiset Nat

variable {cfg : Config} {s s' : DRAMCtrl} {dir : BusState} {m p : ℕ} {e : DRAMPacket} {b : Burst}
  {pkt : Pkt}

/-! ### The invariant -/

/-- An entry of the write queue has all the bytes of a burst. -/
def Covered (cfg : Config) (s : DRAMCtrl) (x : ℕ × ℕ) : Prop :=
  ∃ b ∈ s.queued cfg .WRITE, b.addr ≤ x.1 ∧ x.1 + x.2 ≤ b.addr + b.size

instance (cfg : Config) (s : DRAMCtrl) : DecidablePred (Covered cfg s) := fun _ =>
  Multiset.decidableExistsMultiset

/-- The bursts of reads that are queued, or wait for their response. -/
def DRAMCtrl.pending (cfg : Config) (s : DRAMCtrl) : Multiset Burst :=
  s.queued cfg .READ + (s.respQueue.map DRAMPacket.toBurst : Multiset Burst)

/-- The bursts of a request among them. -/
def DRAMCtrl.outstanding (cfg : Config) (s : DRAMCtrl) (i : ℕ) : Multiset Burst :=
  (s.pending cfg).filter (·.pkt = i)

/-- What is in the queues, with the totals and the set of burst addresses. -/
structure Contents (cfg : Config) (s : DRAMCtrl) : Prop where
  total : ∀ dir, s.totalQueueSize dir = (s.queued cfg dir).card
  times : ∀ m a, s.requestTimes m a =
    (s.queued cfg .READ + s.queued cfg .WRITE).countP fun b => b.masterId = m ∧ b.addr = a
  inWriteQueue : s.isInWriteQueue =
    ((s.queued cfg .WRITE).map fun b => cfg.burstAlign b.addr).toFinset
  onePerBurst : ((s.queued cfg .WRITE).map fun b => cfg.burstAlign b.addr).Nodup
  inBurst : ∀ b ∈ s.queued cfg .WRITE, b.addr / cfg.burstSize =
    (b.addr + b.size - 1) / cfg.burstSize ∧ b.addr < 2 ^ 64

/-- Requests and their outstanding bursts. -/
structure Requests (cfg : Config) (s : DRAMCtrl) : Prop where
  lt : ∀ b ∈ s.pending cfg, b.pkt < s.requests
  response_lt : ∀ i ∈ s.responses, i < s.requests
  answered : ∀ i < s.requests, s.responses.count i = if s.outstanding cfg i = 0 then 1 else 0
  single : ∀ b ∈ s.pending cfg, b.burstHelper = none → s.outstanding cfg b.pkt = {b}
  sameHelper : ∀ b ∈ s.pending cfg, ∀ b' ∈ s.pending cfg, b.pkt = b'.pkt →
    b.burstHelper = b'.burstHelper
  ownHelper : ∀ b ∈ s.pending cfg, ∀ b' ∈ s.pending cfg, ∀ h, b.burstHelper = some h →
    b'.burstHelper = some h → b.pkt = b'.pkt
  helper : ∀ b ∈ s.pending cfg, ∀ h, b.burstHelper = some h → h < s.nextHelper ∧
    ∃ n, s.helpers h = some ⟨n + (s.outstanding cfg b.pkt).card, n⟩

structure Inv (cfg : Config) (s : DRAMCtrl) : Prop where
  counted : Counted cfg s
  contents : Contents cfg s
  requests : Requests cfg s

lemma Contents.congr (h : Contents cfg s) (hs : SameContents cfg s s') : Contents cfg s' where
  total dir := by rw [hs.totalQueueSize, hs.queued, h.total]
  times m a := by rw [hs.requestTimes, hs.queued, hs.queued, h.times]
  inWriteQueue := by rw [hs.isInWriteQueue, hs.queued, h.inWriteQueue]
  onePerBurst := by rw [hs.queued]; exact h.onePerBurst
  inBurst := by rw [hs.queued]; exact h.inBurst

lemma SameContents.pending (hs : SameContents cfg s s') : s'.pending cfg = s.pending cfg := by
  rw [DRAMCtrl.pending, hs.queued, hs.respQueue, DRAMCtrl.pending]

lemma Requests.of_pending (h : Requests cfg s) (hpending : s'.pending cfg = s.pending cfg)
    (hreq : s'.requests = s.requests) (hresp : s'.responses = s.responses)
    (hhelpers : s'.helpers = s.helpers) (hnext : s'.nextHelper = s.nextHelper) :
    Requests cfg s' := by
  have hout : ∀ i, s'.outstanding cfg i = s.outstanding cfg i := fun i => by
    rw [outstanding, hpending]
    rfl
  constructor <;> simp only [hpending, hreq, hresp, hhelpers, hnext, hout]
  exacts [h.lt, h.response_lt, h.answered, h.single, h.sameHelper, h.ownHelper, h.helper]

/-! ### Reads from the write queue -/

variable {s₀ : DRAMCtrl} {new : Multiset Burst} {prio lo hi : ℕ} {done : List (ℕ × ℕ)} {x : ℕ × ℕ}

lemma Contents.align_eq (h : Contents cfg s)
    (hx : Piece cfg.burstSize lo hi x) (hhi : hi < 2 ^ 64) (hb : b ∈ s.queued cfg .WRITE)
    (hle : b.addr ≤ x.1) (hend : x.1 + x.2 ≤ b.addr + b.size) :
    cfg.burstAlign b.addr = cfg.burstAlign x.1 := by
  obtain ⟨hsame, hlt⟩ := h.inBurst b hb
  have hpos := hx.pos
  have hend' := hx.end_le
  rw [Config.burstAlign_eq hlt, Config.burstAlign_eq (by omega)]
  refine congrArg (· * _) (le_antisymm (Nat.div_le_div_right hle) ?_)
  rw [hsame]
  exact Nat.div_le_div_right (by omega)

lemma Contents.servicedByWrQ_eq (h : Contents cfg s)
    (hx : Piece cfg.burstSize lo hi x) (hhi : hi < 2 ^ 64) :
    s.servicedByWrQ cfg x.1 x.2 = if Covered cfg s x then 1 else 0 := by
  unfold servicedByWrQ
  by_cases hcov : Covered cfg s x
  · rw [if_pos hcov]
    obtain ⟨b, hb, hle, hend⟩ := hcov
    have halign := h.align_eq hx hhi hb hle hend
    obtain ⟨p0, hp0, e, he, rfl⟩ := mem_queued.1 hb
    have hin : cfg.burstAlign x.1 ∈ s.isInWriteQueue := by
      rw [h.inWriteQueue, mem_toFinset, ← halign]
      exact mem_map_of_mem _ hb
    rw [if_pos hin]
    have honly : ∀ p ∈ List.range cfg.numPriorities,
        (((s.queue .WRITE p).any (subsumes x.1 x.2)) ↔ (p == p0)) := by
      intro p hp
      rw [List.any_eq_true, beq_iff_eq]
      constructor
      · rintro ⟨e', he', hsub⟩
        simp only [subsumes, Bool.and_eq_true, decide_eq_true_eq] at hsub
        have hb' : e'.toBurst ∈ s.queued cfg .WRITE :=
          mem_queued.2 ⟨p, List.mem_range.1 hp, e', he', rfl⟩
        have hnodup := h.onePerBurst
        rw [queued, map_map] at hnodup
        exact eq_of_nodup_map hnodup (List.mem_range.1 hp) hp0 he' he
          ((h.align_eq hx hhi hb' hsub.1 hsub.2).trans halign.symm)
      · rintro rfl
        exact ⟨e, he, by simp [subsumes, hle, hend]⟩
    rw [List.countP_congr honly]
    exact List.count_eq_one_of_mem List.nodup_range (List.mem_range.2 hp0)
  · split_ifs
    · refine List.countP_eq_zero.2 fun p hp => ?_
      rw [List.any_eq_true]
      rintro ⟨e, he, hsub⟩
      simp only [subsumes, Bool.and_eq_true, decide_eq_true_eq] at hsub
      exact hcov ⟨e.toBurst, mem_queued.2 ⟨p, List.mem_range.1 hp, e, he, rfl⟩, hsub.1,
        hsub.2⟩
    · rfl

/-! ### New entries -/

namespace DRAMCtrl

/-- The controller after an entry has been added to its queue and logged. -/
def pushed (s : DRAMCtrl) (dir : BusState) (e : DRAMPacket) : DRAMCtrl :=
  (s.setQueue dir e.qosValue (s.queue dir e.qosValue ++ [e])).logRequest dir e.masterId e.qosValue
    e.addr

lemma totalQueueSize_pushed (s : DRAMCtrl) (dir : BusState) (e : DRAMPacket) :
    (s.pushed dir e).totalQueueSize dir = s.totalQueueSize dir + 1 := by
  simp [pushed, logRequest, setQueue]

variable {dir' : BusState} {i : ℕ} {l : DRAMCtrl.ReadLoop}

lemma queued_pushed (he : e.qosValue < cfg.numPriorities) :
    (s.pushed dir e).queued cfg dir = e.toBurst ::ₘ s.queued cfg dir :=
  queued_push he

lemma queued_pushed_of_ne (h : dir' ≠ dir) : (s.pushed dir e).queued cfg dir' = s.queued cfg dir' :=
  queued_setQueue_of_ne _ h

end DRAMCtrl

/-- One burst more is queued in `s'` than in `s`. -/
def OneMore (cfg : Config) (s s' : DRAMCtrl) (dir : BusState) (b : Burst) : Prop :=
  s'.queued cfg dir = b ::ₘ s.queued cfg dir ∧
    ∀ d, d ≠ dir → s'.queued cfg d = s.queued cfg d

lemma OneMore.card (h : OneMore cfg s s' dir b) (d : BusState) :
    (s'.queued cfg d).card = (s.queued cfg d).card + if d = dir then 1 else 0 := by
  split_ifs with hd
  · rw [hd, h.1, card_cons]
  · rw [h.2 d hd, add_zero]

lemma OneMore.countP (h : OneMore cfg s s' dir b) (m a : ℕ) :
    (s'.queued cfg .READ + s'.queued cfg .WRITE).countP (fun b => b.masterId = m ∧ b.addr = a) =
      (s.queued cfg .READ + s.queued cfg .WRITE).countP (fun b => b.masterId = m ∧ b.addr = a) +
        if m = b.masterId ∧ a = b.addr then 1 else 0 := by
  have hsum : s'.queued cfg .READ + s'.queued cfg .WRITE =
      b ::ₘ (s.queued cfg .READ + s.queued cfg .WRITE) := by
    cases dir with
    | READ => rw [h.1, h.2 .WRITE (by simp), cons_add]
    | WRITE => rw [h.1, h.2 .READ (by simp), add_cons]
  rw [hsum, countP_cons]
  simp only [eq_comm]

lemma oneMore_pushed (he : e.qosValue < cfg.numPriorities) :
    OneMore cfg s (s.pushed dir e) dir e.toBurst :=
  ⟨queued_pushed he, fun _ => queued_pushed_of_ne⟩

section

variable (h : Contents cfg s) (he : e.qosValue < cfg.numPriorities)
include h he

lemma Contents.total_pushed
    (d : BusState) : (s.pushed dir e).totalQueueSize d = ((s.pushed dir e).queued cfg d).card := by
  rw [(oneMore_pushed he).card, ← h.total]
  change update s.totalQueueSize dir (s.totalQueueSize dir + 1) d = _
  rw [update_apply]
  split_ifs with hd
  · rw [hd]
  · rfl

lemma Contents.times_pushed (m a : ℕ) : (s.pushed dir e).requestTimes m a =
      ((s.pushed dir e).queued cfg .READ + (s.pushed dir e).queued cfg .WRITE).countP
        fun b => b.masterId = m ∧ b.addr = a := by
  rw [(oneMore_pushed he).countP, ← h.times]
  change add₂ s.requestTimes e.masterId e.addr (s.requestTimes e.masterId e.addr + 1) m a = _
  split_ifs with hm
  · rw [hm.1, hm.2, add₂_self]
  · exact add₂_of_ne _ _ hm

lemma Contents.pushRead : Contents cfg (s.pushed .READ e) :=
  { h with
    total := h.total_pushed he
    times := h.times_pushed he }

lemma Contents.pushWrite
    (hin : e.addr / cfg.burstSize = (e.addr + e.size - 1) / cfg.burstSize) (hlt : e.addr < 2 ^ 64)
    (hnew : cfg.burstAlign e.addr ∉ s.isInWriteQueue) :
    Contents cfg { s.pushed .WRITE e with
      isInWriteQueue := insert (cfg.burstAlign e.addr) s.isInWriteQueue } := by
  have hq : (s.pushed .WRITE e).queued cfg .WRITE = e.toBurst ::ₘ s.queued cfg .WRITE :=
    queued_pushed he
  refine ⟨h.total_pushed he, h.times_pushed he, ?_, ?_, ?_⟩
  · change insert _ _ = ((queued cfg (s.pushed .WRITE e) .WRITE).map _).toFinset
    rw [hq, map_cons, toFinset_cons, h.inWriteQueue]
  · change ((queued cfg (s.pushed .WRITE e) .WRITE).map _).Nodup
    rw [hq, map_cons, nodup_cons]
    refine ⟨fun hmem => hnew ?_, h.onePerBurst⟩
    rw [h.inWriteQueue]
    exact mem_toFinset.2 hmem
  · change ∀ b ∈ queued cfg (s.pushed .WRITE e) .WRITE, _
    rw [hq]
    intro b hb
    obtain rfl | hb := mem_cons.1 hb
    · exact ⟨hin, hlt⟩
    · exact h.inBurst b hb

end

/-! ### New requests -/

lemma Requests.outstanding_new (h : Requests cfg s) : s.outstanding cfg s.requests = 0 :=
  filter_eq_nil.2 fun b hb => (h.lt b hb).ne

lemma Requests.count_new (h : Requests cfg s) : s.responses.count s.requests = 0 :=
  List.count_eq_zero_of_not_mem fun hmem => absurd (h.response_lt _ hmem) (lt_irrefl _)

lemma mem_append_ite {l : List ℕ} {c : Prop} [Decidable c] {j : ℕ}
    (h : i ∈ l ++ if c then [j] else []) : i ∈ l ∨ i = j := by
  obtain h | h := List.mem_append.1 h
  · exact .inl h
  · split_ifs at h
    · exact .inr (List.mem_singleton.1 h)
    · simp at h

lemma count_append_ite (l : List ℕ) (c : Prop) [Decidable c] (i j : ℕ) :
    (l ++ if c then [j] else []).count i = l.count i + if i = j then if c then 1 else 0 else 0 := by
  rw [List.count_append]
  split_ifs with hc hi
  · rw [hi, List.count_singleton_self]
  · rw [List.count_singleton, if_neg (by simpa using Ne.symm hi)]
  all_goals rfl

/-- The controller after a request has been accepted: the bursts `new` are outstanding for it. -/
structure Accepted (cfg : Config) (s₀ s : DRAMCtrl) (new : Multiset Burst) : Prop where
  pending : s.pending cfg = new + s₀.pending cfg
  requests : s.requests = s₀.requests + 1
  pkt : ∀ b ∈ new, b.pkt = s₀.requests

lemma Accepted.outstanding_of_ne (h : Accepted cfg s₀ s new) (hi : i ≠ s₀.requests) :
    s.outstanding cfg i = s₀.outstanding cfg i := by
  have hnil : new.filter (·.pkt = i) = 0 :=
    filter_eq_nil.2 fun b hb he => hi (he.symm.trans (h.pkt b hb))
  rw [outstanding, h.pending, filter_add, hnil, zero_add]
  rfl

lemma Accepted.outstanding_self (h : Accepted cfg s₀ s new) (h0 : Requests cfg s₀) :
    s.outstanding cfg s₀.requests = new := by
  have hall : new.filter (·.pkt = s₀.requests) = new := filter_eq_self.2 h.pkt
  have hnil := h0.outstanding_new
  rw [outstanding] at hnil
  rw [outstanding, h.pending, filter_add, hall, hnil, add_zero]

/-- A request is accepted, with bursts `new` that all have the helper `hlp`. -/
lemma Requests.accept {hlp : Option ℕ}
    (h0 : Requests cfg s₀) (h : Accepted cfg s₀ s new) (hnext : s₀.nextHelper ≤ s.nextHelper)
    (hhelpers : ∀ i < s₀.nextHelper, s.helpers i = s₀.helpers i)
    (hresp : s.responses = s₀.responses ++ if new = 0 then [s₀.requests] else [])
    (hnew : ∀ b ∈ new, b.burstHelper = hlp) (hnone : hlp = none → new.card ≤ 1)
    (hsome : new ≠ 0 → ∀ i, hlp = some i → i = s₀.nextHelper ∧ i < s.nextHelper ∧
      ∃ n, s.helpers i = some ⟨n + new.card, n⟩) : Requests cfg s := by
  have hne : ∀ {b}, b ∈ new → new ≠ 0 := fun hb hz => by simp [hz] at hb
  have hmem : ∀ {b}, b ∈ s.pending cfg → b ∈ new ∨ (b ∈ s₀.pending cfg ∧ b.pkt ≠ s₀.requests) := by
    intro b hb
    rw [h.pending] at hb
    obtain hb | hb := mem_add.1 hb
    · exact .inl hb
    · exact .inr ⟨hb, (h0.lt b hb).ne⟩
  refine ⟨fun b hb => ?_, fun i hi => ?_, fun i hi => ?_, fun b hb hb' => ?_,
    fun b hb b' hb' he => ?_,
    fun b hb b' hb' i he he' => ?_, fun b hb i he => ?_⟩
  -- the new request has the next number, and is answered if nothing was queued
  · rw [h.requests]
    obtain hb | hb := hmem hb
    · rw [h.pkt b hb]
      exact lt_succ_self _
    · exact lt_succ_of_lt (h0.lt b hb.1)
  · rw [h.requests]
    rw [hresp] at hi
    obtain hi | rfl := mem_append_ite hi
    · exact lt_succ_of_lt (h0.response_lt i hi)
    · exact lt_succ_self _
  · rw [hresp, count_append_ite]
    rw [h.requests] at hi
    obtain hi | rfl := Nat.lt_succ_iff_lt_or_eq.1 hi
    · rw [h0.answered i hi, if_neg hi.ne, h.outstanding_of_ne hi.ne, add_zero]
    · rw [h0.count_new, if_pos rfl, h.outstanding_self h0, zero_add]
  · obtain hb | ⟨hb, hne⟩ := hmem hb
    · -- a request with one burst
      rw [h.pkt b hb, h.outstanding_self h0]
      obtain ⟨rest, rfl⟩ := exists_cons_of_mem hb
      have hcard := hnone ((hnew b hb).symm.trans hb')
      rw [card_cons] at hcard
      rw [card_eq_zero.1 (by omega : rest.card = 0)]
      rfl
    · rw [h.outstanding_of_ne hne]
      exact h0.single b hb hb'
  · -- a new burst and an old one are of different requests
    obtain hb | ⟨hb, hne⟩ := hmem hb <;> obtain hb' | ⟨hb', hne'⟩ := hmem hb'
    · rw [hnew b hb, hnew b' hb']
    · exact absurd (he.symm.trans (h.pkt b hb)) hne'
    · exact absurd (he.trans (h.pkt b' hb')) hne
    · exact h0.sameHelper b hb b' hb' he
  · -- the helper of the request is a new one
    have hfresh : ∀ c ∈ new, ∀ c' ∈ s₀.pending cfg, c.burstHelper = some i →
        c'.burstHelper = some i → False := fun c hc c' hc' hi hi' => by
      have hnew := (hsome (hne hc) i ((hnew c hc).symm.trans hi)).1
      have hold := (h0.helper c' hc' i hi').1
      omega
    obtain hb | ⟨hb, -⟩ := hmem hb <;> obtain hb' | ⟨hb', -⟩ := hmem hb'
    · rw [h.pkt b hb, h.pkt b' hb']
    · exact (hfresh b hb b' hb' he he').elim
    · exact (hfresh b' hb' b hb he' he).elim
    · exact h0.ownHelper b hb b' hb' i he he'
  · -- the helpers of the old requests are as they were
    obtain hb | ⟨hb, hne⟩ := hmem hb
    · rw [h.pkt b hb, h.outstanding_self h0]
      exact (hsome (hne hb) i ((hnew b hb).symm.trans he)).2
    · obtain ⟨hlt, n, hn⟩ := h0.helper b hb i he
      rw [h.outstanding_of_ne hne, hhelpers i hlt]
      exact ⟨hlt.trans_le hnext, n, hn⟩

/-! ### Writes -/

/-- What concerns reads is the same. -/
structure SameReads (s s' : DRAMCtrl) : Prop where
  queue : s'.queue .READ = s.queue .READ
  respQueue : s'.respQueue = s.respQueue
  helpers : s'.helpers = s.helpers
  nextHelper : s'.nextHelper = s.nextHelper
  requests : s'.requests = s.requests
  responses : s'.responses = s.responses

lemma writeBursts_ok (pkt : Pkt) (hp : prio < cfg.numPriorities)
    (hhi : hi < 2 ^ 64) {l : List (ℕ × ℕ)} (hl : ∀ x ∈ l, Piece cfg.burstSize lo hi x)
    (hc : Counted cfg s)
    (h : Contents cfg s) (hroom : s.totalQueueSize .WRITE + l.length ≤ cfg.writeBufferSize) :
    ∃ s', l.foldlM (writeBurst cfg pkt prio) s = .ok s' ∧ Counted cfg s' ∧
      Contents cfg s' ∧ SameReads s s' ∧
      s'.totalQueueSize .WRITE ≤ s.totalQueueSize .WRITE + l.length := by
  apply foldlM_ok l ⟨hc, h, ⟨rfl, rfl, rfl, rfl, rfl, rfl⟩, le_rfl⟩
  rintro done s x hdone ⟨hc, h, hsame, hle⟩
  have hx := hl x (hdone.subset (by simp))
  have hend := hx.end_le
  have hpos := hx.pos
  have hlen := hdone.length_le
  rw [List.length_append, List.length_singleton] at hlen ⊢
  by_cases hmerged : cfg.burstAlign x.1 ∈ s.isInWriteQueue
  · exact ⟨s, if_pos hmerged, hc, h, hsame, by omega⟩
  · set e : DRAMPacket := ⟨⟨s.requests, pkt.masterId, x.1, x.2, none⟩, prio⟩ with he
    set s1 : DRAMCtrl := { s.pushed .WRITE e with
      isInWriteQueue := insert (cfg.burstAlign e.addr) s.isInWriteQueue } with hs1
    have h1 : Contents cfg s1 := h.pushWrite hp hx.same (by rw [he]; simp only; omega) hmerged
    have hpush := hc.push (e := e) .WRITE hp ⟨hpos, hx.size_le cfg.burstSize_pos⟩
    have htotal : s1.totalQueueSize .WRITE = s.totalQueueSize .WRITE + 1 :=
      s.totalQueueSize_pushed .WRITE e
    have hcard : s1.totalQueueSize .WRITE = s1.isInWriteQueue.card := by
      rw [h1.total, h1.inWriteQueue, toFinset_card_of_nodup h1.onePerBurst, card_map]
    refine ⟨s1, ?_, { hpush with }, h1, { hsame with }, by omega⟩
    rw [writeBurst, if_neg hmerged]
    exact bind_eq_ok.2 ⟨(), require_eq_ok.2 (decide_eq_true (by omega)),
      bind_eq_ok.2 ⟨(), require_eq_ok.2 (decide_eq_true hcard), rfl⟩⟩

lemma Requests.respond_new (h : Requests cfg s) :
    Requests cfg ({ s with requests := s.requests + 1 }.accessAndRespond s.requests) := by
  have hacc : Accepted cfg s ({ s with requests := s.requests + 1 }.accessAndRespond s.requests)
      0 := ⟨(zero_add _).symm, rfl, by simp⟩
  have hnew : ∀ b ∈ (0 : Multiset Burst), b.burstHelper = none := by simp
  exact h.accept hacc le_rfl (fun _ _ => rfl) (by rw [if_pos rfl]; rfl) hnew (by simp) nofun

lemma Inv.addToWriteQueue (h : Inv cfg s) (hp : prio < cfg.numPriorities)
    (hfits : cfg.Fits pkt) (hsize : 0 < pkt.size) (hw : pkt.isWrite)
    (hroom : s.writeQueueFull cfg (cfg.pktCount pkt) = false) :
    ∃ s', s.addToWriteQueue cfg pkt prio = .ok s' ∧ Inv cfg s' ∧ s'.requests = s.requests + 1 := by
  have hb := cfg.burstSize_pos
  have hfit := hfits.2.1
  have hlen : (cfg.bursts pkt).length = cfg.pktCount pkt := cfg.length_burstsFrom _ _ _
  obtain ⟨s1, hrun, hc, hcont, hsame, -⟩ := writeBursts_ok pkt hp
    (show cfg.getCtrlAddr pkt.addr + pkt.size < 2 ^ 64 by omega)
    (fun x hx => (hfits.tiles hsize).piece hx) h.counted h.contents (by
      rw [hlen]
      simpa [writeQueueFull] using hroom)
  have hpending : s1.pending cfg = s.pending cfg := by
    rw [pending, queued, hsame.queue, hsame.respQueue]
    rfl
  refine ⟨{ s1 with requests := s1.requests + 1 }.accessAndRespond s1.requests, ?_,
    ⟨{ hc with }, { hcont with },
      (h.requests.of_pending hpending hsame.5 hsame.6 hsame.3 hsame.4).respond_new⟩,
    congrArg (· + 1) hsame.requests⟩
  simp only [DRAMCtrl.addToWriteQueue, require, hw, if_true, ok_bind, hrun]
  rfl

/-! ### Reads -/

/-- The loop of `addToReadQueue` after some bursts of a request.  `new` are the bursts that have
been queued: those that the write queue does not have. -/
structure Reading (cfg : Config) (s₀ : DRAMCtrl) (count : ℕ) (done : List (ℕ × ℕ))
    (new : Multiset Burst) (l : DRAMCtrl.ReadLoop) : Prop where
  counted : Counted cfg l.ctrl
  contents : Contents cfg l.ctrl
  writes : l.ctrl.queue .WRITE = s₀.queue .WRITE
  respQueue : l.ctrl.respQueue = s₀.respQueue
  requests : l.ctrl.requests = s₀.requests
  responses : l.ctrl.responses = s₀.responses
  queued : l.ctrl.queued cfg .READ = new + s₀.queued cfg .READ
  pkt : ∀ b ∈ new, b.pkt = s₀.requests ∧ b.burstHelper = l.burstHelper
  bursts : new.map (fun b => (b.addr, b.size)) = (done.filter fun x => ¬ Covered cfg s₀ x : List _)
  serviced : l.pktsServicedByWrQ + new.card = done.length
  noHelper : l.burstHelper = none → l.ctrl.helpers = s₀.helpers ∧
    l.ctrl.nextHelper = s₀.nextHelper ∧ (1 < count → new = 0)
  helper : ∀ h, l.burstHelper = some h → 1 < count ∧ h = s₀.nextHelper ∧
    l.ctrl.nextHelper = s₀.nextHelper + 1 ∧
    l.ctrl.helpers = update s₀.helpers h (some ⟨count, 0⟩)

lemma covered_congr (h : s'.queue .WRITE = s.queue .WRITE) (x : ℕ × ℕ) :
    Covered cfg s' x ↔ Covered cfg s x := by
  simp only [Covered, queued, h]

lemma Reading.withHelper {count : ℕ} (h : Reading cfg s₀ count done new l) :
    ∃ s1 hlp, l.ctrl.withHelper count l.burstHelper = (s1, hlp) ∧
      Reading cfg s₀ count done new ⟨s1, l.pktsServicedByWrQ, hlp⟩ ∧
      s1.totalQueueSize = l.ctrl.totalQueueSize ∧ (hlp = none → ¬ 1 < count) := by
  unfold DRAMCtrl.withHelper
  split_ifs with hnew
  · obtain ⟨hcount, hnone⟩ := hnew
    obtain ⟨hhelpers, hnext, hzero⟩ := h.noHelper hnone
    have hzero := hzero hcount
    refine ⟨_, _, rfl, ?_, rfl, nofun⟩
    refine ⟨{ h.counted with }, { h.contents with }, h.writes, h.respQueue,
      h.requests, h.responses, h.queued, ?_, h.bursts, h.serviced, nofun, ?_⟩
    · rw [hzero]
      simp
    · rintro _ ⟨⟩
      refine ⟨hcount, hnext, congrArg (· + 1) hnext, ?_⟩
      simp only [hhelpers, hnext]
  · refine ⟨_, _, rfl, h, rfl, fun hnone hcount => hnew ⟨hcount, hnone⟩⟩

lemma Reading.readBurst (hp : prio < cfg.numPriorities)
    (hhi : hi < 2 ^ 64) (hx : Piece cfg.burstSize lo hi x)
    (h : Reading cfg s₀ (cfg.pktCount pkt) done new l)
    (hroom : l.ctrl.totalQueueSize .READ + l.ctrl.respQueue.length + 1 ≤ cfg.readBufferSize) :
    ∃ l' new', readBurst cfg pkt prio l x = .ok l' ∧
      Reading cfg s₀ (cfg.pktCount pkt) (done ++ [x]) new' l' ∧
      l'.ctrl.totalQueueSize .READ ≤ l.ctrl.totalQueueSize .READ + 1 := by
  have hfound := h.contents.servicedByWrQ_eq hx hhi
  simp only [covered_congr h.writes] at hfound
  by_cases hcov : Covered cfg s₀ x
  · rw [if_pos hcov] at hfound
    refine ⟨{ l with pktsServicedByWrQ := l.pktsServicedByWrQ + 1 }, new, ?_, ?_, by simp⟩
    · simp only [DRAMCtrl.readBurst, hfound, ne_eq, one_ne_zero, not_false_eq_true, if_true]
      rfl
    · have hserviced := h.serviced
      refine { h with bursts := ?_, serviced := ?_ }
      · rw [h.bursts, List.filter_append]
        simp [hcov]
      · rw [List.length_append, List.length_singleton]
        simp only
        omega
  · rw [if_neg hcov] at hfound
    obtain ⟨s1, hlp, hwith, h1, htotal, hnone⟩ := h.withHelper
    set e : DRAMPacket := ⟨⟨s1.requests, pkt.masterId, x.1, x.2, hlp⟩, prio⟩ with he
    have hqueued : (s1.pushed .READ e).queued cfg .READ = e.toBurst ::ₘ s1.queued cfg .READ :=
      queued_pushed hp
    have hserviced := h1.serviced
    refine ⟨⟨s1.pushed .READ e, l.pktsServicedByWrQ, hlp⟩, e.toBurst ::ₘ new, ?_,
      ⟨h1.counted.push .READ hp ⟨hx.pos, hx.size_le cfg.burstSize_pos⟩, h1.contents.pushRead hp,
        h1.writes, h1.respQueue, h1.requests, h1.responses, ?_, ?_, ?_, ?_,
        fun hn => ?_, h1.helper⟩, ?_⟩
    · simp only [DRAMCtrl.readBurst, hfound, ne_eq, not_true_eq_false, if_false, hwith]
      refine bind_eq_ok.2 ⟨(), require_eq_ok.2 ?_, rfl⟩
      have hresp : s1.respQueue = l.ctrl.respQueue := h1.respQueue.trans h.respQueue.symm
      simp only [readQueueFull, htotal, hresp, Bool.not_eq_true', decide_eq_false_iff_not]
      omega
    · rw [hqueued, h1.queued, cons_add]
    · intro b hb
      obtain rfl | hb := mem_cons.1 hb
      · exact ⟨h1.requests, rfl⟩
      · exact h1.pkt b hb
    · rw [map_cons, h1.bursts, List.filter_append]
      simp [hcov, he, ← coe_add, add_comm]
    · rw [card_cons, List.length_append, List.length_singleton]
      simp only at hserviced ⊢
      omega
    · exact ⟨(h1.noHelper hn).1, (h1.noHelper hn).2.1, fun hcount => absurd hcount (hnone hn)⟩
    · rw [totalQueueSize_pushed, htotal]

lemma Reading.finish {count : ℕ} (h : Reading cfg s₀ count done new l) (h0 : Requests cfg s₀)
    (hlen : done.length = count) (hcount : 0 < count) :
    Inv cfg (finishRead count l) ∧ Accepted cfg s₀ (finishRead count l) new := by
  have hserviced := h.serviced
  have hpending : l.ctrl.pending cfg = new + s₀.pending cfg := by
    rw [pending, h.queued, h.respQueue, add_assoc]
    rfl
  have hpkt : ∀ b ∈ new, b.pkt = s₀.requests := fun b hb => (h.pkt b hb).1
  have hhelper : ∀ b ∈ new, b.burstHelper = l.burstHelper := fun b hb => (h.pkt b hb).2
  have hc := h.counted
  have hcont := h.contents
  have hnext : s₀.nextHelper ≤ l.ctrl.nextHelper ∧
      ∀ i < s₀.nextHelper, l.ctrl.helpers i = s₀.helpers i := by
    cases hlp : l.burstHelper with
    | none => exact ⟨(h.noHelper hlp).2.1.ge, fun i _ => by rw [(h.noHelper hlp).1]⟩
    | some j =>
      obtain ⟨-, rfl, hn, hh⟩ := h.helper j hlp
      exact ⟨by omega, fun i hi => by rw [hh, update_of_ne hi.ne]⟩
  unfold finishRead
  by_cases hall : l.pktsServicedByWrQ = count
  · -- nothing has been queued
    rw [if_pos hall]
    obtain rfl : new = 0 := card_eq_zero.1 (by omega)
    have hacc : Accepted cfg s₀ ({ l.ctrl with requests := l.ctrl.requests + 1 }.accessAndRespond
        l.ctrl.requests) 0 := ⟨hpending, congrArg (· + 1) h.requests, hpkt⟩
    refine ⟨⟨{ hc with }, { hcont with },
      h0.accept hacc hnext.1 hnext.2 ?_ hhelper (by simp) (absurd rfl)⟩, hacc⟩
    rw [← h.requests, ← h.responses]
    rfl
  · rw [if_neg hall]
    have hne : new ≠ 0 := fun hz => hall (by rw [hz, card_zero] at hserviced; omega)
    have hresp : l.ctrl.responses = s₀.responses ++ if new = 0 then [s₀.requests] else [] := by
      rw [if_neg hne, List.append_nil, h.responses]
    have hacc : ∀ helpers, Accepted cfg s₀ { l.ctrl with requests := l.ctrl.requests + 1, helpers }
        new := fun _ => ⟨hpending, congrArg (· + 1) h.requests, hpkt⟩
    cases hlp : l.burstHelper with
    | none =>
      -- one burst, and no helper
      have hone : ¬ 1 < count := fun hlt => hne ((h.noHelper hlp).2.2 hlt)
      exact ⟨⟨{ hc with }, { hcont with },
        h0.accept (hacc _) hnext.1 hnext.2 hresp hhelper (fun _ => by omega)
          fun _ i hi => absurd (hlp.symm.trans hi) nofun⟩, hacc _⟩
    | some j =>
      obtain ⟨-, rfl, hn, hh⟩ := h.helper j hlp
      refine ⟨⟨{ hc with }, { hcont with },
        h0.accept (hacc _) hnext.1 (fun i hi => ?_) hresp hhelper
          (fun hnone => absurd (hlp.symm.trans hnone) nofun) fun _ i hi => ?_⟩, hacc _⟩
      · simp only [update_of_ne hi.ne]
        exact hnext.2 i hi
      · cases hlp.symm.trans hi
        refine ⟨rfl, by simp only; omega, l.pktsServicedByWrQ, ?_⟩
        simp only [update_self, hh, Option.map_some]
        congr 2
        omega

lemma Inv.addToReadQueue (h : Inv cfg s) (hp : prio < cfg.numPriorities)
    (hfits : cfg.Fits pkt) (hsize : 0 < pkt.size) (hw : pkt.isWrite = false)
    (hroom : s.readQueueFull cfg (cfg.pktCount pkt) = false) :
    ∃ s', s.addToReadQueue cfg pkt prio = .ok s' ∧ Inv cfg s' ∧ s'.requests = s.requests + 1 ∧
      (s'.outstanding cfg s.requests).map (fun b => (b.addr, b.size)) =
        ((cfg.bursts pkt).filter fun x => ¬ Covered cfg s x : List _) := by
  have hb := cfg.burstSize_pos
  have hfit := hfits.2.1
  have hlen : (cfg.bursts pkt).length = cfg.pktCount pkt := cfg.length_burstsFrom _ _ _
  have hstart : Reading cfg s (cfg.pktCount pkt) [] 0 ⟨s, 0, none⟩ :=
    ⟨h.counted, h.contents, rfl, rfl, rfl, rfl, (zero_add _).symm, by simp, by simp, rfl,
      fun _ => ⟨rfl, rfl, fun _ => rfl⟩, nofun⟩
  obtain ⟨l, hrun, ⟨new, hl⟩, -⟩ := foldlM_ok (f := DRAMCtrl.readBurst cfg pkt prio)
    (P := fun done l => (∃ new, Reading cfg s (cfg.pktCount pkt) done new l) ∧
      l.ctrl.totalQueueSize .READ ≤ s.totalQueueSize .READ + done.length)
    (cfg.bursts pkt) ⟨⟨0, hstart⟩, le_rfl⟩ (by
      rintro done l x hdone ⟨⟨new, hl⟩, htotal⟩
      have hle := hdone.length_le
      rw [List.length_append, List.length_singleton] at hle ⊢
      obtain ⟨l', new', hrun, hl', htotal'⟩ := hl.readBurst hp
        (show cfg.getCtrlAddr pkt.addr + pkt.size < 2 ^ 64 by omega)
        ((hfits.tiles hsize).piece (hdone.subset (by simp : x ∈ _))) (by
          simp only [readQueueFull, decide_eq_false_iff_not] at hroom
          rw [hl.respQueue]
          omega)
      exact ⟨l', hrun, ⟨new', hl'⟩, by omega⟩)
  obtain ⟨hinv, hacc⟩ := hl.finish h.requests hlen (by
    rw [hfits.1]
    omega)
  refine ⟨_, ?_, hinv, hacc.requests, ?_⟩
  · simp only [DRAMCtrl.addToReadQueue, require, hw, Bool.not_false, if_true, ok_bind, hrun]
    rw [hfits.1]
    rfl
  · rw [hacc.outstanding_self h.requests, hl.bursts]

/-! ### Service -/

/-- The controller after an entry has been taken from its queue. -/
def DRAMCtrl.removed (s : DRAMCtrl) (dir : BusState) (p : ℕ) (e : DRAMPacket)
    (rest : List DRAMPacket) : DRAMCtrl :=
  (s.uncount dir e.masterId p e.addr).setQueue dir p rest

section Removed

variable {u v : List DRAMPacket}

section

variable (hp : p < cfg.numPriorities) (hq : s.queue dir p = u ++ e :: v)
include hp hq

lemma oneMore_removed : OneMore cfg (s.removed dir p e (u ++ v)) s dir e.toBurst :=
  ⟨queued_remove hp hq, fun _ hd => (queued_setQueue_of_ne _ hd).symm⟩

lemma Contents.total_removed (h : Contents cfg s) (d : BusState) :
    (s.removed dir p e (u ++ v)).totalQueueSize d =
      ((s.removed dir p e (u ++ v)).queued cfg d).card := by
  have htotal := h.total d
  rw [(oneMore_removed hp hq).card] at htotal
  change update s.totalQueueSize dir (s.totalQueueSize dir - 1) d = _
  rw [update_apply]
  split_ifs at htotal ⊢ with hd
  · subst hd
    rw [htotal, Nat.add_sub_cancel]
  · exact htotal

lemma Contents.times_removed (h : Contents cfg s) (m a : ℕ) : s.requestTimes e.masterId e.addr ≠ 0 ∧
    (s.removed dir p e (u ++ v)).requestTimes m a =
      ((s.removed dir p e (u ++ v)).queued cfg .READ +
        (s.removed dir p e (u ++ v)).queued cfg .WRITE).countP
          fun b => b.masterId = m ∧ b.addr = a := by
  have htimes := h.times
  simp only [(oneMore_removed hp hq).countP] at htimes
  refine ⟨by rw [htimes, if_pos ⟨rfl, rfl⟩]; omega, ?_⟩
  change add₂ s.requestTimes e.masterId e.addr (s.requestTimes e.masterId e.addr - 1) m a = _
  by_cases hm : m = e.masterId ∧ a = e.addr
  · obtain ⟨rfl, rfl⟩ := hm
    rw [add₂_self, htimes, if_pos ⟨rfl, rfl⟩, Nat.add_sub_cancel]
  · rw [add₂_of_ne _ _ hm, htimes, if_neg hm, add_zero]

end

section

variable (h : Inv cfg s) (hp : p < cfg.numPriorities)
include h hp

lemma Inv.logResponse (hq : s.queue dir p = u ++ e :: v) {t : DRAMCtrl}
    (ht : t.packetPriorities = s.packetPriorities ∧ t.requestTimes = s.requestTimes) :
    t.logResponse dir e.masterId e.qosValue e.addr = .ok (t.uncount dir e.masterId p e.addr) := by
  have he : e ∈ s.queue dir p := by rw [hq]; simp
  have hprio := h.counted.priorities_ne_zero he
  have htimes := (h.contents.times_removed hp hq 0 0).1
  rw [DRAMCtrl.logResponse, (h.counted.qosValue he).1, ht.1, ht.2]
  exact bind_eq_ok.2 ⟨(), require_eq_ok.2 (by simpa using hprio),
    bind_eq_ok.2 ⟨(), require_eq_ok.2 (by simpa using htimes), rfl⟩⟩

lemma Inv.nextRead
    (hi : i < (s.queue .READ p).length) : ∃ s', s.nextRead cfg p i = .ok s' ∧ Inv cfg s' := by
  obtain ⟨u, v, hq, herase⟩ := exists_eraseIdx hi
  set e := (s.queue .READ p)[i] with he
  have hmem : e ∈ s.queue .READ p := List.getElem_mem hi
  have hc := h.counted.remove hq
  refine ⟨{ s.removed .READ p e (u ++ v) with respQueue := s.respQueue ++ [e] }, ?_,
    { hc with }, ⟨h.contents.total_removed hp hq,
      fun m a => (h.contents.times_removed hp hq m a).2, h.contents.inWriteQueue,
      h.contents.onePerBurst, h.contents.inBurst⟩, h.requests.of_pending ?_ rfl rfl rfl rfl⟩
  · refine bind_eq_ok.2 ⟨e, getOrError_eq_ok.2 (List.getElem?_eq_getElem hi), bind_eq_ok.2
      ⟨(), require_eq_ok.2 (decide_eq_true (h.counted.size hmem).2), bind_eq_ok.2
        ⟨_, h.logResponse hp hq ⟨rfl, rfl⟩, bind_eq_ok.2
          ⟨(), require_eq_ok.2 (decide_eq_true (h.counted.qosValue hmem).1), ?_⟩⟩⟩⟩
    rw [← herase]
    rfl
  · change (s.removed .READ p e (u ++ v)).queued cfg .READ +
      ((s.respQueue ++ [e]).map DRAMPacket.toBurst : List Burst) = s.pending cfg
    rw [pending, (oneMore_removed hp hq).1, List.map_append, ← coe_add,
      ← add_assoc, add_comm (_ + _), cons_add]
    rfl

lemma Inv.nextWrite
    (hi : i < (s.queue .WRITE p).length) : ∃ s', s.nextWrite cfg p i = .ok s' ∧ Inv cfg s' := by
  obtain ⟨u, v, hq, herase⟩ := exists_eraseIdx hi
  set e := (s.queue .WRITE p)[i] with he
  have hmem : e ∈ s.queue .WRITE p := List.getElem_mem hi
  have hwrites := (oneMore_removed hp hq).1
  have hc := h.counted.remove hq
  have hnodup := h.contents.onePerBurst
  rw [hwrites, map_cons, nodup_cons] at hnodup
  refine ⟨{ s.removed .WRITE p e (u ++ v) with
      isInWriteQueue := s.isInWriteQueue.erase (cfg.burstAlign e.addr) }, ?_,
    { hc with }, ⟨h.contents.total_removed hp hq,
      fun m a => (h.contents.times_removed hp hq m a).2, ?_, hnodup.2, fun b hb => ?_⟩,
    h.requests.of_pending rfl rfl rfl rfl rfl⟩
  · refine bind_eq_ok.2 ⟨e, getOrError_eq_ok.2 (List.getElem?_eq_getElem hi), bind_eq_ok.2
      ⟨(), require_eq_ok.2 (decide_eq_true (h.counted.size hmem).2), bind_eq_ok.2
        ⟨_, h.logResponse hp hq ⟨rfl, rfl⟩, bind_eq_ok.2
          ⟨(), require_eq_ok.2 (decide_eq_true (h.counted.qosValue hmem).1), ?_⟩⟩⟩⟩
    rw [← herase]
    rfl
  · rw [h.contents.inWriteQueue, hwrites, map_cons, toFinset_cons]
    exact Finset.erase_insert fun hmem => hnodup.1 (mem_toFinset.1 hmem)
  · exact h.contents.inBurst b (by rw [hwrites]; exact mem_cons_of_mem hb)

end

end Removed

lemma Requests.answer (h0 : Requests cfg s₀)
    (hpending : s₀.pending cfg = b ::ₘ s.pending cfg) (hreq : s.requests = s₀.requests)
    (hnext : s.nextHelper = s₀.nextHelper)
    (hresp : s.responses = s₀.responses ++ if s.outstanding cfg b.pkt = 0 then [b.pkt] else [])
    (hhelpers : ∀ i, b.burstHelper ≠ some i → s.helpers i = s₀.helpers i)
    (hown : ∀ i n, b.burstHelper = some i →
      s₀.helpers i = some ⟨n + ((s.outstanding cfg b.pkt).card + 1), n⟩ →
      s.outstanding cfg b.pkt ≠ 0 →
      s.helpers i = some ⟨n + 1 + (s.outstanding cfg b.pkt).card, n + 1⟩) :
    Requests cfg s := by
  have hself : s₀.outstanding cfg b.pkt = b ::ₘ s.outstanding cfg b.pkt := by
    rw [outstanding, hpending]
    exact filter_cons_of_pos _ rfl
  have hne : ∀ {i}, i ≠ b.pkt → s₀.outstanding cfg i = s.outstanding cfg i := by
    intro i hi
    rw [outstanding, hpending]
    exact filter_cons_of_neg _ (Ne.symm hi)
  have hmem : ∀ {c}, c ∈ s.pending cfg → c ∈ s₀.pending cfg := fun hc => by
    rw [hpending]
    exact mem_cons_of_mem hc
  have hb : b ∈ s₀.pending cfg := by
    rw [hpending]
    exact mem_cons_self _ _
  have hout : ∀ {c}, c ∈ s.pending cfg → c ∈ s.outstanding cfg c.pkt := fun hc =>
    mem_filter.2 ⟨hc, rfl⟩
  refine ⟨fun c hc => by rw [hreq]; exact h0.lt c (hmem hc), fun i hi => ?_, fun i hi => ?_,
    fun c hc hnone => ?_, fun c hc c' hc' => h0.sameHelper c (hmem hc) c' (hmem hc'),
    fun c hc c' hc' => h0.ownHelper c (hmem hc) c' (hmem hc'), fun c hc i hi => ?_⟩
  · rw [hreq]
    rw [hresp] at hi
    obtain hi | rfl := mem_append_ite hi
    · exact h0.response_lt i hi
    · exact h0.lt b hb
  · rw [hreq] at hi
    rw [hresp, count_append_ite, h0.answered i hi]
    by_cases he : i = b.pkt
    · rw [he, hself, if_neg cons_ne_zero, if_pos rfl, zero_add]
    · rw [hne he, if_neg he, add_zero]
  · have hsingle := h0.single c (hmem hc) hnone
    by_cases he : c.pkt = b.pkt
    · -- the request would have had two bursts
      have hcard := congrArg card hsingle
      rw [he, hself, card_cons] at hcard
      have hzero := card_eq_zero.1 (succ.inj hcard)
      have hin := hout hc
      rw [he, hzero] at hin
      simp at hin
    · rwa [← hne he]
  · obtain ⟨hlt, n, hn⟩ := h0.helper c (hmem hc) i hi
    refine ⟨by rw [hnext]; exact hlt, ?_⟩
    by_cases he : c.pkt = b.pkt
    · have hbi : b.burstHelper = some i := (h0.sameHelper b hb c (hmem hc) he.symm).trans hi
      have hin := hout hc
      rw [he, hself, card_cons] at hn
      rw [he] at hin ⊢
      exact ⟨n + 1, hown i n hbi hn fun hz => by simp [hz] at hin⟩
    · rw [hhelpers i fun hbi => he (h0.ownHelper c (hmem hc) b hb i hi hbi), ← hne he]
      exact ⟨n, hn⟩

lemma Inv.processRespondEvent (h : Inv cfg s) (hne : s.respQueue ≠ []) :
    ∃ s', s.processRespondEvent = .ok s' ∧ Inv cfg s' := by
  obtain ⟨e, rest, hresp⟩ := List.exists_cons_of_ne_nil hne
  have hc := h.counted
  have hcont := h.contents
  -- what is outstanding without the burst
  set s1 := { s with respQueue := rest } with hs1
  have hpending : s.pending cfg = e.toBurst ::ₘ s1.pending cfg := by
    rw [pending, hresp, List.map_cons, ← cons_coe, add_cons]
    rfl
  have hmem : e.toBurst ∈ s.pending cfg := by
    rw [hpending]
    exact mem_cons_self _ _
  have hout : s.outstanding cfg e.pkt = e.toBurst ::ₘ s1.outstanding cfg e.pkt := by
    rw [outstanding, hpending]
    exact filter_cons_of_pos _ rfl
  simp only [DRAMCtrl.processRespondEvent, hresp]
  cases hlp : e.burstHelper with
  | none =>
    have hzero : s1.outstanding cfg e.pkt = 0 := by
      have hsingle := h.requests.single _ hmem hlp
      rw [hout] at hsingle
      exact (cons_inj_right _).1 hsingle
    refine ⟨_, rfl, ⟨{ hc with }, { hcont with },
      h.requests.answer (b := e.toBurst) hpending rfl rfl ?_ (fun _ _ => rfl)
        fun i _ hi => absurd (hlp.symm.trans hi) nofun⟩⟩
    change s.responses ++ [e.pkt] =
      s.responses ++ if s1.outstanding cfg e.pkt = 0 then [e.pkt] else []
    rw [if_pos hzero]
  | some i =>
    obtain ⟨-, n, hn⟩ := h.requests.helper _ hmem i hlp
    rw [hout, card_cons] at hn
    simp only [getOrError_eq_ok.2 hn, ok_bind]
    by_cases hlast : s1.outstanding cfg e.pkt = 0
    · rw [if_pos (by rw [hlast, card_zero])]
      refine ⟨_, rfl, ⟨{ hc with }, { hcont with },
        h.requests.answer (b := e.toBurst) hpending rfl rfl ?_ (fun j hj => ?_)
          fun j _ _ _ hz => absurd hlast hz⟩⟩
      · change s.responses ++ [e.pkt] =
          s.responses ++ if s1.outstanding cfg e.pkt = 0 then [e.pkt] else []
        rw [if_pos hlast]
      · exact update_of_ne (fun hji => hj (by rw [hji]; exact hlp)) _ _
    · have hcard : (s1.outstanding cfg e.pkt).card ≠ 0 := fun hz =>
        hlast (card_eq_zero.1 hz)
      rw [if_neg (by omega)]
      refine ⟨_, rfl, ⟨{ hc with }, { hcont with },
        h.requests.answer (b := e.toBurst) hpending rfl rfl ?_ (fun j hj => ?_)
          fun j n' hj hn' _ => ?_⟩⟩
      · change s.responses = s.responses ++ if s1.outstanding cfg e.pkt = 0 then [e.pkt] else []
        rw [if_neg hlast, List.append_nil]
      · exact update_of_ne (fun hji => hj (by rw [hji]; exact hlp)) _ _
      · cases hlp.symm.trans hj
        obtain rfl : n = n' := congrArg BurstHelper.burstsServiced
          (Option.some.inj (hn.symm.trans hn'))
        refine (update_self _ _ _).trans (congrArg some ?_)
        change BurstHelper.mk (n + ((s1.outstanding cfg e.pkt).card + 1)) (n + 1) =
          ⟨n + 1 + (s1.outstanding cfg e.pkt).card, n + 1⟩
        congr 1
        omega

/-! ### Runs -/

/-- Is there room in the queue for the bursts of a request? -/
def DRAMCtrl.hasRoom (cfg : Config) (s : DRAMCtrl) (pkt : Pkt) : Bool :=
  !if pkt.isWrite then s.writeQueueFull cfg (cfg.pktCount pkt)
    else s.readQueueFull cfg (cfg.pktCount pkt)

/-- What may happen: a request, to priorities that there are, that fits if it is accepted; the
service of a burst that is queued; a response that is waited for. -/
def Permitted (cfg : Config) (s : DRAMCtrl) : Op → Prop
  | .recvTimingReq pkt prio escalations =>
      (s.hasRoom cfg pkt → cfg.Fits pkt) ∧ 0 < pkt.size ∧ (pkt.isRead || pkt.isWrite) ∧
        prio < cfg.numPriorities ∧ ∀ x ∈ escalations, x.2 < cfg.numPriorities
  | .nextRead prio i => prio < cfg.numPriorities ∧ i < (s.queue .READ prio).length
  | .nextWrite prio i => prio < cfg.numPriorities ∧ i < (s.queue .WRITE prio).length
  | .respond => s.respQueue ≠ []

instance (cfg : Config) (s : DRAMCtrl) (op : Op) : Decidable (Permitted cfg s op) := by
  cases op <;> dsimp only [Permitted] <;> infer_instance

/-- A request keeps the invariant.  It fits if it is accepted; the bursts of an accepted read that
the write queue does not have are outstanding. -/
lemma Inv.recvTimingReq (h : Inv cfg s) {escalations : List (ℕ × ℕ)}
    (hok : Permitted cfg s (.recvTimingReq pkt prio escalations)) :
    ∃ accepted s', s.recvTimingReq cfg pkt prio escalations = .ok (accepted, s') ∧ Inv cfg s' ∧
      (accepted → cfg.Fits pkt ∧ (pkt.isWrite = false → s'.requests = s.requests + 1 ∧
        (s'.outstanding cfg s.requests).map (fun b => (b.addr, b.size)) =
          ((cfg.bursts pkt).filter fun x => ¬ Covered cfg s x : List _))) := by
  obtain ⟨hfits, hsize, hkind, hp, hesc⟩ := hok
  obtain ⟨s1, hsched, hc, hsame⟩ := h.counted.qosSchedule hp hesc
  -- the room is that before the moves to other priorities
  have hroom : s.hasRoom cfg pkt = s1.hasRoom cfg pkt := by
    simp only [hasRoom, writeQueueFull, readQueueFull, hsame.totalQueueSize, hsame.respQueue]
  rw [hroom, hasRoom] at hfits
  have h1 : Inv cfg s1 := ⟨hc, h.contents.congr hsame,
    h.requests.of_pending hsame.pending hsame.8 hsame.9 hsame.4 hsame.5⟩
  have hcov : ∀ x, Covered cfg s1 x ↔ Covered cfg s x := fun x => by
    simp only [Covered, hsame.queued]
  have hne : (pkt.size != 0) := by simpa using hsize.ne'
  simp only [DRAMCtrl.recvTimingReq, require, hkind, if_true, hsched, hne, ok_bind]
  cases hw : pkt.isWrite with
  | true =>
    cases hfull : s1.writeQueueFull cfg (cfg.pktCount pkt) with
    | true => exact ⟨false, s1, rfl, h1, by simp⟩
    | false =>
      have hfits := hfits (by simp [hw, hfull])
      obtain ⟨s2, hadd, h2, -⟩ := h1.addToWriteQueue hp hfits hsize hw hfull
      refine ⟨true, s2, ?_, h2, by simp [hfits]⟩
      simp only [hadd]
      rfl
  | false =>
    cases hfull : s1.readQueueFull cfg (cfg.pktCount pkt) with
    | true => exact ⟨false, s1, rfl, h1, by simp⟩
    | false =>
      have hfits := hfits (by simp [hw, hfull])
      obtain ⟨s2, hadd, h2, hreq, hout⟩ := h1.addToReadQueue hp hfits hsize hw hfull
      refine ⟨true, s2, ?_, h2,
        fun _ => ⟨hfits, fun _ => ⟨hreq.trans (congrArg (· + 1) hsame.requests), ?_⟩⟩⟩
      · simp only [hadd]
        rfl
      · rw [← hsame.requests, hout]
        simp only [hcov]

lemma Inv.step (h : Inv cfg s) {op : Op} (hok : Permitted cfg s op) :
    ∃ s', s.step cfg op = .ok s' ∧ Inv cfg s' := by
  cases op with
  | recvTimingReq pkt prio escalations =>
    obtain ⟨accepted, s', hrun, h', -⟩ := h.recvTimingReq hok
    refine ⟨s', ?_, h'⟩
    simp only [DRAMCtrl.step, hrun, ok_bind]
    rfl
  | nextRead prio i => exact h.nextRead hok.1 hok.2
  | nextWrite prio i => exact h.nextWrite hok.1 hok.2
  | respond => exact h.processRespondEvent hok

lemma inv_init : Inv cfg init := by
  have hqueued : ∀ dir, init.queued cfg dir = 0 := by
    intro dir
    refine eq_zero_of_forall_notMem fun b hb => ?_
    obtain ⟨p, -, e, he, -⟩ := mem_queued.1 hb
    exact absurd he (List.not_mem_nil)
  have hpending : init.pending cfg = 0 := by
    rw [pending, hqueued]
    rfl
  refine ⟨⟨nofun, nofun, fun _ _ => rfl, fun _ _ => rfl⟩,
    ?_, ?_⟩
  · constructor <;> simp only [hqueued] <;> simp [init]
  · refine ⟨?_, nofun, nofun, ?_, ?_, ?_, ?_⟩ <;> simp [hpending]

/-- The write queue has one entry for each burst address in `isInWriteQueue`, the total is right,
and the requests without outstanding bursts have been answered, each once. -/
structure Sound (cfg : Config) (s : DRAMCtrl) : Prop where
  inWriteQueue : ∀ a, a ∈ s.isInWriteQueue ↔
    ∃ b ∈ s.queued cfg .WRITE, cfg.burstAlign b.addr = a
  onePerBurst : ((s.queued cfg .WRITE).map fun b => cfg.burstAlign b.addr).Nodup
  total : s.totalQueueSize .WRITE = (s.queued cfg .WRITE).card
  answered : ∀ i < s.requests, s.responses.count i = if s.outstanding cfg i = 0 then 1 else 0

lemma Inv.sound (h : Inv cfg s) : Sound cfg s where
  inWriteQueue a := by rw [h.contents.inWriteQueue, mem_toFinset, mem_map]
  onePerBurst := h.contents.onePerBurst
  total := h.contents.total .WRITE
  answered := h.requests.answered

/-- In every run in which each accepted request fits, the queues are sound in every state, every
operation that may happen returns, the bursts of an accepted request tile its bytes, and of an
accepted read just those bursts are outstanding that the write queue does not have: with none, it
is answered in the same call. -/
theorem exec_answers {ops : List Op}
    (h : Exec (Guarded (Permitted cfg) (DRAMCtrl.step cfg)) DRAMCtrl.init ops s) :
    Sound cfg s ∧ (∀ op, Permitted cfg s op → ∃ s', s.step cfg op = .ok s') ∧
    ∀ pkt prio escalations s', Permitted cfg s (.recvTimingReq pkt prio escalations) →
      s.recvTimingReq cfg pkt prio escalations = .ok (true, s') →
      Tiles cfg.burstSize (cfg.getCtrlAddr pkt.addr) (cfg.getCtrlAddr pkt.addr + pkt.size)
        (cfg.bursts pkt) ∧
      (pkt.isWrite = false → s'.requests = s.requests + 1 ∧
        (s'.outstanding cfg s.requests).map (fun b => (b.addr, b.size)) =
          ((cfg.bursts pkt).filter fun x => ¬ Covered cfg s x : List _)) := by
  have hinv : Inv cfg s := h.invariant_ok inv_init fun hi => hi.step
  refine ⟨hinv.sound, fun op hok => ?_, fun pkt prio escalations s' hok hrun => ?_⟩
  · obtain ⟨s', hrun, -⟩ := hinv.step hok
    exact ⟨s', hrun⟩
  · obtain ⟨accepted, s1, hrun1, -, hread⟩ := hinv.recvTimingReq hok
    cases hrun1.symm.trans hrun
    exact ⟨(hread rfl).1.tiles hok.2.1, (hread rfl).2⟩

/-- A controller with bursts of 64 bytes and the first 8 GiB of the addresses. -/
def eightGiB : Config where
  burstSize := 64
  readBufferSize := 32
  writeBufferSize := 64
  numPriorities := 1
  range := ⟨0, 0x200000000, [], 0⟩
  burstSize_pow := by decide
  burstSize_lt := by decide

/-- The controller makes one burst, of one byte, for a read of `2 ^ 32 - 1` bytes at the end of a
burst: the offset and the size wrap around in 32 bits. -/
theorem not_tiles_wrapped : ¬ ∀ (cfg : Config) (pkt : Pkt) (s : DRAMCtrl),
    0 < pkt.size → pkt.isRead →
    DRAMCtrl.init.recvTimingReq cfg pkt 0 [] = .ok (true, s) →
    Tiles cfg.burstSize (cfg.getCtrlAddr pkt.addr) (cfg.getCtrlAddr pkt.addr + pkt.size)
      (cfg.bursts pkt) := by
  intro h
  let pkt : Pkt := ⟨63, 2 ^ 32 - 1, 0, true, false, by decide⟩
  have hbursts : eightGiB.bursts pkt = [(63, 1)] := by decide +kernel
  have hacc : (init.recvTimingReq eightGiB pkt 0 []).toOption.map Prod.fst =
      some true := by decide +kernel
  rcases hrun : init.recvTimingReq eightGiB pkt 0 [] with e | ⟨accepted, s⟩
  · rw [hrun] at hacc
    cases hacc
  · rw [hrun] at hacc
    cases hacc
    have htiles := h eightGiB pkt s (by decide) rfl hrun
    rw [hbursts] at htiles
    have hend : eightGiB.getCtrlAddr 63 + 1 = eightGiB.getCtrlAddr 63 + (2 ^ 32 - 1) := htiles.2.2.2
    omega

/-- A read of the second half of a burst and of the first half of the next one. -/
def readTwoHalves : Pkt := ⟨32, 64, 0, true, false, by decide⟩

/-- A write of the first of these bursts, the read, the service of the burst that is not in the
write queue, and the response. -/
def writeThenRead : List Op :=
  [.recvTimingReq ⟨0, 64, 0, false, true, by decide⟩ 0 [],
    .recvTimingReq readTwoHalves 0 [], .nextRead 0 0, .respond]

theorem exec_answers_writeThenRead :
    ∃ s, Exec (Guarded (Permitted eightGiB) (DRAMCtrl.step eightGiB)) DRAMCtrl.init
        writeThenRead s ∧ s.responses = [0, 1] ∧ Sound eightGiB s ∧
      ∃ s', s.recvTimingReq eightGiB readTwoHalves 0 [] = .ok (true, s') ∧ s'.requests = 3 ∧
        Tiles eightGiB.burstSize 32 96 [(32, 32), (64, 32)] := by
  refine exists_exec (fun s => (s.responses, s.requests,
    decide (Permitted eightGiB s (.recvTimingReq readTwoHalves 0 [])),
    (s.recvTimingReq eightGiB readTwoHalves 0 []).toOption.map Prod.fst))
    ([0, 1], 2, true, some true) (by decide +kernel) fun s hs hobs => ?_
  simp only [Prod.mk.injEq, decide_eq_true_eq] at hobs
  obtain ⟨hresp, hreq, hok, hacc⟩ := hobs
  have h := exec_answers hs
  refine ⟨hresp, h.1, ?_⟩
  rcases hrun : s.recvTimingReq eightGiB readTwoHalves 0 [] with e | ⟨accepted, s'⟩
  · rw [hrun] at hacc
    cases hacc
  · rw [hrun] at hacc
    cases hacc
    obtain ⟨htiles, hread⟩ := h.2.2 _ 0 [] s' hok hrun
    exact ⟨s', rfl, (hread rfl).1.trans (congrArg (· + 1) hreq), htiles⟩

end ChipletGem5.DRAM
