import ChipletGem5.Mem.DRAMBursts

/-!
# The counters of the queues

`Counted` says that the sizes and the numbers that the controller keeps are those of the entries
in its queues, and that each entry is in the queue of its priority.  The moves of entries to other
priorities keep this and what is in the queues together, so they cannot fail, and `escalate`
comes to its end.
-/

namespace ChipletGem5.DRAM

open Buckets DRAMCtrl List Function

variable {cfg : Config} {s s' : DRAMCtrl} {dir : BusState} {m p curr tgt : ℕ} {e : DRAMPacket}

namespace DRAMCtrl

/-- The bursts in the queues for one direction. -/
def queued (cfg : Config) (s : DRAMCtrl) (dir : BusState) : Multiset Burst :=
  (contents cfg.numPriorities (s.queue dir)).map DRAMPacket.toBurst

lemma mem_queued {b : Burst} :
    b ∈ s.queued cfg dir ↔ ∃ p < cfg.numPriorities, ∃ e ∈ s.queue dir p, e.toBurst = b := by
  simp only [queued, Multiset.mem_map, mem_contents]
  tauto

end DRAMCtrl

/-- The number of entries of a master with a priority. -/
def DRAMCtrl.tally (s : DRAMCtrl) (m p : ℕ) : ℕ :=
  (s.queue .READ p).countP (·.masterId = m) + (s.queue .WRITE p).countP (·.masterId = m)

/-- The counters are right. -/
structure Counted (cfg : Config) (s : DRAMCtrl) : Prop where
  qosValue : ∀ {dir p e}, e ∈ s.queue dir p → e.qosValue = p ∧ p < cfg.numPriorities
  size : ∀ {dir p e}, e ∈ s.queue dir p → 0 < e.size ∧ e.size ≤ cfg.burstSize
  queueSizes : ∀ dir p, s.queueSizes dir p = (s.queue dir p).length
  priorities : ∀ m p, s.packetPriorities m p = s.tally m p

/-- Everything but the places of the entries and the counters for them is the same. -/
structure SameContents (cfg : Config) (s s' : DRAMCtrl) : Prop where
  queued : ∀ dir, s'.queued cfg dir = s.queued cfg dir
  respQueue : s'.respQueue = s.respQueue
  isInWriteQueue : s'.isInWriteQueue = s.isInWriteQueue
  helpers : s'.helpers = s.helpers
  nextHelper : s'.nextHelper = s.nextHelper
  totalQueueSize : s'.totalQueueSize = s.totalQueueSize
  requestTimes : s'.requestTimes = s.requestTimes
  requests : s'.requests = s.requests
  responses : s'.responses = s.responses

lemma SameContents.refl (s : DRAMCtrl) : SameContents cfg s s :=
  ⟨fun _ => rfl, rfl, rfl, rfl, rfl, rfl, rfl, rfl, rfl⟩

lemma SameContents.trans {s1 s2 s3 : DRAMCtrl} (h : SameContents cfg s1 s2)
    (h' : SameContents cfg s2 s3) : SameContents cfg s1 s3 :=
  ⟨fun dir => (h'.queued dir).trans (h.queued dir), h'.2.trans h.2, h'.3.trans h.3, h'.4.trans h.4,
    h'.5.trans h.5, h'.6.trans h.6, h'.7.trans h.7, h'.8.trans h.8, h'.9.trans h.9⟩

/-! ### Queues and counters with one change -/

namespace DRAMCtrl

@[simp] lemma setQueue_self (s : DRAMCtrl) (dir : BusState) (p : ℕ) (l : List DRAMPacket) :
    (s.setQueue dir p l).queue dir p = l := by
  simp [setQueue]

variable {dir' : BusState} {p' : ℕ} {u v : List DRAMPacket}

lemma setQueue_of_ne (s : DRAMCtrl) {p : ℕ} (l : List DRAMPacket)
    (h : ¬ (dir' = dir ∧ p' = p)) : (s.setQueue dir p l).queue dir' p' = s.queue dir' p' := by
  by_cases hd : dir' = dir
  · subst hd
    simp only [setQueue, update_self]
    exact update_of_ne (fun hp => h ⟨rfl, hp⟩) _ _
  · simp only [setQueue, update_of_ne hd]

lemma mem_setQueue {l : List DRAMPacket} (h : e ∈ (s.setQueue dir p l).queue dir' p') :
    (dir' = dir ∧ p' = p ∧ e ∈ l) ∨ e ∈ s.queue dir' p' := by
  by_cases he : dir' = dir ∧ p' = p
  · obtain ⟨rfl, rfl⟩ := he
    rw [setQueue_self] at h
    exact .inl ⟨rfl, rfl, h⟩
  · rw [setQueue_of_ne s l he] at h
    exact .inr h

lemma tally_setQueue_self (s : DRAMCtrl) (dir : BusState) (m p : ℕ) (l : List DRAMPacket) :
    (s.setQueue dir p l).tally m p + (s.queue dir p).countP (·.masterId = m) =
      s.tally m p + l.countP (·.masterId = m) := by
  cases dir with
  | READ | WRITE =>
    rw [tally, setQueue_self, setQueue_of_ne s l (by simp), tally]
    omega

lemma tally_setQueue_of_ne (l : List DRAMPacket) (h : p' ≠ p) :
    (s.setQueue dir p l).tally m p' = s.tally m p' := by
  rw [tally, setQueue_of_ne s l fun e => h e.2, setQueue_of_ne s l fun e => h e.2, tally]

variable {α : Type} [DecidableEq α]

@[simp] lemma add₂_self (f : α → ℕ → ℕ) (i : α) (j x : ℕ) : add₂ f i j x i j = x := by
  simp [add₂]

lemma add₂_of_ne (f : α → ℕ → ℕ) {i i' : α} {j j' : ℕ} (x : ℕ) (h : ¬ (i' = i ∧ j' = j)) :
    add₂ f i j x i' j' = f i' j' := by
  by_cases hi : i' = i
  · subst hi
    simp only [add₂, update_self]
    exact update_of_ne (fun hj => h ⟨rfl, hj⟩) _ _
  · simp only [add₂, update_of_ne hi]

lemma queued_setQueue_of_ne (l : List DRAMPacket) (h : dir' ≠ dir) :
    (s.setQueue dir p l).queued cfg dir' = s.queued cfg dir' := by
  simp only [queued, setQueue, update_of_ne h]

lemma queued_push (hp : p < cfg.numPriorities) :
    (s.setQueue dir p (s.queue dir p ++ [e])).queued cfg dir = e.toBurst ::ₘ s.queued cfg dir := by
  simp only [queued, setQueue, update_self]
  rw [contents_push hp, Multiset.map_cons]

lemma queued_remove (hp : p < cfg.numPriorities) (hq : s.queue dir p = u ++ e :: v) :
    s.queued cfg dir = e.toBurst ::ₘ (s.setQueue dir p (u ++ v)).queued cfg dir := by
  simp only [queued, setQueue, update_self]
  rw [contents_remove hp hq, Multiset.map_cons]

end DRAMCtrl

/-! ### Entries that come and go -/

section

variable (h : Counted cfg s)
include h

lemma Counted.congr (hqueue : s'.queue = s.queue)
    (hsizes : s'.queueSizes = s.queueSizes) (hprios : s'.packetPriorities = s.packetPriorities) :
    Counted cfg s' where
  qosValue he := h.qosValue (hqueue ▸ he)
  size he := h.size (hqueue ▸ he)
  queueSizes d p := by rw [hsizes, hqueue, h.queueSizes]
  priorities m p := by rw [hprios, h.priorities, tally, tally, hqueue]

lemma Counted.replace {l : List DRAMPacket} {m₀ x : ℕ}
    (hl : ∀ e ∈ l, (e.qosValue = p ∧ p < cfg.numPriorities) ∧ 0 < e.size ∧ e.size ≤ cfg.burstSize)
    (hcount : ∀ m, add₂ s.packetPriorities m₀ p x m p + (s.queue dir p).countP (·.masterId = m) =
      s.packetPriorities m p + l.countP (·.masterId = m))
    (hqueue : s'.queue = (s.setQueue dir p l).queue)
    (hsizes : s'.queueSizes = add₂ s.queueSizes dir p l.length)
    (hprios : s'.packetPriorities = add₂ s.packetPriorities m₀ p x) : Counted cfg s' := by
  have hmem : ∀ {d q e}, e ∈ s'.queue d q →
      (e.qosValue = q ∧ q < cfg.numPriorities) ∧ 0 < e.size ∧ e.size ≤ cfg.burstSize := by
    intro d q e he
    rw [hqueue] at he
    obtain ⟨rfl, rfl, he'⟩ | he' := mem_setQueue he
    · exact hl e he'
    · exact ⟨h.qosValue he', h.size he'⟩
  refine ⟨fun he => (hmem he).1, fun he => (hmem he).2, fun d q => ?_, fun m q => ?_⟩
  · rw [hsizes, hqueue]
    by_cases hd : d = dir ∧ q = p
    · obtain ⟨rfl, rfl⟩ := hd
      rw [add₂_self, setQueue_self]
    · rw [add₂_of_ne _ _ hd, setQueue_of_ne _ _ hd, h.queueSizes]
  · have htally : s'.tally m q = (s.setQueue dir p l).tally m q := by rw [tally, hqueue, tally]
    rw [hprios, htally]
    by_cases hq : q = p
    · subst hq
      have hself := s.tally_setQueue_self dir m q l
      have hm := hcount m
      rw [h.priorities m q] at hm
      omega
    · rw [add₂_of_ne _ _ fun h => hq h.2, h.priorities, tally_setQueue_of_ne _ hq]

lemma Counted.push (dir : BusState) (he : e.qosValue < cfg.numPriorities)
    (hsize : 0 < e.size ∧ e.size ≤ cfg.burstSize) :
    Counted cfg ((s.setQueue dir e.qosValue (s.queue dir e.qosValue ++ [e])).logRequest dir
      e.masterId e.qosValue e.addr) := by
  refine h.replace (fun x hx => ?_) (fun m => ?_) rfl ?_ rfl
  · obtain hx | hx := mem_append.1 hx
    · exact ⟨h.qosValue hx, h.size hx⟩
    · rw [mem_singleton.1 hx]
      exact ⟨⟨rfl, he⟩, hsize⟩
  · by_cases hm : e.masterId = m
    · subst hm
      rw [add₂_self, countP_append, countP_singleton, if_pos (by simp)]
      exact (add_right_comm _ _ _).trans (add_assoc _ _ _)
    · rw [add₂_of_ne _ _ fun h => hm h.1.symm, countP_append, countP_singleton,
        if_neg (by simpa), add_zero]
  · rw [length_append, ← h.queueSizes]
    rfl

lemma Counted.priorities_ne_zero (he : e ∈ s.queue dir p) :
    s.packetPriorities e.masterId p ≠ 0 := by
  have hpos : 0 < (s.queue dir p).countP (·.masterId = e.masterId) :=
    countP_pos_iff.2 ⟨e, he, by simp⟩
  rw [h.priorities, tally]
  cases dir <;> omega

lemma Counted.remove (hq : s.queue dir p = u ++ e :: v) :
    Counted cfg ((s.uncount dir e.masterId p e.addr).setQueue dir p (u ++ v)) := by
  have hmem : ∀ {x}, x ∈ u ++ v → x ∈ s.queue dir p := fun hx => by
    rw [hq]
    simp only [mem_append, mem_cons] at hx ⊢
    tauto
  have hprio := h.priorities_ne_zero (show e ∈ s.queue dir p by rw [hq]; simp)
  refine h.replace (fun x hx => ⟨h.qosValue (hmem hx), h.size (hmem hx)⟩) (fun m => ?_) rfl ?_ rfl
  · rw [hq, countP_append, countP_append, countP_cons]
    by_cases hm : e.masterId = m
    · subst hm
      rw [add₂_self, if_pos (by simp)]
      omega
    · rw [add₂_of_ne _ _ fun h => hm h.1.symm, if_neg (by simpa), add_zero]
  · have hsize : (u ++ v).length = s.queueSizes dir p - 1 := by
      rw [h.queueSizes, hq, length_append, length_append, length_cons]
      omega
    rw [hsize]
    rfl

/-! ### Moves -/

lemma Counted.moved_eq_one (he : e ∈ s.queue dir p) :
    (e.size + cfg.burstSize - 1) / cfg.burstSize = 1 := by
  obtain ⟨hpos, hle⟩ := h.size he
  exact Nat.div_eq_of_lt_le (by omega) (by omega)

lemma Counted.move (hne : curr ≠ tgt) (htgt : tgt < cfg.numPriorities)
    (hq : s.queue dir curr = u ++ e :: v) :
    ∃ s', s.move cfg dir curr tgt e (u ++ v) = .ok s' ∧ Counted cfg s' ∧ SameContents cfg s s' ∧
      s'.queue dir curr = u ++ v ∧ ∀ dir', dir' ≠ dir → s'.queue dir' = s.queue dir' := by
  have he : e ∈ s.queue dir curr := by rw [hq]; simp
  have hone := h.moved_eq_one he
  have hsize : 1 ≤ s.queueSizes dir curr := by
    rw [h.queueSizes, hq, length_append, length_cons]
    omega
  have hprio : 1 ≤ s.packetPriorities e.masterId curr :=
    Nat.one_le_iff_ne_zero.2 (h.priorities_ne_zero he)
  set e' : DRAMPacket := { e with qosValue := tgt } with he'
  set s1 := s.setQueue dir tgt (s.queue dir tgt ++ [e']) with hs1
  have hq1 : s1.queue dir curr = u ++ e :: v := by
    rw [setQueue_of_ne _ _ fun h => hne h.2, hq]
  set s2 := s1.setQueue dir curr (u ++ v) with hs2
  -- for the counters, the entry leaves its queue, and is a new one of the other queue
  set t1 := (s.uncount dir e.masterId curr e.addr).setQueue dir curr (u ++ v) with ht1
  set t2 := (t1.setQueue dir tgt (t1.queue dir tgt ++ [e'])).logRequest dir e.masterId tgt e.addr
    with ht2
  have hcounted : Counted cfg t2 := (h.remove hq).push (e := e') dir htgt (h.size (e := e) he)
  have hqueue : s2.queue = t2.queue := by
    have htgt' : t1.queue dir tgt = s.queue dir tgt := setQueue_of_ne _ _ fun h => hne h.2.symm
    rw [ht2, htgt']
    simp [hs2, hs1, ht1, setQueue, logRequest, uncount, update_comm hne]
  refine ⟨{ s2 with queueSizes := t2.queueSizes, packetPriorities := t2.packetPriorities }, ?_,
    hcounted.congr hqueue rfl rfl, ⟨fun d => ?_, rfl, rfl, rfl, rfl, rfl, rfl, rfl, rfl⟩, ?_,
    fun d hd => ?_⟩
  · simp only [DRAMCtrl.move, hone, require, setQueue, hsize, hprio, decide_true, if_true, ok_bind]
    rfl
  · by_cases hd : d = dir
    · subst hd
      have h1 : s1.queued cfg d = e'.toBurst ::ₘ s.queued cfg d := queued_push htgt
      have h2 : s1.queued cfg d = e.toBurst ::ₘ s2.queued cfg d :=
        queued_remove (h.qosValue he).2 hq1
      exact (Multiset.cons_inj_right _).1 (h2.symm.trans h1)
    · exact (queued_setQueue_of_ne _ hd).trans (queued_setQueue_of_ne _ hd)
  · exact setQueue_self _ _ _ _
  · funext p
    exact (setQueue_of_ne _ _ fun h => hd h.1).trans
      (setQueue_of_ne _ _ fun h => hd h.1)

end

/-! ### Escalation -/

/-- The loop of `escalateQueues` leaves no entry of the master behind. -/
lemma Counted.escalateFrom (hne : curr ≠ tgt) (htgt : tgt < cfg.numPriorities)
    {kept rest : List DRAMPacket} (h : Counted cfg s) (hq : s.queue dir curr = kept ++ rest)
    (hkept : ∀ e ∈ kept, e.masterId ≠ m) :
    ∃ s', escalateFrom cfg m curr tgt dir kept rest s = .ok s' ∧ Counted cfg s' ∧
      SameContents cfg s s' ∧ (∀ e ∈ s'.queue dir curr, e.masterId ≠ m) ∧
      ∀ dir', dir' ≠ dir → s'.queue dir' = s.queue dir' := by
  induction rest generalizing kept s with
  | nil =>
    refine ⟨s, rfl, h, .refl s, ?_, fun _ _ => rfl⟩
    rwa [hq, append_nil]
  | cons e rest ih =>
    rw [escalateFrom]
    split_ifs with hzero hm
    · -- the counter says that no entry is left
      refine ⟨s, rfl, h, .refl s, fun x hx hxm => ?_, fun _ _ => rfl⟩
      have htally := (h.priorities m curr).symm.trans hzero
      have hcount : (s.queue dir curr).countP (·.masterId = m) = 0 := by
        rw [tally] at htally
        cases dir <;> omega
      exact absurd hxm (by simpa using countP_eq_zero.1 hcount x hx)
    · obtain ⟨s1, hmove, h1, hsame1, hq1, hdir1⟩ := h.move hne htgt hq
      obtain ⟨s2, hrun, h2, hsame2, hq2, hdir2⟩ := ih h1 hq1 hkept
      refine ⟨s2, ?_, h2, hsame1.trans hsame2, hq2,
        fun d hd => (hdir2 d hd).trans (hdir1 d hd)⟩
      simp only [hmove, ok_bind, hrun]
    · refine ih h (by rw [hq, append_assoc]; rfl) fun x hx => ?_
      obtain hx | hx := mem_append.1 hx
      · exact hkept x hx
      · rwa [mem_singleton.1 hx]

lemma Counted.escalateWhile (h : Counted cfg s) (hne : curr ≠ tgt)
    (htgt : tgt < cfg.numPriorities) :
    ∃ s', escalateWhile cfg m curr tgt (s.packetPriorities m curr) s = .ok s' ∧
      Counted cfg s' ∧ SameContents cfg s s' := by
  unfold DRAMCtrl.escalateWhile
  split_ifs with hzero
  · exact ⟨s, rfl, h, .refl s⟩
  obtain ⟨fuel, hfuel⟩ := Nat.exists_eq_succ_of_ne_zero hzero
  obtain ⟨s1, hread, h1, hsame1, hq1, hdir1⟩ :=
    h.escalateFrom (m := m) hne htgt (show s.queue .READ curr = [] ++ _ from rfl) (by simp)
  obtain ⟨s2, hwrite, h2, hsame2, hq2, hdir2⟩ :=
    h1.escalateFrom (m := m) hne htgt (show s1.queue .WRITE curr = [] ++ _ from rfl) (by simp)
  have hdone : s2.packetPriorities m curr = 0 := by
    rw [h2.priorities, tally, hdir2 .READ (by simp)]
    simpa [countP_eq_zero] using ⟨hq1, hq2⟩
  refine ⟨s2, ?_, h2, hsame1.trans hsame2⟩
  simp only [hfuel, escalateQueues, hread, hwrite, ok_bind]
  unfold DRAMCtrl.escalateWhile
  rw [if_pos hdone]

lemma Counted.escalate (h : Counted cfg s) (m : ℕ) (htgt : tgt < cfg.numPriorities) :
    ∃ s', s.escalate cfg m tgt = .ok s' ∧ Counted cfg s' ∧ SameContents cfg s s' := by
  refine foldlM_ok (P := fun _ s' => Counted cfg s' ∧ SameContents cfg s s') _ ⟨h, .refl s⟩ ?_
  intro done s1 curr _ h1
  unfold DRAMCtrl.escalateOne
  split_ifs with hne
  · exact ⟨s1, rfl, h1⟩
  · obtain ⟨s2, hrun, h2, hsame⟩ := h1.1.escalateWhile (m := m) hne htgt
    exact ⟨s2, hrun, h2, h1.2.trans hsame⟩

lemma Counted.qosSchedule (h : Counted cfg s) {prio : ℕ} (hp : prio < cfg.numPriorities)
    {escalations : List (ℕ × ℕ)} (he : ∀ x ∈ escalations, x.2 < cfg.numPriorities) :
    ∃ s', s.qosSchedule cfg prio escalations = .ok s' ∧ Counted cfg s' ∧ SameContents cfg s s' := by
  simp only [DRAMCtrl.qosSchedule, require, hp, decide_true, if_true, ok_bind]
  refine foldlM_ok (P := fun _ s' => Counted cfg s' ∧ SameContents cfg s s') _ ⟨h, .refl s⟩ ?_
  intro done s1 x hx h1
  obtain ⟨s2, hrun, h2, hsame⟩ := h1.1.escalate x.1 (he x (hx.subset (by simp)))
  exact ⟨s2, hrun, h2, h1.2.trans hsame⟩

end ChipletGem5.DRAM
