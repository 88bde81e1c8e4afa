import ChipletGem5.Mem.MSHR

/-!
# The order in which targets are served

The demand targets of an MSHR, those that are not snoops, leave it in the order in which they
came.  Targets move from the deferred list to the end of the other one; a response that invalidates
the block serves the first demand target only.  So at any time the targets that were served,
followed by those in the two lists, are the targets that were added.
-/

namespace ChipletGem5.MSHR

open List

/-! ### Arrivals -/

/-- The constant fields of a target, with the address of its packet.  They stay the same while
the target is in an MSHR. -/
structure Arrival where
  recvTime : Tick
  readyTime : Tick
  order : Counter
  pkt : ℕ
  source : Source
  allocOnFill : Bool
deriving DecidableEq, Repr

/-- The constant fields of a target. -/
def Target.arrival (t : Target) : Arrival :=
  ⟨t.recvTime, t.readyTime, t.order, t.pkt.ptr, t.source, t.allocOnFill⟩

/-- Targets of a processor or a prefetcher are demand targets. -/
def Arrival.isDemand (a : Arrival) : Bool := a.source != .fromSnoop

variable {pkt pkt' : Packet} {order : Counter} {allocOnFill willRespond : Bool} {cpPtr : ℕ}

def demand (l : List Target) : List Arrival := (l.map Target.arrival).filter Arrival.isDemand

variable {m m' : MSHR} {up up' : Upstream} {curTick : Tick} {l l₁ l₂ : List Target} {t : Target}

@[simp]
lemma demand_nil : demand [] = [] := rfl

@[simp]
lemma demand_append : demand (l₁ ++ l₂) = demand l₁ ++ demand l₂ := by
  simp [demand]

lemma demand_cons (h : t.source ≠ .fromSnoop) : demand (t :: l) = t.arrival :: demand l := by
  have hdemand : t.arrival.isDemand := bne_iff_ne.2 h
  rw [demand, map_cons, filter_cons_of_pos hdemand]
  rfl

lemma demand_cons_fromSnoop (h : t.source = .fromSnoop) : demand (t :: l) = demand l := by
  simp [demand, Arrival.isDemand, Target.arrival, h]

lemma demand_congr (h : l₁.map Target.arrival = l₂.map Target.arrival) : demand l₁ = demand l₂ := by
  rw [demand, demand, h]

/-! ### Operations on lists of targets -/

lemma ptr_of_replaceUpgrade (h : replaceUpgrade pkt = .ok pkt') : pkt'.ptr = pkt.ptr := by
  rw [replaceUpgrade] at h
  split at h
  · obtain ⟨-, -, h⟩ := bind_eq_ok.1 h
    split at h
    · rw [Packet.allocate] at h
      split at h
      · obtain ⟨-, -, rfl⟩ := bind_pure_eq_ok.1 h
        rfl
      · rw [← pure_eq_ok.1 h]
    · rw [← pure_eq_ok.1 h]
  · rw [← pure_eq_ok.1 h]

namespace TargetList

variable {l l' : TargetList}

lemma targets_of_fillBitmap {offset size : ℕ} (h : l.fillBitmap offset size = .ok l') :
    l'.targets = l.targets := by
  obtain ⟨-, -, rfl⟩ := bind_pure_eq_ok.1 h
  rfl

lemma targets_of_updateWriteFlags (h : l.updateWriteFlags pkt = .ok l') :
    l'.targets = l.targets := by
  rw [updateWriteFlags] at h
  split_ifs at h
  · rw [← pure_eq_ok.1 h]
  · rw [← pure_eq_ok.1 h]
  · obtain ⟨l₁, h1, h⟩ := bind_eq_ok.1 h
    have htargets : l₁.targets = l.targets := by
      split_ifs at h1
      · exact targets_of_fillBitmap h1
      · rw [pure_eq_ok.1 h1]
    rw [← pure_eq_ok.1 h, ← htargets]
  · rw [← pure_eq_ok.1 h]

lemma targets_of_updateFlags {source : Source}
    (h : l.updateFlags pkt source allocOnFill = .ok l') : l'.targets = l.targets := by
  rw [updateFlags] at h
  split at h
  · obtain ⟨writable, -, h⟩ := bind_eq_ok.1 h
    split at h
    · exact (targets_of_updateWriteFlags h).trans rfl
    · rw [← pure_eq_ok.1 h]
  · rw [← pure_eq_ok.1 h]

variable {ts : List Target}

lemma targets_of_updateAllFlags (h : l.updateAllFlags ts = .ok l') : l'.targets = l.targets := by
  induction ts generalizing l with
  | nil => rw [← pure_eq_ok.1 h]
  | cons t ts ih =>
    obtain ⟨l₁, h1, h⟩ := bind_eq_ok.1 h
    rw [ih h, targets_of_updateFlags h1]

lemma targets_of_populateFlags (h : l.populateFlags = .ok l') : l'.targets = l.targets :=
  (targets_of_updateAllFlags h).trans rfl

lemma targets_of_add {readyTime : Tick} {source : Source} {markPending : Bool}
    (h : l.add up curTick pkt readyTime order source markPending allocOnFill = .ok (l', up')) :
    ∃ marked, l'.targets =
      l.targets ++ [⟨curTick, readyTime, order, pkt, source, marked, allocOnFill⟩] := by
  obtain ⟨l₁, h1, h⟩ := bind_eq_ok.1 h
  obtain ⟨marked, -, ⟨⟩⟩ := bind_pure_eq_ok.1 h
  exact ⟨marked.1, by rw [← targets_of_updateFlags h1]⟩

lemma arrivals_of_replaceAll {ts' : List Target} (h : replaceAll ts = .ok ts') :
    ts'.map Target.arrival = ts.map Target.arrival := by
  induction ts generalizing ts' with
  | nil => rw [← pure_eq_ok.1 h]
  | cons t ts ih =>
    obtain ⟨pkt, hpkt, h⟩ := bind_eq_ok.1 h
    obtain ⟨ts1, h1, rfl⟩ := bind_pure_eq_ok.1 h
    rw [map_cons, map_cons, ih h1]
    simp only [Target.arrival, ptr_of_replaceUpgrade hpkt]

lemma arrivals_of_replaceUpgrades (h : l.replaceUpgrades = .ok l') :
    l'.targets.map Target.arrival = l.targets.map Target.arrival := by
  rw [replaceUpgrades] at h
  split at h
  · rw [← pure_eq_ok.1 h]
  · obtain ⟨targets, ht, rfl⟩ := bind_pure_eq_ok.1 h
    rw [arrivals_of_replaceAll ht]

lemma demand_of_replaceUpgrades {cond : Bool}
    (h : (if cond then l.replaceUpgrades else pure l) = .ok l') :
    demand l'.targets = demand l.targets := by
  split at h
  · exact demand_congr (arrivals_of_replaceUpgrades h)
  · rw [pure_eq_ok.1 h]

end TargetList

open TargetList

lemma arrivals_of_clearMarks (h : clearMarks up l = .ok (ts, up')) :
    ts.map Target.arrival = l.map Target.arrival := by
  induction l generalizing ts up with
  | nil =>
    cases h
    rfl
  | cons t l ih =>
    obtain ⟨up1, -, h⟩ := bind_eq_ok.1 h
    obtain ⟨⟨ts1, up2⟩, h1, ⟨⟩⟩ := bind_pure_eq_ok.1 h
    rw [map_cons, ih h1]
    rfl

lemma TargetList.demand_of_clearDownstreamPending {l l' : TargetList}
    (h : l.clearDownstreamPending up = .ok (l', up')) : demand l'.targets = demand l.targets := by
  obtain ⟨_, h1, ⟨⟩⟩ := bind_pure_eq_ok.1 h
  exact demand_congr (arrivals_of_clearMarks h1)

lemma TargetList.front_eq_ok {l : TargetList} : l.front = .ok t ↔ ∃ ts, l.targets = t :: ts := by
  rw [front, getOrError_eq_ok, List.head?_eq_some_iff]

lemma append_of_findIfNot {pred : Target → Result Bool} {l₁ l₂ : List Target}
    (h : findIfNot pred l = .ok (l₁, l₂)) : l₁ ++ l₂ = l := by
  induction l generalizing l₁ with
  | nil =>
    cases h
    rfl
  | cons t l ih =>
    obtain ⟨holds, -, h⟩ := bind_eq_ok.1 h
    split at h
    · obtain ⟨_, h1, ⟨⟩⟩ := bind_pure_eq_ok.1 h
      rw [cons_append, ih h1]
    · cases h
      rfl

/-- A response that invalidates the block takes no demand target behind the first one. -/
lemma demand_of_extractSnoops {l₁ l₂ : List Target} (h : extractSnoops l = .ok (l₁, l₂)) :
    demand l₁ = [] ∧ demand l₂ = demand l := by
  induction l generalizing l₁ l₂ with
  | nil =>
    cases h
    exact ⟨rfl, rfl⟩
  | cons t l ih =>
    rw [extractSnoops] at h
    split at h
    · rename_i hcpu
      obtain ⟨_, h1, ⟨⟩⟩ := bind_pure_eq_ok.1 h
      obtain ⟨htaken, hleft⟩ := ih h1
      have hdemand : t.source ≠ .fromSnoop := by simp [hcpu]
      exact ⟨htaken, by rw [demand_cons hdemand, demand_cons hdemand, hleft]⟩
    · obtain ⟨_, hsnoop, h⟩ := bind_eq_ok.1 h
      have hsnoop : t.source = .fromSnoop := by simpa using require_eq_ok.1 hsnoop
      obtain ⟨_, h1, ⟨⟩⟩ := bind_pure_eq_ok.1 h
      obtain ⟨htaken, hleft⟩ := ih h1
      exact ⟨by rw [demand_cons_fromSnoop hsnoop, htaken],
        by rw [demand_cons_fromSnoop hsnoop, hleft]⟩

lemma promoted_append (m : MSHR) : m.promoted.1 ++ m.promoted.2 = m.deferredTargets.targets := by
  unfold promoted
  dsimp only
  split_ifs
  · exact take_append_drop 1 _
  · rfl
  · exact prefix_iff_eq_append.1 <| takeWhile_prefix _

/-! ### Operations on registers -/

/-- The demand targets that wait in an MSHR, in the order in which they are to be served. -/
def waiting (m : MSHR) : List Arrival :=
  demand m.targets.targets ++ demand m.deferredTargets.targets

lemma waiting_congr (ht : demand m'.targets.targets = demand m.targets.targets)
    (hd : demand m'.deferredTargets.targets = demand m.deferredTargets.targets) :
    m'.waiting = m.waiting := by
  rw [waiting, waiting, ht, hd]

/-- An MSHR is in service, and ready, as before. -/
def SameSchedule (m m' : MSHR) : Prop := m'.inService = m.inService ∧ m'.readyTime = m.readyTime

lemma SameSchedule.refl (m : MSHR) : m.SameSchedule m := ⟨rfl, rfl⟩

/-- The demand targets that wait and the schedule are as before. -/
structure Keeps (m m' : MSHR) : Prop where
  waiting : m'.waiting = m.waiting
  schedule : m.SameSchedule m'

lemma Keeps.refl (m : MSHR) : m.Keeps m := ⟨rfl, .refl m⟩

/-- The source of the first target. -/
def firstSource (cmd : MemCmd) : Source :=
  if cmd = .hardPFReq then .fromPrefetcher else .fromCPU

lemma firstSource_ne_fromSnoop (cmd : MemCmd) : firstSource cmd ≠ .fromSnoop := by
  unfold firstSource
  split_ifs <;> simp

lemma targets_eq_nil_of_getNumTargets (h : m.getNumTargets = 0) :
    m.targets.targets = [] ∧ m.deferredTargets.targets = [] := by
  rw [getNumTargets, Nat.add_eq_zero_iff] at h
  exact ⟨length_eq_zero_iff.1 h.1, length_eq_zero_iff.1 h.2⟩

lemma waiting_of_allocate {blkAddr : Addr} {blkSize : ℕ} {target : Packet} {whenReady : Tick}
    (hfree : m.getNumTargets = 0)
    (h : m.allocate up curTick blkAddr blkSize target whenReady order allocOnFill
      = .ok (m', up')) :
    m.waiting = [] ∧ m'.waiting =
      [⟨curTick, whenReady, order, target.ptr, firstSource target.cmd, allocOnFill⟩] := by
  obtain ⟨htargets, hdeferred⟩ := targets_eq_nil_of_getNumTargets hfree
  obtain ⟨_, hadd, h⟩ := bind_eq_ok.1 h
  obtain ⟨tgt, -, h⟩ := bind_eq_ok.1 h
  obtain ⟨-, -, ⟨⟩⟩ := bind_pure_eq_ok.1 h
  obtain ⟨marked, hl⟩ := targets_of_add hadd
  have hinit : ∀ tl : TargetList, (tl.init blkAddr blkSize).targets = tl.targets := fun _ => rfl
  rw [hinit, htargets] at hl
  constructor
  · rw [waiting, htargets, hdeferred]
    rfl
  · simp only [waiting, hinit, hdeferred, demand_nil, append_nil, hl]
    exact demand_cons (firstSource_ne_fromSnoop target.cmd)

lemma waiting_of_allocateTarget {whenReady : Tick}
    (h : m.allocateTarget up curTick pkt whenReady order allocOnFill = .ok (m', up')) :
    m'.waiting = m.waiting ++ [⟨curTick, whenReady, order, pkt.ptr, .fromCPU, allocOnFill⟩] ∧
      m.SameSchedule m' := by
  obtain ⟨-, -, h⟩ := bind_eq_ok.1 h
  obtain ⟨tgt, -, h⟩ := bind_eq_ok.1 h
  obtain ⟨deferred, hdefers, h⟩ := bind_eq_ok.1 h
  split at h
  · obtain ⟨pkt', hpkt, h⟩ := bind_eq_ok.1 h
    obtain ⟨⟨l, up1⟩, hadd, ⟨⟩⟩ := bind_pure_eq_ok.1 h
    obtain ⟨marked, hl⟩ := targets_of_add hadd
    have hptr : pkt'.ptr = pkt.ptr := by
      split at hpkt
      · exact ptr_of_replaceUpgrade hpkt
      · rw [pure_eq_ok.1 hpkt]
    refine ⟨?_, rfl, rfl⟩
    simp only [waiting, hl, demand_append, ← append_assoc]
    rw [demand_cons (by simp)]
    simp [Target.arrival, hptr]
  · -- a target is only added to the first list if nothing is deferred
    rename_i hnot
    have hempty : m.deferredTargets.targets = [] := by
      rw [defers] at hdefers
      split at hdefers
      · exact absurd (pure_eq_ok.1 hdefers).symm hnot
      · rename_i hnone
        simp only [Bool.or_eq_true, not_or, Bool.not_eq_true, Bool.not_eq_false'] at hnone
        exact isEmpty_iff.1 hnone.2
    obtain ⟨_, hadd, ⟨⟩⟩ := bind_pure_eq_ok.1 h
    obtain ⟨marked, hl⟩ := targets_of_add hadd
    refine ⟨?_, rfl, rfl⟩
    simp only [waiting, hl, hempty, demand_append, demand_nil, append_nil]
    rfl

lemma keeps_of_clearDownstreamPending (h : m.clearDownstreamPending up = .ok (m', up')) :
    m.Keeps m' := by
  obtain ⟨-, -, h⟩ := bind_eq_ok.1 h
  obtain ⟨_, hclear, ⟨⟩⟩ := bind_pure_eq_ok.1 h
  exact ⟨waiting_congr (demand_of_clearDownstreamPending hclear) rfl, rfl, rfl⟩

lemma waiting_of_markInService {resp : Bool} (h : m.markInService up resp = .ok (m', up')) :
    m'.waiting = m.waiting ∧ m'.inService := by
  obtain ⟨-, -, h⟩ := bind_eq_ok.1 h
  obtain ⟨_, hclear, ⟨⟩⟩ := bind_pure_eq_ok.1 h
  refine ⟨waiting_congr ?_ rfl, rfl⟩
  split at hclear
  · exact demand_of_clearDownstreamPending hclear
  · rw [(Prod.mk.inj (pure_eq_ok.1 hclear)).1]

lemma waiting_of_deallocate (h : m.deallocate = .ok m') :
    m'.waiting = m.waiting ∧ m'.inService = false := by
  obtain ⟨-, -, h⟩ := bind_eq_ok.1 h
  obtain ⟨-, -, rfl⟩ := bind_pure_eq_ok.1 h
  exact ⟨rfl, rfl⟩

lemma keeps_of_saveSnoop
    (h : m.saveSnoop up curTick pkt order cpPtr willRespond = .ok (m', up', pkt')) :
    m.Keeps m' := by
  obtain ⟨pkt1, -, h⟩ := bind_eq_ok.1 h
  obtain ⟨⟨l, up1⟩, hadd, h⟩ := bind_eq_ok.1 h
  obtain ⟨writable, -, ⟨⟩⟩ := bind_pure_eq_ok.1 h
  obtain ⟨marked, hl⟩ := targets_of_add hadd
  refine ⟨waiting_congr ?_ rfl, rfl, rfl⟩
  rw [hl, demand_append, demand_cons_fromSnoop rfl, demand_nil, append_nil]

lemma keeps_of_snoopInService
    (h : m.snoopInService up curTick pkt order cpPtr = .ok (m', up', pkt', willRespond)) :
    m.Keeps m' := by
  obtain ⟨tgt, -, h⟩ := bind_eq_ok.1 h
  obtain ⟨postInvalidate, -, h⟩ := bind_eq_ok.1 h
  split at h
  · cases h
    exact .refl m
  · obtain ⟨pendingModified, -, h⟩ := bind_eq_ok.1 h
    obtain ⟨⟨m1, up1, pkt1⟩, hsave, h⟩ := bind_eq_ok.1 h
    have hkeeps : m.Keeps m1 := by
      split at hsave
      · exact keeps_of_saveSnoop hsave
      · cases hsave
        exact .refl m
    obtain ⟨writable, -, h⟩ := bind_eq_ok.1 h
    split at h
    · cases h
      exact ⟨hkeeps.1, hkeeps.2⟩
    · cases h
      exact hkeeps

lemma keeps_of_handleSnoop
    (h : m.handleSnoop up curTick pkt order cpPtr = .ok (m', up', pkt', willRespond)) :
    m.Keeps m' := by
  obtain ⟨writable, -, h⟩ := bind_eq_ok.1 h
  obtain ⟨-, -, h⟩ := bind_eq_ok.1 h
  split at h
  · obtain ⟨targets, ht, h⟩ := bind_eq_ok.1 h
    obtain ⟨deferredTargets, hd, h⟩ := bind_eq_ok.1 h
    cases h
    exact ⟨waiting_congr (demand_of_replaceUpgrades ht)
      (demand_of_replaceUpgrades hd), rfl, rfl⟩
  · obtain ⟨deferredTargets, hd, h⟩ := bind_eq_ok.1 h
    obtain ⟨hwaiting, hsame⟩ := keeps_of_snoopInService h
    exact ⟨hwaiting.trans (waiting_congr rfl (demand_of_replaceUpgrades hd)), hsame⟩

lemma keeps_of_promoteIf {pred : Target → Result Bool}
    (h : m.promoteIf up pred = .ok (m', up')) : m.Keeps m' := by
  obtain ⟨-, -, h⟩ := bind_eq_ok.1 h
  obtain ⟨⟨first, rest⟩, hfind, h⟩ := bind_eq_ok.1 h
  obtain ⟨⟨cleared, up1⟩, hclear, h⟩ := bind_eq_ok.1 h
  obtain ⟨deferredTargets, hpopulate, ⟨⟩⟩ := bind_pure_eq_ok.1 h
  have hrest : deferredTargets.targets = rest := targets_of_populateFlags hpopulate
  have hcleared : demand cleared = demand first := demand_congr (arrivals_of_clearMarks hclear)
  refine ⟨?_, rfl, rfl⟩
  simp only [waiting, hrest, demand_append, hcleared, append_assoc]
  rw [← demand_append, append_of_findIfNot hfind]

lemma keeps_of_promoteReadable (h : m.promoteReadable up = .ok (m', up')) : m.Keeps m' := by
  rw [promoteReadable] at h
  split at h
  · cases h
    exact .refl m
  · obtain ⟨postInvalidate, -, h⟩ := bind_eq_ok.1 h
    split at h
    · cases h
      exact .refl m
    · exact keeps_of_promoteIf h

lemma keeps_of_promoteWritable (h : m.promoteWritable up = .ok (m', up')) : m.Keeps m' := by
  rw [promoteWritable] at h
  split at h
  · cases h
    exact .refl m
  · simp only [bind_eq_ok] at h
    obtain ⟨postInvalidate, -, postDowngrade, -, tgt, -, h⟩ := h
    split at h
    · cases h
      exact .refl m
    · obtain ⟨-, -, h⟩ := bind_eq_ok.1 h
      obtain ⟨hwaiting, hsame⟩ := keeps_of_promoteIf h
      exact ⟨hwaiting, hsame⟩

lemma waiting_of_extractServiceableTargets {cmd : MemCmd} {ready : TargetList}
    (h : m.extractServiceableTargets cmd = .ok (m', ready)) :
    demand ready.targets ++ m'.waiting = m.waiting ∧ m.SameSchedule m' := by
  rw [extractServiceableTargets] at h
  split at h
  · obtain ⟨t, ht, h⟩ := bind_eq_ok.1 h
    obtain ⟨_, hsource, h⟩ := bind_eq_ok.1 h
    obtain ⟨_, hextract, h⟩ := bind_eq_ok.1 h
    obtain ⟨ready', hready, h⟩ := bind_eq_ok.1 h
    obtain ⟨targets, htargets, ⟨⟩⟩ := bind_pure_eq_ok.1 h
    obtain ⟨ts, hts⟩ := front_eq_ok.1 ht
    rw [hts] at hextract
    obtain ⟨htaken, hleft⟩ := demand_of_extractSnoops hextract
    have hdemand : t.source ≠ .fromSnoop := by
      rcases Bool.or_eq_true_iff.1 (require_eq_ok.1 hsource) with hcpu | hpf
      · simp [eq_of_beq hcpu]
      · simp [eq_of_beq hpf]
    refine ⟨?_, rfl, rfl⟩
    rw [waiting, waiting, targets_of_populateFlags hready,
      targets_of_populateFlags htargets, hts, demand_cons hdemand,
      demand_cons hdemand, htaken, hleft]
    rfl
  · obtain ⟨targets, htargets, ⟨⟩⟩ := bind_pure_eq_ok.1 h
    refine ⟨?_, rfl, rfl⟩
    rw [waiting, targets_of_populateFlags htargets]
    rfl

lemma waiting_of_promoteDeferredTargets {b : Bool}
    (h : m.promoteDeferredTargets curTick = .ok (m', b)) :
    m'.waiting = m.waiting ∧ m'.inService = m.inService := by
  rw [promoteDeferredTargets] at h
  split at h
  · cases h
    exact ⟨rfl, rfl⟩
  · simp only [bind_eq_ok] at h
    obtain ⟨deferredTargets, hd, targets, ht, tgt, -, h⟩ := h
    cases h
    refine ⟨?_, rfl⟩
    simp only [waiting, targets_of_populateFlags hd,
      targets_of_populateFlags ht, demand_append, append_assoc]
    rw [← demand_append, promoted_append]

lemma targets_eq_nil_of_promoteDeferredTargets
    (h : m.promoteDeferredTargets curTick = .ok (m', false)) :
    m.targets.targets = [] ∧ m.deferredTargets.targets = [] := by
  rw [promoteDeferredTargets] at h
  split at h
  · rename_i hempty
    simpa using hempty
  · simp only [bind_eq_ok] at h
    obtain ⟨deferredTargets, -, targets, -, tgt, -, h⟩ := h
    exact absurd (Prod.mk.inj (pure_eq_ok.1 h)).2 (by simp)

/-! ### Runs -/

/-- An MSHR in use, with the demand targets that were added to it and those that responses have
taken out of it, in this order. -/
structure System where
  mshr : MSHR
  upstream : Upstream
  added : List Arrival
  served : List Arrival

namespace System

/-- The calls that are made to an MSHR. -/
inductive Action where
  | allocate (curTick : Tick) (blkAddr : Addr) (blkSize : ℕ) (target : Packet) (whenReady : Tick)
      (order : Counter) (allocOnFill : Bool)
  | allocateTarget (curTick : Tick) (pkt : Packet) (whenReady : Tick) (order : Counter)
      (allocOnFill : Bool)
  /-- The cache decides whether to send a request of its own. -/
  | setForward (isForward : Bool)
  | markInService (pendingModifiedResp : Bool)
  | markPending
  | handleSnoop (curTick : Tick) (pkt : Packet) (order : Counter) (cpPtr : ℕ)
  | promoteReadable
  | promoteWritable
  | extractServiceableTargets (cmd : MemCmd)
  | promoteDeferredTargets (curTick : Tick)
  /-- A cache below buffers the request of this MSHR. -/
  | markDownstreamPending
  /-- A cache below has sent on the request of this MSHR. -/
  | clearDownstreamPending
  | deallocate
  /-- The marks of the MSHRs above change for other reasons. -/
  | changeUpstream (upstream : Upstream)

/-- The calls that the cache makes to an MSHR itself and not to the queue.  It promotes deferred
targets, which sets the time that the MSHR is ready at, when there was a response. -/
def Action.isOwn (inService : Bool) : Action → Bool
  | .allocate .. => false
  | .markInService _ => false
  | .markPending => false
  | .deallocate => false
  | .promoteDeferredTargets _ => inService
  | _ => true

/-- One call.  The first target comes through `MSHRQueue::allocate`, which asserts that the MSHR
has none, and `markPending` is the part of `MSHRQueue::markPending` for the MSHR. -/
def step (s : System) : Action → Result System
  | .allocate curTick blkAddr blkSize target whenReady order allocOnFill => do
      require (s.mshr.getNumTargets == 0) (.assertion "mshr->getNumTargets() == 0")
      let r ← s.mshr.allocate s.upstream curTick blkAddr blkSize target whenReady order allocOnFill
      return { s with
        mshr := r.1
        upstream := r.2
        added := s.added ++
          [⟨curTick, whenReady, order, target.ptr, firstSource target.cmd, allocOnFill⟩] }
  | .allocateTarget curTick pkt whenReady order allocOnFill => do
      let r ← s.mshr.allocateTarget s.upstream curTick pkt whenReady order allocOnFill
      return { s with
        mshr := r.1
        upstream := r.2
        added := s.added ++ [⟨curTick, whenReady, order, pkt.ptr, .fromCPU, allocOnFill⟩] }
  | .setForward isForward => return { s with mshr := { s.mshr with isForward } }
  | .markInService pendingModifiedResp => do
      let r ← s.mshr.markInService s.upstream pendingModifiedResp
      return { s with mshr := r.1, upstream := r.2 }
  | .markPending => do
      require s.mshr.inService (.assertion "mshr->inService")
      return { s with mshr := { s.mshr with inService := false } }
  | .handleSnoop curTick pkt order cpPtr => do
      let r ← s.mshr.handleSnoop s.upstream curTick pkt order cpPtr
      return { s with mshr := r.1, upstream := r.2.1 }
  | .promoteReadable => do
      let r ← s.mshr.promoteReadable s.upstream
      return { s with mshr := r.1, upstream := r.2 }
  | .promoteWritable => do
      let r ← s.mshr.promoteWritable s.upstream
      return { s with mshr := r.1, upstream := r.2 }
  | .extractServiceableTargets cmd => do
      let r ← s.mshr.extractServiceableTargets cmd
      return { s with mshr := r.1, served := s.served ++ demand r.2.targets }
  | .promoteDeferredTargets curTick => do
      let r ← s.mshr.promoteDeferredTargets curTick
      return { s with mshr := r.1 }
  | .markDownstreamPending => do
      require (!s.mshr.downstreamPending) (.assertion "!mshr->downstreamPending")
      return { s with mshr := { s.mshr with downstreamPending := true } }
  | .clearDownstreamPending => do
      let r ← s.mshr.clearDownstreamPending s.upstream
      return { s with mshr := r.1, upstream := r.2 }
  | .deallocate => do
      let mshr ← s.mshr.deallocate
      return { s with mshr }
  | .changeUpstream upstream => return { s with upstream }

def initial (upstream : Upstream) : System := ⟨.init, upstream, [], []⟩

/-- All that were added are served or wait, in the order of their arrival. -/
def InOrder (s : System) : Prop := s.served ++ s.mshr.waiting = s.added

variable {s s' : System} {a : Action} {as : List Action}

lemma InOrder.congr (hs : s.InOrder) (hm : m'.waiting = s.mshr.waiting) :
    InOrder ⟨m', up, s.added, s.served⟩ :=
  (congrArg (s.served ++ ·) hm).trans hs

/-- A call keeps the targets in order.  One that the cache makes itself leaves the MSHR in service
or not, and ready when it was. -/
lemma step_spec (h : s.step a = .ok s') : (s.InOrder → s'.InOrder) ∧
    (a.isOwn s.mshr.inService → s'.mshr.inService = s.mshr.inService ∧
      (s.mshr.inService = false → s'.mshr.readyTime = s.mshr.readyTime)) := by
  have hkeeps {m' : MSHR} {up : Upstream} (hm : s.mshr.Keeps m') :
      (s.InOrder → InOrder ⟨m', up, s.added, s.served⟩) ∧ (a.isOwn s.mshr.inService →
        m'.inService = s.mshr.inService ∧
          (s.mshr.inService = false → m'.readyTime = s.mshr.readyTime)) :=
    ⟨fun hs => hs.congr hm.waiting, fun _ => ⟨hm.schedule.1, fun _ => hm.schedule.2⟩⟩
  cases a with
  | allocate curTick blkAddr blkSize target whenReady order allocOnFill =>
    obtain ⟨_, hfree, h⟩ := bind_eq_ok.1 h
    obtain ⟨_, hm, rfl⟩ := bind_pure_eq_ok.1 h
    have hfree : s.mshr.getNumTargets = 0 := eq_of_beq (require_eq_ok.1 hfree)
    obtain ⟨hbefore, hafter⟩ := waiting_of_allocate hfree hm
    refine ⟨fun hs => ?_, by rintro ⟨⟩⟩
    rw [InOrder, hbefore, append_nil] at hs
    rw [InOrder, hafter, hs]
  | allocateTarget curTick pkt whenReady order allocOnFill =>
    obtain ⟨_, hm, rfl⟩ := bind_pure_eq_ok.1 h
    obtain ⟨hwaiting, hsame⟩ := waiting_of_allocateTarget hm
    exact ⟨fun hs => by rw [InOrder, hwaiting, ← append_assoc, hs], fun _ =>
      ⟨hsame.1, fun _ => hsame.2⟩⟩
  | setForward =>
    cases h
    exact hkeeps ⟨rfl, rfl, rfl⟩
  | markInService pendingModifiedResp =>
    obtain ⟨_, hm, rfl⟩ := bind_pure_eq_ok.1 h
    exact ⟨fun hs => hs.congr (waiting_of_markInService hm).1, by rintro ⟨⟩⟩
  | markPending =>
    obtain ⟨-, -, rfl⟩ := bind_pure_eq_ok.1 h
    exact ⟨fun hs => hs.congr rfl, by rintro ⟨⟩⟩
  | handleSnoop curTick pkt order cpPtr =>
    obtain ⟨_, hm, rfl⟩ := bind_pure_eq_ok.1 h
    exact hkeeps (keeps_of_handleSnoop hm)
  | promoteReadable =>
    obtain ⟨_, hm, rfl⟩ := bind_pure_eq_ok.1 h
    exact hkeeps (keeps_of_promoteReadable hm)
  | promoteWritable =>
    obtain ⟨_, hm, rfl⟩ := bind_pure_eq_ok.1 h
    exact hkeeps (keeps_of_promoteWritable hm)
  | extractServiceableTargets cmd =>
    obtain ⟨_, hm, rfl⟩ := bind_pure_eq_ok.1 h
    obtain ⟨hwaiting, hsame⟩ := waiting_of_extractServiceableTargets hm
    exact ⟨fun hs => by rw [InOrder, append_assoc, hwaiting, hs], fun _ =>
      ⟨hsame.1, fun _ => hsame.2⟩⟩
  | promoteDeferredTargets curTick =>
    obtain ⟨_, hm, rfl⟩ := bind_pure_eq_ok.1 h
    obtain ⟨hwaiting, hsame⟩ := waiting_of_promoteDeferredTargets hm
    exact ⟨fun hs => hs.congr hwaiting, fun ha => ⟨hsame, fun hnot => by cases ha.symm.trans hnot⟩⟩
  | markDownstreamPending =>
    obtain ⟨-, -, rfl⟩ := bind_pure_eq_ok.1 h
    exact hkeeps ⟨rfl, rfl, rfl⟩
  | clearDownstreamPending =>
    obtain ⟨_, hm, rfl⟩ := bind_pure_eq_ok.1 h
    exact hkeeps (keeps_of_clearDownstreamPending hm)
  | deallocate =>
    obtain ⟨m', hm, rfl⟩ := bind_pure_eq_ok.1 h
    exact ⟨fun hs => hs.congr (waiting_of_deallocate hm).1, by rintro ⟨⟩⟩
  | changeUpstream =>
    cases h
    exact hkeeps (.refl _)

/-- In every run the demand targets leave the MSHR in the order in which they were added, each
of them once, and all of them have left it when `promoteDeferredTargets` returns false. -/
theorem exec_inOrder (h : Exec (Guarded (fun _ _ => True) step) (initial up) as s) :
    s.served ++ s.mshr.waiting = s.added ∧
      ∀ curTick m, s.mshr.promoteDeferredTargets curTick = .ok (m, false) →
        s.mshr.deferredTargets.targets = [] ∧ s.served = s.added := by
  have hs : s.InOrder := h.invariant_state rfl fun hs hstep => (step_spec hstep.2).1 hs
  refine ⟨hs, ?_⟩
  intro curTick m hm
  obtain ⟨htargets, hdeferred⟩ := targets_eq_nil_of_promoteDeferredTargets hm
  refine ⟨hdeferred, ?_⟩
  have hwaiting : s.mshr.waiting = [] := by
    rw [waiting, htargets, hdeferred]
    rfl
  rw [← hs, hwaiting, append_nil]

/-- A packet for the block at `0x40`. -/
def blockPacket (ptr : ℕ) (cmd : MemCmd) : Packet :=
  ⟨⟨cmd⟩, ptr, ⟨0, some 0x40⟩, 0x40, 8, false, false, false, false, false, false, false, false,
    none⟩

/-- A read miss is joined by a read; a write, and a read behind it, are deferred.  An invalidation
is snooped before the response, which serves the first read only. -/
def invalidatedRun : List Action :=
  [.allocate 0 0x40 8 (blockPacket 1 .readSharedReq) 5 0 true, .markInService false,
    .allocateTarget 6 (blockPacket 2 .readSharedReq) 6 1 true,
    .allocateTarget 7 (blockPacket 3 .writeReq) 7 2 true,
    .allocateTarget 8 (blockPacket 4 .readSharedReq) 8 3 true,
    .handleSnoop 9 (blockPacket 5 .readExReq) 4 6,
    .extractServiceableTargets .readRespWithInvalidate, .promoteDeferredTargets 10, .markPending,
    .markInService false, .extractServiceableTargets .readExResp]

theorem exec_inOrder_invalidatedRun : ∃ s : System,
    Exec (Guarded (fun _ _ => True) step) (initial fun _ => false) invalidatedRun s ∧
      s.served.map Arrival.pkt = [1, 2, 3, 4] ∧ s.served = s.added := by
  have h : Exec (Guarded (fun _ _ => True) step) (initial fun _ => false) invalidatedRun _ :=
    exec_of_replay rfl
  exact ⟨_, h, rfl, ((exec_inOrder h).2 11 _ rfl).2⟩

end System

end ChipletGem5.MSHR
