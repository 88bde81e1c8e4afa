import ChipletGem5.Mem.FALRUTracking

/-!
# The statistics of tracked caches

The hits that `CacheTracking` counts, compared with those of separate caches.  The valid blocks are
the elements accessed last, in this order; so the mask that `accessBlock` returns tells for each
tracked cache whether it would have had a hit.  But `recordAccess` reads the mask of the block when
that has been moved to the head, and is in all caches.  So every hit of the cache itself is counted
as a hit of all tracked caches.
-/

namespace ChipletGem5.FALRU

open Function Lru List Nat CachesMask

/-! ### Sizes -/

namespace Config

/-- The number of blocks of a tracked cache. -/
def capacity (cfg : Config) (i : ℕ) : ℕ := (cfg.minTrackedSize <<< i) / cfg.blkSize

/-- Parameters that the constructor accepts, where the smallest tracked cache has at least two
blocks.  The size is an `unsigned`. -/
structure Valid (cfg : Config) : Prop where
  size_lt : cfg.size < 2 ^ 32
  size : isPowerOf2 cfg.size
  blkSize : isPowerOf2 cfg.blkSize
  min : 2 * cfg.blkSize ≤ cfg.minTrackedSize

variable {cfg : Config} {i j : ℕ}

namespace Valid

lemma capacity_mul (hdvd : cfg.blkSize ∣ cfg.minTrackedSize) (i : ℕ) :
    cfg.capacity i * cfg.blkSize = cfg.minTrackedSize * 2 ^ i := by
  rw [capacity, shiftLeft_eq]
  exact Nat.div_mul_cancel (Dvd.dvd.mul_right hdvd _)

variable (hv : cfg.Valid)
include hv

lemma blkSize_pos : 0 < cfg.blkSize := by
  rw [exists_eq_two_pow hv.blkSize]
  exact Nat.two_pow_pos _

lemma lt_numTrackedCaches_iff :
    i < cfg.numTrackedCaches ↔ cfg.minTrackedSize * 2 ^ i < cfg.size := by
  have hblk := hv.blkSize_pos
  have hmin := hv.min
  have hsize := exists_eq_two_pow hv.size
  have hle : 2 ^ cfg.minTrackedSize.log2 ≤ cfg.minTrackedSize := Nat.log2_self_le (by omega)
  have hlt : cfg.minTrackedSize < 2 ^ (cfg.minTrackedSize.log2 + 1) := lt_log2_self
  constructor
  · intro hi
    have hmin' : cfg.minTrackedSize < cfg.size := by
      by_contra hge
      rw [numTrackedCaches, if_neg hge] at hi
      omega
    rw [numTrackedCaches, if_pos hmin'] at hi
    calc cfg.minTrackedSize * 2 ^ i
      _ < 2 ^ (cfg.minTrackedSize.log2 + 1) * 2 ^ i :=
        mul_lt_mul_of_pos_right hlt (Nat.two_pow_pos i)
      _ = 2 ^ (cfg.minTrackedSize.log2 + 1 + i) := (pow_add 2 _ i).symm
      _ ≤ 2 ^ cfg.size.log2 := Nat.pow_le_pow_right (by omega) (by omega)
      _ = cfg.size := hsize.symm
  · intro hlt'
    have hpow : 1 ≤ 2 ^ i := Nat.one_le_two_pow
    have hmin' : cfg.minTrackedSize < cfg.size := by nlinarith
    rw [numTrackedCaches, if_pos hmin']
    by_contra hge
    have hpow' : 2 ^ cfg.size.log2 ≤ 2 ^ (cfg.minTrackedSize.log2 + i) :=
      Nat.pow_le_pow_right (by omega) (by omega)
    rw [pow_add] at hpow'
    have hmul := mul_le_mul_right (2 ^ i) hle
    omega

lemma numTrackedCaches_le : cfg.numTrackedCaches ≤ 32 := by
  have hlog : cfg.size.log2 < 32 := by
    by_contra hge
    have hpow : 2 ^ 32 ≤ 2 ^ cfg.size.log2 := Nat.pow_le_pow_right (by omega) (by omega)
    rw [← exists_eq_two_pow hv.size] at hpow
    have hlt := hv.size_lt
    omega
  rw [numTrackedCaches]
  split_ifs <;> omega

lemma create_eq : create cfg = .ok (tagsInit cfg) := by
  have hmin : cfg.minTrackedSize ≠ 0 := by
    have hblk := hv.blkSize_pos
    have hle := hv.min
    omega
  rw [create, hv.blkSize, hv.size]
  simp [hmin, hv.numTrackedCaches_le, require]

lemma numBlocks_mul (hi : i < cfg.numTrackedCaches) : cfg.numBlocks * cfg.blkSize = cfg.size := by
  have hlt := hv.lt_numTrackedCaches_iff.1 hi
  have hpow : 1 ≤ 2 ^ i := Nat.one_le_two_pow
  have hmin := hv.min
  have hle : cfg.blkSize ≤ cfg.size := by nlinarith
  exact Nat.div_mul_cancel (dvd_of_isPowerOf2 hv.blkSize hv.size hle)

variable (hdvd : cfg.blkSize ∣ cfg.minTrackedSize)

include hdvd

lemma two_le_capacity (i : ℕ) : 2 ≤ cfg.capacity i := by
  have hblk := hv.blkSize_pos
  have hmin := hv.min
  have hpow : 1 ≤ 2 ^ i := Nat.one_le_two_pow
  have hmul := capacity_mul hdvd i
  have hle : 2 * cfg.blkSize ≤ cfg.capacity i * cfg.blkSize := by
    nlinarith
  exact le_of_mul_le_mul_right hle hblk

lemma capacity_lt_iff (hi : i < cfg.numTrackedCaches) (j : ℕ) :
    cfg.capacity j < cfg.numBlocks ↔ j < cfg.numTrackedCaches := by
  rw [hv.lt_numTrackedCaches_iff, ← capacity_mul hdvd, ← hv.numBlocks_mul hi]
  exact (Nat.mul_lt_mul_right hv.blkSize_pos).symm

lemma capacity_lt_capacity (hij : i < j) : cfg.capacity i < cfg.capacity j := by
  have hblk := hv.blkSize_pos
  have hmin := hv.min
  have hpow : 2 ^ i < 2 ^ j := Nat.pow_lt_pow_right (by omega) hij
  have hmul : cfg.capacity i * cfg.blkSize < cfg.capacity j * cfg.blkSize := by
    rw [capacity_mul hdvd, capacity_mul hdvd]
    exact mul_lt_mul_of_pos_left hpow (by omega)
  exact Nat.lt_of_mul_lt_mul_right hmul

end Valid

end Config

/-! ### Initialisation -/

section Init

variable {cfg : Config} {s : FALRU} {j p n curr tracked : ℕ} {mask : CachesMask}

lemma initLoop_sameBut (s : FALRU) (curr tracked : ℕ) (mask : CachesMask) (j : ℕ)
    (l : List BlkId) : SameBut (fun _ => True) s (s.initLoop curr tracked mask j l) := by
  induction l generalizing s curr tracked mask j with
  | nil => exact .refl _ s
  | cons b l ih =>
    have hmask : SameBut (fun _ => True) s (s.setMask b mask) :=
      .setMask s b fun i hi => absurd trivial hi
    rw [initLoop]
    split_ifs
    · exact ((hmask.trans ((SameBut.setBoundary _ j _).mono fun _ _ => trivial)).trans
        (ih _ _ _ _ _)).mono fun _ _ => trivial
    · exact (hmask.trans (ih _ _ _ _ _)).mono fun _ _ => trivial

lemma tagsInit_sameBut (cfg : Config) :
    SameBut (fun _ => True) ⟨cfg, fun _ => ⟨MaxAddr, false, false, 0⟩, initLinks cfg.numBlocks,
      fun _ => none, fun _ => none, fun _ => 0, fun _ => 0, 0⟩ (tagsInit cfg) := by
  rw [tagsInit]
  split_ifs
  · exact .refl _ _
  · exact initLoop_sameBut ..

/-- What the loop has done when it comes to block `p`, with `j` boundaries set. -/
structure InitDone (s : FALRU) (mask : CachesMask) (j p : ℕ) : Prop where
  mask : ∀ i, mask.has i = decide (j ≤ i ∧ i < s.cfg.numTrackedCaches)
  count : ∀ i < s.cfg.numTrackedCaches, i < j ↔ s.cfg.capacity i ≤ p
  blks : ∀ b < p, ∀ i, (s.blks b).inCachesMask.has i =
    decide (i < s.cfg.numTrackedCaches ∧ b < s.cfg.capacity i)
  boundaries : ∀ i < j, s.boundaries i = some (s.cfg.capacity i - 1)

lemma InitDone.setMask (h : InitDone s mask j p) (b : ℕ) (hb : b < p + 1) (i : ℕ) :
    ((s.setMask p mask).blks b).inCachesMask.has i =
      decide (i < s.cfg.numTrackedCaches ∧ b < s.cfg.capacity i) := by
  by_cases hbp : b = p
  · rw [hbp, blks_setMask_self, h.mask, decide_eq_decide]
    constructor
    · rintro ⟨hj, hi⟩
      have hcount := h.count i hi
      exact ⟨hi, by omega⟩
    · rintro ⟨hi, hlt⟩
      have hcount := h.count i hi
      exact ⟨by omega, hi⟩
  · rw [blks_setMask_of_ne s mask hbp]
    exact h.blks b (by omega) i

lemma InitDone.initLoop (hv : s.cfg.Valid) (hdvd : s.cfg.blkSize ∣ s.cfg.minTrackedSize)
    (ht : 0 < s.cfg.numTrackedCaches) (htail : s.links.tail = s.cfg.numBlocks - 1)
    (h : InitDone s mask j p) (hn : p + n = s.cfg.numBlocks) :
    ∃ mask' j', InitDone (s.initLoop (p * s.cfg.blkSize) (s.cfg.minTrackedSize * 2 ^ j) mask j
      (List.range' p n)) mask' j' s.cfg.numBlocks := by
  induction n generalizing s mask j p with
  | zero =>
    exact ⟨mask, j, hn ▸ h⟩
  | succ n ih =>
    have hmul := Config.Valid.capacity_mul hdvd j
    have hblk := hv.blkSize_pos
    have hcap := hv.capacity_lt_iff hdvd ht
    have hmono := fun i j => hv.capacity_lt_capacity (i := i) (j := j) hdvd
    have hsucc : p * s.cfg.blkSize + s.cfg.blkSize = (p + 1) * s.cfg.blkSize := by ring
    have hpow : 2 * (s.cfg.minTrackedSize * 2 ^ j) = s.cfg.minTrackedSize * 2 ^ (j + 1) := by ring
    have hn' : p + 1 + n = s.cfg.numBlocks := by omega
    have hlast : p ≠ s.links.tail ↔ p + 1 < s.cfg.numBlocks := by
      rw [htail]
      omega
    rw [List.range'_succ, FALRU.initLoop, hsucc, hpow]
    split_ifs with hcond <;>
      rw [hlast, ← hmul, Nat.mul_right_cancel_iff hblk] at hcond
    · -- block `p` is the last one of cache `j`
      have hj : j < s.cfg.numTrackedCaches := (hcap j).1 (by omega)
      refine ih (s := (s.setMask p mask).setBoundary j p) hv hdvd ht htail ⟨?_, ?_, ?_, ?_⟩ hn'
      · intro i
        rw [has_and_not (hj.trans_le hv.numTrackedCaches_le), h.mask, ← Bool.decide_and,
          decide_eq_decide]
        show _ ↔ j + 1 ≤ i ∧ i < s.cfg.numTrackedCaches
        omega
      · intro i hi
        show i < j + 1 ↔ s.cfg.capacity i ≤ p + 1
        have hcount := h.count i hi
        have hlt := hmono j i
        rcases eq_or_ne i j with rfl | hij <;> omega
      · exact h.setMask
      · intro i hi
        by_cases hij : i = j
        · rw [hij]
          show update s.boundaries j (some p) j = some (s.cfg.capacity j - 1)
          rw [update_self, ← hcond.1, Nat.add_sub_cancel]
        · show update s.boundaries j (some p) i = some (s.cfg.capacity i - 1)
          rw [update_of_ne hij]
          exact h.boundaries i (by omega)
    · refine ih (s := s.setMask p mask) hv hdvd ht htail ⟨h.mask, ?_, ?_, h.boundaries⟩ hn'
      · intro i hi
        have hi : i < s.cfg.numTrackedCaches := hi
        show i < j ↔ s.cfg.capacity i ≤ p + 1
        have hcount := h.count i hi
        have hi' : s.cfg.capacity i < s.cfg.numBlocks := (hcap i).2 hi
        have hlt := hmono j i
        have hcount' := h.count j
        rcases eq_or_ne i j with rfl | hij <;> omega
      · exact h.setMask

lemma initLinks_repr (h : 0 < n) : (initLinks n).Repr (List.range n) := by
  have hsegment : ∀ {p m}, p + m = n →
      Segment (initLinks n).prev (initLinks n).next (if p = 0 then none else some (p - 1))
        (List.range' p m) none := by
    intro p m
    induction m generalizing p with
    | zero => exact fun _ => trivial
    | succ m ih =>
      intro hpm
      refine ⟨rfl, ?_, ?_⟩
      · show (if p + 1 < n then some (p + 1) else none) = _
        cases m with
        | zero => rw [if_neg (by omega)]; rfl
        | succ m => rw [if_pos (by omega)]; rfl
      · have hs := ih (p := p + 1) (by omega)
        rwa [if_neg (by omega)] at hs
  refine ⟨?_, ?_, ?_, nodup_range⟩
  · rw [range_eq_range']
    exact hsegment (p := 0) (by omega)
  · obtain ⟨m, rfl⟩ := exists_eq_succ_of_ne_zero h.ne'
    simp [range_succ_eq_map, initLinks]
  · obtain ⟨m, rfl⟩ := exists_eq_succ_of_ne_zero h.ne'
    simp [range_succ, initLinks]

lemma tracked_tagsInit (hv : cfg.Valid) (hdvd : cfg.blkSize ∣ cfg.minTrackedSize)
    (ht : 0 < cfg.numTrackedCaches) :
    Tracked (tagsInit cfg) cfg.capacity (List.range cfg.numBlocks) := by
  have hcap := hv.capacity_lt_iff hdvd ht
  have hpos : 0 < cfg.numBlocks := (zero_le _).trans_lt ((hcap 0).2 ht)
  have hidx : ∀ {b}, b < cfg.numBlocks → (List.range cfg.numBlocks).idxOf b = b := by
    intro b hb
    have hget := nodup_range.idxOf_getElem b (by simpa using hb)
    rwa [getElem_range] at hget
  rw [tagsInit, if_neg (by omega)]
  set s : FALRU := ⟨cfg, fun _ => ⟨MaxAddr, false, false, 0⟩, initLinks cfg.numBlocks,
    fun _ => none, fun _ => none, fun _ => 0, fun _ => 0, 0⟩ with hs
  have hstart : InitDone s cfg.inAllCachesMask 0 0 := by
    refine ⟨?_, ?_, by simp, by simp⟩
    · intro i
      rw [has_inAllCachesMask hv.numTrackedCaches_le]
      simp [hs]
    · intro i hi
      have htwo := hv.two_le_capacity hdvd i
      show i < 0 ↔ cfg.capacity i ≤ 0
      omega
  obtain ⟨mask, j, hdone⟩ := InitDone.initLoop (s := s) (n := cfg.numBlocks) hv hdvd ht rfl hstart
    (zero_add _)
  rw [zero_mul, pow_zero, mul_one, ← range_eq_range'] at hdone
  have hsame := initLoop_sameBut s 0 cfg.minTrackedSize cfg.inAllCachesMask 0
    (List.range cfg.numBlocks)
  set s' := s.initLoop 0 cfg.minTrackedSize cfg.inAllCachesMask 0 (List.range cfg.numBlocks)
  have hcfg : s'.cfg = cfg := hsame.cfg
  obtain ⟨-, hcount, hblks, hboundaries⟩ := hdone
  rw [hcfg] at hcount hboundaries
  simp only [hcfg] at hblks
  refine ⟨?_, ?_, ?_, ?_, ?_⟩
  · rw [hsame.links]
    exact initLinks_repr hpos
  · rw [hcfg]
    exact hv.numTrackedCaches_le
  · rw [hcfg, length_range]
    intro i hi
    exact ⟨hv.two_le_capacity hdvd i, (hcap i).2 hi⟩
  · rw [hcfg]
    intro i hi
    have htwo := hv.two_le_capacity hdvd i
    have hlt := (hcap i).2 hi
    refine ⟨?_, cfg.capacity i - 1, mem_range.2 (by omega), ?_, ?_⟩
    · intro b hb _
      have hb := mem_range.1 hb
      rw [hblks b hb, hidx hb]
      simp [hi]
    · exact hboundaries i ((hcount i hi).2 hlt.le)
    · rw [hidx (by omega)]
      omega
  · rw [hcfg]
    intro b hb i hi
    rw [hblks b (mem_range.1 hb), decide_eq_false_iff_not]
    omega

lemma inCachesMask_initLoop (hdvd : ¬ s.cfg.blkSize ∣ tracked) {l : List BlkId} {b : BlkId}
    (hb : b ∈ l ∨ (s.blks b).inCachesMask = mask) (hcurr : s.cfg.blkSize ∣ curr) :
    ((s.initLoop curr tracked mask j l).blks b).inCachesMask = mask := by
  induction l generalizing s curr with
  | nil => exact hb.resolve_left (by simp)
  | cons b' l ih =>
    have hnot : ¬ (curr + s.cfg.blkSize = tracked ∧ b' ≠ s.links.tail) := by
      rintro ⟨rfl, -⟩
      exact hdvd (Dvd.dvd.add hcurr (dvd_refl _))
    rw [initLoop, if_neg hnot]
    refine ih (s := s.setMask b' mask) hdvd ?_ (Dvd.dvd.add hcurr (dvd_refl _))
    by_cases hbb : b = b'
    · rw [hbb, blks_setMask_self]
      exact .inr rfl
    · rw [blks_setMask_of_ne s mask hbb]
      exact hb.imp_left fun hmem => (mem_cons.1 hmem).resolve_left hbb

end Init

/-! ### Sequences of moves -/

/-- A call of `moveToHead` or of `moveToTail`. -/
inductive Move
  | toHead (blk : BlkId)
  | toTail (blk : BlkId)

def Move.blk : Move → BlkId
  | toHead blk | toTail blk => blk

def move (s : FALRU) : Move → Result FALRU
  | .toHead blk => s.moveToHead blk
  | .toTail blk => s.moveToTail blk

/-- What `CacheTracking::check` verifies: the list has all blocks, with the links of its order,
the block at position `p` is in the tracked caches of more than `p` blocks, and the boundary of a
tracked cache is its last block. -/
def Consistent (s : FALRU) : Prop :=
  ∃ l : List BlkId, l.Perm (List.range s.cfg.numBlocks) ∧ s.links.Repr l ∧
    ∀ i < s.cfg.numTrackedCaches,
      (∀ p b, l[p]? = some b →
        (s.blks b).inCachesMask.has i = decide (p < s.cfg.capacity i)) ∧
      ∃ b, s.boundaries i = some b ∧ l[s.cfg.capacity i - 1]? = some b

lemma Tracked.consistent {s : FALRU} {l : List BlkId} (h : Tracked s s.cfg.capacity l)
    (hl : l.Perm (List.range s.cfg.numBlocks)) : Consistent s := by
  refine ⟨l, hl, h.repr, fun i hi => ⟨fun p b hp => ?_, ?_⟩⟩
  · obtain ⟨hlt, rfl⟩ := List.getElem?_eq_some_iff.1 hp
    rw [(h.fits i hi).mask _ (getElem_mem hlt) not_false, h.repr.nodup.idxOf_getElem p hlt]
  · obtain ⟨b, hb, hboundary, hidx⟩ := (h.fits i hi).boundary
    refine ⟨b, hboundary, ?_⟩
    rw [← hidx, Nat.add_sub_cancel, List.getElem?_idxOf hb]

lemma Tracked.move {s : FALRU} {cap : ℕ → ℕ} {l : List BlkId} {m : Move} (h : Tracked s cap l)
    (hlen : 2 ≤ l.length) (hm : m.blk ∈ l) :
    ∃ s' l', s.move m = .ok s' ∧ Tracked s' cap l' ∧ l'.Perm l ∧ s'.cfg = s.cfg := by
  cases m with
  | toHead blk =>
    obtain ⟨s', hs', htracked, hdata⟩ := h.moveToHead hlen hm
    exact ⟨s', _, hs', htracked, perm_touch hm, hdata.cfg⟩
  | toTail blk =>
    obtain ⟨s', hs', htracked, hdata⟩ := h.moveToTail hlen hm
    exact ⟨s', _, hs', htracked,
      (perm_append_singleton blk _).trans (perm_cons_erase hm).symm, hdata.cfg⟩

lemma tracked_tagsInit_of_two_le {cfg : Config} (hv : cfg.Valid)
    (hdvd : cfg.blkSize ∣ cfg.minTrackedSize) (hblocks : 2 ≤ cfg.numBlocks) :
    Tracked (tagsInit cfg) cfg.capacity (List.range cfg.numBlocks) := by
  rcases Nat.eq_zero_or_pos cfg.numTrackedCaches with hnone | hsome
  · -- there are no masks and no boundaries to be set
    have hlt : ∀ i, ¬ i < cfg.numTrackedCaches := fun i hi => by omega
    rw [tagsInit, if_pos hnone]
    exact ⟨initLinks_repr (by omega), hv.numTrackedCaches_le, fun i hi => absurd hi (hlt i),
      fun i hi => absurd hi (hlt i), fun _ _ _ _ => has_zero⟩
  · exact tracked_tagsInit hv hdvd hsome

/-- The tracking of tags with the given parameters is right. -/
def Tracking (cfg : Config) (_ : List Move) (s : FALRU) : Prop :=
  ∃ l, Tracked s cfg.capacity l ∧ l.Perm (List.range cfg.numBlocks) ∧ s.cfg = cfg

/-- The tracking stays consistent under every sequence of calls for blocks of the cache, if there
are at least two blocks and the smallest tracked cache has at least two as well. -/
theorem moves_consistent {cfg : Config} (hv : cfg.Valid) (hmin : isPowerOf2 cfg.minTrackedSize)
    (hblocks : 2 ≤ cfg.numBlocks) (ms : List Move) (hms : ∀ m ∈ ms, m.blk < cfg.numBlocks) :
    ∃ s₀ s, create cfg = .ok s₀ ∧ ms.foldlM move s₀ = .ok s ∧ Consistent s := by
  have htwo := hv.min
  have hdvd := dvd_of_isPowerOf2 hv.blkSize hmin (by omega)
  have hstep : ∀ {done s m}, done ++ [m] <+: ms → Tracking cfg done s →
      ∃ s', s.move m = .ok s' ∧ Tracking cfg (done ++ [m]) s' := by
    rintro done s m hm ⟨l, htracked, hl, hcfg⟩
    have hlen : 2 ≤ l.length := by rwa [hl.length_eq, length_range]
    have hmem : m.blk ∈ l := hl.mem_iff.2 (mem_range.2 (hms m (hm.subset (by simp))))
    obtain ⟨s', l', hs', htracked', hl', hcfg'⟩ := htracked.move hlen hmem
    exact ⟨s', hs', l', htracked', hl'.trans hl, hcfg'.trans hcfg⟩
  have hinit : Tracking cfg [] (tagsInit cfg) :=
    ⟨_, tracked_tagsInit_of_two_le hv hdvd hblocks, .refl _, (tagsInit_sameBut cfg).cfg⟩
  obtain ⟨s, hs, l, htracked, hl, rfl⟩ := foldlM_ok ms hinit hstep
  exact ⟨_, s, hv.create_eq, hs, htracked.consistent hl⟩

/-- Four blocks, with a tracked cache of two. -/
theorem moves_consistent_four :
    ∃ s₀ s, create ⟨256, 64, 128⟩ = .ok s₀ ∧
      [Move.toHead 3, .toTail 1, .toHead 2].foldlM move s₀ = .ok s ∧ Consistent s :=
  moves_consistent ⟨by decide, by decide, by decide, by decide⟩ (by decide) (by decide)
    [.toHead 3, .toTail 1, .toHead 2] (by decide)

/-- A tracked cache of one block loses its boundary. -/
theorem not_consistent_single :
    ∃ s₀ s, create ⟨128, 64, 64⟩ = .ok s₀ ∧ [Move.toHead 1].foldlM move s₀ = .ok s ∧
      ¬ Consistent s := by
  refine ⟨_, _, rfl, rfl, ?_⟩
  rintro ⟨l, -, -, hcaches⟩
  obtain ⟨b, hboundary, -⟩ := (hcaches 0 (by decide)).2
  exact Option.some_ne_none b hboundary.symm

/-! ### Blocks in the order of their last access -/

/-- The data of a valid block with the given key. -/
def held (key : TagHashKey) : Addr × Bool × Bool := (key.1, true, key.2)

/-- The data of an invalid block. -/
def unused : Addr × Bool × Bool := (MaxAddr, false, false)

lemma held_injective : Injective held := fun _ _ h => congrArg (fun d => (d.1, d.2.2)) h

/-- The hash table has the keys of the valid blocks, and these are in front of the others, in the
order of the given keys. -/
structure Arranged (s : FALRU) (l : List BlkId) (keys : List TagHashKey) : Prop where
  hash : ∀ key b, s.tagHash key = some b ↔ b ∈ l ∧ s.data b = held key
  order : ∃ n, l.map s.data = keys.map held ++ replicate n unused

namespace Arranged

variable {s s' : FALRU} {l l₁ : List BlkId} {keys : List TagHashKey} {b v : BlkId}
  {key : TagHashKey}

section

variable (h : Arranged s l keys)
include h

lemma congr (hhash : s'.tagHash = s.tagHash) (hdata : s'.data = s.data) : Arranged s' l keys :=
  ⟨by rw [hhash, hdata]; exact h.hash, by rw [hdata]; exact h.order⟩

lemma mem_keys : key ∈ keys ↔ ∃ b, s.tagHash key = some b := by
  obtain ⟨n, horder⟩ := h.order
  have hunused : unused ≠ held key := fun heq => nomatch congrArg (fun d => d.2.1) heq
  have hmem : held key ∈ l.map s.data ↔ key ∈ keys := by
    rw [horder, mem_append, mem_map_of_injective held_injective, mem_replicate]
    exact or_iff_left fun hr => hunused hr.2.symm
  simp only [← hmem, mem_map, h.hash]

variable (hhash : s.tagHash key = some b)
include hhash

lemma eq_of_data {b' : BlkId} (hb' : b' ∈ l) (hdata : s.data b' = s.data b) : b' = b :=
  Option.some.inj
    (((h.hash key b').2 ⟨hb', hdata.trans ((h.hash key b).1 hhash).2⟩).symm.trans hhash)

lemma idxOf_eq : l.idxOf b = keys.idxOf key := by
  obtain ⟨n, horder⟩ := h.order
  rw [← idxOf_map_of_eq fun b' => h.eq_of_data hhash, horder, ((h.hash key b).1 hhash).2,
    idxOf_append_of_mem (mem_map_of_mem (h.mem_keys.2 ⟨b, hhash⟩)),
    idxOf_map_of_eq fun _ _ heq => held_injective heq]

lemma touch : Arranged s (Lru.touch l b) (Lru.touch keys key) := by
  obtain ⟨hb, hdata⟩ := (h.hash key b).1 hhash
  obtain ⟨n, horder⟩ := h.order
  refine ⟨fun key' b' => by rw [(perm_touch hb).mem_iff, h.hash], n, ?_⟩
  rw [map_touch fun b' => h.eq_of_data hhash, horder, hdata,
    touch_append (mem_map_of_mem (h.mem_keys.2 ⟨b, hhash⟩)),
    map_touch fun _ _ heq => held_injective heq]

end

section

variable (h : Arranged s (l₁ ++ [v]) keys)
include h

/-- The last block is valid, and has the last of the keys, or it is invalid. -/
lemma last_cases :
    (∃ keys' key, keys = keys' ++ [key] ∧ s.data v = held key ∧ l₁.map s.data = keys'.map held) ∨
      (s.data v = unused ∧ ∃ n, l₁.map s.data = keys.map held ++ replicate n unused) := by
  obtain ⟨n, horder⟩ := h.order
  rw [map_append, map_singleton] at horder
  cases n with
  | zero =>
    rcases eq_nil_or_concat keys with rfl | ⟨keys', key, rfl⟩
    · simp at horder
    · rw [concat_eq_append, map_append, replicate_zero, append_nil] at horder
      obtain ⟨hkeys, hv⟩ := append_inj' horder rfl
      exact .inl ⟨keys', key, concat_eq_append, by simpa using hv, hkeys⟩
  | succ n =>
    rw [replicate_succ', ← append_assoc] at horder
    obtain ⟨hkeys, hv⟩ := append_inj' horder rfl
    exact .inr ⟨by simpa using hv, n, hkeys⟩

variable (hl : (l₁ ++ [v]).Nodup)
include hl

lemma evict {keys' : List TagHashKey} (hv : s.data v = held key)
    (hkeys : l₁.map s.data = keys'.map held) (hhash : s'.tagHash = update s.tagHash key none)
    (hdata : s'.data = update s.data v unused) : Arranged s' (l₁ ++ [v]) keys' := by
  have hself := (h.hash key v).2 ⟨mem_concat_self, hv⟩
  refine ⟨fun key' b => ?_, 1, ?_⟩
  · rw [hhash, hdata, update_apply, update_apply]
    split_ifs with hkey hb hb
    · exact iff_of_false nofun fun hr => nomatch congrArg (fun d => d.2.1) hr.2
    · -- two blocks with one key would both be in the hash table
      exact iff_of_false nofun fun hr => hb (h.eq_of_data hself hr.1 (hr.2.trans (hkey ▸ hv.symm)))
    · refine iff_of_false (fun hr => ?_) fun hr => nomatch congrArg (fun d => d.2.1) hr.2
      rw [hb] at hr
      exact hkey (held_injective (((h.hash key' v).1 hr).2.symm.trans hv))
    · exact h.hash key' b
  · rw [hdata, map_append, map_singleton, update_self,
      map_update_of_notMem (notMem_of_concat hl), hkeys]
    rfl

lemma insert {n : ℕ} (hv : s.data v = unused)
    (hkeys : l₁.map s.data = keys.map held ++ replicate n unused) (hkey : key ∉ keys)
    (hhash : s'.tagHash = update s.tagHash key (some v))
    (hdata : s'.data = update s.data v (held key)) : Arranged s' (v :: l₁) (key :: keys) := by
  refine ⟨fun key' b => ?_, n, ?_⟩
  · rw [hhash, hdata, update_apply, update_apply]
    split_ifs with hkey' hb hb
    · rw [hb, hkey']
      simp
    · -- the new key is not that of another valid block
      refine iff_of_false (fun hr => hb (Option.some.inj hr).symm) fun hr => ?_
      refine hkey (h.mem_keys.2 ⟨b, (h.hash key b).2 ⟨?_, hkey' ▸ hr.2⟩⟩)
      exact mem_append_left _ ((mem_cons.1 hr.1).resolve_left hb)
    · refine iff_of_false (fun hr => ?_) fun hr => hkey' (held_injective hr.2).symm
      rw [hb, h.hash, hv] at hr
      exact nomatch congrArg (fun d => d.2.1) hr.2
    · rw [h.hash, mem_append, mem_singleton, mem_cons, or_comm]
  · rw [hdata, map_cons, update_self, map_update_of_notMem (notMem_of_concat hl), hkeys]
    rfl

end

end Arranged

/-! ### Accesses -/

section Access

variable {cfg : Config} {s s' : FALRU} {cap : ℕ → ℕ} {l l₁ : List BlkId} {b v : BlkId}
  {keys : List TagHashKey} {addr : Addr} {isSecure : Bool} {i : ℕ}

lemma Arranged.findBlock (h : Arranged s l keys) (addr : Addr) (isSecure : Bool) :
    s.findBlock addr isSecure = .ok (s.tagHash (s.cfg.blkAlign addr, isSecure)) := by
  rw [FALRU.findBlock]
  cases hhash : s.tagHash (s.cfg.blkAlign addr, isSecure) with
  | none => rfl
  | some b =>
    have hdata := ((h.hash _ b).1 hhash).2
    simp only [data, Blk.data, held, Prod.mk.injEq] at hdata
    simp [hdata, require]

lemma access_of_findBlock_none (h : s.findBlock addr isSecure = .ok none) :
    s.access addr isSecure =
      (if (s.blks s.links.tail).isValid then (s.recordAccess none).invalidate s.links.tail
        else pure (s.recordAccess none)) >>= fun s' =>
      s'.insertBlock addr isSecure s.links.tail >>= fun s'' => .ok (s'', 0) := by
  rw [access, accessBlock, h]
  rfl

def SameCounters (s s' : FALRU) : Prop :=
  s'.cfg = s.cfg ∧ s'.hits = s.hits ∧ s'.misses = s.misses

lemma SameData.sameCounters (h : SameData s s') : SameCounters s s' := ⟨h.cfg, h.hits, h.misses⟩

lemma data_setBlk (s : FALRU) (v : BlkId) (blk : Blk) :
    (s.setBlk v blk).data = update s.data v blk.data :=
  funext fun _ => apply_update (fun _ => Blk.data) ..

lemma inCachesMask_setBlk (s : FALRU) (v : BlkId) {blk : Blk}
    (hmask : blk.inCachesMask = (s.blks v).inCachesMask) (b : BlkId) :
    ((s.setBlk v blk).blks b).inCachesMask = (s.blks b).inCachesMask := by
  rw [setBlk, apply_update (fun _ => Blk.inCachesMask), hmask]
  exact congrFun (update_eq_self v fun b => (s.blks b).inCachesMask) b

lemma Tracked.evict (h : Tracked s cap (l₁ ++ [v])) (harr : Arranged s (l₁ ++ [v]) keys)
    (hlen : 2 ≤ (l₁ ++ [v]).length) :
    ∃ s', (if (s.blks v).isValid then s.invalidate v else pure s) = .ok s' ∧
      Tracked s' cap (l₁ ++ [v]) ∧ Arranged s' (l₁ ++ [v]) (keys.take l₁.length) ∧
      s'.data v = unused ∧ SameCounters s s' := by
  have hnodup := h.repr.nodup
  obtain ⟨keys', key, rfl, hv, hkeys⟩ | ⟨hv, n, hkeys⟩ := harr.last_cases
  · have hmem : v ∈ l₁ ++ [v] := mem_concat_self
    have hvalid : (s.blks v).isValid := congrArg (fun d => d.2.1) hv
    have hkey : ((s.blks v).tag, (s.blks v).isSecure) = key := congrArg (fun d => (d.1, d.2.2)) hv
    have hhash : s.tagHash key = some v := (harr.hash key v).2 ⟨hmem, hv⟩
    set s1 : FALRU := { s.setBlk v (s.blks v).invalidate with
      tagHash := update s.tagHash key none } with hs1
    have htracked : Tracked s1 cap (l₁ ++ [v]) :=
      h.congr rfl rfl rfl (s.inCachesMask_setBlk v rfl)
    have hdata : s1.data = update s.data v unused := s.data_setBlk v _
    -- the block is the last one already
    obtain ⟨s2, hmove, htracked2, hsame⟩ := htracked.moveToTail hlen hmem
    rw [erase_append_right _ (notMem_of_concat hnodup), erase_cons_head, append_nil] at htracked2
    have hklen : keys'.length = l₁.length := by simpa using (congrArg List.length hkeys).symm
    refine ⟨s2, ?_, htracked2, ?_, ?_, hsame.sameCounters⟩
    · simp only [invalidate, hkey, hhash, hvalid]
      exact hmove
    · rw [take_left' hklen]
      exact harr.evict hnodup hv hkeys hsame.tagHash (hsame.data.trans hdata)
    · rw [hsame.data, hdata, update_self]
  · have hvalid : (s.blks v).isValid = false := congrArg (fun d => d.2.1) hv
    rw [hvalid]
    refine ⟨s, rfl, h, ?_, hv, rfl, rfl, rfl⟩
    rw [take_of_length_le]
    · exact harr
    · have hlen := congrArg List.length hkeys
      simp only [length_map, length_append] at hlen
      omega

lemma Tracked.inCachesMask_last (h : Tracked s cap (l₁ ++ [v])) : (s.blks v).inCachesMask = 0 := by
  have hv : v ∉ l₁ := notMem_of_concat h.repr.nodup
  have hmem : v ∈ l₁ ++ [v] := mem_concat_self
  refine eq_zero_of_has ?_
  intro i
  by_cases hi : i < s.cfg.numTrackedCaches
  · have hlt := (h.bounds i hi).2
    rw [length_append, length_singleton] at hlt
    rw [(h.fits i hi).mask v hmem not_false, idxOf_append_of_notMem hv, decide_eq_false_iff_not]
    omega
  · exact h.zero v hmem i (by omega)

lemma Tracked.insert (h : Tracked s cap (l₁ ++ [v])) (harr : Arranged s (l₁ ++ [v]) keys)
    (hlen : 2 ≤ (l₁ ++ [v]).length) (hv : s.data v = unused)
    (hkey : (s.cfg.blkAlign addr, isSecure) ∉ keys) :
    ∃ s', s.insertBlock addr isSecure v = .ok s' ∧ Tracked s' cap (v :: l₁) ∧
      Arranged s' (v :: l₁) ((s.cfg.blkAlign addr, isSecure) :: keys) ∧ SameCounters s s' := by
  have hnodup := h.repr.nodup
  obtain ⟨-, key, -, hv', -⟩ | ⟨-, n, hkeys⟩ := harr.last_cases
  · exact nomatch congrArg (fun d => d.2.1) (hv.symm.trans hv')
  have hvalid : (s.blks v).isValid = false := congrArg (fun d => d.2.1) hv
  have hsecure : (s.blks v).isSecure = false := congrArg (fun d => d.2.2) hv
  have htracked : Tracked (s.setBlk v { s.blks v with
      tag := s.cfg.blkAlign addr, isSecure, isValid := true }) cap (l₁ ++ [v]) :=
    h.congr rfl rfl rfl (s.inCachesMask_setBlk v rfl)
  obtain ⟨s2, hmove, htracked2, hsame⟩ := htracked.moveToHead hlen mem_concat_self
  rw [touch_append_cons (notMem_of_concat hnodup), append_nil] at htracked2
  refine ⟨{ s2 with tagHash := update s2.tagHash (s.cfg.blkAlign addr, isSecure) (some v) }, ?_,
    htracked2.congr rfl rfl rfl fun _ => rfl,
    harr.insert hnodup hv hkeys hkey (by rw [hsame.tagHash]; rfl)
      (hsame.data.trans (s.data_setBlk v _)), hsame.sameCounters⟩
  have hmask : ((s.blks v).inCachesMask == 0) := beq_iff_eq.2 h.inCachesMask_last
  rw [insertBlock]
  simp only [hmask, hvalid, hsecure]
  rw [hmove]
  rfl

/-- All counters are those of a cache with as many blocks as the cache itself. -/
def Counted (cfg : Config) (keys : List TagHashKey) (s : FALRU) : Prop :=
  ∀ i ≤ cfg.numTrackedCaches, s.hits i = (Lru.run cfg.numBlocks keys).hits ∧
    s.misses i = (Lru.run cfg.numBlocks keys).misses

lemma Counted.recordAccess {key : TagHashKey} {blk : Option BlkId} (h : Counted cfg keys s)
    (hpos : 0 < cfg.numBlocks) (hcfg : s.cfg = cfg)
    (hcounts : ∀ i, s.counts blk i = decide (key ∈ (recency keys).take cfg.numBlocks)) :
    Counted cfg (keys ++ [key]) (s.recordAccess blk) := by
  intro i hi
  obtain ⟨hhits, hmisses⟩ := h i hi
  rw [hits_concat hpos, misses_concat hpos, ← hhits, ← hmisses]
  simp only [FALRU.recordAccess, hcfg, hi, hcounts, true_and, decide_eq_true_eq,
    decide_eq_false_iff_not, mem_take_recency]
  by_cases hhit : key ∈ keys ∧ reuseDistance keys key < cfg.numBlocks <;> simp [hhit]

lemma Tracked.counts_head (h : Tracked s cap (b :: l)) (hvalid : (s.blks b).isValid)
    (i : ℕ) : s.counts (some b) i := by
  show (if i < s.cfg.numTrackedCaches then (s.blks b).inCachesMask.has i
    else (s.blks b).isValid)
  split_ifs with hi
  · have htwo := (h.bounds i hi).1
    rw [(h.fits i hi).mask b (mem_cons_self ..) not_false, idxOf_cons_self]
    exact decide_eq_true (by omega)
  · exact hvalid

/-- What holds after accesses with the given keys, where the blocks are in the order of `l`. -/
structure Inv (cfg : Config) (keys : List TagHashKey) (l : List BlkId) (s : FALRU) : Prop where
  cfg_eq : s.cfg = cfg
  length : l.length = cfg.numBlocks
  tracked : Tracked s cfg.capacity l
  arranged : Arranged s l ((Lru.recency keys).take cfg.numBlocks)
  counted : Counted cfg keys s

namespace Inv

lemma inCachesMask (h : Inv cfg keys l s) {key : TagHashKey} (hhash : s.tagHash key = some b)
    (hi : i < cfg.numTrackedCaches) :
    (s.blks b).inCachesMask.has i = decide (key ∈ (recency keys).take (cfg.capacity i)) := by
  have hlt := (h.tracked.bounds i (h.cfg_eq ▸ hi)).2
  rw [h.length] at hlt
  have hmem : key ∈ (recency keys).take cfg.numBlocks := h.arranged.mem_keys.2 ⟨b, hhash⟩
  have htake : (recency keys).take (cfg.capacity i) =
      ((recency keys).take cfg.numBlocks).take (cfg.capacity i) := by
    rw [take_take, min_eq_left hlt.le]
  rw [(h.tracked.fits i (h.cfg_eq ▸ hi)).mask b ((h.arranged.hash key b).1 hhash).1 not_false,
    h.arranged.idxOf_eq hhash, decide_eq_decide, htake, mem_take_iff_idxOf_lt hmem]

section

variable (h : Inv cfg keys l s) (htwo : 2 ≤ cfg.numBlocks)
include h htwo

lemma access_hit (hhash : s.tagHash (cfg.blkAlign addr, isSecure) = some b) :
    ∃ s' l', s.access addr isSecure = .ok (s', (s.blks b).inCachesMask) ∧
      Inv cfg (keys ++ [(cfg.blkAlign addr, isSecure)]) l' s' := by
  obtain ⟨hmem, hdata⟩ := (h.arranged.hash _ b).1 hhash
  have hvalid : (s.blks b).isValid := congrArg (fun d => d.2.1) hdata
  have hmem' := h.arranged.mem_keys.2 ⟨b, hhash⟩
  obtain ⟨s1, hmove, htracked, hsame⟩ := h.tracked.moveToHead (h.length ▸ htwo) hmem
  have hcfg : s1.cfg = cfg := hsame.cfg.trans h.cfg_eq
  refine ⟨s1.recordAccess (some b), Lru.touch l b, ?_, hcfg, ?_, ?_, ?_, ?_⟩
  · have hfind := h.arranged.findBlock addr isSecure
    rw [h.cfg_eq, hhash] at hfind
    rw [access, accessBlock, hfind]
    simp only [ok_bind, hvalid, if_true, hmove]
    rfl
  · rw [(perm_touch hmem).length_eq]
    exact h.length
  · exact htracked.congr rfl rfl rfl fun _ => rfl
  · have harr := h.arranged.touch hhash
    obtain ⟨n, hn⟩ : ∃ n, cfg.numBlocks = n + 1 := ⟨cfg.numBlocks - 1, by omega⟩
    rw [hn] at hmem' harr
    have htouch : (Lru.touch (recency keys) (cfg.blkAlign addr, isSecure)).take (n + 1) =
        Lru.touch ((recency keys).take (n + 1)) (cfg.blkAlign addr, isSecure) := by
      rw [Lru.touch, take_succ_cons, ← erase_take hmem', Lru.touch]
    rw [recency_concat, hn, htouch]
    exact harr.congr hsame.tagHash hsame.data
  · refine Counted.recordAccess ?_ (by omega) hcfg ?_
    · show ∀ i ≤ _, s1.hits i = _ ∧ s1.misses i = _
      rw [hsame.hits, hsame.misses]
      exact h.counted
    · intro i
      have hvalid1 : (s1.blks b).isValid :=
        congrArg (fun d => d.2.1) ((congrFun hsame.data b).trans hdata)
      rwa [Tracked.counts_head htracked hvalid1, eq_comm, decide_eq_true_eq]

lemma access_miss (hhash : s.tagHash (cfg.blkAlign addr, isSecure) = none) :
    ∃ s' l', s.access addr isSecure = .ok (s', 0) ∧
      Inv cfg (keys ++ [(cfg.blkAlign addr, isSecure)]) l' s' := by
  have hnot : (cfg.blkAlign addr, isSecure) ∉ (recency keys).take cfg.numBlocks := by
    intro hmem
    obtain ⟨b, hb⟩ := h.arranged.mem_keys.1 hmem
    cases hhash.symm.trans hb
  obtain ⟨l₁, v, rfl⟩ : ∃ l₁ v, l = l₁ ++ [v] := by
    rcases eq_nil_or_concat l with rfl | ⟨l₁, v, rfl⟩
    · have hlen := h.length
      rw [length_nil] at hlen
      omega
    · exact ⟨l₁, v, by simp⟩
  have hlen : 2 ≤ (l₁ ++ [v]).length := h.length ▸ htwo
  have hl1 : cfg.numBlocks = l₁.length + 1 := by
    rw [← h.length]
    simp
  have hcounted : Counted cfg (keys ++ [(cfg.blkAlign addr, isSecure)]) (s.recordAccess none) := by
    refine h.counted.recordAccess (by omega) h.cfg_eq ?_
    intro i
    exact (decide_eq_false hnot).symm
  have htracked : Tracked (s.recordAccess none) cfg.capacity (l₁ ++ [v]) :=
    h.tracked.congr rfl rfl rfl fun _ => rfl
  have harr : Arranged (s.recordAccess none) (l₁ ++ [v]) _ := h.arranged.congr rfl rfl
  obtain ⟨s1, hevict, htracked1, harr1, hvalid1, hcfg1, hhits1, hmisses1⟩ :=
    htracked.evict harr hlen
  have hcfg1 : s1.cfg = cfg := hcfg1.trans h.cfg_eq
  rw [take_take, hl1, min_eq_left (le_succ _)] at harr1
  rw [hl1] at hnot
  have hnot1 : (s1.cfg.blkAlign addr, isSecure) ∉ (recency keys).take l₁.length := by
    rw [hcfg1]
    exact fun hmem => hnot ((take_subset_take_left _ (le_succ _)) hmem)
  obtain ⟨s2, hinsert, htracked2, harr2, hcfg2, hhits2, hmisses2⟩ :=
    htracked1.insert harr1 hlen hvalid1 hnot1
  refine ⟨s2, v :: l₁, ?_, hcfg2.trans hcfg1, ?_, htracked2, ?_, ?_⟩
  · have hfind := h.arranged.findBlock addr isSecure
    have htail : s.links.tail = v := h.tracked.repr.eq_tail
    rw [h.cfg_eq, hhash] at hfind
    rw [access_of_findBlock_none hfind, htail]
    show (if ((s.recordAccess none).blks v).isValid then (s.recordAccess none).invalidate v
      else pure (s.recordAccess none)) >>= _ = _
    rw [hevict]
    show s1.insertBlock addr isSecure v >>= _ = _
    rw [hinsert]
    rfl
  · rw [hl1, length_cons]
  · rw [recency_concat, hl1, Lru.touch, take_succ_cons, take_erase_of_notMem hnot]
    rwa [hcfg1] at harr2
  · show ∀ i ≤ _, s2.hits i = _ ∧ s2.misses i = _
    rwa [hhits2, hmisses2, hhits1, hmisses1]

/-- An access returns, and its mask tells which tracked caches have a hit. -/
lemma access (addr : Addr) (isSecure : Bool) :
    ∃ s' mask l', s.access addr isSecure = .ok (s', mask) ∧
      Inv cfg (keys ++ [(cfg.blkAlign addr, isSecure)]) l' s' ∧
      ∀ i < cfg.numTrackedCaches, mask.has i = decide ((cfg.blkAlign addr, isSecure) ∈ keys ∧
        reuseDistance keys (cfg.blkAlign addr, isSecure) < cfg.capacity i) := by
  simp only [← mem_take_recency]
  cases hhash : s.tagHash (cfg.blkAlign addr, isSecure) with
  | some b =>
    obtain ⟨s', l', hacc, hinv⟩ := h.access_hit htwo hhash
    exact ⟨s', _, l', hacc, hinv, fun i hi => h.inCachesMask hhash hi⟩
  | none =>
    obtain ⟨s', l', hacc, hinv⟩ := h.access_miss htwo hhash
    refine ⟨s', _, l', hacc, hinv, ?_⟩
    intro i hi
    have hlt := (h.tracked.bounds i (h.cfg_eq ▸ hi)).2
    rw [h.length] at hlt
    rw [has_zero, eq_comm, decide_eq_false_iff_not]
    intro hmem
    -- what is in a tracked cache is in the cache itself
    have hmem' := take_subset_take_left _ hlt.le hmem
    obtain ⟨b, hb⟩ := h.arranged.mem_keys.1 hmem'
    cases hhash.symm.trans hb

end

end Inv

end Access

/-! ### Sequences of accesses -/

/-- The keys of a sequence of accesses. -/
def Config.keys (cfg : Config) (accs : List (Addr × Bool)) : List TagHashKey :=
  accs.map fun a => (cfg.blkAlign a.1, a.2)

section Run

variable {cfg : Config} {s : FALRU} {l : List BlkId} {keys : List TagHashKey}
  {accs : List (Addr × Bool)} {i : ℕ}

lemma Inv.runFrom (h : Inv cfg keys l s) (htwo : 2 ≤ cfg.numBlocks) (accs : List (Addr × Bool)) :
    ∃ s' l', s.runFrom accs = .ok s' ∧ Inv cfg (keys ++ cfg.keys accs) l' s' := by
  induction accs generalizing keys l s with
  | nil => exact ⟨s, l, rfl, by simpa [Config.keys] using h⟩
  | cons a accs ih =>
    obtain ⟨s1, mask, l₁, hacc, h1, -⟩ := h.access htwo a.1 a.2
    obtain ⟨s2, l2, hrun, h2⟩ := ih h1
    refine ⟨s2, l2, ?_, ?_⟩
    · rwa [FALRU.runFrom, hacc]
    · rwa [append_assoc] at h2

lemma Inv.tagsInit (hv : cfg.Valid) (hdvd : cfg.blkSize ∣ cfg.minTrackedSize)
    (ht : 0 < cfg.numTrackedCaches) :
    Inv cfg [] (List.range cfg.numBlocks) (tagsInit cfg) := by
  have hsame := tagsInit_sameBut cfg
  refine ⟨hsame.cfg, length_range, tracked_tagsInit hv hdvd ht, ⟨?_, cfg.numBlocks, ?_⟩, ?_⟩
  · intro key b
    rw [hsame.tagHash, hsame.data]
    exact iff_of_false nofun fun hr => nomatch congrArg (fun d => d.2.1) hr.2
  · rw [hsame.data]
    show (List.range cfg.numBlocks).map (fun _ => unused) = _
    simp [recency]
  · intro i _
    rw [hsame.hits, hsame.misses]
    exact ⟨rfl, rfl⟩

/-- If the smallest tracked cache does not consist of whole blocks, the first access ends with a
failed assertion: the block to be replaced is in the tracked caches. -/
lemma access_tagsInit_of_not_dvd (hv : cfg.Valid) (hdvd : ¬ cfg.blkSize ∣ cfg.minTrackedSize)
    (ht : 0 < cfg.numTrackedCaches) (addr : Addr) (isSecure : Bool) :
    (tagsInit cfg).access addr isSecure = .error (.assertion "falruBlk->inCachesMask == 0") := by
  have hsame := tagsInit_sameBut cfg
  have hhash : ∀ key, (tagsInit cfg).tagHash key = none := fun key => by rw [hsame.tagHash]
  have hvalid : ∀ b, ((tagsInit cfg).blks b).isValid = false := fun b =>
    congrArg (fun d => d.2.1) (congrFun hsame.data b)
  have hblocks := hv.numBlocks_mul ht
  have hpos : 0 < cfg.numBlocks := by
    have hlt := hv.lt_numTrackedCaches_iff.1 ht
    refine pos_of_ne_zero fun hzero => ?_
    rw [hzero] at hblocks
    omega
  have hmask : ((tagsInit cfg).blks (tagsInit cfg).links.tail).inCachesMask ≠ 0 := by
    rw [hsame.links, tagsInit, if_neg (by omega), inCachesMask_initLoop hdvd (.inl ?_) (dvd_zero _)]
    · intro hzero
      have hbit := has_inAllCachesMask (i := 0) hv.numTrackedCaches_le
      rw [hzero, has_zero, eq_comm, decide_eq_false_iff_not] at hbit
      exact hbit ht
    · refine mem_range.2 ?_
      show cfg.numBlocks - 1 < cfg.numBlocks
      omega
  have hfind : (tagsInit cfg).findBlock addr isSecure = .ok none := by
    rw [FALRU.findBlock, hhash]
    rfl
  have hrequire : ((((tagsInit cfg).recordAccess none).blks
      (tagsInit cfg).links.tail).inCachesMask == 0) = false := beq_false_of_ne hmask
  rw [access_of_findBlock_none hfind, if_neg (by simp [hvalid])]
  show insertBlock _ _ _ _ >>= _ = _
  rw [insertBlock, hrequire]
  rfl

/-- A sequence of accesses is processed with exact statistics of a tracked cache if and only if the
smallest tracked cache consists of whole blocks, or there is no access, and no block is accessed
again when it is out of the tracked cache, but still in the cache itself. -/
theorem stats_exact_iff (hv : cfg.Valid) (hi : i < cfg.numTrackedCaches)
    (accs : List (Addr × Bool)) :
    (∃ s, run cfg accs = .ok s ∧ s.hits i = (Lru.run (cfg.capacity i) (cfg.keys accs)).hits ∧
        s.misses i = (Lru.run (cfg.capacity i) (cfg.keys accs)).misses) ↔
      (cfg.blkSize ∣ cfg.minTrackedSize ∨ accs = []) ∧
        Lru.ShortReuse (cfg.capacity i) cfg.numBlocks (cfg.keys accs) := by
  have ht : 0 < cfg.numTrackedCaches := by omega
  have hrun : run cfg accs = (tagsInit cfg).runFrom accs := by
    rw [run, hv.create_eq]
    rfl
  rw [hrun]
  by_cases hdvd : cfg.blkSize ∣ cfg.minTrackedSize
  · have hlt := (hv.capacity_lt_iff hdvd ht i).2 hi
    have htwo := hv.two_le_capacity hdvd i
    obtain ⟨s, l, hok, hinv⟩ := (Inv.tagsInit hv hdvd ht).runFrom (by omega) accs
    rw [nil_append] at hinv
    obtain ⟨hhits, hmisses⟩ := hinv.counted i hi.le
    have hsum := hits_add_misses (cfg.capacity i) (cfg.keys accs)
    have hsum' := hits_add_misses cfg.numBlocks (cfg.keys accs)
    rw [← hits_eq_iff (by omega) hlt.le]
    constructor
    · rintro ⟨s', hs', hexact, -⟩
      cases hok.symm.trans hs'
      exact ⟨.inl hdvd, hhits.symm.trans hexact⟩
    · rintro ⟨-, heq⟩
      exact ⟨s, hok, hhits.trans heq, by omega⟩
  · cases accs with
    | cons a accs =>
      rw [runFrom, access_tagsInit_of_not_dvd hv hdvd ht]
      simp [hdvd]
    | nil =>
      have hsame := tagsInit_sameBut cfg
      refine iff_of_true ⟨tagsInit cfg, rfl, ?_, ?_⟩ ⟨.inr rfl, ?_⟩
      · rw [hsame.hits]
        rfl
      · rw [hsame.misses]
        rfl
      · intro pre a post heq
        exact absurd heq (by simp [Config.keys])

/-- Four blocks of 64 bytes, and a tracked cache of two blocks. -/
def fourBlocks : Config := ⟨256, 64, 128⟩

lemma fourBlocks_valid : fourBlocks.Valid := ⟨by decide, by decide, by decide, by decide⟩

/-- Three accesses to one block, with one to another block between them. -/
theorem stats_exact_iff_twoBlockRun :
    ∃ s, run fourBlocks [(0, false), (0x40, false), (0, false), (0, false)] = .ok s ∧
      s.hits 0 = 2 ∧ s.misses 0 = 2 ∧ Lru.ShortReuse 2 4
        (fourBlocks.keys [(0, false), (0x40, false), (0, false), (0, false)]) := by
  refine ⟨_, rfl, rfl, rfl, ?_⟩
  exact ((stats_exact_iff fourBlocks_valid (i := 0) (by decide) _).1 ⟨_, rfl, rfl, rfl⟩).2

/-- After three blocks the first one is accessed again.  It is in the cache itself, but not in
the tracked cache of two blocks, for which a hit is counted. -/
theorem evicted_block_counted_as_hit :
    ∃ s, fourBlocks.Valid ∧ 0 < fourBlocks.numTrackedCaches ∧ fourBlocks.capacity 0 = 2 ∧
      run fourBlocks [(0, false), (0x40, false), (0x80, false), (0, false)] = .ok s ∧
      s.hits 0 = 1 ∧ s.misses 0 = 3 ∧
      (Lru.run 2 (fourBlocks.keys
        [(0, false), (0x40, false), (0x80, false), (0, false)])).hits = 0 ∧
      (Lru.run 2 (fourBlocks.keys
        [(0, false), (0x40, false), (0x80, false), (0, false)])).misses = 4 :=
  ⟨_, fourBlocks_valid, by decide, by decide, rfl, rfl, rfl, by decide, by decide⟩

end Run

end ChipletGem5.FALRU
