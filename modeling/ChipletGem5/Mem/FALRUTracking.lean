import ChipletGem5.Lib.Lru
import ChipletGem5.Mem.FALRU

/-!
# Tracked caches

A block is in the cache of `c` blocks if fewer than `c` blocks are in front of it, and the boundary
of this cache is the block with `c - 1` others in front.  `Tracked` says that the masks and the
boundaries are as the list has them.  Moving a block to either end of the list keeps this: each
round of the loops changes the bit and the boundary of one cache only, so that the caches can be
looked at one by one.  They need at least two blocks, and must be smaller than the list.
-/

namespace ChipletGem5.FALRU

open List Function CachesMask

/-! ### Masks -/

namespace CachesMask

variable {m m' : CachesMask} {i j : ℕ}

lemma has_eq_getLsbD : m.has i = m.getLsbD i := by
  have hbit : cacheBit i = BitVec.twoPow 32 i := (BitVec.twoPow_eq 32 i).symm
  rw [has, hbit, BitVec.and_comm, BitVec.and_twoPow]
  by_cases hi : i < 32
  · have hne : BitVec.twoPow 32 i ≠ 0#32 := by
      intro h
      have hget := congrArg (BitVec.getLsbD · i) h
      simp [hi] at hget
    cases m.getLsbD i <;> simp [hne]
  · rw [BitVec.getLsbD_of_ge m i (by omega)]
    simp

lemma has_cacheBit (h : i < 32) : (cacheBit i).has j = decide (i = j) := by
  have hbit : cacheBit i = BitVec.twoPow 32 i := (BitVec.twoPow_eq 32 i).symm
  rw [has_eq_getLsbD, hbit]
  by_cases hij : i = j
  · simp [hij, hij ▸ h]
  · simp [hij]

lemma has_and_not (hi : i < 32) : (m &&& ~~~cacheBit i).has j = (m.has j && i ≠ j) := by
  have hbit := has_cacheBit (j := j) hi
  rw [has_eq_getLsbD] at hbit ⊢
  rw [has_eq_getLsbD, BitVec.getLsbD_and, BitVec.getLsbD_not, hbit]
  by_cases hj : j < 32
  · simp [hj]
  · simp [BitVec.getLsbD_of_ge m j (by omega)]

lemma has_or (hi : i < 32) : (m ||| cacheBit i).has j = (m.has j || i = j) := by
  rw [has_eq_getLsbD, BitVec.getLsbD_or, ← has_eq_getLsbD, ← has_eq_getLsbD, has_cacheBit hi]

lemma has_xor : (m ^^^ m').has i = (m.has i ^^ m'.has i) := by
  simp only [has_eq_getLsbD, BitVec.getLsbD_xor]

@[simp]
lemma has_zero : CachesMask.has 0 i = false := by
  rw [has_eq_getLsbD]
  simp

lemma eq_zero_of_has (h : ∀ i, m.has i = false) : m = 0 := by
  apply BitVec.eq_of_getLsbD_eq
  intro i hi
  rw [← has_eq_getLsbD, h i]
  simp

lemma has_inAllCachesMask {cfg : Config} (h : cfg.numTrackedCaches ≤ 32) :
    cfg.inAllCachesMask.has i = decide (i < cfg.numTrackedCaches) := by
  rw [has_eq_getLsbD, Config.inAllCachesMask, BitVec.getLsbD_ofNat]
  by_cases hi : i < cfg.numTrackedCaches
  · simp [hi, hi.trans_le h]
  · simp [hi]

end CachesMask

/-! ### One cache -/

variable {s s' : FALRU} {l : List BlkId} {blk : BlkId} {c i j : ℕ} {mask : CachesMask}

/-- The masks have the bit of the cache with `c` blocks as it follows from the list, perhaps
with the exception of one block, and the boundary of this cache is its last block. -/
structure Fits (s : FALRU) (l : List BlkId) (c i : ℕ) (except : BlkId → Prop) : Prop where
  mask : ∀ b ∈ l, ¬ except b → (s.blks b).inCachesMask.has i = decide (l.idxOf b < c)
  boundary : ∃ b ∈ l, s.boundaries i = some b ∧ l.idxOf b + 1 = c

/-- A block but for its mask. -/
def Blk.data (b : Blk) : Addr × Bool × Bool := (b.tag, b.isValid, b.isSecure)

def data (s : FALRU) (b : BlkId) : Addr × Bool × Bool := (s.blks b).data

lemma blks_setMask_self (s : FALRU) (b : BlkId) (mask : CachesMask) :
    (s.setMask b mask).blks b = { s.blks b with inCachesMask := mask } :=
  update_self ..

lemma blks_setMask_of_ne (s : FALRU) {b b' : BlkId} (mask : CachesMask) (h : b' ≠ b) :
    (s.setMask b mask).blks b' = s.blks b' :=
  update_of_ne h ..

/-- Two states differ in the masks and boundaries of some caches only. -/
structure SameBut (caches : ℕ → Prop) (s s' : FALRU) : Prop where
  cfg : s'.cfg = s.cfg
  links : s'.links = s.links
  tagHash : s'.tagHash = s.tagHash
  hits : s'.hits = s.hits
  misses : s'.misses = s.misses
  accesses : s'.accesses = s.accesses
  data : s'.data = s.data
  masks : ∀ b i, ¬ caches i → (s'.blks b).inCachesMask.has i = (s.blks b).inCachesMask.has i
  boundaries : ∀ i, ¬ caches i → s'.boundaries i = s.boundaries i

namespace SameBut

variable {p q : ℕ → Prop} {s₁ s₂ s₃ : FALRU}

lemma refl (p : ℕ → Prop) (s : FALRU) : SameBut p s s :=
  ⟨rfl, rfl, rfl, rfl, rfl, rfl, rfl, fun _ _ _ => rfl, fun _ _ => rfl⟩

lemma trans (h : SameBut p s₁ s₂) (h' : SameBut q s₂ s₃) : SameBut (fun i => p i ∨ q i) s₁ s₃ where
  cfg := h'.cfg.trans h.cfg
  links := h'.links.trans h.links
  tagHash := h'.tagHash.trans h.tagHash
  hits := h'.hits.trans h.hits
  misses := h'.misses.trans h.misses
  accesses := h'.accesses.trans h.accesses
  data := h'.data.trans h.data
  masks := fun b i hi => by
    rw [not_or] at hi
    rw [h'.masks b i hi.2, h.masks b i hi.1]
  boundaries := fun i hi => by
    rw [not_or] at hi
    rw [h'.boundaries i hi.2, h.boundaries i hi.1]

lemma mono (h : SameBut p s s') (hpq : ∀ i, p i → q i) : SameBut q s s' :=
  ⟨h.cfg, h.links, h.tagHash, h.hits, h.misses, h.accesses, h.data,
    fun b i hi => h.masks b i fun hp => hi (hpq i hp),
    fun i hi => h.boundaries i fun hp => hi (hpq i hp)⟩

lemma setBoundary (s : FALRU) (i : ℕ) (b : Option BlkId) : SameBut (· = i) s (s.setBoundary i b) :=
  ⟨rfl, rfl, rfl, rfl, rfl, rfl, rfl, fun _ _ _ => rfl, fun _ hi => update_of_ne hi _ _⟩

lemma setMask (s : FALRU) (b : BlkId)
    (h : ∀ i, ¬ p i → mask.has i = (s.blks b).inCachesMask.has i) :
    SameBut p s (s.setMask b mask) where
  cfg := rfl
  links := rfl
  tagHash := rfl
  hits := rfl
  misses := rfl
  accesses := rfl
  data := (funext fun _ => apply_update (fun _ => Blk.data) ..).trans (update_eq_self b s.data)
  masks := fun b' i hi => by
    by_cases hb : b' = b
    · rw [hb, blks_setMask_self]
      exact h i hi
    · rw [blks_setMask_of_ne s mask hb]
  boundaries := fun _ _ => rfl

end SameBut

lemma Fits.congr {p : ℕ → Prop} {e : BlkId → Prop} (h : Fits s l c i e) (hs : SameBut p s s')
    (hi : ¬ p i) : Fits s' l c i e := by
  constructor
  · intro b hb he
    rw [hs.masks b i hi, h.mask b hb he]
  · rw [hs.boundaries i hi]
    exact h.boundary

lemma eq_of_idxOf_eq {b b' : BlkId} (hb : b ∈ l) (h : l.idxOf b = l.idxOf b') : b = b' :=
  (idxOf_inj hb).1 h

/-- `moveToHead` for one cache: the block gets to the front of the list, and its own mask is written
later. -/
lemma Fits.trackToHead (h : Fits s l c i fun _ => False) (hr : s.links.Repr l) (hblk : blk ∈ l)
    (hc : 2 ≤ c) (hi : i < 32) (hmask : mask.has i = !decide (l.idxOf blk < c)) :
    ∃ s', s.trackToHead mask blk i = .ok s' ∧ Fits s' (Lru.touch l blk) c i (· = blk) ∧
      SameBut (· = i) s s' := by
  obtain ⟨x, hx, hboundary, hidx⟩ := h.boundary
  have htouch : ∀ {b}, b ∈ l → b ≠ blk → (Lru.touch l blk).idxOf b =
      if l.idxOf b < l.idxOf blk then l.idxOf b + 1 else l.idxOf b :=
    Lru.idxOf_touch hr.nodup hblk
  have hmem : ∀ {b}, b ∈ Lru.touch l blk ↔ b ∈ l := fun {b} => (Lru.perm_touch hblk).mem_iff
  rw [FALRU.trackToHead]
  by_cases hin : l.idxOf blk < c
  · -- the block is in the cache already, and stays in it
    have hbits : ∀ b ∈ l, ¬ b = blk →
        (s.blks b).inCachesMask.has i = decide ((Lru.touch l blk).idxOf b < c) := by
      intro b hb hne
      rw [h.mask b hb not_false, htouch hb hne, decide_eq_decide]
      split_ifs <;> omega
    rw [if_neg (by simp [hmask, hin])]
    by_cases hxb : x = blk
    · -- it was the last one, and now the one before it is
      rw [hboundary, hxb, if_pos rfl]
      obtain ⟨y, hy, hprev, hyidx⟩ := hr.prev_of_idxOf (i := c - 2) hblk (by rw [← hxb]; omega)
      have hne : y ≠ blk := by
        rintro rfl
        rw [hxb] at hidx
        omega
      refine ⟨_, rfl, ⟨fun b hb he => hbits b (hmem.1 hb) he, ?_⟩, .setBoundary s i _⟩
      refine ⟨y, hmem.2 hy, ?_, ?_⟩
      · rw [hprev]
        exact update_self ..
      · rw [hxb] at hidx
        rw [htouch hy hne, if_pos (by omega)]
        omega
    · rw [hboundary, if_neg (by simpa using hxb)]
      refine ⟨_, rfl, ⟨fun b hb he => hbits b (hmem.1 hb) he, ?_⟩, .refl _ s⟩
      have hlt : l.idxOf blk ≠ l.idxOf x := fun heq => hxb (eq_of_idxOf_eq hblk heq).symm
      refine ⟨x, hmem.2 hx, hboundary, ?_⟩
      rwa [htouch hx hxb, if_neg (by omega)]
  · -- the block comes into the cache, and the last block of the cache leaves it
    obtain ⟨y, hy, hprev, hyidx⟩ := hr.prev_of_idxOf (i := c - 2) hx (by omega)
    rw [if_pos (by simp [hmask, hin]), hboundary]
    refine ⟨_, rfl, ⟨?_, ?_⟩, ?_⟩
    · intro b hb hne
      have hb := hmem.1 hb
      rw [htouch hb hne]
      -- of the others, only the last one crosses the boundary
      by_cases hbx : b = x
      · rw [hbx, if_pos (by omega)]
        show ((s.setMask x _).blks x).inCachesMask.has i = _
        rw [blks_setMask_self, has_and_not hi]
        simp [hidx]
      · have hlt : l.idxOf b ≠ l.idxOf x := fun heq => hbx (eq_of_idxOf_eq hb heq)
        show ((s.setMask x _).blks b).inCachesMask.has i = _
        rw [blks_setMask_of_ne s _ hbx, h.mask b hb not_false, decide_eq_decide]
        split_ifs <;> omega
    · have hne : y ≠ blk := by
        rintro rfl
        omega
      refine ⟨y, hmem.2 hy, ?_, ?_⟩
      · rw [hprev]
        exact update_self ..
      · rw [htouch hy hne, if_pos (by omega)]
        omega
    · refine ((SameBut.setMask (p := (· = i)) s x ?_).trans (.setBoundary _ i _)).mono
        fun j hj => hj.elim id id
      intro j hj
      simp [has_and_not hi, Ne.symm hj]

lemma Fits.trackToTail (h : Fits s l c i fun _ => False) (hr : s.links.Repr l) (hblk : blk ∈ l)
    (hc : c < l.length) (hi : i < 32) (hmask : mask.has i = decide (l.idxOf blk < c)) :
    ∃ s', s.trackToTail mask blk i = .ok s' ∧ Fits s' (l.erase blk ++ [blk]) c i (· = blk) ∧
      SameBut (· = i) s s' := by
  obtain ⟨x, hx, hboundary, hidx⟩ := h.boundary
  have hmove : ∀ {b}, b ∈ l → b ≠ blk → (l.erase blk ++ [blk]).idxOf b =
      if l.idxOf blk < l.idxOf b then l.idxOf b - 1 else l.idxOf b :=
    Lru.idxOf_erase_concat hr.nodup hblk
  have hmem : ∀ {b}, b ∈ l.erase blk ++ [blk] ↔ b ∈ l := fun {b} =>
    ((perm_append_singleton blk _).trans (perm_cons_erase hblk).symm).mem_iff
  rw [FALRU.trackToTail]
  by_cases hin : l.idxOf blk < c
  · -- the first block that was not in the cache comes into it
    obtain ⟨y, hy, hnext, hyidx⟩ := hr.next_of_idxOf hx (by omega)
    have hne : y ≠ blk := by
      rintro rfl
      omega
    rw [if_pos (by simp [hmask, hin]), hboundary]
    have hnot : s.links.next x ≠ some blk := by
      rw [hnext]
      simpa using hne
    refine ⟨(s.setMask y ((s.blks y).inCachesMask ||| cacheBit i)).setBoundary i y, ?_, ⟨?_, ?_⟩,
      ?_⟩
    · show (getOrError (if s.links.next x = some blk then s.links.next blk else s.links.next x) _
        >>= _) = _
      rw [if_neg hnot, hnext]
      rfl
    · intro b hb hne'
      have hb := hmem.1 hb
      rw [hmove hb hne']
      by_cases hby : b = y
      · rw [hby, if_pos (by omega)]
        show ((s.setMask y _).blks y).inCachesMask.has i = _
        simp only [blks_setMask_self, has_or hi, decide_true, Bool.or_true]
        rw [eq_comm, decide_eq_true_iff]
        omega
      · have hlt : l.idxOf b ≠ l.idxOf y := fun heq => hby (eq_of_idxOf_eq hb heq)
        show ((s.setMask y _).blks b).inCachesMask.has i = _
        rw [blks_setMask_of_ne s _ hby, h.mask b hb not_false, decide_eq_decide]
        split_ifs <;> omega
    · refine ⟨y, hmem.2 hy, update_self .., ?_⟩
      rw [hmove hy hne, if_pos (by omega)]
      omega
    · refine ((SameBut.setMask (p := (· = i)) s y ?_).trans (.setBoundary _ i _)).mono
        fun j hj => hj.elim id id
      intro j hj
      simp [has_or hi, Ne.symm hj]
  · -- the block was not in the cache
    rw [if_neg (by simp [hmask, hin])]
    refine ⟨s, rfl, ⟨?_, ?_⟩, .refl _ s⟩
    · intro b hb hne
      have hb := hmem.1 hb
      rw [h.mask b hb not_false, hmove hb hne, decide_eq_decide]
      split_ifs <;> omega
    · have hne : x ≠ blk := by
        rintro rfl
        omega
      refine ⟨x, hmem.2 hx, hboundary, ?_⟩
      rwa [hmove hx hne, if_neg (by omega)]

/-! ### All caches -/

/-- A loop over the caches, where each round takes the cache of its number to another order of
the blocks and leaves the other caches alone. -/
lemma forCaches_spec {f : FALRU → ℕ → Result FALRU} {cap : ℕ → ℕ} {l' : List BlkId}
    {k : Links BlkId} (is : List ℕ) (hround : ∀ {s i}, i ∈ is → s.links = k →
      Fits s l (cap i) i (fun _ => False) →
      ∃ s', f s i = .ok s' ∧ Fits s' l' (cap i) i (· = blk) ∧ SameBut (· = i) s s')
    (hnodup : is.Nodup) (hk : s.links = k) (hs : ∀ i ∈ is, Fits s l (cap i) i fun _ => False) :
    ∃ s', forCaches f s is = .ok s' ∧ (∀ i ∈ is, Fits s' l' (cap i) i (· = blk)) ∧
      SameBut (· ∈ is) s s' := by
  induction is generalizing s with
  | nil => exact ⟨s, rfl, by simp, .refl _ s⟩
  | cons i is ih =>
    obtain ⟨hi, hnodup⟩ := nodup_cons.1 hnodup
    obtain ⟨s₁, hf, hfits, hsame⟩ := hround (by simp) hk (hs i (by simp))
    obtain ⟨s₂, hloop, hfits2, hsame2⟩ := ih (fun hj => hround (mem_cons_of_mem i hj)) hnodup
      (hsame.links.trans hk) fun j hj =>
        (hs j (mem_cons_of_mem i hj)).congr hsame (ne_of_mem_of_not_mem hj hi)
    refine ⟨s₂, ?_, ?_, (hsame.trans hsame2).mono ?_⟩
    · rwa [forCaches, hf]
    · intro j hj
      rcases mem_cons.1 hj with rfl | hj
      · exact hfits.congr hsame2 hi
      · exact hfits2 j hj
    · intro j hj
      exact mem_cons.2 hj

/-- The masks and boundaries of all tracked caches, of which cache `i` has `cap i` blocks, are as
the list has them. -/
structure Tracked (s : FALRU) (cap : ℕ → ℕ) (l : List BlkId) : Prop where
  repr : s.links.Repr l
  bits : s.cfg.numTrackedCaches ≤ 32
  bounds : ∀ i < s.cfg.numTrackedCaches, 2 ≤ cap i ∧ cap i < l.length
  fits : ∀ i < s.cfg.numTrackedCaches, Fits s l (cap i) i fun _ => False
  zero : ∀ b ∈ l, ∀ i, s.cfg.numTrackedCaches ≤ i → (s.blks b).inCachesMask.has i = false

/-- Two states have the same blocks and counters, but for the order and the tracking. -/
structure SameData (s s' : FALRU) : Prop where
  cfg : s'.cfg = s.cfg
  tagHash : s'.tagHash = s.tagHash
  hits : s'.hits = s.hits
  misses : s'.misses = s.misses
  accesses : s'.accesses = s.accesses
  data : s'.data = s.data

lemma SameData.refl (s : FALRU) : SameData s s := ⟨rfl, rfl, rfl, rfl, rfl, rfl⟩

lemma SameBut.sameData {p : ℕ → Prop} (h : SameBut p s s') (k : Links BlkId) :
    SameData s { s' with links := k } :=
  ⟨h.cfg, h.tagHash, h.hits, h.misses, h.accesses, h.data⟩

lemma Fits.setMask (h : Fits s l c i (· = blk)) (hmask : mask.has i = decide (l.idxOf blk < c)) :
    Fits (s.setMask blk mask) l c i fun _ => False := by
  refine ⟨?_, h.boundary⟩
  intro b hb _
  by_cases hbb : b = blk
  · rwa [hbb, blks_setMask_self]
  · rw [blks_setMask_of_ne s mask hbb]
    exact h.mask b hb hbb

namespace Tracked

variable {cap : ℕ → ℕ}

section

variable (h : Tracked s cap l)
include h

/-- A state with the same links, where the caches fit another order of the blocks, gets the links
of this order. -/
lemma of_sameBut {l' : List BlkId} {k : Links BlkId}
    (hs : SameBut (· < s.cfg.numTrackedCaches) s s') (hk : k.Repr l') (hperm : l'.Perm l)
    (hfits : ∀ i < s.cfg.numTrackedCaches, Fits s' l' (cap i) i fun _ => False) :
    Tracked { s' with links := k } cap l' := by
  have hcfg : s'.cfg = s.cfg := hs.cfg
  refine ⟨hk, ?_, ?_, ?_, ?_⟩
  · rw [hcfg]
    exact h.bits
  · rw [hcfg, hperm.length_eq]
    exact h.bounds
  · rw [hcfg]
    intro i hi
    exact ⟨(hfits i hi).mask, (hfits i hi).boundary⟩
  · rw [hcfg]
    intro b hb i hi
    rw [hs.masks b i (by omega)]
    exact h.zero b (hperm.mem_iff.1 hb) i hi

lemma congr (hcfg : s'.cfg = s.cfg) (hlinks : s'.links = s.links)
    (hboundaries : s'.boundaries = s.boundaries)
    (hmask : ∀ b, (s'.blks b).inCachesMask = (s.blks b).inCachesMask) : Tracked s' cap l := by
  refine ⟨hlinks ▸ h.repr, hcfg ▸ h.bits, hcfg ▸ h.bounds, ?_, ?_⟩
  · intro i hi
    rw [hcfg] at hi
    constructor
    · intro b hb he
      rw [hmask b]
      exact (h.fits i hi).mask b hb he
    · rw [hboundaries]
      exact (h.fits i hi).boundary
  · intro b hb i hi
    rw [hcfg] at hi
    rw [hmask b]
    exact h.zero b hb i hi

lemma forCaches {f : FALRU → ℕ → Result FALRU} {l' : List BlkId} (hblk : blk ∈ l)
    (hround : ∀ {s₁ i}, i < s.cfg.numTrackedCaches → s₁.links.Repr l →
      Fits s₁ l (cap i) i (fun _ => False) →
      ∃ s', f s₁ i = .ok s' ∧ Fits s' l' (cap i) i (· = blk) ∧ SameBut (· = i) s₁ s')
    (hmask : ∀ i, mask.has i = decide (i < s.cfg.numTrackedCaches ∧ l'.idxOf blk < cap i)) :
    ∃ s', FALRU.forCaches f s (List.range s.cfg.numTrackedCaches) >>=
        (fun s₁ => pure (s₁.setMask blk mask)) = .ok s' ∧
      SameBut (· < s.cfg.numTrackedCaches) s s' ∧
      ∀ i < s.cfg.numTrackedCaches, Fits s' l' (cap i) i fun _ => False := by
  obtain ⟨s₁, hloop, hfits, hsame⟩ := forCaches_spec (List.range s.cfg.numTrackedCaches)
    (fun hi hlinks => hround (mem_range.1 hi) (hlinks ▸ h.repr)) nodup_range rfl
    fun i hi => h.fits i (mem_range.1 hi)
  have hsame1 : SameBut (· < s.cfg.numTrackedCaches) s s₁ := hsame.mono fun i hi => mem_range.1 hi
  refine ⟨s₁.setMask blk mask, by rw [hloop]; rfl,
    (hsame1.trans (.setMask s₁ blk fun i hi => ?_)).mono fun i hi => hi.elim id id,
    fun i hi => (hfits i (mem_range.2 hi)).setMask ?_⟩
  · rw [hsame1.masks blk i hi, h.zero blk hblk i (by omega), hmask, decide_eq_false (by tauto)]
  · rw [hmask, decide_eq_decide]
    exact and_iff_right hi

lemma moveBlockToHead (hblk : blk ∈ l) :
    ∃ s', s.moveBlockToHead blk = .ok s' ∧ SameBut (· < s.cfg.numTrackedCaches) s s' ∧
      ∀ i < s.cfg.numTrackedCaches, Fits s' (Lru.touch l blk) (cap i) i fun _ => False := by
  refine h.forCaches hblk (fun {s₁ i} hi hr hfits => ?_) fun i => ?_
  · refine hfits.trackToHead hr hblk (h.bounds i hi).1 (hi.trans_le h.bits) ?_
    rw [has_xor, has_inAllCachesMask h.bits, decide_eq_true hi,
      (h.fits i hi).mask blk hblk not_false, Bool.true_xor]
  · rw [has_inAllCachesMask h.bits, decide_eq_decide, Lru.touch, idxOf_cons_self]
    refine (and_iff_left_of_imp fun hi => ?_).symm
    have hcap := (h.bounds i hi).1
    omega

lemma moveBlockToTail (hblk : blk ∈ l) :
    ∃ s', s.moveBlockToTail blk = .ok s' ∧ SameBut (· < s.cfg.numTrackedCaches) s s' ∧
      ∀ i < s.cfg.numTrackedCaches, Fits s' (l.erase blk ++ [blk]) (cap i) i fun _ => False := by
  refine h.forCaches hblk (fun {s₁ i} hi hr hfits => ?_) fun i => ?_
  · exact hfits.trackToTail hr hblk (h.bounds i hi).2 (hi.trans_le h.bits)
      ((h.fits i hi).mask blk hblk not_false)
  · rw [has_zero, idxOf_append_of_notMem h.repr.nodup.not_mem_erase, length_erase_of_mem hblk,
      eq_comm, decide_eq_false_iff_not]
    rintro ⟨hi, hlt⟩
    have hcap := (h.bounds i hi).2
    omega

/-- A block can be taken out of the list, and the assertions about its neighbours hold. -/
lemma exists_unlink (hlen : 2 ≤ l.length) (hblk : blk ∈ l) (hk : s'.links = s.links) :
    ∃ k, s'.links.unlink blk = some k ∧ k.Repr (l.erase blk) ∧ blk ∉ l.erase blk ∧
      (blk != s'.links.tail || (s'.links.next blk).isNone) ∧
      (blk != s'.links.head || (s'.links.prev blk).isNone) := by
  have hrepr : s'.links.Repr l := hk ▸ h.repr
  have hnot := h.repr.nodup.not_mem_erase (a := blk)
  obtain ⟨l1, l2, rfl, hl1⟩ := eq_append_cons_of_mem hblk
  rw [erase_append_right _ hl1, erase_cons_head] at hnot ⊢
  have hne : l1 ++ l2 ≠ [] := by
    intro hnil
    have hlen' := congrArg List.length hnil
    simp only [length_append, length_cons, length_nil] at hlen hlen'
    omega
  obtain ⟨k, hunlink, hk'⟩ := hrepr.unlink hne
  refine ⟨k, hunlink, hk', hnot, ?_, ?_⟩
  · -- the last block has no successor
    rcases l2 with _ | ⟨y, l2⟩
    · rw [hrepr.next_eq]
      simp
    · simp [hrepr.ne_tail (cons_ne_nil y l2)]
  · -- the first block has no predecessor
    rcases l1 with _ | ⟨y, l1⟩
    · rw [hrepr.prev_eq]
      simp
    · simp [hrepr.ne_head (cons_ne_nil y l1)]

lemma moveToHead (hlen : 2 ≤ l.length) (hblk : blk ∈ l) :
    ∃ s', s.moveToHead blk = .ok s' ∧ Tracked s' cap (Lru.touch l blk) ∧ SameData s s' := by
  rw [FALRU.moveToHead]
  split_ifs with hhead
  · obtain ⟨s₁, hmove, hsame, hfits⟩ := h.moveBlockToHead hblk
    obtain ⟨k, hunlink, hk, hnot, hnext, -⟩ := h.exists_unlink hlen hblk hsame.links
    refine ⟨{ s₁ with links := k.pushFront blk }, ?_,
      h.of_sameBut hsame (hk.pushFront hnot) (Lru.perm_touch hblk) hfits, hsame.sameData _⟩
    rw [hmove]
    show (require _ _ >>= _) = _
    rw [hnext, hunlink]
    rfl
  · obtain ⟨x, l1, rfl⟩ := exists_cons_of_ne_nil (ne_nil_of_mem hblk)
    have hx : blk = x := (not_not.1 hhead).trans h.repr.eq_head
    exact ⟨s, rfl, by rw [hx, Lru.touch_head]; exact h, .refl s⟩

lemma moveToTail (hlen : 2 ≤ l.length) (hblk : blk ∈ l) :
    ∃ s', s.moveToTail blk = .ok s' ∧ Tracked s' cap (l.erase blk ++ [blk]) ∧ SameData s s' := by
  rw [FALRU.moveToTail]
  split_ifs with htail
  · obtain ⟨s₁, hmove, hsame, hfits⟩ := h.moveBlockToTail hblk
    obtain ⟨k, hunlink, hk, hnot, -, hprev⟩ := h.exists_unlink hlen hblk hsame.links
    refine ⟨{ s₁ with links := k.pushBack blk }, ?_, h.of_sameBut hsame (hk.pushBack hnot)
      ((perm_append_singleton blk _).trans (perm_cons_erase hblk).symm) hfits, hsame.sameData _⟩
    rw [hmove]
    show (require _ _ >>= _) = _
    rw [hprev, hunlink]
    rfl
  · rcases eq_nil_or_concat l with rfl | ⟨l1, x, rfl⟩
    · simp at hblk
    · rw [concat_eq_append] at h ⊢
      have hx : blk = x := (not_not.1 htail).trans h.repr.eq_tail
      have hnot : x ∉ l1 := (nodup_concat l1 x).1 (by simpa using h.repr.nodup) |>.1
      refine ⟨s, rfl, ?_, .refl s⟩
      rwa [hx, erase_append_right _ hnot, erase_cons_head, append_nil]

end

end Tracked

end ChipletGem5.FALRU
