import ChipletGem5.Mem.DRAMCtrl

/-!
# The bursts of a request

The number of bursts is computed from the address of the request as it comes in, in 32 bits, and
the bursts from the address inside of the range of the controller, in 64 bits.  Where the two
agree (`Config.Fits`), the bursts tile the bytes of the request, one for each burst address that
it touches: `Config.Fits.tiles`.
-/

namespace ChipletGem5.DRAM

open Nat

variable {cfg : Config} {pkt : Pkt}

/-- The pieces follow each other from `lo` to `hi`, and each is inside of one burst. -/
def Tiles (b : ℕ) : ℕ → ℕ → List (ℕ × ℕ) → Prop
  | lo, hi, [] => lo = hi
  | lo, hi, (addr, size) :: l =>
      addr = lo ∧ 0 < size ∧ lo / b = (lo + size - 1) / b ∧ Tiles b (lo + size) hi l

namespace Config

/-! ### Burst addresses -/

lemma exists_burstSize (cfg : Config) : ∃ k < 32, cfg.burstSize = 2 ^ k := by
  have hpow := exists_eq_two_pow cfg.burstSize_pow
  refine ⟨_, ?_, hpow⟩
  have hlt := cfg.burstSize_lt
  rw [hpow] at hlt
  exact (Nat.pow_lt_pow_iff_right (by norm_num)).1 hlt

lemma burstSize_pos (cfg : Config) : 0 < cfg.burstSize := by
  obtain ⟨k, -, hk⟩ := cfg.exists_burstSize
  rw [hk]
  positivity

lemma or_two_pow_sub_one (x k : ℕ) : (x ||| (2 ^ k - 1)) + 1 = (x / 2 ^ k + 1) * 2 ^ k := by
  have hpos : 0 < 2 ^ k := by positivity
  have h : x ||| (2 ^ k - 1) = 2 ^ k * (x / 2 ^ k) + (2 ^ k - 1) := by
    refine eq_of_testBit_eq fun j => ?_
    rw [testBit_two_pow_mul_add _ (by omega), testBit_div_two_pow]
    by_cases hj : j < k
    · simp [hj]
    · simp [hj, Nat.sub_add_cancel (not_lt.1 hj)]
  rw [h, succ_mul, mul_comm (2 ^ k)]
  omega

lemma burstAlign_eq {addr : ℕ} (h : addr < 2 ^ 64) :
    cfg.burstAlign addr = addr / cfg.burstSize * cfg.burstSize := by
  obtain ⟨k, hk32, hk⟩ := cfg.exists_burstSize
  have hmask : 2 ^ 64 - 2 ^ k = 2 ^ k * (2 ^ (64 - k) - 1) := by
    rw [mul_sub_one, ← pow_add, Nat.add_sub_cancel' (by omega)]
  rw [burstAlign, hk, hmask]
  refine eq_of_testBit_eq fun j => ?_
  rw [testBit_and, mul_comm _ (2 ^ k), testBit_two_pow_mul, testBit_two_pow_mul,
    testBit_div_two_pow]
  by_cases hj : k ≤ j
  · rw [Nat.sub_add_cancel hj]
    by_cases hj64 : j < 64
    · simp [hj, show j - k < 64 - k by omega]
    · have hbit : addr.testBit j = false :=
        testBit_eq_false_of_lt (h.trans_le (Nat.pow_le_pow_right (by norm_num) (by omega)))
      simp [hbit]
  · simp [hj]

/-! ### Tiling -/

/-- The number of bursts is that of the burst addresses which the request touches, the request
does not reach into the last burst of the 64-bit addresses, and the bursts can be counted by an
`int`. -/
def Fits (cfg : Config) (pkt : Pkt) : Prop :=
  cfg.pktCount pkt = (cfg.getCtrlAddr pkt.addr + pkt.size - 1) / cfg.burstSize -
      cfg.getCtrlAddr pkt.addr / cfg.burstSize + 1 ∧
    cfg.getCtrlAddr pkt.addr + pkt.size + cfg.burstSize ≤ 2 ^ 64 ∧ cfg.pktCount pkt < 2 ^ 31

instance (cfg : Config) (pkt : Pkt) : Decidable (cfg.Fits pkt) :=
  inferInstanceAs (Decidable (_ ∧ _))

lemma length_burstsFrom (cfg : Config) (n addr stop : ℕ) :
    (cfg.burstsFrom n addr stop).length = n := by
  induction n generalizing addr with
  | zero => rfl
  | succ n ih => rw [burstsFrom, List.length_cons, ih]

lemma lt_nextBurst (b addr : ℕ) (hb : 0 < b) : addr < (addr / b + 1) * b := by
  rw [mul_comm]
  exact lt_mul_div_succ addr hb

variable {lo hi b : ℕ}

lemma burstsFrom_tiles {n : ℕ} (hlt : lo < hi) (hle : hi + cfg.burstSize ≤ 2 ^ 64)
    (hn : n = (hi - 1) / cfg.burstSize - lo / cfg.burstSize + 1) :
    Tiles cfg.burstSize lo hi (cfg.burstsFrom n lo hi) := by
  induction n generalizing lo with
  | zero => omega
  | succ n ih =>
    have hb := cfg.burstSize_pos
    have hb32 := cfg.burstSize_lt
    have hmul : lo / cfg.burstSize * cfg.burstSize ≤ lo := div_mul_le_self _ _
    have hlo := lt_nextBurst cfg.burstSize lo hb
    have hnb : (lo / cfg.burstSize + 1) * cfg.burstSize ≤ lo + cfg.burstSize := by
      rw [succ_mul]
      omega
    have hnext : cfg.nextBurst lo = (lo / cfg.burstSize + 1) * cfg.burstSize := by
      obtain ⟨k, -, hk⟩ := cfg.exists_burstSize
      rw [nextBurst, hk, or_two_pow_sub_one, ← hk, mod_eq_of_lt (by omega)]
    set nb := (lo / cfg.burstSize + 1) * cfg.burstSize with hnbdef
    have hbytes : cfg.burstBytes lo hi = min nb hi - lo := by
      rw [burstBytes]
      omega
    have hsame : (lo + (min nb hi - lo) - 1) / cfg.burstSize = lo / cfg.burstSize :=
      Nat.div_eq_of_lt_le (by omega) (by rw [← hnbdef]; omega)
    refine ⟨rfl, by omega, by rw [hbytes, hsame], ?_⟩
    rw [hbytes, hnext]
    obtain hhi | hhi := le_or_gt hi nb
    · -- the request ends in this burst
      rw [min_eq_right hhi] at hsame ⊢
      rw [show lo + (hi - lo) = hi by omega] at hsame ⊢
      obtain rfl : n = 0 := by omega
      rfl
    · rw [min_eq_left hhi.le, show lo + (nb - lo) = nb by omega]
      have hq : nb / cfg.burstSize = lo / cfg.burstSize + 1 := Nat.mul_div_cancel _ hb
      have hge : lo / cfg.burstSize + 1 ≤ (hi - 1) / cfg.burstSize := by
        rw [← hq]
        exact Nat.div_le_div_right (by omega)
      exact ih hhi (by rw [hq]; omega)

end Config

lemma Config.Fits.tiles (h : cfg.Fits pkt) (hsize : 0 < pkt.size) :
    Tiles cfg.burstSize (cfg.getCtrlAddr pkt.addr) (cfg.getCtrlAddr pkt.addr + pkt.size)
      (cfg.bursts pkt) := by
  have hpos := cfg.burstSize_pos
  have hlt := h.2.1
  rw [Config.bursts, mod_eq_of_lt (by omega)]
  exact Config.burstsFrom_tiles (by omega) h.2.1 h.1

lemma Config.pktCount_eq (h : pkt.addr.toNat % cfg.burstSize + pkt.size + cfg.burstSize ≤ 2 ^ 32) :
    cfg.pktCount pkt = divCeil (pkt.addr.toNat % cfg.burstSize + pkt.size) cfg.burstSize := by
  obtain ⟨k, -, hk⟩ := cfg.exists_burstSize
  have hpos := cfg.burstSize_pos
  rw [Config.pktCount, hk, and_two_pow_sub_one_eq_mod, ← hk, mod_eq_of_lt (by omega),
    mod_eq_of_lt (by omega), divCeil]

/-- A request fits if it ends one burst below `2 ^ 32` when counted from the start of its first
burst, the range of the controller keeps the place of its address in the burst, and the last burst
of the 64-bit addresses is not reached. -/
lemma Config.fits_of_mod_eq (hb : 1 < cfg.burstSize) (hsize : 0 < pkt.size)
    (h : pkt.addr.toNat % cfg.burstSize + pkt.size + cfg.burstSize ≤ 2 ^ 32)
    (hmod : cfg.getCtrlAddr pkt.addr % cfg.burstSize = pkt.addr.toNat % cfg.burstSize)
    (hend : cfg.getCtrlAddr pkt.addr + pkt.size + cfg.burstSize ≤ 2 ^ 64) : cfg.Fits pkt := by
  rw [← hmod] at h
  have hcount := Config.pktCount_eq (hmod ▸ h)
  have hlast : cfg.getCtrlAddr pkt.addr + pkt.size - 1 = cfg.burstSize *
      (cfg.getCtrlAddr pkt.addr / cfg.burstSize) +
        (cfg.getCtrlAddr pkt.addr % cfg.burstSize + pkt.size - 1) := by
    have := div_add_mod (cfg.getCtrlAddr pkt.addr) cfg.burstSize
    omega
  rw [← hmod, divCeil] at hcount
  refine ⟨?_, hend, ?_⟩
  · rw [hcount, hlast, mul_add_div (by omega), Nat.add_sub_cancel_left,
      ← Nat.add_div_right _ (by omega)]
    congr 1
    omega
  · rw [hcount]
    exact Nat.div_lt_of_lt_mul (by omega)

/-- A part of a packet inside one burst. -/
structure Piece (b lo hi : ℕ) (x : ℕ × ℕ) : Prop where
  le_addr : lo ≤ x.1
  end_le : x.1 + x.2 ≤ hi
  pos : 0 < x.2
  same : x.1 / b = (x.1 + x.2 - 1) / b

lemma Tiles.le {l : List (ℕ × ℕ)} (h : Tiles b lo hi l) : lo ≤ hi := by
  induction l generalizing lo with
  | nil => exact Eq.le h
  | cons x l ih =>
    have := ih h.2.2.2
    omega

lemma Tiles.piece {l : List (ℕ × ℕ)} (h : Tiles b lo hi l) {x : ℕ × ℕ}
    (hx : x ∈ l) : Piece b lo hi x := by
  induction l generalizing lo with
  | nil => simp at hx
  | cons y l ih =>
    obtain ⟨rfl, hpos, hsame, hrest⟩ := h
    obtain rfl | hx := List.mem_cons.1 hx
    · exact ⟨le_rfl, hrest.le, hpos, hsame⟩
    · have hp := ih hrest hx
      exact ⟨by have := hp.le_addr; omega, hp.end_le, hp.pos, hp.same⟩

lemma Piece.size_le {x : ℕ × ℕ} (h : Piece b lo hi x) (hb : 0 < b) : x.2 ≤ b := by
  have hend := Config.lt_nextBurst b (x.1 + x.2 - 1) hb
  rw [← h.same, succ_mul] at hend
  have := div_mul_le_self x.1 b
  omega

end ChipletGem5.DRAM
