import ChipletGem5.Base.AddrRangeIntlv

/-!
# Offsets in an interleaved range

`AddrRange::getOffset` gives the addresses of an interleaved range consecutive offsets.  Two
addresses with one selector differ in a bit that stays: the highest bit in which they differ
cannot be the lowest bit of a mask, since the parity under this mask would differ.  That every
offset is used follows by counting over all match values.
-/

namespace ChipletGem5.AddrRange

open BitVec Finset

variable {r : AddrRange} {a a' m : Addr} {j L : ℕ}

/-! ### Different addresses have different offsets -/

lemma parity_eq_of_sel (hlen : r.masks.length ≤ 32) (h : r.sel a = r.sel a') (hm : m ∈ r.masks) :
    parity (a &&& m) = parity (a' &&& m) := by
  obtain ⟨i, hi⟩ := List.mem_iff_getElem?.1 hm
  have hbit := congrArg (·.getLsbD i) h
  simpa only [getLsbD_sel hlen, hi, Option.map_some, Option.getD_some] using hbit

section

variable (hd : (r.masks.map ctz64).Nodup)
include hd

lemma eq_of_removeIntlvBits (hne : ∀ m ∈ r.masks, m ≠ 0)
    (hlen : r.masks.length ≤ 32) (hsel : r.sel a = r.sel a')
    (h : r.removeIntlvBits a = r.removeIntlvBits a') : a = a' := by
  have hs := pairwise_masksLsb hd
  have hbits : ∀ d j, j < 64 → 64 - j = d → a.getLsbD j = a'.getLsbD j := by
    intro d
    induction d using Nat.strong_induction_on with
    | _ d ih =>
      intro j hj hd
      by_cases hmem : j ∈ r.masksLsb
      · -- above `j` the addresses agree, and the mask has nothing below
        obtain ⟨m, hm, rfl⟩ := mem_masksLsb.1 hmem
        have hxor := parity_xor (x := a &&& m) (y := a' &&& m) hj fun i hi hij => by
          rw [getLsbD_and, getLsbD_and]
          rcases lt_or_gt_of_ne hij with hlt | hgt
          · rw [getLsbD_of_lt_ctz64 (hne m hm) hlt, Bool.and_false, Bool.and_false]
          · rw [ih (64 - i) (by omega) i hi rfl]
        rw [parity_eq_of_sel hlen hsel hm, getLsbD_and, getLsbD_and,
          getLsbD_ctz64 (hne m hm), Bool.and_true, Bool.and_true] at hxor
        exact Bool.xor_right_inj.1 hxor
      · rw [← BitGaps.dropAll_count hs a.getLsbD hmem, ← BitGaps.dropAll_count hs a'.getLsbD hmem,
          ← getLsbD_removeIntlvBits, ← getLsbD_removeIntlvBits, h]
  exact eq_of_getLsbD_eq fun j hj => hbits _ j hj rfl

/-! ### The interval of the offsets -/

lemma count_add_length (hL : ∀ m ∈ r.masks, ctz64 m ≤ L) :
    Nat.count (· ∉ r.masksLsb) (L + 1) + r.masks.length = L + 1 := by
  rw [← length_masksLsb]
  refine BitGaps.count_notMem (pairwise_masksLsb hd).nodup fun x hx => ?_
  obtain ⟨m, hm, rfl⟩ := mem_masksLsb.1 hx
  exact Nat.lt_succ_of_le (hL m hm)

lemma removeIntlvBits_div (hL : ∀ m ∈ r.masks, ctz64 m ≤ L)
    (a : Addr) : (r.removeIntlvBits a).toNat / 2 ^ (L + 1 - r.masks.length) =
      a.toNat / 2 ^ (L + 1) := by
  have hcount := count_add_length hd hL
  refine Nat.eq_of_testBit_eq fun j => ?_
  rw [Nat.testBit_div_two_pow, Nat.testBit_div_two_pow, ← getLsbD, ← getLsbD,
    getLsbD_removeIntlvBits,
    ← BitGaps.dropAll_of_lt (pairwise_masksLsb hd) a.getLsbD fun x hx => ?_]
  · rw [length_masksLsb]
    congr 1
    omega
  · obtain ⟨m, hm, rfl⟩ := mem_masksLsb.1 hx
    have := hL m hm
    omega

lemma removeIntlvBits_of_dvd (hL : ∀ m ∈ r.masks, ctz64 m ≤ L) (h : 2 ^ (L + 1) ∣ a.toNat) :
    (r.removeIntlvBits a).toNat = a.toNat / 2 ^ (L + 1) * 2 ^ (L + 1 - r.masks.length) := by
  have hs := pairwise_masksLsb hd
  have hcount := count_add_length hd hL
  set D := L + 1 - r.masks.length with hD
  have hmod : (r.removeIntlvBits a).toNat % 2 ^ D = 0 := by
    refine Nat.eq_of_testBit_eq fun i => ?_
    rw [Nat.testBit_mod_two_pow]
    by_cases hi : i < D
    · obtain ⟨j, hj, hji⟩ := BitGaps.exists_count_eq r.masksLsb i
      have hlt : j < L + 1 := by
        by_contra hge
        have hmono := Nat.count_monotone (· ∉ r.masksLsb) (not_lt.1 hge)
        omega
      rw [← hji, ← getLsbD, getLsbD_removeIntlvBits, BitGaps.dropAll_count hs _ hj,
        getLsbD]
      obtain ⟨c, hc⟩ := h
      rw [hc, Nat.testBit_two_pow_mul]
      simp [hlt.not_ge]
    · simp [hi]
  have hdiv := Nat.div_add_mod (r.removeIntlvBits a).toNat (2 ^ D)
  rw [hmod, removeIntlvBits_div hd hL, mul_comm] at hdiv
  exact hdiv.symm

end

/-- The conditions on an interleaved range: the constructor lets no other match value through, and
the interval begins and ends at a multiple of `2 ^ (L + 1)`, where `L` is the largest of the lowest
bits of the masks, which are different. -/
structure Aligned (r : AddrRange) (L : ℕ) : Prop where
  interleaved : r.interleaved
  match_lt : r.intlvMatch.toNat < 2 ^ r.masks.length
  distinct : (r.masks.map ctz64).Nodup
  le_max : ∀ m ∈ r.masks, ctz64 m ≤ L
  max_mem : ∃ m ∈ r.masks, ctz64 m = L
  start_dvd : 2 ^ (L + 1) ∣ r.start.toNat
  end_dvd : 2 ^ (L + 1) ∣ r.endAddr.toNat

lemma Aligned.size_eq (h : r.Aligned L) (hvalid : r.valid) (hlen : r.masks.length ≤ 32) :
    r.size.toNat = (r.endAddr.toNat / 2 ^ (L + 1) - r.start.toNat / 2 ^ (L + 1)) *
      2 ^ (L + 1 - r.masks.length) := by
  have hcount := count_add_length h.distinct h.le_max
  have hle : r.start.toNat ≤ r.endAddr.toNat := by simpa [valid, le_def] using hvalid
  obtain ⟨S, hS⟩ := h.start_dvd
  obtain ⟨E, hE⟩ := h.end_dvd
  have hpos : 0 < 2 ^ (L + 1) := by positivity
  have hpow : 2 ^ (L + 1) = 2 ^ (L + 1 - r.masks.length) * 2 ^ r.masks.length := by
    rw [← pow_add]
    congr 1
    omega
  rw [size, toNat_ushiftRight, Nat.shiftRight_eq_div_pow, Nat.mod_eq_of_lt (by omega),
    toNat_sub_of_le (by simpa [le_def] using hle), hS, hE,
    Nat.mul_div_cancel_left _ hpos, Nat.mul_div_cancel_left _ hpos, ← Nat.mul_sub, hpow,
    mul_comm, ← mul_assoc, Nat.mul_div_cancel _ (by positivity)]

lemma Aligned.getOffset_eq (h : r.Aligned L) (ha : r.start ≤ a ∧ a < r.endAddr) :
    (r.getOffset a).toNat + r.start.toNat / 2 ^ (L + 1) * 2 ^ (L + 1 - r.masks.length) =
      (r.removeIntlvBits a).toNat := by
  have hdiv := removeIntlvBits_div h.distinct h.le_max a
  have hstart := removeIntlvBits_of_dvd h.distinct h.le_max h.start_dvd
  have hle : (r.removeIntlvBits r.start).toNat ≤ (r.removeIntlvBits a).toNat := by
    rw [hstart]
    refine (Nat.le_div_iff_mul_le (by positivity)).1 ?_
    rw [hdiv]
    exact Nat.div_le_div_right (le_def.1 ha.1)
  rw [getOffset, if_pos ha, if_pos h.interleaved, ← hstart,
    toNat_sub_of_le (le_def.2 hle), Nat.sub_add_cancel hle]

lemma Aligned.getOffset_lt (h : r.Aligned L) (hvalid : r.valid) (hlen : r.masks.length ≤ 32)
    (ha : r.start ≤ a ∧ a < r.endAddr) : (r.getOffset a).toNat < r.size.toNat := by
  have hoff := h.getOffset_eq ha
  have hdiv := removeIntlvBits_div h.distinct h.le_max a
  have hlt : a.toNat / 2 ^ (L + 1) < r.endAddr.toNat / 2 ^ (L + 1) :=
    Nat.div_lt_div_of_lt_of_dvd h.end_dvd (lt_def.1 ha.2)
  have hend : (r.removeIntlvBits a).toNat <
      r.endAddr.toNat / 2 ^ (L + 1) * 2 ^ (L + 1 - r.masks.length) := by
    refine (Nat.div_lt_iff_lt_mul (by positivity)).1 ?_
    rwa [hdiv]
  rw [h.size_eq hvalid hlen, Nat.sub_mul]
  omega

lemma Aligned.getOffset_inj (h : r.Aligned L) (hL : L < 64) (hlen : r.masks.length ≤ 32)
    (ha : r.start ≤ a ∧ a < r.endAddr) (ha' : r.start ≤ a' ∧ a' < r.endAddr)
    (hsel : r.sel a = r.sel a') (heq : (r.getOffset a).toNat = (r.getOffset a').toNat) :
    a = a' := by
  have hne : ∀ m ∈ r.masks, m ≠ 0 := by
    rintro m hm rfl
    have hle := h.le_max 0 hm
    rw [show ctz64 0 = 64 by decide] at hle
    omega
  refine eq_of_removeIntlvBits h.distinct hne hlen hsel (eq_of_toNat_eq ?_)
  rw [← h.getOffset_eq ha, ← h.getOffset_eq ha', heq]

/-! ### Every offset is used -/

/-- If the elements of a finite set fall into classes, a function is injective on each class, and
there are as many elements as classes and values would give, then each class has all values. -/
lemma image_filter_eq {α β γ : Type*} [DecidableEq β] [DecidableEq γ] {A : Finset α}
    {V : Finset β} {B : Finset γ} (f : α → β) (g : α → γ) (hf : ∀ x ∈ A, f x ∈ V)
    (hg : ∀ x ∈ A, g x ∈ B) (hinj : ∀ x ∈ A, ∀ y ∈ A, f x = f y → g x = g y → x = y)
    (hcard : V.card * B.card ≤ A.card) {v : β} (hv : v ∈ V) :
    (A.filter (f · = v)).image g = B := by
  have hle : ∀ w, (A.filter (f · = w)).card ≤ B.card := fun w =>
    card_le_card_of_injOn g (fun x hx => hg x (mem_filter.1 hx).1)
      fun x hx y hy hxy => by
        obtain ⟨hx, hfx⟩ := mem_filter.1 hx
        obtain ⟨hy, hfy⟩ := mem_filter.1 hy
        exact hinj x hx y hy (hfx.trans hfy.symm) hxy
  have hsum : ∑ w ∈ V, (A.filter (f · = w)).card = ∑ _w ∈ V, B.card := by
    refine le_antisymm (sum_le_sum fun w _ => hle w) ?_
    rwa [← card_eq_sum_card_fiberwise hf, sum_const]
  have hfull : (A.filter (f · = v)).card = B.card :=
    (sum_eq_sum_iff_of_le fun w _ => hle w).1 hsum v hv
  refine eq_of_subset_of_card_le ?_ ?_
  · intro z hz
    obtain ⟨x, hx, rfl⟩ := mem_image.1 hz
    exact hg x (mem_filter.1 hx).1
  · rw [card_image_of_injOn, hfull]
    intro x hx y hy hxy
    obtain ⟨hx, hfx⟩ := mem_filter.1 hx
    obtain ⟨hy, hfy⟩ := mem_filter.1 hy
    exact hinj x hx y hy (hfx.trans hfy.symm) hxy

lemma sel_lt (hlen : r.masks.length ≤ 32) (a : Addr) : (r.sel a).toNat < 2 ^ r.masks.length := by
  refine Nat.lt_pow_two_of_testBit _ fun i hi => ?_
  rw [← getLsbD, getLsbD_sel hlen, List.getElem?_eq_none hi]
  rfl

lemma Aligned.size_mul (h : r.Aligned L) (hvalid : r.valid) (hlen : r.masks.length ≤ 32) :
    2 ^ r.masks.length * r.size.toNat = r.endAddr.toNat - r.start.toNat := by
  have hcount := count_add_length h.distinct h.le_max
  obtain ⟨S, hS⟩ := h.start_dvd
  obtain ⟨E, hE⟩ := h.end_dvd
  have hpos : 0 < 2 ^ (L + 1) := by positivity
  rw [h.size_eq hvalid hlen, hS, hE, Nat.mul_div_cancel_left _ hpos,
    Nat.mul_div_cancel_left _ hpos, ← Nat.mul_sub, mul_left_comm, mul_comm (2 ^ (L + 1)), ← pow_add,
    show r.masks.length + (L + 1 - r.masks.length) = L + 1 by omega]

lemma Aligned.exists_getOffset (h : r.Aligned L) (hL : L < 64) (hvalid : r.valid)
    (hlen : r.masks.length ≤ 32) {o : Addr} (ho : o < r.size) :
    ∃ a, r.contains a ∧ r.getOffset a = o := by
  have hin : ∀ x ∈ Finset.Ico r.start.toNat r.endAddr.toNat,
      (BitVec.ofNat 64 x).toNat = x ∧ r.start ≤ BitVec.ofNat 64 x ∧
        BitVec.ofNat 64 x < r.endAddr := by
    intro x hx
    obtain ⟨hle, hlt⟩ := mem_Ico.1 hx
    have hx64 : (BitVec.ofNat 64 x).toNat = x := by
      rw [toNat_ofNat]
      exact Nat.mod_eq_of_lt (hlt.trans r.endAddr.isLt)
    rw [le_def, lt_def, hx64]
    exact ⟨rfl, hle, hlt⟩
  have himage := image_filter_eq (A := Finset.Ico r.start.toNat r.endAddr.toNat)
    (V := Finset.range (2 ^ r.masks.length)) (B := Finset.range r.size.toNat)
    (fun x => (r.sel (BitVec.ofNat 64 x)).toNat) (fun x => (r.getOffset (BitVec.ofNat 64 x)).toNat)
    (fun x _ => mem_range.2 (sel_lt hlen _))
    (fun x hx => mem_range.2 (h.getOffset_lt hvalid hlen (hin x hx).2))
    (fun x hx y hy hsel hoff => by
      have heq := h.getOffset_inj hL hlen (hin x hx).2 (hin y hy).2
        (eq_of_toNat_eq hsel) hoff
      rw [← (hin x hx).1, ← (hin y hy).1, heq])
    (by rw [card_range, card_range, Nat.card_Ico, h.size_mul hvalid hlen])
    (mem_range.2 h.match_lt)
  have hmem : o.toNat ∈ Finset.range r.size.toNat := mem_range.2 (lt_def.1 ho)
  rw [← himage, mem_image] at hmem
  obtain ⟨x, hx, hoff⟩ := hmem
  obtain ⟨hx, hsel⟩ := mem_filter.1 hx
  refine ⟨BitVec.ofNat 64 x, contains_iff.2 ⟨(hin x hx).2, eq_of_toNat_eq ?_⟩,
    eq_of_toNat_eq hoff⟩
  rw [hsel, toNat_setWidth, Nat.mod_eq_of_lt (by omega)]

/-- In a valid range with at most 32 masks, the offsets of the addresses are those below the size,
and no two addresses have the same offset. -/
theorem getOffset_bijOn (h : r.Aligned L) (hvalid : r.valid) (hlen : r.masks.length ≤ 32) :
    Set.BijOn r.getOffset {a | r.contains a} {o | o < r.size} := by
  by_cases hL : L < 64
  · refine ⟨fun a ha => ?_, fun a ha a' ha' heq => ?_, fun o ho => ?_⟩
    · exact lt_def.2 (h.getOffset_lt hvalid hlen (contains_iff.1 ha).1)
    · obtain ⟨ha, hsel⟩ := contains_iff.1 ha
      obtain ⟨ha', hsel'⟩ := contains_iff.1 ha'
      exact h.getOffset_inj hL hlen ha ha' (hsel.trans hsel'.symm) (congrArg _ heq)
    · obtain ⟨a, ha, hoff⟩ := h.exists_getOffset hL hvalid hlen ho
      exact ⟨a, ha, hoff⟩
  · -- a mask without bits: the range is empty
    have hlarge : 2 ^ 64 ≤ 2 ^ (L + 1) := Nat.pow_le_pow_right (by norm_num) (by omega)
    have hzero : ∀ x : Addr, 2 ^ (L + 1) ∣ x.toNat → x.toNat = 0 := fun x hx =>
      Nat.eq_zero_of_dvd_of_lt hx (x.isLt.trans_le hlarge)
    have hend := hzero _ h.end_dvd
    have hsize := h.size_mul hvalid hlen
    rw [hend, Nat.zero_sub] at hsize
    have hsize' : r.size.toNat = 0 := (Nat.mul_eq_zero.1 hsize).resolve_left (by positivity)
    refine ⟨fun a ha => ?_, fun a ha => ?_, fun o ho => ?_⟩
    · have hlt := lt_def.1 (contains_iff.1 ha).1.2
      omega
    · have hlt := lt_def.1 (contains_iff.1 ha).1.2
      omega
    · have hlt : o.toNat < r.size.toNat := lt_def.1 ho
      omega

lemma le_of_all (h : r.masks.all (fun m => ctz64 m ≤ L)) : ∀ m ∈ r.masks, ctz64 m ≤ L :=
  fun m hm => of_decide_eq_true (List.all_eq_true.1 h m hm)

/-- The second of four channels, with a hash over a higher bit. -/
def fourChannels : AddrRange := ⟨0x1000, 0x2000, [0x440, 0x80], 1⟩

theorem getOffset_bijOn_fourChannels :
    fourChannels.Aligned 7 ∧ fourChannels.valid ∧
      Set.BijOn fourChannels.getOffset {a | fourChannels.contains a}
        {o | o < fourChannels.size} := by
  have h : fourChannels.Aligned 7 :=
    ⟨by decide +kernel, by decide +kernel, by decide +kernel, le_of_all (by decide +kernel),
      ⟨0x80, by simp [fourChannels], by decide +kernel⟩, by decide +kernel, by decide +kernel⟩
  have hvalid : fourChannels.valid := by decide +kernel
  exact ⟨h, hvalid, getOffset_bijOn h hvalid (by decide +kernel)⟩

/-- A range that ends before it starts. -/
def reversed : AddrRange := ⟨4, 2, [1], 0⟩

/-- A range with a mask for each of the lowest 33 bits. -/
def manyMasks : AddrRange := ⟨0, 0x200000000, (List.range 33).map ((1 : Addr) <<< ·), 1⟩

/-- A range that is not valid has no address, but `size` is not zero.  With 33 masks, the last
bit of the selector is put into the place of the first one. -/
theorem not_bijOn_reversed_manyMasks :
    (¬ ∀ (r : AddrRange) (L : ℕ), r.Aligned L → r.masks.length ≤ 32 →
      Set.BijOn r.getOffset {a | r.contains a} {o | o < r.size}) ∧
    ¬ ∀ (r : AddrRange) (L : ℕ), r.Aligned L → r.valid →
      Set.BijOn r.getOffset {a | r.contains a} {o | o < r.size} := by
  constructor
  · intro h
    have hbij := h reversed 0 ⟨by decide +kernel, by decide +kernel, by decide +kernel,
      le_of_all (by decide +kernel), ⟨1, by simp [reversed], by decide +kernel⟩, by decide +kernel,
      by decide +kernel⟩ (by decide +kernel)
    obtain ⟨a, ha, -⟩ := hbij.surjOn (show (0 : Addr) < reversed.size by decide +kernel)
    have hin := (contains_iff.1 ha).1
    have hstart : 4 ≤ a.toNat := le_def.1 hin.1
    have hend : a.toNat < 2 := lt_def.1 hin.2
    omega
  · intro h
    have hbij := h manyMasks 32 ⟨by decide +kernel, by decide +kernel, by decide +kernel,
      le_of_all (by decide +kernel),
      ⟨(1 : Addr) <<< 32, List.mem_map_of_mem (by simp), by decide +kernel⟩,
      by decide +kernel, by decide +kernel⟩ (by decide +kernel)
    have heq : (1 : Addr) = 0x100000000 := hbij.injOn
      (show manyMasks.contains 1 by decide +kernel)
      (show manyMasks.contains 0x100000000 by decide +kernel) (by decide +kernel)
    simp at heq

end ChipletGem5.AddrRange
