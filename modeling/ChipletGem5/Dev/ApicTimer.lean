import ChipletGem5.Base.Types
import ChipletGem5.Lib.Result

/-!
# The timer of the local APIC

The count registers of `X86ISA::Interrupts` of `arch/x86/interrupts.cc`: a write to
`APIC_INITIAL_COUNT` schedules the timer event, a read of `APIC_CURRENT_COUNT` turns the ticks
that are left back into a count.  The sums and products are those of the source, of 32 or 64 bits;
the result is about settings for which those of 64 bits do not overflow.
-/

namespace ChipletGem5.ApicTimer

/-- `divideFromConf`: the division of the clock that the configuration register asks for. -/
def divideFromConf (conf : BitVec 32) : BitVec 32 :=
  let shift := ((conf &&& 0x8) >>> 1 ||| (conf &&& 0x3)).toNat
  1 <<< ((shift + 1) % 8)

/-- The part of an interrupt controller that the timer uses. -/
structure Interrupts where
  /-- The clock period, in ticks. -/
  clockPeriod : Tick
  /-- `regs[APIC_DIVIDE_CONFIGURATION]`. -/
  divideConfiguration : BitVec 32
  /-- `regs[APIC_INITIAL_COUNT]`. -/
  initialCount : BitVec 32
  /-- When `apicTimerEvent` is scheduled. -/
  apicTimerEvent : Option Tick

namespace Interrupts

variable (s : Interrupts) (t : Tick) (val : BitVec 32)

/-- `newCount` of `setReg`, whose product is one of 32 bits. -/
def newCount : BitVec 64 := (val * divideFromConf s.divideConfiguration).setWidth 64

/-- `ticksPerCount` of `readReg`. -/
def ticksPerCount : BitVec 64 :=
  s.clockPeriod * (divideFromConf s.divideConfiguration).setWidth 64

/-- `reschedule` of the timer event, for a tick that is not in the past. -/
def reschedule (when : Tick) : Result Interrupts := do
  require (t ≤ when) (.assertion "when >= getCurTick()")
  return { s with apicTimerEvent := some when }

/-- `setReg(APIC_INITIAL_COUNT, val)` at tick `t`.  On a clock edge a count of no cycles
leaves the event as it is. -/
def setInitialCount : Result Interrupts := do
  let offset := t % s.clockPeriod
  let s' ←
    if offset ≠ 0 then s.reschedule t (t + (s.newCount val + 1) * s.clockPeriod - offset)
    else if s.newCount val ≠ 0 then s.reschedule t (t + s.newCount val * s.clockPeriod)
    else .ok s
  return { s' with initialCount := val }

/-- `readReg(APIC_CURRENT_COUNT)` at tick `t`. -/
def readCurrentCount : BitVec 32 :=
  match s.apicTimerEvent with
  | some w => ((w - t + s.ticksPerCount - 1) / s.ticksPerCount).setWidth 32
  | none => 0

/-- From `t` on and before the timer expires, the count is at most `val` and never grows. -/
def CountsDown : Prop :=
  ∀ t₁ t₂, t ≤ t₁ → t₁ ≤ t₂ → (∀ w ∈ s.apicTimerEvent, t₂ < w) →
    s.readCurrentCount t₁ ≤ val ∧ s.readCurrentCount t₂ ≤ s.readCurrentCount t₁

/-- After `val` is written at `t` the timer counts down from it, and a zero stops the timer. -/
def Consistent : Prop :=
  ∃ s', s.setInitialCount t val = .ok s' ∧ s'.CountsDown t val ∧
    (val = 0 → s'.apicTimerEvent = none ∧ ∀ t' ≥ t, s'.readCurrentCount t' = 0)

/-- The clock cycles of a count. -/
def cycles : ℕ := val.toNat * (divideFromConf s.divideConfiguration).toNat

/-- The ticks of a count. -/
def countTicks : ℕ := s.clockPeriod.toNat * (divideFromConf s.divideConfiguration).toNat

/-- The clock runs, and no tick that a write of `val` at `t` or a read after it computes overflows;
an event that is scheduled is not in the past. -/
structure Fits : Prop where
  period : 0 < s.clockPeriod.toNat
  write : t.toNat + (s.cycles val % 2 ^ 32 + 1) * s.clockPeriod.toNat + s.countTicks ≤ 2 ^ 64
  pending : ∀ w ∈ s.apicTimerEvent, t ≤ w ∧ w.toNat + s.countTicks ≤ 2 ^ 64 + t.toNat

variable {s t val} {w : Tick}

lemma divideFromConf_pos (conf : BitVec 32) : 0 < (divideFromConf conf).toNat := by
  have hpow : ∀ k < 8, 0 < ((1 : BitVec 32) <<< k).toNat := by decide
  exact hpow _ (Nat.mod_lt _ (by decide))

lemma toNat_newCount (s : Interrupts) (val : BitVec 32) :
    (s.newCount val).toNat = s.cycles val % 2 ^ 32 := by
  rw [newCount, BitVec.toNat_setWidth, BitVec.toNat_mul, cycles]
  exact Nat.mod_eq_of_lt ((Nat.mod_lt _ (by decide)).trans (by decide))

section

variable (h : s.Fits t val)
include h

lemma Fits.countTicks_pos : 0 < s.countTicks :=
  Nat.mul_pos h.period (divideFromConf_pos _)

lemma Fits.toNat_ticksPerCount : s.ticksPerCount.toNat = s.countTicks := by
  have hmul := Nat.mul_le_mul_right s.clockPeriod.toNat
    (show 1 ≤ s.cycles val % 2 ^ 32 + 1 by omega)
  have hperiod := h.period
  have hwrite := h.write
  have hdiv := (divideFromConf s.divideConfiguration).isLt
  rw [ticksPerCount, BitVec.toNat_mul, BitVec.toNat_setWidth,
    Nat.mod_eq_of_lt (hdiv.trans (by decide))]
  exact Nat.mod_eq_of_lt (show s.countTicks < 2 ^ 64 by omega)

end

lemma count_le_iff {u n r : ℕ} (hu : 0 < u) : (r + u - 1) / u ≤ n ↔ r ≤ n * u := by
  rw [Nat.div_le_iff_le_mul_add_pred hu, mul_comm]
  omega

section

variable (he : s.apicTimerEvent = some w) (hu : 0 < s.ticksPerCount.toNat)
  (hfit : w.toNat + s.ticksPerCount.toNat ≤ 2 ^ 64 + t.toNat)
include he hu hfit

lemma toNat_readCurrentCount {t₁ : Tick} (h : t ≤ t₁) (h₁ : t₁ ≤ w) :
    (s.readCurrentCount t₁).toNat =
      (w.toNat - t₁.toNat + s.ticksPerCount.toNat - 1) / s.ticksPerCount.toNat % 2 ^ 32 := by
  have hsum : (w - t₁ + s.ticksPerCount - 1).toNat =
      w.toNat - t₁.toNat + s.ticksPerCount.toNat - 1 := by bv_omega
  simp only [readCurrentCount, he]
  rw [BitVec.toNat_setWidth, BitVec.toNat_udiv, hsum]

/-- The count is right exactly if the timer expires within `val` counts. -/
lemma countsDown_iff (hw : t ≤ w) :
    s.CountsDown t val ↔ w.toNat ≤ t.toNat + val.toNat * s.ticksPerCount.toNat := by
  have hread {t₁ : Tick} (h : t ≤ t₁) (h₁ : t₁ ≤ w) := toNat_readCurrentCount he hu hfit h h₁
  have hle {n r : ℕ} := count_le_iff (n := n) (r := r) hu
  have hval := val.isLt
  have hwlt := w.isLt
  simp only [CountsDown, he, BitVec.le_def, BitVec.lt_def, Option.mem_some, forall_eq']
    at hread hw ⊢
  generalize s.ticksPerCount.toNat = u at *
  constructor
  · intro hcount
    by_contra! hlt
    -- the last tick with the count `val + 1`, which may be zero in 32 bits
    obtain ⟨k, hk⟩ := Nat.exists_eq_add_of_lt hlt
    have hone : (val.toNat * u + 1 + u - 1) / u = val.toNat + 1 :=
      le_antisymm (hle.2 (by grind)) (not_le.1 (mt hle.1 (by omega)))
    have htick : (BitVec.ofNat 64 (t.toNat + k)).toNat = t.toNat + k := by
      rw [BitVec.toNat_ofNat]
      omega
    have hbound := (hcount _ (BitVec.ofNat 64 (t.toNat + k)) (by omega) le_rfl (by omega)).1
    rw [hread (by omega) (by omega), htick,
      show w.toNat - (t.toNat + k) = val.toNat * u + 1 by omega, hone] at hbound
    have hpos := Nat.mul_pos (show 0 < val.toNat by omega) hu
    have htick' : (BitVec.ofNat 64 (t.toNat + k + 1)).toNat = t.toNat + k + 1 := by
      rw [BitVec.toNat_ofNat]
      omega
    have hmono := (hcount (BitVec.ofNat 64 (t.toNat + k)) (BitVec.ofNat 64 (t.toNat + k + 1))
      (by omega) (by omega) (by omega)).2
    rw [hread (by omega) (by omega), hread (by omega) (by omega), htick, htick',
      show w.toNat - (t.toNat + k) = val.toNat * u + 1 by omega, hone,
      show w.toNat - (t.toNat + k + 1) = val.toNat * u by omega] at hmono
    have hnext : 0 < (val.toNat * u + u - 1) / u := not_le.1 (mt hle.1 (by omega))
    have := hle.2 (le_refl (val.toNat * u))
    omega
  · intro hwle t₁ t₂ h₁ h₂ hlt
    have hfirst := hle.2 (show w.toNat - t₁.toNat ≤ val.toNat * u by omega)
    have hsecond : (w.toNat - t₂.toNat + u - 1) / u ≤ (w.toNat - t₁.toNat + u - 1) / u :=
      Nat.div_le_div_right (by omega)
    rw [hread (by omega) (by omega), hread (by omega) (by omega),
      Nat.mod_eq_of_lt (hfirst.trans_lt hval),
      Nat.mod_eq_of_lt ((hsecond.trans hfirst).trans_lt hval)]
    exact ⟨hfirst, hsecond⟩

end

section

variable (h : s.Fits t val)
include h

/-- If there is an event after the write, it has to be within the count, which is not zero. -/
lemma Fits.consistent_iff_of_some {s' : Interrupts} (hs : s.setInitialCount t val = .ok s')
    (hs' : s' = { s with initialCount := val, apicTimerEvent := some w }) (hw : t ≤ w)
    (hfit : w.toNat + s.countTicks ≤ 2 ^ 64 + t.toNat) :
    s.Consistent t val ↔
      val ≠ 0 ∧ w.toNat ≤ t.toNat + s.cycles val * s.clockPeriod.toNat := by
  have hticks : s'.ticksPerCount.toNat = s.countTicks := by
    rw [hs']
    exact h.toNat_ticksPerCount
  have he : s'.apicTimerEvent = some w := by rw [hs']
  have hcycles : val.toNat * s.countTicks = s.cycles val * s.clockPeriod.toNat := by
    rw [countTicks, cycles]
    ring
  have hcount : s'.CountsDown t val ↔ _ :=
    countsDown_iff he (hticks ▸ h.countTicks_pos) (hticks ▸ hfit) hw
  rw [hticks, hcycles] at hcount
  rw [Consistent]
  constructor
  · rintro ⟨s₁, hs₁, hdown, hzero⟩
    cases hs.symm.trans hs₁
    exact ⟨fun hval => by simp [he] at hzero; exact hzero hval, hcount.1 hdown⟩
  · rintro ⟨hval, hle⟩
    exact ⟨s', hs, hcount.2 hle, fun hzero => absurd hzero hval⟩

lemma Fits.reschedule {k : BitVec 64} (hk : k.toNat ≤ s.cycles val % 2 ^ 32 + 1)
    (hoff : t.toNat % s.clockPeriod.toNat ≤ k.toNat * s.clockPeriod.toNat) :
    ∃ w, s.reschedule t (t + k * s.clockPeriod - t % s.clockPeriod) =
        .ok { s with apicTimerEvent := some w } ∧ t ≤ w ∧
      w.toNat = t.toNat + k.toNat * s.clockPeriod.toNat - t.toNat % s.clockPeriod.toNat := by
  have hmul := Nat.mul_le_mul_right s.clockPeriod.toNat hk
  have hwrite := h.write
  have hpos := h.countTicks_pos
  have hprod : (k * s.clockPeriod).toNat = k.toNat * s.clockPeriod.toNat := by
    rw [BitVec.toNat_mul]
    exact Nat.mod_eq_of_lt (by omega)
  have hmod : (t % s.clockPeriod).toNat = t.toNat % s.clockPeriod.toNat := BitVec.toNat_umod
  have hw : (t + k * s.clockPeriod - t % s.clockPeriod).toNat =
      t.toNat + k.toNat * s.clockPeriod.toNat - t.toNat % s.clockPeriod.toNat := by
    generalize k * s.clockPeriod = m at *
    bv_omega
  have hle : t ≤ t + k * s.clockPeriod - t % s.clockPeriod := by
    rw [BitVec.le_def]
    omega
  exact ⟨_, by simp [Interrupts.reschedule, require, hle], hle, hw⟩

/-- The event after a write that schedules it; off a clock edge it is for the end of the cycle. -/
lemma Fits.setInitialCount
    (hcount : t.toNat % s.clockPeriod.toNat ≠ 0 ∨ s.cycles val % 2 ^ 32 ≠ 0) :
    ∃ w, s.setInitialCount t val =
        .ok { s with initialCount := val, apicTimerEvent := some w } ∧ t ≤ w ∧
      w.toNat = t.toNat + (s.cycles val % 2 ^ 32 + if t.toNat % s.clockPeriod.toNat ≠ 0 then 1
        else 0) * s.clockPeriod.toNat - t.toNat % s.clockPeriod.toNat := by
  have hnew := toNat_newCount s val
  have hlt := Nat.mod_lt (s.cycles val) (show 0 < 2 ^ 32 by decide)
  have hoff := Nat.mod_lt t.toNat h.period
  have hzero : t % s.clockPeriod = 0 ↔ t.toNat % s.clockPeriod.toNat = 0 := by
    rw [BitVec.toNat_eq, BitVec.toNat_umod]
    rfl
  simp only [Interrupts.setInitialCount, ne_eq, hzero]
  by_cases hedge : t.toNat % s.clockPeriod.toNat = 0
  · obtain ⟨w, hset, hle, hw⟩ := h.reschedule (k := s.newCount val) (by omega) (by omega)
    have hne : s.newCount val ≠ 0 := fun h0 => hcount.resolve_left (· hedge) (by
      rw [← hnew, h0]
      rfl)
    rw [hzero.2 hedge, show (0 : Tick) = 0#64 from rfl, BitVec.sub_zero] at hset
    rw [if_neg (not_not.2 hedge), if_pos hne, if_neg (not_not.2 hedge), hset, add_zero, ← hnew]
    exact ⟨w, rfl, hle, hw⟩
  · have hsucc : (s.newCount val + 1).toNat = s.cycles val % 2 ^ 32 + 1 := by bv_omega
    obtain ⟨w, hset, hle, hw⟩ := h.reschedule hsucc.le (by
      rw [hsucc]
      exact hoff.le.trans (Nat.le_mul_of_pos_left _ (by omega)))
    rw [if_pos hedge, if_pos hedge, hset, ← hsucc]
    exact ⟨w, rfl, hle, hw⟩

end

/-- **The count of the timer.**  Off a clock edge the timer starts with one count too many,
unless the product overflows; on an edge a product of zero leaves an earlier timer running. -/
theorem consistent_iff (h : s.Fits t val) :
    s.Consistent t val ↔
      if t.toNat % s.clockPeriod.toNat ≠ 0 then 2 ^ 32 ≤ s.cycles val
      else s.cycles val % 2 ^ 32 = 0 → ∀ w ∈ s.apicTimerEvent,
        val ≠ 0 ∧ w.toNat ≤ t.toNat + s.cycles val * s.clockPeriod.toNat := by
  have hoff := Nat.mod_lt t.toNat h.period
  have hwrite := h.write
  have hzero : val = 0 → s.cycles val = 0 := by
    rintro rfl
    exact zero_mul _
  split_ifs with hedge
  · obtain ⟨w, hset, hle, hw⟩ := h.setInitialCount (.inl hedge)
    rw [if_pos hedge] at hw
    rw [h.consistent_iff_of_some hset rfl hle (by omega), hw]
    constructor
    · rintro ⟨-, hbound⟩
      by_contra! hlt
      rw [Nat.mod_eq_of_lt hlt, Nat.succ_mul] at hbound
      omega
    · intro hbig
      have hlt := Nat.mod_lt (s.cycles val) (show 0 < 2 ^ 32 by decide)
      have hmul := Nat.mul_le_mul_right s.clockPeriod.toNat
        (show s.cycles val % 2 ^ 32 + 1 ≤ s.cycles val by omega)
      exact ⟨fun hval => absurd (hzero hval) (by omega), by omega⟩
  · rw [not_not] at hedge
    by_cases hcount : s.cycles val % 2 ^ 32 = 0
    · have hset : s.setInitialCount t val = .ok { s with initialCount := val } := by
        have hnew : s.newCount val = 0 := BitVec.eq_of_toNat_eq (by
          rw [toNat_newCount, hcount]
          rfl)
        have hedge' : t % s.clockPeriod = 0 := BitVec.eq_of_toNat_eq (by
          rw [BitVec.toNat_umod, hedge]
          rfl)
        simp [setInitialCount, hedge', hnew]
      rcases hs : s.apicTimerEvent with _ | w
      · refine iff_of_true ⟨_, hset, fun t₁ t₂ _ _ _ => ?_, fun _ => ⟨hs, fun _ _ => ?_⟩⟩ (by simp)
        · simp [readCurrentCount, hs, BitVec.le_def]
        · simp [readCurrentCount, hs]
      · obtain ⟨hle, hfit⟩ := h.pending w hs
        rw [h.consistent_iff_of_some hset (by rw [← hs]) hle hfit]
        simp only [hcount, forall_const, Option.mem_some, forall_eq']
    · obtain ⟨w, hset, hle, hw⟩ := h.setInitialCount (.inr hcount)
      rw [if_neg (not_not.2 hedge), add_zero, hedge, Nat.sub_zero] at hw
      have hmul := Nat.mul_le_mul_right s.clockPeriod.toNat (Nat.mod_le (s.cycles val) (2 ^ 32))
      rw [Nat.succ_mul] at hwrite
      rw [h.consistent_iff_of_some hset rfl hle (by omega), hw]
      exact iff_of_true ⟨fun hval => hcount (by simp [hzero hval]), by omega⟩
        fun hzero => absurd hzero hcount

/-- A period of two ticks, no division: a count of 3 written at tick 4. -/
theorem consistent_iff_three : (⟨2, 0xb, 0, none⟩ : Interrupts).Consistent 4 3 :=
  (consistent_iff ⟨by decide, by decide, by simp⟩).2 (by decide)

/-- On a clock edge a zero does not stop the timer, which goes on until tick 100. -/
theorem not_consistent_zero : ¬ (⟨1, 0xb, 7, some 100⟩ : Interrupts).Consistent 0 0 := by
  rintro ⟨s', hs', -, hstop⟩
  cases hs'
  exact absurd (hstop rfl).1 (by decide)

end Interrupts

end ChipletGem5.ApicTimer
