import ChipletGem5.Mem.MSHRTargets

/-!
# The flags of a list of targets

`TargetList::add` keeps the flags of the list up to date, and `populateFlags` computes them again
from the targets.  Both go through `updateWriteFlags`, which marks the bytes of a special write
only if the list is empty.  This is so for the first target when it is added, but not when
`populateFlags` comes to it: then the flags differ if the first target is a special write of a CPU.
-/

namespace ChipletGem5.MSHR.TargetList

open List

variable {l l' : TargetList} {pkt : Packet} {source : Source} {allocOnFill : Bool}
  {up up' : Upstream} {T : List Target} {B : List Bool}

/-- The arguments of a call of `add`. -/
structure NewTarget where
  curTick : Tick
  pkt : Packet
  readyTime : Tick
  order : Counter
  source : Source
  markPending : Bool
  allocOnFill : Bool

/-- The target that is made. -/
def NewTarget.target (n : NewTarget) (marked : Bool) : Target :=
  ⟨n.curTick, n.readyTime, n.order, n.pkt, n.source, marked, n.allocOnFill⟩

def addAll (l : TargetList) (up : Upstream) :
    List NewTarget → Result (TargetList × Upstream)
  | [] => return (l, up)
  | n :: ns => do
      let r ← l.add up n.curTick n.pkt n.readyTime n.order n.source n.markPending n.allocOnFill
      r.1.addAll r.2 ns

/-- A write of a CPU with a flag for which it is not merged with others. -/
def SpecialWrite (pkt : Packet) (source : Source) : Prop :=
  source = .fromCPU ∧ pkt.isWrite ∧
    Flags.isSet pkt.req.flags Request.noMergeFlags ∧ pkt.size ≠ 0

def setTargets (l : TargetList) (T : List Target) : TargetList := { l with targets := T }

/-! ### One target -/

lemma updateWriteFlags_eq_ok (h : l.updateWriteFlags pkt = .ok l') :
    ∃ c B, l' = { l with canMergeWrites := c, writesBitmap := B } ∧
      B.length = l.writesBitmap.length ∧
      (l.canMergeWrites = false → c = false ∧ B = l.writesBitmap) := by
  rw [updateWriteFlags] at h
  split_ifs at h with hwhole hmerge hread
  · cases h
    exact ⟨_, _, rfl, rfl, fun h => ⟨h, rfl⟩⟩
  · cases h
    exact ⟨_, _, rfl, rfl, fun h => absurd hmerge (by simp [h])⟩
  · obtain ⟨l1, h1, rfl⟩ := bind_pure_eq_ok.1 h
    split_ifs at h1
    · obtain ⟨⟨⟩, hle, rfl⟩ := bind_pure_eq_ok.1 h1
      have hlen := of_decide_eq_true (require_eq_ok.1 hle)
      refine ⟨_, _, rfl, ?_, fun h => absurd hmerge (by simp [h])⟩
      simp only [length_append, length_take, length_replicate, length_drop]
      omega
    · cases h1
      exact ⟨_, _, rfl, rfl, fun h => absurd hmerge (by simp [h])⟩
  · cases h
    exact ⟨_, _, rfl, rfl, fun h => ⟨h, rfl⟩⟩

lemma updateWriteFlags_setTargets (h : l.updateWriteFlags pkt = .ok l') (hT : T ≠ [])
    (hfirst : l.targets ≠ [] ∨ ¬ SpecialWrite pkt .fromCPU ∨ l.writesBitmap = []) :
    (l.setTargets T).updateWriteFlags pkt = .ok (l'.setTargets T) := by
  rw [updateWriteFlags] at h ⊢
  show (if l.isWholeLineWrite then _ else if l.canMergeWrites then _ else _) = _
  split_ifs at h ⊢ with hw hmerge hread
  · cases h
    rfl
  · cases h
    rfl
  · obtain ⟨l1, h1, rfl⟩ := bind_pure_eq_ok.1 h
    refine bind_pure_eq_ok.2 ⟨l1.setTargets T, ?_, rfl⟩
    rcases Bool.eq_false_or_eq_true (!Flags.isSet pkt.req.flags Request.noMergeFlags) with hc | hc
    · rw [hc, Bool.or_true] at h1 ⊢
      obtain ⟨⟨⟩, hle, rfl⟩ := bind_pure_eq_ok.1 h1
      exact bind_pure_eq_ok.2 ⟨(), hle, rfl⟩
    · -- the bytes are marked in the empty list only
      rw [hc, Bool.or_false] at h1 ⊢
      rw [if_neg (by simpa [setTargets] using hT)]
      split_ifs at h1 with hnil
      · obtain ⟨⟨⟩, -, rfl⟩ := bind_pure_eq_ok.1 h1
        have hsize : pkt.size = 0 := by
          rcases hfirst with hne | hspecial | hbitmap
          · exact absurd (isEmpty_iff.1 hnil) hne
          · by_contra hsize
            exact hspecial ⟨rfl, by simpa using hread, by simpa using hc, hsize⟩
          · exact absurd (by rw [isWholeLineWrite, hbitmap]; rfl) hw
        simp [hsize]
      · cases h1
        rfl
  · cases h
    rfl

section

variable (h : l.updateFlags pkt source allocOnFill = .ok l')
include h

lemma resetFlags_of_updateFlags : l'.resetFlags = l.resetFlags := by
  cases source with
  | fromSnoop =>
    cases h
    rfl
  | fromPrefetcher =>
    obtain ⟨-, -, rfl⟩ := bind_pure_eq_ok.1 h
    rfl
  | fromCPU =>
    obtain ⟨writable, -, h⟩ := bind_eq_ok.1 h
    obtain ⟨c, B, rfl, hlen, -⟩ := updateWriteFlags_eq_ok h
    simp [resetFlags, hlen]

lemma updateFlags_setTargets (hT : T ≠ [])
    (hfirst : l.targets ≠ [] ∨ ¬ SpecialWrite pkt source ∨ l.writesBitmap = []) :
    (l.setTargets T).updateFlags pkt source allocOnFill = .ok (l'.setTargets T) := by
  cases source with
  | fromSnoop =>
    cases h
    rfl
  | fromPrefetcher =>
    obtain ⟨writable, hwritable, rfl⟩ := bind_pure_eq_ok.1 h
    exact bind_pure_eq_ok.2 ⟨writable, hwritable, rfl⟩
  | fromCPU =>
    obtain ⟨writable, hwritable, h⟩ := bind_eq_ok.1 h
    exact bind_eq_ok.2 ⟨writable, hwritable, updateWriteFlags_setTargets h hT hfirst⟩

lemma kept_of_updateFlags (hmerge : l.canMergeWrites = false) :
    l'.canMergeWrites = false ∧ l'.writesBitmap = l.writesBitmap := by
  cases source with
  | fromSnoop =>
    cases h
    exact ⟨hmerge, rfl⟩
  | fromPrefetcher =>
    obtain ⟨-, -, rfl⟩ := bind_pure_eq_ok.1 h
    exact ⟨hmerge, rfl⟩
  | fromCPU =>
    obtain ⟨writable, -, h⟩ := bind_eq_ok.1 h
    obtain ⟨c, B, rfl, -, hkeep⟩ := updateWriteFlags_eq_ok h
    exact hkeep hmerge

end

/-- After a special write no other one is merged, and its bytes are marked only if it is the first
target. -/
lemma updateWriteFlags_special (h : l.updateWriteFlags pkt = .ok l')
    (hwhole : l.isWholeLineWrite = false) (hmerge : l.canMergeWrites)
    (hspecial : SpecialWrite pkt source) :
    l'.canMergeWrites = false ∧ (l.targets = [] → true ∈ l'.writesBitmap) ∧
      (l.targets ≠ [] → l'.writesBitmap = l.writesBitmap) := by
  obtain ⟨-, hwrite, hflags, hsize⟩ := hspecial
  rw [updateWriteFlags, hwhole, hmerge, hwrite, hflags] at h
  obtain ⟨l1, h1, rfl⟩ := bind_pure_eq_ok.1 h
  refine ⟨Bool.and_false _, fun hnil => ?_, fun hne => ?_⟩
  · rw [hnil] at h1
    obtain ⟨⟨⟩, -, rfl⟩ := bind_pure_eq_ok.1 h1
    simp [hsize]
  · rw [if_neg (by simpa using hne)] at h1
    cases h1
    rfl

/-! ### All targets -/

lemma addAll_cons_eq_ok {n : NewTarget} {ns : List NewTarget}
    (h : l.addAll up (n :: ns) = .ok (l', up')) :
    ∃ l1 marked up1, l.updateFlags n.pkt n.source n.allocOnFill = .ok l1 ∧
      (l1.setTargets (l.targets ++ [n.target marked])).addAll up1 ns = .ok (l', up') := by
  obtain ⟨r, hadd, hrest⟩ := bind_eq_ok.1 h
  obtain ⟨l1, hflags, hadd⟩ := bind_eq_ok.1 hadd
  obtain ⟨marked, -, rfl⟩ := bind_pure_eq_ok.1 hadd
  rw [targets_of_updateFlags hflags] at hrest
  exact ⟨l1, marked.1, marked.2, hflags, hrest⟩

lemma updateAllFlags_of_addAll {ns : List NewTarget} (h : l.addAll up ns = .ok (l', up'))
    (hl : l.targets ≠ []) :
    l'.resetFlags = l.resetFlags.setTargets l'.targets ∧
      (l.canMergeWrites = false → l'.writesBitmap = l.writesBitmap) ∧
      ∃ ts, l'.targets = l.targets ++ ts ∧ ∀ T ≠ [],
        (l.setTargets T).updateAllFlags ts = .ok (l'.setTargets T) := by
  induction ns generalizing l up with
  | nil =>
    cases h
    exact ⟨rfl, fun _ => rfl, [], (append_nil _).symm, fun T _ => rfl⟩
  | cons n ns ih =>
    obtain ⟨l1, marked, up1, hflags, hrest⟩ := addAll_cons_eq_ok h
    obtain ⟨hreset, hkeep, ts, hts, hall⟩ := ih hrest (by simp [setTargets])
    refine ⟨hreset.trans ?_, fun hmerge => ?_, _ :: ts, hts.trans (append_assoc ..),
      fun T hT => ?_⟩
    · rw [← resetFlags_of_updateFlags hflags]
      rfl
    · obtain ⟨hmerge1, hbitmap⟩ := kept_of_updateFlags hflags hmerge
      exact (hkeep hmerge1).trans hbitmap
    · exact bind_eq_ok.2 ⟨_, updateFlags_setTargets hflags hT (.inl hl), hall T hT⟩

lemma bitmap_of_updateAllFlags {ts : List Target} (h : l.updateAllFlags ts = .ok l')
    (hmerge : l.canMergeWrites = false) : l'.writesBitmap = l.writesBitmap := by
  induction ts generalizing l with
  | nil =>
    cases h
    rfl
  | cons t ts ih =>
    obtain ⟨l1, hflags, hrest⟩ := bind_eq_ok.1 h
    obtain ⟨hmerge1, hbitmap⟩ := kept_of_updateFlags hflags hmerge
    exact (ih hrest hmerge1).trans hbitmap

/-- The flags of a list to which targets were added one by one are those that `populateFlags`
computes, unless the first target is a special write. -/
theorem populateFlags_addAll_iff {blkAddr : Addr} {blkSize : ℕ} {ns : List NewTarget}
    (h : (empty.init blkAddr blkSize).addAll up ns = .ok (l, up')) :
    l.populateFlags = .ok l ↔
      ∀ n ∈ ns.head?, ¬ (SpecialWrite n.pkt n.source ∧ blkSize ≠ 0) := by
  have hinit : (empty.init blkAddr blkSize).resetFlags = empty.init blkAddr blkSize := by
    simp [init, resetFlags]
  have hbitmap : (empty.init blkAddr blkSize).writesBitmap = replicate blkSize false := by
    simp [init, resetFlags]
  cases ns with
  | nil =>
    cases h
    refine iff_of_true ?_ (by simp)
    rw [populateFlags, hinit]
    rfl
  | cons n ns =>
    obtain ⟨l1, marked, up1, hflags, hrest⟩ := addAll_cons_eq_ok h
    obtain ⟨hreset, hkeep, ts, hts, hall⟩ := updateAllFlags_of_addAll hrest (by simp [setTargets])
    have hreset' : l.resetFlags = (empty.init blkAddr blkSize).setTargets l.targets := by
      refine hreset.trans ?_
      show l1.resetFlags.setTargets l.targets = _
      rw [resetFlags_of_updateFlags hflags, hinit]
    have hts' : l.targets = n.target marked :: ts := hts
    have hne : l.targets ≠ [] := by simp [hts']
    rw [populateFlags, hreset']
    by_cases hspecial : SpecialWrite n.pkt n.source ∧ blkSize ≠ 0
    · refine iff_of_false (fun heq => ?_) fun hother => hother n rfl hspecial
      have hwhole : isWholeLineWrite (empty.init blkAddr blkSize) = false := by
        simp [isWholeLineWrite, hbitmap, hspecial.2]
      have hsource : (n.target marked).source = .fromCPU := hspecial.1.1
      rw [hspecial.1.1] at hflags
      obtain ⟨_, -, hflags⟩ := bind_eq_ok.1 hflags
      obtain ⟨hmerge, hmark, -⟩ := updateWriteFlags_special hflags hwhole rfl hspecial.1
      nth_rewrite 2 [hts'] at heq
      obtain ⟨m, hm, hrun⟩ := bind_eq_ok.1 heq
      rw [hsource] at hm
      obtain ⟨_, -, hm⟩ := bind_eq_ok.1 hm
      obtain ⟨hmerge', -, hsame⟩ := updateWriteFlags_special hm hwhole rfl hspecial.1
      -- the bytes are marked in one list and not in the other
      have hfalse : l.writesBitmap = replicate blkSize false :=
        (bitmap_of_updateAllFlags hrun hmerge').trans ((hsame hne).trans hbitmap)
      have htrue : true ∈ l.writesBitmap := (hkeep hmerge).symm ▸ hmark rfl
      simp [hfalse] at htrue
    · have hother : ¬ SpecialWrite n.pkt n.source ∨
          (empty.init blkAddr blkSize).writesBitmap = [] := by
        simpa [hbitmap, or_iff_not_imp_left] using hspecial
      refine iff_of_true ?_ (by simpa using hspecial)
      nth_rewrite 2 [hts']
      exact bind_eq_ok.2 ⟨_, updateFlags_setTargets hflags hne (.inr hother), hall _ hne⟩

/-- A packet of the given command, for the whole block at address 0. -/
def wholeBlock (cmd : MemCmd) (flags : BitVec 64) (size : ℕ) : NewTarget where
  curTick := 0
  pkt := ⟨⟨cmd⟩, 0, ⟨flags, some 0⟩, 0, size, false, false, false, false, false, false, false,
    false, none⟩
  readyTime := 0
  order := 0
  source := .fromCPU
  markPending := false
  allocOnFill := true

/-- A write of a whole block, followed by a read. -/
theorem populateFlags_addAll_write :
    ∃ l up, (empty.init 0 2).addAll (fun _ => false)
        [wholeBlock .writeReq 0 2, wholeBlock .readReq 0 2] = .ok (l, up) ∧
      l.populateFlags = .ok l := by
  obtain ⟨⟨l, up⟩, h⟩ : ∃ r, (empty.init 0 2).addAll (fun _ => false)
      [wholeBlock .writeReq 0 2, wholeBlock .readReq 0 2] = .ok r := ⟨_, rfl⟩
  refine ⟨l, up, h, (populateFlags_addAll_iff h).2 ?_⟩
  rintro n ⟨⟩ ⟨⟨-, -, hflags, -⟩, -⟩
  exact absurd hflags (by decide)

/-- A secure write of a whole block, which is not seen as such when the flags are computed
again. -/
theorem not_populateFlags_secure :
    ∃ l l' up, (empty.init 0 2).addAll (fun _ => false) [wholeBlock .writeReq Request.secure 2] =
        .ok (l, up) ∧
      l.populateFlags = .ok l' ∧ l.isWholeLineWrite ∧ l'.isWholeLineWrite = false :=
  ⟨_, _, _, rfl, rfl, rfl, rfl⟩

end ChipletGem5.MSHR.TargetList
