import ChipletGem5.O3.MemDepUnit

/-!
# Memory barriers in the memory dependence unit

The unit knows one barrier for loads and one for stores, the latest that was inserted.  When that
one is squashed or completes, it knows none, also if an older barrier is still in flight.
`insert_waits` says that an instruction waits for all older barriers as long as barriers complete in
order and no squash parts them; `not_insert_waits` that it may not wait otherwise.
-/

namespace ChipletGem5.O3

open MemDepUnit List

namespace MemDepState

/-! ### The invariant -/

/-- The flag and the number for one kind of barriers stand for the youngest of them. -/
def Tracks (barriers : List MemInst) (kind : MemInst → Bool) (flag : Bool) (sn : ℕ) : Prop :=
  ∀ b ∈ barriers, kind b →
    flag ∧ b.seqNum ≤ sn ∧ ∃ b' ∈ barriers, kind b' ∧ b'.seqNum = sn

/-- The barriers that stores wait for. -/
def blocksStores (b : MemInst) : Bool := b.isMemBarrier || b.isWriteBarrier

/-- What every call keeps. -/
structure Inv (s : MemDepState) : Prop where
  sorted : s.unit.instList.Pairwise (· < ·)
  hash : ∀ n, s.unit.memDepHash n ↔ n ∈ s.unit.instList
  list_le : ∀ n ∈ s.unit.instList, n ≤ s.lastSN
  ready_le : ∀ n, s.unit.Ready n → n ≤ s.lastSN
  depends_le : ∀ k n, n ∈ (s.unit.entry k).dependInsts → n ≤ s.lastSN
  barrier_mem : ∀ b ∈ s.barriers, b.seqNum ∈ s.unit.instList ∧ b.seqNum ≠ 0
  load : Tracks s.barriers (·.isMemBarrier) s.unit.loadBarrier s.unit.loadBarrierSN
  store : Tracks s.barriers blocksStores s.unit.storeBarrier s.unit.storeBarrierSN

/-- The flags and numbers of the unit stand for the youngest barriers of both kinds. -/
def TracksBoth (barriers : List MemInst) (u : MemDepUnit) : Prop :=
  Tracks barriers (·.isMemBarrier) u.loadBarrier u.loadBarrierSN ∧
    Tracks barriers blocksStores u.storeBarrier u.storeBarrierSN

lemma inv_init : Inv init := by
  constructor <;> simp [init, MemDepUnit.init, Ready, Tracks]

/-! ### Instructions that wait -/

/-- An instruction waits for a barrier as long as this is in flight: it is on the list of a barrier
that is not older. -/
structure Held (i : ℕ) (b : MemInst) (s : MemDepState) : Prop where
  lt : b.seqNum < i
  le : i ≤ s.lastSN
  waits : b ∈ s.barriers → ¬ s.unit.Ready i ∧ ∃ b' ∈ s.barriers, b.seqNum ≤ b'.seqNum ∧
    i ∈ (s.unit.entry b'.seqNum).dependInsts ∧
    ∀ k, i ∈ (s.unit.entry k).dependInsts → k = b'.seqNum

/-- Nothing can make an instruction ready. -/
structure Never (i : ℕ) (s : MemDepState) : Prop where
  le : i ≤ s.lastSN
  not_ready : ¬ s.unit.Ready i
  not_mem : ∀ k, i ∉ (s.unit.entry k).dependInsts

/-- The invariant holds after a call, and what waits still waits. -/
structure Keeps (s s' : MemDepState) : Prop where
  inv : s'.Inv
  held : ∀ {i b}, Held i b s → Held i b s'
  never : ∀ {i}, Never i s → Never i s'

section Keeps

variable {s s' : MemDepState} {u' : MemDepUnit} {n : ℕ} {barriers : List MemInst}
  {kind : MemInst → Bool} {flag : Bool} {sn : ℕ} {inst : MemInst}

lemma Inv.barrier_le (h : s.Inv) : ∀ b ∈ s.barriers, b.seqNum ≤ s.lastSN :=
  fun b hb => h.list_le _ (h.barrier_mem b hb).1

lemma Inv.inserts (h : s.Inv) (hins : Inserts s.unit u' n) (hn : s.lastSN < n)
    (hsub : ∀ b ∈ s.barriers, b ∈ barriers)
    (hbarriers : ∀ b ∈ barriers, b ∈ s.barriers ∨ b.seqNum = n)
    (htracks : TracksBoth barriers u') : Keeps s ⟨u', barriers, n⟩ := by
  refine ⟨⟨?_, ?_, ?_, ?_, ?_, ?_, htracks.1, htracks.2⟩,
    fun {i b} hi => ⟨hi.lt, hi.le.trans hn.le, ?_⟩,
    fun {i} hi => ?_⟩
  · rw [hins.list, pairwise_append]
    refine ⟨h.sorted, pairwise_singleton _ _, fun m hm k hk => ?_⟩
    cases mem_singleton.1 hk
    exact (h.list_le m hm).trans_lt hn
  · intro m
    rw [hins.hash, hins.list]
    by_cases hm : m = n
    · simp [hm]
    · simpa [hm] using h.hash m
  · intro m hm
    rw [hins.list, mem_append, mem_singleton] at hm
    rcases hm with hm | rfl
    · exact (h.list_le m hm).trans hn.le
    · exact le_rfl
  · intro m hm
    by_cases hmn : m = n
    · exact hmn.le
    · exact (h.ready_le m (hins.ready hmn hm)).trans hn.le
  · intro k m hm
    by_cases hmn : m = n
    · exact hmn.le
    · exact (h.depends_le k m ((hins.depends hmn).1 hm).2).trans hn.le
  · intro b hb
    rw [hins.list, mem_append, mem_singleton]
    rcases hbarriers b hb with hb | hb
    · exact ⟨.inl (h.barrier_mem b hb).1, (h.barrier_mem b hb).2⟩
    · exact ⟨.inr hb, by omega⟩
  · intro hb
    have hlt := hi.lt
    have hle := hi.le
    have hne : i ≠ n := by omega
    have hold : b ∈ s.barriers := (hbarriers b hb).resolve_right (by omega)
    obtain ⟨hready, b', hb', hle, hdep, huniq⟩ := hi.waits hold
    have hb'n : b'.seqNum ≠ n := by
      have := h.barrier_le b' hb'
      omega
    exact ⟨fun hr => hready (hins.ready hne hr), b', hsub b' hb', hle,
      (hins.depends hne).2 ⟨hb'n, hdep⟩, fun k hk => huniq k ((hins.depends hne).1 hk).2⟩
  · have hne : i ≠ n := (hi.le.trans_lt hn).ne
    exact ⟨hi.le.trans hn.le, fun hr => hi.not_ready (hins.ready hne hr),
      fun k hk => hi.not_mem k ((hins.depends hne).1 hk).2⟩

lemma Inv.removes (h : s.Inv) (keep : ℕ → Bool) (hlist : u'.instList = s.unit.instList.filter keep)
    (hhash : ∀ n, u'.memDepHash n ↔
      s.unit.memDepHash n ∧ (n ∈ s.unit.instList → keep n))
    (hless : ∀ k i, i ∈ (u'.entry k).dependInsts → i ∈ (s.unit.entry k).dependInsts)
    (hready : ∀ i, u'.Ready i → s.unit.Ready i ∨
      ∃ k, i ∈ (s.unit.entry k).dependInsts ∧ ∀ x ∈ barriers, x.seqNum ≠ k)
    (hbarriers : ∀ b ∈ barriers, b ∈ s.barriers ∧ keep b.seqNum)
    (hstays : ∀ b ∈ barriers, ∀ x ∈ s.barriers, b.seqNum ≤ x.seqNum → x ∈ barriers)
    (hdepends : ∀ x ∈ barriers,
      (u'.entry x.seqNum).dependInsts = (s.unit.entry x.seqNum).dependInsts)
    (htracks : TracksBoth barriers u') : Keeps s ⟨u', barriers, s.lastSN⟩ := by
  refine ⟨⟨?_, ?_, ?_, ?_, ?_, ?_, htracks.1, htracks.2⟩, fun hi => ⟨hi.lt, hi.le, ?_⟩,
    fun hi => ⟨hi.le, ?_, fun k hk => hi.not_mem k (hless k _ hk)⟩⟩
  · rw [hlist]
    exact h.sorted.filter _
  · intro n
    rw [hhash, hlist, mem_filter, h.hash]
    tauto
  · intro n hn
    rw [hlist] at hn
    exact h.list_le n (mem_of_mem_filter hn)
  · exact fun n hn => (hready n hn).elim (h.ready_le n) fun ⟨k, hk, _⟩ => h.depends_le k n hk
  · exact fun k n hn => h.depends_le k n (hless k n hn)
  · intro b hb
    rw [hlist]
    obtain ⟨hmem, hkeep⟩ := hbarriers b hb
    exact ⟨mem_filter.2 ⟨(h.barrier_mem b hmem).1, hkeep⟩, (h.barrier_mem b hmem).2⟩
  · intro hb
    obtain ⟨hnot, b', hb', hle, hdep, huniq⟩ := hi.waits (hbarriers _ hb).1
    have hb'' : b' ∈ barriers := hstays _ hb b' hb' hle
    refine ⟨fun hr => ?_, b', hb'', hle, ?_, fun k hk => huniq k (hless k _ hk)⟩
    · rcases hready _ hr with hr | ⟨k, hk, hne⟩
      · exact hnot hr
      · exact hne b' hb'' (huniq k hk).symm
    · rwa [hdepends b' hb'']
  · exact fun hr => (hready _ hr).elim hi.not_ready fun ⟨k, hk, _⟩ => hi.not_mem k hk

/-! ### Barriers -/

lemma Tracks.append (h : Tracks barriers kind flag sn) (hkind : kind inst = false) :
    Tracks (barriers ++ [inst]) kind flag sn := by
  intro b hb hbk
  rcases mem_append.1 hb with hb | hb
  · obtain ⟨hflag, hle, b', hb', hrest⟩ := h b hb hbk
    exact ⟨hflag, hle, b', mem_append_left _ hb', hrest⟩
  · rw [mem_singleton.1 hb, hkind] at hbk
    cases hbk

lemma tracks_append_self (h : ∀ b ∈ barriers, b.seqNum ≤ inst.seqNum) (hkind : kind inst) :
    Tracks (barriers ++ [inst]) kind true inst.seqNum := by
  intro b hb _
  refine ⟨rfl, ?_, inst, mem_append_right _ (mem_singleton_self _), hkind, rfl⟩
  rcases mem_append.1 hb with hb | hb
  · exact h b hb
  · rw [mem_singleton.1 hb]

lemma Tracks.complete (h : Tracks barriers kind flag sn) (hold : ∀ b ∈ barriers, n ≤ b.seqNum) :
    Tracks (barriers.filter (·.seqNum ≠ n)) kind (flag && sn != n) sn := by
  intro b hb hbk
  obtain ⟨hb, hne⟩ := mem_filter.1 hb
  obtain ⟨hflag, hle, b', hb', hbk', hsn⟩ := h b hb hbk
  have hne' : sn ≠ n := by
    have := hold b hb
    have := of_decide_eq_true hne
    omega
  refine ⟨by simp [hflag, hne'], hle, b', mem_filter.2 ⟨hb', ?_⟩, hbk', hsn⟩
  exact decide_eq_true (hsn ▸ hne')

lemma Tracks.of_imp {flag' : Bool} (h : Tracks barriers kind flag sn)
    (himp : flag → flag') : Tracks barriers kind flag' sn :=
  fun b hb hbk => ⟨himp (h b hb hbk).1, (h b hb hbk).2⟩

lemma Inv.sameBarriers (h : s.Inv) (hsame : SameBarriers s.unit u') : TracksBoth s.barriers u' := by
  obtain ⟨h1, h2, h3, h4⟩ := hsame
  rw [TracksBoth, h1, h2, h3, h4]
  exact ⟨h.load, h.store⟩

/-! ### Calls -/

lemma Inv.erase_eq (hinv : s.Inv) (n : ℕ) :
    s.unit.instList.erase n = s.unit.instList.filter fun m => decide (m ≠ n) := by
  have hnodup : s.unit.instList.Nodup := hinv.sorted.imp Nat.ne_of_lt
  rw [hnodup.erase_eq_filter]
  exact filter_congr fun m _ => by by_cases hm : m = n <;> simp [hm]

lemma Inv.update_hash (hinv : s.Inv) (n m : ℕ) :
    Function.update s.unit.memDepHash n false m ↔
      s.unit.memDepHash m ∧ (m ∈ s.unit.instList → decide (m ≠ n)) := by
  rw [← hinv.hash]
  by_cases hm : m = n <;> simp [hm]

lemma Inv.completeBarrier (hinv : s.Inv) (hold : ∀ b ∈ s.barriers, inst.seqNum ≤ b.seqNum)
    (h : s.unit.completeBarrier inst = .ok u') :
    Keeps s ⟨u', s.barriers.filter (·.seqNum ≠ inst.seqNum), s.lastSN⟩ := by
  obtain ⟨u1, h1, h⟩ := bind_eq_ok.1 h
  obtain ⟨u2, h2, h⟩ := bind_eq_ok.1 h
  cases completed_eq_ok h2
  obtain ⟨hhash, hlist, hsame, hless, hdepends, hready⟩ := wakeDependents_spec h1
  obtain ⟨hload, hstore⟩ := hinv.sameBarriers hsame
  have hload' := hload.complete hold
  have hstore' := hstore.complete hold
  -- the flags are the only difference between the kinds
  have hu' : u'.instList = u1.instList.erase inst.seqNum ∧
      u'.memDepHash = Function.update u1.memDepHash inst.seqNum false ∧
      u'.entry = u1.entry ∧ u'.readyMemInsts = u1.readyMemInsts ∧
      TracksBoth (s.barriers.filter (·.seqNum ≠ inst.seqNum)) u' := by
    split_ifs at h with hmem hwrite
    · cases h
      exact ⟨rfl, rfl, rfl, rfl, hload', hstore'⟩
    · cases h
      exact ⟨rfl, rfl, rfl, rfl, hload'.of_imp (by simp +contextual), hstore'⟩
    · cases h
      exact ⟨rfl, rfl, rfl, rfl, hload'.of_imp (by simp +contextual),
        hstore'.of_imp (by simp +contextual)⟩
  obtain ⟨hlist', hhash', hentry, hreadyList, htracks⟩ := hu'
  have hne : ∀ x ∈ s.barriers.filter (·.seqNum ≠ inst.seqNum), x.seqNum ≠ inst.seqNum :=
    fun x hx => of_decide_eq_true (mem_filter.1 hx).2
  refine hinv.removes (fun n => decide (n ≠ inst.seqNum)) ?_ ?_ ?_ ?_ ?_ ?_ ?_ htracks
  · rw [hlist', hlist, hinv.erase_eq]
  · intro n
    rw [hhash', hhash]
    exact hinv.update_hash inst.seqNum n
  · intro k n hn
    rw [hentry] at hn
    exact hless k n hn
  · intro n hn
    rw [Ready, hentry, hreadyList] at hn
    exact (hready n hn).imp_right fun hk => ⟨_, hk, hne⟩
  · exact fun b hb => mem_filter.1 hb
  · intro b hb x hx hle
    refine mem_filter.2 ⟨hx, decide_eq_true ?_⟩
    have := hne b hb
    have := hold b (mem_of_mem_filter hb)
    omega
  · intro x hx
    rw [hentry]
    exact hdepends _ (hne x hx)

lemma Inv.squash {squashedNum : ℕ} (hinv : s.Inv)
    (hall : (∀ b ∈ s.barriers, squashedNum < b.seqNum) ∨ ∀ b ∈ s.barriers, b.seqNum ≤ squashedNum)
    (h : s.unit.squash squashedNum = .ok u') :
    Keeps s ⟨u', s.barriers.filter (·.seqNum ≤ squashedNum), s.lastSN⟩ := by
  obtain ⟨hlist, hhash, hlsn, hssn, hl, hs, hdepends, hready⟩ := squash_spec h hinv.sorted
  have hbarriers : s.barriers.filter (·.seqNum ≤ squashedNum) = [] ∨
      s.barriers.filter (·.seqNum ≤ squashedNum) = s.barriers ∧
        ∀ b ∈ s.barriers, b.seqNum ≤ squashedNum := by
    rcases hall with hall | hall
    · exact .inl (filter_eq_nil_iff.2 fun b hb => by simpa using hall b hb)
    · exact .inr ⟨filter_eq_self.2 fun b hb => by simpa using hall b hb, hall⟩
  have htracks {kind : MemInst → Bool} {flag flag' : Bool} {sn : ℕ}
      (ht : Tracks s.barriers kind flag sn) (himp : flag → sn ≤ squashedNum → flag') :
      Tracks (s.barriers.filter (·.seqNum ≤ squashedNum)) kind flag' sn := by
    rcases hbarriers with hnil | ⟨hself, hle⟩
    · rw [hnil]
      intro b hb
      cases hb
    · rw [hself]
      intro b hb hbk
      obtain ⟨hflag, hble, b', hb', hbk', rfl⟩ := ht b hb hbk
      exact ⟨himp hflag (hle b' hb'), hble, b', hb', hbk', rfl⟩
  refine hinv.removes (fun n => decide (n ≤ squashedNum)) hlist ?_ (fun k n hn => hdepends k ▸ hn)
    (fun n hn => .inl (hready n hn)) (fun b hb => mem_filter.1 hb) ?_ (fun x _ => hdepends _)
    ⟨hlsn ▸ htracks hinv.load hl, hssn ▸ htracks hinv.store hs⟩
  · intro n
    rw [hhash]
    simp
  · intro b hb x hx _
    rcases hbarriers with hnil | ⟨hself, -⟩
    · rw [hnil] at hb
      cases hb
    · rwa [hself]

lemma Inv.step {op : MemDepOp} (hinv : s.Inv) (hlegal : s.Legal op) (horder : s.KeepsOrder op)
    (h : s.call op = .ok s') : Keeps s s' := by
  cases op with
  | insertBarrier inst =>
    cases h
    have hins := insertBarrier_inserts s.unit inst
    have hbarriers : ∀ b ∈ s.barriers ++ [inst], b ∈ s.barriers ∨ b.seqNum = inst.seqNum := by
      intro b hb
      rcases mem_append.1 hb with hb | hb
      · exact .inl hb
      · exact .inr (by rw [mem_singleton.1 hb])
    have hle : ∀ b ∈ s.barriers, b.seqNum ≤ inst.seqNum := fun b hb =>
      (hinv.barrier_le b hb).trans (Nat.le_of_lt hlegal)
    refine hinv.inserts hins hlegal (fun b hb => mem_append_left _ hb) hbarriers ?_
    rw [insertBarrier]
    split_ifs with hmem hwrite
    · exact ⟨tracks_append_self hle hmem, tracks_append_self hle (by simp [blocksStores, hmem])⟩
    · exact ⟨hinv.load.append (by simpa using hmem),
        tracks_append_self hle (by simp [blocksStores, hwrite])⟩
    · exact ⟨hinv.load.append (by simpa using hmem),
        hinv.store.append (by simp [blocksStores, hmem, hwrite])⟩
  | insert inst checkInst =>
    obtain ⟨u', hu', ⟨⟩⟩ := bind_pure_eq_ok.1 h
    have hn : s.lastSN < inst.seqNum := hlegal.1
    obtain ⟨hins, hsame, -⟩ := insert_spec hu'
      (fun k hk => (hinv.depends_le k _ hk).not_gt hn)
      (fun hr => (hinv.ready_le _ (.inr hr)).not_gt hn)
    exact hinv.inserts hins hn (fun b hb => hb) (fun b hb => .inl hb) (hinv.sameBarriers hsame)
  | insertNonSpec inst =>
    obtain ⟨u', hu', ⟨⟩⟩ := bind_pure_eq_ok.1 h
    obtain ⟨hins, hsame⟩ := insertNonSpec_spec hu'
    exact hinv.inserts hins hlegal (fun b hb => hb) (fun b hb => .inl hb) (hinv.sameBarriers hsame)
  | regsReady inst =>
    obtain ⟨u', hu', ⟨⟩⟩ := bind_pure_eq_ok.1 h
    have hwakes := regsReady_wakes hu'
    exact hinv.removes (fun _ => true) (by simp [hwakes.list]) (by simp [hwakes.hash])
      (fun k n hn => hwakes.depends k ▸ hn)
      (fun n hn => .inl ((hwakes.ready n hn).resolve_right (by simp))) (fun b hb => ⟨hb, rfl⟩)
      (fun _ _ _ hx _ => hx) (fun x _ => hwakes.depends _) (hinv.sameBarriers hwakes.barriers)
  | completeBarrier inst =>
    obtain ⟨u', hu', ⟨⟩⟩ := bind_pure_eq_ok.1 h
    exact hinv.completeBarrier horder hu'
  | completed inst =>
    obtain ⟨u', hu', ⟨⟩⟩ := bind_pure_eq_ok.1 h
    cases completed_eq_ok hu'
    exact hinv.removes _ (hinv.erase_eq inst.seqNum) (hinv.update_hash inst.seqNum)
      (fun _ _ hk => hk) (fun _ => .inl) (fun b hb => ⟨hb, decide_eq_true (hlegal b hb)⟩)
      (fun _ _ _ hx _ => hx) (fun _ _ => rfl) ⟨hinv.load, hinv.store⟩
  | wakeDependents inst =>
    obtain ⟨u', hu', ⟨⟩⟩ := bind_pure_eq_ok.1 h
    obtain ⟨hhash, hlist, hsame, hless, hdepends, hready⟩ := wakeDependents_spec hu'
    exact hinv.removes (fun _ => true) (by simp [hlist]) (by simp [hhash]) hless
      (fun n hn => (hready n hn).imp_right fun hk => ⟨inst.seqNum, hk, hlegal⟩)
      (fun b hb => ⟨hb, rfl⟩) (fun _ _ _ hx _ => hx) (fun x hx => hdepends _ (hlegal x hx))
      (hinv.sameBarriers hsame)
  | squash squashedNum =>
    obtain ⟨u', hu', ⟨⟩⟩ := bind_pure_eq_ok.1 h
    exact hinv.squash horder hu'

end Keeps

/-! ### Runs -/

/-- Calls in program order. -/
def LegalStep : MemDepState → MemDepOp → MemDepState → Prop := Guarded Legal call

/-- Calls in program order, with barriers that complete in order and that no squash parts. -/
def OrderedStep : MemDepState → MemDepOp → MemDepState → Prop :=
  Guarded (fun s op => s.Legal op ∧ s.KeepsOrder op) call

variable {s : MemDepState}

lemma Inv.exec {s₀ : MemDepState} (hinv : s₀.Inv) {ops : List MemDepOp}
    (h : Exec OrderedStep s₀ ops s) : Keeps s₀ s :=
  h.invariant_state (I := Keeps s₀) ⟨hinv, id, id⟩ fun hs hstep =>
    have hs' := hs.inv.step hstep.1.1 hstep.1.2 hstep.2
    ⟨hs'.inv, fun hi => hs'.held (hs.held hi), fun hi => hs'.never (hs.never hi)⟩

lemma Inv.exists_producing (hinv : s.Inv) {inst b : MemInst} (checkInst : ℕ)
    (hkind : inst.isStore → inst.isLoad = false ∧ inst.isAtomic = false) (hb : b ∈ s.barriers)
    (hblocks : b.Blocks inst) : b.seqNum ≤ s.unit.producingStore inst checkInst ∧
      ∃ b' ∈ s.barriers, b'.seqNum = s.unit.producingStore inst checkInst := by
  rw [MemDepUnit.producingStore]
  rcases hblocks with ⟨hload, hmem⟩ | ⟨hstore, hbar⟩
  · obtain ⟨hflag, hle, b', hb', -, hsn⟩ := hinv.load b hb hmem
    rw [if_pos (by simpa [hflag] using hload)]
    exact ⟨hle, b', hb', hsn⟩
  · obtain ⟨hload, hatomic⟩ := hkind hstore
    obtain ⟨hflag, hle, b', hb', -, hsn⟩ := hinv.store b hb (by simpa [blocksStores] using hbar)
    rw [if_neg (by simp [hload, hatomic]), if_pos (by simp [hstore, hflag])]
    exact ⟨hle, b', hb', hsn⟩

/-- A memory instruction that is inserted while older barriers block it depends on a barrier in
flight, and is held for each of them. -/
lemma Inv.insert_held {s' : MemDepState} (hinv : s.Inv) {inst : MemInst} {checkInst : ℕ}
    (hlegal : s.Legal (.insert inst checkInst)) (h : s.call (.insert inst checkInst) = .ok s') :
    ∀ b ∈ s.barriers, b.Blocks inst → Held inst.seqNum b s' ∧
      ∃ b' ∈ s.barriers, inst.seqNum ∈ (s'.unit.entry b'.seqNum).dependInsts := by
  intro b hb hblocks
  obtain ⟨hn, hkind⟩ := hlegal
  obtain ⟨u', hu', ⟨⟩⟩ := bind_pure_eq_ok.1 h
  obtain ⟨hle, b', hb', hsn⟩ := hinv.exists_producing checkInst hkind hb hblocks
  obtain ⟨-, -, hdep⟩ := insert_spec hu'
    (fun k hk => (hinv.depends_le k _ hk).not_gt hn)
    (fun hr => (hinv.ready_le _ (.inr hr)).not_gt hn)
  have hlt := hinv.barrier_le b' hb'
  obtain ⟨hmem, huniq, hready⟩ := hdep (hsn ▸ (hinv.barrier_mem b' hb').2) (by omega)
    (hsn ▸ (hinv.hash _).2 (hinv.barrier_mem b' hb').1)
  rw [← hsn] at hmem huniq hle
  refine ⟨⟨?_, le_rfl, fun _ => ⟨hready, b', hb', hle, hmem, huniq⟩⟩, b', hb', hmem⟩
  omega

/-- In every run in which barriers complete in order and no squash parts them, a memory instruction
that is inserted while older barriers block it depends on a barrier in flight, and does not become
ready as long as one of them is in flight.  An instruction that is not speculative does not become
ready by any of the calls. -/
theorem insert_waits (ops : List MemDepOp) (s : MemDepState) (h : Exec OrderedStep init ops s)
    (inst : MemInst) (s₁ : MemDepState) :
    (∀ checkInst, OrderedStep s (.insert inst checkInst) s₁ →
      ((∃ b ∈ s.barriers, b.Blocks inst) →
        ∃ b ∈ s.barriers, inst.seqNum ∈ (s₁.unit.entry b.seqNum).dependInsts) ∧
      ∀ ops' s₂, Exec OrderedStep s₁ ops' s₂ → ∀ b ∈ s.barriers, b.Blocks inst →
        b ∈ s₂.barriers → ¬ s₂.unit.Ready inst.seqNum) ∧
    (OrderedStep s (.insertNonSpec inst) s₁ →
      ∀ ops' s₂, Exec OrderedStep s₁ ops' s₂ → ¬ s₂.unit.Ready inst.seqNum) := by
  have hinv := (inv_init.exec h).inv
  constructor
  · rintro checkInst ⟨⟨hlegal, horder⟩, hcall⟩
    have hheld := hinv.insert_held hlegal hcall
    refine ⟨fun ⟨b, hb, hblocks⟩ => (hheld b hb hblocks).2,
      fun ops' s₂ hexec b hb hblocks hb2 => ?_⟩
    have hkeeps := (hinv.step hlegal horder hcall).inv.exec hexec
    exact ((hkeeps.held (hheld b hb hblocks).1).waits hb2).1
  · rintro ⟨⟨hlegal, horder⟩, hcall⟩ ops' s₂ hexec
    have hnever : Never inst.seqNum s₁ := by
      obtain ⟨u', hu', ⟨⟩⟩ := bind_pure_eq_ok.1 hcall
      cases checkType_eq_ok hu'
      refine ⟨le_rfl, fun hr => ?_, fun k hk => ?_⟩
      · have : inst.seqNum ∈ s.unit.readyMemInsts := by simpa [Ready, addEntry] using hr
        exact (hinv.ready_le _ (.inr this)).not_gt hlegal
      · by_cases hkn : k = inst.seqNum
        · simp [addEntry, hkn] at hk
        · exact (hinv.depends_le k _ (by simpa [addEntry, hkn] using hk)).not_gt hlegal
    exact (((hinv.step hlegal horder hcall).inv.exec hexec).never hnever).not_ready

def memBarrier (seqNum : ℕ) : MemInst := ⟨seqNum, false, false, false, true, false, false⟩

/-- A load with registers that are ready. -/
def readyLoad (seqNum : ℕ) : MemInst := ⟨seqNum, true, false, false, false, false, true⟩

theorem insert_waits_load :
    ∃ s s₁, OrderedStep s (.insert (readyLoad 2) 0) s₁ ∧ memBarrier 1 ∈ s.barriers ∧
      (∃ b ∈ s.barriers, 2 ∈ (s₁.unit.entry b.seqNum).dependInsts) ∧
      ∀ ops' s₂, Exec OrderedStep s₁ ops' s₂ → memBarrier 1 ∈ s₂.barriers →
        ¬ s₂.unit.Ready 2 := by
  have hexec : Exec OrderedStep init [.insertBarrier (memBarrier 1)]
      ⟨MemDepUnit.init.insertBarrier (memBarrier 1), [memBarrier 1], 1⟩ :=
    Exec.nil.snoc ⟨⟨by decide, trivial⟩, rfl⟩
  have hstep : OrderedStep ⟨MemDepUnit.init.insertBarrier (memBarrier 1), [memBarrier 1], 1⟩
      (.insert (readyLoad 2) 0) _ := ⟨⟨by decide, trivial⟩, rfl⟩
  have hblocks : (memBarrier 1).Blocks (readyLoad 2) := .inl ⟨.inl rfl, rfl⟩
  obtain ⟨hdep, hlater⟩ := (insert_waits _ _ hexec (readyLoad 2) _).1 0 hstep
  exact ⟨_, _, hstep, mem_singleton_self _, hdep ⟨_, mem_singleton_self _, hblocks⟩,
    fun ops' s₂ h => hlater ops' s₂ h _ (mem_singleton_self _) hblocks⟩

/-- The younger one of two barriers is squashed, and a load does not wait for the older one. -/
theorem not_insert_waits : ¬ ∀ (ops : List MemDepOp) (s : MemDepState), Exec LegalStep init ops s →
    ∀ (inst : MemInst) (checkInst : ℕ) (s₁ : MemDepState),
      LegalStep s (.insert inst checkInst) s₁ → (∃ b ∈ s.barriers, b.Blocks inst) →
        (∃ b ∈ s.barriers, inst.seqNum ∈ (s₁.unit.entry b.seqNum).dependInsts) ∧
        ∀ b ∈ s.barriers, b.Blocks inst → ¬ s₁.unit.Ready inst.seqNum := by
  intro hall
  have hs : Exec LegalStep init
      [.insertBarrier (memBarrier 1), .insertBarrier (memBarrier 2), .squash 1] _ :=
    exec_of_replay rfl
  have hblocks : (memBarrier 1).Blocks (readyLoad 3) := .inl ⟨.inl rfl, rfl⟩
  obtain ⟨-, hnot⟩ := hall _ _ hs (readyLoad 3) 0 _ ⟨⟨by decide, by decide⟩, rfl⟩
    ⟨_, mem_singleton_self _, hblocks⟩
  exact hnot _ (mem_singleton_self _) hblocks (.inl rfl)

end MemDepState

end ChipletGem5.O3
