import ChipletGem5.Base.AddrRangeCache

/-!
# Lookups of the address range map against a linear scan

In a map whose ranges have no address in common, `AddrRangeMap::contains` is to return the entry
with an address, which `scan` finds by trying all of them.  There are two reasons why it may not.
The map is sorted by the start of the ranges and their match values, and the range looked up has
the match value 0.  If the address is the common start of interleaved ranges, the upper bound is
the first of these with a match value above 0, and the entries behind it are not inspected.  For
the largest address the end of the range looked up wraps around to 0.
-/

namespace ChipletGem5.AddrRangeMap

open AddrRange List Except

variable {V : Type} {maxCacheSize : ℕ} {m m' : AddrRangeMap V maxCacheSize}

/-- The entry that contains an address, by a scan of all entries. -/
def scan (m : AddrRangeMap V maxCacheSize) (a : Addr) : Option ℕ :=
  (m.tree.nodes.find? fun n => n.key.contains a).map Node.id

/-! ### Maps of disjoint ranges -/

/-- The calls that build a map of disjoint ranges, and the lookups in between. -/
def KeepsDisjoint (m : AddrRangeMap V maxCacheSize) : Call V → Prop
  | .insert r _ => r.NonEmpty ∧ ∀ n ∈ m.tree.nodes, r.Disjoint n.key
  | .eraseRange _ _ => False
  | _ => True

variable {r : AddrRange} {it : Option ℕ} {n : Node AddrRange V} {d : V} {a : Addr}

lemma keepsDisjoint_insert (hr : r.NonEmpty)
    (h : ∀ n ∈ m.tree.nodes, r.endAddr ≤ n.key.start ∨ n.key.endAddr ≤ r.start ∨
      r.mergesWith n.key ∧ r.intlvMatch ≠ n.key.intlvMatch) :
    KeepsDisjoint m (.insert r d) := by
  refine ⟨hr, fun n hn => ?_⟩
  rcases h n hn with hbefore | hbehind | ⟨hmerge, hne⟩
  · exact disjoint_of_end_le hbefore
  · exact (disjoint_of_end_le hbehind).symm
  · exact disjoint_of_mergesWith hmerge hne

/-- The ranges of a map are not empty, and have no address in common. -/
structure RangesDisjoint (m : AddrRangeMap V maxCacheSize) : Prop where
  nonEmpty : ∀ n ∈ m.tree.nodes, n.key.NonEmpty
  disjoint : ∀ n ∈ m.tree.nodes, ∀ n' ∈ m.tree.nodes, n ≠ n' → n.key.Disjoint n'.key

lemma RangesDisjoint.of_subset (h : RangesDisjoint m) (hsub : m'.tree.nodes ⊆ m.tree.nodes) :
    RangesDisjoint m' :=
  ⟨fun n hn => h.nonEmpty n (hsub hn),
    fun n hn n' hn' => h.disjoint n (hsub hn) n' (hsub hn')⟩

lemma RangesDisjoint.found {cond : AddrRange → Except AddrRange.Panic Bool}
    (h : RangesDisjoint m) (hf : Found m r cond it m') : RangesDisjoint m' :=
  h.of_subset (by rw [hf.tree_eq]; exact List.Subset.refl _)

lemma RangesDisjoint.insert (h : RangesDisjoint m)
    (hr : r.NonEmpty) (hdisj : ∀ n ∈ m.tree.nodes, r.Disjoint n.key)
    (hi : m.insert r d = .ok (it, m')) : RangesDisjoint m' := by
  obtain ⟨it1, m1, hf, rfl | ⟨-, rfl⟩⟩ := insert_eq_ok hi
  · exact h.found hf
  · have h1 := h.found hf
    rw [← hf.tree_eq] at hdisj
    -- every node is an old one, or the new one
    have hcases : ∀ n ∈ (m1.tree.insert r d).2.nodes, n ∈ m1.tree.nodes ∨
        n = ⟨m1.tree.fresh, r, d⟩ := fun n hn => (NodeMap.mem_insert.1 hn).imp id And.right
    constructor
    · intro n hn
      rcases hcases n hn with hn | rfl
      · exact h1.nonEmpty n hn
      · exact hr
    · intro n hn n' hn' hne
      rcases hcases n hn with hn | rfl <;> rcases hcases n' hn' with hn' | rfl
      · exact h1.disjoint n hn n' hn' hne
      · exact (hdisj n hn).symm
      · exact hdisj n' hn'
      · exact absurd rfl hne

lemma RangesDisjoint.call {c : Call V} (h : RangesDisjoint m) (hc : KeepsDisjoint m c)
    (hcall : m.call c = .ok m') : RangesDisjoint m' := by
  cases c with
  | insert r d =>
    obtain ⟨it, hi⟩ := exists_of_map_snd hcall
    exact h.insert hc.1 hc.2 hi
  | contains _ | containsRange _ | intersects _ =>
    obtain ⟨it, hf⟩ := exists_of_map_snd hcall
    exact h.found (find_eq_ok hf)
  | erase p =>
    obtain ⟨i, -, rfl⟩ := erase_eq_ok hcall
    exact h.of_subset filter_sublist.subset
  | eraseRange p q => exact hc.elim
  | clear =>
    cases (ok.inj hcall).symm
    exact h.of_subset filter_sublist.subset

lemma Built.rangesDisjoint (hm : Built KeepsDisjoint m) : RangesDisjoint m := by
  induction hm with
  | empty => exact ⟨by rintro n ⟨⟩, by rintro n ⟨⟩⟩
  | call hm c hc hcall ih => exact ih.call hc hcall

lemma Built.cacheSound_of_keepsDisjoint (hm : Built KeepsDisjoint m) : CacheSound m :=
  hm.cacheSound fun m c hc => by
    cases c with
    | eraseRange p q => exact hc.elim
    | _ => trivial

/-! ### The inspected entries -/

lemma not_lt_of_first {i : Node AddrRange V} {rest : List (Node AddrRange V)}
    (hl : (i :: rest).Pairwise fun n n' => n'.key.lt n.key) :
    ∀ f ∈ i :: rest, ¬ i.key.lt f.key := by
  intro f hf hlt
  rcases mem_cons.1 hf with rfl | hf
  · exact lt_irrefl _ hlt
  · exact lt_irrefl _ (lt_trans hlt ((pairwise_cons.1 hl).1 f hf))

lemma mem_chain {i : Node AddrRange V} {rest : List (Node AddrRange V)}
    (hl : (i :: rest).Pairwise fun n n' => n'.key.lt n.key) :
    n ∈ chain i rest ↔
      n ∈ i :: rest ∧ ∀ f ∈ i :: rest, n.key.lt f.key → f.key.mergesWith n.key := by
  induction rest generalizing i with
  | nil =>
    constructor
    · intro hn
      cases mem_singleton.1 hn
      exact ⟨hn, fun f hf hlt => absurd hlt (not_lt_of_first hl f hf)⟩
    · exact And.left
  | cons next rest ih =>
    obtain ⟨hi, hrest⟩ := pairwise_cons.1 hl
    obtain ⟨hnext, -⟩ := pairwise_cons.1 hrest
    have hmem : ∀ f ∈ next :: rest, f ∈ i :: next :: rest := fun f => mem_cons_of_mem i
    -- the entry before `i` merges with every entry that the loop gets to behind it
    have hstep : n ∈ next :: rest →
        (∀ f ∈ next :: rest, n.key.lt f.key → f.key.mergesWith n.key) →
        next.key.mergesWith n.key := by
      intro hn hmerges
      rcases mem_cons.1 hn with rfl | hn
      · exact mergesWith_refl _
      · exact hmerges next mem_cons_self (hnext n hn)
    rw [chain]
    by_cases hmerge : next.key.mergesWith i.key
    · rw [if_pos hmerge, mem_cons, ih hrest]
      constructor
      · rintro (rfl | ⟨hn, hmerges⟩)
        · exact ⟨mem_cons_self, fun f hf hlt => absurd hlt (not_lt_of_first hl f hf)⟩
        · refine ⟨hmem n hn, fun f hf hlt => ?_⟩
          rcases mem_cons.1 hf with rfl | hf
          · exact mergesWith_trans (mergesWith_comm.1 hmerge)
              (hstep hn hmerges)
          · exact hmerges f hf hlt
      · rintro ⟨hn, hmerges⟩
        exact (mem_cons.1 hn).imp id fun hn => ⟨hn, fun f hf => hmerges f (hmem f hf)⟩
    · rw [if_neg hmerge, mem_singleton]
      constructor
      · rintro rfl
        exact ⟨mem_cons_self, fun f hf hlt => absurd hlt (not_lt_of_first hl f hf)⟩
      · rintro ⟨hn, hmerges⟩
        rcases mem_cons.1 hn with rfl | hn
        · rfl
        · have hin := hmerges i mem_cons_self (hi n hn)
          have hnn := hstep hn fun f hf => hmerges f (hmem f hf)
          exact absurd (mergesWith_trans hnn (mergesWith_comm.1 hin)) hmerge

lemma mem_chainFrom {l : List (Node AddrRange V)} (hl : l.Pairwise fun n n' => n'.key.lt n.key) :
    n ∈ chainFrom l ↔ n ∈ l ∧ ∀ f ∈ l, n.key.lt f.key → f.key.mergesWith n.key := by
  rcases l with _ | ⟨i, rest⟩
  · simp [chainFrom]
  · exact mem_chain hl

/-- An entry at which a lookup of a range arrives, if no other entry meets its condition: it is
in the cache, or the least entry above the range, or below the range, and all entries in between
merge with it. -/
def Reaches (m : AddrRangeMap V maxCacheSize) (r : AddrRange) (n : Node AddrRange V) : Prop :=
  n.id ∈ m.cache ∨
    (r.lt n.key ∧ ∀ f ∈ m.tree.nodes, r.lt f.key → ¬ f.key.lt n.key) ∨
    (¬ r.lt n.key ∧ ∀ f ∈ m.tree.nodes, ¬ r.lt f.key → n.key.lt f.key → f.key.mergesWith n.key)

instance (m : AddrRangeMap V maxCacheSize) (r : AddrRange) (n : Node AddrRange V) :
    Decidable (Reaches m r n) := by
  unfold Reaches
  infer_instance

lemma reaches_iff (hn : n ∈ m.tree.nodes) :
    Reaches m r n ↔ n.id ∈ m.cache ∨ n ∈ inspected m.tree r := by
  have hsorted : (m.tree.before r).reverse.Pairwise fun n n' => n'.key.lt n.key :=
    pairwise_reverse.2 (m.tree.sorted.sublist (takeWhile_sublist _))
  rw [Reaches, inspected, mem_append, Option.mem_toList, NodeMap.head?_after, mem_chainFrom hsorted]
  simp only [mem_reverse, NodeMap.mem_before, hn, true_and, and_imp]

lemma Found.reaches {cond : AddrRange → Except AddrRange.Panic Bool} (h : Found m r cond it m') :
    (∀ i, it = some i → ∃ n ∈ m.tree.nodes, n.id = i ∧ cond n.key = .ok true ∧ Reaches m r n) ∧
      (it = none → ∀ n ∈ m.tree.nodes, Reaches m r n → cond n.key = .ok false) := by
  cases h with
  | @cached n rest hn hcond hperm =>
    refine ⟨?_, by simp⟩
    rintro i ⟨⟩
    exact ⟨n, hn, rfl, hcond, .inl (hperm.mem_iff.2 mem_cons_self)⟩
  | @tree n hn hcond hcache =>
    refine ⟨?_, by simp⟩
    rintro i ⟨⟩
    have hnode := inspected_subset _ _ hn
    exact ⟨n, hnode, rfl, hcond, (reaches_iff hnode).2 (.inr hn)⟩
  | missed hcache htree =>
    refine ⟨by simp, fun _ n hn hr => ?_⟩
    rcases (reaches_iff hn).1 hr with hr | hr
    · exact hcache n hn hr
    · exact htree n hr

/-! ### Lookups of an address -/

lemma scan_eq_some (h : RangesDisjoint m)
    (hn : n ∈ m.tree.nodes) (ha : n.key.contains a) : m.scan a = some n.id := by
  unfold scan
  rcases hf : m.tree.nodes.find? fun n => n.key.contains a with _ | n'
  · exact absurd ha (List.find?_eq_none.1 hf n hn)
  · have ha' : n'.key.contains a := by simpa using List.find?_some hf
    have heq : n' = n := by
      by_contra hne
      exact h.disjoint n' (mem_of_find?_eq_some hf) n hn hne a ⟨ha', ha⟩
    rw [hf, heq, Option.map_some]

lemma scan_eq_none : m.scan a = none ↔ ∀ n ∈ m.tree.nodes, n.key.contains a = false := by
  simp [scan]

lemma scan_max (m : AddrRangeMap V maxCacheSize) : m.scan MaxAddr = none :=
  scan_eq_none.2 fun n _ => n.key.not_contains_max

/-- When `contains` agrees with a scan.  A lookup of the largest address has to miss the plain
ranges, those in the cache and the last entry of the tree.  A lookup of another address has to
arrive at the entry that contains it. -/
def LookupExact (m : AddrRangeMap V maxCacheSize) (a : Addr) : Prop :=
  if a = MaxAddr then
    (∀ n ∈ m.tree.nodes, n.id ∈ m.cache → n.key.interleaved) ∧
      ∀ n ∈ m.tree.nodes.getLast?, n.key.interleaved
  else ∀ n ∈ m.tree.nodes, n.key.contains a → Reaches m (RangeSize a 1) n

instance (m : AddrRangeMap V maxCacheSize) (a : Addr) : Decidable (LookupExact m a) := by
  unfold LookupExact
  infer_instance

lemma found_eq_scan_iff (h : RangesDisjoint m) (ha : a ≠ MaxAddr)
    (hf : Found m (RangeSize a 1) (RangeSize a 1).isSubset it m') :
    it = m.scan a ↔ ∀ n ∈ m.tree.nodes, n.key.contains a → Reaches m (RangeSize a 1) n := by
  obtain ⟨hsome, hnone⟩ := hf.reaches
  have hcond : ∀ n ∈ m.tree.nodes, (RangeSize a 1).isSubset n.key = .ok (n.key.contains a) :=
    fun n hn => isSubset_rangeSize (h.nonEmpty n hn) ha
  constructor
  · intro hit n hn hna
    rw [scan_eq_some h hn hna] at hit
    obtain ⟨n', hn', hid, -, hr⟩ := hsome n.id hit
    rwa [← NodeMap.eq_of_id_eq hn' hn hid]
  · intro hr
    rcases it with _ | i
    · symm
      refine scan_eq_none.2 fun n hn => ?_
      rcases hna : n.key.contains a with _ | _
      · rfl
      · have hmiss := hnone rfl n hn (hr n hn hna)
        rw [hcond n hn, hna] at hmiss
        cases hmiss
    · obtain ⟨n, hn, rfl, hsub, -⟩ := hsome i rfl
      rw [hcond n hn] at hsub
      exact (scan_eq_some h hn (ok.inj hsub)).symm

lemma not_rangeSize_max_lt (h : RangesDisjoint m)
    (hn : n ∈ m.tree.nodes) : ¬ (RangeSize MaxAddr 1).lt n.key := by
  have hlt := (h.nonEmpty n hn).start_lt
  rw [lt_iff]
  simp only [RangeSize, MaxAddr, BitVec.lt_def, ← BitVec.toNat_inj, BitVec.toNat_allOnes] at *
  omega

lemma found_max_eq_none_iff (h : RangesDisjoint m)
    (hf : Found m (RangeSize MaxAddr 1) (RangeSize MaxAddr 1).isSubset it m') :
    it = none ↔ (∀ n ∈ m.tree.nodes, n.id ∈ m.cache → n.key.interleaved) ∧
      ∀ n ∈ m.tree.nodes.getLast?, n.key.interleaved := by
  obtain ⟨hsome, hnone⟩ := hf.reaches
  -- all entries but the last are less than the last one
  have hlast : ∀ l ∈ m.tree.nodes.getLast?, ∀ f ∈ m.tree.nodes, f = l ∨ f.key.lt l.key := by
    intro l hl f hf
    obtain ⟨init, hinit⟩ := List.getLast?_eq_some_iff.1 hl
    have hsorted := m.tree.sorted
    rw [hinit] at hf hsorted
    rcases mem_append.1 hf with hf | hf
    · exact .inr ((pairwise_append.1 hsorted).2.2 f hf l (mem_singleton_self l))
    · exact .inl (mem_singleton.1 hf)
  constructor
  · intro hit
    have hinter : ∀ n ∈ m.tree.nodes, Reaches m (RangeSize MaxAddr 1) n → n.key.interleaved := by
      intro n hn hr
      have hmiss := hnone hit n hn hr
      rw [isSubset_rangeSize_max] at hmiss
      simpa using ok.inj hmiss
    refine ⟨fun n hn hc => hinter n hn (.inl hc), fun l hl => ?_⟩
    have hmem : l ∈ m.tree.nodes := mem_of_getLast? hl
    refine hinter l hmem (.inr (.inr ⟨not_rangeSize_max_lt h hmem, fun f hf _ hlt => ?_⟩))
    rcases hlast l hl f hf with rfl | hlt'
    · exact absurd hlt (lt_irrefl _)
    · exact absurd (lt_trans hlt hlt') (lt_irrefl _)
  · rintro ⟨hcache, htree⟩
    rcases it with _ | i
    · rfl
    · exfalso
      obtain ⟨n, hn, -, hsub, hr⟩ := hsome i rfl
      rw [isSubset_rangeSize_max] at hsub
      have hplain : n.key.interleaved = false := by simpa using ok.inj hsub
      rcases hr with hr | ⟨hr, -⟩ | ⟨-, hr⟩
      · simp [hcache n hn hr] at hplain
      · exact not_rangeSize_max_lt h hn hr
      · -- the last entry merges with the one found
        obtain ⟨l, hl⟩ : ∃ l, m.tree.nodes.getLast? = some l :=
          ⟨_, List.getLast?_eq_some_getLast (ne_nil_of_mem hn)⟩
        have hmem : l ∈ m.tree.nodes := mem_of_getLast? hl
        rcases hlast l hl n hn with rfl | hlt
        · simp [htree n hl] at hplain
        · have hmerge := hr l hmem (not_rangeSize_max_lt h hmem) hlt
          rw [interleaved_eq_of_mergesWith hmerge, htree l hl] at hplain
          cases hplain

/-- In a map of disjoint ranges, `contains` agrees with a scan of all entries just for the
addresses of `LookupExact`. -/
theorem contains_eq_scan_iff (hm : Built KeepsDisjoint m) (a : Addr) :
    (∃ m', m.contains a = .ok (m.scan a, m')) ↔ LookupExact m a := by
  have h := hm.rangesDisjoint
  -- the lookup returns, since the range looked up is not interleaved
  have hok : ∀ n ∈ m.tree.nodes, ∃ b, (RangeSize a 1).isSubset n.key = .ok b := by
    intro n hn
    by_cases ha : a = MaxAddr
    · exact ⟨_, ha ▸ isSubset_rangeSize_max n.key⟩
    · exact ⟨_, isSubset_rangeSize (h.nonEmpty n hn) ha⟩
  obtain ⟨it, m1, hfind⟩ := find_returns hm.cacheSound_of_keepsDisjoint.valid hok (RangeSize a 1)
  have hf := find_eq_ok hfind
  have hres : (∃ m', m.contains a = .ok (m.scan a, m')) ↔ it = m.scan a := by
    constructor
    · rintro ⟨m', hm'⟩
      exact congrArg Prod.fst (ok.inj (hfind.symm.trans hm'))
    · rintro rfl
      exact ⟨m1, hfind⟩
  rw [hres, LookupExact]
  by_cases ha : a = MaxAddr
  · subst ha
    rw [scan_max]
    exact found_max_eq_none_iff h hf
  · rw [if_neg ha]
    exact found_eq_scan_iff h ha hf

/-- A set of ranges interleaved by the bits 8 and 9, whose start has bit 9 set. -/
def quarter (i : BitVec 8) : AddrRange := ⟨0x200, 0x600, [0x100, 0x200], i⟩

lemma quarter_nonEmpty (i : BitVec 8) : (quarter i).NonEmpty :=
  ⟨show (0x200 : Addr) < 0x600 by decide, fun h => by cases h⟩

lemma keepsDisjoint_quarter {i : BitVec 8} {l : List (BitVec 8)}
    (hl : m.tree.nodes.map Node.key = l.map quarter) (hi : i ∉ l) :
    KeepsDisjoint m (.insert (quarter i) d) := by
  refine keepsDisjoint_insert (quarter_nonEmpty i) fun n hn => .inr (.inr ?_)
  have hkey : n.key ∈ l.map quarter := hl ▸ mem_map_of_mem hn
  obtain ⟨j, hj, hkey⟩ := mem_map.1 hkey
  rw [← hkey]
  refine ⟨rfl, ?_⟩
  rintro rfl
  exact hi hj

/-- The whole set of ranges, in a map without a cache. -/
def quarters : AddrRangeMap ℕ 0 where
  tree :=
    { nodes := [⟨0, quarter 0, 10⟩, ⟨1, quarter 1, 11⟩, ⟨2, quarter 2, 12⟩, ⟨3, quarter 3, 13⟩]
      fresh := 4
      sorted := by decide
      nodup_ids := by decide
      id_lt := by decide }
  cache := []

lemma built_quarters : Built KeepsDisjoint quarters :=
  (((Built.empty.call
    (.insert (quarter 0) 10) (keepsDisjoint_quarter (l := []) rfl (by simp)) rfl).call
    (.insert (quarter 1) 11) (keepsDisjoint_quarter (l := [0]) rfl (by decide)) rfl).call
    (.insert (quarter 2) 12) (keepsDisjoint_quarter (l := [0, 1]) rfl (by decide)) rfl).call
    (.insert (quarter 3) 13) (keepsDisjoint_quarter (l := [0, 1, 2]) rfl (by decide)) rfl

/-- The address 0x300 is in the range with match value 3, and `contains` finds it. -/
theorem contains_eq_scan_quarters :
    quarters.scan 0x300 = some 3 ∧ ∃ m', quarters.contains 0x300 = .ok (some 3, m') :=
  ⟨rfl, (contains_eq_scan_iff built_quarters 0x300).2 (by decide)⟩

/-- The address 0x200 is in the range with match value 2, and `contains` does not find it: the
upper bound is the entry with match value 1, and the entry before it the one with 0. -/
theorem contains_misses_start_of_quarters :
    Built KeepsDisjoint quarters ∧ quarters.scan 0x200 = some 2 ∧
      quarters.contains 0x200 = .ok (none, quarters) :=
  ⟨built_quarters, rfl, rfl⟩

end ChipletGem5.AddrRangeMap
