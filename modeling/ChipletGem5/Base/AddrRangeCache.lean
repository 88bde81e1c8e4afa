import ChipletGem5.Base.AddrRangeMap

/-!
# The cache of the address range map over whole runs

The header asks that the elements of the cache be valid iterators of the tree at all times.
`CacheSound` is that invariant, with the bound on the size of the cache and the absence of double
entries.  The removal of a range of entries does not keep it: the loop removes the first iterator
of the range from the cache in every turn, so that the other entries of the range stay there.
-/

namespace ChipletGem5.AddrRangeMap

open List

variable {V : Type} {maxCacheSize : ℕ} {m m' : AddrRangeMap V maxCacheSize}

/-- The cache has valid iterators only, none of them twice, and is not too long. -/
structure CacheSound (m : AddrRangeMap V maxCacheSize) : Prop where
  valid : ∀ c ∈ m.cache, m.tree.Valid c
  nodup : m.cache.Nodup
  length_le : m.cache.length ≤ maxCacheSize

lemma cacheSound_empty : CacheSound (empty : AddrRangeMap V maxCacheSize) :=
  ⟨by simp [empty], nodup_nil, Nat.zero_le _⟩

/-! ### Lookups -/

variable {cache : List ℕ} {r : AddrRange} {it p : Option ℕ}

/-- A new entry takes the place of another one if the cache is full. -/
lemma addNewEntryToCache_perm (it : ℕ) (h : cache.length ≤ maxCacheSize) :
    addNewEntryToCache maxCacheSize it cache = cache ∨
      ∃ kept, kept.Sublist cache ∧ kept.length < maxCacheSize ∧
        (addNewEntryToCache maxCacheSize it cache).Perm (it :: kept) := by
  have hlen : cache.dropLast.length = cache.length - 1 := length_dropLast
  unfold addNewEntryToCache
  split_ifs
  · exact .inr ⟨_, dropLast_sublist _, by omega, .refl _⟩
  · exact .inr ⟨_, dropLast_sublist _, by omega, perm_append_singleton ..⟩
  · exact .inr ⟨cache, .refl _, by omega, .refl _⟩
  · exact .inl rfl

lemma CacheSound.found {cond : AddrRange → Except AddrRange.Panic Bool}
    (h : CacheSound m) (hf : Found m r cond it m') : CacheSound m' := by
  cases hf with
  | @cached n rest hn hcond hperm =>
    exact ⟨fun c hc => h.valid c (hperm.mem_iff.2 hc), hperm.nodup_iff.1 h.nodup,
      hperm.length_eq ▸ h.length_le⟩
  | @tree n hn hcond hcache =>
    have hnode : n ∈ m.tree.nodes := inspected_subset _ _ hn
    -- the entry meets the condition, and those in the cache do not
    have hnew : n.id ∉ m.cache := by
      intro hmem
      rw [hcache n hnode hmem] at hcond
      cases hcond
    rcases addNewEntryToCache_perm n.id h.length_le with heq | ⟨kept, hsub, hlen, hperm⟩
    · rwa [heq]
    · refine ⟨fun c hc => ?_, hperm.nodup_iff.2 (nodup_cons.2
        ⟨fun hmem => hnew (hsub.subset hmem), h.nodup.sublist hsub⟩), hperm.length_eq ▸ hlen⟩
      rcases mem_cons.1 (hperm.mem_iff.1 hc) with rfl | hc
      · exact NodeMap.Valid.of_mem hnode
      · exact h.valid c (hsub.subset hc)
  | missed => exact h

/-! ### Insertion and removal -/

lemma insert_eq_ok {d : V} (h : m.insert r d = .ok (it, m')) :
    ∃ it1 m1, Found m r r.intersects it1 m1 ∧
      (m' = m1 ∨ it1 = none ∧ m' = { m1 with tree := (m1.tree.insert r d).2 }) := by
  unfold insert intersects at h
  rcases hf : m.find r r.intersects with e | ⟨_ | it1, m1⟩
  · rw [hf] at h
    cases h
  · rw [hf] at h
    refine ⟨none, m1, find_eq_ok hf, .inr ⟨rfl, ?_⟩⟩
    cases h
    rfl
  · rw [hf] at h
    refine ⟨some it1, m1, find_eq_ok hf, .inl ?_⟩
    cases h
    rfl

lemma CacheSound.insert {d : V} (h : CacheSound m)
    (hi : m.insert r d = .ok (it, m')) : CacheSound m' := by
  obtain ⟨it1, m1, hf, rfl | ⟨-, rfl⟩⟩ := insert_eq_ok hi
  · exact h.found hf
  · have h1 := h.found hf
    exact ⟨fun c hc => (h1.valid c hc).insert r d, h1.nodup, h1.length_le⟩

lemma mem_removeCached {c : ℕ} : c ∈ removeCached p cache ↔ c ∈ cache ∧ some c ≠ p := by
  simp [removeCached]

lemma CacheSound.of_sublist (h : CacheSound m) (hsub : m'.cache.Sublist m.cache)
    (hvalid : ∀ c ∈ m'.cache, m'.tree.Valid c) : CacheSound m' :=
  ⟨hvalid, h.nodup.sublist hsub, hsub.length_le.trans h.length_le⟩

lemma erase_eq_ok (h : m.erase p = .ok m') :
    ∃ i, p = some i ∧ m' = ⟨m.tree.remove [i], removeCached p m.cache⟩ := by
  unfold erase at h
  rcases p with _ | i
  · cases h
  · refine ⟨i, rfl, ?_⟩
    by_cases hi : i ∈ m.tree.nodes.map Node.id
    · rw [Option.bind_some, NodeMap.erase?, if_pos hi] at h
      cases h
      rfl
    · rw [Option.bind_some, NodeMap.erase?, if_neg hi] at h
      cases h

lemma CacheSound.erase (h : CacheSound m) (he : m.erase p = .ok m') : CacheSound m' := by
  obtain ⟨i, rfl, rfl⟩ := erase_eq_ok he
  refine h.of_sublist filter_sublist ?_
  intro c hc
  obtain ⟨hc, hne⟩ := mem_removeCached.1 hc
  refine NodeMap.valid_remove.2 ⟨h.valid c hc, ?_⟩
  rintro hmem
  exact hne (congrArg some (mem_singleton.1 hmem))

lemma cacheSound_clear (m : AddrRangeMap V maxCacheSize) : CacheSound m.clear :=
  ⟨by simp [clear], nodup_nil, Nat.zero_le _⟩

/-! ### Removal of a range -/

lemma foldl_removeCached (p : Option ℕ) {α : Type*} (l : List α) (cache : List ℕ) :
    l.foldl (fun cache _ => removeCached p cache) cache =
      if l = [] then cache else removeCached p cache := by
  induction l generalizing cache with
  | nil => rfl
  | cons x l ih =>
    rw [foldl_cons, ih]
    split
    · rfl
    · -- the second turn finds nothing to remove
      simp [removeCached, filter_filter]

lemma eraseRange_eq_ok {q : Option ℕ} (h : m.eraseRange p q = .ok m') :
    ∃ l, m.tree.range? p q = some l ∧ m'.tree = m.tree.remove (l.map Node.id) ∧
      m'.cache = if l = [] then m.cache else removeCached p m.cache := by
  unfold eraseRange at h
  rcases hl : m.tree.range? p q with _ | l
  · rw [hl] at h
    cases h
  · rw [hl] at h
    cases (Except.ok.inj h).symm
    exact ⟨l, rfl, rfl, foldl_removeCached p l m.cache⟩

/-- No entry of a range but the first is in the cache. -/
def OnlyFirstCached (m : AddrRangeMap V maxCacheSize) (p q : Option ℕ) : Prop :=
  ∀ l, m.tree.range? p q = some l → ∀ n ∈ l, n.id ∈ m.cache → some n.id = p

/-- Removing a range of entries keeps the cache sound just if none of them but the first is in
the cache. -/
lemma cacheSound_eraseRange_iff {q : Option ℕ} (h : CacheSound m)
    (he : m.eraseRange p q = .ok m') : CacheSound m' ↔ OnlyFirstCached m p q := by
  obtain ⟨l, hl, htree, hcache⟩ := eraseRange_eq_ok he
  constructor
  · intro h' l' hl' n hn hmem
    cases hl.symm.trans hl'
    by_contra hne
    have hkept : n.id ∈ m'.cache := by
      rw [hcache]
      split
      · exact hmem
      · exact mem_removeCached.2 ⟨hmem, hne⟩
    have hvalid := h'.valid n.id hkept
    rw [htree, NodeMap.valid_remove] at hvalid
    exact hvalid.2 (mem_map_of_mem hn)
  · intro hfirst
    have hsub : m'.cache.Sublist m.cache := by
      rw [hcache]
      split
      · exact List.Sublist.refl _
      · exact filter_sublist
    refine h.of_sublist hsub ?_
    intro c hc
    rw [htree, NodeMap.valid_remove]
    refine ⟨h.valid c (hsub.subset hc), ?_⟩
    intro hmem
    obtain ⟨n, hn, rfl⟩ := mem_map.1 hmem
    have hp := hfirst l hl n hn (hsub.subset hc)
    rw [hcache, if_neg (ne_nil_of_mem hn)] at hc
    exact (mem_removeCached.1 hc).2 hp

/-! ### Whole runs -/

/-- The calls that keep the cache sound. -/
def KeepsCache (m : AddrRangeMap V maxCacheSize) : Call V → Prop
  | .eraseRange p q => OnlyFirstCached m p q
  | _ => True

lemma exists_of_map_snd {α β ε : Type} {x : Except ε (α × β)} {b : β}
    (h : Prod.snd <$> x = .ok b) : ∃ a, x = .ok (a, b) := by
  obtain ⟨⟨a, b⟩, hx, rfl⟩ := map_eq_ok.1 h
  exact ⟨a, hx⟩

lemma CacheSound.call {c : Call V} (h : CacheSound m) (hc : KeepsCache m c)
    (hcall : m.call c = .ok m') : CacheSound m' := by
  cases c with
  | insert r d =>
    obtain ⟨it, hi⟩ := exists_of_map_snd hcall
    exact h.insert hi
  | contains _ | containsRange _ | intersects _ =>
    obtain ⟨it, hf⟩ := exists_of_map_snd hcall
    exact h.found (find_eq_ok hf)
  | erase p => exact h.erase hcall
  | eraseRange p q => exact (cacheSound_eraseRange_iff h hcall).2 hc
  | clear =>
    cases (Except.ok.inj hcall).symm
    exact cacheSound_clear m

lemma Built.cacheSound {P : AddrRangeMap V maxCacheSize → Call V → Prop}
    (hP : ∀ m c, P m c → KeepsCache m c) (hm : Built P m) : CacheSound m := by
  induction hm with
  | empty => exact cacheSound_empty
  | call hm c hc hcall ih => exact ih.call (hP _ c hc) hcall

/-- The cache is sound in every state of a run in which no call that erases a range finds an
entry of the range in the cache, other than the first; and the first call that finds one leaves
a cache that is not sound. -/
theorem built_cacheSound (hm : Built KeepsCache m) :
    CacheSound m ∧ ∀ c m', m.call c = .ok m' → (CacheSound m' ↔ KeepsCache m c) := by
  have h : CacheSound m := hm.cacheSound fun _ _ hc => hc
  refine ⟨h, fun c m' hcall => ⟨fun h' => ?_, fun hc => h.call hc hcall⟩⟩
  cases c with
  | eraseRange p q => exact (cacheSound_eraseRange_iff h hcall).1 h'
  | _ => trivial

/-- Two entries, the first of them looked up, and both erased. -/
theorem built_cacheSound_two_entries :
    ∃ m m' : AddrRangeMap ℕ 2, m.cache = [0] ∧ m.tree.nodes.map Node.id = [0, 1] ∧
      m.call (.eraseRange (some 0) none) = .ok m' ∧ CacheSound m ∧ CacheSound m' := by
  have hm : Built (KeepsCache : AddrRangeMap ℕ 2 → _) _ :=
    ((Built.empty.call (.insert (RangeSize 0x000 0x100) 7) trivial rfl).call
      (.insert (RangeSize 0x100 0x100) 8) trivial rfl).call (.contains 0x80) trivial rfl
  have herase := (built_cacheSound hm).2 (.eraseRange (some 0) none) _ rfl
  refine ⟨_, _, ?_, ?_, ?_, (built_cacheSound hm).1, herase.2 ?_⟩
  · rfl
  · rfl
  · rfl
  · intro l _ n _ hmem
    exact congrArg some (mem_singleton.1 hmem)

/-- Two entries of which the second is in the cache: it stays there when both are erased. -/
theorem eraseRange_leaves_erased_entry_cached :
    ∃ m : AddrRangeMap ℕ 2, Built (fun _ _ => True) m ∧ ¬ CacheSound m := by
  refine ⟨_, (((Built.empty.call (.insert (RangeSize 0x000 0x100) 7) trivial rfl).call
    (.insert (RangeSize 0x100 0x100) 8) trivial rfl).call (.contains 0x180) trivial rfl).call
    (.eraseRange (some 0) none) trivial rfl, ?_⟩
  intro h
  have := h.valid 1 mem_cons_self
  cases this

end ChipletGem5.AddrRangeMap
