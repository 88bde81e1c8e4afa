import ChipletGem5.Mem.FALRUStats
import ChipletGem5.Mem.StackDistRefines

/-!
# Stack distances and tracked caches

Both `FALRU` and `StackDistCalc` tell which accesses would hit in a smaller cache: the tags by a
mask of the tracked caches that a block is in, the calculator by the distance of the address.
-/

namespace ChipletGem5.StackDist

open List StackDistCalc FALRU Lru

variable {calls : List Call} {call : Call} {s : Stack} {keys : List TagHashKey} {a : Addr} {n : ℕ}

lemma Stack.answers_concat : s.answers (calls ++ [call]) =
    ((s.answers calls).1 ++ [(s.answers calls).2.answer call], (s.answers calls).2.next call) := by
  induction calls generalizing s with
  | nil => rfl
  | cons c calls ih => simp [answers, ih]

/-- The calls for accesses to some blocks. -/
def updates (keys : List TagHashKey) : List Call :=
  keys.map fun k => .calcStackDistAndUpdate k.1 true

/-- Without marks, the stack has the blocks in the order of their last access. -/
lemma answers_updates (hkeys : ∀ k ∈ keys, k.2 = false) :
    (Stack.answers [] (updates keys)).2 = recency keys := by
  induction keys using List.reverseRecOn with
  | nil => rfl
  | append_singleton keys k ih =>
    obtain ⟨hkeys, hk⟩ : (∀ k ∈ keys, k.2 = false) ∧ k.2 = false := by
      simpa [or_imp, forall_and] using hkeys
    rw [updates, map_append, map_singleton, ← updates, Stack.answers_concat, ih hkeys,
      recency_concat, touch_eq_cons_filter (nodup_recency keys)]
    show (k.1, false) :: _ = _
    congr 1
    · exact Prod.ext rfl hk.symm
    · refine filter_congr fun e he => ?_
      have he' := hkeys e (mem_recency.1 he)
      exact Bool.eq_iff_iff.2 (by simp [Prod.ext_iff, he', hk])

lemma dist_recency_lt_iff (hkeys : ∀ k ∈ keys, k.2 = false) (hn : n ≤ Infinity) :
    Stack.dist (recency keys) a < n ↔ (a, false) ∈ keys ∧ reuseDistance keys (a, false) < n := by
  have hsecond : ∀ e ∈ recency keys, e.2 = false := fun e he => hkeys e (mem_recency.1 he)
  by_cases hmem : (a, false) ∈ recency keys
  · rw [and_iff_right (mem_recency.1 hmem), reuseDistance]
    have hnodup := nodup_recency keys
    obtain ⟨u, v, huv, hnot⟩ := eq_append_cons_of_mem hmem
    rw [huv] at hnodup hsecond ⊢
    rw [(Stack.answer_found (fun e he => ?_) false).1, idxOf_append_cons hnot]
    rintro rfl
    refine (nodup_middle.1 hnodup).notMem ?_
    rwa [← hsecond e (by simp at he ⊢; tauto)]
  · rw [(Stack.answer_absent (fun e he heq => hmem ?_) false).1]
    · exact iff_of_false (by omega) fun h => hmem (mem_recency.2 h.1)
    · rwa [← heq, ← hsecond e he]

/-- The tags and the calculator agree: whatever has been accessed before, the mask that an access
returns has the tracked caches with more blocks than the stack distance of the access. -/
theorem access_mask_iff_dist {cfg : Config} (hv : cfg.Valid)
    (hdvd : cfg.blkSize ∣ cfg.minTrackedSize) {i : ℕ} (hi : i < cfg.numTrackedCaches)
    {accs : List (Addr × Bool)} (haccs : ∀ x ∈ accs, x.2 = false)
    (hlen : accs.length + 1 < 2 ^ 31) (a : Addr) :
    ∃ t t' mask dists d m c, FALRU.run cfg accs = .ok t ∧ t.access a false = .ok (t', mask) ∧
      StackDistCalc.new.run (updates (cfg.keys (accs ++ [(a, false)]))) =
        .ok (dists ++ [(d, m)], c) ∧
      (mask.has i ↔ d < cfg.capacity i) := by
  have hlt := (hv.capacity_lt_iff hdvd hi i).2 hi
  have htwo := hv.two_le_capacity hdvd i
  have hsize := hv.size_lt
  have hblocks : cfg.numBlocks ≤ cfg.size := Nat.div_le_self ..
  have hkeys : ∀ k ∈ cfg.keys accs, k.2 = false := by
    intro k hk
    obtain ⟨x, hx, rfl⟩ := mem_map.1 hk
    exact haccs x hx
  obtain ⟨t, l, hrun, hinv⟩ := (Inv.tagsInit hv hdvd (by omega)).runFrom (by omega) accs
  rw [nil_append] at hinv
  obtain ⟨t', mask, l', hacc, -, hmask⟩ := hinv.access (by omega) a false
  have hcalls : updates (cfg.keys (accs ++ [(a, false)])) =
      updates (cfg.keys accs) ++ [.calcStackDistAndUpdate (cfg.blkAlign a) true] := by
    simp [updates, Config.keys]
  have hadds : (updates (cfg.keys (accs ++ [(a, false)]))).countP Call.adds < 2 ^ 31 := by
    refine countP_le_length.trans_lt ?_
    simpa [updates, Config.keys] using hlen
  obtain ⟨c, hcalc, -⟩ := run_eq_answers _ hadds
  rw [hcalls, Stack.answers_concat, answers_updates hkeys] at hcalc
  refine ⟨t, t', mask, _, _, _, c, ?_, hacc, hcalls ▸ hcalc, ?_⟩
  · rw [FALRU.run, hv.create_eq]
    exact hrun
  · rw [hmask i hi, decide_eq_true_iff]
    exact (dist_recency_lt_iff hkeys (by rw [Infinity]; omega)).symm

/-- The third of four blocks is in the tracked cache of two blocks, the first is not. -/
theorem access_mask_iff_dist_fourBlocks : ∃ t t' mask dists d m c,
    FALRU.run fourBlocks [(0, false), (0x40, false), (0x80, false)] = .ok t ∧
      t.access 0x40 false = .ok (t', mask) ∧
      StackDistCalc.new.run (updates (fourBlocks.keys [(0, false), (0x40, false), (0x80, false),
        (0x40, false)])) = .ok (dists ++ [(d, m)], c) ∧
      (mask.has 0 ↔ d < 2) :=
  access_mask_iff_dist fourBlocks_valid (by decide) (by decide) (by simp) (by decide) 0x40

end ChipletGem5.StackDist
