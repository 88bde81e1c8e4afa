import ChipletGem5.Mem.StackDistTree

/-!
# Growth of the tree

Before a leaf is added at an even index, `updateTree` makes the nodes that the path of the leaf
needs, in the layers from the top to the bottom, after a new root if the index is a power of two.
While it does, the layers up to `m` have the nodes for the leaves before, and the layers above have
those for the new leaf: `Filling`.
-/

namespace ChipletGem5.StackDist

open Blocks Function StackDistCalc Nat

variable {live : ℕ → Bool} {k m r : ℕ} {n : Node} {c c' : StackDistCalc}

/-! ### The invariant -/

/-- The leaves are the `live` indices. -/
structure Leaves (live : ℕ → Bool) (c : StackDistCalc) : Prop where
  parent : ∀ {r n}, c.tree 0 r = some n → n.parent = some (r / 2)
  isLeftNode : ∀ {r n}, c.tree 0 r = some n → n.isLeftNode = (r % 2 == 0)
  live_iff : ∀ r, live r = (c.tree 0 r).isSome
  lt_index : ∀ {r}, live r → r < c.index

/-- The invariant between two calls. -/
structure Inv (live : ℕ → Bool) (c : StackDistCalc) : Prop where
  linked : Linked live c
  summed : Summed live c.tree
  leaves : Leaves live c
  depth_pos : 0 < c.depth
  index_le : c.index ≤ 2 ^ c.depth
  grown : c.depth = 1 ∨ 2 ^ (c.depth - 1) < c.index
  nextIndex : ∀ k < c.depth, c.nextIndex (k + 1) = (c.index - 1) / 2 ^ (k + 1) + 1

/-- The tree while `updateTree` adds nodes, with the layers up to `m` still to come. -/
structure Filling (live : ℕ → Bool) (m : ℕ) (c : StackDistCalc) : Prop where
  linked : Linked live c
  summed : Summed live c.tree
  leaves : Leaves live c
  depth_pos : 0 < c.depth
  index_lt : c.index < 2 ^ c.depth
  grown : c.depth = 1 ∨ 2 ^ (c.depth - 1) ≤ c.index
  nextIndex : ∀ k < c.depth, c.nextIndex (k + 1) =
    (if k + 1 ≤ m then c.index - 1 else c.index) / 2 ^ (k + 1) + 1

/-- What `updateTree` does not touch. -/
structure SameLeaves (c c' : StackDistCalc) : Prop where
  index : c'.index = c.index
  aiMap : c'.aiMap = c.aiMap
  leaves : c'.tree 0 = c.tree 0

lemma SameLeaves.trans {c1 c2 c3 : StackDistCalc} (h : SameLeaves c1 c2) (h' : SameLeaves c2 c3) :
    SameLeaves c1 c3 :=
  ⟨h'.1.trans h.1, h'.2.trans h.2, h'.3.trans h.3⟩

lemma Leaves.span_eq_zero (h : Leaves live c) {k j : ℕ} (hj : c.index ≤ j * 2 ^ k) :
    span live k j = 0 := by
  refine Blocks.span_eq_zero.2 fun r hr => Bool.eq_false_iff.2 fun hlive => ?_
  have hle : j * 2 ^ k ≤ r := hr ▸ div_mul_le_self r (2 ^ k)
  exact absurd (h.lt_index hlive) (by omega)

lemma Leaves.of_same (h : Leaves live c) (hs : SameLeaves c c') : Leaves live c' where
  parent hn := h.parent (by rw [← hs.leaves]; exact hn)
  isLeftNode hn := h.isLeftNode (by rw [← hs.leaves]; exact hn)
  live_iff r := by rw [h.live_iff, hs.leaves]
  lt_index hr := by rw [hs.index]; exact h.lt_index hr

/-! ### Inner nodes -/

lemma sub_one_div_of_dvd {i d : ℕ} (hi : 0 < i) (h : i % d = 0) : (i - 1) / d + 1 = i / d := by
  obtain ⟨i, rfl⟩ := exists_eq_succ_of_ne_zero hi.ne'
  rw [succ_eq_add_one, succ_div_of_dvd (dvd_of_mod_eq_zero h), Nat.add_sub_cancel]

lemma sub_one_div_of_not_dvd {i d : ℕ} (h : i % d ≠ 0) : (i - 1) / d = i / d := by
  obtain rfl | hi := Nat.eq_zero_or_pos i
  · rfl
  obtain ⟨i, rfl⟩ := exists_eq_succ_of_ne_zero hi.ne'
  rw [succ_eq_add_one, succ_div_of_not_dvd fun hd => h (mod_eq_zero_of_dvd hd), Nat.add_sub_cancel]

lemma Filling.skip (h : Filling live (m + 1) c) (hm : c.index % 2 ^ (m + 1) ≠ 0) :
    Filling live m c :=
  { h with
    nextIndex := fun k hk => by
      rw [h.nextIndex k hk]
      obtain hlt | rfl | hlt := lt_trichotomy k m
      · rw [if_pos (by omega), if_pos (by omega)]
      · rw [if_pos le_rfl, if_neg (by omega), sub_one_div_of_not_dvd hm]
      · rw [if_neg (by omega), if_neg (by omega)] }

lemma StackDistCalc.sameLeaves_newINode (c : StackDistCalc) (m : ℕ) :
    SameLeaves c (c.newINode (m + 1)) := by
  refine ⟨rfl, rfl, ?_⟩
  simp only [newINode]
  rw [Tree.set_of_level_ne _ _ (by omega)]

lemma Filling.newINode (h : Filling live (m + 1) c) (hm : m + 1 < c.depth)
    (hmod : c.index % 2 ^ (m + 1) = 0) : Filling live m (c.newINode (m + 1)) := by
  have hindex : 0 < c.index := by
    obtain hd | hd := h.grown
    · omega
    · exact (by positivity : 0 < 2 ^ (c.depth - 1)).trans_le hd
  have hnext : c.nextIndex (m + 1) = c.index / 2 ^ (m + 1) := by
    rw [h.nextIndex m (by omega), if_pos le_rfl, sub_one_div_of_dvd hindex hmod]
  -- the parent has been made already, or is there since earlier
  have hnext' : c.nextIndex (m + 1 + 1) = c.index / 2 ^ (m + 1 + 1) + 1 := by
    rw [h.nextIndex (m + 1) hm, if_neg (by omega)]
  obtain ⟨p, hp⟩ : ∃ p, c.tree (m + 1 + 1) (c.index / 2 ^ (m + 1 + 1)) = some p := by
    cases hp : c.tree (m + 1 + 1) (c.index / 2 ^ (m + 1 + 1)) with
    | some p => exact ⟨p, rfl⟩
    | none => exact absurd (h.linked.missing hm (by omega) hp) (not_deadBlock_of_used_le le_rfl)
  have hpointer : c.pointer (m + 1 + 1) (c.nextIndex (m + 1 + 1) - 1) =
      some (c.index / 2 ^ (m + 1) / 2) := by
    rw [hnext', Nat.add_sub_cancel, pointer, hp, div_two_pow_succ]
    rfl
  have hhalf : 2 * (c.index / 2 ^ (m + 1)) * 2 ^ m = c.index := by
    calc 2 * (c.index / 2 ^ (m + 1)) * 2 ^ m = c.index / 2 ^ (m + 1) * 2 ^ (m + 1) := by ring
      _ = c.index := Nat.div_mul_cancel (Nat.dvd_of_mod_eq_zero hmod)
  refine ⟨?_, ?_, ?_, h.depth_pos, h.index_lt, h.grown, fun k hk => ?_⟩
  · refine h.linked.add (by omega) ⟨rfl, rfl, ?_⟩ ⟨nofun, nofun⟩
    rw [if_neg (by omega), hpointer, hnext]
  · refine h.summed.set ⟨?_, ?_⟩
    · exact (h.leaves.span_eq_zero (by rw [hnext]; exact hhalf.ge)).symm
    · refine (h.leaves.span_eq_zero ?_).symm
      rw [hnext, succ_mul, hhalf]
      exact le_add_right _ _
  · exact h.leaves.of_same (c.sameLeaves_newINode m)
  · simp only [StackDistCalc.newINode]
    by_cases he : k = m
    · subst he
      rw [update_self, if_neg (by omega), hnext]
    · rw [update_of_ne (by omega), h.nextIndex k hk]
      split_ifs <;> first | rfl | omega

lemma Filling.fillNodes (hlt : c.index < 2 ^ 31) (hm : m < c.depth) (h : Filling live m c) :
    ∃ c', StackDistCalc.fillNodes m c = .ok c' ∧ Filling live 0 c' ∧ SameLeaves c c' := by
  induction m generalizing c with
  | zero => exact ⟨c, rfl, h, rfl, rfl, rfl⟩
  | succ m ih =>
    have hdepth : m + 1 < 31 := by
      obtain hd | hd := h.grown
      · omega
      · have := (Nat.pow_lt_pow_iff_right (by norm_num : 1 < 2)).1 (hd.trans_lt hlt)
        omega
    rw [fillNodes]
    simp only [require, hdepth, decide_true, if_true, ok_bind]
    split_ifs with hmod
    · obtain ⟨c', hrun, hfill, hsame⟩ := ih (c := c.newINode (m + 1)) hlt
        (show m < c.depth by omega) (h.newINode hm hmod)
      exact ⟨c', hrun, hfill, (c.sameLeaves_newINode m).trans hsame⟩
    · exact ih hlt (by omega) (h.skip hmod)

lemma Filling.chainNodes (hm : m < c.depth) (hmod : ∀ i ≤ m, c.index % 2 ^ i = 0)
    (h : Filling live m c) :
    Filling live 0 (StackDistCalc.chainNodes m c) ∧
      SameLeaves c (StackDistCalc.chainNodes m c) := by
  induction m generalizing c with
  | zero => exact ⟨h, rfl, rfl, rfl⟩
  | succ m ih =>
    obtain ⟨hfill, hsame⟩ := ih (c := c.newINode (m + 1))
      (show m < c.depth by omega) (fun i hi => hmod i (by omega)) (h.newINode hm (hmod _ le_rfl))
    exact ⟨hfill, (c.sameLeaves_newINode m).trans hsame⟩

/-! ### The root -/

lemma Inv.cases_raise (h : Inv live c) {newRoot oldRoot m : Node} {k j : ℕ}
    (hm : ((c.tree.set (c.depth + 1) 0 (some newRoot)).set c.depth 0 (some oldRoot)) (k + 1) j
      = some m) :
    (k + 1 = c.depth ∧ j = 0 ∧ m = oldRoot) ∨ (k = c.depth ∧ j = 0 ∧ m = newRoot) ∨
      (k + 1 < c.depth ∧ c.tree (k + 1) j = some m) := by
  by_cases hold : k + 1 = c.depth ∧ j = 0
  · rw [hold.1, hold.2, Tree.set_self, Option.some.injEq] at hm
    exact .inl ⟨hold.1, hold.2, hm.symm⟩
  rw [Tree.set_of_ne _ _ hold] at hm
  by_cases hnew : k + 1 = c.depth + 1 ∧ j = 0
  · rw [hnew.1, hnew.2, Tree.set_self, Option.some.injEq] at hm
    exact .inr (.inl ⟨by omega, hnew.2, hm.symm⟩)
  rw [Tree.set_of_ne _ _ hnew] at hm
  -- the layer of the old root had no other node
  obtain ⟨hk, hj⟩ := h.linked.inside hm
  rw [h.nextIndex k hk] at hj
  refine .inr (.inr ⟨lt_of_le_of_ne hk fun he => hold ⟨he, ?_⟩, hm⟩)
  rw [div_eq_of_lt] at hj
  · omega
  · have hpos : 0 < 2 ^ (k + 1) := by positivity
    have hle := h.index_le
    rw [← he] at hle
    omega

lemma Inv.raiseRoot (h : Inv live c) (hindex : c.index = 2 ^ c.depth) :
    ∃ c', c.raiseRoot = .ok c' ∧ Filling live c.depth c' ∧ SameLeaves c c' ∧
      c'.depth = c.depth + 1 := by
  obtain ⟨root, hroot⟩ := h.linked.root
  obtain ⟨d, hd⟩ := exists_eq_add_one_of_ne_zero h.depth_pos.ne'
  have hroot' : c.tree (d + 1) 0 = some root := by rw [← hd]; exact hroot
  have hs : Sums live d 0 root := h.summed d 0 root hroot'
  have hf : Flags live c.index d 0 root := h.linked.flags hroot'
  have hp : Placed c.depth (d + 1) 0 root := h.linked.placed hroot'
  simp only [StackDistCalc.raiseRoot, getOrError_eq_ok.2 hroot, ok_bind]
  refine ⟨_, rfl, (fun hsame => ⟨?_, hsame, rfl⟩) ?_⟩
  · refine ⟨rfl, rfl, ?_⟩
    simp only
    rw [Tree.set_of_level_ne _ _ (by omega), Tree.set_of_level_ne _ _ (by omega)]
  refine ⟨⟨?_, ?_, ?_, ?_, ?_⟩, ?_, h.leaves.of_same hsame, succ_pos _, ?_, .inr hindex.ge, ?_⟩
  · intro k j m hm
    obtain ⟨hk, rfl, rfl⟩ | ⟨rfl, rfl, rfl⟩ | ⟨hk, hm⟩ := h.cases_raise hm
    · exact ⟨hp.nodeIndex, hp.isLeftNode, by simp only; rw [if_neg (by omega)]⟩
    · exact ⟨rfl, rfl, by simp⟩
    · have hpm := h.linked.placed hm
      refine ⟨hpm.nodeIndex, hpm.isLeftNode, ?_⟩
      simp only
      rw [hpm.parent, if_neg (by omega), if_neg (by omega)]
  · intro k j m hm
    obtain ⟨hk, rfl, rfl⟩ | ⟨rfl, rfl, rfl⟩ | ⟨hk, hm⟩ := h.cases_raise hm
    · obtain rfl : k = d := by omega
      have := (h.linked.inside hroot').2
      simp only
      rw [update_of_ne (by omega)]
      exact ⟨by omega, this⟩
    · simp
    · have := (h.linked.inside hm).2
      simp only
      rw [update_of_ne (by omega)]
      exact ⟨by omega, this⟩
  · intro k j m hm
    obtain ⟨hk, rfl, rfl⟩ | ⟨rfl, rfl, rfl⟩ | ⟨hk, hm⟩ := h.cases_raise hm
    · obtain rfl : k = d := by omega
      exact hf
    · -- the left half of the new root is dead if both halves of the old one are
      refine ⟨fun hl => ?_, nofun⟩
      simp only [Bool.and_eq_true] at hl
      rw [hd]
      exact (hf.1 hl.1).succ (hf.2 hl.2)
    · exact h.linked.flags hm
  · intro k j hk hj hnone
    obtain ⟨hnone, hne⟩ := Tree.eq_none_of_set hnone
    obtain ⟨hnone, hne'⟩ := Tree.eq_none_of_set hnone
    simp only at hk hj
    by_cases he : k = c.depth
    · rw [he, update_self] at hj
      exact absurd ⟨by omega, by omega⟩ hne'
    · rw [update_of_ne (by omega)] at hj
      exact h.linked.missing (by omega) hj hnone
  · exact Tree.exists_set ⟨_, Tree.set_self _ _ _ _⟩
  · intro k j m hm
    obtain ⟨hk, rfl, rfl⟩ | ⟨rfl, rfl, rfl⟩ | ⟨hk, hm⟩ := h.cases_raise hm
    · obtain rfl : k = d := by omega
      exact hs
    · refine ⟨?_, (h.leaves.span_eq_zero (by simp [hindex])).symm⟩
      rw [hd, span_succ, ← hs.1, ← hs.2]
      exact add_comm _ _
    · exact h.summed k j m hm
  · simp only [hindex]
    exact Nat.pow_lt_pow_right (by norm_num) (Nat.lt_succ_self _)
  · intro k hk
    simp only at hk ⊢
    by_cases he : k = c.depth
    · rw [he, update_self, if_neg (by omega), hindex,
        div_eq_of_lt (Nat.pow_lt_pow_right (by norm_num) (Nat.lt_succ_self _))]
    · rw [update_of_ne (by omega), if_pos (by omega), h.nextIndex k (by omega)]

lemma Inv.index_eq_of_isPowerOf2 (h : Inv live c) (heven : c.index % 2 = 0)
    (hpow : isPowerOf2 c.index) : c.index = 2 ^ c.depth := by
  have hlog := exists_eq_two_pow hpow
  have hle : c.index.log2 ≤ c.depth := by
    rw [← Nat.pow_le_pow_iff_right (by norm_num : 1 < 2), ← hlog]
    exact h.index_le
  obtain hd | hd := h.grown
  · obtain hzero | hone : c.index.log2 = 0 ∨ c.index.log2 = 1 := by omega
    · rw [hzero] at hlog
      omega
    · rw [hlog, hone, hd]
  · rw [hlog, Nat.pow_lt_pow_iff_right (by norm_num)] at hd
    rw [hlog]
    congr 1
    omega

lemma Inv.updateTree (h : Inv live c) (heven : c.index % 2 = 0) (hlt : c.index < 2 ^ 31) :
    ∃ c', c.updateTree = .ok c' ∧ Filling live 0 c' ∧ SameLeaves c c' := by
  unfold StackDistCalc.updateTree
  split_ifs with hpow
  · have hindex := h.index_eq_of_isPowerOf2 heven hpow
    obtain ⟨c1, hrun, hfill, hsame, hdepth⟩ := h.raiseRoot hindex
    have hmod : ∀ i ≤ c1.depth - 1, c1.index % 2 ^ i = 0 := by
      intro i hi
      rw [hsame.index, hindex]
      exact mod_eq_zero_of_dvd (pow_dvd_pow 2 (by omega))
    obtain ⟨hfill', hsame'⟩ := Filling.chainNodes (m := c1.depth - 1) (by omega) hmod
      (by rwa [hdepth])
    refine ⟨_, ?_, hfill', hsame.trans hsame'⟩
    simp only [hrun, ok_bind]
    rfl
  · have hindex : c.index < 2 ^ c.depth := by
      refine lt_of_le_of_ne h.index_le fun he => hpow ?_
      rw [he]
      exact isPowerOf2_two_pow _
    refine Filling.fillNodes hlt (sub_lt h.depth_pos one_pos) ?_
    refine ⟨h.linked, h.summed, h.leaves, h.depth_pos, hindex, h.grown.imp_right le_of_lt,
      fun k hk => ?_⟩
    rw [h.nextIndex k hk]
    split_ifs with hle
    · rfl
    · -- the root is the only node of its layer
      obtain rfl : k = c.depth - 1 := by omega
      rw [Nat.sub_add_cancel h.depth_pos, Nat.div_eq_of_lt hindex,
        div_eq_of_lt ((sub_le _ _).trans_lt hindex)]

/-! ### Leaves -/

lemma Linked.path (h : Linked live c) (hr : live r ∨ c.index ≤ r)
    (hnext : ∀ k < c.depth, r / 2 ^ (k + 1) < c.nextIndex (k + 1)) :
    ∀ k < c.depth, ∃ n, c.tree (k + 1) (r / 2 ^ (k + 1)) = some n := by
  intro k hk
  cases hn : c.tree (k + 1) (r / 2 ^ (k + 1)) with
  | some n => exact ⟨n, rfl⟩
  | none =>
    have hdead := h.missing hk (hnext k hk) hn
    obtain hr | hr := hr
    · exact absurd hdead (not_deadBlock_of_live hr)
    · exact absurd hdead (not_deadBlock_of_used_le hr)

lemma Summed.congr_leaves {t t' : Tree} (h : Summed live t) (ht : ∀ k, t' (k + 1) = t (k + 1)) :
    Summed live t' := fun k j n hn => h k j n (by rw [← ht]; exact hn)

lemma updateSums_ok (live' : ℕ → Bool) (leaf : Node) (discard : Bool) (sum : ℕ)
    (hlinked : Linked live c) (hsums : Summed live c.tree) (hpos : 0 < c.depth)
    (hr : r < 2 ^ c.depth) (hle : ∀ m < c.index, live' m → live m)
    (hpath : ∀ k < c.depth, ∃ n, c.tree (k + 1) (r / 2 ^ (k + 1)) = some n)
    (hlive : ∀ m, m ≠ r → live' m = live m) (hsum : sum = if live' r then 1 else 0)
    (hdiscard : discard → r < c.index ∧ live' r = false)
    (hl : leaf.isLeftNode = (r % 2 == 0)) :
    ∃ d t, updateSum c.depth (c.tree.set 0 r (some { leaf with sumLeft := sum })) (r / 2)
        leaf.isLeftNode sum 0 0 discard = .ok (d, t) ∧
      before live (r + 1) + d = before live (2 ^ c.depth) ∧
      Linked live' { c with tree := t } ∧ Summed live' t ∧
      t 0 = update (c.tree 0) r (some { leaf with sumLeft := sum }) := by
  set t0 := c.tree.set 0 r (some { leaf with sumLeft := sum }) with ht0
  have hinner : ∀ k, t0 (k + 1) = c.tree (k + 1) := fun k =>
    c.tree.set_of_level_ne _ (succ_ne_zero k)
  have hdead : discard → DeadBlock live' c.index 0 (r / 2 ^ 0) := by
    intro hd
    obtain ⟨hlt, hfalse⟩ := hdiscard hd
    constructor
    · simpa using hlt
    · rw [span_zero]
      simp [hfalse]
  obtain ⟨d, t, hrun, hd, hl', hs', ht⟩ := updateSum_ok (t := t0) hr hlive hpos
    (show c.depth ≤ 0 + c.depth by omega)
    ((hlinked.of_le hle).congr_leaves hpos hinner (fun _ => rfl) rfl rfl)
    (fun i _ hi => by rw [hinner]; exact hpath i hi)
    (fun i j n hn => by
      exact hsums.congr_leaves hinner i j n hn)
    hdead (show before live (r + 1) + 0 = before live ((r / 2 ^ 0 + 1) * 2 ^ 0) by simp)
  refine ⟨d, t, ?_, hd, hl', hs', ht.trans (by rw [ht0, Tree.set, update_self])⟩
  rw [← hrun, span_zero, hsum, hl]
  simp

lemma Inv.lt_two_pow (h : Inv live c) (hr : live r) : r < 2 ^ c.depth :=
  (h.leaves.lt_index hr).trans_le h.index_le

lemma Inv.path (h : Inv live c) (hr : live r) :
    ∀ k < c.depth, ∃ n, c.tree (k + 1) (r / 2 ^ (k + 1)) = some n := by
  refine h.linked.path (.inl hr) fun k hk => ?_
  rw [h.nextIndex k hk, Nat.lt_succ_iff]
  have := h.leaves.lt_index hr
  exact Nat.div_le_div_right (by omega)

variable {leaf : Node}

section

variable (h : Inv live c) (hr : c.tree 0 r = some leaf)
include h hr

lemma Inv.removeLeaf : ∃ d t, c.updateSumsLeavesToRoot r false = .ok (d, { c with tree := t }) ∧
      before live (r + 1) + d = before live (2 ^ c.depth) ∧
      t 0 = update (c.tree 0) r (some { leaf with sumLeft := 0 }) ∧
      Inv (update live r false) { c with tree := t.set 0 r none } := by
  have hlive : live r := by rw [h.leaves.live_iff, hr]; rfl
  have hlt := h.leaves.lt_index hlive
  obtain ⟨d, t, hrun, hd, hl, hs, ht⟩ :=
    updateSums_ok (update live r false) leaf true 0 h.linked h.summed h.depth_pos
      (h.lt_two_pow hlive) (fun m _ hm => by
        by_cases he : m = r
        · simp [he] at hm
        · rwa [update_of_ne he] at hm)
      (h.path hlive) (fun m hm => update_of_ne hm _ _) (by simp)
      (fun _ => ⟨hlt, by simp⟩) (h.leaves.isLeftNode hr)
  refine ⟨d, t, ?_, hd, ht, ?_⟩
  · simp only [updateSumsLeavesToRoot, getOrError_eq_ok.2 hr,
      getOrError_eq_ok.2 (h.leaves.parent hr), ok_bind, hrun]
    rfl
  have hleaf : (t.set 0 r none) 0 = update (c.tree 0) r none := by
    rw [Tree.set, update_self, ht, update_idem]
  have hinner : ∀ k, (t.set 0 r none) (k + 1) = t (k + 1) := fun k =>
    t.set_of_level_ne _ (succ_ne_zero k)
  have hsome : ∀ {m n}, (t.set 0 r none) 0 m = some n → c.tree 0 m = some n ∧ m ≠ r := by
    intro m n hn
    rw [hleaf] at hn
    by_cases he : m = r
    · simp [he] at hn
    · exact ⟨by rwa [update_of_ne he] at hn, he⟩
  refine ⟨hl.congr_leaves h.depth_pos hinner (fun _ => rfl) rfl rfl, hs.congr_leaves hinner,
    ⟨fun hn => h.leaves.parent (hsome hn).1, fun hn => h.leaves.isLeftNode (hsome hn).1,
      fun m => ?_, fun {m} hm => ?_⟩, h.depth_pos, h.index_le, h.grown, h.nextIndex⟩
  · simp only
    rw [hleaf]
    by_cases he : m = r
    · simp [he]
    · rw [update_of_ne he, update_of_ne he, h.leaves.live_iff]
  · by_cases he : m = r
    · simp [he] at hm
    · exact h.leaves.lt_index (by rwa [update_of_ne he] at hm)

lemma Inv.getSums :
    ∃ d, c.getSumsLeavesToRoot r = .ok d ∧ before live (r + 1) + d = before live (2 ^ c.depth) := by
  have hlive : live r := by rw [h.leaves.live_iff, hr]; rfl
  obtain ⟨d, hrun, hd⟩ := getSum_ok (h.lt_two_pow hlive) h.linked h.summed (h.path hlive)
    h.depth_pos (show c.depth ≤ 0 + c.depth by omega)
    (show before live (r + 1) + 0 = before live ((r / 2 ^ 0 + 1) * 2 ^ 0) by simp)
  refine ⟨d, ?_, hd⟩
  simp only [getSumsLeavesToRoot, getOrError_eq_ok.2 hr,
    getOrError_eq_ok.2 (h.leaves.parent hr), ok_bind, ← hrun, h.leaves.isLeftNode hr]
  simp

lemma Inv.markLeaf (mark : Bool) :
    Inv live { c with tree := c.tree.set 0 r (some { leaf with isMarked := mark }) } := by
  have hinner : ∀ k, c.tree.set 0 r (some { leaf with isMarked := mark }) (k + 1) =
      c.tree (k + 1) := fun k => c.tree.set_of_level_ne _ k.succ_ne_zero
  have hsome : ∀ {m n}, c.tree.set 0 r (some { leaf with isMarked := mark }) 0 m = some n →
      ∃ n', c.tree 0 m = some n' ∧ n.parent = n'.parent ∧ n.isLeftNode = n'.isLeftNode := by
    intro m n hn
    by_cases he : m = r
    · subst he
      rw [Tree.set_self, Option.some.injEq] at hn
      exact ⟨leaf, hr, by rw [← hn], by rw [← hn]⟩
    · rw [Tree.set_of_ne _ _ fun e => he e.2] at hn
      exact ⟨n, hn, rfl, rfl⟩
  refine ⟨h.linked.congr_leaves h.depth_pos hinner (fun _ => rfl) rfl rfl,
    h.summed.congr_leaves hinner, ⟨fun hn => ?_, fun hn => ?_, fun m => ?_, h.leaves.lt_index⟩,
    h.depth_pos, h.index_le, h.grown, h.nextIndex⟩
  · obtain ⟨n', hn', hp, -⟩ := hsome hn
    rw [hp, h.leaves.parent hn']
  · obtain ⟨n', hn', -, hl⟩ := hsome hn
    rw [hl, h.leaves.isLeftNode hn']
  · rw [h.leaves.live_iff]
    by_cases he : m = r
    · subst he
      simp [hr]
    · simp only
      rw [Tree.set_of_ne _ _ fun e => he e.2]

end

lemma Filling.putLeaf (h : Filling live 0 c) (leaf : Node) (hp : leaf.parent = some (c.index / 2))
    (hl : leaf.isLeftNode = (c.index % 2 == 0)) :
    ∃ t, ({ c with
        nextIndex := update c.nextIndex 0 (c.nextIndex 0 + 1)
        tree := c.tree.set 0 c.index (some leaf) } : StackDistCalc).updateSumsLeavesToRoot
          c.index true = .ok (Infinity, { c with
            nextIndex := update c.nextIndex 0 (c.nextIndex 0 + 1)
            tree := t }) ∧
      t 0 = update (c.tree 0) c.index (some { leaf with sumLeft := 1 }) ∧
      Inv (update live c.index true) { c with
        nextIndex := update c.nextIndex 0 (c.nextIndex 0 + 1)
        tree := t
        index := c.index + 1 } := by
  have hnext : ∀ k < c.depth, c.nextIndex (k + 1) = c.index / 2 ^ (k + 1) + 1 := fun k hk => by
    rw [h.nextIndex k hk, if_neg (by omega)]
  obtain ⟨d, t, hrun, -, hl', hs', ht⟩ :=
    updateSums_ok (r := c.index) (update live c.index true) leaf false 1 h.linked h.summed
      h.depth_pos h.index_lt (fun m hm hm' => by rwa [update_of_ne hm.ne] at hm')
      (h.linked.path (.inr le_rfl) fun k hk => by rw [hnext k hk]; omega)
      (fun m hm => update_of_ne hm _ _) (by simp) nofun hl
  refine ⟨t, ?_, ht, ?_⟩
  · simp only [updateSumsLeavesToRoot, Tree.set_set, getOrError_eq_ok.2 hp,
      getOrError_eq_ok.2 (c.tree.set_self 0 c.index (some leaf)), ok_bind, if_true, hrun]
    rfl
  have hone : ∀ k, update c.nextIndex 0 (c.nextIndex 0 + 1) (k + 1) =
      c.nextIndex (k + 1) := fun k => update_of_ne k.succ_ne_zero _ _
  have hleaf : ∀ {m n}, t 0 m = some n →
      (m = c.index ∧ n = { leaf with sumLeft := 1 }) ∨ c.tree 0 m = some n := by
    intro m n hn
    rw [ht] at hn
    by_cases he : m = c.index
    · rw [he, update_self, Option.some.injEq] at hn
      exact .inl ⟨he, hn.symm⟩
    · exact .inr (by rwa [update_of_ne he] at hn)
  refine ⟨(hl'.mono (le_succ _)).congr_leaves h.depth_pos (fun _ => rfl) hone rfl rfl, hs',
    ⟨fun hn => ?_, fun hn => ?_, fun m => ?_, fun {m} hm => ?_⟩, h.depth_pos, h.index_lt,
    h.grown.imp_right lt_succ_of_le, fun k hk => (hone k).trans (hnext k hk)⟩
  · obtain ⟨rfl, rfl⟩ | hn := hleaf hn
    · exact hp
    · exact h.leaves.parent hn
  · obtain ⟨rfl, rfl⟩ | hn := hleaf hn
    · exact hl
    · exact h.leaves.isLeftNode hn
  · simp only [ht]
    by_cases he : m = c.index
    · simp [he]
    · rw [update_of_ne he, update_of_ne he, h.leaves.live_iff]
  · by_cases he : m = c.index
    · simp [he]
    · rw [update_of_ne he] at hm
      exact (h.leaves.lt_index hm).trans (lt_succ_self _)

lemma Inv.makeRoom (h : Inv live c) (hlt : c.index < 2 ^ 31) :
    ∃ c', c.makeRoom = .ok c' ∧ Filling live 0 c' ∧ SameLeaves c c' := by
  unfold StackDistCalc.makeRoom
  split_ifs with heven
  · exact h.updateTree heven hlt
  · refine ⟨c, rfl, ⟨h.linked, h.summed, h.leaves, h.depth_pos, ?_, h.grown.imp_right le_of_lt,
      fun k hk => ?_⟩, rfl, rfl, rfl⟩
    · refine lt_of_le_of_ne h.index_le fun he => heven ?_
      rw [he]
      exact mod_eq_zero_of_dvd (dvd_pow_self 2 h.depth_pos.ne')
    · rw [h.nextIndex k hk, if_neg (by omega), sub_one_div_of_not_dvd]
      intro hmod
      exact heven (mod_eq_zero_of_dvd ((dvd_pow_self 2 k.succ_ne_zero).trans
        (dvd_of_mod_eq_zero hmod)))

lemma Inv.addLeaf (h : Inv live c) (hlt : c.index < 2 ^ 31) :
    ∃ c' leaf, c.addLeaf = .ok c' ∧ Inv (update live c.index true) c' ∧
      c'.index = c.index + 1 ∧ c'.aiMap = c.aiMap ∧
      c'.tree 0 = update (c.tree 0) c.index (some leaf) ∧ leaf.isMarked = false := by
  obtain ⟨c1, hgrow, hfill, hsame⟩ := h.makeRoom hlt
  have hnext : c1.nextIndex 1 - 1 = c1.index / 2 := by
    rw [hfill.nextIndex 0 hfill.depth_pos, if_neg (by omega), Nat.add_sub_cancel, pow_one]
  obtain ⟨p, hp⟩ := hfill.linked.path (r := c1.index) (.inr le_rfl)
    (fun k hk => by rw [hfill.nextIndex k hk, if_neg (by omega)]; omega) 0 hfill.depth_pos
  have hpointer : c1.pointer 1 (c1.nextIndex 1 - 1) = some (c1.index / 2) := by
    rw [pow_one] at hp
    rw [hnext, pointer, hp]
    rfl
  obtain ⟨t, hrun, ht, hinv⟩ := hfill.putLeaf
    { nodeIndex := c1.index, isLeftNode := c1.index % 2 == 0
      parent := c1.pointer 1 (c1.nextIndex 1 - 1) } hpointer rfl
  rw [← hsame.index, ← hsame.leaves, ← hsame.aiMap]
  refine ⟨_, _, ?_, hinv, rfl, rfl, ht, rfl⟩
  simp only [StackDistCalc.addLeaf, hgrow, ok_bind, hrun]
  rfl

end ChipletGem5.StackDist
