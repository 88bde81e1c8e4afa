import ChipletGem5.Mem.StackDistCalc

/-!
# The tree of the stack distance calculator

Which leaves there are is a function `live` of their indices.  The invariant says that every sum
counts the live leaves on its side (`Sums`), and that a node which is missing has a block of leaves
that have all been added and taken away (`DeadBlock`).  So the nodes on the path from a live leaf
to the root are there, and so are the nodes under which the next leaf will be.
-/

namespace ChipletGem5.StackDist

open Blocks Function Bool

variable {live live' : ℕ → Bool} {used k j q r : ℕ} {n : Node} {c : StackDistCalc} {t : Tree}

/-! ### One node -/

/-- All the leaves of a block have been added, and none of them is there. -/
def DeadBlock (live : ℕ → Bool) (used k j : ℕ) : Prop :=
  (j + 1) * 2 ^ k ≤ used ∧ span live k j = 0

/-- The sums of a node of layer `k + 1`. -/
def Sums (live : ℕ → Bool) (k j : ℕ) (n : Node) : Prop :=
  n.sumLeft = span live k (2 * j) ∧ n.sumRight = span live k (2 * j + 1)

/-- The flags of a node of layer `k + 1`. -/
def Flags (live : ℕ → Bool) (used k j : ℕ) (n : Node) : Prop :=
  (n.discardLeft → DeadBlock live used k (2 * j)) ∧
    (n.discardRight → DeadBlock live used k (2 * j + 1))

/-- The place of a node in the tree, with what it says about its parent. -/
structure Placed (depth level j : ℕ) (n : Node) : Prop where
  nodeIndex : n.nodeIndex = j
  isLeftNode : n.isLeftNode = (j % 2 == 0)
  parent : n.parent = if level = depth then none else some (j / 2)

lemma DeadBlock.mono {used' : ℕ} (h : DeadBlock live used k j) (hu : used ≤ used') :
    DeadBlock live used' k j :=
  ⟨h.1.trans hu, h.2⟩

lemma DeadBlock.succ (hl : DeadBlock live used k (2 * j))
    (hr : DeadBlock live used k (2 * j + 1)) : DeadBlock live used (k + 1) j := by
  refine ⟨?_, by rw [span_succ, hl.2, hr.2]⟩
  calc (j + 1) * 2 ^ (k + 1) = (2 * j + 1 + 1) * 2 ^ k := by ring
    _ ≤ used := hr.1

lemma DeadBlock.of_le (h : DeadBlock live used k j)
    (hle : ∀ m < used, live' m → live m) : DeadBlock live' used k j := by
  refine ⟨h.1, span_eq_zero.2 fun m hm => ?_⟩
  have hlt : m < used := by
    have hend := lt_block_end m k
    rw [hm] at hend
    exact hend.trans_le h.1
  have hfalse := span_eq_zero.1 h.2 m hm
  cases hm' : live' m with
  | false => rfl
  | true => exact absurd ((hle m hlt hm').symm.trans hfalse) (by decide)

lemma not_deadBlock_of_used_le (h : used ≤ r) : ¬ DeadBlock live used k (r / 2 ^ k) := fun hd =>
  absurd (lt_block_end r k) (not_lt.2 (hd.1.trans h))

lemma not_deadBlock_of_live (h : live r) : ¬ DeadBlock live used k (r / 2 ^ k) := fun hd =>
  absurd (span_eq_zero.1 hd.2 r rfl) (by simp [h])

variable {discard : Bool} {sum j' b : ℕ}

lemma Sums.receive (h : Sums live k (q / 2) n)
    (hsame : ∀ j, j ≠ q → span live' k j = span live k j) :
    Sums live' k (q / 2) (n.receive (q % 2 == 0) (span live' k q) discard) := by
  obtain hq | hq : q = 2 * (q / 2) ∨ q = 2 * (q / 2) + 1 := by omega
  · have hmod : (q % 2 == 0) := by simp; omega
    rw [Sums, hsame (2 * (q / 2) + 1) (by omega), hmod]
    exact ⟨congrArg (span live' k) hq, h.2⟩
  · have hmod : (q % 2 == 0) = false := by simp; omega
    rw [Sums, hsame (2 * (q / 2)) (by omega), hmod]
    exact ⟨h.1, congrArg (span live' k) hq⟩

lemma Flags.receive (h : Flags live used k (q / 2) n)
    (hdead : discard → DeadBlock live used k q) :
    Flags live used k (q / 2) (n.receive (q % 2 == 0) sum discard) := by
  -- the flag of the side from which the walk comes may be set, if that side has been discarded
  constructor
  · intro hf
    simp only [Node.receive, or_eq_true, and_eq_true, beq_iff_eq] at hf
    obtain hf | ⟨⟨hd, -⟩, hq⟩ := hf
    · exact h.1 hf
    · rw [show 2 * (q / 2) = q by omega]
      exact hdead hd
  · intro hf
    simp only [Node.receive, or_eq_true, and_eq_true, not_eq_true',
      beq_eq_false_iff_ne, ne_eq] at hf
    obtain hf | ⟨⟨hd, -⟩, hq⟩ := hf
    · exact h.2 hf
    · rw [show 2 * (q / 2) + 1 = q by omega]
      exact hdead hd

/-! ### The nodes together -/

/-- What holds for the inner nodes, apart from their sums. -/
structure Linked (live : ℕ → Bool) (c : StackDistCalc) : Prop where
  placed : ∀ {k j n}, c.tree (k + 1) j = some n → Placed c.depth (k + 1) j n
  inside : ∀ {k j n}, c.tree (k + 1) j = some n → k + 1 ≤ c.depth ∧ j < c.nextIndex (k + 1)
  flags : ∀ {k j n}, c.tree (k + 1) j = some n → Flags live c.index k j n
  missing : ∀ {k j}, k + 1 ≤ c.depth → j < c.nextIndex (k + 1) → c.tree (k + 1) j = none →
    DeadBlock live c.index (k + 1) j
  root : ∃ n, c.tree c.depth 0 = some n

/-- All the sums of a tree. -/
def Summed (live : ℕ → Bool) (t : Tree) : Prop := ∀ k j n, t (k + 1) j = some n → Sums live k j n

lemma Tree.of_set {P : ℕ → ℕ → Node → Prop} (h : ∀ {k j n}, t (k + 1) j = some n → P k j n)
    (hn : P k j n) {k' : ℕ} {m : Node} (hm : t.set (k + 1) j (some n) (k' + 1) j' = some m) :
    P k' j' m := by
  by_cases he : k' + 1 = k + 1 ∧ j' = j
  · obtain ⟨he, rfl⟩ := he
    obtain rfl : k' = k := by omega
    obtain rfl : n = m := by simpa using hm
    exact hn
  · exact h ((t.set_of_ne _ he).symm.trans hm)

lemma Tree.eq_none_of_set {l : ℕ} (h : t.set k j (some n) l j' = none) :
    t l j' = none ∧ ¬ (l = k ∧ j' = j) := by
  by_cases he : l = k ∧ j' = j
  · rw [he.1, he.2, Tree.set_self] at h
    cases h
  · exact ⟨(t.set_of_ne _ he).symm.trans h, he⟩

lemma Tree.exists_set {l : ℕ} (h : ∃ m, t l j' = some m) :
    ∃ m, t.set k j (some n) l j' = some m := by
  by_cases he : l = k ∧ j' = j
  · exact ⟨n, by rw [he.1, he.2, Tree.set_self]⟩
  · rwa [t.set_of_ne _ he]

lemma Linked.replace (h : Linked live { c with tree := t }) {n' : Node}
    (hn : t (k + 1) j = some n) (hp : Placed c.depth (k + 1) j n')
    (hf : Flags live c.index k j n') :
    Linked live { c with tree := t.set (k + 1) j (some n') } where
  placed := Tree.of_set h.placed hp
  inside := Tree.of_set (P := fun k j _ => k + 1 ≤ c.depth ∧ j < c.nextIndex (k + 1)) h.inside
    (h.inside hn)
  flags := Tree.of_set h.flags hf
  missing hk hj hnone := h.missing hk hj (Tree.eq_none_of_set hnone).1
  root := Tree.exists_set h.root

lemma Linked.add (h : Linked live c) (hk : k + 1 ≤ c.depth)
    (hp : Placed c.depth (k + 1) (c.nextIndex (k + 1)) n)
    (hf : Flags live c.index k (c.nextIndex (k + 1)) n) :
    Linked live { c with
      tree := c.tree.set (k + 1) (c.nextIndex (k + 1)) (some n)
      nextIndex := update c.nextIndex (k + 1) (c.nextIndex (k + 1) + 1) } where
  placed := Tree.of_set h.placed hp
  inside := by
    refine Tree.of_set (P := fun k' j' _ => k' + 1 ≤ c.depth ∧
      j' < update c.nextIndex (k + 1) (c.nextIndex (k + 1) + 1) (k' + 1))
      (fun {k' j' m} hm => ?_) ⟨hk, by simp⟩
    have hold := h.inside hm
    by_cases he : k' + 1 = k + 1
    · rw [he, update_self, ← he]
      exact ⟨hold.1, by omega⟩
    · rwa [update_of_ne he]
  flags := Tree.of_set h.flags hf
  missing {k' j'} hk' hj' hnone := by
    obtain ⟨hnone, hne⟩ := Tree.eq_none_of_set hnone
    refine h.missing hk' ?_ hnone
    by_cases he : k' + 1 = k + 1
    · simp only [he, update_self] at hj' ⊢
      omega
    · simpa only [update_of_ne he] using hj'
  root := Tree.exists_set h.root

lemma Linked.erase (h : Linked live { c with tree := t })
    (hd : DeadBlock live c.index (k + 1) j) (hroot : k + 1 ≠ c.depth) :
    Linked live { c with tree := t.set (k + 1) j none } := by
  have hsome : ∀ {k' j' m}, t.set (k + 1) j none (k' + 1) j' = some m →
      t (k' + 1) j' = some m := by
    intro k' j' m hm
    by_cases he : k' + 1 = k + 1 ∧ j' = j
    · obtain ⟨he, rfl⟩ := he
      rw [he, Tree.set_self] at hm
      cases hm
    · exact (t.set_of_ne _ he).symm.trans hm
  refine ⟨fun hm => h.placed (hsome hm), fun hm => h.inside (hsome hm),
    fun hm => h.flags (hsome hm), ?_, ?_⟩
  · intro k' j' hk hj hnone
    by_cases he : k' + 1 = k + 1 ∧ j' = j
    · obtain ⟨he, rfl⟩ := he
      obtain rfl : k' = k := by omega
      exact hd
    · exact h.missing hk hj ((t.set_of_ne _ he).symm.trans hnone)
  · obtain ⟨m, hm⟩ := h.root
    exact ⟨m, (t.set_of_ne _ fun he => hroot he.1.symm).trans hm⟩

lemma Summed.set (h : Summed live t) (hs : Sums live k j n) :
    Summed live (t.set (k + 1) j (some n)) := fun _ _ _ =>
  Tree.of_set (P := Sums live) (h _ _ _) hs

/-! ### The walks to the root -/

/-- The live leaves up to the end of a block of the next layer: those up to the end of one of its
halves and, if that is the left half, those of the right half. -/
lemma before_block_succ (live : ℕ → Bool) (k q : ℕ) :
    before live ((q / 2 + 1) * 2 ^ (k + 1)) =
      before live ((q + 1) * 2 ^ k) + if q % 2 == 0 then span live k (2 * (q / 2) + 1) else 0 := by
  obtain ⟨j, rfl | rfl⟩ : ∃ j, q = 2 * j ∨ q = 2 * j + 1 := ⟨q / 2, by omega⟩
  · have h := before_block live k (2 * j + 1)
    rw [show (2 * j + 1 + 1) * 2 ^ k = (j + 1) * 2 ^ (k + 1) by ring] at h
    simpa using h
  · rw [show (2 * j + 1) / 2 = j by omega,
      show (j + 1) * 2 ^ (k + 1) = (2 * j + 1 + 1) * 2 ^ k by ring]
    simp [Nat.add_mod]

lemma walk_dist {dist : ℕ} (hs : Sums live k (r / 2 ^ (k + 1)) n)
    (hdist : b + dist = before live ((r / 2 ^ k + 1) * 2 ^ k)) :
    b + (if r / 2 ^ k % 2 == 0 then dist + n.sumRight else dist) =
      before live ((r / 2 ^ (k + 1) + 1) * 2 ^ (k + 1)) := by
  rw [hs.2, div_two_pow_succ, before_block_succ]
  split <;> omega

/-- The tree after `updateSum` has been at the node of the path in layer `k + 1`. -/
structure Visited (live live' : ℕ → Bool) (c : StackDistCalc) (r k : ℕ) (t t₁ : Tree) : Prop where
  linked : Linked live' { c with tree := t₁ }
  sums : ∀ i j n, t₁ (i + 1) j = some n → Sums (if i < k + 1 then live' else live) i j n
  above : ∀ i, i ≠ k + 1 → t₁ i = t i

lemma Linked.visit (hlive : ∀ m, m ≠ r → live' m = live m)
    (h : Linked live' { c with tree := t }) (hn : t (k + 1) (r / 2 ^ (k + 1)) = some n)
    (hsums : ∀ i j n, t (i + 1) j = some n → Sums (if i < k then live' else live) i j n)
    (hdead : discard → DeadBlock live' c.index k (r / 2 ^ k)) :
    let sum := span live' k (r / 2 ^ k)
    let n' := n.receive (r / 2 ^ k % 2 == 0) sum discard
    let gone := n'.exhausted sum discard
    Sums live' k (r / 2 ^ (k + 1)) n' ∧
      (gone → DeadBlock live' c.index (k + 1) (r / 2 ^ (k + 1))) ∧
      Visited live live' c r k t (if gone then t.set (k + 1) n.nodeIndex none
        else t.set (k + 1) (r / 2 ^ (k + 1)) (some n')) := by
  intro sum n' gone
  have hp := h.placed hn
  have hsame : ∀ i j, j ≠ r / 2 ^ i → span live' i j = span live i j := fun i j hj =>
    span_congr fun m hm => hlive m fun he => hj (by rw [← hm, he])
  have hs : Sums live k (r / 2 ^ (k + 1)) n := by simpa using hsums k _ _ hn
  have hf := h.flags hn
  rw [div_two_pow_succ] at hs hf
  have hs' : Sums live' k (r / 2 ^ (k + 1)) n' := by
    rw [div_two_pow_succ]
    exact hs.receive (hsame k)
  have hf' : Flags live' c.index k (r / 2 ^ (k + 1)) n' := by
    rw [div_two_pow_succ]
    exact hf.receive hdead
  have hp' : Placed c.depth (k + 1) (r / 2 ^ (k + 1)) n' := ⟨hp.1, hp.2, hp.3⟩
  have hgone : gone →
      DeadBlock live' c.index (k + 1) (r / 2 ^ (k + 1)) ∧ k + 1 ≠ c.depth := by
    intro hg
    simp only [gone, Node.exhausted, and_eq_true] at hg
    refine ⟨(hf'.1 hg.1.1.1.1).succ (hf'.2 hg.1.1.1.2), fun he => ?_⟩
    simp [hp'.parent, he] at hg
  refine ⟨hs', fun hg => (hgone hg).1, ?_⟩
  -- the sums of the other nodes of this layer do not count the leaf
  have hrest : ∀ i j m, t (i + 1) j = some m → ¬ (i + 1 = k + 1 ∧ j = r / 2 ^ (k + 1)) →
      Sums (if i < k + 1 then live' else live) i j m := by
    intro i j m hm hne
    have hsum := hsums i j m hm
    obtain hi | rfl | hi := lt_trichotomy i k
    · rwa [if_pos (by omega : i < k + 1), ← if_pos hi (t := live') (e := live)]
    · have hj : j ≠ r / 2 ^ i / 2 := fun hj => hne ⟨rfl, hj.trans (div_two_pow_succ r i).symm⟩
      rw [if_neg (lt_irrefl i)] at hsum
      rw [if_pos i.lt_succ_self]
      exact ⟨hsum.1.trans (hsame i _ (by omega)).symm, hsum.2.trans (hsame i _ (by omega)).symm⟩
    · rwa [if_neg (by omega : ¬ i < k + 1), ← if_neg (by omega : ¬ i < k) (t := live') (e := live)]
  cases hg : gone with
  | true =>
    obtain ⟨hd, hroot⟩ := hgone hg
    simp only [if_true, hp.nodeIndex]
    refine ⟨h.erase hd hroot, fun i j m hm => ?_, fun i hi => t.set_of_level_ne _ hi⟩
    by_cases he : i + 1 = k + 1 ∧ j = r / 2 ^ (k + 1)
    · rw [he.1, he.2, Tree.set_self] at hm
      cases hm
    · exact hrest i j m ((t.set_of_ne _ he).symm.trans hm) he
  | false =>
    refine ⟨h.replace hn hp' hf', fun i j m hm => ?_, fun i hi => t.set_of_level_ne _ hi⟩
    by_cases he : i + 1 = k + 1 ∧ j = r / 2 ^ (k + 1)
    · obtain ⟨he, rfl⟩ := he
      obtain rfl : i = k := by omega
      obtain rfl : n' = m := by simpa using hm
      rwa [if_pos i.lt_succ_self]
    · exact hrest i j m ((t.set_of_ne _ he).symm.trans hm) he

/-- `updateSum` on the path of the leaf `r`, which has changed: it sets the sums to those for the
new leaves, and returns the number of leaves after `r`. -/
lemma updateSum_ok (hr : r < 2 ^ c.depth) (hlive : ∀ m, m ≠ r → live' m = live m) :
    ∀ {fuel k dist : ℕ} {t : Tree} {discard : Bool}, k < c.depth → c.depth ≤ k + fuel →
    Linked live' { c with tree := t } →
    (∀ i, k ≤ i → i < c.depth → ∃ n, t (i + 1) (r / 2 ^ (i + 1)) = some n) →
    (∀ i j n, t (i + 1) j = some n → Sums (if i < k then live' else live) i j n) →
    (discard → DeadBlock live' c.index k (r / 2 ^ k)) →
    b + dist = before live ((r / 2 ^ k + 1) * 2 ^ k) →
    ∃ d t', updateSum fuel t (r / 2 ^ (k + 1)) (r / 2 ^ k % 2 == 0) (span live' k (r / 2 ^ k)) k
        dist discard = .ok (d, t') ∧ b + d = before live (2 ^ c.depth) ∧
      Linked live' { c with tree := t' } ∧ Summed live' t' ∧ t' 0 = t 0 := by
  intro fuel
  induction fuel with
  | zero => intros; omega
  | succ fuel ih =>
    intro k dist t discard hk hfuel hlinked hpath hsums hdead hdist
    obtain ⟨n, hn⟩ := hpath k le_rfl hk
    have hp := hlinked.placed hn
    have hs : Sums live k (r / 2 ^ (k + 1)) n := by simpa using hsums k _ _ hn
    obtain ⟨hs', hgone, hvisited⟩ := hlinked.visit hlive hn hsums hdead
    have hdist1 := walk_dist hs hdist
    simp only [updateSum, getOrError_eq_ok.2 hn, ok_bind, hp.parent]
    by_cases htop : k + 1 = c.depth
    · -- the root
      rw [if_pos htop]
      refine ⟨_, _, rfl, ?_, hvisited.linked, fun i j m hm => ?_, hvisited.above 0 (by omega)⟩
      · rw [hdist1, htop, Nat.div_eq_of_lt hr, zero_add, one_mul]
      · have hi := (hvisited.linked.inside hm).1
        have hsum := hvisited.sums i j m hm
        rwa [if_pos (by rw [htop]; exact hi)] at hsum
    · rw [if_neg htop]
      have hih := ih (k := k + 1) (by omega) (by omega) hvisited.linked
        (fun i hi hlt => by
          rw [hvisited.above (i + 1) (by omega)]
          exact hpath i (by omega) hlt)
        hvisited.sums hgone hdist1
      obtain ⟨d, t', hrun, hd, hl', hsum', hleaf⟩ := hih
      refine ⟨d, t', ?_, hd, hl', hsum', hleaf.trans (hvisited.above 0 (by omega))⟩
      rw [← hrun, span_succ, ← hs'.1, ← hs'.2, hp.isLeftNode, ← div_two_pow_succ r (k + 1)]

/-- `getSum` on the path of the leaf `r` returns the number of leaves after it. -/
lemma getSum_ok (hr : r < 2 ^ c.depth) (hlinked : Linked live c) (hsums : Summed live c.tree)
    (hpath : ∀ i < c.depth, ∃ n, c.tree (i + 1) (r / 2 ^ (i + 1)) = some n) :
    ∀ {fuel k dist : ℕ}, k < c.depth → c.depth ≤ k + fuel →
    b + dist = before live ((r / 2 ^ k + 1) * 2 ^ k) →
    ∃ d, getSum fuel c.tree (r / 2 ^ (k + 1)) (r / 2 ^ k % 2 == 0) dist k = .ok d ∧
      b + d = before live (2 ^ c.depth) := by
  intro fuel
  induction fuel with
  | zero => intros; omega
  | succ fuel ih =>
    intro k dist hk hfuel hdist
    obtain ⟨n, hn⟩ := hpath k hk
    have hp := hlinked.placed hn
    have hs := hsums k _ _ hn
    have hdist1 := walk_dist hs hdist
    simp only [getSum, getOrError_eq_ok.2 hn, ok_bind, hp.parent]
    by_cases htop : k + 1 = c.depth
    · rw [if_pos htop]
      refine ⟨_, rfl, ?_⟩
      rw [hdist1, htop, Nat.div_eq_of_lt hr, zero_add, one_mul]
    · rw [if_neg htop, hp.isLeftNode, ← div_two_pow_succ r (k + 1)]
      exact ih (by omega) (by omega) hdist1

/-- The flags and the missing nodes are right for other leaves as well, if of those added before
none is back. -/
lemma Linked.of_le (h : Linked live c) (hle : ∀ m < c.index, live' m → live m) :
    Linked live' c :=
  { h with
    flags := fun hn =>
      ⟨fun hl => ((h.flags hn).1 hl).of_le hle, fun hr => ((h.flags hn).2 hr).of_le hle⟩
    missing := fun hk hj hn => (h.missing hk hj hn).of_le hle }

lemma Linked.mono {used : ℕ} (h : Linked live c) (hle : c.index ≤ used) :
    Linked live { c with index := used } :=
  { h with
    flags := fun hn =>
      ⟨fun hl => ((h.flags hn).1 hl).mono hle, fun hr => ((h.flags hn).2 hr).mono hle⟩
    missing := fun hk hj hn => (h.missing hk hj hn).mono hle }

lemma Linked.congr_leaves {c' : StackDistCalc} (h : Linked live c) (hpos : 0 < c.depth)
    (ht : ∀ k, c'.tree (k + 1) = c.tree (k + 1))
    (hnext : ∀ k, c'.nextIndex (k + 1) = c.nextIndex (k + 1)) (hindex : c'.index = c.index)
    (hdepth : c'.depth = c.depth) : Linked live c' where
  placed hn := by
    rw [ht] at hn
    rw [hdepth]
    exact h.placed hn
  inside hn := by
    rw [ht] at hn
    rw [hdepth, hnext]
    exact h.inside hn
  flags hn := by
    rw [ht] at hn
    rw [hindex]
    exact h.flags hn
  missing hk hj hn := by
    rw [ht] at hn
    rw [hdepth] at hk
    rw [hnext] at hj
    rw [hindex]
    exact h.missing hk hj hn
  root := by
    obtain ⟨n, hn⟩ := h.root
    obtain ⟨d, hd⟩ := Nat.exists_eq_add_one_of_ne_zero hpos.ne'
    rw [hd, ← ht, ← hd, ← hdepth] at hn
    exact ⟨n, hn⟩

end ChipletGem5.StackDist
