import ChipletGem5.Base.TrieLinks
import Mathlib.Logic.Relation

/-!
# Walks through a trie

The loops of `lookupHandle` and `insert`.  Every node is reached from the head over kids, and the
prefix of a node goes on in the nodes below it.  As at most one kid matches a key, all nodes that
match it are below the node that a lookup is at, and the first one with a value has the shortest
prefix.
-/

namespace ChipletGem5.Trie

open BitVec Nat Bool

variable {w : ℕ} {α : Type} {t : Trie w α} {p q k : ℕ} {n m l : Node w α} {key : BitVec w}

def Edge (t : Trie w α) (p k : ℕ) : Prop := ∃ n i, t.node p = some n ∧ n.kids i = some k

/-- A node is reached from another one over kids. -/
def Below (t : Trie w α) : ℕ → ℕ → Prop := Relation.ReflTransGen t.Edge

lemma deref_eq_ok : t.deref p = .ok n ↔ t.node p = some n := getOrError_eq_ok

lemma Node.Proper.matchesKey_iff (h : n.Proper) :
    n.matchesKey key ↔ AgreeOn n.width key n.key := by
  rw [Node.matchesKey, beq_iff_eq]
  conv_lhs => rw [← h.key_eq, h.mask_eq]
  exact and_prefixMask_eq_iff h.width_le

variable {L : ℕ}

lemma Node.new_proper (hL : L ≤ w) (key : BitVec w) (v : Option α) :
    (Node.new key (prefixMask w L) v).Proper ∧ (Node.new key (prefixMask w L) v).width = L := by
  have hwidth : (Node.new key (prefixMask w L) v).width = L := maskWidth_prefixMask hL
  refine ⟨⟨?_, ?_, ?_⟩, hwidth⟩
  · rwa [hwidth]
  · rw [hwidth]
    rfl
  · simp only [Node.new]
    rw [BitVec.and_assoc, BitVec.and_self]

namespace Linked

section

variable (h : Linked t) (hp : t.node p = some n)
include h hp

lemma exists_kid (he : t.Edge p k) :
    ∃ i m, n.kids i = some k ∧ t.node k = some m ∧ n.Extends m := by
  obtain ⟨n', i, hn', hk⟩ := he
  cases hp.symm.trans hn'
  obtain ⟨m, hm, -, hext⟩ := (h.fits p n hp).kid i k hk
  exact ⟨i, m, hk, hm, hext⟩

lemma extends_of_below (hb : t.Below p k) : ∃ m, t.node k = some m ∧ (p = k ∨ n.Extends m) := by
  induction hb with
  | refl => exact ⟨n, hp, .inl rfl⟩
  | tail _ he ih =>
    obtain ⟨m, hm, hpm⟩ := ih
    obtain ⟨-, m', -, hm', hext⟩ := h.exists_kid hm he
    refine ⟨m', hm', .inr ?_⟩
    rcases hpm with rfl | hpm
    · cases hp.symm.trans hm
      exact hext
    · exact hpm.trans hext

lemma agreeOn_of_below (hb : t.Below p k)
    (hk : t.node k = some m) (hkey : AgreeOn m.width key m.key) : AgreeOn n.width key n.key := by
  obtain ⟨m', hm', hpm⟩ := h.extends_of_below hp hb
  cases hk.symm.trans hm'
  rcases hpm with rfl | hpm
  · cases hp.symm.trans hk
    exact hkey
  · exact (hkey.mono hpm.width_lt.le).trans hpm.agreeOn.symm

lemma below_head : t.Below 0 p := by
  -- the widths of the parents get smaller
  induction hwidth : n.width using Nat.strong_induction_on generalizing p n with
  | h L ih =>
    rcases eq_or_ne p 0 with rfl | hp0
    · exact .refl
    · obtain ⟨q, l, i, -, hl, hk⟩ := h.isKid p n hp hp0
      have hlt := (h.eq_parent hl hk hp).2.width_lt
      exact (ih l.width (hwidth ▸ hlt) hl rfl).tail ⟨l, i, hl, hk⟩

lemma kid_unique {i j : Fin 2} {k' : ℕ} {m' : Node w α}
    (hi : n.kids i = some k) (hj : n.kids j = some k') (hm : t.node k = some m)
    (hm' : t.node k' = some m') (hkey : AgreeOn m.width key m.key)
    (hkey' : AgreeOn m'.width key m'.key) : k = k' := by
  have hij : i = j := by
    by_contra hij
    have hlt := (h.eq_parent hp hi hm).2.width_lt
    have hlt' := (h.eq_parent hp hj hm').2.width_lt
    refine (h.fits p n hp).split i j k k' m m' hij hi hj hm hm' ?_
    rw [← hkey _ hlt, ← hkey' _ hlt']
  subst hij
  exact Option.some.inj (hi.symm.trans hj)

end

end Linked

/-! ### Looking up keys -/

def Matching (t : Trie w α) (key : BitVec w) (p : ℕ) : Prop :=
  ∃ n, t.node p = some n ∧ n.value ≠ none ∧ AgreeOn n.width key n.key

/-- The result of a lookup: all nodes with values that match the key are below it. -/
def IsLookup (t : Trie w α) (key : BitVec w) : Option ℕ → Prop
  | none => ∀ p, ¬ t.Matching key p
  | some p => t.Matching key p ∧ ∀ k, t.Matching key k → t.Below p k

lemma kidMatches_eq (h : Linked t) (hp : t.node p = some n) (i : Fin 2) (key : BitVec w) :
    ∃ b, t.kidMatches (n.kids i) key = .ok b ∧
      (b ↔ ∃ k m, n.kids i = some k ∧ t.node k = some m ∧ AgreeOn m.width key m.key) := by
  rcases hk : n.kids i with _ | k
  · exact ⟨false, rfl, by simp⟩
  · obtain ⟨m, hm, -⟩ := (h.fits p n hp).kid i k hk
    refine ⟨m.matchesKey key, bind_eq_ok.2 ⟨m, deref_eq_ok.2 hm, rfl⟩, ?_⟩
    rw [(h.fits k m hm).proper.matchesKey_iff]
    constructor
    · intro hkey
      exact ⟨k, m, rfl, hm, hkey⟩
    · rintro ⟨k', m', hk', hm', hkey⟩
      cases hk'
      cases hm.symm.trans hm'
      exact hkey

/-- The nodes that match a key and are below a node without a value are below a kid that matches
the key. -/
lemma Linked.exists_kid_of_matching (h : Linked t) (hp : t.node p = some n) (hv : n.value = none)
    (hb : t.Below p k) (hk : t.Matching key k) : ∃ i c m, n.kids i = some c ∧
      t.node c = some m ∧ AgreeOn m.width key m.key ∧ t.Below c k := by
  obtain ⟨m, hm, hvalue, hkey⟩ := hk
  rcases Relation.ReflTransGen.cases_head hb with rfl | ⟨c, he, hck⟩
  · cases hp.symm.trans hm
    exact absurd hv hvalue
  · obtain ⟨i, m', hi, hm', -⟩ := h.exists_kid hp he
    exact ⟨i, c, m', hi, hm', h.agreeOn_of_below hm' hck hm hkey, hck⟩

lemma lookupFrom_none (fuel : ℕ) : t.lookupFrom key fuel none = .ok none := by
  cases fuel <;> rfl

lemma lookupFrom_spec (h : Linked t) (fuel : ℕ) (hp : t.node p = some n)
    (hall : ∀ k, t.Matching key k → t.Below p k) (hkey : AgreeOn n.width key n.key)
    (hfuel : w - n.width < fuel) :
    ∃ r, t.lookupFrom key fuel (some p) = .ok r ∧ t.IsLookup key r := by
  induction fuel generalizing p n with
  | zero => exact absurd hfuel (not_lt_zero _)
  | succ fuel ih =>
    rw [lookupFrom, deref_eq_ok.2 hp]
    rcases hv : n.value with _ | v
    · -- a kid that matches the key is the one to go on with
      have hgo : ∀ i k m, n.kids i = some k → t.node k = some m → AgreeOn m.width key m.key →
          ∃ r, t.lookupFrom key fuel (n.kids i) = .ok r ∧ t.IsLookup key r := by
        intro i k m hk hm hkey'
        have hlt := (h.eq_parent hp hk hm).2.width_lt
        have hle := (h.fits k m hm).proper.width_le
        rw [hk]
        refine ih hm ?_ hkey' (by omega)
        intro c hc
        obtain ⟨j, c', m', hj, hm', hkey'', hb⟩ := h.exists_kid_of_matching hp hv (hall c hc) hc
        rwa [h.kid_unique hp hk hj hm hm' hkey' hkey'']
      obtain ⟨b0, hb0, hiff0⟩ := kidMatches_eq h hp 0 key
      obtain ⟨b1, hb1, hiff1⟩ := kidMatches_eq h hp 1 key
      rcases b0 with _ | _
      · rcases b1 with _ | _
        · refine ⟨none, ?_, ?_⟩
          · simp [hv, hb0, hb1, lookupFrom_none]
          · intro k hk
            obtain ⟨i, c, m, hi, hm, hkey', -⟩ := h.exists_kid_of_matching hp hv (hall k hk) hk
            fin_cases i
            · exact false_ne_true (hiff0.2 ⟨c, m, hi, hm, hkey'⟩)
            · exact false_ne_true (hiff1.2 ⟨c, m, hi, hm, hkey'⟩)
        · obtain ⟨k, m, hk, hm, hkey'⟩ := hiff1.1 rfl
          obtain ⟨r, hr, hr'⟩ := hgo 1 k m hk hm hkey'
          exact ⟨r, by simp [hv, hb0, hb1, hr], hr'⟩
      · obtain ⟨k, m, hk, hm, hkey'⟩ := hiff0.1 rfl
        obtain ⟨r, hr, hr'⟩ := hgo 0 k m hk hm hkey'
        exact ⟨r, by simp [hv, hb0, hr], hr'⟩
    · refine ⟨some p, by simp [hv], ⟨n, hp, ?_, hkey⟩, hall⟩
      rw [hv]
      exact Option.some_ne_none v

lemma lookupHandle_spec (h : Linked t) {fuel : ℕ} (hfuel : w < fuel) (key : BitVec w) :
    ∃ r, t.lookupHandle fuel key = .ok r ∧ t.IsLookup key r := by
  obtain ⟨n, hn, hwidth, -⟩ := h.head
  refine lookupFrom_spec h fuel hn ?_ ?_ ?_
  · rintro k ⟨m, hm, -⟩
    exact h.below_head hm
  · rw [hwidth]
    exact AgreeOn.zero _ _
  · omega

/-! ### The walks of insertions -/

lemma getMsbD_ofNat_msb (hw : 0 < w) (i : ℕ) :
    (BitVec.ofNat w (1 <<< (w - 1))).getMsbD i = decide (i = 0) := by
  rw [getMsbD_eq_getLsbD, getLsbD_ofNat, Nat.shiftLeft_eq, one_mul,
    testBit_two_pow, Bool.eq_iff_iff]
  simp only [and_eq_true, decide_eq_true_eq]
  omega

lemma extendMask_prefixMask (hL : L < w) : extendMask (prefixMask w L) = prefixMask w (L + 1) := by
  apply eq_of_getMsbD_eq
  intro i hi
  have hw : 0 < w := by omega
  rw [extendMask, getMsbD_or, getMsbD_or, getMsbD_ofNat_msb hw,
    getMsbD_ushiftRight, getMsbD_prefixMask hL.le, getMsbD_prefixMask hL.le,
    getMsbD_prefixMask (succ_le_of_lt hL)]
  rw [Bool.eq_iff_iff]
  simp only [or_eq_true, and_eq_true, decide_eq_true_eq, not_eq_true', decide_eq_false_iff_not]
  omega

lemma walkDown_spec {c : ℕ} {kidKey : BitVec w} (hL : L ≤ w) (fuel : ℕ) (hc : c ≤ L)
    (hagree : AgreeOn c key kidKey) (hfuel : L - c < fuel) :
    ∃ c', walkDown key kidKey (prefixMask w L) fuel (prefixMask w c) = .ok (prefixMask w c') ∧
      c ≤ c' ∧ c' ≤ L ∧ AgreeOn c' key kidKey ∧
      (c' = L ∨ key.getMsbD c' ≠ kidKey.getMsbD c') := by
  induction fuel generalizing c with
  | zero => exact absurd hfuel (not_lt_zero _)
  | succ fuel ih =>
    rw [walkDown]
    rcases lt_or_eq_of_le hc with hlt | rfl
    · have hiff : key &&& prefixMask w (c + 1) ≠ kidKey &&& prefixMask w (c + 1) ∨
          prefixMask w c = prefixMask w L ↔ key.getMsbD c ≠ kidKey.getMsbD c := by
        rw [ne_eq, and_prefixMask_eq_iff (by omega), prefixMask_inj (by omega) hL, AgreeOn.succ_iff]
        simp [hagree, hlt.ne]
      rw [extendMask_prefixMask (hlt.trans_le hL)]
      by_cases hbit : key.getMsbD c = kidKey.getMsbD c
      · rw [if_neg (fun h => hiff.1 h hbit)]
        obtain ⟨c', hc', hle, hrest⟩ := ih (succ_le_of_lt hlt)
          (AgreeOn.succ_iff.2 ⟨hagree, hbit⟩) (by omega)
        exact ⟨c', hc', by omega, hrest⟩
      · rw [if_pos (hiff.2 hbit)]
        exact ⟨c, rfl, le_rfl, hlt.le, hagree, .inr hbit⟩
    · rw [if_pos (.inr rfl)]
      exact ⟨c, rfl, le_rfl, le_rfl, hagree, .inl rfl⟩

lemma goesAfter_eq (h : Linked t) (hL : L ≤ w) (hp : t.node p = some n) (i : Fin 2)
    (key : BitVec w) : ∃ r, t.goesAfter (n.kids i) key (prefixMask w L) = .ok r ∧
      match r with
      | some k => ∃ m, n.kids i = some k ∧ t.node k = some m ∧ AgreeOn m.width key m.key ∧
          m.width ≤ L
      | none => ∀ k m, n.kids i = some k → t.node k = some m → AgreeOn m.width key m.key →
          L < m.width := by
  rcases hk : n.kids i with _ | k
  · exact ⟨none, rfl, by simp⟩
  · obtain ⟨m, hm, -⟩ := (h.fits p n hp).kid i k hk
    have hproper := (h.fits k m hm).proper
    refine ⟨_, bind_eq_ok.2 ⟨m, deref_eq_ok.2 hm, rfl⟩, ?_⟩
    have hiff : (m.matchesKey key && m.mask &&& prefixMask w L == m.mask) ↔
        AgreeOn m.width key m.key ∧ m.width ≤ L := by
      rw [and_eq_true, hproper.matchesKey_iff, beq_iff_eq, hproper.mask_eq,
        prefixMask_and_prefixMask hproper.width_le hL]
    split_ifs with hc
    · exact ⟨m, rfl, hm, hiff.1 hc⟩
    · intro k' m' hk' hm' hkey
      cases hk'
      cases hm.symm.trans hm'
      by_contra hle
      exact hc (hiff.2 ⟨hkey, Nat.le_of_not_lt hle⟩)

lemma walkPast_spec (h : Linked t) (hL : L ≤ w) (fuel : ℕ) (hp : t.node p = some n)
    (hkey : AgreeOn n.width key n.key) (hle : n.width ≤ L) (hfuel : w - n.width < fuel) :
    ∃ q l, t.walkPast key (prefixMask w L) fuel p = .ok q ∧ t.node q = some l ∧
      AgreeOn l.width key l.key ∧ l.width ≤ L ∧
      ∀ i k m, l.kids i = some k → t.node k = some m → AgreeOn m.width key m.key →
        L < m.width := by
  induction fuel generalizing p n with
  | zero => exact absurd hfuel (not_lt_zero _)
  | succ fuel ih =>
    obtain ⟨r0, hr0, hcase0⟩ := goesAfter_eq h hL hp 0 key
    obtain ⟨r1, hr1, hcase1⟩ := goesAfter_eq h hL hp 1 key
    rw [walkPast, deref_eq_ok.2 hp]
    rcases r0 with _ | k
    · rcases r1 with _ | k
      · refine ⟨p, n, by simp [hr0, hr1], hp, hkey, hle, ?_⟩
        intro i
        fin_cases i
        · exact hcase0
        · exact hcase1
      · obtain ⟨m, hk, hm, hkey', hle'⟩ := hcase1
        have hlt := (h.eq_parent hp hk hm).2.width_lt
        obtain ⟨q, l, hq, hrest⟩ := ih hm hkey' hle' (by omega)
        exact ⟨q, l, by simp [hr0, hr1, hq], hrest⟩
    · obtain ⟨m, hk, hm, hkey', hle'⟩ := hcase0
      have hlt := (h.eq_parent hp hk hm).2.width_lt
      obtain ⟨q, l, hq, hrest⟩ := ih hm hkey' hle' (by omega)
      exact ⟨q, l, by simp [hr0, hq], hrest⟩

end ChipletGem5.Trie
