import ChipletGem5.Base.TrieRefines
import Mathlib.Data.List.MinMax

/-!
# Runs of a trie

Removals, and sequences of insertions and removals.  A node with one kid is taken out of the link to
it.  A leaf is taken away, and its parent is removed as well if it has no value and only one kid
left.
-/

namespace ChipletGem5.Trie

open Function List Option

variable {w : ℕ} {α : Type} {t t' : Trie w α} {p q k : ℕ} {n m l : Node w α} {key : BitVec w}
  {i : Fin 2}

/-! ### Removal -/

lemma set_set (t : Trie w α) (p : ℕ) (n n' : Node w α) : (t.set p n).set p n' = t.set p n' := by
  simp only [set, update_idem]

lemma replaceKid_eq (hq : t.node q = some l) (hi : l.kids i = some p)
    (hinj : ∀ j, l.kids j = some p → j = i) (kid : Option ℕ) :
    t.replaceKid q p kid = .ok (t.set q { l with kids := update l.kids i kid }) := by
  rw [replaceKid, deref_eq_ok.2 hq, ok_bind]
  obtain rfl | rfl : i = 0 ∨ i = 1 := by omega
  · rw [if_pos hi]
    exact setKid_eq hq 0 kid
  · rw [if_neg (fun h0 => zero_ne_one (hinj 0 h0)), if_pos hi]
    exact setKid_eq hq 1 kid

lemma shiftKid_of_first (hq : t.node q = some l) (hfirst : l.kids 0 ≠ none) :
    t.shiftKid q = .ok t := by
  rw [shiftKid, deref_eq_ok.2 hq, ok_bind, if_neg (fun h => hfirst h.2)]
  rfl

lemma shiftKid_of_leaf (hq : t.node q = some { l with kids := update l.kids i none })
    (hfirst : i = 1 → l.kids 0 ≠ none) : t.shiftKid q = .ok (t.set q (l.dropKid i)) := by
  have hset : ∀ kids, kids = update l.kids i none →
      t = t.set q { l with kids } := by
    rintro kids rfl
    rw [set, update_eq_self_iff.2 hq.symm]
  obtain rfl | rfl : i = 0 ∨ i = 1 := by omega
  · rcases hk : l.kids 1 with _ | k
    · -- no kids are left
      rw [shiftKid, deref_eq_ok.2 hq, ok_bind, if_neg (fun h => h.1 (by simpa using hk))]
      refine congrArg Except.ok (hset _ ?_)
      ext1 j
      obtain rfl | rfl : j = 0 ∨ j = 1 := by omega
      · simpa using hk
      · simpa using hk.symm
    · -- the second kid is shifted
      let l1 : Node w α := { l with kids := update l.kids 0 none }
      let l2 : Node w α := { l1 with kids := update l1.kids 0 (l1.kids 1) }
      have hkids : l1.kids 1 ≠ none ∧ l1.kids 0 = none := by simp [l1, hk]
      have hq2 : (t.set q l2).node q = some l2 := by rw [node_set, if_pos rfl]
      have heq : { l2 with kids := update l2.kids 1 none } = l.dropKid 0 := by
        simp only [l2, l1, Node.dropKid]
        congr 1
        ext1 j
        obtain rfl | rfl : j = 0 ∨ j = 1 := by omega
        · simp
        · simp
      rw [shiftKid, deref_eq_ok.2 hq, ok_bind, if_pos hkids, setKid_eq hq, ok_bind,
        setKid_eq hq2, set_set, heq]
  · rw [shiftKid_of_first hq]
    · refine congrArg Except.ok (hset _ ?_)
      ext1 j
      obtain rfl | rfl : j = 0 ∨ j = 1 := by omega
      · simp
      · simp
    · simpa using hfirst rfl

lemma remove_middle (fuel : ℕ) (hp : t.node p = some n) (hk0 : n.kids 0 = some k)
    (hk1 : n.kids 1 = none) (hparent : n.parent = some q) (hq : t.node q = some l)
    (hi : l.kids i = some p) (hinj : ∀ j, l.kids j = some p → j = i) (hfirst : l.kids 0 ≠ none)
    (hm : t.node k = some m) (hkq : k ≠ q)
    (hstop : l.kids 1 ≠ none ∨ l.value ≠ none ∨ l.parent = none) :
    ∃ t', t.remove (fuel + 1) p = .ok (t', n.value) ∧ t'.fresh = t.fresh ∧
      ∀ x, t'.node x = if x = p then none
        else if x = q then some { l with kids := update l.kids i (some k) }
        else if x = k then some { m with parent := some q } else t.node x := by
  have hq' : (t.set k { m with parent := some q }).node q = some l := by
    rw [node_set, if_neg hkq.symm, hq]
  let l' : Node w α := { l with kids := update l.kids i (some k) }
  have hq'' : ((t.set k { m with parent := some q }).set q l').node q = some l' := by
    rw [node_set, if_pos rfl]
  have hfirst' : l'.kids 0 ≠ none := by
    rcases eq_or_ne 0 i with rfl | hi0
    · simp [l']
    · simpa [l', update_of_ne hi0] using hfirst
  have hstop' : ¬ (l'.kids 1 = none ∧ l'.value.isNone ∧ l'.parent.isSome) := by
    rintro ⟨hkids, hvalue, hpar⟩
    rcases hstop with h | h | h
    · rcases eq_or_ne 1 i with rfl | hi1
      · simp [l'] at hkids
      · exact h (by simpa [l', update_of_ne hi1] using hkids)
    · exact h (isNone_iff_eq_none.1 hvalue)
    · exact isSome_iff_ne_none.1 hpar h
  refine ⟨((t.set k { m with parent := some q }).set q l').free p, ?_, rfl, ?_⟩
  · rw [remove, deref_eq_ok.2 hp]
    simp only [ok_bind, hk1, ne_eq, not_true_eq_false, if_false, hparent, getOrError, hk0,
      setParent_eq hm, replaceKid_eq hq' hi hinj]
    rw [shiftKid_of_first hq'' hfirst', ok_bind, deref_eq_ok.2 hq'', ok_bind, if_neg hstop']
    rfl
  · intro x
    rw [node_free, node_set, node_set]

lemma remove_leaf (fuel : ℕ) (hp : t.node p = some n) (hk0 : n.kids 0 = none)
    (hk1 : n.kids 1 = none) (hparent : n.parent = some q) (hq : t.node q = some l)
    (hi : l.kids i = some p) (hinj : ∀ j, l.kids j = some p → j = i)
    (hfirst : i = 1 → l.kids 0 ≠ none) :
    t.remove (fuel + 1) p = (do
      let t := t.set q (l.dropKid i)
      let t ← (if l.value.isNone ∧ l.parent.isSome then do
          let r ← t.remove fuel q
          pure r.1
        else pure t)
      return (t.free p, n.value)) := by
  have hq' : (t.set q { l with kids := update l.kids i none }).node q =
      some { l with kids := update l.kids i none } := by
    rw [node_set, if_pos rfl]
  have hq'' : (t.set q (l.dropKid i)).node q = some (l.dropKid i) := by rw [node_set, if_pos rfl]
  rw [remove, deref_eq_ok.2 hp]
  simp only [ok_bind, hk1, ne_eq, not_true_eq_false, if_false, hparent, getOrError, hk0,
    pure_eq, replaceKid_eq hq hi hinj, shiftKid_of_leaf hq' hfirst, set_set,
    deref_eq_ok.2 hq'']
  simp only [Node.dropKid, one_ne_zero, if_false, true_and]

/-- A parent without a value, other than the head, keeps two kids when one of them is replaced. -/
lemma WellFormed.two_kids_or (h : WellFormed t) (hq : t.node q = some l) :
    l.kids 1 ≠ none ∨ l.value ≠ none ∨ l.parent = none := by
  rcases eq_or_ne q 0 with rfl | hq0
  · obtain ⟨r, hr, -, -, hparent⟩ := h.head
    cases hq.symm.trans hr
    exact .inr (.inr hparent)
  · rcases hv : l.value with _ | v
    · exact .inl (h.busy q l hq hq0 hv)
    · exact .inr (.inl (some_ne_none v))

/-- A node is gone, and the others are as they should be. -/
structure Removed (t : Trie w α) (p : ℕ) (t' : Trie w α) : Prop where
  wellFormed : WellFormed t'
  stored : ∀ x, x ≠ p → t'.stored x = t.stored x
  stored_self : t'.stored p = none

lemma Linked.removed_of_takeOut (h : Linked t)
    (hbusy : ∀ x r, t.node x = some r → x ≠ 0 → x ≠ p → r.value = none → r.kids 1 ≠ none)
    (hq : t.node q = some l) (hi : l.kids i = some p) (hp : t.node p = some n)
    (hk : n.kids 0 = some k) (hk' : n.kids 1 = none) (hm : t.node k = some m)
    (hfresh : t'.fresh = t.fresh) (hnode : ∀ x, t'.node x = if x = p then none
      else if x = q then some { l with kids := update l.kids i (some k) }
      else if x = k then some { m with parent := some q } else t.node x) : t.Removed p t' := by
  have hpq := h.kid_ne hq hi
  have hkp := h.kid_ne hp hk
  have hkq : k ≠ q :=
    Linked.ne_of_extends hq hm ((h.eq_parent hq hi hp).2.trans (h.eq_parent hp hk hm).2)
  refine ⟨⟨h.takeOut hq hi hp hfresh (by rw [hnode, if_pos rfl]) hk hk' hm
    (by rw [hnode, if_neg hpq.symm, if_pos rfl]) (by rw [hnode, if_neg hkp, if_neg hkq, if_pos rfl])
    fun x hxp hxq hxk => by rw [hnode, if_neg hxp, if_neg hxq, if_neg hxk], ?_⟩, ?_, ?_⟩
  · intro x r hr hx hvalue
    rw [hnode] at hr
    split_ifs at hr with hxp hxq hxk
    · cases hr
      rcases eq_or_ne 1 i with rfl | hi1
      · simp
      · simp only [update_of_ne hi1]
        exact hbusy q l hq (hxq ▸ hx) hpq.symm hvalue
    · cases hr
      exact hbusy k m hm (hxk ▸ hx) hkp hvalue
    · exact hbusy x r hr hx hxp hvalue
  · intro x hx
    have hx' := hnode x
    rw [if_neg hx] at hx'
    split_ifs at hx' with hxq hxk
    · exact stored_eq_of (n := l) hx' (hxq ▸ hq) rfl rfl rfl
    · exact stored_eq_of (n := m) hx' (hxk ▸ hm) rfl rfl rfl
    · exact stored_congr hx'
  · refine stored_eq_none fun r hr => ?_
    rw [hnode, if_pos rfl] at hr
    cases hr

lemma Linked.removed_of_takeLeaf (h : Linked t) (hq : t.node q = some l) (hi : l.kids i = some p)
    (hp : t.node p = some n) (hk : n.kids 0 = none) :
    let t' := (t.set q (l.dropKid i)).free p
    (∀ x, t'.node x = if x = p then none else if x = q then some (l.dropKid i) else t.node x) ∧
      Linked t' ∧ (∀ x, x ≠ p → t'.stored x = t.stored x) ∧ t'.stored p = none := by
  intro t'
  have hnode : ∀ x, t'.node x =
      if x = p then none else if x = q then some (l.dropKid i) else t.node x := by
    intro x
    rw [node_free, node_set]
  refine ⟨hnode, h.takeLeaf hq hi hp rfl (by rw [hnode, if_pos rfl]) hk
    (by rw [hnode, if_neg (h.kid_ne hq hi).symm, if_pos rfl])
    fun x hxp hxq => by rw [hnode, if_neg hxp, if_neg hxq], ?_, ?_⟩
  · intro x hx
    have hx' := hnode x
    rw [if_neg hx] at hx'
    split_ifs at hx' with hxq
    · exact stored_eq_of (n := l) hx' (hxq ▸ hq) rfl rfl rfl
    · exact stored_congr hx'
  · refine stored_eq_none fun r hr => ?_
    rw [hnode, if_pos rfl] at hr
    cases hr

section

variable (h : WellFormed t) (fuel : ℕ) (hp : t.node p = some n)
include h hp

lemma WellFormed.exists_removed_two (hv : n.value ≠ none) (hk1 : n.kids 1 = some k) :
    ∃ t', t.remove (fuel + 2) p = .ok (t', n.value) ∧ t.Removed p t' := by
  have hval : n.value.isSome := isSome_iff_ne_none.2 hv
  refine ⟨t.set p { n with value := none }, ?_, ⟨?_, ?_⟩, ?_, ?_⟩
  · rw [remove, deref_eq_ok.2 hp]
    simp only [ok_bind, hk1, ne_eq, reduceCtorEq, not_false_eq_true, if_true, require, hval]
    rfl
  · exact h.toLinked.setValue hp none (fun _ => rfl)
  · intro x r hr hx hvalue
    rw [node_set] at hr
    split_ifs at hr with hxp
    · cases hr
      rw [hk1]
      exact some_ne_none k
    · exact h.busy x r hr hx hvalue
  · intro x hx
    exact stored_congr (by rw [node_set, if_neg hx])
  · refine stored_eq_none fun r hr => ?_
    rw [node_set, if_pos rfl] at hr
    rw [← Option.some.inj hr]

variable (hk1 : n.kids 1 = none) (hparent : n.parent = some q) (hq : t.node q = some l)
  (hi : l.kids i = some p)
include hk1 hparent hq hi

lemma WellFormed.exists_removed_one (hk0 : n.kids 0 = some k) :
    ∃ t', t.remove (fuel + 2) p = .ok (t', n.value) ∧ t.Removed p t' := by
  obtain ⟨m, hm, -, hext⟩ := (h.fits p n hp).kid 0 k hk0
  have hkq : k ≠ q := Linked.ne_of_extends hq hm ((h.eq_parent hq hi hp).2.trans hext)
  obtain ⟨t', ht', hfresh, hnode⟩ := remove_middle (fuel + 1) hp hk0 hk1 hparent hq hi
    (fun j hj => h.kid_inj hq hj hi) (h.first_ne_none hq hi) hm hkq (h.two_kids_or hq)
  refine ⟨t', ht', h.toLinked.removed_of_takeOut ?_ hq hi hp hk0 hk1 hm hfresh hnode⟩
  exact fun x r hr hx _ => h.busy x r hr hx

lemma WellFormed.exists_removed_leaf (hk0 : n.kids 0 = none) :
    ∃ t', t.remove (fuel + 2) p = .ok (t', n.value) ∧ t.Removed p t' := by
  have hpq := h.kid_ne hq hi
  rw [remove_leaf (fuel + 1) hp hk0 hk1 hparent hq hi (fun j hj => h.kid_inj hq hj hi)
    fun _ => h.first_ne_none hq hi]
  obtain ⟨hnode1, hlinked, hstored, hself⟩ := h.toLinked.removed_of_takeLeaf hq hi hp hk0
  by_cases hrec : l.value.isNone ∧ l.parent.isSome
  swap
  · refine ⟨_, ?_, ⟨hlinked, ?_⟩, hstored, hself⟩
    · simp only [if_neg hrec]
      rfl
    · intro x r hr hx hvalue
      rw [hnode1] at hr
      split_ifs at hr with hxp hxq
      · cases hr
        obtain ⟨q', -, -, hpar, -⟩ := h.isKid q l hq (hxq ▸ hx)
        exact absurd ⟨isNone_iff_eq_none.2 hvalue, by rw [hpar]; rfl⟩ hrec
      · exact h.busy x r hr hx hvalue
  · -- the parent has no value, and only one kid is left
    obtain ⟨hvalue, hpar⟩ := hrec
    have hq0 : q ≠ 0 := by
      rintro rfl
      obtain ⟨r, hr, -, -, hnone⟩ := h.head
      cases hq.symm.trans hr
      exact isSome_iff_ne_none.1 hpar hnone
    have hvalue' : l.value = none := isNone_iff_eq_none.1 hvalue
    have hkids : ∀ j, l.kids j ≠ none := by
      intro j
      obtain rfl | rfl : j = 0 ∨ j = 1 := by omega
      · exact h.first_ne_none hq hi
      · exact h.busy q l hq hq0 hvalue'
    obtain ⟨k, hk⟩ := ne_none_iff_exists'.1 (hkids (1 - i))
    obtain ⟨m, hm, hparm, hextm⟩ := (h.fits q l hq).kid _ k hk
    obtain ⟨g, lg, ig, hparent', hg, hig⟩ := h.isKid q l hq hq0
    have hextg := (h.eq_parent hg hig hq).2
    have hgq := h.kid_ne hg hig
    have hkp : k ≠ p := by
      rintro rfl
      have hne : (1 - i : Fin 2) ≠ i := by omega
      exact hne (h.kid_inj hq hk hi)
    have hkq := h.kid_ne hq hk
    have hkg : k ≠ g := Linked.ne_of_extends hg hm (hextg.trans hextm)
    have hpg : p ≠ g := Linked.ne_of_extends hg hp (hextg.trans (h.eq_parent hq hi hp).2)
    obtain ⟨t2, ht2, hfresh, hnode2⟩ := remove_middle (t := t.set q (l.dropKid i))
      (n := l.dropKid i) (k := k) (l := lg) (m := m) fuel (by rw [node_set, if_pos rfl]) hk rfl
      hparent' (by rw [node_set, if_neg hgq.symm, hg]) hig (fun j hj => h.kid_inj hg hj hig)
      (h.first_ne_none hg hig) (by rw [node_set, if_neg hkq, hm]) hkg (h.two_kids_or hg)
    refine ⟨t2.free p, ?_, ?_⟩
    · simp only [ok_bind, if_pos (And.intro hvalue hpar), ht2]
      rfl
    · have hremoved : (free (t.set q (l.dropKid i)) p).Removed q (t2.free p) := by
        refine hlinked.removed_of_takeOut (p := q) (q := g) (l := lg) (n := l.dropKid i) (m := m)
          (i := ig) ?_ ?_ hig ?_ hk rfl ?_ hfresh ?_
        · intro x r hr hx hxq hvalue
          rw [hnode1] at hr
          split_ifs at hr with hxp
          exact h.busy x r hr hx hvalue
        · rw [hnode1, if_neg hpg.symm, if_neg hgq.symm, hg]
        · rw [hnode1, if_neg hpq.symm, if_pos rfl]
        · rw [hnode1, if_neg hkp, if_neg hkq, hm]
        · intro x
          rw [node_free, hnode2, hnode1]
          rcases eq_or_ne x p with rfl | hxp
          · rw [if_pos rfl, if_neg hpq, if_neg hpg, if_neg hkp.symm, if_pos rfl]
          · rw [if_neg hxp, if_neg hxp, node_set]
      refine ⟨hremoved.wellFormed, ?_, ?_⟩
      · intro x hx
        rcases eq_or_ne x q with rfl | hxq
        · rw [hremoved.stored_self, stored_eq_none]
          intro r hr
          rwa [← Option.some.inj (hq.symm.trans hr)]
        · rw [hremoved.stored x hxq, hstored x hx]
      · rw [hremoved.stored p hpq, hself]

end

lemma WellFormed.exists_removed (h : WellFormed t) (fuel : ℕ) (hp : t.node p = some n)
    (hv : n.value ≠ none) : ∃ t', t.remove (fuel + 2) p = .ok (t', n.value) ∧ t.Removed p t' := by
  have hp0 : p ≠ 0 := by
    rintro rfl
    exact hv (h.value_head hp)
  obtain ⟨q, l, i, hparent, hq, hi⟩ := h.isKid p n hp hp0
  rcases hk1 : n.kids 1 with _ | k1
  · rcases hk0 : n.kids 0 with _ | k
    · exact h.exists_removed_leaf fuel hp hk1 hparent hq hi hk0
    · exact h.exists_removed_one fuel hp hk1 hparent hq hi hk0
  · exact h.exists_removed_two fuel hp hv hk1

/-! ### Runs -/

/-- The prefix of an entry matches a key. -/
def Entry.matchesKey (e : Entry w α) (key : BitVec w) : Bool :=
  key &&& prefixMask w e.width == e.key

/-- The entry with the shortest prefix that matches a key. -/
def shortest? (stored : List (Entry w α)) (key : BitVec w) : Option (Entry w α) :=
  (stored.filter (·.matchesKey key)).argmin Entry.width

/-- The operations that change a trie. -/
inductive Op (w : ℕ) (α : Type)
  | insert (key : BitVec w) (width : ℕ) (val : α)
  | remove (handle : ℕ)
  | removeKey (key : BitVec w)

/-- A trie, the entries that it is to hold, and the value that the last call returned. -/
structure System (w : ℕ) (α : Type) where
  trie : Trie w α
  stored : List (Entry w α)
  out : Option α

/-- The value that a removal returns. -/
def Op.output (stored : List (Entry w α)) : Op w α → Option α
  | insert _ _ _ => none
  | remove handle => (stored.find? (·.handle = handle)).map Entry.value
  | removeKey key => (shortest? stored key).map Entry.value

namespace System

def initial : System w α := ⟨.new, [], none⟩

def step (fuel : ℕ) (s : System w α) : Op w α → Result (System w α)
  | .insert key width val => do
      let r ← s.trie.insert fuel key width (some val)
      return ⟨r.1, ⟨r.2, key &&& prefixMask w width, width, val⟩ :: s.stored, none⟩
  | .remove handle => do
      let r ← s.trie.remove fuel handle
      return ⟨r.1, s.stored.filter (·.handle ≠ handle), r.2⟩
  | .removeKey key => do
      let r ← s.trie.removeKey fuel key
      let stored := match shortest? s.stored key with
        | none => s.stored
        | some e => s.stored.filter (·.handle ≠ e.handle)
      return ⟨r.1, stored, r.2⟩

/-- Prefixes that are inserted are not there, and handles that are removed are. -/
def Allowed (s : System w α) : Op w α → Prop
  | .insert key width _ => 1 ≤ width ∧ width ≤ w ∧
      ∀ e ∈ s.stored, ¬ (e.width = width ∧ e.key = key &&& prefixMask w width)
  | .remove handle => ∃ e ∈ s.stored, e.handle = handle
  | .removeKey _ => True

instance (s : System w α) (op : Op w α) : Decidable (Allowed s op) := by
  cases op <;> dsimp only [Allowed] <;> infer_instance

/-- The trie holds the entries stored so far. -/
structure Inv (s : System w α) : Prop where
  wellFormed : WellFormed s.trie
  mem_stored : ∀ e, e ∈ s.stored ↔ s.trie.Holds e

variable {s : System w α} {fuel : ℕ}

lemma inv_initial : Inv (initial : System w α) := by
  have hnode : ∀ p n, (new : Trie w α).node p = some n → p = 0 ∧ n = .new 0 0 none := by
    intro p n hn
    simp only [new] at hn
    split_ifs at hn with hp
    exact ⟨hp, (Option.some.inj hn).symm⟩
  have hwidth : Node.width (.new 0 0 none : Node w α) = 0 := by
    rw [← prefixMask_zero]
    exact (Node.new_proper (Nat.zero_le w) _ none).2
  have hproper : Node.Proper (.new 0 0 none : Node w α) := by
    rw [← prefixMask_zero]
    exact (Node.new_proper (Nat.zero_le w) _ none).1
  constructor
  · refine ⟨⟨⟨_, rfl, hwidth, rfl, rfl⟩, ?_, ?_, ?_⟩, ?_⟩
    · intro p n hn
      rw [(hnode p n hn).1]
      exact Nat.one_pos
    · intro p n hn
      obtain ⟨-, rfl⟩ := hnode p n hn
      constructor
      case proper => exact hproper
      case kid =>
        rintro i k ⟨⟩
      case first => exact fun _ => rfl
      case split =>
        rintro i j k k' m m' _ ⟨⟩
    · intro p n hn hp
      exact absurd (hnode p n hn).1 hp
    · intro p n hn hp
      exact absurd (hnode p n hn).1 hp
  · intro e
    constructor
    · intro he
      cases he
    · rintro ⟨n, hn, -, -, hvalue⟩
      obtain ⟨-, rfl⟩ := hnode _ n hn
      cases hvalue

lemma Inv.matchesKey_iff (h : Inv s) {e : Entry w α} (he : s.trie.Holds e) :
    e.matchesKey key ↔ s.trie.Matching key e.handle := by
  obtain ⟨n, hn, hkey, hwidth, hvalue⟩ := he
  have hproper := (h.wellFormed.fits _ n hn).proper
  have hmatch : e.matchesKey key = n.matchesKey key := by
    rw [Entry.matchesKey, Node.matchesKey, ← hwidth, ← hproper.mask_eq, hkey]
  rw [hmatch, hproper.matchesKey_iff]
  constructor
  · intro hagree
    exact ⟨n, hn, by rw [hvalue]; exact some_ne_none _, hagree⟩
  · rintro ⟨n', hn', -, hagree⟩
    cases hn.symm.trans hn'
    exact hagree

lemma Inv.shortest?_eq (h : Inv s) {r : Option ℕ} (hr : s.trie.IsLookup key r) :
    match r with
    | none => shortest? s.stored key = none
    | some p => ∃ e, shortest? s.stored key = some e ∧ e.handle = p ∧ s.trie.Holds e := by
  have hmem : ∀ e, e ∈ s.stored.filter (·.matchesKey key) ↔
      s.trie.Holds e ∧ s.trie.Matching key e.handle := by
    intro e
    rw [mem_filter, h.mem_stored]
    exact and_congr_right h.matchesKey_iff
  cases r with
  | none =>
    rw [shortest?, argmin_eq_none, eq_nil_iff_forall_not_mem]
    intro e he
    exact hr _ ((hmem e).1 he).2
  | some p =>
    obtain ⟨hmatch, hbelow⟩ := hr
    obtain ⟨n, hn, hvalue, hagree⟩ := hmatch
    obtain ⟨v, hv⟩ := ne_none_iff_exists'.1 hvalue
    have he0 : (⟨p, n.key, n.width, v⟩ : Entry w α) ∈ s.stored.filter (·.matchesKey key) :=
      (hmem _).2 ⟨⟨n, hn, rfl, rfl, hv⟩, n, hn, hvalue, hagree⟩
    obtain ⟨e, he⟩ : ∃ e, shortest? s.stored key = some e := by
      rw [← ne_none_iff_exists', shortest?, ne_eq, argmin_eq_none]
      exact ne_nil_of_mem he0
    obtain ⟨hholds, hmatch'⟩ := (hmem e).1 (argmin_mem he)
    refine ⟨e, he, ?_, hholds⟩
    -- the entry is below the node that was found, and its prefix is not longer
    obtain ⟨m, hm, hpm⟩ := h.wellFormed.toLinked.extends_of_below hn (hbelow _ hmatch')
    obtain ⟨m', hm', -, hwidth, -⟩ := hholds
    cases hm.symm.trans hm'
    have hle : e.width ≤ n.width := le_of_mem_argmin he0 he
    rcases hpm with hp | hext
    · exact hp.symm
    · have hlt := hext.width_lt
      omega

lemma Inv.lookup_eq (h : Inv s) (hfuel : w < fuel) (key : BitVec w) :
    s.trie.lookup fuel key = .ok ((shortest? s.stored key).map Entry.value) := by
  obtain ⟨r, hr, hlookup⟩ := lookupHandle_spec h.wellFormed.toLinked hfuel key
  have hshort := h.shortest?_eq hlookup
  rw [Trie.lookup, hr]
  cases r with
  | none =>
    rw [hshort]
    rfl
  | some p =>
    obtain ⟨e, he, rfl, n, hn, -, -, hvalue⟩ := hshort
    rw [he]
    simp only [ok_bind, deref_eq_ok.2 hn, hvalue]
    rfl

lemma Inv.remove (h : Inv s) (hfuel : w < fuel) {e : Entry w α} (he : s.trie.Holds e) :
    ∃ t', s.trie.remove fuel e.handle = .ok (t', some e.value) ∧
      Inv ⟨t', s.stored.filter (·.handle ≠ e.handle), some e.value⟩ := by
  obtain ⟨n, hn, -, -, hvalue⟩ := he
  have hv : n.value ≠ none := by
    rw [hvalue]
    exact some_ne_none _
  obtain ⟨fuel', rfl⟩ : ∃ fuel', fuel = fuel' + 2 := by
    have hp0 : e.handle ≠ 0 := by
      intro h0
      rw [h0] at hn
      exact hv (h.wellFormed.value_head hn)
    obtain ⟨q, l, i, -, hq, hi⟩ := h.wellFormed.isKid _ n hn hp0
    have hlt := (h.wellFormed.eq_parent hq hi hn).2.width_lt
    have hle := (h.wellFormed.fits _ n hn).proper.width_le
    exact ⟨fuel - 2, by omega⟩
  obtain ⟨t', ht', hremoved⟩ := h.wellFormed.exists_removed fuel' hn hv
  rw [hvalue] at ht'
  refine ⟨t', ht', hremoved.wellFormed, fun e' => ?_⟩
  rw [mem_filter, h.mem_stored, decide_eq_true_eq, holds_iff, holds_iff]
  rcases eq_or_ne e'.handle e.handle with he | he
  · rw [he, hremoved.stored_self]
    simp
  · rw [hremoved.stored _ he]
    exact ⟨fun h => h.1, fun h => ⟨h, he⟩⟩

lemma Inv.step (h : Inv s) (hfuel : w < fuel) {op : Op w α} (hok : Allowed s op) :
    ∃ s', s.step fuel op = .ok s' ∧ Inv s' ∧ s'.out = op.output s.stored := by
  cases op with
  | insert key width val =>
    obtain ⟨hpos, hwidth, hnew⟩ := hok
    obtain ⟨t', handle, ht', hwf, hholds⟩ := inserted_insert h.wellFormed val hfuel
      hpos hwidth (fun e he => hnew e ((h.mem_stored e).2 he))
    refine ⟨_, bind_eq_ok.2 ⟨_, ht', rfl⟩, ⟨hwf, fun e => ?_⟩, rfl⟩
    rw [hholds, mem_cons, h.mem_stored, or_comm]
  | remove handle =>
    obtain ⟨e, he, rfl⟩ := hok
    obtain ⟨t', ht', hinv⟩ := h.remove hfuel ((h.mem_stored e).1 he)
    refine ⟨_, bind_eq_ok.2 ⟨_, ht', rfl⟩, hinv, ?_⟩
    -- the handle belongs to one entry only
    obtain ⟨e', he'⟩ : ∃ e', s.stored.find? (·.handle = e.handle) = some e' := by
      rw [← isSome_iff_exists, List.find?_isSome]
      exact ⟨e, he, by simp⟩
    have hmem := mem_of_find?_eq_some he'
    have heq : e'.handle = e.handle := by simpa using List.find?_some he'
    rw [Op.output, he', ((h.mem_stored e').1 hmem).unique ((h.mem_stored e).1 he) heq]
    rfl
  | removeKey key =>
    obtain ⟨r, hr, hlookup⟩ := lookupHandle_spec h.wellFormed.toLinked hfuel key
    have hshort := h.shortest?_eq hlookup
    cases r with
    | none =>
      refine ⟨⟨s.trie, s.stored, none⟩, ?_, ⟨h.wellFormed, h.mem_stored⟩, ?_⟩
      · simp only [System.step, Trie.removeKey, hr, hshort]
        rfl
      · rw [Op.output, hshort]
        rfl
    | some p =>
      obtain ⟨e, he, rfl, hholds⟩ := hshort
      obtain ⟨t', ht', hinv⟩ := h.remove hfuel hholds
      refine ⟨_, ?_, hinv, ?_⟩
      · simp only [System.step, Trie.removeKey, hr, he]
        exact bind_eq_ok.2 ⟨_, ht', rfl⟩
      · rw [Op.output, he]
        rfl

/-- A trie holds the prefixes that were inserted and not removed.  Lookups return the value of the
shortest one that matches, and insertions and removals return. -/
theorem exec_refines_prefixMap {ops : List (Op w α)} (hfuel : w < fuel)
    (h : Exec (Guarded Allowed (step fuel)) initial ops s) :
    (∀ key, s.trie.lookup fuel key = .ok ((shortest? s.stored key).map Entry.value)) ∧
      (∀ e, e ∈ s.stored ↔ s.trie.Holds e) ∧
      ∀ op, Allowed s op → ∃ s', s.step fuel op = .ok s' ∧ s'.out = op.output s.stored := by
  have hinv : Inv s := h.invariant_ok inv_initial fun hs hok =>
    (hs.step hfuel hok).imp fun _ hs' => ⟨hs'.1, hs'.2.1⟩
  refine ⟨hinv.lookup_eq hfuel, hinv.mem_stored, ?_⟩
  intro op hok
  obtain ⟨s', hs', -, hout⟩ := hinv.step hfuel hok
  exact ⟨s', hs', hout⟩

theorem exec_refines_prefixMap_removed :
    ∃ s : System 4 ℕ, Exec (Guarded Allowed (step 5)) initial
        [.insert 0b1010 3 7, .insert 0b1000 1 8, .insert 0b1100 2 9, .remove 2, .remove 3] s ∧
      s.trie.lookup 5 0b1011 = .ok (some 7) ∧ s.trie.lookup 5 0b0011 = .ok none := by
  refine exists_exec (fun s key => (shortest? s.stored key).map Entry.value) _ rfl
    fun s hs hval => ?_
  obtain ⟨hlookup, -, -⟩ := exec_refines_prefixMap (by decide) hs
  exact ⟨(hlookup _).trans (congrArg Except.ok (congrFun hval _)),
    (hlookup _).trans (congrArg Except.ok (congrFun hval _))⟩

end System

end ChipletGem5.Trie
