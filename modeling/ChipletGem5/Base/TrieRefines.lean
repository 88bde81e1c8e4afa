import ChipletGem5.Base.TrieLookup
import ChipletGem5.Lib.Exec

/-!
# A trie is a map of prefixes

What a trie holds are the nodes with values.  An insertion adds one of them, with the prefix that it
was called with, and a removal takes one of them away.  The nodes without values, other than the
head, have two kids, so that a removal can tell from the number of kids what is left to do.
-/

namespace ChipletGem5.Trie

open Option Function BitVec

variable {w : ℕ} {α : Type} {t t' : Trie w α} {p q k : ℕ} {n m l : Node w α} {key : BitVec w}
  {i : Fin 2}

/-- The nodes have their links, and those without a value have two kids. -/
structure WellFormed (t : Trie w α) : Prop extends Linked t where
  busy : ∀ p n, t.node p = some n → p ≠ 0 → n.value = none → n.kids 1 ≠ none

/-- A prefix with its value, and the node that it is held in. -/
structure Entry (w : ℕ) (α : Type) where
  handle : ℕ
  key : BitVec w
  width : ℕ
  value : α

def Holds (t : Trie w α) (e : Entry w α) : Prop :=
  ∃ n, t.node e.handle = some n ∧ n.key = e.key ∧ n.width = e.width ∧ n.value = some e.value

lemma Holds.unique {e e' : Entry w α} (h : t.Holds e) (h' : t.Holds e')
    (heq : e.handle = e'.handle) : e = e' := by
  obtain ⟨n, hn, hkey, hwidth, hvalue⟩ := h
  obtain ⟨n', hn', hkey', hwidth', hvalue'⟩ := h'
  rw [← heq] at hn'
  cases hn.symm.trans hn'
  obtain ⟨handle, key, width, value⟩ := e
  obtain ⟨handle', key', width', value'⟩ := e'
  rw [hvalue, Option.some.injEq] at hvalue'
  simp only [Entry.mk.injEq]
  exact ⟨heq, hkey.symm.trans hkey', hwidth.symm.trans hwidth', hvalue'⟩

/-- The key, the mask and the value of a node, if it has one. -/
def stored (t : Trie w α) (p : ℕ) : Option (BitVec w × BitVec w × α) :=
  (t.node p).bind fun n => n.value.map fun v => (n.key, n.mask, v)

lemma stored_eq_some (hp : t.node p = some n) {v : α} (hv : n.value = some v) :
    t.stored p = some (n.key, n.mask, v) := by
  rw [stored, hp, bind_some, hv, map_some]

lemma stored_eq_none (h : ∀ n, t.node p = some n → n.value = none) : t.stored p = none := by
  rcases hp : t.node p with _ | n
  · rw [stored, hp, bind_none]
  · rw [stored, hp, bind_some, h n hp, map_none]

lemma holds_iff {e : Entry w α} : t.Holds e ↔
    ∃ mask, maskWidth mask = e.width ∧ t.stored e.handle = some (e.key, mask, e.value) := by
  constructor
  · rintro ⟨n, hn, hkey, hwidth, hvalue⟩
    refine ⟨n.mask, hwidth, ?_⟩
    rw [stored_eq_some hn hvalue, hkey]
  · rintro ⟨mask, hmask, heq⟩
    obtain ⟨n, hn, hentry⟩ := bind_eq_some_iff.1 heq
    obtain ⟨v, hv, hentry⟩ := map_eq_some_iff.1 hentry
    simp only [Prod.mk.injEq] at hentry
    obtain ⟨hkey, rfl, rfl⟩ := hentry
    exact ⟨n, hn, hkey, hmask, hv⟩

lemma holds_of_stored {key mask : BitVec w} {v : α} (hp : t.stored p = none)
    (hp' : t'.stored p = some (key, mask, v)) (hother : ∀ x, x ≠ p → t'.stored x = t.stored x)
    (e : Entry w α) : t'.Holds e ↔ t.Holds e ∨ e = ⟨p, key, maskWidth mask, v⟩ := by
  rw [holds_iff, holds_iff]
  rcases eq_or_ne e.handle p with he | he
  · rw [he, hp, hp']
    obtain ⟨handle, key', width, value⟩ := e
    simp [eq_comm]
    tauto
  · rw [hother _ he]
    constructor
    · exact .inl
    · rintro (hold | rfl)
      · exact hold
      · exact absurd rfl he

/-! ### Writing to nodes -/

lemma setKid_eq (hp : t.node p = some n) (i : Fin 2) (kid : Option ℕ) :
    t.setKid p i kid = .ok (t.set p { n with kids := update n.kids i kid }) :=
  bind_eq_ok.2 ⟨n, deref_eq_ok.2 hp, rfl⟩

lemma setParent_eq (hp : t.node p = some n) (parent : ℕ) :
    t.setParent p parent = .ok (t.set p { n with parent := some parent }) :=
  bind_eq_ok.2 ⟨n, deref_eq_ok.2 hp, rfl⟩

@[simp] lemma fresh_set (t : Trie w α) (p : ℕ) (n : Node w α) : (t.set p n).fresh = t.fresh := rfl

@[simp] lemma fresh_alloc (t : Trie w α) (n : Node w α) : (t.alloc n).fresh = t.fresh + 1 := rfl

@[simp] lemma fresh_free (t : Trie w α) (p : ℕ) : (t.free p).fresh = t.fresh := rfl

/-! ### Insertion -/

lemma stored_congr {x : ℕ} (h : t'.node x = t.node x) : t'.stored x = t.stored x := by
  rw [stored, stored, h]

lemma stored_eq_of {x : ℕ} (hn : t'.node x = some m) (hm : t.node x = some n)
    (hkey : m.key = n.key) (hmask : m.mask = n.mask) (hvalue : m.value = n.value) :
    t'.stored x = t.stored x := by
  rw [stored, stored, hn, hm, bind_some, bind_some, hkey, hmask, hvalue]

lemma Linked.setValue_holds (h : Linked t) (hp : t.node p = some n) (hp0 : p ≠ 0)
    (hbusy : ∀ x r, t.node x = some r → x ≠ 0 → r.value = none → r.kids 1 ≠ none ∨ x = p)
    (hv : n.value = none) (v : α) : WellFormed (t.set p { n with value := some v }) ∧
      ∀ e, (t.set p { n with value := some v }).Holds e ↔
        t.Holds e ∨ e = ⟨p, n.key, n.width, v⟩ := by
  have hp' : (t.set p { n with value := some v }).node p = some { n with value := some v } := by
    rw [node_set, if_pos rfl]
  refine ⟨⟨h.setValue hp _ (fun h0 => absurd h0 hp0), ?_⟩, ?_⟩
  · intro x r hr hx hvalue
    rw [node_set] at hr
    split_ifs at hr with hxp
    · cases hr
      cases hvalue
    · exact (hbusy x r hr hx hvalue).resolve_right hxp
  · refine holds_of_stored ?_ (stored_eq_some hp' rfl) ?_
    · refine stored_eq_none fun r hr => ?_
      rwa [← Option.some.inj (hp.symm.trans hr)]
    · intro x hx
      exact stored_congr (by rw [node_set, if_neg hx])

def Inserted (t : Trie w α) (key : BitVec w) (L : ℕ) (v : α)
    (r : Result (Trie w α × ℕ)) : Prop :=
  ∃ t' handle, r = .ok (t', handle) ∧ WellFormed t' ∧
    ∀ e, t'.Holds e ↔ t.Holds e ∨ e = ⟨handle, key, L, v⟩

variable {L fuel : ℕ}

lemma inserted_addLeaf (h : Linked t) (v : α) (hL : L ≤ w) (hq : t.node q = some n)
    (hi : n.kids i = none) (hfirst : i = 1 → n.kids 0 ≠ none) (hwidth : n.width < L)
    (hkey : AgreeOn n.width key n.key) (hclean : key &&& prefixMask w L = key)
    (hbusy : ∀ x r, t.node x = some r → x ≠ 0 → r.value = none → r.kids 1 ≠ none ∨ x = q ∧ i = 1)
    (hsplit : ∀ j k m, n.kids j = some k → t.node k = some m →
      m.key.getMsbD n.width ≠ key.getMsbD n.width) :
    t.Inserted key L v (t.addLeaf q i key (prefixMask w L) (some v)) := by
  obtain ⟨hproper, hwidth'⟩ := Node.new_proper hL key (some v)
  let leaf : Node w α := { Node.new key (prefixMask w L) (some v) with parent := some q }
  let n' : Node w α := { n with kids := update n.kids i (some t.fresh) }
  have hleafKey : leaf.key = key := hclean
  have hleafWidth : leaf.width = L := hwidth'
  have hne := h.ne_fresh hq
  have hnode : ∀ x, ((t.alloc leaf).set q n').node x =
      if x = q then some n' else if x = t.fresh then some leaf else t.node x := by
    intro x
    rw [node_set, node_alloc]
  have hleaf' : ((t.alloc leaf).set q n').node t.fresh = some leaf := by
    rw [hnode, if_neg hne.symm, if_pos rfl]
  have hlinked : Linked ((t.alloc leaf).set q n') := by
    refine h.putNode hq hi hfirst rfl (by rw [hnode, if_pos rfl]) hleaf' nofun
      (fun x hxq hxf _ => by rw [hnode, if_neg hxq, if_neg hxf]) (hproper.congr rfl rfl) rfl
      (update_eq_self_iff.2 rfl).symm ?_ fun j k m _ => ?_
    · refine ⟨by omega, ?_⟩
      rw [hleafKey]
      exact hkey.symm
    · rw [hleafKey]
      exact hsplit j k m
  refine ⟨(t.alloc leaf).set q n', t.fresh, ?_, ⟨hlinked, ?_⟩, ?_⟩
  · refine bind_eq_ok.2 ⟨_, setKid_eq ?_ i _, rfl⟩
    rw [node_alloc, if_neg hne, hq]
  · intro x r hr hx hvalue
    rw [hnode] at hr
    split_ifs at hr with hxq hxf
    · cases hr
      show update n.kids i (some t.fresh) 1 ≠ none
      rcases eq_or_ne 1 i with rfl | hi
      · simp
      · rw [update_of_ne hi]
        rcases hbusy q n hq (hxq ▸ hx) hvalue with hkids | ⟨-, hi'⟩
        · exact hkids
        · exact absurd hi'.symm hi
    · cases hr
      cases hvalue
    · rcases hbusy x r hr hx hvalue with hkids | ⟨hxq', -⟩
      · exact hkids
      · exact absurd hxq' hxq
  · rw [← hleafKey, ← hleafWidth]
    refine holds_of_stored ?_ (stored_eq_some hleaf' rfl) ?_
    · exact stored_eq_none fun r hr => absurd rfl (h.ne_fresh hr)
    · intro x hx
      rcases eq_or_ne x q with rfl | hxq
      · exact stored_eq_of (m := n') (by rw [hnode, if_pos rfl]) hq rfl rfl rfl
      · exact stored_congr (by rw [hnode, if_neg hxq, if_neg hx])

lemma holds_iff_of_stored (h : ∀ x, t'.stored x = t.stored x) (e : Entry w α) :
    t'.Holds e ↔ t.Holds e := by
  rw [holds_iff, holds_iff, h]

/-- A node is put on the leg from `q` to `k`, at a width between theirs.  It stores nothing, and has
one kid until the other one is added. -/
lemma splitLeg_spec (h : WellFormed t) {c : ℕ} (hc : c ≤ w) (hq : t.node q = some n)
    (hi : n.kids i = some k) (hm : t.node k = some m) (hwidth : n.width < c)
    (hwidth' : c < m.width) (hkey : AgreeOn n.width key n.key) (hkey' : AgreeOn c key m.key) :
    ∃ t' new, t.splitLeg q i k key (prefixMask w c) = .ok (t', t.fresh) ∧ Linked t' ∧
      t'.node t.fresh = some new ∧ new.key = key &&& prefixMask w c ∧
      new.mask = prefixMask w c ∧ new.value = none ∧ new.kids 0 = some k ∧ new.kids 1 = none ∧
      (∃ m', t'.node k = some m' ∧ m'.key = m.key) ∧ (∀ x, t'.stored x = t.stored x) ∧
      ∀ x r, t'.node x = some r → x ≠ 0 → r.value = none → r.kids 1 ≠ none ∨ x = t.fresh := by
  obtain ⟨hproper, hwidthNew⟩ := Node.new_proper hc key (none : Option α)
  let leg : Node w α := { Node.new key (prefixMask w c) none with parent := some q }
  let new : Node w α := { leg with kids := update (fun _ => none) 0 (some k) }
  let n' : Node w α := { n with kids := update n.kids i (some t.fresh) }
  let m' : Node w α := { m with parent := some t.fresh }
  have hnewKey : new.key = key &&& prefixMask w c := rfl
  have hnewWidth : new.width = c := hwidthNew
  have hne := h.ne_fresh hq
  have hkf := h.ne_fresh hm
  have hkq := h.kid_ne hq hi
  have hagree : AgreeOn c (key &&& prefixMask w c) key := and_prefixMask_agreeOn hc
  -- the four writes change the nodes `q`, `k` and the new one
  let t' := (((t.alloc leg).set k m').set t.fresh new).set q n'
  have hnode : ∀ x, t'.node x = if x = q then some n' else if x = t.fresh then some new
      else if x = k then some m' else t.node x := by
    intro x
    show ((((t.alloc leg).set k m').set t.fresh new).set q n').node x = _
    rw [node_set, node_set, node_set, node_alloc]
    split_ifs <;> rfl
  have hext : n.Extends new := by
    refine ⟨by omega, ?_⟩
    rw [hnewKey]
    exact hkey.symm.trans (hagree.mono hwidth.le).symm
  have hext' : new.Extends m := by
    refine ⟨by omega, ?_⟩
    rw [hnewWidth, hnewKey]
    exact hagree.trans hkey'
  have hq' : t'.node q = some n' := by rw [hnode, if_pos rfl]
  have hnew : t'.node t.fresh = some new := by rw [hnode, if_neg hne.symm, if_pos rfl]
  have hk' : t'.node k = some m' := by rw [hnode, if_neg hkq, if_neg hkf, if_pos rfl]
  have hlinked : Linked t' := by
    refine h.toLinked.putNode hq hi (fun _ => h.first_ne_none hq hi) rfl hq' hnew ?_ ?_
      (hproper.congr rfl rfl) rfl rfl hext fun j k1 m1 hj hk1 hm1 => ?_
    · rintro _ m1 ⟨⟩ hm1
      cases hm.symm.trans hm1
      exact ⟨hk', hext'⟩
    · intro x hxq hxf hxk
      rw [hnode, if_neg hxq, if_neg hxf, if_neg fun hx => hxk (congrArg some hx)]
    · rw [← hext.getMsbD hext']
      exact (h.fits q n hq).split j i k1 k m1 m hj hk1 hi hm1 hm
  refine ⟨t', new, ?_, hlinked, hnew, hnewKey, rfl, rfl, rfl, rfl, ⟨m', hk', rfl⟩, ?_, ?_⟩
  · refine bind_eq_ok.2 ⟨(t.alloc leg).set k m', setParent_eq ?_ _, ?_⟩
    · rw [node_alloc, if_neg hkf, hm]
    refine bind_eq_ok.2 ⟨((t.alloc leg).set k m').set t.fresh new, setKid_eq (n := leg) ?_ _ _, ?_⟩
    · rw [node_set, if_neg hkf.symm, node_alloc, if_pos rfl]
    · refine bind_eq_ok.2 ⟨_, setKid_eq ?_ _ _, rfl⟩
      rw [node_set, if_neg hne, node_set, if_neg hkq.symm, node_alloc, if_neg hne, hq]
  · -- what is stored does not depend on the links
    intro x
    rcases eq_or_ne x q with rfl | hxq
    · exact stored_eq_of (m := n') (by rw [hnode, if_pos rfl]) hq rfl rfl rfl
    rcases eq_or_ne x t.fresh with rfl | hxf
    · rw [stored_eq_none (t := t) fun r hr => absurd rfl (h.ne_fresh hr)]
      refine stored_eq_none fun r hr => ?_
      rw [hnode, if_neg hxq, if_pos rfl] at hr
      rw [← Option.some.inj hr]
      rfl
    rcases eq_or_ne x k with rfl | hxk
    · exact stored_eq_of (m := m') (by rw [hnode, if_neg hxq, if_neg hxf, if_pos rfl]) hm rfl rfl
        rfl
    · exact stored_congr (by rw [hnode, if_neg hxq, if_neg hxf, if_neg hxk])
  · -- only the new node may have one kid and no value
    intro x r hr hx hvalue
    rw [hnode] at hr
    split_ifs at hr with hxq hxf hxk
    · cases hr
      show update n.kids i (some t.fresh) 1 ≠ none ∨ _
      rcases eq_or_ne 1 i with rfl | hi
      · simp
      · rw [update_of_ne hi]
        exact .inl (h.busy q n hq (hxq ▸ hx) hvalue)
    · exact .inr hxf
    · cases hr
      exact .inl (h.busy k m hm (hxk ▸ hx) hvalue)
    · exact .inl (h.busy x r hr hx hvalue)

section

variable (h : WellFormed t) (v : α) (hL : L ≤ w) (hfuel : w < fuel) (hq : t.node q = some n)
  (hwidth : n.width < L) (hkey : AgreeOn n.width key n.key) (hclean : key &&& prefixMask w L = key)
include h v hL hfuel hq hwidth hkey hclean

/-- The leg to a kid is split, unless the first bit of it differs from the key. -/
lemma insertBelow_kid (hi : n.kids i = some k) (hm : t.node k = some m)
    (hafter : AgreeOn m.width key m.key → L < m.width) (is : List (Fin 2)) :
    t.Inserted key L v (t.insertBelow fuel q key (prefixMask w L) (some v) (i :: is) n.mask) ∨
      key.getMsbD n.width ≠ m.key.getMsbD n.width ∧
        t.insertBelow fuel q key (prefixMask w L) (some v) (i :: is) n.mask =
          t.insertBelow fuel q key (prefixMask w L) (some v) is n.mask := by
  have hmask := (h.fits q n hq).proper.mask_eq
  have hagree : AgreeOn n.width key m.key := hkey.trans (h.eq_parent hq hi hm).2.agreeOn
  obtain ⟨c, hwalk, hle, hcL, hkey', hend⟩ := walkDown_spec hL fuel hwidth.le hagree (by omega)
  rw [← hmask] at hwalk
  have hcw : c ≤ w := hcL.trans hL
  rcases Nat.lt_or_eq_of_le hle with hlt | rfl
  · refine .inl ?_
    have hcm : c < m.width := by
      by_contra hge
      have hlt' := hafter (hkey'.mono (Nat.le_of_not_lt hge))
      omega
    obtain ⟨t', new, ht', hlinked, hnew, hnewKey, hnewMask, hnewValue, hkid0, hkid1, hm', hstored,
      hbusy⟩ := splitLeg_spec h hcw hq hi hm hlt hcm hkey hkey'
    have hnewWidth : new.width = c := by
      rw [Node.width, hnewMask, maskWidth_prefixMask hcw]
    have hne : prefixMask w c ≠ n.mask := by
      rw [hmask, ne_eq, prefixMask_inj hcw (by omega)]
      omega
    rw [insertBelow, deref_eq_ok.2 hq]
    simp only [ok_bind, hi, deref_eq_ok.2 hm, hwalk, if_neg hne, ht']
    rcases Nat.lt_or_eq_of_le hcL with hcL' | rfl
    · -- the value goes to a leaf below the new node
      have hne' : prefixMask w c ≠ prefixMask w L := by
        rw [ne_eq, prefixMask_inj hcw hL]
        omega
      have hbit : key.getMsbD c ≠ m.key.getMsbD c := hend.resolve_left hcL'.ne
      have hins := inserted_addLeaf (i := 1) hlinked v hL hnew hkid1
        (fun _ => by rw [hkid0]; exact some_ne_none k) (by omega) ?_ hclean ?_ ?_
      · obtain ⟨t'', handle, heq, hwf, hholds⟩ := hins
        refine ⟨t'', handle, ?_, hwf, fun e => ?_⟩
        · simp only [if_neg hne', heq]
        · rw [hholds, holds_iff_of_stored hstored]
      · rw [hnewWidth, hnewKey]
        exact (and_prefixMask_agreeOn hcw).symm
      · intro x r hr hx hvalue
        rcases hbusy x r hr hx hvalue with hkids | hxf
        · exact .inl hkids
        · exact .inr ⟨hxf, rfl⟩
      · intro j k1 m1 hk1 hm1
        fin_cases j
        · cases hk1.symm.trans hkid0
          obtain ⟨m', hm', hmkey⟩ := hm'
          cases hm1.symm.trans hm'
          rw [hnewWidth, hmkey]
          exact hbit.symm
        · cases hk1.symm.trans hkid1
    · -- the value goes to the new node
      have hfresh0 : t.fresh ≠ 0 := by
        obtain ⟨r, hr, -⟩ := h.head
        exact (h.ne_fresh hr).symm
      obtain ⟨hwf, hholds⟩ := hlinked.setValue_holds hnew hfresh0 hbusy hnewValue v
      refine ⟨_, t.fresh, ?_, hwf, fun e => ?_⟩
      · simp only [ok_bind, if_true, deref_eq_ok.2 hnew]
        rfl
      · rw [hholds, holds_iff_of_stored hstored, hnewWidth, hnewKey.trans hclean]
  · refine .inr ⟨hend.resolve_left hwidth.ne, ?_⟩
    rw [insertBelow, deref_eq_ok.2 hq]
    simp only [ok_bind, hi, deref_eq_ok.2 hm, hwalk, ← hmask, if_true]

lemma inserted_insertBelow
    (hafter : ∀ i k m, n.kids i = some k → t.node k = some m → AgreeOn m.width key m.key →
      L < m.width) :
    t.Inserted key L v (t.insertBelow fuel q key (prefixMask w L) (some v) [0, 1] n.mask) := by
  have hn := h.fits q n hq
  have hbusy : ∀ i x r, t.node x = some r → x ≠ 0 → r.value = none →
      r.kids 1 ≠ none ∨ x = q ∧ (i : Fin 2) = 1 :=
    fun i x r hr hx hvalue => .inl (h.busy x r hr hx hvalue)
  -- a slot that is free takes the new leaf
  have hfree : ∀ i is, n.kids i = none →
      t.insertBelow fuel q key (prefixMask w L) (some v) (i :: is) n.mask =
        t.addLeaf q i key (prefixMask w L) (some v) := by
    intro i is hi
    rw [insertBelow, deref_eq_ok.2 hq]
    simp only [ok_bind, hi]
  rcases hk0 : n.kids 0 with _ | k0
  · rw [hfree 0 [1] hk0]
    refine inserted_addLeaf h.toLinked v hL hq hk0 (by simp) hwidth hkey hclean (hbusy 0) ?_
    intro j k m hk
    fin_cases j
    · cases hk0.symm.trans hk
    · cases (hn.first hk0).symm.trans hk
  · obtain ⟨m0, hm0, -⟩ := hn.kid 0 k0 hk0
    rcases insertBelow_kid h v hL hfuel hq hwidth hkey hclean hk0 hm0 (hafter 0 k0 m0 hk0 hm0) [1]
      with hins | ⟨hbit0, heq0⟩
    · exact hins
    rw [heq0]
    rcases hk1 : n.kids 1 with _ | k1
    · rw [hfree 1 [] hk1]
      refine inserted_addLeaf h.toLinked v hL hq hk1 ?_ hwidth hkey hclean (hbusy 1) ?_
      · intro _
        rw [hk0]
        exact some_ne_none k0
      · intro j k m hk hm
        fin_cases j
        · cases hk0.symm.trans hk
          cases hm0.symm.trans hm
          exact hbit0.symm
        · cases hk1.symm.trans hk
    · obtain ⟨m1, hm1, -⟩ := hn.kid 1 k1 hk1
      rcases insertBelow_kid h v hL hfuel hq hwidth hkey hclean hk1 hm1 (hafter 1 k1 m1 hk1 hm1) []
        with hins | ⟨hbit1, -⟩
      · exact hins
      · -- one of the two kids has the next bit of the key
        have hbit := hn.split 0 1 k0 k1 m0 m1 zero_ne_one hk0 hk1 hm0 hm1
        cases hb : key.getMsbD n.width <;> cases hb0 : m0.key.getMsbD n.width <;>
          cases hb1 : m1.key.getMsbD n.width <;> simp_all

end

lemma inserted_insert (h : WellFormed t) {width : ℕ} (v : α) (hfuel : w < fuel)
    (hpos : 1 ≤ width) (hwidth : width ≤ w)
    (hnew : ∀ e, t.Holds e → ¬ (e.width = width ∧ e.key = key &&& prefixMask w width)) :
    t.Inserted (key &&& prefixMask w width) width v (t.insert fuel key width (some v)) := by
  have hmask : (if width < w then allOnes w <<< (w - width) else allOnes w) =
      prefixMask w width := by
    split_ifs with hlt
    · rfl
    · have heq : w - width = 0 := by omega
      rw [prefixMask, heq, shiftLeft_zero]
  have hclean : key &&& prefixMask w width &&& prefixMask w width = key &&& prefixMask w width := by
    rw [BitVec.and_assoc, BitVec.and_self]
  obtain ⟨r, hr, hr0, -⟩ := h.head
  have hroot : AgreeOn r.width (key &&& prefixMask w width) r.key := by
    rw [hr0]
    exact AgreeOn.zero _ _
  obtain ⟨q, n, hwalk, hq, hkey, hle, hafter⟩ :=
    walkPast_spec h.toLinked hwidth fuel hr hroot (by omega) (by omega)
  have hproper := (h.fits q n hq).proper
  rw [insert, hmask]
  simp only [require, ok_bind, isSome_some, if_true, hwalk, deref_eq_ok.2 hq]
  rcases Nat.lt_or_eq_of_le hle with hlt | heq
  · have hne : n.mask ≠ prefixMask w width := by
      rw [hproper.mask_eq, ne_eq, prefixMask_inj hproper.width_le hwidth]
      omega
    rw [if_neg hne]
    exact inserted_insertBelow h v hwidth hfuel hq hlt hkey hclean hafter
  · -- the node is there already
    have hkey' : n.key = key &&& prefixMask w width := by
      have hn := (and_prefixMask_eq_iff hproper.width_le).2 hkey
      rw [← hproper.mask_eq, hproper.key_eq] at hn
      rw [← hn, hproper.mask_eq, heq, hclean]
    have hvalue : n.value = none := by
      by_contra hne
      obtain ⟨v', hv'⟩ := ne_none_iff_exists'.1 hne
      exact hnew ⟨q, n.key, n.width, v'⟩ ⟨n, hq, rfl, rfl, hv'⟩ ⟨heq, hkey'⟩
    have hq0 : q ≠ 0 := by
      rintro rfl
      cases hr.symm.trans hq
      omega
    obtain ⟨hwf, hholds⟩ := h.setValue_holds hq hq0
      (fun x r hr hx hnone => .inl (h.busy x r hr hx hnone)) hvalue v
    rw [if_pos (by rw [hproper.mask_eq, heq])]
    refine ⟨_, q, ?_, hwf, ?_⟩
    · rw [hvalue]
      rfl
    · rwa [← hkey', ← heq]

end ChipletGem5.Trie
