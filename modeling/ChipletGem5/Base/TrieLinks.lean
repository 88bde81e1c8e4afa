import ChipletGem5.Base.Trie
import ChipletGem5.Lib.PrefixMask

/-!
# The links of a trie

The invariant of a trie, in terms of the widths of prefixes.  The keys below a node agree on the
bits of its prefix, and the keys below its two kids differ in the next bit.  `Linked.change` says
what has to be shown when a trie is changed in a few places: the nodes that are changed fit, and
those next to them still see what they saw before.  Insertions and removals amount to two changes:
a node is put in somewhere, or taken away.
-/

namespace ChipletGem5.Trie

open Function Option Trie.Node

variable {w : ℕ} {α : Type} {t t' : Trie w α}

/-- The number of bits that are common to all keys below a node. -/
def Node.width (n : Node w α) : ℕ := maskWidth n.mask

/-- The mask of a node is that of a prefix, and the other bits of its key are clear. -/
structure Node.Proper (n : Node w α) : Prop where
  width_le : n.width ≤ w
  mask_eq : n.mask = prefixMask w n.width
  key_eq : n.key &&& n.mask = n.key

/-- The prefix of a node goes on in another one. -/
structure Node.Extends (n m : Node w α) : Prop where
  width_lt : n.width < m.width
  agreeOn : AgreeOn n.width n.key m.key

/-- What a node is for its parent. -/
def Node.above (n : Node w α) : BitVec w × BitVec w × Option ℕ := (n.key, n.mask, n.parent)

/-- What a node is for its kids. -/
def Node.below (n : Node w α) : BitVec w × BitVec w × (Fin 2 → Option ℕ) := (n.key, n.mask, n.kids)

/-- A node and its kids. -/
structure Fits (t : Trie w α) (p : ℕ) (n : Node w α) : Prop where
  proper : n.Proper
  kid : ∀ i k, n.kids i = some k → ∃ m, t.node k = some m ∧ m.parent = some p ∧ n.Extends m
  first : n.kids 0 = none → n.kids 1 = none
  split : ∀ i j k k' m m', i ≠ j → n.kids i = some k → n.kids j = some k' → t.node k = some m →
    t.node k' = some m' → m.key.getMsbD n.width ≠ m'.key.getMsbD n.width

def IsKid (t : Trie w α) (k : ℕ) (m : Node w α) : Prop :=
  ∃ p n i, m.parent = some p ∧ t.node p = some n ∧ n.kids i = some k

/-- The invariant for the links of all nodes. -/
structure Linked (t : Trie w α) : Prop where
  head : ∃ n, t.node 0 = some n ∧ n.width = 0 ∧ n.value = none ∧ n.parent = none
  fresh : ∀ p n, t.node p = some n → p < t.fresh
  fits : ∀ p n, t.node p = some n → t.Fits p n
  isKid : ∀ k m, t.node k = some m → k ≠ 0 → t.IsKid k m

namespace Node

variable {n m m' n' : Node w α}

lemma Extends.trans {l : Node w α} (h : n.Extends m) (h' : m.Extends l) : n.Extends l :=
  ⟨h.width_lt.trans h'.width_lt, h.agreeOn.trans (h'.agreeOn.mono h.width_lt.le)⟩

lemma Extends.getMsbD {l : Node w α} (h : n.Extends m) (h' : m.Extends l) :
    l.key.getMsbD n.width = m.key.getMsbD n.width :=
  (h'.agreeOn _ h.width_lt).symm

lemma Proper.congr (h : m.Proper) (hkey : m'.key = m.key)
    (hmask : m'.mask = m.mask) : m'.Proper := by
  obtain ⟨hle, heq, hkey'⟩ := h
  constructor
  · rwa [width, hmask]
  · rwa [width, hmask]
  · rwa [hkey, hmask]

lemma Extends.congr (h : n.Extends m) (hkey : n'.key = n.key)
    (hmask : n'.mask = n.mask) (hkey' : m'.key = m.key) (hmask' : m'.mask = m.mask) :
    n'.Extends m' := by
  have hn : n'.width = n.width := by rw [width, hmask, width]
  have hm : m'.width = m.width := by rw [width, hmask', width]
  constructor
  · rw [hn, hm]
    exact h.width_lt
  · rw [hn, hkey, hkey']
    exact h.agreeOn

lemma above_eq_iff :
    m'.above = m.above ↔ m'.key = m.key ∧ m'.mask = m.mask ∧ m'.parent = m.parent := by
  simp only [above, Prod.mk.injEq]

lemma below_eq_iff : n'.below = n.below ↔ n'.key = n.key ∧ n'.mask = n.mask ∧ n'.kids = n.kids := by
  simp only [below, Prod.mk.injEq]

end Node

lemma Fits.setKid {p k : ℕ} {i : Fin 2} (hn : t.Fits p n)
    (hfirst : i = 1 → n.kids 0 ≠ none) (hm : t'.node k = some m) (hparent : m.parent = some p)
    (hext : n.Extends m) (hother : ∀ j k' m', j ≠ i → n.kids j = some k' → t.node k' = some m' →
      m'.key.getMsbD n.width ≠ m.key.getMsbD n.width ∧
        ∃ m'', t'.node k' = some m'' ∧ m''.above = m'.above) :
    t'.Fits p { n with kids := update n.kids i (some k) } := by
  -- the kid in a slot: the new one, or one that was there before
  have hkid : ∀ j k', update n.kids i (some k) j = some k' → j = i ∧ k' = k ∨
      j ≠ i ∧ ∃ m' m'', n.kids j = some k' ∧ t.node k' = some m' ∧ t'.node k' = some m'' ∧
        m''.above = m'.above ∧ m'.parent = some p ∧ n.Extends m' ∧
        m'.key.getMsbD n.width ≠ m.key.getMsbD n.width := by
    intro j k' hk'
    rcases eq_or_ne j i with rfl | hj
    · rw [update_self] at hk'
      exact .inl ⟨rfl, (Option.some.inj hk').symm⟩
    · rw [update_of_ne hj] at hk'
      obtain ⟨m', hm', hpar, hext'⟩ := hn.kid j k' hk'
      obtain ⟨hbit, m'', hm'', hab⟩ := hother j k' m' hj hk' hm'
      exact .inr ⟨hj, m', m'', hk', hm', hm'', hab, hpar, hext', hbit⟩
  constructor
  case proper => exact hn.proper.congr rfl rfl
  case kid =>
    intro j k' hk'
    rcases hkid j k' hk' with ⟨-, rfl⟩ | ⟨-, m', m'', -, -, hm'', hab, hpar, hext', -⟩
    · exact ⟨m, hm, hparent, hext.congr rfl rfl rfl rfl⟩
    · obtain ⟨hkey, hmask, hpar'⟩ := above_eq_iff.1 hab
      exact ⟨m'', hm'', hpar'.trans hpar, hext'.congr rfl rfl hkey hmask⟩
  case first =>
    intro h0
    rcases eq_or_ne 0 i with rfl | hi
    · have hk : update n.kids 0 (some k) 0 = some k := update_self ..
      cases hk.symm.trans h0
    · exact absurd ((update_of_ne hi ..).symm.trans h0) (hfirst (by omega))
  case split =>
    intro j j' k1 k2 m1 m2 hjj hk1 hk2 hm1 hm2
    rcases hkid j k1 hk1 with ⟨hj, rfl⟩ | ⟨hj, m', m'', hk, hm', hm'', hab, -, -, hbit⟩
    · cases hm1.symm.trans hm
      rcases hkid j' k2 hk2 with ⟨hj', -⟩ | ⟨-, m', m'', -, -, hm'', hab, -, -, hbit⟩
      · exact absurd (hj.trans hj'.symm) hjj
      · cases hm2.symm.trans hm''
        rw [(above_eq_iff.1 hab).1]
        exact hbit.symm
    · cases hm1.symm.trans hm''
      rw [(above_eq_iff.1 hab).1]
      rcases hkid j' k2 hk2 with ⟨-, rfl⟩ | ⟨-, l', l'', hl, hl', hl'', hab', -, -, -⟩
      · cases hm2.symm.trans hm
        exact hbit
      · cases hm2.symm.trans hl''
        rw [(above_eq_iff.1 hab').1]
        exact hn.split j j' k1 k2 m' l' hjj hk hl hm' hl'

lemma Fits.of_first {p : ℕ} (hproper : n.Proper) (hkid : ∀ j k, n.kids j = some k →
      j = 0 ∧ ∃ m, t.node k = some m ∧ m.parent = some p ∧ n.Extends m) : t.Fits p n where
  proper := hproper
  kid j k hk := (hkid j k hk).2
  first _ := by
    by_contra hne
    obtain ⟨k, hk⟩ := ne_none_iff_exists'.1 hne
    exact absurd (hkid 1 k hk).1 (by decide)
  split j j' k k' _ _ hjj hk hk' _ _ := absurd ((hkid j k hk).1.trans (hkid j' k' hk').1.symm) hjj

@[simp] lemma node_set (t : Trie w α) (p x : ℕ) (n : Node w α) :
    (t.set p n).node x = if x = p then some n else t.node x := update_apply ..

@[simp] lemma node_alloc (t : Trie w α) (x : ℕ) (n : Node w α) :
    (t.alloc n).node x = if x = t.fresh then some n else t.node x := update_apply ..

@[simp] lemma node_free (t : Trie w α) (p x : ℕ) :
    (t.free p).node x = if x = p then none else t.node x := update_apply ..

namespace Linked

variable {p q k : ℕ} {n m l : Node w α} {i : Fin 2}

lemma eq_parent (h : Linked t) (hp : t.node p = some n) (hk : n.kids i = some k)
    (hm : t.node k = some m) : m.parent = some p ∧ n.Extends m := by
  obtain ⟨m', hm', hparent, hext⟩ := (h.fits p n hp).kid i k hk
  rw [hm] at hm'
  cases hm'
  exact ⟨hparent, hext⟩

lemma parent_eq {j : Fin 2} (h : Linked t) (hp : t.node p = some n) (hk : n.kids i = some k)
    (hq : t.node q = some l) (hk' : l.kids j = some k) : q = p := by
  obtain ⟨m, hm, hparent, -⟩ := (h.fits p n hp).kid i k hk
  rwa [(h.eq_parent hq hk' hm).1, Option.some.injEq] at hparent

lemma change (h : Linked t) (changed moved : ℕ → Prop)
    (hbelow : ∀ p, ¬ changed p → (t'.node p).map Node.below = (t.node p).map Node.below)
    (habove : ∀ k, ¬ moved k → (t'.node k).map Node.above = (t.node k).map Node.above)
    (hhead : ¬ moved 0) (hvalue : ∀ n, t'.node 0 = some n → n.value = none)
    (hfresh : ∀ p n, t'.node p = some n → p < t'.fresh)
    (hkids : ∀ p n i k, ¬ changed p → t.node p = some n → n.kids i = some k → ¬ moved k)
    (hkept : ∀ p n i k, changed p → t.node p = some n → n.kids i = some k → ¬ moved k →
      ∃ n' j, t'.node p = some n' ∧ n'.kids j = some k)
    (hfits : ∀ p n, changed p → t'.node p = some n → t'.Fits p n)
    (hisKid : ∀ k m, moved k → t'.node k = some m → t'.IsKid k m) : Linked t' := by
  have hold : ∀ p n', ¬ changed p → t'.node p = some n' →
      ∃ n, t.node p = some n ∧ n'.key = n.key ∧ n'.mask = n.mask ∧ n'.kids = n.kids := by
    intro p n' hc hp
    have hb := hbelow p hc
    rw [hp] at hb
    obtain ⟨n, hn, hb⟩ := map_eq_some_iff.1 hb.symm
    exact ⟨n, hn, below_eq_iff.1 hb.symm⟩
  have hsee : ∀ k m, ¬ moved k → t.node k = some m →
      ∃ m', t'.node k = some m' ∧ m'.key = m.key ∧ m'.mask = m.mask ∧ m'.parent = m.parent := by
    intro k m hk hm
    have ha := habove k hk
    rw [hm] at ha
    obtain ⟨m', hm', ha⟩ := map_eq_some_iff.1 ha
    exact ⟨m', hm', above_eq_iff.1 ha⟩
  constructor
  case head =>
    obtain ⟨n, hn, hwidth, -, hparent⟩ := h.head
    obtain ⟨n', hn', -, hmask, hparent'⟩ := hsee 0 n hhead hn
    refine ⟨n', hn', ?_, hvalue n' hn', hparent'.trans hparent⟩
    rwa [width, hmask]
  case fresh => exact hfresh
  case fits =>
    intro p n' hp
    by_cases hc : changed p
    · exact hfits p n' hc hp
    · obtain ⟨n, hn, hkey, hmask, hk⟩ := hold p n' hc hp
      have hfit := h.fits p n hn
      have hwidth : n'.width = n.width := by rw [width, hmask, width]
      constructor
      case proper => exact hfit.proper.congr hkey hmask
      case kid =>
        intro i k hik
        rw [hk] at hik
        obtain ⟨m, hm, hparent, hext⟩ := hfit.kid i k hik
        obtain ⟨m', hm', hkey', hmask', hparent'⟩ := hsee k m (hkids p n i k hc hn hik) hm
        exact ⟨m', hm', hparent'.trans hparent, hext.congr hkey hmask hkey' hmask'⟩
      case first =>
        rw [hk]
        exact hfit.first
      case split =>
        intro i j k k' m1 m2 hij hik hjk hm1 hm2
        rw [hk] at hik hjk
        obtain ⟨m, hm, -⟩ := hfit.kid i k hik
        obtain ⟨m', hm', -⟩ := hfit.kid j k' hjk
        obtain ⟨m3, hm3, hkey3, -⟩ := hsee k m (hkids p n i k hc hn hik) hm
        obtain ⟨m4, hm4, hkey4, -⟩ := hsee k' m' (hkids p n j k' hc hn hjk) hm'
        cases hm1.symm.trans hm3
        cases hm2.symm.trans hm4
        rw [hwidth, hkey3, hkey4]
        exact hfit.split i j k k' m m' hij hik hjk hm hm'
  case isKid =>
    intro k m' hk hk0
    by_cases hm : moved k
    · exact hisKid k m' hm hk
    · have ha := habove k hm
      rw [hk] at ha
      obtain ⟨m, hm', ha⟩ := map_eq_some_iff.1 ha.symm
      obtain ⟨-, -, hpar⟩ := above_eq_iff.1 ha.symm
      obtain ⟨p, n, i, hparent, hp, hik⟩ := h.isKid k m hm' hk0
      refine ⟨p, ?_⟩
      by_cases hc : changed p
      · obtain ⟨n', j, hp', hjk⟩ := hkept p n i k hc hp hik hm
        exact ⟨n', j, hpar.trans hparent, hp', hjk⟩
      · have hb := hbelow p hc
        rw [hp] at hb
        obtain ⟨n', hp', hb⟩ := map_eq_some_iff.1 hb
        refine ⟨n', i, hpar.trans hparent, hp', ?_⟩
        rwa [(below_eq_iff.1 hb).2.2]

/-! ### The changes -/

lemma node_fresh (h : Linked t) : t.node t.fresh = none := by
  by_contra hne
  obtain ⟨n, hn⟩ := ne_none_iff_exists'.1 hne
  exact absurd (h.fresh _ n hn) (lt_irrefl _)

lemma ne_fresh (h : Linked t) (hp : t.node p = some n) : p ≠ t.fresh := (h.fresh p n hp).ne

lemma kid_ne (h : Linked t) (hp : t.node p = some n) (hk : n.kids i = some k) : k ≠ p := by
  rintro rfl
  exact absurd (h.eq_parent hp hk hp).2.width_lt (lt_irrefl _)

lemma ne_of_extends (hp : t.node p = some n) (hq : t.node q = some m) (hext : n.Extends m) :
    q ≠ p := by
  rintro rfl
  cases hp.symm.trans hq
  exact absurd hext.width_lt (lt_irrefl _)

section

variable (h : Linked t)
include h

lemma kid_inj (hp : t.node p = some n) {j : Fin 2} (hi : n.kids i = some k)
    (hj : n.kids j = some k) : i = j := by
  by_contra hij
  obtain ⟨m, hm, -⟩ := (h.fits p n hp).kid i k hi
  exact (h.fits p n hp).split i j k k m m hij hi hj hm hm rfl

lemma first_ne_none (hp : t.node p = some n) (hi : n.kids i = some k) : n.kids 0 ≠ none := by
  intro h0
  obtain rfl | rfl : i = 0 ∨ i = 1 := by omega
  · cases hi.symm.trans h0
  · cases hi.symm.trans ((h.fits p n hp).first h0)

lemma head_ne_kid (hp : t.node p = some n) (hk : n.kids i = some k) : k ≠ 0 := by
  rintro rfl
  obtain ⟨r, hr, -, -, hparent⟩ := h.head
  have hpar := (h.eq_parent hp hk hr).1
  rw [hparent] at hpar
  cases hpar

lemma value_head (hr : t.node 0 = some n) : n.value = none := by
  obtain ⟨r, hr', -, hvalue, -⟩ := h.head
  rw [hr] at hr'
  cases hr'
  exact hvalue

lemma setValue (hp : t.node p = some n) (v : Option α) (hv : p = 0 → v = none) :
    Linked (t.set p { n with value := v }) := by
  refine h.change (fun _ => False) (fun _ => False) ?_ ?_ id ?_ ?_ ?_ ?_ ?_ ?_
  · intro x _
    rw [node_set]
    split_ifs with hx
    · rw [hx, hp]
      rfl
    · rfl
  · intro x _
    rw [node_set]
    split_ifs with hx
    · rw [hx, hp]
      rfl
    · rfl
  · intro m hm
    rw [node_set] at hm
    split_ifs at hm with hx
    · cases hm
      exact hv hx.symm
    · exact h.value_head hm
  · intro x m hm
    rw [node_set] at hm
    split_ifs at hm with hx
    · exact hx ▸ h.fresh p n hp
    · exact h.fresh x m hm
  · exact fun _ _ _ _ _ _ _ => id
  · exact fun _ _ _ _ hc => hc.elim
  · exact fun _ _ hc => hc.elim
  · exact fun _ _ hc => hc.elim

/-- A new node is put on the link to a kid, or below a node without a kid in the slot. -/
lemma putNode {new : Node w α} {kid : Option ℕ} (hq : t.node q = some n) (hi : n.kids i = kid)
    (hfirst : i = 1 → n.kids 0 ≠ none) (hfresh : t'.fresh = t.fresh + 1)
    (hq' : t'.node q = some { n with kids := update n.kids i (some t.fresh) })
    (hnew : t'.node t.fresh = some new)
    (hkid : ∀ k m, kid = some k → t.node k = some m →
      t'.node k = some { m with parent := some t.fresh } ∧ new.Extends m)
    (hrest : ∀ x, x ≠ q → x ≠ t.fresh → some x ≠ kid → t'.node x = t.node x)
    (hproper : new.Proper) (hparent : new.parent = some q)
    (hkids : new.kids = update (fun _ => none) 0 kid) (hext : n.Extends new)
    (hsplit : ∀ j k m, j ≠ i → n.kids j = some k → t.node k = some m →
      m.key.getMsbD n.width ≠ new.key.getMsbD n.width) : Linked t' := by
  have hn := h.fits q n hq
  have hhead : ¬ ((0 : ℕ) = t.fresh ∨ some 0 = kid) := by
    obtain ⟨r, hr, -⟩ := h.head
    exact not_or.2 ⟨h.ne_fresh hr, fun h0 => h.head_ne_kid hq (hi.trans h0.symm) rfl⟩
  -- the kid has a node, whose parent alone is another one
  have hmoved : ∀ k, some k = kid → ∃ m, t.node k = some m ∧
      t'.node k = some { m with parent := some t.fresh } ∧ new.Extends m := by
    intro k hk
    obtain ⟨m, hm, -⟩ := hn.kid i k (hi.trans hk.symm)
    exact ⟨m, hm, hkid k m hk.symm hm⟩
  refine h.change (fun x => x = q ∨ x = t.fresh) (fun x => x = t.fresh ∨ some x = kid)
    ?_ ?_ hhead ?_ ?_ ?_ ?_ ?_ ?_
  · intro x hx
    obtain ⟨hxq, hxf⟩ := not_or.1 hx
    by_cases hxk : some x = kid
    · obtain ⟨m, hm, hm', -⟩ := hmoved x hxk
      rw [hm, hm']
      rfl
    · rw [hrest x hxq hxf hxk]
  · intro x hx
    obtain ⟨hxf, hxk⟩ := not_or.1 hx
    rcases eq_or_ne x q with rfl | hxq
    · rw [hq, hq']
      rfl
    · rw [hrest x hxq hxf hxk]
  · intro r hr
    rcases eq_or_ne 0 q with rfl | h0
    · cases hq'.symm.trans hr
      exact h.value_head (n := n) hq
    · exact h.value_head ((hrest 0 h0 (not_or.1 hhead).1 (not_or.1 hhead).2).symm.trans hr)
  · intro x l hl
    have hlt := h.fresh x
    grind
  · intro x l j k1 hx hl hk1
    obtain ⟨m1, hm1, -⟩ := (h.fits x l hl).kid j k1 hk1
    exact not_or.2 ⟨h.ne_fresh hm1, fun hk => hx (.inl (h.parent_eq hq (hi.trans hk.symm) hl hk1))⟩
  · rintro x l j k1 (rfl | rfl) hl hk1 hk
    · cases hl.symm.trans hq
      have hj : j ≠ i := by
        rintro rfl
        exact hk (.inr (hk1.symm.trans hi))
      exact ⟨_, j, hq', (update_of_ne hj ..).trans hk1⟩
    · rw [h.node_fresh] at hl
      cases hl
  · rintro x l (rfl | rfl) hl
    · cases hl.symm.trans hq'
      refine hn.setKid hfirst hnew hparent hext fun j k1 m1 hj hk1 hm1 => ?_
      refine ⟨hsplit j k1 m1 hj hk1 hm1, m1, ?_, rfl⟩
      rw [hrest k1 (h.kid_ne hq hk1) (h.ne_fresh hm1)
        fun hk => hj (h.kid_inj hq hk1 (hi.trans hk.symm)), hm1]
    · cases hl.symm.trans hnew
      refine .of_first hproper fun j k1 hk1 => ?_
      rw [hkids] at hk1
      rcases eq_or_ne j 0 with rfl | hj
      · rw [update_self] at hk1
        obtain ⟨m, -, hm', hext'⟩ := hmoved k1 hk1.symm
        exact ⟨rfl, _, hm', rfl, hext'.congr rfl rfl rfl rfl⟩
      · rw [update_of_ne hj] at hk1
        cases hk1
  · rintro x l (rfl | hk) hl
    · cases hl.symm.trans hnew
      exact ⟨q, _, i, hparent, hq', update_self ..⟩
    · obtain ⟨m, -, hm', -⟩ := hmoved x hk
      cases hl.symm.trans hm'
      exact ⟨t.fresh, new, 0, rfl, hnew, by rw [hkids, update_self, hk]⟩

section

variable (hq : t.node q = some l) (hi : l.kids i = some p) (hp : t.node p = some n)
  (hfresh : t'.fresh = t.fresh) (hp' : t'.node p = none)
include hq hi hp hfresh hp'

/-- A node with at most one kid is taken away, and the kid goes to its parent. -/
lemma takeNode {l' : Node w α} {kid : Option ℕ} (hk : n.kids 0 = kid) (hk' : n.kids 1 = none)
    (hq' : t'.node q = some l') (habove : l'.above = l.above) (hvalue : l'.value = l.value)
    (hkid : ∀ k m, kid = some k → t.node k = some m →
      t'.node k = some { m with parent := some q } ∧ ∃ j, l'.kids j = some k)
    (hrest : ∀ x, x ≠ p → x ≠ q → some x ≠ kid → t'.node x = t.node x)
    (hkept : ∀ j k, l.kids j = some k → k ≠ p → ∃ j', l'.kids j' = some k)
    (hfits : t'.Fits q l') : Linked t' := by
  have hhead : ¬ ((0 : ℕ) = p ∨ some 0 = kid) := not_or.2
    ⟨(h.head_ne_kid hq hi).symm, fun h0 => h.head_ne_kid hp (hk.trans h0.symm) rfl⟩
  have hmoved : ∀ k, some k = kid → ∃ m, t.node k = some m ∧
      t'.node k = some { m with parent := some q } ∧ ∃ j, l'.kids j = some k := by
    intro k hkk
    obtain ⟨m, hm, -⟩ := (h.fits p n hp).kid 0 k (hk.trans hkk.symm)
    exact ⟨m, hm, hkid k m hkk.symm hm⟩
  refine h.change (fun x => x = q ∨ x = p) (fun x => x = p ∨ some x = kid)
    ?_ ?_ hhead ?_ ?_ ?_ ?_ ?_ ?_
  · intro x hx
    obtain ⟨hxq, hxp⟩ := not_or.1 hx
    by_cases hxk : some x = kid
    · obtain ⟨m, hm, hm', -⟩ := hmoved x hxk
      rw [hm, hm']
      rfl
    · rw [hrest x hxp hxq hxk]
  · intro x hx
    obtain ⟨hxp, hxk⟩ := not_or.1 hx
    rcases eq_or_ne x q with rfl | hxq
    · rw [hq, hq', map_some, habove, map_some]
    · rw [hrest x hxp hxq hxk]
  · intro r hr
    rcases eq_or_ne 0 q with rfl | h0
    · cases hq'.symm.trans hr
      exact hvalue.trans (h.value_head hq)
    · exact h.value_head ((hrest 0 (not_or.1 hhead).1 h0 (not_or.1 hhead).2).symm.trans hr)
  · intro x r hr
    have hlt := h.fresh x
    grind
  · intro x r j k1 hx hr hk1
    refine not_or.2 ⟨?_, fun hkk => hx (.inr (h.parent_eq hp (hk.trans hkk.symm) hr hk1))⟩
    rintro rfl
    exact hx (.inl (h.parent_eq hq hi hr hk1))
  · rintro x r j k1 (rfl | rfl) hr hk1 hnot
    · cases hr.symm.trans hq
      obtain ⟨j', hj'⟩ := hkept j k1 hk1 fun hkp => hnot (.inl hkp)
      exact ⟨l', j', hq', hj'⟩
    · cases hr.symm.trans hp
      fin_cases j
      · exact absurd (.inr (hk1.symm.trans hk)) hnot
      · cases hk1.symm.trans hk'
  · rintro x r (rfl | rfl) hr
    · cases hr.symm.trans hq'
      exact hfits
    · cases hp'.symm.trans hr
  · rintro x r (rfl | hkk) hr
    · cases hp'.symm.trans hr
    · obtain ⟨m, -, hm', j, hj⟩ := hmoved x hkk
      cases hr.symm.trans hm'
      exact ⟨q, l', j, rfl, hq', hj⟩

lemma takeOut (hk : n.kids 0 = some k) (hk' : n.kids 1 = none) (hm : t.node k = some m)
    (hq' : t'.node q = some { l with kids := update l.kids i (some k) })
    (hkm : t'.node k = some { m with parent := some q })
    (hrest : ∀ x, x ≠ p → x ≠ q → x ≠ k → t'.node x = t.node x) : Linked t' := by
  have hpq := h.kid_ne hq hi
  have hext := (h.eq_parent hq hi hp).2
  have hext' := (h.eq_parent hp hk hm).2
  have hl := h.fits q l hq
  refine h.takeNode hq hi hp hfresh hp' hk hk' hq' rfl rfl ?_ ?_ ?_ ?_
  · rintro k' m' ⟨⟩ hm'
    cases hm.symm.trans hm'
    exact ⟨hkm, i, update_self ..⟩
  · exact fun x hxp hxq hxk => hrest x hxp hxq fun hx => hxk (congrArg some hx)
  · intro j k1 hk1 hne
    refine ⟨j, (update_of_ne ?_ ..).trans hk1⟩
    rintro rfl
    exact hne (Option.some.inj (hk1.symm.trans hi))
  · refine hl.setKid (fun _ => h.first_ne_none hq hi) hkm rfl
      ((hext.trans hext').congr rfl rfl rfl rfl) fun j k1 m1 hj hk1 hm1 => ?_
    have hne1 : k1 ≠ p := by
      rintro rfl
      exact hj (h.kid_inj hq hk1 hi)
    have hne2 : k1 ≠ k := by
      rintro rfl
      exact hpq (h.parent_eq hp hk hq hk1).symm
    refine ⟨?_, m1, (hrest k1 hne1 (h.kid_ne hq hk1) hne2).trans hm1, rfl⟩
    rw [hext.getMsbD hext']
    exact hl.split j i k1 p m1 n hj hk1 hi hm1 hp

lemma takeLeaf (hk : n.kids 0 = none) (hq' : t'.node q = some (l.dropKid i))
    (hrest : ∀ x, x ≠ p → x ≠ q → t'.node x = t.node x) : Linked t' := by
  have hl := h.fits q l hq
  refine h.takeNode hq hi hp hfresh hp' hk ((h.fits p n hp).first hk) hq' rfl rfl nofun
    (fun x hxp hxq _ => hrest x hxp hxq) ?_ (.of_first (hl.proper.congr rfl rfl) ?_)
  · intro j k1 hk1 hne
    obtain rfl : j = 1 - i := by
      by_contra hj
      have hji : j = i := by omega
      exact hne (Option.some.inj (hk1.symm.trans (hji ▸ hi)))
    exact ⟨0, hk1⟩
  · intro j k hjk
    obtain ⟨rfl, hk⟩ : j = 0 ∧ l.kids (1 - i) = some k := by
      rcases eq_or_ne j 0 with rfl | hj
      · exact ⟨rfl, hjk⟩
      · cases (if_neg hj).symm.trans hjk
    obtain ⟨m, hm, hpar, hext⟩ := hl.kid _ k hk
    have hkp : k ≠ p := by
      rintro rfl
      have hother : (1 - i : Fin 2) ≠ i := by omega
      exact hother (h.kid_inj hq hk hi)
    exact ⟨rfl, m, (hrest k hkp (h.kid_ne hq hk)).trans hm, hpar, hext.congr rfl rfl rfl rfl⟩

end

end

end Linked

end ChipletGem5.Trie
