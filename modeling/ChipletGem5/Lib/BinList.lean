import Mathlib.Tactic
import Mathlib.Data.List.Sort

/-!
# Two-level linked lists

A list of bins threaded through two link functions: `next` leads from the first element of a
bin to the first element of the following bin, `nextIn` leads through a bin.  Only the `next`
links of first elements count; those of the other elements may be stale.  `Bins.frame` is the
frame rule: a change behind some bin leaves the bins in front of it as they are.  `Ordered` says
that the bins are the groups of equal keys, in increasing order of the keys, and
`ordered_append` is its rule for two runs of bins.
-/

namespace ChipletGem5.BinList

open List

variable {α κ : Type*}

/-! ### Representation -/

/-- The elements `as` are linked through `f` from `p` on. -/
def Chain (f : α → Option α) : Option α → List α → Prop
  | p, [] => p = none
  | p, a :: as => p = some a ∧ Chain f (f a) as

/-- The bins `bs` are linked from `p` on. -/
def Bins (next nextIn : α → Option α) : Option α → List (List α) → Prop
  | p, [] => p = none
  | _, [] :: _ => False
  | p, (a :: as) :: bs => p = some a ∧ Chain nextIn (nextIn a) as ∧ Bins next nextIn (next a) bs

variable {f g next nextIn next' nextIn' : α → Option α} {p q : Option α}

lemma Chain.congr {as : List α} (h : Chain f p as) (hfg : ∀ a ∈ as, g a = f a) : Chain g p as := by
  induction as generalizing p with
  | nil => exact h
  | cons a as ih =>
    refine ⟨h.1, ?_⟩
    rw [hfg a (by simp)]
    exact ih h.2 fun x hx => hfg x (by simp [hx])

variable {r pre bs : List (List α)} {b ts : List α} {t e : α}

lemma Chain.unlink {as bs : List α} {c : α} (h : Chain f p (as ++ c :: e :: bs))
    (hc : g c = f e) (has : ∀ a ∈ as, g a = f a) (hbs : ∀ a ∈ bs, g a = f a) :
    Chain g p (as ++ c :: bs) := by
  induction as generalizing p with
  | nil =>
    obtain ⟨hp, -, h⟩ := h
    refine ⟨hp, ?_⟩
    rw [hc]
    exact Chain.congr h hbs
  | cons a as ih =>
    refine ⟨h.1, ?_⟩
    rw [has a (by simp)]
    exact ih h.2 fun x hx => has x (by simp [hx])

/-- The frame rule: bins at the end may be replaced if those in front keep their links. -/
lemma Bins.frame {r' : List (List α)} (h : Bins next nextIn p (pre ++ r))
    (hnext : ∀ a ∈ pre.flatten, next' a = next a) (hin : ∀ a ∈ pre.flatten, nextIn' a = nextIn a)
    (hr : ∀ q, Bins next nextIn q r → Bins next' nextIn' q r') :
    Bins next' nextIn' p (pre ++ r') := by
  induction pre generalizing p with
  | nil => exact hr p h
  | cons b pre ih =>
    cases b with
    | nil => exact h.elim
    | cons a as =>
      refine ⟨h.1, ?_, ?_⟩
      · rw [hin a (by simp)]
        exact Chain.congr h.2.1 fun x hx => hin x (by simp [hx])
      · rw [hnext a (by simp)]
        exact ih h.2.2 (fun x hx => hnext x (by simp [hx])) (fun x hx => hin x (by simp [hx]))

lemma Bins.congr (h : Bins next nextIn p bs) (hnext : ∀ a ∈ bs.flatten, next' a = next a)
    (hin : ∀ a ∈ bs.flatten, nextIn' a = nextIn a) : Bins next' nextIn' p bs := by
  rw [← append_nil bs] at h ⊢
  exact h.frame hnext hin fun _ h => h

section

variable (h : Bins next nextIn p (pre ++ (t :: ts) :: r))
include h

lemma Bins.behind : Bins next nextIn (next t) r := by
  induction pre generalizing p with
  | nil => exact h.2.2
  | cons b pre ih =>
    cases b with
    | nil => exact h.elim
    | cons a as => exact ih h.2.2

lemma Bins.inside : Chain nextIn (nextIn t) ts := by
  induction pre generalizing p with
  | nil => exact h.2.1
  | cons b pre ih =>
    cases b with
    | nil => exact h.elim
    | cons a as => exact ih h.2.2

end

lemma Bins.eq_some (h : Bins next nextIn p (b :: bs)) : ∃ t ts, b = t :: ts ∧ p = some t := by
  cases b with
  | nil => exact h.elim
  | cons t ts => exact ⟨t, ts, rfl, h.1⟩

lemma Bins.eq_nil (h : Bins next nextIn none bs) : bs = [] := by
  cases bs with
  | nil => rfl
  | cons b bs =>
    obtain ⟨t, -, -, ht⟩ := h.eq_some
    simp at ht

lemma Bins.eq_cons (h : Bins next nextIn (some t) bs) :
    ∃ ts r, bs = (t :: ts) :: r ∧ Chain nextIn (nextIn t) ts ∧ Bins next nextIn (next t) r := by
  cases bs with
  | nil => exact absurd h (by simp [Bins])
  | cons b bs =>
    cases b with
    | nil => exact h.elim
    | cons a as =>
      obtain rfl : t = a := by simpa using h.1
      exact ⟨as, bs, rfl, h.2.1, h.2.2⟩

/-- Taking the first element off: its successor in the bin inherits the link to the next
bin. -/
lemma Bins.pop {u : α} {us : List α}
    (h : Bins next nextIn p ((t :: u :: us) :: r)) (hu : next' u = next t)
    (hin : ∀ a ∈ u :: us, nextIn' a = nextIn a)
    (hr : ∀ a ∈ r.flatten, next' a = next a ∧ nextIn' a = nextIn a) :
    Bins next' nextIn' (some u) ((u :: us) :: r) := by
  obtain ⟨-, ⟨-, hus⟩, hnext⟩ := h
  refine ⟨rfl, ?_, ?_⟩
  · rw [hin u (by simp)]
    exact hus.congr fun x hx => hin x (by simp [hx])
  · rw [hu]
    exact hnext.congr (fun x hx => (hr x hx).1) (fun x hx => (hr x hx).2)

/-! ### Order -/

variable [LinearOrder κ] (key : α → κ)

/-- The bins are the groups of equal keys, in increasing order. -/
def Ordered : List (List α) → Prop
  | [] => True
  | b :: bs => b ≠ [] ∧ (∀ x ∈ b, ∀ y ∈ b, key x = key y) ∧
      (∀ x ∈ b, ∀ y ∈ bs.flatten, key x < key y) ∧ Ordered bs

variable {key}

lemma ordered_append : Ordered key (pre ++ r) ↔
    Ordered key pre ∧ Ordered key r ∧ ∀ x ∈ pre.flatten, ∀ y ∈ r.flatten, key x < key y := by
  induction pre with
  | nil => simp [Ordered]
  | cons b pre ih =>
    simp only [cons_append, Ordered, ih, flatten_append, flatten_cons, mem_append, or_imp,
      forall_and]
    tauto

lemma Ordered.length_le (h : Ordered key bs) : bs.length ≤ bs.flatten.length := by
  induction bs with
  | nil => simp
  | cons b bs ih =>
    have hb : 0 < b.length := length_pos_of_ne_nil h.1
    have hbs := ih h.2.2.2
    simp only [length_cons, flatten_cons, length_append]
    omega

lemma Ordered.congr {key' : α → κ} (h : Ordered key bs)
    (hk : ∀ x ∈ bs.flatten, key' x = key x) : Ordered key' bs := by
  induction bs with
  | nil => exact h
  | cons b bs ih =>
    have hb : ∀ x ∈ b, key' x = key x := fun x hx => hk x (by simp [hx])
    have hbs : ∀ x ∈ bs.flatten, key' x = key x := fun x hx => hk x (mem_append_right _ hx)
    refine ⟨h.1, fun x hx y hy => ?_, fun x hx y hy => ?_, ih h.2.2.2 hbs⟩
    · rw [hb x hx, hb y hy]
      exact h.2.1 x hx y hy
    · rw [hb x hx, hbs y hy]
      exact h.2.2.1 x hx y hy

section

variable {x y : α} (h : Ordered key (pre ++ b :: r))
include h

lemma Ordered.same (hx : x ∈ b) (hy : y ∈ b) : key x = key y :=
  (ordered_append.1 h).2.1.2.1 x hx y hy

lemma Ordered.lt_of_pre (hx : x ∈ pre.flatten) (hy : y ∈ b) : key x < key y :=
  (ordered_append.1 h).2.2 x hx y (mem_append_left _ hy)

lemma Ordered.lt_of_post (hx : x ∈ b) (hy : y ∈ r.flatten) : key x < key y :=
  (ordered_append.1 h).2.1.2.2.1 x hx y hy

lemma Ordered.replace {b' : List α} (hne : b' ≠ []) (hsame : ∀ x ∈ b', ∃ y ∈ b, key x = key y) :
    Ordered key (pre ++ b' :: r) := by
  rw [ordered_append] at h ⊢
  obtain ⟨hpre, ⟨-, hb, hpost, hr⟩, hlt⟩ := h
  refine ⟨hpre, ⟨hne, fun x hx y hy => ?_, fun x hx y hy => ?_, hr⟩, fun x hx y hy => ?_⟩
  · obtain ⟨x', hx', hxe⟩ := hsame x hx
    obtain ⟨y', hy', hye⟩ := hsame y hy
    rw [hxe, hye]
    exact hb x' hx' y' hy'
  · obtain ⟨x', hx', hxe⟩ := hsame x hx
    rw [hxe]
    exact hpost x' hx' y hy
  · rcases mem_append.1 hy with hy | hy
    · obtain ⟨y', hy', hye⟩ := hsame y hy
      rw [hye]
      exact hlt x hx y' (mem_append_left _ hy')
    · exact hlt x hx y (mem_append_right _ hy)

lemma Ordered.drop : Ordered key (pre ++ r) := by
  rw [ordered_append] at h ⊢
  exact ⟨h.1, h.2.1.2.2.2, fun x hx y hy => h.2.2 x hx y (mem_append_right _ hy)⟩

end

lemma Ordered.insert_new (h : Ordered key (pre ++ r))
    (hpre : ∀ x ∈ pre.flatten, key x < key e) (hr : ∀ x ∈ r.flatten, key e < key x) :
    Ordered key (pre ++ [e] :: r) := by
  rw [ordered_append] at h ⊢
  refine ⟨h.1, ⟨by simp, by simp, by simpa using hr, h.2.1⟩, fun x hx y hy => ?_⟩
  rcases mem_cons.1 hy with rfl | hy
  · exact hpre x hx
  · exact h.2.2 x hx y hy

lemma orderedInsert_eq_append {l1 l2 : List α} (h1 : ∀ x ∈ l1, key x < key e)
    (h2 : ∀ x ∈ l2, key e ≤ key x) :
    (l1 ++ l2).orderedInsert (fun x y => key x ≤ key y) e = l1 ++ e :: l2 := by
  induction l1 with
  | nil =>
    cases l2 with
    | nil => rfl
    | cons x l2 => simp [h2 x (by simp)]
  | cons x l1 ih =>
    have hx : ¬ key e ≤ key x := not_le.2 (h1 x (by simp))
    rw [cons_append, orderedInsert_cons, if_neg hx, ih fun y hy => h1 y (by simp [hy]), cons_append]

end ChipletGem5.BinList
