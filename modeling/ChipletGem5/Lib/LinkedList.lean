import Mathlib.Tactic

/-!
# Doubly linked lists

A doubly linked list with a first and a last node, as pointers: each node has a pointer to the
node before it and one to the node behind it.  `Links.Repr` says which list the pointers are
for.  Nodes are taken out of the list and put to either end of it by changing pointers, and the
lemmas say what happens to the list.

The proofs use segments: a part of the list, with the nodes that its ends point to.
-/

namespace ChipletGem5

open Function List

variable {α : Type*}

/-! ### Segments -/

/-- The nodes of a list point to their neighbours, the first one back to `p` and the last one
on to `n`. -/
def Segment (prev next : α → Option α) : Option α → List α → Option α → Prop
  | _, [], _ => True
  | p, x :: l, n => prev x = p ∧ next x = l.head?.or n ∧ Segment prev next (some x) l n

namespace Segment

variable {prev next prev' next' : α → Option α} {p n : Option α} {l l₁ l₂ : List α} {x : α}

lemma append_iff : Segment prev next p (l₁ ++ l₂) n ↔
    Segment prev next p l₁ (l₂.head?.or n) ∧ Segment prev next (l₁.getLast?.or p) l₂ n := by
  induction l₁ generalizing p with
  | nil => simp [Segment]
  | cons y l₁ ih =>
    have hlast : (y :: l₁).getLast?.or p = l₁.getLast?.or (some y) := by
      cases l₁ <;> simp [getLast?_cons]
    rw [cons_append, Segment, Segment, ih, hlast, head?_append, Option.or_assoc]
    simp only [and_assoc]

lemma congr (h : Segment prev next p l n) (hprev : ∀ y ∈ l, prev' y = prev y)
    (hnext : ∀ y ∈ l, next' y = next y) : Segment prev' next' p l n := by
  induction l generalizing p with
  | nil => trivial
  | cons y l ih =>
    obtain ⟨h1, h2, h3⟩ := h
    refine ⟨by rw [hprev y (by simp), h1], by rw [hnext y (by simp), h2], ?_⟩
    exact ih h3 (fun z hz => hprev z (mem_cons_of_mem y hz))
      fun z hz => hnext z (mem_cons_of_mem y hz)

variable [DecidableEq α]

lemma update_next (h : Segment prev next p (l ++ [x]) n) (hx : x ∉ l) (n' : Option α) :
    Segment prev (update next x n') p (l ++ [x]) n' := by
  rw [append_iff] at h ⊢
  obtain ⟨hl, hprev, -, -⟩ := h
  refine ⟨hl.congr (fun _ _ => rfl) ?_, hprev, by simp, trivial⟩
  intro y hy
  exact update_of_ne (ne_of_mem_of_not_mem hy hx) _ _

lemma update_prev (h : Segment prev next p (x :: l) n) (hx : x ∉ l) (p' : Option α) :
    Segment (update prev x p') next p' (x :: l) n := by
  obtain ⟨-, hnext, hl⟩ := h
  refine ⟨by simp, hnext, hl.congr ?_ fun _ _ => rfl⟩
  intro y hy
  exact update_of_ne (ne_of_mem_of_not_mem hy hx) _ _

end Segment

/-! ### Lists with two ends -/

/-- The pointers of a doubly linked list. -/
structure Links (α : Type*) where
  head : α
  tail : α
  prev : α → Option α
  next : α → Option α

namespace Links

/-- The pointers are those of a list. -/
structure Repr (k : Links α) (l : List α) : Prop where
  segment : Segment k.prev k.next none l none
  head : l.head? = some k.head
  tail : l.getLast? = some k.tail
  nodup : l.Nodup

variable {k : Links α} {l l₁ l₂ : List α} {x y : α}

lemma Repr.prev_eq (h : k.Repr (l₁ ++ x :: l₂)) : k.prev x = l₁.getLast? := by
  have hx := (Segment.append_iff.1 h.segment).2.1
  rwa [Option.or_none] at hx

lemma Repr.next_eq (h : k.Repr (l₁ ++ x :: l₂)) : k.next x = l₂.head? := by
  have hx := (Segment.append_iff.1 h.segment).2.2.1
  rwa [Option.or_none] at hx

lemma Repr.mem_head (h : k.Repr l) : k.head ∈ l := mem_of_head? h.head

lemma Repr.eq_head (h : k.Repr (x :: l)) : k.head = x := by
  simpa using h.head.symm

lemma Repr.eq_tail (h : k.Repr (l ++ [x])) : k.tail = x := by
  simpa using h.tail.symm

lemma Repr.ne_tail (h : k.Repr (l₁ ++ x :: l₂)) (hne : l₂ ≠ []) : x ≠ k.tail := by
  have htail : k.tail ∈ l₂ := by
    refine mem_of_getLast? (l := l₂) ?_
    rw [← h.tail, getLast?_append, getLast?_cons]
    obtain ⟨y, hy⟩ := getLast?_isSome.2 hne |> Option.isSome_iff_exists.1
    simp [hy]
  intro heq
  have hnodup := (nodup_append.1 h.nodup).2.1
  exact (nodup_cons.1 hnodup).1 (heq ▸ htail)

lemma Repr.ne_head (h : k.Repr (l₁ ++ x :: l₂)) (hne : l₁ ≠ []) : x ≠ k.head := by
  obtain ⟨y, l, rfl⟩ := exists_cons_of_ne_nil hne
  have hhead : k.head = y := h.eq_head
  rw [hhead]
  intro heq
  have hnodup := h.nodup
  rw [cons_append, nodup_cons] at hnodup
  exact hnodup.1 (by simp [heq])

variable [DecidableEq α]

lemma Repr.prev_of_idxOf {i : ℕ} (h : k.Repr l) (hx : x ∈ l) (hi : l.idxOf x = i + 1) :
    ∃ y ∈ l, k.prev x = some y ∧ l.idxOf y = i := by
  obtain ⟨l₁, l₂, rfl, hnot⟩ := eq_append_cons_of_mem hx
  rw [idxOf_append_of_notMem hnot] at hi
  rcases eq_nil_or_concat l₁ with rfl | ⟨l₁, y, rfl⟩
  · simp at hi
  · rw [concat_eq_append] at h hi ⊢
    have hy : y ∉ l₁ := (nodup_concat l₁ y).1
      (by simpa using (nodup_append.1 h.nodup).1) |>.1
    refine ⟨y, by simp, by simpa using h.prev_eq, ?_⟩
    rw [append_assoc, idxOf_append_of_notMem hy]
    simpa using hi

lemma Repr.next_of_idxOf (h : k.Repr l) (hx : x ∈ l) (hi : l.idxOf x + 1 < l.length) :
    ∃ y ∈ l, k.next x = some y ∧ l.idxOf y = l.idxOf x + 1 := by
  obtain ⟨l₁, l₂, rfl, hnot⟩ := eq_append_cons_of_mem hx
  rw [idxOf_append_of_notMem hnot, idxOf_cons_self] at hi ⊢
  rcases l₂ with _ | ⟨y, l₂⟩
  · simp at hi
  · refine ⟨y, by simp, by simpa using h.next_eq, ?_⟩
    obtain ⟨-, hnodup, hdisj⟩ := nodup_append.1 h.nodup
    have hy : y ∉ l₁ := fun hmem => hdisj y hmem y (by simp) rfl
    have hxy : x ≠ y := fun heq => (nodup_cons.1 hnodup).1 (by simp [heq])
    rw [idxOf_append_of_notMem hy, idxOf_cons_ne _ hxy, idxOf_cons_self]

/-- Take a node out of the list.  There is no list without nodes. -/
def unlink (k : Links α) (x : α) : Option (Links α) :=
  if x = k.tail then
    (k.prev x).map fun p => { k with tail := p, next := update k.next p none }
  else if x = k.head then
    (k.next x).map fun n => { k with head := n, prev := update k.prev n none }
  else
    (k.prev x).bind fun p => (k.next x).map fun n =>
      { k with
        next := update k.next p (some n)
        prev := update k.prev n (some p) }

def pushFront (k : Links α) (x : α) : Links α where
  head := x
  tail := k.tail
  prev := update (update k.prev x none) k.head (some x)
  next := update k.next x (some k.head)

def pushBack (k : Links α) (x : α) : Links α where
  head := k.head
  tail := x
  prev := update k.prev x (some k.tail)
  next := update (update k.next x none) k.tail (some x)

lemma Repr.unlink_tail (h : k.Repr ((l ++ [y]) ++ [x])) :
    ∃ k', k.unlink x = some k' ∧ k'.Repr (l ++ [y]) := by
  have hprev : k.prev x = some y := by simpa using h.prev_eq
  have hnodup : (l ++ [y]).Nodup := (nodup_append.1 h.nodup).1
  have hy : y ∉ l := (nodup_concat l y).1 (by simpa using hnodup) |>.1
  refine ⟨_, by rw [unlink, if_pos h.eq_tail.symm, hprev]; rfl, ?_, ?_, by simp, hnodup⟩
  · exact (Segment.append_iff.1 h.segment).1.update_next hy none
  · rw [← h.head]
    cases l <;> simp

lemma Repr.unlink_head (h : k.Repr (x :: y :: l)) :
    ∃ k', k.unlink x = some k' ∧ k'.Repr (y :: l) := by
  have hfirst : k.Repr ([] ++ x :: y :: l) := h
  have hnext : k.next x = some y := hfirst.next_eq
  have hnodup : (y :: l).Nodup := (nodup_cons.1 h.nodup).2
  have htail : x ≠ k.tail := hfirst.ne_tail (by simp)
  refine ⟨_, by rw [unlink, if_neg htail, if_pos h.eq_head.symm, hnext]; rfl, ?_, by simp, ?_,
    hnodup⟩
  · exact h.segment.2.2.update_prev (nodup_cons.1 hnodup).1 none
  · rw [← h.tail, getLast?_cons_cons]

lemma Repr.unlink_middle {p n : α} (h : k.Repr ((l₁ ++ [p]) ++ x :: n :: l₂)) :
    ∃ k', k.unlink x = some k' ∧ k'.Repr ((l₁ ++ [p]) ++ n :: l₂) := by
  have hprev : k.prev x = some p := by simpa using h.prev_eq
  have hnext : k.next x = some n := by simpa using h.next_eq
  have htail : x ≠ k.tail := h.ne_tail (by simp)
  have hhead : x ≠ k.head := h.ne_head (by simp)
  have hnodup : ((l₁ ++ [p]) ++ n :: l₂).Nodup :=
    h.nodup.sublist ((sublist_cons_self x (n :: l₂)).append_left _)
  obtain ⟨hfront, hback, hdisj⟩ := nodup_append.1 hnodup
  have hp : p ∉ l₁ := (nodup_concat l₁ p).1 (by simpa using hfront) |>.1
  refine ⟨_, by rw [unlink, if_neg htail, if_neg hhead, hprev, hnext]; rfl, ?_, ?_, ?_, hnodup⟩
  · obtain ⟨hs1, hs2⟩ := Segment.append_iff.1 h.segment
    refine Segment.append_iff.2 ⟨?_, ?_⟩
    · refine (hs1.update_next hp (some n)).congr ?_ fun _ _ => rfl
      intro y hy
      exact update_of_ne (hdisj y hy n (by simp)) _ _
    · have hs := hs2.2.2.update_prev (nodup_cons.1 hback).1 (some p)
      rw [getLast?_concat]
      refine hs.congr (fun _ _ => rfl) ?_
      intro y hy
      exact update_of_ne (hdisj p (by simp) y hy).symm _ _
  · rw [← h.head]
    cases l₁ <;> simp
  · rw [← h.tail]
    simp [getLast?_append, getLast?_cons_cons]

lemma Repr.unlink (h : k.Repr (l₁ ++ x :: l₂)) (hne : l₁ ++ l₂ ≠ []) :
    ∃ k', k.unlink x = some k' ∧ k'.Repr (l₁ ++ l₂) := by
  rcases eq_nil_or_concat l₁ with rfl | ⟨l₁, p, rfl⟩
  · obtain ⟨n, l₂, rfl⟩ := exists_cons_of_ne_nil (by simpa using hne : l₂ ≠ [])
    exact Repr.unlink_head h
  · rw [concat_eq_append] at h ⊢
    rcases l₂ with _ | ⟨n, l₂⟩
    · rw [append_nil]
      exact Repr.unlink_tail h
    · exact Repr.unlink_middle h

lemma Repr.pushFront (h : k.Repr l) (hx : x ∉ l) : (k.pushFront x).Repr (x :: l) := by
  obtain ⟨y, l, rfl⟩ := exists_cons_of_ne_nil (ne_nil_of_mem h.mem_head)
  have hhead : k.head = y := h.eq_head
  have hxy : x ≠ y := fun heq => hx (by simp [heq])
  refine ⟨⟨?_, ?_, ?_⟩, rfl, ?_, nodup_cons.2 ⟨hx, h.nodup⟩⟩
  · show update (update k.prev x none) k.head (some x) x = none
    rw [hhead, update_of_ne hxy, update_self]
  · show update k.next x (some k.head) x = _
    rw [update_self, hhead]
    rfl
  · have hs := h.segment.update_prev (nodup_cons.1 h.nodup).1 (some x)
    refine hs.congr ?_ ?_
    · intro z hz
      show update (update k.prev x none) k.head (some x) z = _
      rw [hhead]
      by_cases hzy : z = y
      · rw [hzy, update_self, update_self]
      · rw [update_of_ne hzy, update_of_ne hzy, update_of_ne (ne_of_mem_of_not_mem hz hx)]
    · intro z hz
      exact update_of_ne (ne_of_mem_of_not_mem hz hx) _ _
  · exact h.tail

lemma Repr.pushBack (h : k.Repr l) (hx : x ∉ l) : (k.pushBack x).Repr (l ++ [x]) := by
  rcases eq_nil_or_concat l with rfl | ⟨l, y, rfl⟩
  · exact absurd h.mem_head (by simp)
  · rw [concat_eq_append] at h hx ⊢
    have htail : k.tail = y := h.eq_tail
    have hxy : x ≠ y := fun heq => hx (by simp [heq])
    have hy : y ∉ l := (nodup_concat l y).1 (by simpa using h.nodup) |>.1
    have hnodup : (l ++ [y] ++ [x]).Nodup := by
      rw [nodup_append_comm]
      exact nodup_cons.2 ⟨hx, h.nodup⟩
    refine ⟨Segment.append_iff.2 ⟨?_, ?_, ?_, trivial⟩, ?_, by simp [Links.pushBack], hnodup⟩
    · have hs := h.segment.update_next hy (some x)
      refine hs.congr ?_ ?_
      · intro z hz
        exact update_of_ne (ne_of_mem_of_not_mem hz hx) _ _
      · intro z hz
        show update (update k.next x none) k.tail (some x) z = _
        rw [htail]
        by_cases hzy : z = y
        · rw [hzy, update_self, update_self]
        · rw [update_of_ne hzy, update_of_ne hzy, update_of_ne (ne_of_mem_of_not_mem hz hx)]
    · show update k.prev x (some k.tail) x = _
      rw [htail]
      simp
    · show update (update k.next x none) k.tail (some x) x = _
      rw [htail, update_of_ne hxy, update_self]
      rfl
    · rw [head?_append, h.head]
      rfl

end Links

end ChipletGem5
