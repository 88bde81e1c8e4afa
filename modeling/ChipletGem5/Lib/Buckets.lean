import Mathlib.Algebra.BigOperators.Group.Finset.Piecewise
import Mathlib.Algebra.Order.BigOperators.Group.Multiset
import Mathlib.Tactic

/-!
# Several queues together

A family of queues, numbered below `n`, has the elements of all of them in `contents`, in no
order.  An element that is added to one queue, or taken from the middle of one, is added to the
contents or taken from them.
-/

namespace ChipletGem5.Buckets

open Multiset Function

variable {α : Type*} {n p : ℕ} {q : ℕ → List α} {a : α} {u v : List α}

/-- The elements of the first `n` queues. -/
def contents (n : ℕ) (q : ℕ → List α) : Multiset α := ∑ p ∈ Finset.range n, (q p : Multiset α)

lemma mem_contents : a ∈ contents n q ↔ ∃ p < n, a ∈ q p := by
  simp [contents, mem_sum]

lemma contents_update (hp : p < n) (l : List α) :
    contents n (update q p l) + (q p : Multiset α) = contents n q + (l : Multiset α) := by
  have hmem : p ∈ Finset.range n := Finset.mem_range.2 hp
  have hrest : ∑ i ∈ (Finset.range n).erase p, (update q p l i : Multiset α) =
      ∑ i ∈ (Finset.range n).erase p, (q i : Multiset α) :=
    Finset.sum_congr rfl fun i hi => by rw [update_of_ne (Finset.ne_of_mem_erase hi)]
  rw [contents, contents, ← Finset.add_sum_erase _ _ hmem, ← Finset.add_sum_erase _ _ hmem, hrest,
    update_self]
  abel

lemma contents_push (hp : p < n) : contents n (update q p (q p ++ [a])) = a ::ₘ contents n q := by
  have h := contents_update (q := q) hp (q p ++ [a])
  rw [← coe_add, ← add_assoc, add_right_comm] at h
  rw [add_right_cancel h, add_comm]
  rfl

lemma contents_remove (hp : p < n) (hq : q p = u ++ a :: v) :
    contents n q = a ::ₘ contents n (update q p (u ++ v)) := by
  have h := contents_update (q := q) hp (u ++ v)
  have hcons : (q p : Multiset α) = {a} + ((u ++ v : List α) : Multiset α) := by
    rw [hq]
    exact coe_eq_coe.2 List.perm_middle
  rw [hcons, ← add_assoc] at h
  rw [← add_right_cancel h, add_comm, singleton_add]

lemma exists_eraseIdx {l : List α} {i : ℕ} (hi : i < l.length) :
    ∃ u v, l = u ++ l[i] :: v ∧ l.eraseIdx i = u ++ v :=
  ⟨l.take i, l.drop (i + 1), by rw [List.getElem_cons_drop, List.take_append_drop],
    List.eraseIdx_eq_take_drop_succ l i⟩

lemma eq_of_nodup_map {β : Type*} {f : α → β} {p' : ℕ} {b : α}
    (h : ((contents n q).map f).Nodup) (hp : p < n) (hp' : p' < n) (ha : a ∈ q p) (hb : b ∈ q p')
    (hf : f a = f b) : p = p' := by
  by_contra hne
  obtain ⟨u, v, hq⟩ := List.append_of_mem ha
  rw [contents_remove hp hq, map_cons, nodup_cons] at h
  refine h.1 (mem_map.2 ⟨b, mem_contents.2 ⟨p', hp', ?_⟩, hf.symm⟩)
  rwa [update_of_ne (Ne.symm hne)]

end ChipletGem5.Buckets
