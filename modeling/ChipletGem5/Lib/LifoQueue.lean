import Mathlib.Tactic
import Mathlib.Data.List.Sort

/-!
# Priority queues that serve the latest of equal elements first

The state of the queue is the list of the entries with their keys, the most recent insertion
first; `next?` picks the entry to serve.  `sorted` lists the entries in the order in which they
would be served, which is what an implementation keeps; `sorted_cons` and `sorted_remove` say how
the operations act on that list.
-/

namespace ChipletGem5.LifoQueue

open List

variable {α κ : Type*} [LinearOrder κ]

def push (l : List (α × κ)) (e : α) (k : κ) : List (α × κ) := (e, k) :: l

def remove [DecidableEq α] (l : List (α × κ)) (e : α) : List (α × κ) :=
  l.filter fun x => x.1 ≠ e

/-- The entry to serve: a smallest key, and among these the most recent one. -/
def next? : List (α × κ) → Option (α × κ)
  | [] => none
  | x :: l =>
      match next? l with
      | none => some x
      | some y => if x.2 ≤ y.2 then some x else some y

/-- The entries in the order in which they are served. -/
def sorted (l : List (α × κ)) : List (α × κ) := l.insertionSort fun x y => x.2 ≤ y.2

@[simp] lemma sorted_nil : sorted ([] : List (α × κ)) = [] := rfl

section

variable (l : List (α × κ))
include l

lemma sorted_cons (x : α × κ) :
    sorted (x :: l) = (sorted l).orderedInsert (fun x y => x.2 ≤ y.2) x := rfl

lemma pairwise_sorted : (sorted l).Pairwise fun x y => x.2 ≤ y.2 := by
  exact pairwise_insertionSort _ l

lemma perm_sorted : (sorted l).Perm l := perm_insertionSort _ l

lemma next?_eq_head?_sorted : next? l = (sorted l).head? := by
  induction l with
  | nil => rfl
  | cons x l ih =>
    rw [next?, ih, sorted_cons]
    rcases sorted l with _ | ⟨y, s⟩
    · rfl
    · simp only [List.head?_cons, orderedInsert_cons]
      split <;> rfl

end

/-- The entry to serve has a smallest key, and every entry inserted after it a larger one. -/
lemma next?_eq_some_iff {l : List (α × κ)} {x : α × κ} :
    next? l = some x ↔ ∃ newer older, l = newer ++ x :: older ∧
      (∀ y ∈ newer, x.2 < y.2) ∧ ∀ y ∈ older, x.2 ≤ y.2 := by
  induction l generalizing x with
  | nil => simp [next?]
  | cons z l ih =>
    have hnone : next? l = none → l = [] := by
      intro h
      rw [next?_eq_head?_sorted, List.head?_eq_none_iff] at h
      exact List.Perm.nil_eq (h ▸ perm_sorted l) |>.symm
    rw [next?]
    constructor
    · intro h
      rcases hl : next? l with _ | y
      · rw [hl] at h
        obtain rfl : z = x := by simpa using h
        cases hnone hl
        exact ⟨[], [], rfl, by simp, by simp⟩
      · obtain ⟨newer, older, rfl, hnew, hold⟩ := ih.1 hl
        rw [hl] at h
        simp only at h
        split at h
        · rename_i hle
          obtain rfl : z = x := by simpa using h
          refine ⟨[], newer ++ y :: older, rfl, by simp, fun w hw => ?_⟩
          simp only [mem_append, mem_cons] at hw
          rcases hw with hw | rfl | hw
          · exact hle.trans (hnew w hw).le
          · exact hle
          · exact hle.trans (hold w hw)
        · rename_i hle
          obtain rfl : y = x := by simpa using h
          exact ⟨z :: newer, older, rfl, by simpa [not_le.1 hle] using hnew, hold⟩
    · rintro ⟨newer, older, heq, hnew, hold⟩
      cases newer with
      | nil =>
        cases heq
        rcases hl : next? l with _ | y
        · rfl
        · obtain ⟨newer', older', rfl, -, -⟩ := ih.1 hl
          simp [hold y (by simp)]
      | cons w newer =>
        cases heq.trans cons_append
        have hl : next? (newer ++ x :: older) = some x :=
          ih.2 ⟨newer, older, rfl, fun y hy => hnew y (by simp [hy]), hold⟩
        rw [hl]
        simp [not_le.2 (hnew z (by simp))]

/-! ### Removal -/

variable [DecidableEq α]

omit [DecidableEq α] in
lemma filter_orderedInsert (p : α × κ → Bool) {s : List (α × κ)}
    (hs : s.Pairwise fun x y => x.2 ≤ y.2) (x : α × κ) :
    (s.orderedInsert (fun x y => x.2 ≤ y.2) x).filter p
      = if p x then (s.filter p).orderedInsert (fun x y => x.2 ≤ y.2) x else s.filter p := by
  induction s with
  | nil =>
    by_cases hx : p x = true <;> simp [hx]
  | cons y s ih =>
    have ih := ih (pairwise_cons.1 hs).2
    by_cases hxy : x.2 ≤ y.2
    · -- `x` goes to the front, and is below everything that the filter keeps
      have hall : ∀ z ∈ (y :: s).filter p, x.2 ≤ z.2 := by
        intro z hz
        rcases mem_cons.1 (mem_filter.1 hz).1 with rfl | hz
        · exact hxy
        · exact hxy.trans ((pairwise_cons.1 hs).1 z hz)
      rw [orderedInsert_cons, if_pos hxy, filter_cons]
      split
      · rcases hf : (y :: s).filter p with _ | ⟨z, t⟩
        · rfl
        · rw [orderedInsert_cons, if_pos (hall z (by simp [hf]))]
      · rfl
    · rw [orderedInsert_cons, if_neg hxy, filter_cons, ih]
      by_cases hy : p y
      · by_cases hx : p x
        · simp [hx, hy, hxy]
        · simp [hx, hy]
      · simp [hy]

lemma sorted_remove (l : List (α × κ)) (e : α) :
    sorted (remove l e) = (sorted l).filter fun x => x.1 ≠ e := by
  induction l with
  | nil => rfl
  | cons x l ih =>
    rw [sorted_cons, filter_orderedInsert _ (pairwise_sorted l), ← ih, remove, filter_cons]
    split <;> rfl

omit [LinearOrder κ] in
lemma mem_remove {l : List (α × κ)} {e : α} {x : α × κ} : x ∈ remove l e ↔ x ∈ l ∧ x.1 ≠ e := by
  simp [remove]

end ChipletGem5.LifoQueue
