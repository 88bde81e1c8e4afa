import Mathlib.Data.List.DropRight
import Mathlib.Tactic

/-!
# Rings of cells

A ring keeps the last elements of a stream in a fixed number of cells: the element in position
`p` of the stream is in the cell whose number is `p` modulo the number of cells.  `Ring.Holds`
says that the elements of a list are kept in the positions before some end.  `Window` is what a
ring is to hold: the last elements of a stream, as many as there are cells, from which elements
can be taken away at both ends.
-/

namespace ChipletGem5

open List Nat

variable {α : Type*}

lemma rtake_append_cons (n : ℕ) (l xs : List α) (x : α) :
    ((l ++ [x]).rtake n ++ xs).rtake n = (l ++ x :: xs).rtake n := by
  have hmin : min (n - xs.length - min n 1) l.length = min (n - xs.length - 1) l.length := by
    omega
  simp only [rtake_eq_reverse_take_reverse, reverse_append, reverse_reverse,
    reverse_cons, take_append, take_take, length_reverse, append_assoc]
  simp [hmin]

lemma rtake_append_rtake (n : ℕ) (l xs : List α) :
    (l ++ xs.rtake n).rtake n = (l ++ xs).rtake n := by
  have hmin : n - min n xs.length = n - xs.length := by omega
  simp only [rtake_eq_reverse_take_reverse, reverse_append, reverse_reverse,
    take_append, take_take, length_take, length_reverse, min_self, hmin]

lemma length_rtake (n : ℕ) (l : List α) : (l.rtake n).length = min n l.length := by
  rw [rtake, length_drop]
  omega

namespace Ring

lemma div_mod_cases {n p q : ℕ} (hpos : 0 < n) (hle : p ≤ q) (hn : q ≤ p + n) :
    q / n = p / n ∧ q % n = p % n + (q - p) ∨
      q / n = p / n + 1 ∧ q % n + n = p % n + (q - p) := by
  have hr : p % n < n := mod_lt p hpos
  have hq : q = p % n + (q - p) + n * (p / n) := by
    have hp := mod_add_div p n
    omega
  have hdiv : q / n = (p % n + (q - p)) / n + p / n := by
    conv_lhs => rw [hq, add_mul_div_left _ _ hpos]
  have hmod : q % n = (p % n + (q - p)) % n := by
    conv_lhs => rw [hq, add_mul_mod_self_left]
  rcases lt_or_ge (p % n + (q - p)) n with hlt | hge
  · rw [div_eq_of_lt hlt] at hdiv
    rw [mod_eq_of_lt hlt] at hmod
    exact .inl ⟨by omega, hmod⟩
  · obtain ⟨d, hd⟩ := Nat.exists_eq_add_of_le hge
    have hdn : d < n := by omega
    rw [hd, add_div_left _ hpos, div_eq_of_lt hdn] at hdiv
    rw [hd, add_mod_left, mod_eq_of_lt hdn] at hmod
    exact .inr ⟨by omega, by omega⟩

lemma mod_ne_mod {n p q : ℕ} (hlt : p < q) (hn : q < p + n) : p % n ≠ q % n := by
  rcases div_mod_cases (by omega) hlt.le hn.le with ⟨-, hmod⟩ | ⟨-, hmod⟩ <;> omega

/-- The elements of a list are kept in the positions before `e`. -/
structure Holds (cells : List α) (e : ℕ) (l : List α) : Prop where
  length_le : l.length ≤ e
  getElem? : ∀ i x, l[i]? = some x → cells[(e - l.length + i) % cells.length]? = some x

/-- Write the elements of a list to the positions from `e` on. -/
def write (cells : List α) (e : ℕ) : List α → List α
  | [] => cells
  | x :: xs => write (cells.set (e % cells.length) x) (e + 1) xs

variable {cells cells' l : List α} {e k : ℕ} {x : α}

lemma Holds.nil (cells : List α) (e : ℕ) : Holds cells e [] :=
  ⟨zero_le e, by simp⟩

lemma Holds.drop (h : Holds cells e l) (hk : k ≤ l.length) : Holds cells e (l.drop k) := by
  have hle := h.length_le
  refine ⟨by rw [length_drop]; omega, ?_⟩
  intro i x hx
  rw [getElem?_drop] at hx
  have hidx : e - (l.drop k).length + i = e - l.length + (k + i) := by
    rw [length_drop]
    omega
  rw [hidx]
  exact h.getElem? (k + i) x hx

lemma Holds.dropLast (h : Holds cells e l) (hl : l ≠ []) : Holds cells (e - 1) l.dropLast := by
  have hle := h.length_le
  have hpos := length_pos_iff.2 hl
  refine ⟨by rw [length_dropLast]; omega, ?_⟩
  intro i x hx
  have hi := (List.getElem?_eq_some_iff.1 hx).1
  rw [length_dropLast] at hi
  have hidx : e - 1 - l.dropLast.length + i = e - l.length + i := by
    rw [length_dropLast]
    omega
  rw [hidx]
  refine h.getElem? i x ?_
  rwa [getElem?_dropLast, if_pos hi] at hx

/-- One more element is kept, and the oldest one is lost if there is no room for it. -/
lemma Holds.push (h : Holds cells e l) (hl : l.length ≤ cells.length)
    (hlen : cells'.length = cells.length) (hx : cells'[e % cells.length]? = some x)
    (hother : ∀ c, c ≠ e % cells.length → cells'[c]? = cells[c]?) :
    Holds cells' (e + 1) ((l ++ [x]).rtake cells.length) := by
  have hle := h.length_le
  have hkept : ((l ++ [x]).rtake cells.length).length = min cells.length (l.length + 1) := by
    rw [length_rtake, length_append, length_singleton]
  refine ⟨by rw [hkept]; omega, ?_⟩
  intro i y hy
  have hi := (List.getElem?_eq_some_iff.1 hy).1
  rw [rtake, getElem?_drop, length_append, length_singleton] at hy
  rw [hkept, hlen]
  -- the element is the new one or one of the old ones
  rcases lt_or_ge (l.length + 1 - cells.length + i) l.length with hold | hnew
  · rw [getElem?_append_left hold] at hy
    have hcell := h.getElem? _ y hy
    have hidx : e + 1 - min cells.length (l.length + 1) + i =
        e - l.length + (l.length + 1 - cells.length + i) := by omega
    rwa [hidx, hother _ (mod_ne_mod (by omega) (by omega))]
  · have hlast : l.length + 1 - cells.length + i = l.length := by omega
    have hidx : e + 1 - min cells.length (l.length + 1) + i = e := by omega
    rw [hlast] at hy
    obtain rfl : x = y := by simpa using hy
    rwa [hidx]

lemma Holds.write (h : Holds cells e l) (hl : l.length ≤ cells.length) (hpos : 0 < cells.length)
    (xs : List α) : Holds (write cells e xs) (e + xs.length) ((l ++ xs).rtake cells.length) := by
  induction xs generalizing cells e l with
  | nil =>
    have hzero : l.length - cells.length = 0 := by omega
    rwa [append_nil, rtake, hzero]
  | cons x xs ih =>
    have hset : (cells.set (e % cells.length) x).length = cells.length := length_set
    have hpush : Holds (cells.set (e % cells.length) x) (e + 1)
        ((l ++ [x]).rtake cells.length) := by
      refine h.push hl hset (getElem?_set_self (mod_lt _ hpos)) ?_
      intro c hc
      exact getElem?_set_ne hc.symm
    have hrest := ih hpush (by rw [hset, length_rtake]; omega) (by omega)
    rw [hset, rtake_append_cons] at hrest
    rwa [Ring.write, length_cons, ← add_assoc, add_right_comm]

lemma length_write (cells : List α) (e : ℕ) (xs : List α) :
    (write cells e xs).length = cells.length := by
  induction xs generalizing cells e with
  | nil => rfl
  | cons x xs ih => rw [write, ih, length_set]

end Ring

/-! ### Windows -/

/-- The last elements of a stream, and the position of the next one. -/
structure Window (α : Type*) where
  elems : List α
  next : ℕ

namespace Window

/-- The stream goes on with an element, and at most `n` elements are kept. -/
def push (n : ℕ) (w : Window α) (x : α) : Window α := ⟨(w.elems ++ [x]).rtake n, w.next + 1⟩

/-- The stream goes on with some elements, all but the last `n` of which are skipped. -/
def append (n : ℕ) (w : Window α) (xs : List α) : Window α :=
  ⟨(w.elems ++ xs).rtake n, w.next + min xs.length n⟩

def popFront (w : Window α) (k : ℕ) : Window α := ⟨w.elems.drop k, w.next⟩

def popBack (w : Window α) : Window α := ⟨w.elems.dropLast, w.next - 1⟩

end Window

end ChipletGem5
