import Mathlib.Tactic

/-!
# Weights of walks

A directed graph with weights is given by its edges, a relation between two vertices and a weight.
Two ways to bound the weights of walks from below: a potential, which no edge decreases by more
than its weight (`Walk.potential_le`), and a matrix that satisfies the triangle inequality and
does not exceed the weights of the edges (`Walk.le_of_triangle`).
-/

namespace ChipletGem5

variable {V : Type*} {edge : V → V → ℤ → Prop} {u v w : V} {a c d : ℤ}

/-- There is a walk from a vertex to another one along edges, of this total weight. -/
inductive Walk (edge : V → V → ℤ → Prop) : V → V → ℤ → Prop
  | nil (u : V) : Walk edge u u 0
  | cons {u v w : V} {a c : ℤ} (h : edge u v a) (p : Walk edge v w c) : Walk edge u w (a + c)

/-- The least weight of a walk. -/
def Distance (edge : V → V → ℤ → Prop) (u v : V) (d : ℤ) : Prop :=
  IsLeast {c | Walk edge u v c} d

namespace Walk

lemma single (h : edge u v a) : Walk edge u v a := by
  simpa using cons h (nil v)

section

variable (h : Walk edge u v c)
include h

lemma trans (h' : Walk edge v w d) : Walk edge u w (c + d) := by
  induction h with
  | nil u => simpa using h'
  | cons hedge _ ih =>
    rw [add_assoc]
    exact cons hedge (ih h')

lemma potential_le {f : V → ℤ} (hf : ∀ u v a, edge u v a → f u ≤ a + f v) : f u ≤ c + f v := by
  induction h with
  | nil u => simp
  | cons hedge _ ih =>
    have := hf _ _ _ hedge
    omega

lemma potential_eq {f : V → ℤ} (hf : ∀ u v a, edge u v a → f u = a + f v) : f u = c + f v := by
  induction h with
  | nil u => simp
  | cons hedge _ ih =>
    have := hf _ _ _ hedge
    omega

/-- A matrix that is a lower bound for the edges and satisfies the triangle inequality is a lower
bound for every walk but the empty one. -/
lemma le_of_triangle {m : V → V → ℤ} (hedge : ∀ u v a, edge u v a → m u v ≤ a)
    (htri : ∀ u v w, m u w ≤ m u v + m v w) :
    u = v ∧ c = 0 ∨ m u v ≤ c := by
  induction h with
  | nil u => exact .inl ⟨rfl, rfl⟩
  | @cons u v w a c he _ ih =>
    have ha := hedge _ _ _ he
    rcases ih with ⟨rfl, rfl⟩ | hle
    · exact .inr (by omega)
    · have := htri u v w
      exact .inr (by omega)

lemma nonneg (hpos : ∀ u v a, edge u v a → 0 ≤ a) : 0 ≤ c := by
  have := h.potential_le (f := fun _ => 0) fun u v a he => by simpa using hpos u v a he
  simpa using this

end

end Walk

lemma Distance.first_edge (h : Distance edge u w d) (hne : u ≠ w) :
    ∃ v a, edge u v a ∧ Distance edge v w (d - a) := by
  obtain ⟨hwalk, hleast⟩ := h
  rcases hwalk with _ | @⟨_, v, _, a, c, he, hrest⟩
  · exact absurd rfl hne
  · refine ⟨v, a, he, ?_, ?_⟩
    · simpa using hrest
    · intro c' hc'
      have : a + c ≤ a + c' := hleast (Walk.cons he hc')
      omega

end ChipletGem5
