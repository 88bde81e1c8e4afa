import Mathlib.Tactic

/-!
# What holds since an event

For a history, a list of events with the latest at its end, `Since P Q` says that there was an
event with `P`, and that all events behind it have `Q`: the operator *since* of temporal logic.
`since_concat` gives its value after one more event, which is what an induction over a run
needs.
-/

namespace ChipletGem5

open List

variable {α : Type*} {P Q : α → Prop} {l : List α} {x : α}

/-- Some event has `P`, and every later one has `Q`. -/
def Since (P Q : α → Prop) (l : List α) : Prop :=
  ∃ pre e post, l = pre ++ e :: post ∧ P e ∧ ∀ x ∈ post, Q x

lemma since_concat : Since P Q (l ++ [x]) ↔ P x ∨ Since P Q l ∧ Q x := by
  constructor
  · rintro ⟨pre, e, post, hl, he, hpost⟩
    rcases eq_nil_or_concat post with rfl | ⟨post, y, rfl⟩
    · obtain ⟨-, rfl⟩ : l = pre ∧ x = e := by simpa using hl
      exact .inl he
    · obtain ⟨rfl, rfl⟩ : l = pre ++ e :: post ∧ x = y := by
        rw [concat_eq_append, ← cons_append, ← append_assoc] at hl
        exact ⟨(append_inj' hl rfl).1, by simpa using (append_inj' hl rfl).2⟩
      refine .inr ⟨⟨pre, e, post, rfl, he, fun z hz => hpost z ?_⟩, hpost x ?_⟩
      · simp [hz]
      · simp
  · rintro (hx | ⟨⟨pre, e, post, rfl, he, hpost⟩, hx⟩)
    · exact ⟨l, x, [], rfl, hx, by simp⟩
    · refine ⟨pre, e, post ++ [x], by simp, he, fun y hy => ?_⟩
      rcases mem_append.1 hy with hy | hy
      · exact hpost y hy
      · rwa [mem_singleton.1 hy]

end ChipletGem5
