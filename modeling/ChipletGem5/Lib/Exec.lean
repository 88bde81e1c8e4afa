import Mathlib.Tactic

/-!
# Executions of a transition system

A system is given by its steps, a relation between a state, an action and the next state.  An
execution is a list of actions, the latest at its end, with the state that it leads to.
`Exec.invariant` is the induction over executions, for a property that may speak about the history
as well.  Where the steps are those of a program, `replay` runs a list of actions, and
`exec_of_replay` turns a run into an execution.
-/

namespace ChipletGem5

variable {σ α ε : Type*} {Step : σ → α → σ → Prop} {s₀ s s' : σ} {as : List α} {a : α}

/-- The executions from a state. -/
inductive Exec (Step : σ → α → σ → Prop) (s₀ : σ) : List α → σ → Prop
  | nil : Exec Step s₀ [] s₀
  | snoc {as : List α} {s s' : σ} {a : α} (h : Exec Step s₀ as s) (hs : Step s a s') :
      Exec Step s₀ (as ++ [a]) s'

/-- What holds at the start and is kept by every step holds after every execution. -/
lemma Exec.invariant {I : List α → σ → Prop} (h : Exec Step s₀ as s) (hnil : I [] s₀)
    (hstep : ∀ {as s a s'}, I as s → Step s a s' → I (as ++ [a]) s') : I as s := by
  induction h with
  | nil => exact hnil
  | snoc _ hs ih => exact hstep ih hs

lemma Exec.invariant_state {I : σ → Prop} (h : Exec Step s₀ as s) (hnil : I s₀)
    (hstep : ∀ {s a s'}, I s → Step s a s' → I s') : I s :=
  h.invariant (I := fun _ s => I s) hnil hstep

lemma Exec.mono {Step' : σ → α → σ → Prop} (h : Exec Step s₀ as s)
    (hstep : ∀ {s a s'}, Step s a s' → Step' s a s') : Exec Step' s₀ as s := by
  induction h with
  | nil => exact .nil
  | snoc _ hs ih => exact ih.snoc (hstep hs)

/-- The steps of a program that may fail, taken under a condition. -/
def Guarded (ok : σ → α → Prop) (step : σ → α → Except ε σ) (s : σ) (a : α) (s' : σ) : Prop :=
  ok s a ∧ step s a = .ok s'

/-- What every step that is taken keeps, where every such step returns. -/
lemma Exec.invariant_ok {ok : σ → α → Prop} {step : σ → α → Except ε σ} {I : σ → Prop}
    (h : Exec (Guarded ok step) s₀ as s) (hnil : I s₀)
    (hstep : ∀ {s a}, I s → ok s a → ∃ s', step s a = .ok s' ∧ I s') : I s :=
  h.invariant_state hnil fun hi hs => by
    obtain ⟨s', hs', hi'⟩ := hstep hi hs.1
    cases hs'.symm.trans hs.2
    exact hi'

/-- Run a list of actions, as long as their conditions hold and none of them fails. -/
def replay (ok : σ → α → Prop) [∀ s a, Decidable (ok s a)] (step : σ → α → Except ε σ) :
    σ → List α → Option σ
  | s, [] => some s
  | s, a :: as =>
      if ok s a then
        match step s a with
        | .ok s' => replay ok step s' as
        | .error _ => none
      else none

variable {ok : σ → α → Prop} [∀ s a, Decidable (ok s a)] {step : σ → α → Except ε σ}

lemma Exec.replay {as' : List α} (h : Exec (Guarded ok step) s₀ as s)
    (hr : replay ok step s as' = some s') : Exec (Guarded ok step) s₀ (as ++ as') s' := by
  induction as' generalizing as s with
  | nil =>
    cases hr
    simpa using h
  | cons a as' ih =>
    rw [ChipletGem5.replay] at hr
    split_ifs at hr with hok
    rcases hstep : step s a with e | s1
    · simp [hstep] at hr
    · rw [hstep] at hr
      simpa using ih (h.snoc ⟨hok, hstep⟩) hr

lemma exec_of_replay (h : replay ok step s₀ as = some s) : Exec (Guarded ok step) s₀ as s :=
  Exec.nil.replay h

/-- An execution to a state of which only the value of `f` is known. -/
lemma exists_exec {β : Type*} {P : σ → Prop} (f : σ → β) (b : β)
    (h : (replay ok step s₀ as).map f = some b)
    (hP : ∀ s, Exec (Guarded ok step) s₀ as s → f s = b → P s) :
    ∃ s, Exec (Guarded ok step) s₀ as s ∧ P s := by
  obtain ⟨s, hs, hb⟩ := Option.map_eq_some_iff.1 h
  exact ⟨s, exec_of_replay hs, hP s (exec_of_replay hs) hb⟩

end ChipletGem5
