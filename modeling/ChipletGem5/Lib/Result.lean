import Mathlib.Tactic

/-!
# Computations that may fail

Rules for computations in `Except`: a sequence returns if its parts do, and `require` stops a
computation unless a condition holds.  A proof about a function with several such parts takes
it apart with `bind_eq_ok`, one call after the other.  `CallFault` has the reasons for which a
function of a program may not return; `Returns` is what a function with fuel computes.
-/

namespace ChipletGem5

/-- Why a call does not return. -/
inductive CallFault where
  /-- A failed assertion, with its condition. -/
  | assertion (cond : String)
  /-- An error of the program is reported, with the format of its message. -/
  | panic (format : String)
  /-- An error of the user is reported, with the format of its message. -/
  | fatal (format : String)
  /-- Undefined behaviour, with the expression that has it. -/
  | undefined (expr : String)
  /-- A loop does not end within its fuel. -/
  | outOfFuel
deriving DecidableEq, Repr

/-- What a call returns, if it does. -/
abbrev Result := Except CallFault

variable {ε α β : Type}

variable {x : α} {k : α → Except ε β} {e : ε} {r : β}

@[simp] lemma ok_bind : Except.ok x >>= k = k x := rfl

@[simp] lemma error_bind : Except.error e >>= k = .error e := rfl

@[simp] lemma pure_eq : (pure x : Except ε α) = .ok x := rfl

lemma bind_eq_ok {x : Except ε α} : x >>= k = .ok r ↔ ∃ y, x = .ok y ∧ k y = .ok r := by
  cases x <;> simp

lemma bind_eq_error {x : Except ε α} :
    x >>= k = .error e ↔ x = .error e ∨ ∃ y, x = .ok y ∧ k y = .error e := by
  cases x <;> simp

lemma map_eq_ok {x : Except ε α} {f : α → β} : f <$> x = .ok r ↔ ∃ y, x = .ok y ∧ f y = r := by
  cases x <;> simp [Functor.map, Except.map]

lemma pure_eq_ok {r : α} : (pure x : Except ε α) = .ok r ↔ x = r := by
  simp

lemma bind_pure_eq_ok {x : Except ε α} {f : α → β} :
    (x >>= fun y => pure (f y)) = .ok r ↔ ∃ y, x = .ok y ∧ f y = r := by
  simp only [bind_eq_ok, pure_eq_ok]

lemma bind_pure_eq_error {x : Except ε α} {f : α → β} :
    (x >>= fun y => pure (f y)) = .error e ↔ x = .error e := by
  simp [bind_eq_error]

/-- Stop with an error unless a condition holds. -/
def require (cond : Bool) (e : ε) : Except ε Unit := if cond then .ok () else .error e

lemma require_eq_ok {cond : Bool} {u : Unit} : require cond e = .ok u ↔ cond := by
  cases cond <;> simp [require]

lemma require_eq_error {cond : Bool} {e' : ε} :
    require cond e = .error e' ↔ cond = false ∧ e = e' := by
  cases cond <;> simp [require]

/-- A loop returns, and what its body keeps holds at its end.  The property may speak about the
elements that the loop has passed. -/
lemma foldlM_ok {f : β → α → Except ε β} {P : List α → β → Prop} {b : β} (l : List α)
    (hnil : P [] b)
    (hstep : ∀ {done b a}, done ++ [a] <+: l → P done b →
      ∃ b', f b a = .ok b' ∧ P (done ++ [a]) b') :
    ∃ b', l.foldlM f b = .ok b' ∧ P l b' := by
  induction l using List.reverseRecOn with
  | nil => exact ⟨b, rfl, hnil⟩
  | append_singleton l a ih =>
    obtain ⟨b1, hb1, h1⟩ := ih fun hdone => hstep (hdone.trans (List.prefix_append l [a]))
    obtain ⟨b2, hb2, h2⟩ := hstep List.prefix_rfl h1
    refine ⟨b2, ?_, h2⟩
    rw [List.foldlM_append]
    exact bind_eq_ok.2 ⟨b1, hb1, bind_eq_ok.2 ⟨b2, hb2, rfl⟩⟩

/-- What holds at the end of a loop that has returned, by what its body keeps. -/
lemma foldlM_invariant {f : β → α → Except ε β} {P : List α → β → Prop} {b : β} {l : List α}
    (h : l.foldlM f b = .ok r) (hnil : P [] b)
    (hstep : ∀ {done b a b'}, done ++ [a] <+: l → P done b → f b a = .ok b' →
      P (done ++ [a]) b') : P l r := by
  induction l using List.reverseRecOn generalizing r with
  | nil =>
    cases h
    exact hnil
  | append_singleton l a ih =>
    rw [List.foldlM_append] at h
    obtain ⟨b1, hb1, h1⟩ := bind_eq_ok.1 h
    obtain ⟨b2, hb2, h2⟩ := bind_eq_ok.1 h1
    cases h2
    exact hstep List.prefix_rfl
      (ih hb1 fun hdone => hstep (hdone.trans (List.prefix_append l [a]))) hb2

/-- A loop whose rounds can be exchanged ends in the same way in any order. -/
lemma foldlM_perm {f : β → α → Except ε β} {l l' : List α} {b : β} (hl : l.Perm l')
    (hf : ∀ {b a a' b1 b2}, f b a = .ok b1 → f b1 a' = .ok b2 →
      ∃ b1', f b a' = .ok b1' ∧ f b1' a = .ok b2)
    (h : l.foldlM f b = .ok r) : l'.foldlM f b = .ok r := by
  induction hl generalizing b with
  | nil => exact h
  | cons a _ ih =>
    obtain ⟨b1, hb1, h1⟩ := bind_eq_ok.1 h
    exact bind_eq_ok.2 ⟨b1, hb1, ih h1⟩
  | swap a a' l =>
    obtain ⟨b1, hb1, h1⟩ := bind_eq_ok.1 h
    obtain ⟨b2, hb2, h2⟩ := bind_eq_ok.1 h1
    obtain ⟨b1', hb1', hb2'⟩ := hf hb1 hb2
    exact bind_eq_ok.2 ⟨b1', hb1', bind_eq_ok.2 ⟨b2, hb2', h2⟩⟩
  | trans _ _ ih ih' => exact ih' (ih h)

/-- The value of an option, or an error. -/
def getOrError (o : Option α) (e : ε) : Except ε α :=
  match o with
  | some x => .ok x
  | none => .error e

lemma getOrError_eq_ok {o : Option α} : getOrError o e = .ok x ↔ o = some x := by
  cases o <;> simp [getOrError]

/-! ### Fuel -/

/-- A computation with fuel ends with the result `r`: it does so once it has enough fuel. -/
def Returns (f : ℕ → Except ε α) (r : Except ε α) : Prop :=
  ∃ N, ∀ fuel, N ≤ fuel → f fuel = r

section Returns

variable {f : ℕ → Except ε α} {g : ℕ → α → Except ε β}

variable {r : Except ε α}

lemma Returns.of_forall (h : ∀ fuel, f fuel = r) : Returns f r :=
  ⟨0, fun fuel _ => h fuel⟩

lemma Returns.of_lt {N : ℕ} (h : ∀ fuel, N < fuel → f fuel = r) : Returns f r :=
  ⟨N + 1, h⟩

lemma Returns.congr {f' : ℕ → Except ε α} (h : Returns f r)
    (hf : ∀ fuel, f' fuel = f fuel) : Returns f' r := by
  obtain ⟨N, hN⟩ := h
  exact ⟨N, fun fuel hfuel => (hf fuel).trans (hN fuel hfuel)⟩

lemma Returns.bind {x : α} {r : Except ε β} (hf : Returns f (.ok x))
    (hg : Returns (fun fuel => g fuel x) r) : Returns (fun fuel => f fuel >>= g fuel) r := by
  obtain ⟨N, hN⟩ := hf
  obtain ⟨M, hM⟩ := hg
  refine ⟨max N M, fun fuel hfuel => ?_⟩
  have hfx := hN fuel (le_of_max_le_left hfuel)
  have hgx := hM fuel (le_of_max_le_right hfuel)
  simp only [hfx]
  exact hgx

lemma Returns.map {x : α} (hf : Returns f (.ok x)) (g : α → β) :
    Returns (fun fuel => f fuel >>= fun y => .ok (g y)) (.ok (g x)) :=
  hf.bind (Returns.of_forall fun _ => rfl)

lemma Returns.unique {r' : Except ε α} (h : Returns f r) (h' : Returns f r') : r = r' := by
  obtain ⟨N, hN⟩ := h
  obtain ⟨M, hM⟩ := h'
  rw [← hN (max N M) (le_max_left N M), hM (max N M) (le_max_right N M)]

end Returns

end ChipletGem5
