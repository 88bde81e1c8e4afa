import Mathlib.Tactic

/-!
# Words made of chunks

Words are cut into chunks of `m` bits, the lowest ones first, and put together from them: by
shifting in one chunk after another, or by combining chunks that were shifted to their places.
-/

namespace ChipletGem5

open BitVec

variable {w m k : ℕ}

lemma eq_of_chunks_eq {v v' : BitVec w} (hm : 0 < m) (hw : w ≤ m * k)
    (h : ∀ i < k, v.extractLsb' (m * i) m = v'.extractLsb' (m * i) m) : v = v' := by
  refine eq_of_getLsbD_eq ?_
  intro b hb
  have hi : b / m < k := Nat.div_lt_of_lt_mul (by omega)
  have hbit := congrArg (·.getLsbD (b % m)) (h (b / m) hi)
  simpa [Nat.mod_lt b hm, Nat.div_add_mod] using hbit

/-- Put a word together by shifting in its chunks, the last one of the list first. -/
def shiftIn (w : ℕ) (l : List (BitVec m)) : BitVec w :=
  l.foldr (fun c v => (v <<< m) ||| c.setWidth w) 0

@[simp]
lemma shiftIn_cons (c : BitVec m) (l : List (BitVec m)) :
    shiftIn w (c :: l) = (shiftIn w l <<< m) ||| c.setWidth w := rfl

lemma extractLsb'_shiftIn {l : List (BitVec m)} (hl : m * l.length ≤ w) {i : ℕ} {c : BitVec m}
    (hc : l[i]? = some c) : (shiftIn w l).extractLsb' (m * i) m = c := by
  induction l generalizing i with
  | nil => simp at hc
  | cons c' l ih =>
    have hmul : m * (c' :: l).length = m * l.length + m := by
      rw [List.length_cons, Nat.mul_succ]
    refine eq_of_getLsbD_eq ?_
    intro b hb
    cases i with
    | zero =>
      obtain rfl : c' = c := by simpa using hc
      have hbw : b < w := by omega
      simp [hb, hbw]
    | succ i =>
      rw [List.getElem?_cons_succ] at hc
      have hilt : i < l.length := (List.getElem?_eq_some_iff.1 hc).1
      have hle : m * (i + 1) ≤ m * l.length := Nat.mul_le_mul_left m hilt
      have hsucc : m * (i + 1) = m * i + m := Nat.mul_succ m i
      have hbit := congrArg (·.getLsbD b) (ih (by omega) hc)
      rw [getLsbD_extractLsb', shiftIn_cons, getLsbD_or, getLsbD_shiftLeft,
        getLsbD_setWidth, getLsbD_of_ge c' _ (by omega), ← hbit]
      have hidx : m * (i + 1) + b - m = m * i + b := by omega
      have hlt : m * (i + 1) + b < w := by omega
      have hge : ¬ m * (i + 1) + b < m := by omega
      simp [hidx, hlt, hge, hb]

end ChipletGem5
