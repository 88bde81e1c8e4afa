import Mathlib.Tactic

/-!
# Flag words

The class `Flags` of `base/flags.hh`: a word of flag bits with masks for the single flags.
The lemmas say how setting and clearing one mask shows under another.
-/

namespace ChipletGem5.Flags

open BitVec

variable {w : ℕ}

def isSet (flags mask : BitVec w) : Bool := flags &&& mask != 0

def set (flags mask : BitVec w) : BitVec w := flags ||| mask

def clear (flags mask : BitVec w) : BitVec w := flags &&& ~~~mask

lemma isSet_set_self {mask : BitVec w} (h : mask ≠ 0) (flags : BitVec w) :
    isSet (set flags mask) mask := by
  have hand : (flags ||| mask) &&& mask = mask := by
    ext i hi
    simp only [getElem_and, getElem_or]
    cases flags[i] <;> cases mask[i] <;> rfl
  simpa [isSet, set, hand] using h

lemma isSet_clear_self (flags mask : BitVec w) : isSet (clear flags mask) mask = false := by
  have hand : flags &&& ~~~mask &&& mask = 0#w := by
    ext i hi
    simp only [getElem_and, getElem_not, getElem_zero]
    cases flags[i] <;> cases mask[i] <;> rfl
  simp [isSet, clear, hand]

lemma isSet_set_of_disjoint {mask mask' : BitVec w} (h : mask &&& mask' = 0#w)
    (flags : BitVec w) : isSet (set flags mask) mask' = isSet flags mask' := by
  have hand : (flags ||| mask) &&& mask' = flags &&& mask' := by
    ext i hi
    have hi' : (mask[i] && mask'[i]) = false := by
      rw [← getElem_and, h, getElem_zero]
    simp only [getElem_and, getElem_or]
    revert hi'
    cases flags[i] <;> cases mask[i] <;> cases mask'[i] <;> simp
  simp [isSet, set, hand]

lemma isSet_clear_of_disjoint {mask mask' : BitVec w} (h : mask &&& mask' = 0#w)
    (flags : BitVec w) : isSet (clear flags mask) mask' = isSet flags mask' := by
  have hand : flags &&& ~~~mask &&& mask' = flags &&& mask' := by
    ext i hi
    have hi' : (mask[i] && mask'[i]) = false := by
      rw [← getElem_and, h, getElem_zero]
    simp only [getElem_and, getElem_not]
    revert hi'
    cases flags[i] <;> cases mask[i] <;> cases mask'[i] <;> simp
  simp [isSet, clear, hand]

end ChipletGem5.Flags
