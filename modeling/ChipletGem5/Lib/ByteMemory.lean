import Mathlib.Tactic

/-!
# Byte memories

A memory is a function from addresses of a fixed width to bytes.  `readBytes` and `writeBytes`
are `memcpy` from and to a memory, where a write may leave out bytes; addresses wrap around.
`writeBytes_of_notMem` is the frame rule of a write.
-/

namespace ChipletGem5

/-- A memory with addresses of `w` bits. -/
abbrev ByteMemory (w : ℕ) := BitVec w → UInt8

namespace ByteMemory

variable {w : ℕ} {mem : ByteMemory w} {a b : BitVec w}

/-- The `n` addresses from an address on. -/
def addrs (a : BitVec w) : ℕ → List (BitVec w)
  | 0 => []
  | n + 1 => a :: addrs (a + 1) n

/-- The bytes at the `n` addresses from an address on. -/
def readBytes (mem : ByteMemory w) (a : BitVec w) (n : ℕ) : List UInt8 := (addrs a n).map mem

/-- Write bytes to the addresses from an address on; a byte `none` is left out. -/
def writeBytes (mem : ByteMemory w) : BitVec w → List (Option UInt8) → ByteMemory w
  | _, [] => mem
  | a, none :: bytes => writeBytes mem (a + 1) bytes
  | a, some b :: bytes => writeBytes (Function.update mem a b) (a + 1) bytes

/-- The addresses that `writeBytes` writes. -/
def written : BitVec w → List (Option UInt8) → List (BitVec w)
  | _, [] => []
  | a, none :: bytes => written (a + 1) bytes
  | a, some _ :: bytes => a :: written (a + 1) bytes

@[simp] lemma length_readBytes (mem : ByteMemory w) (a : BitVec w) (n : ℕ) :
    (readBytes mem a n).length = n := by
  have haddrs : ∀ (n : ℕ) (a : BitVec w), (addrs a n).length = n := by
    intro n
    induction n with
    | zero => exact fun _ => rfl
    | succ n ih => exact fun a => congrArg Nat.succ (ih (a + 1))
  rw [readBytes, List.length_map, haddrs]

lemma writeBytes_of_notMem {bytes : List (Option UInt8)} (h : b ∉ written a bytes) :
    writeBytes mem a bytes b = mem b := by
  induction bytes generalizing mem a with
  | nil => rfl
  | cons x bytes ih =>
    rcases x with _ | x
    · exact ih h
    · obtain ⟨hne, h⟩ : b ≠ a ∧ b ∉ written (a + 1) bytes := by simpa [written] using h
      rw [writeBytes, ih h, Function.update_of_ne hne]

lemma written_congr {bytes bytes' : List (Option UInt8)}
    (h : bytes.map Option.isSome = bytes'.map Option.isSome) :
    written a bytes = written a bytes' := by
  induction bytes generalizing a bytes' with
  | nil =>
    obtain rfl : bytes' = [] := by simpa using h.symm
    rfl
  | cons x bytes ih =>
    rcases bytes' with _ | ⟨y, bytes'⟩
    · simp at h
    · obtain ⟨hxy, htail⟩ := List.cons.inj h
      rcases x with _ | x <;> rcases y with _ | y
      · exact ih htail
      · simp at hxy
      · simp at hxy
      · exact congrArg (a :: ·) (ih htail)

lemma written_map_some (a : BitVec w) (bytes : List UInt8) :
    written a (bytes.map some) = addrs a bytes.length := by
  induction bytes generalizing a with
  | nil => rfl
  | cons b bytes ih => exact congrArg (a :: ·) (ih (a + 1))

end ByteMemory

end ChipletGem5
