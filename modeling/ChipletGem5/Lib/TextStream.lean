import Mathlib.Tactic

/-!
# Formatted text streams

Decimal output of integers, formatted input of integers and line input over a stream of
characters, with the two state bits of an input stream that decide whether an extraction
assigns its variable.  A character is one byte of the stream.  The main results are the round trips
`readUnsigned_putNat`, `readSigned_putInt` and `getlines_unlines`.
-/

namespace ChipletGem5.TextStream

open List

/-- The white space that a formatted extraction skips. -/
def isSpace (c : Char) : Bool :=
  c == ' ' || c == '\t' || c == '\n' || c == '\x0b' || c == '\x0c' || c == '\r'

/-! ### Output -/

def putNat (n : ℕ) : List Char := Nat.toDigits 10 n

def putInt (z : ℤ) : List Char :=
  if z < 0 then '-' :: putNat z.natAbs else putNat z.natAbs

variable {n : ℕ} {c : Char} {tail : List Char}

lemma isDigit_of_mem_putNat (h : c ∈ putNat n) : c.isDigit :=
  Nat.isDigit_of_mem_toDigits (by omega) (by omega) h

lemma putNat_ne_nil (n : ℕ) : putNat n ≠ [] := Nat.toDigits_ne_nil

lemma isSpace_of_isDigit (h : c.isDigit) : isSpace c = false := by
  by_contra hs
  have hs' : isSpace c := by simpa using hs
  simp only [isSpace, Bool.or_eq_true, beq_iff_eq] at hs'
  rcases hs' with ((((rfl | rfl) | rfl) | rfl) | rfl) | rfl <;> simp at h

lemma ne_newline_of_mem_putInt {z : ℤ} (h : c ∈ putInt z) : c ≠ '\n' := by
  rintro rfl
  have hdigit : ∀ n : ℕ, '\n' ∉ putNat n := fun n hn =>
    absurd (isDigit_of_mem_putNat hn) (by decide)
  unfold putInt at h
  split at h
  · rcases mem_cons.1 h with h | h
    · simp at h
    · exact hdigit _ h
  · exact hdigit _ h

/-! ### Formatted input -/

/-- An input stream over a string: the unread characters and the two state bits. -/
structure IStream where
  /-- The characters not read yet. -/
  unread : List Char
  /-- An extraction has run into the end of the string. -/
  eof : Bool
  /-- An extraction has failed. -/
  fail : Bool
deriving DecidableEq, Repr

/-- A cleared stream over a new string. -/
def IStream.ofText (cs : List Char) : IStream := ⟨cs, false, false⟩

/-- What every formatted extraction does first.  On a stream that is not good, or that has
nothing but white space left, it sets the fail bit and the variable keeps its value. -/
def IStream.sentry (s : IStream) : IStream × Bool :=
  if s.eof || s.fail then
    ({ s with fail := true }, false)
  else
    match s.unread.dropWhile isSpace with
    | [] => (⟨[], true, true⟩, false)
    | c :: cs => (⟨c :: cs, false, false⟩, true)

/-- Split off an optional sign; `true` stands for a minus. -/
def takeSign : List Char → Bool × List Char
  | '-' :: cs => (true, cs)
  | '+' :: cs => (false, cs)
  | cs => (false, cs)

/-- Extraction of a signed integer with the bounds `lo` and `hi`: no digits give `0`, a value
out of range the nearer bound, both with the fail bit.  `none` means that the variable was
not assigned. -/
def IStream.readSigned (lo hi : ℤ) (s : IStream) : IStream × Option ℤ :=
  match s.sentry with
  | (s', false) => (s', none)
  | (s', true) =>
      let signed := takeSign s'.unread
      let digits := signed.2.takeWhile Char.isDigit
      let rest := signed.2.dropWhile Char.isDigit
      let magnitude := Nat.ofDigitChars 10 digits 0
      let v : ℤ := if signed.1 then -(magnitude : ℤ) else magnitude
      if digits.isEmpty then (⟨rest, rest.isEmpty, true⟩, some 0)
      else if v < lo then (⟨rest, rest.isEmpty, true⟩, some lo)
      else if hi < v then (⟨rest, rest.isEmpty, true⟩, some hi)
      else (⟨rest, rest.isEmpty, false⟩, some v)

/-- Extraction of an unsigned integer below `bound`.  A minus sign negates modulo `bound`. -/
def IStream.readUnsigned (bound : ℕ) (s : IStream) : IStream × Option ℕ :=
  match s.sentry with
  | (s', false) => (s', none)
  | (s', true) =>
      let signed := takeSign s'.unread
      let digits := signed.2.takeWhile Char.isDigit
      let rest := signed.2.dropWhile Char.isDigit
      let magnitude := Nat.ofDigitChars 10 digits 0
      if digits.isEmpty then (⟨rest, rest.isEmpty, true⟩, some 0)
      else if bound ≤ magnitude then (⟨rest, rest.isEmpty, true⟩, some (bound - 1))
      else (⟨rest, rest.isEmpty, false⟩,
        some (if signed.1 then (bound - magnitude) % bound else magnitude))

/-! ### Reading a number back -/

lemma takeWhile_putNat (htail : ∀ c ∈ tail.head?, c.isDigit = false) :
    (putNat n ++ tail).takeWhile Char.isDigit = putNat n := by
  rw [takeWhile_append_of_pos (fun c hc => isDigit_of_mem_putNat hc)]
  cases tail with
  | nil => simp
  | cons c cs => simp [htail c (by simp)]

lemma dropWhile_putNat (htail : ∀ c ∈ tail.head?, c.isDigit = false) :
    (putNat n ++ tail).dropWhile Char.isDigit = tail := by
  rw [dropWhile_append_of_pos (fun c hc => isDigit_of_mem_putNat hc)]
  cases tail with
  | nil => simp
  | cons c cs => simp [htail c (by simp)]

lemma putNat_eq_cons (n : ℕ) : ∃ d ds, putNat n = d :: ds ∧ d.isDigit := by
  rcases h : putNat n with _ | ⟨d, ds⟩
  · exact absurd h (putNat_ne_nil n)
  · exact ⟨d, ds, rfl, isDigit_of_mem_putNat (n := n) (by rw [h]; simp)⟩

lemma takeSign_putNat (n : ℕ) (tail : List Char) :
    takeSign (putNat n ++ tail) = (false, putNat n ++ tail) := by
  obtain ⟨d, ds, hd, hdigit⟩ := putNat_eq_cons n
  rw [hd]
  unfold takeSign
  split
  · rename_i heq
    obtain ⟨rfl, -⟩ := List.cons.inj heq
    simp at hdigit
  · rename_i heq
    obtain ⟨rfl, -⟩ := List.cons.inj heq
    simp at hdigit
  · rfl

lemma takeSign_putInt (z : ℤ) (tail : List Char) :
    takeSign (putInt z ++ tail) = (decide (z < 0), putNat z.natAbs ++ tail) := by
  unfold putInt
  split
  · rename_i hz
    simp [takeSign, hz]
  · rename_i hz
    rw [takeSign_putNat]
    simp [hz]

lemma isSpace_head_putInt (z : ℤ) : ∃ d ds, putInt z = d :: ds ∧ isSpace d = false := by
  unfold putInt
  split
  · exact ⟨'-', _, rfl, by decide⟩
  · obtain ⟨d, ds, hd, hdigit⟩ := putNat_eq_cons z.natAbs
    exact ⟨d, ds, hd, isSpace_of_isDigit hdigit⟩

lemma sentry_putInt (z : ℤ) (tail : List Char) :
    (IStream.ofText (' ' :: (putInt z ++ tail))).sentry
      = (IStream.ofText (putInt z ++ tail), true) := by
  obtain ⟨d, ds, hd, hspace⟩ := isSpace_head_putInt z
  have hsp : isSpace ' ' := by decide
  simp [IStream.sentry, IStream.ofText, hd, hspace, hsp]

lemma readSigned_putInt {lo hi z : ℤ} (hlo : lo ≤ z) (hhi : z ≤ hi)
    (htail : ∀ c ∈ tail.head?, c.isDigit = false) :
    (IStream.ofText (' ' :: (putInt z ++ tail))).readSigned lo hi
      = (⟨tail, tail.isEmpty, false⟩, some z) := by
  have hdigits : (putNat z.natAbs).isEmpty = false := by
    simpa [isEmpty_eq_false_iff] using putNat_ne_nil z.natAbs
  have hval : Nat.ofDigitChars 10 (putNat z.natAbs) 0 = z.natAbs := Nat.ofDigitChars_ten_toDigits
  have hz : (if z < 0 then -(z.natAbs : ℤ) else (z.natAbs : ℤ)) = z := by
    split <;> omega
  unfold IStream.readSigned
  rw [sentry_putInt]
  simp only [IStream.ofText, takeSign_putInt, takeWhile_putNat htail, dropWhile_putNat htail,
    hdigits, hval, decide_eq_true_eq, hz, Bool.false_eq_true, if_false]
  rw [if_neg (by omega), if_neg (by omega)]

lemma readUnsigned_putNat {bound : ℕ} (hn : n < bound)
    (htail : ∀ c ∈ tail.head?, c.isDigit = false) :
    (IStream.ofText (putNat n ++ tail)).readUnsigned bound
      = (⟨tail, tail.isEmpty, false⟩, some n) := by
  have hdigits : (putNat n).isEmpty = false := by
    simpa [isEmpty_eq_false_iff] using putNat_ne_nil n
  have hval : Nat.ofDigitChars 10 (putNat n) 0 = n := Nat.ofDigitChars_ten_toDigits
  have hsentry : (IStream.ofText (putNat n ++ tail)).sentry
      = (IStream.ofText (putNat n ++ tail), true) := by
    obtain ⟨d, ds, hd, hdigit⟩ := putNat_eq_cons n
    simp [IStream.sentry, IStream.ofText, hd, isSpace_of_isDigit hdigit]
  unfold IStream.readUnsigned
  rw [hsentry]
  simp only [IStream.ofText, takeSign_putNat, takeWhile_putNat htail, dropWhile_putNat htail,
    hdigits, hval, Bool.false_eq_true, if_false]
  rw [if_neg (by omega)]

/-! ### Lines -/

/-- The lines that successive calls of `getline` return from the characters `cs` at offset
`pos`, each with the offset the stream reports after the call; `acc` is the part of the
current line read so far.  A last line without its newline ends the stream, and the offset
is then reported as `-1`. -/
def getlines (pos : ℕ) (acc : List Char) : List Char → List (List Char × ℤ)
  | [] => if acc.isEmpty then [] else [(acc, -1)]
  | c :: cs =>
      if c = '\n' then (acc, (pos : ℤ) + 1) :: getlines (pos + 1) [] cs
      else getlines (pos + 1) (acc ++ [c]) cs

/-- The text of whole lines. -/
def unlines : List (List Char) → List Char
  | [] => []
  | l :: ls => l ++ '\n' :: unlines ls

@[simp] lemma unlines_nil : unlines [] = [] := rfl

@[simp] lemma unlines_cons (l : List Char) (ls : List (List Char)) :
    unlines (l :: ls) = l ++ '\n' :: unlines ls := rfl

lemma unlines_append (ls ls' : List (List Char)) :
    unlines (ls ++ ls') = unlines ls ++ unlines ls' := by
  induction ls with
  | nil => rfl
  | cons l ls ih => simp [ih]

/-- The lines of a text, each with the offset at which it ends. -/
def lineEnds (pos : ℕ) : List (List Char) → List (List Char × ℤ)
  | [] => []
  | l :: ls => (l, ((pos + l.length + 1 : ℕ) : ℤ)) :: lineEnds (pos + l.length + 1) ls

lemma getlines_line {l : List Char} (hl : '\n' ∉ l) (pos : ℕ) (acc cs : List Char) :
    getlines pos acc (l ++ '\n' :: cs)
      = (acc ++ l, ((pos + l.length + 1 : ℕ) : ℤ)) :: getlines (pos + l.length + 1) [] cs := by
  induction l generalizing pos acc with
  | nil => simp [getlines]
  | cons c l ih =>
    have hc : c ≠ '\n' := fun h => hl (by simp [h])
    have hl' : '\n' ∉ l := fun h => hl (by simp [h])
    have hpos : pos + 1 + l.length + 1 = pos + (l.length + 1) + 1 := by omega
    simp only [cons_append, getlines, if_neg hc, ih hl', append_assoc,
      length_cons, nil_append, hpos]

lemma getlines_unlines {ls : List (List Char)} (hls : ∀ l ∈ ls, '\n' ∉ l) (pos : ℕ) :
    getlines pos [] (unlines ls) = lineEnds pos ls := by
  induction ls generalizing pos with
  | nil => simp [getlines, lineEnds]
  | cons l ls ih =>
    have hl : '\n' ∉ l := hls l (by simp)
    rw [unlines_cons, getlines_line hl, lineEnds, nil_append,
      ih (fun l' hl' => hls l' (by simp [hl']))]

end ChipletGem5.TextStream
