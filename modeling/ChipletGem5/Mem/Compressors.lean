import ChipletGem5.Mem.DictionaryCompressor

/-!
# The compressors

The dictionary compressors of `mem/cache/compressors` with their patterns: `CPack`, `FPCD`, the
`BaseDelta` compressors, `ZeroCompressor` and `RepeatedQwordsCompressor`.
-/

namespace ChipletGem5.DictionaryCompressor

/-! ### `CPack` -/

namespace CPack

inductive PatternNumber
  | ZZZZ | XXXX | MMMM | MMXX | ZZZX | MMMX

def PatternZZZZ : PatternClass 4 :=
  ⟨.maskedValue 0 0xFFFFFFFF (by decide), PatternNumber.ZZZZ.ctorIdx, 0x0, 2, false⟩

def PatternXXXX : PatternClass 4 := uncompressedPattern PatternNumber.XXXX.ctorIdx 0x1 2

def PatternMMMM : PatternClass 4 :=
  ⟨.masked 0xFFFFFFFF (by decide), PatternNumber.MMMM.ctorIdx, 0x2, 6, true⟩

def PatternMMXX : PatternClass 4 :=
  ⟨.masked 0xFFFF0000 (by decide), PatternNumber.MMXX.ctorIdx, 0xC, 8, true⟩

def PatternZZZX : PatternClass 4 :=
  ⟨.maskedValue 0 0xFFFFFF00 (by decide), PatternNumber.ZZZX.ctorIdx, 0xD, 4, false⟩

def PatternMMMX : PatternClass 4 :=
  ⟨.masked 0xFFFFFF00 (by decide), PatternNumber.MMMX.ctorIdx, 0xE, 8, true⟩

def compressor : Compressor 4 where
  patterns := [PatternZZZZ, PatternMMMM, PatternZZZX, PatternMMMX, PatternMMXX]
  last := PatternXXXX
  last_kind := rfl
  addToDictionary := Dictionary.append
  base := none
  finish := fun blkSize _ comp => return ⟨comp, blkSize / 8 + 5, blkSize / 8⟩

end CPack

/-! ### `FPCD` -/

namespace FPCD

def prefixSize : ℕ := 4

def previousIndex : ℕ := 1

def penultimateIndex : ℕ := 0

inductive PatternNumber
  | ZZZZ | FFFF | MMMMPenultimate | MMMMPrevious | ZZZX | XZZZ | RRRR | MMMXPenultimate
  | MMMXPrevious | ZZXX | ZXZX | FFXX | XXZZ | MMXXPenultimate | MMXXPrevious | XXXX

def PatternZZZZ : PatternClass 4 :=
  ⟨.maskedValue 0 0xFFFFFFFF (by decide), PatternNumber.ZZZZ.ctorIdx, 0x0, prefixSize, true⟩

def PatternFFFF : PatternClass 4 :=
  ⟨.maskedValue 0xFFFFFFFF 0xFFFFFFFF (by decide), PatternNumber.FFFF.ctorIdx, 0x1, prefixSize,
    true⟩

def PatternMMMMPrevious : PatternClass 4 :=
  ⟨.locatedMasked 0xFFFFFFFF previousIndex (by decide), PatternNumber.MMMMPrevious.ctorIdx, 0x2,
    prefixSize, true⟩

def PatternMMMMPenultimate : PatternClass 4 :=
  ⟨.locatedMasked 0xFFFFFFFF penultimateIndex (by decide), PatternNumber.MMMMPenultimate.ctorIdx,
    0x3, prefixSize, true⟩

def PatternZZZX : PatternClass 4 :=
  ⟨.maskedValue 0 0xFFFFFF00 (by decide), PatternNumber.ZZZX.ctorIdx, 0x4, prefixSize, true⟩

def PatternXZZZ : PatternClass 4 :=
  ⟨.maskedValue 0 0x00FFFFFF (by decide), PatternNumber.XZZZ.ctorIdx, 0x5, prefixSize, true⟩

def PatternRRRR : PatternClass 4 :=
  ⟨.repeatedValue 1 (by decide), PatternNumber.RRRR.ctorIdx, 0x6, prefixSize, true⟩

def PatternMMMXPrevious : PatternClass 4 :=
  ⟨.locatedMasked 0xFFFFFF00 previousIndex (by decide), PatternNumber.MMMXPrevious.ctorIdx, 0x7,
    prefixSize, true⟩

def PatternMMMXPenultimate : PatternClass 4 :=
  ⟨.locatedMasked 0xFFFFFF00 penultimateIndex (by decide), PatternNumber.MMMXPenultimate.ctorIdx,
    0x8, prefixSize, true⟩

def PatternZZXX : PatternClass 4 :=
  ⟨.maskedValue 0 0xFFFF0000 (by decide), PatternNumber.ZZXX.ctorIdx, 0x9, prefixSize, true⟩

def PatternZXZX : PatternClass 4 :=
  ⟨.maskedValue 0 0xFF00FF00 (by decide), PatternNumber.ZXZX.ctorIdx, 0xA, prefixSize, true⟩

def PatternFFXX : PatternClass 4 :=
  ⟨.maskedValue 0xFFFFFFFF 0xFFFF0000 (by decide), PatternNumber.FFXX.ctorIdx, 0xB, prefixSize,
    true⟩

def PatternXXZZ : PatternClass 4 :=
  ⟨.maskedValue 0 0x0000FFFF (by decide), PatternNumber.XXZZ.ctorIdx, 0xC, prefixSize, true⟩

def PatternMMXXPrevious : PatternClass 4 :=
  ⟨.locatedMasked 0xFFFF0000 previousIndex (by decide), PatternNumber.MMXXPrevious.ctorIdx, 0xD,
    prefixSize, true⟩

def PatternMMXXPenultimate : PatternClass 4 :=
  ⟨.locatedMasked 0xFFFF0000 penultimateIndex (by decide), PatternNumber.MMXXPenultimate.ctorIdx,
    0xE, prefixSize, true⟩

def PatternXXXX : PatternClass 4 := uncompressedPattern PatternNumber.XXXX.ctorIdx 0xF prefixSize

def addToDictionary (d : Dictionary 4) (data : DictionaryEntry 4) : Result (Dictionary 4) :=
  if h : d.numEntries = 2 then do
    let previous ← getOrError d.entries[previousIndex]? (.undefined "dictionary[previousIndex]")
    return ⟨(d.entries.set penultimateIndex previous).set previousIndex data, d.numEntries, by
      rw [List.length_set, List.length_set]; exact d.le_length⟩
  else if h : d.numEntries < d.entries.length then
    return ⟨d.entries.set d.numEntries data, d.numEntries + 1, by rw [List.length_set]; exact h⟩
  else throw (.undefined "dictionary[numEntries++]")

def compressor : Compressor 4 where
  patterns := [PatternZZZZ, PatternFFFF, PatternMMMMPrevious, PatternMMMMPenultimate, PatternZZZX,
    PatternXZZZ, PatternRRRR, PatternMMMXPrevious, PatternMMMXPenultimate, PatternZZXX,
    PatternZXZX, PatternFFXX, PatternXXZZ, PatternMMXXPrevious, PatternMMXXPenultimate]
  last := PatternXXXX
  last_kind := rfl
  addToDictionary := addToDictionary
  base := none
  finish := fun blkSize _ comp => return ⟨comp, blkSize / 2, 4⟩

end FPCD

/-! ### `BaseDelta` -/

namespace BaseDelta

def DEFAULT_MAX_NUM_BASES : ℕ := 2

inductive PatternNumber
  | X | M

/-- The logarithm of the number of bases is rounded up. -/
def PatternX (n deltaSizeBits : ℕ) : PatternClass n :=
  uncompressedPattern PatternNumber.X.ctorIdx 0 (Nat.clog 2 DEFAULT_MAX_NUM_BASES + deltaSizeBits)

def PatternM (n deltaSizeBits : ℕ) (hdelta : deltaSizeBits < 8 * n) : PatternClass n :=
  deltaPattern deltaSizeBits hdelta PatternNumber.M.ctorIdx 1 (Nat.clog 2 DEFAULT_MAX_NUM_BASES)

/-- What `BaseDelta::compress` does after the compression. -/
def finish (n blkSize : ℕ) (d : Dictionary n) (comp : CompData n) : Result (Compressed n) :=
  let diff : ℤ := DEFAULT_MAX_NUM_BASES - d.numEntries
  let sizeBits :=
    if diff < 0 then blkSize * 8
    else if 0 < diff then comp.sizeBits + 8 * n * diff.toNat
    else comp.sizeBits
  return ⟨{ comp with sizeBits }, 1 + blkSize / n, 1⟩

def compressor (n deltaSizeBits : ℕ) (hdelta : deltaSizeBits < 8 * n) : Compressor n where
  patterns := [PatternM n deltaSizeBits hdelta]
  last := PatternX n deltaSizeBits
  last_kind := rfl
  addToDictionary := Dictionary.append
  base := some (toDictionaryEntry 0)
  finish := finish n

end BaseDelta

/-! ### `ZeroCompressor` -/

namespace ZeroCompressor

inductive PatternNumber
  | X | Z

def PatternX : PatternClass 8 := uncompressedPattern PatternNumber.X.ctorIdx 0 1

def PatternZ : PatternClass 8 :=
  ⟨.maskedValue 0 0xFFFFFFFFFFFFFFFF (by decide), PatternNumber.Z.ctorIdx, 1, 1, false⟩

/-- What `ZeroCompressor::compress` does after the compression. -/
def finish (blkSize : ℕ) (d : Dictionary 8) (comp : CompData 8) : Result (Compressed 8) :=
  let sizeBits := if 0 < d.numEntries then blkSize * 8 else comp.sizeBits
  return ⟨{ comp with sizeBits }, 1, 1⟩

def compressor : Compressor 8 where
  patterns := [PatternZ]
  last := PatternX
  last_kind := rfl
  addToDictionary := Dictionary.append
  base := none
  finish := finish

end ZeroCompressor

/-! ### `RepeatedQwordsCompressor` -/

namespace RepeatedQwordsCompressor

inductive PatternNumber
  | X | M

def PatternX : PatternClass 8 := uncompressedPattern PatternNumber.X.ctorIdx 0 0

def PatternM : PatternClass 8 :=
  ⟨.locatedMasked 0xFFFFFFFFFFFFFFFF 0 (by decide), PatternNumber.M.ctorIdx, 1, 0, true⟩

/-- What `RepeatedQwordsCompressor::compress` does after the compression. -/
def finish (blkSize : ℕ) (d : Dictionary 8) (comp : CompData 8) : Result (Compressed 8) := do
  require (decide (1 ≤ d.numEntries)) (.assertion "numEntries >= 1")
  let sizeBits := if 1 < d.numEntries then blkSize * 8 else comp.sizeBits
  return ⟨{ comp with sizeBits }, 1, 1⟩

def compressor : Compressor 8 where
  patterns := [PatternM]
  last := PatternX
  last_kind := rfl
  addToDictionary := Dictionary.append
  base := none
  finish := finish

end RepeatedQwordsCompressor

/-! ### All compressors -/

inductive Kind
  | CPack | FPCD | Base64Delta8 | Base64Delta16 | Base64Delta32 | Base32Delta8 | Base32Delta16
  | Base16Delta8 | ZeroCompressor | RepeatedQwordsCompressor
deriving DecidableEq

namespace Kind

/-- The size of a value in bytes. -/
def valueSize : Kind → ℕ
  | CPack | FPCD | Base32Delta8 | Base32Delta16 => 4
  | Base64Delta8 | Base64Delta16 | Base64Delta32 | ZeroCompressor | RepeatedQwordsCompressor => 8
  | Base16Delta8 => 2

def compressor : (k : Kind) → Compressor k.valueSize
  | CPack => CPack.compressor
  | FPCD => FPCD.compressor
  | Base64Delta8 => BaseDelta.compressor 8 8 (by decide)
  | Base64Delta16 => BaseDelta.compressor 8 16 (by decide)
  | Base64Delta32 => BaseDelta.compressor 8 32 (by decide)
  | Base32Delta8 => BaseDelta.compressor 4 8 (by decide)
  | Base32Delta16 => BaseDelta.compressor 4 16 (by decide)
  | Base16Delta8 => BaseDelta.compressor 2 8 (by decide)
  | ZeroCompressor => ZeroCompressor.compressor
  | RepeatedQwordsCompressor => RepeatedQwordsCompressor.compressor

end Kind

end ChipletGem5.DictionaryCompressor
