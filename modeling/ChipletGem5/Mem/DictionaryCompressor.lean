import ChipletGem5.Lib.Chunks
import ChipletGem5.Lib.Result

/-!
# Dictionary compressors

The cache compressors of `mem/cache/compressors` that are made from `DictionaryCompressor`.  Each
value of `n` bytes of a line is compared with the entries of a dictionary and becomes a pattern,
which holds what is needed to get the value back, and may be added to the dictionary.  A
decompressor builds up the same dictionary from the patterns.

The type `T` of the values is given by its size.  The host is little-endian, so that the first
value of a quadword is the one in its lowest bits.  Statistics are left out.
-/

namespace ChipletGem5.DictionaryCompressor

variable {n : ℕ}

/-! ### Values and dictionary entries -/

/-- The type `T` of the values, where `sizeof(T)` is `n`. -/
abbrev Value (n : ℕ) := BitVec (8 * n)

/-- The bytes of a word. -/
abbrev DictionaryEntry (n : ℕ) := Fin n → BitVec 8

/-- `toDictionaryEntry`: entry `i` is taken after `i` shifts by 8 bits. -/
def toDictionaryEntry (value : Value n) : DictionaryEntry n :=
  fun i => (value >>> (8 * i.val)).setWidth 8

/-- `fromDictionaryEntry`, which shifts in the bytes from the last one. -/
def fromDictionaryEntry (entry : DictionaryEntry n) : Value n := shiftIn (8 * n) (List.ofFn entry)

def popCount (v : Value n) : ℕ := (List.range (8 * n)).countP v.getLsbD

/-! ### Patterns -/

/-- The classes of patterns with their template parameters, for which the static assertions
hold. -/
inductive PatternKind (n : ℕ)
  | uncompressed
  | masked (mask : Value n) (hmask : mask ≠ 0)
  | maskedValue (value mask : Value n) (hmask : mask ≠ 0)
  | locatedMasked (mask : Value n) (location : ℤ) (hmask : mask ≠ 0)
  /-- The size of a type divides that of a larger one. -/
  | repeatedValue (rep : ℕ) (hrep : rep ∣ n ∧ rep < n)
  | delta (deltaSizeBits : ℕ) (hdelta : deltaSizeBits < 8 * n)

/-- What a pattern holds of a value. -/
inductive Payload (n : ℕ)
  | uncompressed (data : DictionaryEntry n)
  | masked (mask bits : Value n)
  | maskedValue (value mask bits : Value n)
  | repeatedValue (rep : ℕ) (value : BitVec (8 * rep))
  | delta (bytes : DictionaryEntry n)

/-- A compressed word. -/
structure Pattern (n : ℕ) where
  patternNumber : ℕ
  code : BitVec 8
  /-- A `uint8_t`. -/
  length : ℕ
  /-- A `uint8_t`. -/
  numUnmatchedBits : ℕ
  matchLocation : ℤ
  allocate : Bool
  payload : Payload n

namespace PatternKind

/-- `isPattern` of `MaskedPattern`. -/
def isMasked (mask : Value n) (bytes dictBytes : DictionaryEntry n) (matchLocation : ℤ) : Bool :=
  decide (0 ≤ matchLocation) &&
    (fromDictionaryEntry bytes &&& mask == fromDictionaryEntry dictBytes &&& mask)

/-- The loop of `isPattern` of `RepeatedValuePattern`. -/
def repeats (rep : ℕ) (repValue : BitVec (8 * rep)) : ℕ → Value n → Bool
  | 0, _ => true
  | i + 1, value => value.setWidth (8 * rep) == repValue && repeats rep repValue i
      (value >>> (8 * rep))

def isValidDelta (deltaSizeBits : ℕ) (bytes baseBytes : DictionaryEntry n) : Bool :=
  let limit : ℤ := if deltaSizeBits = 0 then 0 else 2 ^ (deltaSizeBits - 1) - 1
  let delta := (fromDictionaryEntry bytes - fromDictionaryEntry baseBytes).toInt
  decide (-limit ≤ delta) && decide (delta ≤ limit)

/-- `isPattern` of each class. -/
def isPattern : PatternKind n → DictionaryEntry n → DictionaryEntry n → ℤ → Bool
  | uncompressed, _, _, _ => true
  | masked mask _, bytes, dictBytes, matchLocation => isMasked mask bytes dictBytes matchLocation
  | maskedValue value mask _, bytes, _, _ => value &&& mask == fromDictionaryEntry bytes &&& mask
  | locatedMasked mask location _, bytes, dictBytes, matchLocation =>
      matchLocation == location && isMasked mask bytes dictBytes matchLocation
  | repeatedValue rep _, bytes, _, _ =>
      repeats rep ((fromDictionaryEntry bytes).setWidth (8 * rep)) (n / rep)
        (fromDictionaryEntry bytes)
  | delta deltaSizeBits _, bytes, dictBytes, matchLocation =>
      decide (0 ≤ matchLocation) && isValidDelta deltaSizeBits bytes dictBytes

/-- The number of unmatched bits that the constructor of each class gives. -/
def numUnmatchedBits : PatternKind n → ℕ
  | uncompressed => n * 8
  | masked mask _ => popCount (~~~mask)
  | maskedValue _ mask _ => popCount (~~~mask)
  | locatedMasked mask _ _ => popCount (~~~mask)
  | repeatedValue rep _ => 8 * rep
  | delta deltaSizeBits _ => deltaSizeBits

/-- What the constructor of each class keeps of the value. -/
def payload : PatternKind n → DictionaryEntry n → Payload n
  | uncompressed, bytes => .uncompressed bytes
  | masked mask _, bytes => .masked mask (fromDictionaryEntry bytes &&& ~~~mask)
  | maskedValue value mask _, bytes =>
      .maskedValue value mask (fromDictionaryEntry bytes &&& ~~~mask)
  | locatedMasked mask _ _, bytes => .masked mask (fromDictionaryEntry bytes &&& ~~~mask)
  | repeatedValue rep _, bytes =>
      .repeatedValue rep ((fromDictionaryEntry bytes).setWidth (8 * rep))
  | delta _ _, bytes => .delta bytes

end PatternKind

namespace Payload

/-- The loop of `decompress` of `RepeatedValuePattern`. -/
def repeatValue (n : ℕ) {rep : ℕ} (value : BitVec (8 * rep)) : ℕ → Value n
  | 0 => 0
  | i + 1 => (repeatValue n value i <<< (8 * rep)) ||| value.setWidth (8 * n)

/-- `decompress` of each class. -/
def decompress : Payload n → DictionaryEntry n → DictionaryEntry n
  | uncompressed data, _ => data
  | masked mask bits, dictBytes =>
      toDictionaryEntry (bits ||| (fromDictionaryEntry dictBytes &&& mask))
  | maskedValue value mask bits, _ =>
      toDictionaryEntry (bits ||| (fromDictionaryEntry (toDictionaryEntry value) &&& mask))
  | repeatedValue rep value, _ => toDictionaryEntry (repeatValue n value (n / rep))
  | delta bytes, _ => bytes

end Payload

/-- `getMatchLocation`, which returns a `uint8_t`. -/
def Pattern.getMatchLocation (p : Pattern n) : ℕ := (p.matchLocation % 256).toNat

def Pattern.getSizeBits (p : Pattern n) : ℕ := p.numUnmatchedBits + p.length

/-- A class of patterns of a compressor: what it is derived from, and the arguments for the
constructor. -/
structure PatternClass (n : ℕ) where
  kind : PatternKind n
  number : ℕ
  code : BitVec 8
  metadataLength : ℕ
  allocate : Bool

def PatternClass.new (c : PatternClass n) (bytes : DictionaryEntry n) (matchLocation : ℤ) :
    Pattern n :=
  ⟨c.number, c.code, c.metadataLength % 256, c.kind.numUnmatchedBits % 256, matchLocation,
    c.allocate, c.kind.payload bytes⟩

/-- Classes derived from `UncompressedPattern`, which always allocate. -/
def uncompressedPattern (number : ℕ) (code : BitVec 8) (metadataLength : ℕ) : PatternClass n :=
  ⟨.uncompressed, number, code, metadataLength, true⟩

/-- Classes derived from `DeltaPattern`, which never allocate. -/
def deltaPattern (deltaSizeBits : ℕ) (hdelta : deltaSizeBits < 8 * n) (number : ℕ)
    (code : BitVec 8) (metadataLength : ℕ) : PatternClass n :=
  ⟨.delta deltaSizeBits hdelta, number, code, metadataLength, false⟩

/-- `Factory::getPattern`. -/
def factory (last : PatternClass n) (bytes dictBytes : DictionaryEntry n) (matchLocation : ℤ) :
    List (PatternClass n) → Pattern n
  | [] => last.new bytes matchLocation
  | head :: tail =>
      if head.kind.isPattern bytes dictBytes matchLocation then head.new bytes matchLocation
      else factory last bytes dictBytes matchLocation tail

/-! ### Compressors -/

/-- A dictionary with its valid entries. -/
structure Dictionary (n : ℕ) where
  entries : List (DictionaryEntry n)
  numEntries : ℕ
  le_length : numEntries ≤ entries.length

/-- A compressed line. -/
structure CompData (n : ℕ) where
  entries : List (Pattern n)
  sizeBits : ℕ

def CompData.addEntry (comp : CompData n) (p : Pattern n) : CompData n :=
  ⟨comp.entries ++ [p], comp.sizeBits + p.getSizeBits⟩

/-- What `compress` of a compressor returns. -/
structure Compressed (n : ℕ) where
  compData : CompData n
  compLat : ℕ
  decompLat : ℕ

/-- What a compressor defines on its own. -/
structure Compressor (n : ℕ) where
  /-- The classes of the factory, but for the last one. -/
  patterns : List (PatternClass n)
  /-- The last class of the factory. -/
  last : PatternClass n
  last_kind : last.kind = .uncompressed
  addToDictionary : Dictionary n → DictionaryEntry n → Result (Dictionary n)
  /-- What `resetDictionary` adds to the dictionary. -/
  base : Option (DictionaryEntry n)
  /-- What `compress` does with the compressed line, for a block size and a dictionary. -/
  finish : ℕ → Dictionary n → CompData n → Result (Compressed n)

def Dictionary.reset (d : Dictionary n) : Dictionary n :=
  ⟨List.replicate d.entries.length (toDictionaryEntry 0), 0, Nat.zero_le _⟩

namespace Compressor

variable (c : Compressor n)

variable (d : Dictionary n)

def resetDictionary : Result (Dictionary n) :=
  match c.base with
  | none => return d.reset
  | some entry => c.addToDictionary d.reset entry

def getPattern (bytes dictBytes : DictionaryEntry n) (matchLocation : ℤ) : Pattern n :=
  factory c.last bytes dictBytes matchLocation c.patterns

/-- The search of `compressValue` for the best pattern. -/
def bestPattern (bytes : DictionaryEntry n) : Pattern n :=
  (d.entries.take d.numEntries).zipIdx.foldl
    (fun pattern x =>
      let temp := c.getPattern bytes x.1 x.2
      if temp.getSizeBits < pattern.getSizeBits then temp else pattern)
    (c.getPattern bytes (toDictionaryEntry 0) (-1))

def compressValue (data : Value n) : Result (Pattern n × Dictionary n) := do
  let bytes := toDictionaryEntry data
  let pattern := c.bestPattern d bytes
  let d' ← (if pattern.allocate then c.addToDictionary d bytes else pure d)
  return (pattern, d')

/-- The loop of `compress`. -/
def compressValues (d : Dictionary n) (comp : CompData n) :
    List (Value n) → Result (CompData n × Dictionary n)
  | [] => return (comp, d)
  | value :: values => do
      let r ← c.compressValue d value
      compressValues r.2 (comp.addEntry r.1) values

/-- The values of a cache line. -/
def values (n : ℕ) (line : List (BitVec 64)) : List (Value n) :=
  line.flatMap fun data => (List.range (8 / n)).map fun j => data.extractLsb' (8 * n * j) (8 * n)

def compress (line : List (BitVec 64)) : Result (Compressed n × Dictionary n) := do
  let d' ← c.resetDictionary d
  let r ← c.compressValues d' ⟨[], 0⟩ (values n line)
  let result ← c.finish (8 * line.length) r.2 r.1
  return (result, r.2)

/-- `decompressValue`.  What is read outside of the dictionary is `outside`. -/
def decompressValue (outside : DictionaryEntry n) (d : Dictionary n) (p : Pattern n) :
    Result (Value n × Dictionary n) := do
  let data := p.payload.decompress (d.entries.getD p.getMatchLocation outside)
  let d' ← (if p.allocate then c.addToDictionary d data else pure d)
  return (fromDictionaryEntry data, d')

/-- The loop of `decompress` over the patterns, which returns the values. -/
def decompressValues (outside : ℕ → DictionaryEntry n) (d : Dictionary n)
    (values : List (Value n)) : List (Pattern n) → Result (List (Value n))
  | [] => return values
  | p :: ps => do
      let r ← c.decompressValue (outside values.length) d p
      decompressValues outside r.2 (values ++ [r.1]) ps

/-- The loop of `decompress` over the values of a quadword, from the last one. -/
def concatEntry (values : List (Value n)) (i : ℕ) : ℕ → BitVec 64 → Result (BitVec 64)
  | 0, data => return data
  | j + 1, data => do
      let value ← getOrError values[8 / n * i + j]?
        (.undefined "decomp_values[values_per_entry*i+j]")
      concatEntry values i j (data ||| (value.setWidth 64 <<< (j * 8 * n)))

/-- The loop of `decompress` over the quadwords. -/
def concatEntries (values : List (Value n)) : List ℕ → Result (List (BitVec 64))
  | [] => return []
  | i :: is => do
      let data ← concatEntry values i (8 / n) 0
      let rest ← concatEntries values is
      return data :: rest

/-- `decompress`.  What is read outside of the dictionary for pattern `i` is `outside i`. -/
def decompress (outside : ℕ → DictionaryEntry n) (blkSize : ℕ) (d : Dictionary n)
    (comp : CompData n) : Result (List (BitVec 64)) := do
  let d' ← c.resetDictionary d
  let values ← c.decompressValues outside d' [] comp.entries
  concatEntries values (List.range (blkSize / 8))

/-- `BaseCacheCompressor::compress` with `DEBUG_COMPRESSION`, which returns the size. -/
def checkedCompress (outside : ℕ → DictionaryEntry n) (sizeThreshold : ℕ) (d : Dictionary n)
    (line : List (BitVec 64)) : Result ℕ := do
  let r ← c.compress d line
  let decompData ← c.decompress outside (8 * line.length) r.2 r.1.compData
  require (line == decompData) (.fatal "Decompressed line does not match original line.")
  if r.1.compData.sizeBits ≥ sizeThreshold * 8 then return 8 * line.length * 8
  else return r.1.compData.sizeBits

end Compressor

/-- `addToDictionary` of all compressors except `FPCD`. -/
def Dictionary.append (d : Dictionary n) (data : DictionaryEntry n) : Result (Dictionary n) :=
  if h : d.numEntries < d.entries.length then
    return ⟨d.entries.set d.numEntries data, d.numEntries + 1, by rw [List.length_set]; exact h⟩
  else throw (.assertion "numEntries < dictionarySize")

end ChipletGem5.DictionaryCompressor
