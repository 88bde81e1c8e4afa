import ChipletGem5.Mem.CompressorsLossless

/-!
# The dictionary of a compressed line

What the patterns of a line say about the dictionary.  `getMatchLocation` turns the location -1 of
a pattern that was made without a dictionary entry into 255, and `decompressValue` goes to that
entry as well; `RepeatedQwordsCompressor` tells from the number of entries whether the words of a
line are the same, although its patterns add each word to the dictionary.
-/

namespace ChipletGem5.DictionaryCompressor

open List Compressor

variable {n : ℕ}

namespace Compressor

variable {c : Compressor n} {d d' : Dictionary n} {comp comp' : CompData n} {vs : List (Value n)}

lemma compress_eq_ok {line : List (BitVec 64)} {r : Compressed n} :
    c.compress d line = .ok (r, d') ↔ ∃ d0 comp, c.resetDictionary d = .ok d0 ∧
      c.compressValues d0 ⟨[], 0⟩ (values n line) = .ok (comp, d') ∧
      c.finish (8 * line.length) d' comp = .ok r := by
  constructor
  · intro h
    obtain ⟨d0, hreset, h⟩ := bind_eq_ok.1 h
    obtain ⟨⟨comp, d1⟩, hcomp, h⟩ := bind_eq_ok.1 h
    obtain ⟨r1, hfinish, heq⟩ := bind_eq_ok.1 h
    cases heq
    exact ⟨d0, comp, hreset, hcomp, hfinish⟩
  · rintro ⟨d0, comp, hreset, hcomp, hfinish⟩
    exact bind_eq_ok.2 ⟨d0, hreset, bind_eq_ok.2 ⟨_, hcomp, bind_eq_ok.2 ⟨r, hfinish, rfl⟩⟩⟩

lemma mem_of_compressValues (h : c.compressValues d comp vs = .ok (comp', d')) {p : Pattern n}
    (hp : p ∈ comp.entries) : p ∈ comp'.entries := by
  induction vs generalizing d comp with
  | nil =>
    cases h
    exact hp
  | cons value vs ih =>
    obtain ⟨d1, -, hrest⟩ := compressValues_cons_eq_ok.1 h
    exact ih hrest (mem_append_left _ hp)

/-! ### Match locations -/

/-- The compressor does not change the size of the dictionary. -/
def KeepsSize (c : Compressor n) : Prop :=
  ∀ ⦃d d' : Dictionary n⦄ ⦃data⦄, c.addToDictionary d data = .ok d' →
    d'.entries.length = d.entries.length

/-- A pattern was made without a dictionary entry, or with one of the first `size` ones. -/
def Located (size : ℕ) (p : Pattern n) : Prop :=
  p.matchLocation = -1 ∨ ∃ i : ℕ, i < size ∧ p.matchLocation = i

lemma located_bestPattern (c : Compressor n) (d : Dictionary n) (bytes : DictionaryEntry n) :
    Located d.entries.length (c.bestPattern d bytes) := by
  rcases found_bestPattern c d bytes with ⟨hloc, -⟩ | ⟨i, e, hi, -, hloc, -⟩
  · exact .inl hloc
  · exact .inr ⟨i, hi.trans_le d.le_length, hloc⟩

lemma KeepsSize.located (hc : c.KeepsSize) (h : c.compressValues d comp vs = .ok (comp', d'))
    (hcomp : ∀ p ∈ comp.entries, Located d.entries.length p) :
    d'.entries.length = d.entries.length ∧
      ∀ p ∈ comp'.entries, Located d.entries.length p := by
  induction vs generalizing d comp with
  | nil =>
    cases h
    exact ⟨rfl, hcomp⟩
  | cons value vs ih =>
    obtain ⟨d1, hd1, hrest⟩ := compressValues_cons_eq_ok.1 h
    have hsize : d1.entries.length = d.entries.length := by
      split_ifs at hd1
      · exact hc hd1
      · cases hd1
        rfl
    rw [← hsize]
    refine ih hrest ?_
    intro p hp
    rw [hsize]
    rcases mem_append.1 hp with hp | hp
    · exact hcomp p hp
    · rw [mem_singleton.1 hp]
      exact located_bestPattern ..

lemma KeepsSize.resetDictionary (hc : c.KeepsSize) (h : c.resetDictionary d = .ok d') :
    d'.entries.length = d.entries.length := by
  have hreset : d.reset.entries.length = d.entries.length := length_replicate
  rw [Compressor.resetDictionary] at h
  cases hbase : c.base with
  | none =>
    rw [hbase] at h
    cases h
    exact hreset
  | some entry =>
    rw [hbase] at h
    exact (hc h).trans hreset

lemma Located.match_lt_iff {size : ℕ} {p : Pattern n} (h : Located size p)
    (hsize : size < 256) : p.getMatchLocation < size ↔ p.matchLocation ≠ -1 := by
  rw [Pattern.getMatchLocation]
  rcases h with hloc | ⟨i, hi, hloc⟩
  · omega
  · omega

lemma located_nil_of_base_none (hbase : c.base = none) (hn : 0 < 8 / n) {line : List (BitVec 64)}
    {r : Compressed n} (h : c.compress d line = .ok (r, d'))
    (hfinish : ∀ {b d comp r}, c.finish b d comp = .ok r → r.compData.entries = comp.entries) :
    (∀ p ∈ r.compData.entries, p.matchLocation ≠ -1) ↔ line = [] := by
  obtain ⟨d0, comp, hreset, hcomp, hr⟩ := compress_eq_ok.1 h
  rw [hfinish hr]
  constructor
  · intro hall
    by_contra hline
    obtain ⟨value, vs, hvs⟩ : ∃ value vs, values n line = value :: vs := by
      refine exists_cons_of_ne_nil (ne_nil_of_length_pos ?_)
      rw [length_values]
      exact Nat.mul_pos (length_pos_iff.2 hline) hn
    rw [resetDictionary, hbase] at hreset
    cases hreset
    rw [hvs] at hcomp
    obtain ⟨d1, -, hrest⟩ := compressValues_cons_eq_ok.1 hcomp
    have hfirst := mem_of_compressValues hrest (mem_append_right _ (mem_singleton_self _))
    exact hall _ hfirst (getPattern_spec ..).1
  · rintro rfl
    cases hcomp
    exact fun p hp => absurd hp not_mem_nil

end Compressor

namespace BaseDelta

variable {deltaSizeBits : ℕ} {hdelta : deltaSizeBits < 8 * n} {d d' : Dictionary n}

/-- As long as the dictionary has the zero base only, the pattern of a value depends on whether
the value is a valid delta. -/
lemma bestPattern_zero (hn : n ≤ 8) (hnum : d.numEntries = 1)
    (hbase : d.entries.take 1 = [toDictionaryEntry 0]) (bytes : DictionaryEntry n) :
    (compressor n deltaSizeBits hdelta).bestPattern d bytes =
      if PatternKind.isValidDelta deltaSizeBits bytes (toDictionaryEntry 0) then
        (PatternM n deltaSizeBits hdelta).new bytes 0
      else (PatternX n deltaSizeBits).new bytes (-1) := by
  have hzero : (compressor n deltaSizeBits hdelta).getPattern bytes (toDictionaryEntry 0) 0 =
      if PatternKind.isValidDelta deltaSizeBits bytes (toDictionaryEntry 0) then
        (PatternM n deltaSizeBits hdelta).new bytes 0
      else (PatternX n deltaSizeBits).new bytes 0 := rfl
  have hlog : Nat.clog 2 DEFAULT_MAX_NUM_BASES = 1 := by decide
  rw [bestPattern, hnum, hbase]
  show (if Pattern.getSizeBits (getPattern _ bytes _ 0) < _ then _ else _) = _
  show (if _ then getPattern _ bytes _ 0 else _) = _
  rw [hzero]
  split_ifs with hvalid hlt hlt
  · rfl
  · refine absurd ?_ hlt
    show deltaSizeBits % 256 + Nat.clog 2 DEFAULT_MAX_NUM_BASES % 256 <
      n * 8 % 256 + (Nat.clog 2 DEFAULT_MAX_NUM_BASES + deltaSizeBits) % 256
    omega
  · exact absurd hlt (lt_irrefl _)
  · rfl

lemma location_compressValues (hn : n ≤ 8) (hnum : d.numEntries = 1)
    (hbase : d.entries.take 1 = [toDictionaryEntry 0]) {comp comp' : CompData n}
    {vs : List (Value n)}
    (h : (compressor n deltaSizeBits hdelta).compressValues d comp vs = .ok (comp', d')) :
    (∀ p ∈ comp'.entries, p.matchLocation ≠ -1) ↔ (∀ p ∈ comp.entries, p.matchLocation ≠ -1) ∧
      ∀ v ∈ vs, PatternKind.isValidDelta deltaSizeBits (toDictionaryEntry v)
        (toDictionaryEntry 0) := by
  induction vs generalizing comp with
  | nil =>
    cases h
    simp
  | cons value vs ih =>
    obtain ⟨d1, hd1, hrest⟩ := compressValues_cons_eq_ok.1 h
    rw [bestPattern_zero hn hnum hbase] at hd1 hrest
    by_cases hvalid : PatternKind.isValidDelta deltaSizeBits (toDictionaryEntry value)
        (toDictionaryEntry 0)
    · -- a delta is not added to the dictionary
      rw [if_pos hvalid] at hd1 hrest
      cases hd1
      rw [ih hrest, CompData.addEntry, forall_mem_append, forall_mem_singleton, forall_mem_cons]
      tauto
    · rw [if_neg hvalid] at hrest
      have hmem := mem_of_compressValues hrest
        (mem_append_right _ (mem_singleton_self _))
      constructor
      · exact fun hall => absurd rfl (hall _ hmem)
      · exact fun hall => absurd (hall.2 value mem_cons_self) hvalid

lemma location_compress (hn : n ≤ 8) {line : List (BitVec 64)} {r : Compressed n}
    (h : (compressor n deltaSizeBits hdelta).compress d line = .ok (r, d')) :
    (∀ p ∈ r.compData.entries, p.matchLocation ≠ -1) ↔
      ∀ v ∈ Compressor.values n line, PatternKind.isValidDelta deltaSizeBits (toDictionaryEntry v)
        (toDictionaryEntry 0) := by
  obtain ⟨d0, comp, hreset, hcomp, hr⟩ := compress_eq_ok.1 h
  cases hr
  replace hreset : d.reset.append (toDictionaryEntry 0) = .ok d0 := hreset
  rw [Dictionary.append] at hreset
  split_ifs at hreset with hpos
  cases hreset
  refine (location_compressValues hn rfl ?_ hcomp).trans ?_
  · show (List.set (List.replicate _ _) 0 _).take 1 = _
    cases hlen : d.entries with
    | nil => simp [Dictionary.reset, hlen] at hpos
    | cons e es => rfl
  · simp

end BaseDelta

namespace Kind

/-- The size of the deltas of a `BaseDelta` compressor. -/
def deltaSizeBits : Kind → Option ℕ
  | Base64Delta8 | Base32Delta8 | Base16Delta8 => some 8
  | Base64Delta16 | Base32Delta16 => some 16
  | Base64Delta32 => some 32
  | CPack | FPCD | ZeroCompressor | RepeatedQwordsCompressor => none

/-- All values of a line are small enough for a delta from the zero base. -/
def SmallDeltas (k : Kind) (line : List (BitVec 64)) : Prop :=
  ∃ bits ∈ k.deltaSizeBits, ∀ v ∈ Compressor.values k.valueSize line,
    PatternKind.isValidDelta bits (toDictionaryEntry v) (toDictionaryEntry 0)

variable {k : Kind} {d d' : Dictionary k.valueSize}

lemma not_smallDeltas {line : List (BitVec 64)} (h : k.deltaSizeBits = none) :
    ¬ k.SmallDeltas line := by
  rintro ⟨bits, hbits, -⟩
  rw [h] at hbits
  exact Option.not_mem_none bits hbits

lemma length_append {d d' : Dictionary n} {data : DictionaryEntry n}
    (h : d.append data = .ok d') : d'.entries.length = d.entries.length := by
  rw [Dictionary.append] at h
  split_ifs at h
  cases h
  exact length_set

lemma length_addToDictionary {d d' : Dictionary 4} {data : DictionaryEntry 4}
    (h : FPCD.addToDictionary d data = .ok d') : d'.entries.length = d.entries.length := by
  rw [FPCD.addToDictionary] at h
  split_ifs at h
  · obtain ⟨e, -, heq⟩ := bind_eq_ok.1 h
    cases heq
    exact length_set.trans length_set
  · cases h
    exact length_set

lemma keepsSize (k : Kind) : k.compressor.KeepsSize := by
  intro d d' data h
  cases k with
  | FPCD => exact length_addToDictionary h
  | _ => exact length_append h

lemma entries_finish {blkSize : ℕ} {comp : CompData k.valueSize} {r : Compressed k.valueSize}
    (h : k.compressor.finish blkSize d comp = .ok r) : r.compData.entries = comp.entries := by
  cases k with
  | RepeatedQwordsCompressor =>
    obtain ⟨-, -, heq⟩ := bind_eq_ok.1 h
    cases heq
    rfl
  | _ =>
    cases h
    rfl

lemma location_compress {line : List (BitVec 64)} {r : Compressed k.valueSize}
    (h : k.compressor.compress d line = .ok (r, d')) :
    (∀ p ∈ r.compData.entries, p.matchLocation ≠ -1) ↔ line = [] ∨ k.SmallDeltas line := by
  cases k with
  | CPack | FPCD | ZeroCompressor | RepeatedQwordsCompressor =>
    rw [located_nil_of_base_none rfl (by decide) h entries_finish]
    exact (or_iff_left (not_smallDeltas rfl)).symm
  | _ =>
    refine (BaseDelta.location_compress (by decide) h).trans ⟨fun hall => .inr ⟨_, rfl, hall⟩, ?_⟩
    rintro (rfl | ⟨bits, hbits, hall⟩)
    · exact fun v hv => absurd hv not_mem_nil
    · cases hbits
      exact hall

/-- Decompression stays inside of the dictionary just if this has at least 256 entries, or all
values of the line are deltas from the zero base: otherwise some pattern was made without a
dictionary entry, and has 255 for its location. -/
theorem getMatchLocation_lt_iff {line : List (BitVec 64)} {r : Compressed k.valueSize}
    (h : k.compressor.compress d line = .ok (r, d')) :
    (∀ p ∈ r.compData.entries, p.getMatchLocation < d.entries.length) ↔
      line = [] ∨ 256 ≤ d.entries.length ∨ k.SmallDeltas line := by
  rcases lt_or_ge d.entries.length 256 with hsize | hsize
  · obtain ⟨d0, comp, hreset, hcomp, hr⟩ := compress_eq_ok.1 h
    have hlocated : ∀ p ∈ r.compData.entries, Compressor.Located d.entries.length p := by
      rw [entries_finish hr, ← k.keepsSize.resetDictionary hreset]
      exact (k.keepsSize.located hcomp fun p hp => absurd hp not_mem_nil).2
    have hiff : (∀ p ∈ r.compData.entries, p.getMatchLocation < d.entries.length) ↔
        ∀ p ∈ r.compData.entries, p.matchLocation ≠ -1 :=
      forall₂_congr fun p hp => (hlocated p hp).match_lt_iff hsize
    rw [hiff, location_compress h]
    have hnot : ¬ 256 ≤ d.entries.length := by omega
    rw [or_iff_right hnot]
  · refine ⟨fun _ => .inr (.inl hsize), fun _ p _ => lt_of_lt_of_le ?_ hsize⟩
    rw [Pattern.getMatchLocation]
    omega

lemma exists_dictionary (n size : ℕ) : ∃ d : Dictionary n, d.entries.length = size :=
  ⟨⟨List.replicate size (toDictionaryEntry 0), 0, Nat.zero_le _⟩, length_replicate⟩

/-- A line of zeros, with a dictionary of 256 entries. -/
theorem getMatchLocation_lt_zeros :
    ∃ d r d', d.entries.length = 256 ∧
      Kind.CPack.compressor.compress d (List.replicate 8 0) = .ok (r, d') ∧
      ∀ p ∈ r.compData.entries, p.getMatchLocation < d.entries.length := by
  obtain ⟨d, hd⟩ := exists_dictionary Kind.CPack.valueSize 256
  obtain ⟨r, d', hcomp, -⟩ := exists_compress CPack (List.replicate 8 0) (by decide) nofun d
    (by rw [hd]; decide)
  exact ⟨d, r, d', hd, hcomp, (getMatchLocation_lt_iff hcomp).2 (.inr (.inl hd.ge))⟩

/-- A line of zeros, with a dictionary of the default size. -/
theorem not_getMatchLocation_lt_zeros :
    ∃ d r d', d.entries.length = 64 ∧
      Kind.CPack.compressor.compress d (List.replicate 8 0) = .ok (r, d') ∧
      ¬ ∀ p ∈ r.compData.entries, p.getMatchLocation < d.entries.length := by
  obtain ⟨d, hd⟩ := exists_dictionary Kind.CPack.valueSize 64
  obtain ⟨r, d', hcomp, -⟩ := exists_compress CPack (List.replicate 8 0) (by decide) nofun d
    (by rw [hd]; decide)
  refine ⟨d, r, d', hd, hcomp, fun hall => ?_⟩
  have hloc : ∀ p ∈ r.compData.entries, p.matchLocation ≠ -1 := by
    intro p hp hloc
    have hlt := hall p hp
    rw [Pattern.getMatchLocation] at hlt
    omega
  rcases (location_compress hcomp).1 hloc with hline | hsmall
  · exact absurd hline (by decide)
  · exact not_smallDeltas rfl hsmall

end Kind

/-! ### Repeated words -/

namespace RepeatedQwordsCompressor

variable {line : List (BitVec 64)} {d d' : Dictionary 8} {r : Compressed 8}

/-- All words of a line are the same. -/
def Repeated (line : List (BitVec 64)) : Prop :=
  ∀ x ∈ line, ∀ y ∈ line, x = y

lemma size_of_compress (hline : 2 ≤ line.length) (h : compressor.compress d line = .ok (r, d')) :
    r.compData.sizeBits = 8 * line.length * 8 ∧ line.length ≤ d.entries.length := by
  obtain ⟨d0, comp, hreset, hcomp, hr⟩ := compress_eq_ok.1 h
  cases hreset
  have hlen : (values 8 line).length = line.length * 1 := length_values 8 line
  -- every word has been added to the dictionary
  have hnum : d'.numEntries = 0 + (values 8 line).length :=
    Kind.numEntries_repeatedQwords hcomp
  have hsize : d'.entries.length = d.reset.entries.length :=
    (Kind.RepeatedQwordsCompressor.keepsSize.located hcomp
      fun p hp => absurd hp not_mem_nil).1
  have hreset : d.reset.entries.length = d.entries.length := length_replicate
  obtain ⟨-, -, heq⟩ := bind_eq_ok.1 hr
  cases heq
  constructor
  · exact if_pos (by omega)
  · have hle := d'.le_length
    omega

lemma exists_compress (hline : 2 ≤ line.length) (hd : line.length ≤ d.entries.length) :
    ∃ r d', compressor.compress d line = .ok (r, d') := by
  have hlen : (values 8 line).length = line.length * 1 := length_values 8 line
  have hsupports := supports_of_append (c := compressor) rfl
    (by omega : line.length - 1 < d.entries.length)
  have hreset : d.reset.entries.length = d.entries.length := length_replicate
  obtain ⟨-, comp, d', hcomp, -⟩ := hsupports.compressValues hreset
    (by show 0 + (values 8 line).length ≤ _; omega) ⟨[], 0⟩
  have hnum : d'.numEntries = 0 + (values 8 line).length :=
    Kind.numEntries_repeatedQwords hcomp
  obtain ⟨r, hfinish, -⟩ := Kind.RepeatedQwordsCompressor.finish_ok (8 * line.length) comp
    fun _ => (by omega : 1 ≤ d'.numEntries)
  exact ⟨r, d', compress_eq_ok.2 ⟨d.reset, comp, rfl, hcomp, hfinish⟩⟩

/-- The size that is reported tells whether the words of a line are the same just if they are
not: a line of the same words is not recognised, since each of them has been added to the
dictionary. -/
theorem compress_size_lt_iff_repeated (line : List (BitVec 64)) (hline : 2 ≤ line.length)
    (d : Dictionary 8) :
    (∃ r d', compressor.compress d line = .ok (r, d') ∧
        (r.compData.sizeBits < 8 * line.length * 8 ↔ Repeated line)) ↔
      line.length ≤ d.entries.length ∧ ¬ Repeated line := by
  constructor
  · rintro ⟨r, d', h, hiff⟩
    obtain ⟨hbits, hsize⟩ := size_of_compress hline h
    exact ⟨hsize, fun hrep => (hiff.2 hrep).ne hbits⟩
  · rintro ⟨hsize, hrep⟩
    obtain ⟨r, d', h⟩ := exists_compress hline hsize
    exact ⟨r, d', h, iff_of_false (size_of_compress hline h).1.not_lt hrep⟩

/-- A line of two words that are not the same. -/
theorem compress_size_lt_iff_repeated_two :
    ∃ d r d', compressor.compress d [1, 2] = .ok (r, d') ∧
      (r.compData.sizeBits < 128 ↔ Repeated [1, 2]) := by
  obtain ⟨d, hd⟩ := Kind.exists_dictionary 8 16
  have hrep : ¬ Repeated [1, 2] := fun h => absurd (h 1 (by simp) 2 (by simp)) (by decide)
  exact ⟨d, (compress_size_lt_iff_repeated [1, 2] le_rfl d).2 ⟨by rw [hd]; decide, hrep⟩⟩

/-- Two words that are the same are not compressed. -/
theorem not_compress_size_lt_same :
    ∃ d r d', d.entries.length = 16 ∧ compressor.compress d [7, 7] = .ok (r, d') ∧
      ¬ (r.compData.sizeBits < 128 ↔ Repeated [7, 7]) := by
  obtain ⟨d, hd⟩ := Kind.exists_dictionary 8 16
  obtain ⟨r, d', h⟩ : ∃ r d', compressor.compress d [7, 7] = .ok (r, d') :=
    exists_compress le_rfl (by rw [hd]; decide)
  have hrep : Repeated [7, 7] := by simp [Repeated]
  exact ⟨d, r, d', hd, h, fun hiff => (hiff.2 hrep).ne (size_of_compress le_rfl h).1⟩

end RepeatedQwordsCompressor

end ChipletGem5.DictionaryCompressor
