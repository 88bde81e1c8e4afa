import ChipletGem5.Mem.Compressors

/-!
# Compression is lossless

A pattern that matches a value gives the value back from the dictionary entry that it was
matched with, and from any entry if it was made without one.  So compressor and decompressor
have the same dictionary before each value, and the decompressed values are those of the line.
-/

namespace ChipletGem5.DictionaryCompressor

open List Nat Compressor

variable {n : ℕ}

/-! ### Values and dictionary entries -/

lemma toDictionaryEntry_eq (value : Value n) (i : Fin n) :
    toDictionaryEntry value i = value.extractLsb' (8 * i.val) 8 := by
  refine BitVec.eq_of_getLsbD_eq ?_
  intro b hb
  simp [toDictionaryEntry, hb]

lemma extractLsb'_fromDictionaryEntry (entry : DictionaryEntry n) (i : Fin n) :
    (fromDictionaryEntry entry).extractLsb' (8 * i.val) 8 = entry i := by
  refine extractLsb'_shiftIn (by simp) ?_
  simp

@[simp]
lemma toDictionaryEntry_fromDictionaryEntry (entry : DictionaryEntry n) :
    toDictionaryEntry (fromDictionaryEntry entry) = entry := by
  ext1 i
  rw [toDictionaryEntry_eq, extractLsb'_fromDictionaryEntry]

@[simp]
lemma fromDictionaryEntry_toDictionaryEntry (value : Value n) :
    fromDictionaryEntry (toDictionaryEntry value) = value := by
  refine eq_of_chunks_eq (m := 8) (k := n) (by omega) le_rfl ?_
  intro i hi
  rw [extractLsb'_fromDictionaryEntry _ ⟨i, hi⟩, toDictionaryEntry_eq]

/-! ### Patterns -/

lemma and_not_or_and (v mask : Value n) : v &&& ~~~mask ||| v &&& mask = v := by
  refine BitVec.eq_of_getLsbD_eq ?_
  intro b hb
  rw [BitVec.getLsbD_or, BitVec.getLsbD_and, BitVec.getLsbD_and, BitVec.getLsbD_not]
  cases v.getLsbD b <;> cases mask.getLsbD b <;> simp [hb]

section Repeated

variable {rep : ℕ} {value : BitVec (8 * rep)}

lemma repeatValue_eq (value : BitVec (8 * rep)) (i : ℕ) :
    Payload.repeatValue n value i = shiftIn (8 * n) (List.replicate i value) := by
  induction i with
  | zero => rfl
  | succ i ih => rw [Payload.repeatValue, ih, replicate_succ, shiftIn_cons]

variable {i j : ℕ}

lemma extractLsb'_of_repeats {v : Value n} (h : PatternKind.repeats rep value i v)
    (hj : j < i) : v.extractLsb' (8 * rep * j) (8 * rep) = value := by
  induction i generalizing v j with
  | zero => omega
  | succ i ih =>
    rw [PatternKind.repeats, Bool.and_eq_true, beq_iff_eq] at h
    obtain ⟨hfirst, hrest⟩ := h
    refine BitVec.eq_of_getLsbD_eq ?_
    intro b hb
    cases j with
    | zero =>
      rw [← hfirst]
      simp [hb]
    | succ j =>
      have hbit := congrArg (·.getLsbD b) (ih hrest (lt_of_succ_lt_succ hj))
      simp only [BitVec.getLsbD_extractLsb', hb, decide_true, Bool.true_and,
        BitVec.getLsbD_ushiftRight] at hbit ⊢
      rw [← hbit, mul_succ, add_comm (8 * rep * j), add_assoc]

lemma repeatValue_of_repeats {v : Value n} (hrep : rep ∣ n ∧ rep < n)
    (h : PatternKind.repeats rep value (n / rep) v) :
    Payload.repeatValue n value (n / rep) = v := by
  obtain ⟨k, rfl⟩ := hrep.1
  have hpos : 0 < rep := Nat.pos_of_ne_zero fun hzero => by
    have hlt := hrep.2
    rw [hzero] at hlt
    omega
  rw [Nat.mul_div_cancel_left k hpos] at h ⊢
  have hwidth : 8 * (rep * k) = 8 * rep * k := (mul_assoc 8 rep k).symm
  refine eq_of_chunks_eq (m := 8 * rep) (k := k) (by omega) hwidth.le ?_
  intro i hi
  rw [extractLsb'_of_repeats h hi, repeatValue_eq]
  refine extractLsb'_shiftIn ?_ ?_
  · rw [length_replicate]
    exact hwidth.ge
  · rw [getElem?_replicate, if_pos hi]

end Repeated

/-- A pattern gives back the value that it matches.  The dictionary entry does not matter if the
match location is negative. -/
lemma PatternKind.decompress_payload (kind : PatternKind n) {bytes dictBytes d : DictionaryEntry n}
    {matchLocation : ℤ} (h : kind.isPattern bytes dictBytes matchLocation)
    (hd : 0 ≤ matchLocation → d = dictBytes) : (kind.payload bytes).decompress d = bytes := by
  have hmasked : ∀ {mask}, isMasked mask bytes dictBytes matchLocation →
      (Payload.masked mask (fromDictionaryEntry bytes &&& ~~~mask)).decompress d = bytes := by
    intro mask hmatch
    rw [isMasked, Bool.and_eq_true, decide_eq_true_eq, beq_iff_eq] at hmatch
    rw [Payload.decompress, hd hmatch.1, ← hmatch.2, and_not_or_and,
      toDictionaryEntry_fromDictionaryEntry]
  cases kind with
  | masked mask hmask => exact hmasked h
  | maskedValue value mask hmask =>
    rw [isPattern, beq_iff_eq] at h
    rw [payload, Payload.decompress, fromDictionaryEntry_toDictionaryEntry, h, and_not_or_and,
      toDictionaryEntry_fromDictionaryEntry]
  | locatedMasked mask location hmask =>
    rw [isPattern, Bool.and_eq_true] at h
    exact hmasked h.2
  | repeatedValue rep hrep =>
    rw [payload, Payload.decompress, repeatValue_of_repeats hrep h,
      toDictionaryEntry_fromDictionaryEntry]
  | uncompressed | delta _ _ => rfl

namespace Compressor

variable {c : Compressor n} {d d' : Dictionary n}

/-- Which patterns the search for the best one can find: those that were made without a
dictionary entry, and those that were made with a valid one. -/
def Found (d : Dictionary n) (bytes : DictionaryEntry n) (p : Pattern n) : Prop :=
  (p.matchLocation = -1 ∧ ∀ e, p.payload.decompress e = bytes) ∨
    ∃ i e, i < d.numEntries ∧ d.entries[i]? = some e ∧ p.matchLocation = (i : ℤ) ∧
      p.payload.decompress e = bytes

lemma getPattern_spec (c : Compressor n) (bytes dictBytes : DictionaryEntry n)
    (matchLocation : ℤ) :
    (c.getPattern bytes dictBytes matchLocation).matchLocation = matchLocation ∧
      ∀ e, (0 ≤ matchLocation → e = dictBytes) →
        (c.getPattern bytes dictBytes matchLocation).payload.decompress e = bytes := by
  rw [getPattern]
  induction c.patterns with
  | nil =>
    exact ⟨rfl, fun e he => PatternKind.decompress_payload _ (by rw [c.last_kind]; rfl) he⟩
  | cons head tail ih =>
    rw [factory]
    split_ifs with hmatch
    · exact ⟨rfl, fun e he => PatternKind.decompress_payload _ hmatch he⟩
    · exact ih

lemma found_bestPattern (c : Compressor n) (d : Dictionary n) (bytes : DictionaryEntry n) :
    Found d bytes (c.bestPattern d bytes) := by
  refine foldlRecOn _ _ ?_ ?_
  · have hspec := c.getPattern_spec bytes (toDictionaryEntry 0) (-1)
    exact .inl ⟨hspec.1, fun e => hspec.2 e (by omega)⟩
  · intro p hp x hx
    show Found d bytes (if _ then _ else _)
    split_ifs
    · -- the search sees valid entries only
      have hget := mem_zipIdx_iff_getElem?.1 hx
      have hlt := (List.getElem?_eq_some_iff.1 hget).1
      rw [length_take] at hlt
      rw [getElem?_take_of_lt (by omega)] at hget
      have hspec := c.getPattern_spec bytes x.1 x.2
      exact .inr ⟨x.2, x.1, by omega, hget, hspec.1, hspec.2 _ fun _ => rfl⟩
    · exact hp

lemma decompress_bestPattern (c : Compressor n) (hnum : d.numEntries ≤ 256)
    (bytes outside : DictionaryEntry n) :
    (c.bestPattern d bytes).payload.decompress
      (d.entries.getD (c.bestPattern d bytes).getMatchLocation outside) = bytes := by
  rcases found_bestPattern c d bytes with ⟨-, hany⟩ | ⟨i, e, hi, he, hloc, hgives⟩
  · exact hany _
  · have hmatch : (c.bestPattern d bytes).getMatchLocation = i := by
      rw [Pattern.getMatchLocation]
      omega
    rwa [hmatch, getD_eq_getElem?_getD, he]

lemma decompressValue_of_compressValue {data : Value n} {p : Pattern n}
    (hnum : d.numEntries ≤ 256) (h : c.compressValue d data = .ok (p, d'))
    (outside : DictionaryEntry n) : c.decompressValue outside d p = .ok (data, d') := by
  obtain ⟨d1, hadd, heq⟩ := bind_eq_ok.1 h
  obtain ⟨rfl, rfl⟩ := Prod.mk.injEq .. ▸ Except.ok.inj heq
  rw [decompressValue, decompress_bestPattern c hnum]
  simp only [hadd]
  exact congrArg (fun v => Except.ok (v, d1)) (fromDictionaryEntry_toDictionaryEntry data)

/-! ### The dictionary of a line -/

/-- A dictionary of the given size has room for `m` values, where the dictionaries that the
compressor makes are `good` ones. -/
structure Supports (c : Compressor n) (good : Dictionary n → Prop) (size m : ℕ) : Prop where
  length_of_good : ∀ d, good d → d.entries.length = size
  reset : ∃ d₀ : Dictionary n, good d₀ ∧ d₀.numEntries ≤ 1 ∧
    ∀ d : Dictionary n, d.entries.length = size → c.resetDictionary d = .ok d₀
  add : ∀ (d : Dictionary n) (data : DictionaryEntry n), good d → d.numEntries ≤ m →
    ∃ d', c.addToDictionary d data = .ok d' ∧ good d' ∧ d'.numEntries ≤ d.numEntries + 1

variable {good : Dictionary n → Prop} {size m : ℕ}

lemma Supports.compressValue (hc : c.Supports good size m) (hgood : good d)
    (hnum : d.numEntries ≤ m) (data : Value n) :
    ∃ p d', c.compressValue d data = .ok (p, d') ∧ good d' ∧
      d'.numEntries ≤ d.numEntries + 1 := by
  rw [Compressor.compressValue]
  by_cases halloc : (c.bestPattern d (toDictionaryEntry data)).allocate
  · obtain ⟨d', hadd, hgood', hnum'⟩ := hc.add d (toDictionaryEntry data) hgood hnum
    refine ⟨c.bestPattern d (toDictionaryEntry data), d', ?_, hgood', hnum'⟩
    simp only [halloc, if_true, hadd]
    rfl
  · refine ⟨c.bestPattern d (toDictionaryEntry data), d, ?_, hgood, le_succ _⟩
    simp only [halloc]
    rfl

lemma Supports.compressValues (hc : c.Supports good size m) (hgood : good d)
    {values : List (Value n)} (hnum : d.numEntries + values.length ≤ m + 1) (comp : CompData n) :
    ∃ ps comp' d', c.compressValues d comp values = .ok (comp', d') ∧ good d' ∧
      comp'.entries = comp.entries ++ ps ∧
      (m ≤ 256 → ∀ (outside : ℕ → DictionaryEntry n) done,
        c.decompressValues outside d done ps = .ok (done ++ values)) := by
  induction values generalizing d comp with
  | nil =>
    refine ⟨[], comp, d, rfl, hgood, (append_nil _).symm, ?_⟩
    intro _ outside done
    rw [decompressValues, append_nil]
    rfl
  | cons value values ih =>
    rw [length_cons] at hnum
    obtain ⟨p, d1, hp, hgood1, hnum1⟩ := hc.compressValue hgood (by omega) value
    obtain ⟨ps, comp', d', hcomp, hgood', hentries, hdecomp⟩ :=
      ih hgood1 (by omega) (comp.addEntry p)
    refine ⟨p :: ps, comp', d', ?_, hgood', ?_, ?_⟩
    · rwa [compressValues, hp]
    · rw [hentries, CompData.addEntry, append_assoc]
      rfl
    · intro hm outside done
      have hvalue := decompressValue_of_compressValue (by omega) hp (outside done.length)
      rw [decompressValues, hvalue]
      refine (hdecomp hm outside (done ++ [value])).trans ?_
      rw [append_assoc]
      rfl

lemma compressValues_cons_eq_ok {comp comp' : CompData n} {value : Value n}
    {values : List (Value n)} :
    c.compressValues d comp (value :: values) = .ok (comp', d') ↔
      ∃ d1, (if (c.bestPattern d (toDictionaryEntry value)).allocate then
          c.addToDictionary d (toDictionaryEntry value) else pure d) = .ok d1 ∧
        c.compressValues d1 (comp.addEntry (c.bestPattern d (toDictionaryEntry value))) values =
          .ok (comp', d') := by
  constructor
  · intro h
    obtain ⟨⟨p, d1⟩, hp, hrest⟩ := bind_eq_ok.1 h
    obtain ⟨d2, hd2, heq⟩ := bind_eq_ok.1 hp
    cases heq
    exact ⟨d1, hd2, hrest⟩
  · rintro ⟨d1, hd1, hrest⟩
    exact bind_eq_ok.2 ⟨_, bind_eq_ok.2 ⟨d1, hd1, rfl⟩, hrest⟩

lemma le_numEntries_of_compressValues
    (halloc : ∀ bytes dictBytes loc, (c.getPattern bytes dictBytes loc).allocate)
    (hadd : ∀ {d d' : Dictionary n} {data}, c.addToDictionary d data = .ok d' →
      d'.numEntries = d.numEntries + 1) {comp comp' : CompData n} {values : List (Value n)}
    (h : c.compressValues d comp values = .ok (comp', d')) :
    d'.numEntries = d.numEntries + values.length := by
  induction values generalizing d comp with
  | nil =>
    cases h
    rfl
  | cons value values ih =>
    obtain ⟨d2, hd2, hrest⟩ := compressValues_cons_eq_ok.1 h
    have hbest : (c.bestPattern d (toDictionaryEntry value)).allocate := by
      refine foldlRecOn (motive := (Pattern.allocate ·)) _ _ (halloc ..) ?_
      intro p hp x hx
      show Pattern.allocate (if _ then _ else _)
      split_ifs
      · exact halloc ..
      · exact hp
    rw [if_pos hbest] at hd2
    rw [ih hrest, hadd hd2, length_cons, add_right_comm, add_assoc]

/-! ### Lines -/

lemma length_values (n : ℕ) (line : List (BitVec 64)) :
    (values n line).length = line.length * (8 / n) := by
  induction line with
  | nil => simp [values]
  | cons data line ih =>
    rw [values, flatMap_cons, length_append, length_map, length_range]
    rw [values] at ih
    rw [ih, length_cons, succ_mul, add_comm]

lemma getElem?_values {qwords : List (BitVec 64)} {data : BitVec 64}
    (hdata : qwords[i]? = some data) (hj : j < 8 / n) :
    (values n qwords)[8 / n * i + j]? = some (data.extractLsb' (8 * n * j) (8 * n)) := by
  induction qwords generalizing i with
  | nil => simp at hdata
  | cons data' qwords ih =>
    rw [values, flatMap_cons]
    cases i with
    | zero =>
      obtain rfl : data' = data := by simpa using hdata
      rw [getElem?_append_left (by simpa using hj)]
      simp [hj]
    | succ i =>
      have hidx : 8 / n * (i + 1) + j = 8 / n + (8 / n * i + j) := by ring
      rw [getElem?_append_right (by simp [hidx]), hidx]
      simpa [values] using ih hdata

lemma concatEntry_eq {vs : List (Value n)} {data acc : BitVec 64} (hn : n ∣ 8)
    (hvs : ∀ j < 8 / n, vs[8 / n * i + j]? = some (data.extractLsb' (8 * n * j) (8 * n)))
    (hj : j ≤ 8 / n) (hacc : ∀ b, acc.getLsbD b = (decide (8 * n * j ≤ b) && data.getLsbD b)) :
    concatEntry vs i j acc = .ok data := by
  induction j generalizing acc with
  | zero =>
    refine congrArg Except.ok (BitVec.eq_of_getLsbD_eq ?_)
    intro b _
    simp [hacc]
  | succ j ih =>
    rw [concatEntry, hvs j (by omega)]
    refine ih (by omega) ?_
    intro b
    have hmul : 8 * n * (8 / n) = 64 := by
      rw [Nat.mul_assoc, Nat.mul_div_cancel' hn]
    have hle : 8 * n * (j + 1) ≤ 64 := hmul ▸ mul_le_mul_left _ hj
    have hsucc : 8 * n * (j + 1) = 8 * n * j + 8 * n := mul_succ _ _
    have hcomm : j * 8 * n = 8 * n * j := by ring
    rw [BitVec.getLsbD_or, hacc, BitVec.getLsbD_shiftLeft, hcomm]
    -- the bit is above the chunk, in it or below it
    rcases lt_or_ge b (8 * n * j) with hlow | hlow
    · have h1 : ¬ 8 * n * (j + 1) ≤ b := by omega
      have h2 : ¬ 8 * n * j ≤ b := by omega
      simp [h1, h2, hlow]
    · have hadd : 8 * n * j + (b - 8 * n * j) = b := by omega
      rcases lt_or_ge b (8 * n * (j + 1)) with hin | hhigh
      · have h1 : ¬ 8 * n * (j + 1) ≤ b := by omega
        have h2 : b - 8 * n * j < 8 * n := by omega
        have h3 : b < 64 := by omega
        have h4 : b - 8 * n * j < 64 := by omega
        simp [h1, h2, h3, h4, hlow, hadd]
      · have h2 : ¬ b - 8 * n * j < 8 * n := by omega
        simp [hhigh, h2, hlow]

lemma concatEntries_values (hn : n ∣ 8) (qwords : List (BitVec 64)) {p m : ℕ}
    (h : p + m = qwords.length) :
    concatEntries (values n qwords) (List.range' p m) = .ok (qwords.drop p) := by
  induction m generalizing p with
  | zero =>
    rw [drop_eq_nil_of_le (by omega)]
    rfl
  | succ m ih =>
    have hp : p < qwords.length := by omega
    have hentry : concatEntry (values n qwords) p (8 / n) 0 = .ok qwords[p] := by
      refine concatEntry_eq hn (fun j hj => ?_) le_rfl ?_
      · exact getElem?_values (getElem?_eq_getElem hp) hj
      · intro b
        have hmul : 8 * n * (8 / n) = 64 := by
          rw [Nat.mul_assoc, Nat.mul_div_cancel' hn]
        rw [hmul]
        by_cases hb : 64 ≤ b
        · simp [BitVec.getLsbD_of_ge qwords[p] b hb]
        · simp [hb]
    rw [range'_succ, concatEntries, hentry, drop_eq_getElem_cons hp]
    simp only [ok_bind, ih (p := p + 1) (by omega)]
    rfl

lemma Supports.lossless (hn : n ∣ 8) {line : List (BitVec 64)}
    (hc : c.Supports good size (line.length * (8 / n))) (hvalues : line.length * (8 / n) ≤ 255)
    (hd : d.entries.length = size) :
    ∃ d0 comp d', c.resetDictionary d = .ok d0 ∧
      c.compressValues d0 ⟨[], 0⟩ (values n line) = .ok (comp, d') ∧
      d'.entries.length = size ∧
      ∀ (comp' : CompData n) (outside : ℕ → DictionaryEntry n) (d2 : Dictionary n),
        comp'.entries = comp.entries → d2.entries.length = size →
        c.decompress outside (8 * line.length) d2 comp' = .ok line := by
  obtain ⟨d0, hgood, hnum, hreset⟩ := hc.reset
  have hroom : d0.numEntries + (values n line).length ≤ line.length * (8 / n) + 1 := by
    rw [length_values]
    omega
  obtain ⟨ps, comp, d', hcomp, hgood', hentries, hdecomp⟩ := hc.compressValues hgood hroom ⟨[], 0⟩
  refine ⟨d0, comp, d', hreset d hd, hcomp, hc.length_of_good d' hgood', ?_⟩
  intro comp' outside d2 hcomp' hd2
  have hblocks : 8 * line.length / 8 = line.length := Nat.mul_div_cancel_left _ (by omega)
  have hps : comp'.entries = ps := hcomp'.trans hentries
  rw [decompress, hreset d2 hd2, hps, hblocks]
  show (c.decompressValues outside d0 [] ps >>= _) = _
  rw [hdecomp (by omega) outside []]
  show concatEntries (values n line) (range line.length) = _
  rw [range_eq_range', concatEntries_values hn line (zero_add _), drop_zero]

lemma supports_of_append (hadd : c.addToDictionary = Dictionary.append) (hsize : m < size) :
    c.Supports (fun d => d.entries.length = size) size m := by
  have happend : ∀ (d : Dictionary n) (data : DictionaryEntry n), d.entries.length = size →
      d.numEntries ≤ m → ∃ d', c.addToDictionary d data = .ok d' ∧ d'.entries.length = size ∧
        d'.numEntries = d.numEntries + 1 := by
    intro d data hd hnum
    refine ⟨⟨d.entries.set d.numEntries data, d.numEntries + 1, ?_⟩, ?_, ?_, rfl⟩
    · rw [length_set]
      omega
    · rw [hadd, Dictionary.append, dif_pos (by omega)]
      rfl
    · rw [length_set, hd]
  refine ⟨fun d hd => hd, ?_, ?_⟩
  · set z : Dictionary n := ⟨replicate size (toDictionaryEntry 0), 0, zero_le _⟩
    have hz : z.entries.length = size := length_replicate
    have hreset : ∀ d : Dictionary n, d.entries.length = size → d.reset = z := by
      rintro d rfl
      rfl
    cases hbase : c.base with
    | none =>
      refine ⟨z, hz, zero_le _, ?_⟩
      intro d hd
      rw [resetDictionary, hbase, hreset d hd]
      rfl
    | some entry =>
      obtain ⟨d0, hok, hd0, hnum⟩ := happend z entry hz (zero_le _)
      refine ⟨d0, hd0, hnum.le, ?_⟩
      intro d hd
      rwa [resetDictionary, hbase, hreset d hd]
  · intro d data hd hnum
    obtain ⟨d', hok, hd', hnum'⟩ := happend d data hd hnum
    exact ⟨d', hok, hd', hnum'.le⟩

end Compressor

lemma FPCD.supports {size : ℕ} (hsize : 2 ≤ size) (m : ℕ) :
    FPCD.compressor.Supports (fun d => d.entries.length = size ∧ d.numEntries ≤ 2) size m := by
  refine ⟨fun d hd => hd.1, ⟨⟨replicate size (toDictionaryEntry 0), 0, zero_le _⟩, ?_,
    zero_le _, ?_⟩, ?_⟩
  · exact ⟨length_replicate, zero_le _⟩
  · rintro d rfl
    rfl
  · rintro d data ⟨hd, hnum⟩ -
    by_cases htwo : d.numEntries = 2
    · obtain ⟨previous, hprevious⟩ : ∃ e, d.entries[FPCD.previousIndex]? = some e :=
        ⟨_, getElem?_eq_getElem (by rw [FPCD.previousIndex]; omega)⟩
      refine ⟨⟨(d.entries.set FPCD.penultimateIndex previous).set FPCD.previousIndex data,
        d.numEntries, ?_⟩, ?_, ⟨?_, hnum⟩, le_succ _⟩
      · rw [length_set, length_set]
        exact d.le_length
      · show FPCD.addToDictionary d data = _
        rw [FPCD.addToDictionary, dif_pos htwo]
        simp only [hprevious]
        rfl
      · rw [length_set, length_set, hd]
    · have hlt : d.numEntries < d.entries.length := by omega
      refine ⟨⟨d.entries.set d.numEntries data, d.numEntries + 1, ?_⟩, ?_, ⟨?_, ?_⟩, le_rfl⟩
      · rwa [length_set]
      · show FPCD.addToDictionary d data = _
        rw [FPCD.addToDictionary, dif_neg htwo, dif_pos hlt]
        rfl
      · rw [length_set, hd]
      · show d.numEntries + 1 ≤ 2
        omega

namespace Kind

/-- The dictionary size that is needed for a line. -/
def minDictionarySize (k : Kind) (line : List (BitVec 64)) : ℕ :=
  match k with
  | FPCD => 2
  | _ => line.length * (8 / k.valueSize) + 1

lemma valueSize_dvd (k : Kind) : k.valueSize ∣ 8 := by
  cases k <;> decide

lemma exists_supports (k : Kind) {line : List (BitVec 64)} {size : ℕ}
    (hsize : k.minDictionarySize line ≤ size) :
    ∃ good, k.compressor.Supports good size (line.length * (8 / k.valueSize)) := by
  by_cases hk : k = FPCD
  · subst hk
    exact ⟨_, FPCD.supports hsize _⟩
  · have happend : k.compressor.addToDictionary = Dictionary.append := by
      cases k <;> first | rfl | exact absurd rfl hk
    have hmin : k.minDictionarySize line = line.length * (8 / k.valueSize) + 1 := by
      cases k <;> first | rfl | exact absurd rfl hk
    exact ⟨_, supports_of_append happend (by omega)⟩

lemma finish_ok (k : Kind) {d : Dictionary k.valueSize} (blkSize : ℕ)
    (comp : CompData k.valueSize) (hd : k = RepeatedQwordsCompressor → 1 ≤ d.numEntries) :
    ∃ r, k.compressor.finish blkSize d comp = .ok r ∧ r.compData.entries = comp.entries := by
  cases k with
  | RepeatedQwordsCompressor =>
    have hrequire : require (decide (1 ≤ d.numEntries))
        (CallFault.assertion "numEntries >= 1") = .ok () := by
      rw [decide_eq_true (hd rfl)]
      rfl
    exact ⟨_, bind_eq_ok.2 ⟨(), hrequire, rfl⟩, rfl⟩
  | _ => exact ⟨_, rfl, rfl⟩

lemma numEntries_repeatedQwords {d d' : Dictionary 8} {comp comp' : CompData 8}
    {values : List (Value 8)}
    (h : RepeatedQwordsCompressor.compressor.compressValues d comp values = .ok (comp', d')) :
    d'.numEntries = d.numEntries + values.length := by
  refine le_numEntries_of_compressValues ?_ ?_ h
  · intro bytes dictBytes loc
    show Pattern.allocate (if _ then _ else _)
    split_ifs <;> rfl
  · intro d d' data hadd
    replace hadd : Dictionary.append d data = .ok d' := hadd
    rw [Dictionary.append] at hadd
    split_ifs at hadd
    cases hadd
    rfl

section Lossless

variable (k : Kind) (line : List (BitVec 64)) (hvalues : line.length * (8 / k.valueSize) ≤ 255)
  (hline : k = RepeatedQwordsCompressor → line ≠ []) (d : Dictionary k.valueSize)
  (hd : k.minDictionarySize line ≤ d.entries.length)

include hvalues hline hd

lemma exists_compress : ∃ r d', k.compressor.compress d line = .ok (r, d') ∧
    d'.entries.length = d.entries.length ∧
    ∀ (outside : ℕ → DictionaryEntry k.valueSize) (d2 : Dictionary k.valueSize),
      d2.entries.length = d.entries.length →
      k.compressor.decompress outside (8 * line.length) d2 r.compData = .ok line := by
  obtain ⟨good, hc⟩ := k.exists_supports hd
  obtain ⟨d0, comp, d', hreset, hcomp, hd', hdecomp⟩ := hc.lossless k.valueSize_dvd hvalues rfl
  have hnum : k = RepeatedQwordsCompressor → 1 ≤ d'.numEntries := by
    intro hk
    have hpos := length_pos_iff.2 (hline hk)
    subst hk
    have hlen : (values RepeatedQwordsCompressor.valueSize line).length =
        line.length * 1 := length_values 8 line
    have hsum : d'.numEntries = d0.numEntries +
        (values RepeatedQwordsCompressor.valueSize line).length :=
      numEntries_repeatedQwords hcomp
    omega
  obtain ⟨r, hfinish, hentries⟩ := k.finish_ok (8 * line.length) comp hnum
  refine ⟨r, d', ?_, hd', fun outside d2 hd2 => hdecomp _ outside d2 hentries hd2⟩
  rw [compress, hreset]
  show (k.compressor.compressValues d0 _ _ >>= _) = _
  rw [hcomp]
  show (k.compressor.finish _ _ _ >>= _) = _
  rw [hfinish]
  rfl

/-- Compression is lossless: each line that fits is compressed, and the decompression of the
result gives back the line, whatever is read outside of the dictionary and whatever the
dictionary has been used for in between. -/
theorem decompress_compress : ∃ r d', k.compressor.compress d line = .ok (r, d') ∧
    ∀ (outside : ℕ → DictionaryEntry k.valueSize) (d₂ : Dictionary k.valueSize),
      d₂.entries.length = d.entries.length →
      k.compressor.decompress outside (8 * line.length) d₂ r.compData = .ok line := by
  obtain ⟨r, d', hcomp, -, hdecomp⟩ := exists_compress k line hvalues hline d hd
  exact ⟨r, d', hcomp, hdecomp⟩

/-- The check of `DEBUG_COMPRESSION` never fails, and the size that is returned is at most that of
the line. -/
theorem exists_checkedCompress (outside : ℕ → DictionaryEntry k.valueSize) {sizeThreshold : ℕ}
    (hsize : sizeThreshold ≤ 8 * line.length) : ∃ sizeBits ≤ 8 * line.length * 8,
      k.compressor.checkedCompress outside sizeThreshold d line = .ok sizeBits := by
  obtain ⟨r, d', hcomp, hd', hdecomp⟩ := exists_compress k line hvalues hline d hd
  have hcheck : (line == line) := beq_self_eq_true line
  refine ⟨if r.compData.sizeBits ≥ sizeThreshold * 8 then 8 * line.length * 8
    else r.compData.sizeBits, by split_ifs <;> omega, ?_⟩
  rw [checkedCompress, hcomp]
  show (k.compressor.decompress outside _ d' r.compData >>= _) = _
  rw [hdecomp outside d' hd']
  show (require (line == line) _ >>= _) = _
  rw [hcheck]
  split_ifs <;> rfl

end Lossless

/-- A line of 16 bytes, in which the first word is repeated with another last byte. -/
theorem decompress_compress_twoQwords :
    ∃ r d', CPack.compressor.compress ⟨List.replicate 5 (toDictionaryEntry 0), 0, by decide⟩
        [0xABCD12EE_ABCD1234, 0x00000007_00000000] = .ok (r, d') ∧
      CPack.compressor.decompress (fun _ => toDictionaryEntry 0xFFFFFFFF) 16
        ⟨List.replicate 5 (toDictionaryEntry 0), 0, by decide⟩ r.compData =
        .ok [0xABCD12EE_ABCD1234, 0x00000007_00000000] := by
  obtain ⟨r, d', hcomp, hdecomp⟩ := decompress_compress CPack
    [0xABCD12EE_ABCD1234, 0x00000007_00000000] (by decide) nofun
    ⟨replicate 5 (toDictionaryEntry 0), 0, by decide⟩ (by decide)
  exact ⟨r, d', hcomp, hdecomp _ _ rfl⟩

/-- A line of zeros. -/
theorem exists_checkedCompress_zeros : ∃ sizeBits ≤ 128, ZeroCompressor.compressor.checkedCompress
    (fun _ => toDictionaryEntry 1) 16 ⟨List.replicate 5 (toDictionaryEntry 0), 0, by decide⟩
      [0, 0] = .ok sizeBits :=
  exists_checkedCompress ZeroCompressor [0, 0] (by decide) nofun _ (by decide) _ le_rfl

end Kind

end ChipletGem5.DictionaryCompressor
