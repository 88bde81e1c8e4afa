import ChipletGem5.Base.AddrRange
import ChipletGem5.Base.CircularQueueWindow

/-!
# Forwarding from stores to loads

`LSQUnit::read` (cpu/o3/lsq_unit.hh) looks through the store queue, from the youngest store that is
older than the load to the oldest one that has not been written back.  The first executed store that
overlaps the load decides: if it has all bytes of the load, they are forwarded, and otherwise the
load has to wait.  Strictly ordered stores and cache maintenance operations are passed.  The ends of
the ranges are computed with 64 bits.
-/

namespace ChipletGem5.O3

open List BitVec Nat

open CircularQueue (Iterator Shape)

/-! ### Stores and loads -/

/-- What is read of the instruction of a store. -/
structure StoreInst where
  seqNum : ℕ
  effAddr : Addr
  effAddrValid : Bool
  strictlyOrdered : Bool
  isAtomic : Bool

/-- What is read of the main request of a store. -/
structure StoreReq where
  isMasked : Bool
  isCacheMaintenance : Bool

/-- An entry of the store queue.  It is valid if it has an instruction. -/
structure SQEntry where
  inst : Option StoreInst
  /-- The size, which is zero until the store has executed. -/
  size : ℕ
  mainRequest : Option StoreReq
  data : ℕ → BitVec 8
  isAllZeros : Bool
  completed : Bool

instance : Inhabited SQEntry := ⟨⟨none, 0, none, fun _ => 0, false, false⟩⟩

/-- What is read of the main request of a load. -/
structure LoadReq where
  vaddr : Addr
  size : ℕ
  size_pos : 0 < size
  isStrictlyOrdered : Bool
  isLLSC : Bool
  isLocalAccess : Bool

/-- A load, with its place in the load queue and the end of the store queue when it was inserted. -/
structure LoadInst where
  seqNum : ℕ
  idx : ℕ
  sqIt : Iterator
  isAtCommit : Bool
  req : LoadReq

/-- The parts of `LSQUnit` that a read uses. -/
structure LSQUnit where
  storeQueue : CircularQueue SQEntry
  storeWBIt : Iterator
  /-- The index of the first load of the load queue. -/
  loadHead : ℕ
  /-- The sequence numbers of the loads in the load queue, by their indices. -/
  loadSeqNum : ℕ → ℕ
  stalled : Bool
  stallingStoreIsn : ℕ
  stallingLoadIdx : ℕ

/-- What a read does with a load. -/
inductive ReadResult
  /-- The load faults, as it is strictly ordered and not at the head of the queue. -/
  | fault
  /-- The access does not go to memory. -/
  | localAccess
  /-- The load gets its bytes from a store. -/
  | forward (bytes : List (BitVec 8))
  /-- The load is rescheduled because of the store with this sequence number. -/
  | reschedule (store : ℕ)
  /-- The load is sent to memory. -/
  | memory

/-! ### The function -/

/-- How far a store covers a load. -/
inductive Coverage
  | partialCoverage
  | fullCoverage
  | noCoverage
deriving DecidableEq

/-- How an executed store covers a load. -/
def coverage (load : LoadReq) (inst : StoreInst) (e : SQEntry) : Result Coverage :=
  let req_s := load.vaddr
  let req_e := req_s + BitVec.ofNat 64 load.size
  let st_s := inst.effAddr
  let st_e := st_s + BitVec.ofNat 64 e.size
  let storeHasLowerLimit := st_s ≤ req_s
  let storeHasUpperLimit := req_e ≤ st_e
  let lowerLoadHasStorePart := req_s < st_e
  let upperLoadHasStorePart := st_s < req_e
  if !inst.isAtomic ∧ storeHasLowerLimit ∧ storeHasUpperLimit ∧ !load.isLLSC then do
    let storeReq ← getOrError e.mainRequest (.undefined "store_req->isMasked()")
    pure (if storeReq.isMasked then .partialCoverage else .fullCoverage)
  else if
      -- the store has only part of the load's data, and the load isn't LLSC
      (!load.isLLSC ∧
        ((storeHasLowerLimit ∧ lowerLoadHasStorePart) ∨
          (storeHasUpperLimit ∧ upperLoadHasStorePart) ∨
          (lowerLoadHasStorePart ∧ upperLoadHasStorePart))) ∨
      -- the load is LLSC, and the store has all or part of the load's data
      (load.isLLSC ∧
        ((storeHasLowerLimit ∨ upperLoadHasStorePart) ∧
          (storeHasUpperLimit ∨ lowerLoadHasStorePart))) ∨
      -- the store is atomic and has all or part of the load's data
      (inst.isAtomic ∧
        ((storeHasLowerLimit ∨ upperLoadHasStorePart) ∧
          (storeHasUpperLimit ∨ lowerLoadHasStorePart))) then
    pure .partialCoverage
  else pure .noCoverage

/-- The bytes that are forwarded. -/
def forwardData (load : LoadReq) (inst : StoreInst) (e : SQEntry) : List (BitVec 8) :=
  let shiftAmt := (load.vaddr - inst.effAddr).toNat
  (List.range load.size).map fun i => if e.isAllZeros then 0 else e.data (shiftAmt + i)

namespace LSQUnit

variable (u : LSQUnit) (load : LoadInst)

/-- The load stalls the queue, unless an older one does. -/
def stall (store : StoreInst) : LSQUnit :=
  if !u.stalled ∨ load.seqNum < u.loadSeqNum u.stallingLoadIdx then
    { u with
      stalled := true
      stallingStoreIsn := store.seqNum
      stallingLoadIdx := load.idx }
  else u

/-- A store that is considered for forwarding. -/
def considered (inst : StoreInst) (e : SQEntry) : Bool :=
  e.size != 0 && !inst.strictlyOrdered && !e.mainRequest.any (·.isCacheMaintenance)

/-- The body of the loop, which returns if the store decides. -/
def checkStore (inst : StoreInst) (e : SQEntry) : Result (Option (ReadResult × LSQUnit)) :=
  if considered inst e then do
    require inst.effAddrValid (.assertion "store_it->instruction()->effAddrValid()")
    let c ← coverage load.req inst e
    match c with
    | .fullCoverage => pure (some (.forward (forwardData load.req inst e), u))
    | .partialCoverage =>
        if e.completed then .error (.panic "Should not check one of these")
        else pure (some (.reschedule inst.seqNum, u.stall load inst))
    | .noCoverage => pure none
  else pure none

/-- The loop, which takes at most `fuel` rounds. -/
def scan : ℕ → Iterator → Result (Option (ReadResult × LSQUnit))
  | 0, _ => pure none
  | fuel + 1, it =>
      if it = u.storeWBIt then pure (some (.memory, u))
      else do
        let it ← it.prev u.storeQueue
        let e ← u.storeQueue.getAt it.idx
        let inst ← getOrError e.inst (.assertion "store_it->valid()")
        require (inst.seqNum < load.seqNum)
          (.assertion "store_it->instruction()->seqNum < load_inst->seqNum")
        let r ← u.checkStore load inst e
        match r with
        | some r => pure (some r)
        | none => scan fuel it

/-- `LSQUnit::read`, with a bound on the rounds of its loop that the capacity of the queue
gives. -/
def read : Result (Option (ReadResult × LSQUnit)) :=
  if load.req.isStrictlyOrdered ∧ (load.idx ≠ u.loadHead ∨ !load.isAtCommit) then
    pure (some (.fault, u))
  else if load.req.isLocalAccess then pure (some (.localAccess, u))
  else do
    require (u.storeWBIt.le load.sqIt) (.assertion "store_it >= storeWBIt")
    u.scan load (u.storeQueue.capacity + 1) load.sqIt

end LSQUnit

/-! ### Bytes -/

/-- The addresses of `n` bytes from `a` on. -/
def byteRange (a : Addr) (n : ℕ) : Set Addr := {x | (x - a).toNat < n}

/-- The range ends before the end of the address space. -/
def Below (a : Addr) (n : ℕ) : Prop := a.toNat + n < 2 ^ 64

namespace SQEntry

variable (e : SQEntry)

/-- The addresses of the bytes of a store. -/
def bytes : Set Addr :=
  match e.inst with
  | some inst => byteRange inst.effAddr e.size
  | none => ∅

/-- The byte of a store at an address. -/
def byteAt (x : Addr) : BitVec 8 :=
  match e.inst with
  | some inst => if e.isAllZeros then 0 else e.data (x - inst.effAddr).toNat
  | none => 0

def Executed : Prop := e.size ≠ 0

/-- The store has executed, and it is neither strictly ordered nor a cache maintenance operation. -/
def Considered : Prop := ∃ inst, e.inst = some inst ∧ LSQUnit.considered inst e

/-- What the unit asserts of a store that has not been written back and is older than a load. -/
structure Ready (seqNum : ℕ) : Prop where
  valid : ∃ inst, e.inst = some inst ∧ inst.seqNum < seqNum ∧
    (e.size ≠ 0 → inst.effAddrValid)
  request : e.size ≠ 0 → e.mainRequest.isSome
  completed : e.completed = false

end SQEntry

/-- The addresses of the bytes of a load. -/
def LoadReq.bytes (load : LoadReq) : Set Addr := byteRange load.vaddr load.size

variable {a : Addr} {n : ℕ}

lemma mem_byteRange {x : Addr} (h : Below a n) :
    x ∈ byteRange a n ↔ a.toNat ≤ x.toNat ∧ x.toNat < a.toNat + n := by
  rw [Below] at h
  rw [byteRange, Set.mem_ofPred_eq, toNat_sub]
  constructor
  · intro hlt
    rcases lt_or_ge x.toNat a.toNat with hxa | hxa
    · omega
    · omega
  · omega

lemma toNat_add_size (h : Below a n) : (a + BitVec.ofNat 64 n).toNat = a.toNat + n := by
  rw [toNat_add, toNat_ofNat, add_mod_mod, mod_eq_of_lt h]

lemma overlap_iff {b : Addr} {m : ℕ} (ha : Below a n) (hb : Below b m) (hn : 0 < n)
    (hm : 0 < m) : (byteRange a n ∩ byteRange b m).Nonempty ↔
      a.toNat < b.toNat + m ∧ b.toNat < a.toNat + n := by
  constructor
  · rintro ⟨x, hxa, hxb⟩
    rw [mem_byteRange ha] at hxa
    rw [mem_byteRange hb] at hxb
    omega
  · intro h
    rcases le_total a.toNat b.toNat with hle | hle
    · exact ⟨b, (mem_byteRange ha).2 (by omega), (mem_byteRange hb).2 (by omega)⟩
    · exact ⟨a, (mem_byteRange ha).2 (by omega), (mem_byteRange hb).2 (by omega)⟩

lemma subset_iff {b : Addr} {m : ℕ} (ha : Below a n) (hb : Below b m) (hn : 0 < n) :
    byteRange a n ⊆ byteRange b m ↔ b.toNat ≤ a.toNat ∧ a.toNat + n ≤ b.toNat + m := by
  constructor
  · intro h
    have hfirst := h ((mem_byteRange (x := a) ha).2 (by omega))
    have hend : (a + BitVec.ofNat 64 (n - 1)).toNat = a.toNat + (n - 1) :=
      toNat_add_size (by rw [Below] at *; omega)
    have hlast := h ((mem_byteRange (x := a + BitVec.ofNat 64 (n - 1)) ha).2 (by omega))
    rw [mem_byteRange hb] at hfirst hlast
    omega
  · intro h x hx
    rw [mem_byteRange ha] at hx
    rw [mem_byteRange hb]
    omega

/-! ### The decision -/

/-- The youngest store with the property `p` that overlaps the load; the stores are given from the
youngest one on. -/
def Youngest (p : SQEntry → Prop) (load : LoadReq) (older : List SQEntry) (e : SQEntry) : Prop :=
  ∃ younger rest, older = younger ++ e :: rest ∧ p e ∧ (load.bytes ∩ e.bytes).Nonempty ∧
    ∀ e' ∈ younger, p e' → ¬ (load.bytes ∩ e'.bytes).Nonempty

/-- The bytes of the load are those of the store. -/
structure Forwards (load : LoadReq) (e : SQEntry) (bytes : List (BitVec 8)) : Prop where
  length : bytes.length = load.size
  byte : ∀ i < load.size, bytes[i]? = some (e.byteAt (load.vaddr + BitVec.ofNat 64 i))
  unmasked : e.mainRequest.any (·.isMasked) = false
  notAtomic : e.inst.any (·.isAtomic) = false
  covers : load.bytes ⊆ e.bytes
  notLLSC : load.isLLSC = false

/-- What is asked of a read: the bytes of the youngest older store with the property `p` are
forwarded, or the load goes to memory past no store that is considered, or it waits for the youngest
older store with the property `p`. -/
def Decides (p : SQEntry → Prop) (u : LSQUnit) (load : LoadInst) (older : List SQEntry) :
    ReadResult × LSQUnit → Prop
  | (.forward bytes, u') => u' = u ∧
      ∃ e, Youngest p load.req older e ∧ Forwards load.req e bytes
  | (.memory, u') => u' = u ∧
      ∀ e ∈ older, e.Considered → ¬ (load.req.bytes ∩ e.bytes).Nonempty
  | (.reschedule store, u') =>
      ∃ e inst, Youngest p load.req older e ∧ e.inst = some inst ∧ inst.seqNum = store ∧
        u' = u.stall load inst
  | _ => False

/-- The stores that are older than the load and have not been written back, from the youngest one
on, as the queue and its iterators have them. -/
structure Queued (u : LSQUnit) (load : LoadInst) (older : List SQEntry) : Prop where
  queue : ∃ len e w, Shape u.storeQueue len e ∧ e / u.storeQueue.capacity < 2 ^ 32 ∧
    e - len ≤ w ∧ w + older.length ≤ e ∧
    u.storeWBIt = .ofPos u.storeQueue.capacity w ∧
    load.sqIt = .ofPos u.storeQueue.capacity (w + older.length) ∧
    ∀ i x, older[i]? = some x →
      u.storeQueue.store[(w + older.length - 1 - i) % u.storeQueue.capacity]? = some x
  ready : ∀ e ∈ older, e.Ready load.seqNum

section Decision

variable {load : LoadReq} {inst : StoreInst} {e : SQEntry}

lemma coverage_cases (hload : Below load.vaddr load.size) (hstore : Below inst.effAddr e.size)
    (hsize : e.size ≠ 0) {storeReq : StoreReq} (hreq : e.mainRequest = some storeReq) :
    ∃ c, coverage load inst e = .ok c ∧
      (c = .fullCoverage ∧ inst.isAtomic = false ∧ load.isLLSC = false ∧
          storeReq.isMasked = false ∧
          byteRange load.vaddr load.size ⊆ byteRange inst.effAddr e.size ∨
        c = .partialCoverage ∧
          (byteRange load.vaddr load.size ∩ byteRange inst.effAddr e.size).Nonempty ∨
        c = .noCoverage ∧
          ¬ (byteRange load.vaddr load.size ∩ byteRange inst.effAddr e.size).Nonempty) := by
  have hpos := load.size_pos
  have hsize' : 0 < e.size := pos_of_ne_zero hsize
  rw [overlap_iff hload hstore hpos hsize', subset_iff hload hstore hpos]
  have hreqEnd := toNat_add_size hload
  have hstEnd := toNat_add_size hstore
  unfold coverage
  simp only [hreq, getOrError, le_def, lt_def, hreqEnd, hstEnd]
  split_ifs with hfull hpart
  · -- the store has all bytes
    obtain ⟨hatomic, hlower, hupper, hllsc⟩ := hfull
    rcases hmask : storeReq.isMasked with _ | _
    · refine ⟨.fullCoverage, bind_eq_ok.2 ⟨_, rfl, by rw [hmask]; rfl⟩,
        .inl ⟨rfl, by simpa using hatomic, by simpa using hllsc, rfl, ?_⟩⟩
      omega
    · refine ⟨.partialCoverage, bind_eq_ok.2 ⟨_, rfl, by rw [hmask]; rfl⟩, .inr (.inl ⟨rfl, ?_⟩)⟩
      omega
  · refine ⟨.partialCoverage, rfl, .inr (.inl ⟨rfl, ?_⟩)⟩
    rcases hpart with ⟨-, h | h | h⟩ | ⟨-, h⟩ | ⟨-, h⟩ <;> omega
  · refine ⟨.noCoverage, rfl, .inr (.inr ⟨rfl, fun hover => hpart ?_⟩)⟩
    rcases hllsc : load.isLLSC with _ | _
    · exact .inl ⟨rfl, .inr (.inr hover)⟩
    · exact .inr (.inl ⟨rfl, .inr hover.2, .inr hover.1⟩)

lemma forwards_forwardData (hload : Below load.vaddr load.size)
    (hstore : Below inst.effAddr e.size) (hinst : e.inst = some inst) {storeReq : StoreReq}
    (hreq : e.mainRequest = some storeReq) (hatomic : inst.isAtomic = false)
    (hllsc : load.isLLSC = false) (hmask : storeReq.isMasked = false)
    (hcovers : byteRange load.vaddr load.size ⊆ byteRange inst.effAddr e.size) :
    Forwards load e (forwardData load inst e) where
  length := by simp [forwardData]
  byte i hi := by
    have hlimits := (subset_iff hload hstore load.size_pos).1 hcovers
    have hoffset : (load.vaddr + BitVec.ofNat 64 i - inst.effAddr).toNat =
        (load.vaddr - inst.effAddr).toNat + i := by
      have haddr : (load.vaddr + BitVec.ofNat 64 i).toNat = load.vaddr.toNat + i :=
        toNat_add_size (by rw [Below] at *; omega)
      rw [toNat_sub_of_le (by rw [le_def]; omega),
        toNat_sub_of_le (by rw [le_def]; omega)]
      omega
    simp [forwardData, hi, SQEntry.byteAt, hinst, hoffset]
  unmasked := by simp [hreq, hmask]
  notAtomic := by simp [hinst, hatomic]
  covers := by simpa [LoadReq.bytes, SQEntry.bytes, hinst] using hcovers
  notLLSC := hllsc

end Decision

/-! ### The loop -/

section Loop

variable {u : LSQUnit} {load : LoadInst} {older : List SQEntry} {e : SQEntry} {inst : StoreInst}

lemma considered_iff (hinst : e.inst = some inst) :
    e.Considered ↔ LSQUnit.considered inst e := by
  constructor
  · rintro ⟨inst', hinst', h⟩
    cases hinst.symm.trans hinst'
    exact h
  · exact fun h => ⟨inst, hinst, h⟩

lemma checkStore_cases (hload : Below load.req.vaddr load.req.size)
    (hstore : e.Considered → Below inst.effAddr e.size) (hready : e.Ready load.seqNum)
    (hinst : e.inst = some inst) :
    u.checkStore load inst e = .ok none ∧
        (e.Considered → ¬ (load.req.bytes ∩ e.bytes).Nonempty) ∨
      ∃ r, u.checkStore load inst e = .ok (some r) ∧ e.Considered ∧
        (load.req.bytes ∩ e.bytes).Nonempty ∧
        ((∃ bytes, r = (.forward bytes, u) ∧ Forwards load.req e bytes) ∨
          r = (.reschedule inst.seqNum, u.stall load inst)) := by
  by_cases hcons : LSQUnit.considered inst e
  · have hcons' := (considered_iff hinst).2 hcons
    have hsize : e.size ≠ 0 := by
      intro hzero
      simp [LSQUnit.considered, hzero] at hcons
    obtain ⟨storeReq, hreq⟩ := Option.isSome_iff_exists.1 (hready.request hsize)
    obtain ⟨inst', hinst', -, hvalid⟩ := hready.valid
    cases hinst.symm.trans hinst'
    have hbytes : e.bytes = byteRange inst.effAddr e.size := by simp [SQEntry.bytes, hinst]
    have hbelow := hstore hcons'
    obtain ⟨c, hc, hcases⟩ := coverage_cases hload hbelow hsize hreq
    unfold LSQUnit.checkStore
    rw [if_pos hcons, hvalid hsize, hc, hbytes, LoadReq.bytes]
    rcases hcases with ⟨rfl, hatomic, hllsc, hmask, hsub⟩ | ⟨rfl, hover⟩ | ⟨rfl, hnot⟩
    · refine .inr ⟨_, rfl, hcons', ?_, .inl ⟨_, rfl,
        forwards_forwardData hload hbelow hinst hreq hatomic hllsc hmask hsub⟩⟩
      rw [Set.inter_eq_left.2 hsub]
      exact ⟨load.req.vaddr, (mem_byteRange hload).2 (by have := load.req.size_pos; omega)⟩
    · refine .inr ⟨(.reschedule inst.seqNum, u.stall load inst), ?_, hcons', hover, .inr rfl⟩
      simp [require, hready.completed]
    · exact .inl ⟨rfl, fun _ => hnot⟩
  · refine .inl ⟨?_, fun h => absurd ((considered_iff hinst).1 h) hcons⟩
    rw [LSQUnit.checkStore, if_neg hcons]
    rfl

lemma Youngest.cons {p : SQEntry → Prop} {x : SQEntry} {load : LoadReq}
    (hx : p x → ¬ (load.bytes ∩ x.bytes).Nonempty) (h : Youngest p load older e) :
    Youngest p load (x :: older) e := by
  obtain ⟨younger, rest, rfl, hp, hover, hyounger⟩ := h
  exact ⟨x :: younger, rest, rfl, hp, hover, forall_mem_cons.2 ⟨hx, hyounger⟩⟩

lemma Decides.cons {x : SQEntry} {r : ReadResult × LSQUnit}
    (hx : x.Considered → ¬ (load.req.bytes ∩ x.bytes).Nonempty)
    (h : Decides SQEntry.Considered u load older r) :
    Decides SQEntry.Considered u load (x :: older) r := by
  obtain ⟨result, u'⟩ := r
  cases result with
  | forward bytes =>
    obtain ⟨hu, e, hyoungest, hforwards⟩ := h
    exact ⟨hu, e, hyoungest.cons hx, hforwards⟩
  | memory =>
    obtain ⟨hu, hnone⟩ := h
    exact ⟨hu, forall_mem_cons.2 ⟨hx, hnone⟩⟩
  | reschedule store =>
    obtain ⟨e, inst, hyoungest, hrest⟩ := h
    exact ⟨e, inst, hyoungest.cons hx, hrest⟩
  | fault | localAccess => exact h

lemma scan_decides {len end' w fuel : ℕ} (hshape : Shape u.storeQueue len end')
    (hround : end' / u.storeQueue.capacity < 2 ^ 32) (hw : end' - len ≤ w)
    (hend : w + older.length ≤ end') (hwb : u.storeWBIt = .ofPos u.storeQueue.capacity w)
    (hstore : ∀ i x, older[i]? = some x →
      u.storeQueue.store[(w + older.length - 1 - i) % u.storeQueue.capacity]? = some x)
    (hready : ∀ e ∈ older, e.Ready load.seqNum) (hload : Below load.req.vaddr load.req.size)
    (hbelow : ∀ e ∈ older, ∀ inst, e.inst = some inst → e.Considered →
      Below inst.effAddr e.size) (hfuel : older.length < fuel) :
    ∃ r, u.scan load fuel (.ofPos u.storeQueue.capacity (w + older.length)) = .ok (some r) ∧
      Decides SQEntry.Considered u load older r := by
  induction older generalizing fuel with
  | nil =>
    obtain ⟨fuel, rfl⟩ := Nat.exists_eq_add_of_lt hfuel
    refine ⟨(.memory, u), ?_, rfl, by simp⟩
    rw [LSQUnit.scan, if_pos (by simp [hwb])]
    rfl
  | cons x older ih =>
    obtain ⟨fuel, rfl⟩ : ∃ k, fuel = k + 1 := ⟨fuel - 1, by omega⟩
    rw [length_cons] at hend hfuel
    have hne : Iterator.ofPos u.storeQueue.capacity (w + (x :: older).length) ≠ u.storeWBIt := by
      rw [hwb, ne_eq, CircularQueue.Iterator.ofPos_inj, length_cons]
      omega
    have hprev := hshape.prev_ofPos (p := w + (x :: older).length) hround
      (by rw [length_cons]; omega) (by rw [length_cons]; omega)
    have hpos : w + (x :: older).length - 1 = w + older.length := by
      rw [length_cons]
      omega
    have hcell := hstore 0 x rfl
    rw [hpos] at hprev
    have hx := hready x mem_cons_self
    obtain ⟨inst, hinst, hseq, -⟩ := hx.valid
    have hget : u.storeQueue.getAt ((w + older.length) % u.storeQueue.capacity) = .ok x := by
      rwa [CircularQueue.getAt, getOrError_eq_ok]
    have hcells : ∀ i y, older[i]? = some y →
        u.storeQueue.store[(w + older.length - 1 - i) % u.storeQueue.capacity]? = some y := by
      intro i y hy
      have hidx : w + (x :: older).length - 1 - (i + 1) = w + older.length - 1 - i := by
        omega
      rw [← hidx]
      exact hstore (i + 1) y (by simpa using hy)
    have hrest := ih (by omega) hcells (fun e he => hready e (.tail _ he))
      (fun e he => hbelow e (.tail _ he)) (show older.length < fuel by omega)
    rw [LSQUnit.scan, if_neg hne, hprev]
    simp only [CircularQueue.Iterator.ofPos, ok_bind, hget, hinst, getOrError, hseq,
      decide_true, require, if_true]
    rcases checkStore_cases (u := u) hload (hbelow x mem_cons_self inst hinst) hx
      hinst with ⟨hnone, hnot⟩ | ⟨r, hr, hcons, hover, hcases⟩
    · obtain ⟨r, hr, hdecides⟩ := hrest
      rw [hnone]
      exact ⟨r, hr, hdecides.cons hnot⟩
    · have hyoungest : Youngest SQEntry.Considered load.req (x :: older) x :=
        ⟨[], older, rfl, hcons, hover, by simp⟩
      rw [hr]
      refine ⟨r, rfl, ?_⟩
      rcases hcases with ⟨bytes, rfl, hforwards⟩ | rfl
      · exact ⟨rfl, x, hyoungest, hforwards⟩
      · exact ⟨x, inst, hyoungest, hinst, rfl, rfl⟩

end Loop

/-- For every content of the store queue and every load that is neither strictly ordered nor a local
access, with ranges that end before the end of the address space, a read forwards the bytes of the
youngest older store that overlaps the load, or sends the load to memory if there is none, or lets
it wait for that store. -/
theorem read_decides (u : LSQUnit) (load : LoadInst) (older : List SQEntry)
    (hqueued : Queued u load older) (hstrict : load.req.isStrictlyOrdered = false)
    (hlocal : load.req.isLocalAccess = false) (hload : Below load.req.vaddr load.req.size)
    (hbelow : ∀ e ∈ older, ∀ inst, e.inst = some inst → e.Considered →
      Below inst.effAddr e.size) :
    ∃ r, u.read load = .ok (some r) ∧ Decides SQEntry.Considered u load older r := by
  obtain ⟨len, e, w, hshape, hround, hw, hend, hwb, hsq, hstore⟩ := hqueued.queue
  have hle : u.storeWBIt.le load.sqIt := by
    rw [hwb, hsq, CircularQueue.Iterator.le_ofPos, decide_eq_true_eq]
    omega
  have hlen := hshape.len_le
  obtain ⟨r, hr, hdecides⟩ := scan_decides hshape hround hw hend hwb hstore hqueued.ready hload
    hbelow (show older.length < u.storeQueue.capacity + 1 by omega)
  refine ⟨r, ?_, hdecides⟩
  rw [LSQUnit.read, hstrict, hlocal, hle, hsq]
  exact bind_eq_ok.2 ⟨(), rfl, hr⟩

/-- A store of eight bytes. -/
def wordStore : SQEntry :=
  ⟨some ⟨1, 0x1000, true, false, false⟩, 8, some ⟨false, false⟩, fun _ => 1, false, false⟩

/-- A cache maintenance operation for the same line. -/
def cleanLine : SQEntry :=
  ⟨some ⟨2, 0x1000, true, false, false⟩, 64, some ⟨false, true⟩, fun _ => 0, true, false⟩

/-- A unit with these two stores, of which the second one is the younger. -/
def twoStores : LSQUnit where
  storeQueue := ⟨[default, wordStore, cleanLine, default], 4, 1, 2, false, 0⟩
  storeWBIt := .ofPos 4 1
  loadHead := 1
  loadSeqNum := fun _ => 0
  stalled := false
  stallingStoreIsn := 0
  stallingLoadIdx := 0

/-- A load of four of the eight bytes. -/
def wordLoad : LoadInst :=
  ⟨3, 1, .ofPos 4 3, false, ⟨0x1004, 4, by decide, false, false, false⟩⟩

lemma queued_twoStores : Queued twoStores wordLoad [cleanLine, wordStore] where
  queue := by
    refine ⟨2, 3, 1, ⟨by decide, by decide, rfl, by decide, by decide, rfl, rfl, rfl, rfl⟩,
      by decide, by decide, by decide, rfl, rfl, fun i x hx => ?_⟩
    match i, hx with
    | 0, hx | 1, hx => exact hx
  ready := by
    refine forall_mem_cons.2 ⟨?_, forall_mem_cons.2 ⟨?_, by simp⟩⟩
    all_goals exact ⟨⟨_, rfl, by decide, fun _ => rfl⟩, fun _ => rfl, rfl⟩

theorem read_decides_twoStores : ∃ r, twoStores.read wordLoad = .ok (some r) ∧
    Decides SQEntry.Considered twoStores wordLoad [cleanLine, wordStore] r := by
  refine read_decides twoStores wordLoad _ queued_twoStores rfl rfl (by unfold Below; decide) ?_
  refine forall_mem_cons.2 ⟨?_, forall_mem_cons.2 ⟨?_, by simp⟩⟩
  all_goals
    rintro inst hinst -
    cases hinst
    unfold Below
    decide

/-- The bytes that are forwarded are not those of the youngest older store that has executed and
overlaps the load, if that is a cache maintenance operation. -/
theorem not_read_decides : ¬ ∀ (u : LSQUnit) (load : LoadInst) (older : List SQEntry),
    Queued u load older → load.req.isStrictlyOrdered = false →
      load.req.vaddr.toNat + load.req.size ≤ 2 ^ 64 →
      ∃ r, u.read load = .ok (some r) ∧ Decides SQEntry.Executed u load older r := by
  intro hall
  obtain ⟨r, hr, hdecides⟩ := hall twoStores wordLoad _ queued_twoStores rfl (by decide)
  have hread : twoStores.read wordLoad = .ok (some (.forward [1, 1, 1, 1], twoStores)) := rfl
  obtain rfl : (.forward [1, 1, 1, 1], twoStores) = r :=
    Option.some.inj (Except.ok.inj (hread.symm.trans hr))
  obtain ⟨-, e, ⟨younger, rest, holder, -, -, hyounger⟩, hforwards⟩ := hdecides
  rcases cons_eq_append_iff.1 holder with ⟨rfl, he⟩ | ⟨younger, rfl, -⟩
  · -- the bytes of the cache maintenance operation are zeros
    obtain ⟨rfl, -⟩ := List.cons.inj he
    exact absurd (hforwards.byte 0 (by decide)) (by decide)
  · -- it overlaps the load
    have hover : (wordLoad.req.bytes ∩ cleanLine.bytes).Nonempty :=
      ⟨0x1004, show (_ : ℕ) < _ by decide, show (_ : ℕ) < _ by decide⟩
    exact hyounger cleanLine mem_cons_self (show 64 ≠ 0 by decide) hover

end ChipletGem5.O3
