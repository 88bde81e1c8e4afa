import ChipletGem5.Lib.Exec
import ChipletGem5.Lib.Result

/-!
# The memory dependence unit

`MemDepUnit` (cpu/o3/mem_dep_unit_impl.hh) holds back memory instructions until what they depend on
has completed.  This file has the unit of one thread and a lemma for each function that says what it
does to the entries; `MemDepBarriers` has what follows for barriers.
-/

namespace ChipletGem5.O3

open List Function

/-! ### The unit -/

/-- What the unit reads of an instruction. -/
structure MemInst where
  seqNum : ℕ
  isLoad : Bool
  isStore : Bool
  isAtomic : Bool
  isMemBarrier : Bool
  isWriteBarrier : Bool
  /-- All source registers are ready when the instruction is inserted. -/
  readyToIssue : Bool
deriving DecidableEq

/-- An entry; those that depend on it are given by their sequence numbers. -/
structure MemDepEntry where
  regsReady : Bool
  memDepReady : Bool
  squashed : Bool
  dependInsts : List ℕ
deriving DecidableEq

/-- The unit of one thread.  Sequence numbers are not used again, so that they also stand for the
entries, which exist as long as an entry points to them. -/
structure MemDepUnit where
  entry : ℕ → MemDepEntry
  memDepHash : ℕ → Bool
  instList : List ℕ
  loadBarrier : Bool
  loadBarrierSN : ℕ
  storeBarrier : Bool
  storeBarrierSN : ℕ
  /-- The instructions that were added to the ready list of the instruction queue. -/
  readyMemInsts : List ℕ

namespace MemDepUnit

variable (u : MemDepUnit)

def init : MemDepUnit :=
  ⟨fun _ => ⟨false, false, false, []⟩, fun _ => false, [], false, 0, false, 0, []⟩

def modify (n : ℕ) (f : MemDepEntry → MemDepEntry) : MemDepUnit :=
  { u with entry := update u.entry n (f (u.entry n)) }

/-- A new entry, in the hash and at the end of the list. -/
def addEntry (n : ℕ) : MemDepUnit :=
  { u with
    entry := update u.entry n ⟨false, false, false, []⟩
    memDepHash := update u.memDepHash n true
    instList := u.instList ++ [n] }

def moveToReady (n : ℕ) : Result MemDepUnit := do
  require (!(u.entry n).squashed) (.assertion "!woken_inst_entry->squashed")
  return { u with readyMemInsts := u.readyMemInsts ++ [n] }

def findInHash (n : ℕ) : Result MemDepEntry := do
  require (u.memDepHash n) (.assertion "hash_it != memDepHash.end()")
  return u.entry n

variable (inst : MemInst)

/-- The instruction on which an instruction depends, zero if there is none; `checkInst` is what the
dependence predictor says. -/
def producingStore (checkInst : ℕ) : ℕ :=
  if (inst.isLoad || inst.isAtomic) && u.loadBarrier then u.loadBarrierSN
  else if (inst.isStore || inst.isAtomic) && u.storeBarrier then u.storeBarrierSN
  else checkInst

/-- Both functions that insert a memory instruction end with this case distinction. -/
def checkType : Result MemDepUnit :=
  if inst.isStore || inst.isAtomic then .ok u
  else if inst.isLoad then .ok u
  else .error (.panic "Unknown type! (most likely a barrier).")

/-- The entry of the instruction is made dependent on another one if that is in the hash, otherwise
it may issue as soon as its registers are ready. -/
def addDependence (producing : ℕ) : Result MemDepUnit :=
  let n := inst.seqNum
  if producing ≠ 0 ∧ u.memDepHash producing then
    let u₁ := if inst.readyToIssue then u.modify n ({ · with regsReady := true }) else u
    .ok (u₁.modify producing fun e => { e with dependInsts := e.dependInsts ++ [n] })
  else
    let u₁ := u.modify n ({ · with memDepReady := true })
    if inst.readyToIssue then (u₁.modify n ({ · with regsReady := true })).moveToReady n
    else .ok u₁

def insert (checkInst : ℕ) : Result MemDepUnit := do
  let u₁ ← (u.addEntry inst.seqNum).addDependence inst (u.producingStore inst checkInst)
  u₁.checkType inst

def insertNonSpec : Result MemDepUnit :=
  (u.addEntry inst.seqNum).checkType inst

def insertBarrier (barrInst : MemInst) : MemDepUnit :=
  let barrSN := barrInst.seqNum
  let u₁ :=
    if barrInst.isMemBarrier then
      { u with
        loadBarrier := true, loadBarrierSN := barrSN, storeBarrier := true,
        storeBarrierSN := barrSN }
    else if barrInst.isWriteBarrier then { u with storeBarrier := true, storeBarrierSN := barrSN }
    else u
  u₁.addEntry barrSN

def regsReady (inst : MemInst) : Result MemDepUnit := do
  let e ← u.findInHash inst.seqNum
  let u₁ := u.modify inst.seqNum ({ · with regsReady := true })
  if e.memDepReady then u₁.moveToReady inst.seqNum else return u₁

def completed : Result MemDepUnit := do
  let _ ← u.findInHash inst.seqNum
  return { u with
    instList := u.instList.erase inst.seqNum
    memDepHash := update u.memDepHash inst.seqNum false }

/-- The body of the loop of `MemDepUnit::wakeDependents`. -/
def wakeDependent (wokenInst : ℕ) : Result MemDepUnit :=
  if (u.entry wokenInst).regsReady && !(u.entry wokenInst).squashed then u.moveToReady wokenInst
  else pure (u.modify wokenInst ({ · with memDepReady := true }))

def wakeDependents : Result MemDepUnit :=
  if !inst.isStore && !inst.isAtomic && !inst.isMemBarrier && !inst.isWriteBarrier then .ok u
  else do
    let e ← u.findInHash inst.seqNum
    let u₁ ← e.dependInsts.foldlM wakeDependent u
    return u₁.modify inst.seqNum ({ · with dependInsts := [] })

def completeBarrier : Result MemDepUnit := do
  let u₁ ← u.wakeDependents inst
  let u₂ ← u₁.completed inst
  let barrSN := inst.seqNum
  if inst.isMemBarrier then
    return { u₂ with
      loadBarrier := u₂.loadBarrier && u₂.loadBarrierSN != barrSN
      storeBarrier := u₂.storeBarrier && u₂.storeBarrierSN != barrSN }
  else if inst.isWriteBarrier then
    return { u₂ with storeBarrier := u₂.storeBarrier && u₂.storeBarrierSN != barrSN }
  else return u₂

/-- One instruction is squashed; its place in the list is left to the loop. -/
def squashInst (n : ℕ) : Result MemDepUnit := do
  let u₁ := { u with
    loadBarrier := u.loadBarrier && u.loadBarrierSN != n
    storeBarrier := u.storeBarrier && u.storeBarrierSN != n }
  let _ ← u₁.findInHash n
  let u₂ := u₁.modify n ({ · with squashed := true })
  return { u₂ with memDepHash := update u₂.memDepHash n false }

/-- The loop of `MemDepUnit::squash`, over the list from its end. -/
def squashLoop (squashedNum : ℕ) : List ℕ → MemDepUnit → Result MemDepUnit
  | [], u => .ok { u with instList := [] }
  | n :: l, u =>
      if n > squashedNum then do
        let u₁ ← u.squashInst n
        squashLoop squashedNum l u₁
      else .ok { u with instList := (n :: l).reverse }

def squash (squashedNum : ℕ) : Result MemDepUnit :=
  squashLoop squashedNum u.instList.reverse u

/-- The memory dependences of an instruction are resolved: it is marked, or on the ready list. -/
def Ready (n : ℕ) : Prop := (u.entry n).memDepReady ∨ n ∈ u.readyMemInsts

end MemDepUnit

/-! ### Calls -/

/-- The calls of the pipeline. -/
inductive MemDepOp where
  | insertBarrier (inst : MemInst)
  | insert (inst : MemInst) (checkInst : ℕ)
  | insertNonSpec (inst : MemInst)
  | regsReady (inst : MemInst)
  | completeBarrier (inst : MemInst)
  | completed (inst : MemInst)
  | wakeDependents (inst : MemInst)
  | squash (squashedNum : ℕ)

/-- The unit, with the barriers that were inserted and have neither completed nor been squashed, and
the latest sequence number. -/
structure MemDepState where
  unit : MemDepUnit
  barriers : List MemInst
  lastSN : ℕ

namespace MemDepState

def init : MemDepState := ⟨.init, [], 0⟩

variable (s : MemDepState)

def call : MemDepOp → Result MemDepState
  | .insertBarrier inst =>
      .ok ⟨s.unit.insertBarrier inst, s.barriers ++ [inst], inst.seqNum⟩
  | .insert inst checkInst => do
      let unit ← s.unit.insert inst checkInst
      return ⟨unit, s.barriers, inst.seqNum⟩
  | .insertNonSpec inst => do
      let unit ← s.unit.insertNonSpec inst
      return ⟨unit, s.barriers, inst.seqNum⟩
  | .regsReady inst => do return { s with unit := ← s.unit.regsReady inst }
  | .completeBarrier inst => do
      let unit ← s.unit.completeBarrier inst
      return ⟨unit, s.barriers.filter (·.seqNum ≠ inst.seqNum), s.lastSN⟩
  | .completed inst => do return { s with unit := ← s.unit.completed inst }
  | .wakeDependents inst => do return { s with unit := ← s.unit.wakeDependents inst }
  | .squash squashedNum => do
      let unit ← s.unit.squash squashedNum
      return ⟨unit, s.barriers.filter (·.seqNum ≤ squashedNum), s.lastSN⟩

/-- Instructions are inserted in program order, with rising sequence numbers; a memory instruction
is just one of a load, a store or an atomic; barriers complete by `completeBarrier`, and only
they. -/
def Legal : MemDepOp → Prop
  | .insertBarrier inst => s.lastSN < inst.seqNum
  | .insert inst _ => s.lastSN < inst.seqNum ∧
      (inst.isStore → inst.isLoad = false ∧ inst.isAtomic = false)
  | .insertNonSpec inst => s.lastSN < inst.seqNum
  | .regsReady _ => True
  | .completeBarrier inst => inst ∈ s.barriers
  | .completed inst | .wakeDependents inst => ∀ b ∈ s.barriers, b.seqNum ≠ inst.seqNum
  | .squash _ => True

/-- Barriers complete in order, and a squash takes all barriers in flight or none. -/
def KeepsOrder : MemDepOp → Prop
  | .completeBarrier inst => ∀ b ∈ s.barriers, inst.seqNum ≤ b.seqNum
  | .squash squashedNum => (∀ b ∈ s.barriers, squashedNum < b.seqNum) ∨
      ∀ b ∈ s.barriers, b.seqNum ≤ squashedNum
  | _ => True

instance (op : MemDepOp) : Decidable (s.Legal op) := by
  cases op <;> dsimp only [Legal] <;> infer_instance

end MemDepState

/-- A barrier that an instruction must wait for if it is older: a memory barrier blocks loads,
atomics and stores, a write barrier only stores. -/
def MemInst.Blocks (b inst : MemInst) : Prop :=
  ((inst.isLoad ∨ inst.isAtomic) ∧ b.isMemBarrier) ∨
    (inst.isStore ∧ (b.isMemBarrier ∨ b.isWriteBarrier))

/-! ### What the calls do to the entries -/

namespace MemDepUnit

section Specs

variable {u u' : MemDepUnit} {inst : MemInst} {n : ℕ}

/-- The unit after an instruction was inserted: there is nothing about the others that was not there
before. -/
structure Inserts (u u' : MemDepUnit) (n : ℕ) : Prop where
  hash : u'.memDepHash = update u.memDepHash n true
  list : u'.instList = u.instList ++ [n]
  depends : ∀ {k m}, m ≠ n →
    (m ∈ (u'.entry k).dependInsts ↔ k ≠ n ∧ m ∈ (u.entry k).dependInsts)
  ready : ∀ {m}, m ≠ n → u'.Ready m → u.Ready m

/-- The flags and numbers of the barriers are the same. -/
def SameBarriers (u u' : MemDepUnit) : Prop :=
  u'.loadBarrier = u.loadBarrier ∧ u'.loadBarrierSN = u.loadBarrierSN ∧
    u'.storeBarrier = u.storeBarrier ∧ u'.storeBarrierSN = u.storeBarrierSN

lemma inserts_addEntry (u : MemDepUnit) (n : ℕ) : Inserts u (u.addEntry n) n where
  hash := rfl
  list := rfl
  depends {k m} hm := by
    by_cases hk : k = n <;> simp [addEntry, hk]
  ready {m} hm h := by simpa [Ready, addEntry, hm] using h

lemma Inserts.modify (h : Inserts u u' n) {k : ℕ} {f : MemDepEntry → MemDepEntry}
    (hdepends : ∀ e m, m ≠ n → (m ∈ (f e).dependInsts ↔ m ∈ e.dependInsts))
    (hready : k ≠ n → ∀ e, (f e).memDepReady = e.memDepReady) :
    Inserts u (u'.modify k f) n where
  hash := h.hash
  list := h.list
  depends {k' m} hm := by
    rw [← h.depends hm]
    by_cases hk : k' = k
    · subst hk
      simp [MemDepUnit.modify, hdepends _ m hm]
    · simp [MemDepUnit.modify, hk]
  ready {m} hm hr := by
    refine h.ready hm ?_
    by_cases hk : m = k
    · subst hk
      simpa [Ready, MemDepUnit.modify, hready hm] using hr
    · simpa [Ready, MemDepUnit.modify, hk] using hr

lemma moveToReady_eq_ok (h : u.moveToReady n = .ok u') :
    u' = { u with readyMemInsts := u.readyMemInsts ++ [n] } := by
  obtain ⟨-, -, h⟩ := bind_eq_ok.1 h
  exact (pure_eq_ok.1 h).symm

lemma Inserts.moveToReady {u1 : MemDepUnit} (h : Inserts u u1 n) (hm : u1.moveToReady n = .ok u') :
    Inserts u u' n := by
  cases moveToReady_eq_ok hm
  refine ⟨h.hash, h.list, h.depends, fun {m} hm hr => h.ready hm ?_⟩
  simpa [Ready, hm] using hr

lemma checkType_eq_ok (h : u.checkType inst = .ok u') : u = u' := by
  rw [checkType] at h
  split_ifs at h <;> cases h <;> rfl

lemma Inserts.addDependent {p : ℕ} (h : Inserts u u' n) (hp : p ≠ n)
    (hnone : ∀ k, n ∉ (u'.entry k).dependInsts) (hready : ¬ u'.Ready n) :
    let u1 := u'.modify p fun e => { e with dependInsts := e.dependInsts ++ [n] }
    Inserts u u1 n ∧ n ∈ (u1.entry p).dependInsts ∧
      (∀ k, n ∈ (u1.entry k).dependInsts → k = p) ∧ ¬ u1.Ready n := by
  refine ⟨h.modify (by simp +contextual) (by simp), by simp [MemDepUnit.modify], ?_, ?_⟩
  · intro k hk
    by_contra hkp
    exact hnone k (by simpa [MemDepUnit.modify, hkp] using hk)
  · simpa [Ready, MemDepUnit.modify, Ne.symm hp] using hready

lemma insert_spec {checkInst : ℕ} (h : u.insert inst checkInst = .ok u')
    (hnone : ∀ k, inst.seqNum ∉ (u.entry k).dependInsts) (hready : inst.seqNum ∉ u.readyMemInsts) :
    Inserts u u' inst.seqNum ∧ SameBarriers u u' ∧
      (u.producingStore inst checkInst ≠ 0 → u.producingStore inst checkInst ≠ inst.seqNum →
        u.memDepHash (u.producingStore inst checkInst) →
        inst.seqNum ∈ (u'.entry (u.producingStore inst checkInst)).dependInsts ∧
        (∀ k, inst.seqNum ∈ (u'.entry k).dependInsts → k = u.producingStore inst checkInst) ∧
        ¬ u'.Ready inst.seqNum) := by
  set n := inst.seqNum with hn
  set p := u.producingStore inst checkInst with hp
  have hadd := inserts_addEntry u n
  have hnone1 : ∀ k, n ∉ ((u.addEntry n).entry k).dependInsts := by
    intro k
    by_cases hk : k = n
    · simp [addEntry, hk]
    · simpa [addEntry, hk] using hnone k
  have hready1 : ¬ (u.addEntry n).Ready n := by simpa [Ready, addEntry] using hready
  obtain ⟨u2, h2, h⟩ := bind_eq_ok.1 h
  cases checkType_eq_ok h
  rw [addDependence, ← hn, ← hp] at h2
  split_ifs at h2 with hfound hregs hregs
  · -- it depends on an entry, and its registers are ready
    cases h2
    have hins := hadd.modify (k := n) (f := ({ · with regsReady := true })) (by simp) (by simp)
    have hnone2 : ∀ k, n ∉ (((u.addEntry n).modify n
        ({ · with regsReady := true })).entry k).dependInsts := by
      intro k
      by_cases hk : k = n
      · simpa [modify, hk] using hnone1 n
      · simpa [modify, hk] using hnone1 k
    have hready2 : ¬ ((u.addEntry n).modify n ({ · with regsReady := true })).Ready n := by
      simpa [Ready, modify] using hready1
    refine ⟨hins.modify (by simp +contextual) (by simp), ⟨rfl, rfl, rfl, rfl⟩, fun _ hne _ => ?_⟩
    exact (hins.addDependent hne hnone2 hready2).2
  · cases h2
    refine ⟨hadd.modify (by simp +contextual) (by simp), ⟨rfl, rfl, rfl, rfl⟩, fun _ hne _ => ?_⟩
    exact (hadd.addDependent hne hnone1 hready1).2
  · have hins := (((hadd.modify (k := n) (f := ({ · with memDepReady := true })) (by simp)
      (by simp)).modify (k := n) (f := ({ · with regsReady := true })) (by simp)
      (by simp)).moveToReady h2)
    cases moveToReady_eq_ok h2
    refine ⟨hins, ⟨rfl, rfl, rfl, rfl⟩, fun h0 hne hhash => absurd ⟨h0, ?_⟩ hfound⟩
    simpa [addEntry, hne] using hhash
  · cases h2
    refine ⟨hadd.modify (by simp) (by simp), ⟨rfl, rfl, rfl, rfl⟩,
      fun h0 hne hhash => absurd ⟨h0, ?_⟩ hfound⟩
    simpa [addEntry, hne] using hhash

lemma insertNonSpec_spec (h : u.insertNonSpec inst = .ok u') :
    Inserts u u' inst.seqNum ∧ SameBarriers u u' := by
  cases checkType_eq_ok h
  exact ⟨inserts_addEntry u _, rfl, rfl, rfl, rfl⟩

lemma insertBarrier_inserts (u : MemDepUnit) (inst : MemInst) :
    Inserts u (u.insertBarrier inst) inst.seqNum := by
  rw [insertBarrier]
  split_ifs
  · exact ⟨rfl, rfl, (inserts_addEntry u _).depends, (inserts_addEntry u _).ready⟩
  · exact ⟨rfl, rfl, (inserts_addEntry u _).depends, (inserts_addEntry u _).ready⟩
  · exact inserts_addEntry u _

/-- The lists of dependent instructions and the marks of the others stay as they are. -/
structure Wakes (u u' : MemDepUnit) (woken : List ℕ) : Prop where
  hash : u'.memDepHash = u.memDepHash
  list : u'.instList = u.instList
  barriers : SameBarriers u u'
  depends : ∀ k, (u'.entry k).dependInsts = (u.entry k).dependInsts
  ready : ∀ m, u'.Ready m → u.Ready m ∨ m ∈ woken

lemma regsReady_wakes (h : u.regsReady inst = .ok u') : Wakes u u' [] := by
  obtain ⟨e, he, h⟩ := bind_eq_ok.1 h
  obtain ⟨-, -, rfl⟩ := bind_pure_eq_ok.1 he
  let u₁ := u.modify inst.seqNum ({ · with regsReady := true })
  have hkeep : ∀ k, (u₁.entry k).dependInsts = (u.entry k).dependInsts ∧
      (u₁.entry k).memDepReady = (u.entry k).memDepReady := by
    intro k
    by_cases hk : k = inst.seqNum <;> simp [u₁, modify, hk]
  split_ifs at h with hready
  · -- it is put on the ready list since it is marked
    cases moveToReady_eq_ok h
    refine ⟨rfl, rfl, ⟨rfl, rfl, rfl, rfl⟩, fun k => (hkeep k).1, fun m hm => .inl ?_⟩
    rcases hm with hm | hm
    · exact .inl ((hkeep m).2.symm.trans hm)
    · rcases mem_append.1 hm with hm | hm
      · exact .inr hm
      · cases mem_singleton.1 hm
        exact .inl hready
  · cases h
    refine ⟨rfl, rfl, ⟨rfl, rfl, rfl, rfl⟩, fun k => (hkeep k).1, fun m hm => .inl ?_⟩
    rcases hm with hm | hm
    · exact .inl ((hkeep m).2.symm.trans hm)
    · exact .inr hm

lemma Wakes.wakeDependent {woken : List ℕ} {u1 : MemDepUnit} (h : Wakes u u1 woken)
    (hw : u1.wakeDependent n = .ok u') : Wakes u u' (woken ++ [n]) := by
  rw [MemDepUnit.wakeDependent] at hw
  split_ifs at hw with hregs
  · cases moveToReady_eq_ok hw
    refine ⟨h.hash, h.list, h.barriers, h.depends, fun m hm => ?_⟩
    rw [mem_append, ← or_assoc]
    rcases hm with hm | hm
    · exact .inl (h.ready m (.inl hm))
    · rcases mem_append.1 hm with hm | hm
      · exact .inl (h.ready m (.inr hm))
      · exact .inr hm
  · cases hw
    refine ⟨h.hash, h.list, h.barriers, fun k => ?_, fun m hm => ?_⟩
    · rw [← h.depends k]
      by_cases hk : k = n <;> simp [modify, hk]
    · rw [mem_append, mem_singleton, ← or_assoc]
      by_cases hmn : m = n
      · exact .inr hmn
      · exact .inl (h.ready m (by simpa [Ready, modify, hmn] using hm))

lemma wakeDependents_spec (h : u.wakeDependents inst = .ok u') :
    u'.memDepHash = u.memDepHash ∧ u'.instList = u.instList ∧ SameBarriers u u' ∧
      (∀ k m, m ∈ (u'.entry k).dependInsts → m ∈ (u.entry k).dependInsts) ∧
      (∀ k, k ≠ inst.seqNum → (u'.entry k).dependInsts = (u.entry k).dependInsts) ∧
      ∀ m, u'.Ready m → u.Ready m ∨ m ∈ (u.entry inst.seqNum).dependInsts := by
  rw [wakeDependents] at h
  split_ifs at h with hkind
  · cases h
    exact ⟨rfl, rfl, ⟨rfl, rfl, rfl, rfl⟩, fun _ _ h => h, fun _ _ => rfl, fun _ h => .inl h⟩
  · obtain ⟨e, he, h⟩ := bind_eq_ok.1 h
    obtain ⟨-, -, rfl⟩ := bind_pure_eq_ok.1 he
    obtain ⟨u1, h1, rfl⟩ := bind_pure_eq_ok.1 h
    have hwakes := foldlM_invariant (P := fun woken u1 => Wakes u u1 woken) h1
      ⟨rfl, rfl, ⟨rfl, rfl, rfl, rfl⟩, fun _ => rfl, fun _ h => .inl h⟩
      fun _ hw hstep => hw.wakeDependent hstep
    refine ⟨hwakes.hash, hwakes.list, hwakes.barriers, fun k m hm => ?_, fun k hk => ?_, ?_⟩
    · by_cases hk : k = inst.seqNum
      · simp [modify, hk] at hm
      · rw [← hwakes.depends k]
        simpa [modify, hk] using hm
    · rw [← hwakes.depends k]
      simp [modify, hk]
    · intro m hm
      refine hwakes.ready m ?_
      by_cases hk : m = inst.seqNum <;> simpa [Ready, modify, hk] using hm

lemma completed_eq_ok (h : u.completed inst = .ok u') : u' = { u with
    instList := u.instList.erase inst.seqNum
    memDepHash := update u.memDepHash inst.seqNum false } := by
  obtain ⟨-, -, h⟩ := bind_eq_ok.1 h
  exact (pure_eq_ok.1 h).symm

/-- The loop of `squash` takes the instructions at the end of the list that are younger. -/
lemma squashLoop_spec {squashedNum : ℕ} {l : List ℕ} (h : squashLoop squashedNum l u = .ok u') :
    u'.instList = (l.dropWhile (· > squashedNum)).reverse ∧
      (∀ k, u'.memDepHash k = (u.memDepHash k && k ∉ l.takeWhile (· > squashedNum))) ∧
      u'.loadBarrierSN = u.loadBarrierSN ∧ u'.storeBarrierSN = u.storeBarrierSN ∧
      u'.loadBarrier =
        (u.loadBarrier && u.loadBarrierSN ∉ l.takeWhile (· > squashedNum)) ∧
      u'.storeBarrier =
        (u.storeBarrier && u.storeBarrierSN ∉ l.takeWhile (· > squashedNum)) ∧
      (∀ k, (u'.entry k).dependInsts = (u.entry k).dependInsts) ∧
      ∀ m, u'.Ready m → u.Ready m := by
  induction l generalizing u with
  | nil =>
    cases h
    simp [Ready]
  | cons n l ih =>
    rw [squashLoop] at h
    split_ifs at h with hn
    · obtain ⟨u1, h1, h⟩ := bind_eq_ok.1 h
      obtain ⟨-, -, rfl⟩ := bind_pure_eq_ok.1 h1
      obtain ⟨hlist, hhash, hlsn, hssn, hl, hs, hdepends, hready⟩ := ih h
      have htake : (n :: l).takeWhile (· > squashedNum) = n :: l.takeWhile (· > squashedNum) :=
        takeWhile_cons_of_pos (by simpa using hn)
      have hdrop : (n :: l).dropWhile (· > squashedNum) = l.dropWhile (· > squashedNum) :=
        dropWhile_cons_of_pos (by simpa using hn)
      rw [htake, hdrop]
      refine ⟨hlist, fun k => ?_, hlsn, hssn, ?_, ?_, fun k => ?_, fun m hm => ?_⟩
      · rw [hhash k]
        by_cases hk : k = n <;> simp [modify, hk]
      · rw [hl]
        simp only [modify, mem_cons, not_or, bne, Bool.decide_and, Bool.and_assoc]
        congr 1
        by_cases heq : u.loadBarrierSN = n <;> simp [heq]
      · rw [hs]
        simp only [modify, mem_cons, not_or, bne, Bool.decide_and, Bool.and_assoc]
        congr 1
        by_cases heq : u.storeBarrierSN = n <;> simp [heq]
      · rw [hdepends k]
        by_cases hk : k = n <;> simp [modify, hk]
      · have := hready m hm
        by_cases hk : m = n <;> simpa [Ready, modify, hk] using this
    · cases h
      have htake : (n :: l).takeWhile (· > squashedNum) = [] :=
        takeWhile_cons_of_neg (by simpa using hn)
      have hdrop : (n :: l).dropWhile (· > squashedNum) = n :: l :=
        dropWhile_cons_of_neg (by simpa using hn)
      rw [htake, hdrop]
      simp [Ready]

lemma takeWhile_dropWhile_of_descending {l : List ℕ} (h : l.Pairwise (· > ·)) (n : ℕ) :
    l.takeWhile (· > n) = l.filter (· > n) ∧ l.dropWhile (· > n) = l.filter (· ≤ n) := by
  induction l with
  | nil => simp
  | cons m l ih =>
    obtain ⟨hm, hl⟩ := pairwise_cons.1 h
    obtain ⟨htake, hdrop⟩ := ih hl
    by_cases hmn : m > n
    · simp [hmn, htake, hdrop]
    · have hle : ∀ k ∈ l, k ≤ n := fun k hk => by
        have := hm k hk
        omega
      have hnone : l.filter (· > n) = [] := filter_eq_nil_iff.2 fun k hk => by
        simpa using hle k hk
      have hall : l.filter (· ≤ n) = l := filter_eq_self.2 fun k hk => by
        simpa using hle k hk
      simp [hmn, hnone, hall, Nat.le_of_not_lt hmn]

lemma squash_spec {squashedNum : ℕ} (h : u.squash squashedNum = .ok u')
    (hsorted : u.instList.Pairwise (· < ·)) :
    u'.instList = u.instList.filter (· ≤ squashedNum) ∧
      (∀ k, u'.memDepHash k ↔
        u.memDepHash k ∧ ¬ (k ∈ u.instList ∧ k > squashedNum)) ∧
      u'.loadBarrierSN = u.loadBarrierSN ∧ u'.storeBarrierSN = u.storeBarrierSN ∧
      (u.loadBarrier → u.loadBarrierSN ≤ squashedNum → u'.loadBarrier) ∧
      (u.storeBarrier → u.storeBarrierSN ≤ squashedNum → u'.storeBarrier) ∧
      (∀ k, (u'.entry k).dependInsts = (u.entry k).dependInsts) ∧
      ∀ m, u'.Ready m → u.Ready m := by
  have hdesc : u.instList.reverse.Pairwise (· > ·) := pairwise_reverse.2 hsorted
  obtain ⟨htake, hdrop⟩ := takeWhile_dropWhile_of_descending hdesc squashedNum
  obtain ⟨hlist, hhash, hlsn, hssn, hl, hs, hdepends, hready⟩ := squashLoop_spec h
  rw [hdrop, filter_reverse, reverse_reverse] at hlist
  refine ⟨hlist, fun k => ?_, hlsn, hssn, fun hflag hle => ?_, fun hflag hle => ?_, hdepends,
    hready⟩
  · rw [hhash k, htake]
    simp only [Bool.and_eq_true, decide_eq_true_eq, mem_filter, mem_reverse]
  · rw [hl, htake, hflag]
    simp [hle.not_gt]
  · rw [hs, htake, hflag]
    simp [hle.not_gt]

end Specs

end MemDepUnit

end ChipletGem5.O3
