import ChipletGem5.Lib.Exec
import ChipletGem5.Lib.Result

/-!
# Renaming of registers

The rename stage of the out-of-order processor gives every destination register of an instruction a
free physical register.  This file has the free lists (cpu/o3/free_list.hh), the rename maps
(cpu/o3/rename_map.cc) and the functions of the stage that move registers between them
(cpu/o3/rename_impl.hh), with a lemma for each that says what it does; `RenameHistory` has what
holds in every run.
-/

namespace ChipletGem5.O3

open Function

/-! ### Registers -/

inductive RegClass
  | int
  | float
  | vec
  | vecElem
  | vecPred
  | cc
  | misc
deriving DecidableEq

/-- Vector registers are renamed as a whole, or element by element. -/
inductive VecMode
  | full
  | elem
deriving DecidableEq

/-- An architectural register. -/
structure RegId where
  regClass : RegClass
  regIdx : ℕ
  elemIdx : ℕ
  numPinnedWrites : ℤ
deriving DecidableEq

/-- A physical register, by its place among those of its class. -/
structure PhysRegId where
  regClass : RegClass
  idx : ℕ
deriving DecidableEq

/-- The numbers of registers of the instruction set and of the processor, with what the constructor
of the processor checks. -/
structure RenameConfig where
  numIntRegs : ℕ
  numFloatRegs : ℕ
  numVecRegs : ℕ
  numVecElemPerVecReg : ℕ
  numVecPredRegs : ℕ
  numCCRegs : ℕ
  zeroReg : ℕ
  vecMode : VecMode
  numThreads : ℕ
  numPhysIntRegs : ℕ
  numPhysFloatRegs : ℕ
  numPhysVecRegs : ℕ
  numPhysVecPredRegs : ℕ
  numPhysCCRegs : ℕ
  int_enough : numThreads * numIntRegs ≤ numPhysIntRegs
  float_enough : numThreads * numFloatRegs ≤ numPhysFloatRegs
  vec_enough : numThreads * numVecRegs ≤ numPhysVecRegs
  vecPred_enough : numThreads * numVecPredRegs ≤ numPhysVecPredRegs
  cc_enough : numThreads * numCCRegs ≤ numPhysCCRegs

namespace RenameConfig

variable (cfg : RenameConfig)

/-- The sizes of the rename maps of one thread. -/
def numRegs : RegClass → ℕ
  | .int => cfg.numIntRegs
  | .float => cfg.numFloatRegs
  | .vec => cfg.numVecRegs
  | .vecElem => cfg.numVecRegs * cfg.numVecElemPerVecReg
  | .vecPred => cfg.numVecPredRegs
  | .cc => cfg.numCCRegs
  | .misc => 0

/-- The numbers of physical registers. -/
def numPhysRegs : RegClass → ℕ
  | .int => cfg.numPhysIntRegs
  | .float => cfg.numPhysFloatRegs
  | .vec => cfg.numPhysVecRegs
  | .vecElem => cfg.numPhysVecRegs * cfg.numVecElemPerVecReg
  | .vecPred => cfg.numPhysVecPredRegs
  | .cc => cfg.numPhysCCRegs
  | .misc => 0

/-- The classes whose registers are renamed in the mode of the processor. -/
def renames : RegClass → Bool
  | .vec => cfg.vecMode == .full
  | .vecElem => cfg.vecMode == .elem
  | .misc => false
  | _ => true

/-- The physical registers that are there to be renamed to. -/
def IsPhysReg (p : PhysRegId) : Prop :=
  cfg.renames p.regClass ∧ p.idx < cfg.numPhysRegs p.regClass

instance (p : PhysRegId) : Decidable (cfg.IsPhysReg p) := by
  unfold IsPhysReg
  infer_instance

/-- `PhysRegFile::initFreeList`, for one class. -/
def initFreeList (c : RegClass) : List PhysRegId :=
  if cfg.renames c then (List.range (cfg.numPhysRegs c)).map (PhysRegId.mk c) else []

def flatIndex (r : RegId) : ℕ :=
  match r.regClass with
  | .vecElem => cfg.numVecElemPerVecReg * r.regIdx + r.elemIdx
  | _ => r.regIdx

/-- `RegId::isZeroReg`, of a physical register. -/
def isZeroReg (p : PhysRegId) : Bool := p.regClass == .int && p.idx == cfg.zeroReg

end RenameConfig

/-! ### The state of the stage -/

/-- The rename map of a thread: for each class, the physical registers of its registers.  A map of a
class that is not renamed holds null pointers in the source and is empty here. -/
abbrev RenameMap := RegClass → List PhysRegId

/-- `SimpleRenameMap::setEntry`, in the map of the register's class. -/
def RenameMap.set (cfg : RenameConfig) (m : RenameMap) (r : RegId) (p : PhysRegId) : RenameMap :=
  update m r.regClass ((m r.regClass).set (cfg.flatIndex r) p)

/-- An entry of the history buffer. -/
structure RegHistory where
  instSeqNum : ℕ
  archReg : RegId
  newPhysReg : PhysRegId
  prevPhysReg : PhysRegId
deriving DecidableEq

/-- What the stage reads of an instruction: its destination registers are those after
`flattenRegId`. -/
structure RenameInst where
  seqNum : ℕ
  destRegs : List RegId

/-- The number of destination registers of a class. -/
def RenameInst.numDestRegs (inst : RenameInst) (c : RegClass) : ℕ :=
  inst.destRegs.countP (·.regClass = c)

/-- The free lists, which all threads share, and the rename maps and history buffers of the threads,
with the latest entry first. -/
structure RenameState (cfg : RenameConfig) where
  freeList : RegClass → List PhysRegId
  renameMap : Fin cfg.numThreads → RenameMap
  historyBuffer : Fin cfg.numThreads → List RegHistory
  numPinnedWrites : PhysRegId → ℤ

namespace RenameState

variable {cfg : RenameConfig} (s : RenameState cfg) (tid : Fin cfg.numThreads)

/-- The constructor of the processor: one thread after the other takes the registers of each class
from the front of the free list, in the order of its architectural registers. -/
def init (cfg : RenameConfig) : RenameState cfg where
  freeList c := (cfg.initFreeList c).drop (cfg.numThreads * cfg.numRegs c)
  renameMap tid c := ((cfg.initFreeList c).drop (tid * cfg.numRegs c)).take (cfg.numRegs c)
  historyBuffer _ := []
  numPinnedWrites _ := 0

def getReg (c : RegClass) : Result (PhysRegId × RenameState cfg) :=
  match s.freeList c with
  | [] => .error (.assertion "!freeRegs.empty()")
  | p :: ps => .ok (p, { s with freeList := update s.freeList c ps })

def addReg (p : PhysRegId) : Result (RenameState cfg) :=
  match p.regClass with
  | .misc => .error (.panic "Unexpected RegClass (%s)")
  | c => .ok { s with freeList := update s.freeList c (s.freeList c ++ [p]) }

/-- Change an entry of a thread's rename map. -/
def setMap (r : RegId) (p : PhysRegId) : RenameState cfg :=
  { s with renameMap := update s.renameMap tid ((s.renameMap tid).set cfg r p) }

def setEntry (r : RegId) (p : PhysRegId) : Result (RenameState cfg) :=
  match r.regClass with
  | .misc => do
      require (p = ⟨.misc, cfg.flatIndex r⟩) (.assertion "phys_reg == lookup(arch_reg)")
      pure s
  | c => do
      require (p.regClass = c) (.assertion "phys_reg->classValue() == arch_reg.classValue()")
      require (cfg.renames c) (.assertion "vecMode")
      pure (s.setMap tid r p)

/-- `SimpleRenameMap::rename`: the register's new and its previous physical register. -/
def renameSimple (r : RegId) : Result ((PhysRegId × PhysRegId) × RenameState cfg) := do
  let prev ← getOrError (s.renameMap tid r.regClass)[cfg.flatIndex r]?
    (.undefined "map[arch_reg.flatIndex()]")
  -- the zero register of every map is an integer register
  if r.regClass = .int ∧ r.regIdx = cfg.zeroReg then
    require (cfg.isZeroReg prev) (.assertion "prev_reg->isZeroReg()")
    pure ((prev, prev), s)
  else if 0 < s.numPinnedWrites prev then
    require (r.numPinnedWrites = 0) (.assertion "arch_reg.getNumPinnedWrites() == 0")
    pure ((prev, prev), { s with
      numPinnedWrites := update s.numPinnedWrites prev (s.numPinnedWrites prev - 1) })
  else
    let (renamed, s₁) ← s.getReg r.regClass
    let s₂ := s₁.setMap tid r renamed
    pure ((renamed, prev), { s₂ with
      numPinnedWrites := update s₂.numPinnedWrites renamed r.numPinnedWrites })

def rename (r : RegId) : Result ((PhysRegId × PhysRegId) × RenameState cfg) :=
  match r.regClass with
  | .misc => pure ((⟨.misc, cfg.flatIndex r⟩, ⟨.misc, cfg.flatIndex r⟩), s)
  | c => do
      require (cfg.renames c) (.assertion "vecMode")
      s.renameSimple tid r

def pushHistory (e : RegHistory) : RenameState cfg :=
  { s with historyBuffer := update s.historyBuffer tid (e :: s.historyBuffer tid) }

/-- The body of the loop of `DefaultRename::renameDestRegs`. -/
def renameDestReg (seqNum : ℕ) (s : RenameState cfg) (r : RegId) : Result (RenameState cfg) := do
  let ((new, prev), s') ← s.rename tid r
  pure (s'.pushHistory tid ⟨seqNum, r, new, prev⟩)

def renameDestRegs (inst : RenameInst) : Result (RenameState cfg) :=
  inst.destRegs.foldlM (renameDestReg tid inst.seqNum) s

/-- `UnifiedRenameMap::canRename`, with the numbers of destination registers of an instruction. -/
def canRename (inst : RenameInst) : Bool :=
  inst.numDestRegs .int ≤ (s.freeList .int).length &&
  inst.numDestRegs .float ≤ (s.freeList .float).length &&
  inst.numDestRegs .vec ≤ (s.freeList .vec).length &&
  inst.numDestRegs .vecElem ≤ (s.freeList .vecElem).length &&
  inst.numDestRegs .vecPred ≤ (s.freeList .vecPred).length &&
  inst.numDestRegs .cc ≤ (s.freeList .cc).length

/-- The body of the loop of `DefaultRename::doSquash`: undo a renaming that was a change. -/
def undo (e : RegHistory) : Result (RenameState cfg) :=
  if e.newPhysReg ≠ e.prevPhysReg then do
    let s₁ ← s.setEntry tid e.archReg e.prevPhysReg
    s₁.addReg e.newPhysReg
  else pure s

/-- Put another list in the place of the history buffer. -/
def setHistory (es : List RegHistory) : RenameState cfg :=
  { s with historyBuffer := update s.historyBuffer tid es }

/-- The loop of `DefaultRename::doSquash`, on what is left of the history buffer. -/
def squashLoop (n : ℕ) : List RegHistory → RenameState cfg → Result (RenameState cfg)
  | [], s => pure s
  | e :: es, s =>
      if n < e.instSeqNum then do
        let s₁ ← s.undo tid e
        squashLoop n es (s₁.setHistory tid es)
      else pure s

def doSquash (n : ℕ) : Result (RenameState cfg) :=
  squashLoop tid n (s.historyBuffer tid) s

/-- The body of the loop of `DefaultRename::removeFromHistory`: free the previous register of a
renaming that was a change. -/
def freePrev (e : RegHistory) : Result (RenameState cfg) :=
  if e.newPhysReg ≠ e.prevPhysReg then s.addReg e.prevPhysReg else pure s

/-- The loop of `DefaultRename::removeFromHistory`, which goes through the history buffer from its
end. -/
def commitLoop (n : ℕ) : List RegHistory → RenameState cfg → Result (RenameState cfg)
  | [], s => pure s
  | e :: es, s =>
      if e.instSeqNum ≤ n then do
        let s₁ ← s.freePrev e
        commitLoop n es (s₁.setHistory tid es.reverse)
      else pure s

def removeFromHistory (n : ℕ) : Result (RenameState cfg) :=
  commitLoop tid n (s.historyBuffer tid).reverse s

/-! ### What the functions do -/

variable {s tid} {s' : RenameState cfg} {r : RegId} {e : RegHistory} {p new prev : PhysRegId}

lemma addReg_of_renames (hp : cfg.renames p.regClass) :
    s.addReg p = .ok { s with
      freeList := update s.freeList p.regClass (s.freeList p.regClass ++ [p]) } := by
  unfold addReg
  split
  next hc => simp [hc, RenameConfig.renames] at hp
  next => rfl

lemma setEntry_of_renames (hr : cfg.renames r.regClass) (hp : p.regClass = r.regClass) :
    s.setEntry tid r p = .ok (s.setMap tid r p) := by
  unfold setEntry
  split
  next hc => simp [hc, RenameConfig.renames] at hr
  next => simp [hp, hr, require]

lemma rename_cases (h : s.rename tid r = .ok ((new, prev), s')) :
    s'.historyBuffer = s.historyBuffer ∧
    ((new = prev ∧ s'.freeList = s.freeList ∧ s'.renameMap = s.renameMap) ∨
      ∃ rest, cfg.renames r.regClass ∧ s.freeList r.regClass = new :: rest ∧
        (s.renameMap tid r.regClass)[cfg.flatIndex r]? = some prev ∧
        s'.freeList = update s.freeList r.regClass rest ∧
        s'.renameMap = update s.renameMap tid ((s.renameMap tid).set cfg r new)) := by
  unfold rename at h
  split at h
  · -- a miscellaneous register
    cases h
    exact ⟨rfl, .inl ⟨rfl, rfl, rfl⟩⟩
  · obtain ⟨_, hreq, h⟩ := bind_eq_ok.1 h
    have hren : cfg.renames r.regClass := require_eq_ok.1 hreq
    obtain ⟨q, hq, h⟩ := bind_eq_ok.1 h
    rw [getOrError_eq_ok] at hq
    split_ifs at h with hzero hpin
    · obtain ⟨_, _, h⟩ := bind_eq_ok.1 h
      cases h
      exact ⟨rfl, .inl ⟨rfl, rfl, rfl⟩⟩
    · obtain ⟨_, _, h⟩ := bind_eq_ok.1 h
      cases h
      exact ⟨rfl, .inl ⟨rfl, rfl, rfl⟩⟩
    · obtain ⟨_, hget, h⟩ := bind_eq_ok.1 h
      cases h
      unfold getReg at hget
      split at hget
      · cases hget
      next rest hfree =>
        obtain ⟨rfl, rfl⟩ := by simpa only [Except.ok.injEq, Prod.mk.injEq] using hget
        exact ⟨rfl, .inr ⟨rest, hren, hfree, hq, rfl, rfl⟩⟩

lemma rename_eq_error (h : s.rename tid r = .error (.assertion "!freeRegs.empty()")) :
    cfg.renames r.regClass ∧ s.freeList r.regClass = [] := by
  unfold rename at h
  split at h
  · cases h
  · rcases bind_eq_error.1 h with h | ⟨_, hreq, h⟩
    · simp [require_eq_error] at h
    have hren : cfg.renames r.regClass := require_eq_ok.1 hreq
    refine ⟨hren, ?_⟩
    rcases bind_eq_error.1 h with h | ⟨q, hq, h⟩
    · unfold getOrError at h
      split at h <;> simp at h
    split_ifs at h with hzero hpin
    · rcases bind_eq_error.1 h with h | ⟨_, _, h⟩
      · simp [require_eq_error] at h
      · cases h
    · rcases bind_eq_error.1 h with h | ⟨_, _, h⟩
      · simp [require_eq_error] at h
      · cases h
    · rcases bind_eq_error.1 h with h | ⟨_, _, h⟩
      · unfold getReg at h
        split at h
        next hfree => exact hfree
        next => cases h
      · cases h

end RenameState

/-- What rename and commit do. -/
inductive RenameOp (cfg : RenameConfig)
  | renameDestRegs (inst : RenameInst) (tid : Fin cfg.numThreads)
  | doSquash (n : ℕ) (tid : Fin cfg.numThreads)
  | removeFromHistory (n : ℕ) (tid : Fin cfg.numThreads)

namespace RenameState

variable {cfg : RenameConfig} (s : RenameState cfg)

def step : RenameOp cfg → Result (RenameState cfg)
  | .renameDestRegs inst tid => s.renameDestRegs tid inst
  | .doSquash n tid => s.doSquash tid n
  | .removeFromHistory n tid => s.removeFromHistory tid n

/-- The stage renames an instruction only when there are enough registers for it. -/
def Permitted : RenameOp cfg → Prop
  | .renameDestRegs inst _ => s.canRename inst
  | _ => True

instance (op : RenameOp cfg) : Decidable (s.Permitted op) := by
  cases op <;> unfold Permitted <;> infer_instance

end RenameState

end ChipletGem5.O3
