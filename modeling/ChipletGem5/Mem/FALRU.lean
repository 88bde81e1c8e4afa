import ChipletGem5.Lib.LinkedList
import ChipletGem5.Lib.Result
import ChipletGem5.Base.AddrRange
import ChipletGem5.Base.IntMath

/-!
# The tags of a fully associative cache

`FALRU` of `mem/cache/tags/fa_lru.cc`: the blocks of the cache are in a doubly linked list, the one
used last in front.  `CacheTracking` counts, besides the hits of the cache itself, those that
smaller caches would have.  Block masks say which of the smaller caches a block would be in, and
each of these caches has a pointer to its last block, its boundary.

Of a block the model has its tag, its flags and its mask, and the links between blocks are apart
from them.  Latencies, data and the other statistics are left out.
-/

namespace ChipletGem5

open Function

namespace FALRU

/-- One bit for each tracked cache size. -/
abbrev CachesMask := BitVec 32

abbrev BlkId := ℕ

/-- `1U << i`. -/
def cacheBit (i : ℕ) : CachesMask := (1 : CachesMask) <<< i

/-- Is the bit of a cache set in a mask? -/
def CachesMask.has (mask : CachesMask) (i : ℕ) : Bool := cacheBit i &&& mask != 0

/-- The parameters of the tags, with the smallest cache for which hits are counted. -/
structure Config where
  size : ℕ
  blkSize : ℕ
  minTrackedSize : ℕ
deriving DecidableEq, Repr

namespace Config

variable (cfg : Config)

def numBlocks : ℕ := cfg.size / cfg.blkSize

def numTrackedCaches : ℕ :=
  if cfg.minTrackedSize < cfg.size then cfg.size.log2 - cfg.minTrackedSize.log2 else 0

def inAllCachesMask : CachesMask := BitVec.ofNat 32 (2 ^ cfg.numTrackedCaches - 1)

/-- `BaseTags::blkAlign`, which is `FALRU::extractTag`. -/
def blkAlign (addr : Addr) : Addr :=
  addr &&& ~~~BitVec.ofNat 64 (cfg.blkSize - 1)

end Config

/-- What the tags use of a `FALRUBlk`, except for the links. -/
structure Blk where
  tag : Addr
  /-- The flag `BlkValid` of the status. -/
  isValid : Bool
  /-- The flag `BlkSecure` of the status. -/
  isSecure : Bool
  inCachesMask : CachesMask
deriving DecidableEq, Repr

def Blk.invalidate (blk : Blk) : Blk :=
  { blk with tag := MaxAddr, isValid := false, isSecure := false }

/-- A tag and its secure bit. -/
abbrev TagHashKey := Addr × Bool

end FALRU

/-- The tags, with the members of `CacheTracking`. -/
structure FALRU where
  cfg : FALRU.Config
  blks : FALRU.BlkId → FALRU.Blk
  links : Links FALRU.BlkId
  tagHash : FALRU.TagHashKey → Option FALRU.BlkId
  boundaries : ℕ → Option FALRU.BlkId
  hits : ℕ → ℕ
  misses : ℕ → ℕ
  accesses : ℕ

namespace FALRU

/-! ### Initialisation -/

variable (s : FALRU)

def setBlk (b : BlkId) (blk : Blk) : FALRU :=
  { s with blks := update s.blks b blk }

def setMask (b : BlkId) (mask : CachesMask) : FALRU :=
  s.setBlk b { s.blks b with inCachesMask := mask }

def setBoundary (i : ℕ) (b : Option BlkId) : FALRU :=
  { s with boundaries := update s.boundaries i b }

/-- The loop of `CacheTracking::init` over the blocks. -/
def initLoop (s : FALRU) (currSize trackedSize : ℕ) (mask : CachesMask) (j : ℕ) :
    List BlkId → FALRU
  | [] => s
  | blk :: l =>
      let s' := s.setMask blk mask
      if currSize + s.cfg.blkSize = trackedSize ∧ blk ≠ s.links.tail then
        initLoop (s'.setBoundary j blk) (currSize + s.cfg.blkSize) (2 * trackedSize)
          (mask &&& ~~~cacheBit j) (j + 1) l
      else initLoop s' (currSize + s.cfg.blkSize) trackedSize mask j l

/-- The links that `FALRU::tagsInit` makes between two or more blocks. -/
def initLinks (numBlocks : ℕ) : Links BlkId where
  head := 0
  tail := numBlocks - 1
  prev := fun i => if i = 0 then none else some (i - 1)
  next := fun i => if i + 1 < numBlocks then some (i + 1) else none

variable (cfg : Config)

/-- `FALRU::tagsInit` with `CacheTracking::init`. -/
def tagsInit : FALRU :=
  let s : FALRU := ⟨cfg, fun _ => ⟨MaxAddr, false, false, 0⟩, initLinks cfg.numBlocks,
    fun _ => none, fun _ => none, fun _ => 0, fun _ => 0, 0⟩
  if cfg.numTrackedCaches = 0 then s
  else s.initLoop 0 cfg.minTrackedSize cfg.inAllCachesMask 0 (List.range cfg.numBlocks)

/-- The constructor of `FALRU`, and `tagsInit`. -/
def create : Result FALRU := do
  require (!decide (cfg.minTrackedSize < cfg.size) || cfg.minTrackedSize != 0)
    (.assertion "x > 0")
  require (decide (cfg.numTrackedCaches ≤ 32))
    (.fatal "Not enough bits (%s) in type CachesMask type to keep track of %d caches\n")
  require (isPowerOf2 cfg.blkSize)
    (.fatal "cache block size (in bytes) `%d' must be a power of two")
  require (isPowerOf2 cfg.size) (.fatal "Cache Size must be power of 2 for now")
  return tagsInit cfg

/-! ### Moving blocks -/

/-- One round of the loop of `CacheTracking::moveBlockToHead`. -/
def trackToHead (updateCachesMask : CachesMask) (blk : BlkId) (i : ℕ) : Result FALRU :=
  if updateCachesMask.has i then do
    let b ← getOrError (s.boundaries i) (.undefined "boundaries[i]->inCachesMask")
    return (s.setMask b ((s.blks b).inCachesMask &&& ~~~cacheBit i)).setBoundary i (s.links.prev b)
  else if s.boundaries i = some blk then return s.setBoundary i (s.links.prev blk)
  else return s

/-- The loops over the caches. -/
def forCaches (f : FALRU → ℕ → Result FALRU) : FALRU → List ℕ → Result FALRU
  | s, [] => return s
  | s, i :: is => do
      let s' ← f s i
      forCaches f s' is

def moveBlockToHead (blk : BlkId) : Result FALRU := do
  let mask := s.cfg.inAllCachesMask ^^^ (s.blks blk).inCachesMask
  let s' ← forCaches (fun s i => s.trackToHead mask blk i) s (List.range s.cfg.numTrackedCaches)
  return s'.setMask blk s.cfg.inAllCachesMask

/-- One round of the loop of `CacheTracking::moveBlockToTail`. -/
def trackToTail (updateCachesMask : CachesMask) (blk : BlkId) (i : ℕ) : Result FALRU :=
  if updateCachesMask.has i then do
    let b ← getOrError (s.boundaries i) (.undefined "boundaries[i]->next")
    let next := if s.links.next b = some blk then s.links.next blk else s.links.next b
    let b' ← getOrError next (.undefined "boundaries[i]->inCachesMask")
    return (s.setMask b' ((s.blks b').inCachesMask ||| cacheBit i)).setBoundary i b'
  else return s

def moveBlockToTail (blk : BlkId) : Result FALRU := do
  let mask := (s.blks blk).inCachesMask
  let s' ← forCaches (fun s i => s.trackToTail mask blk i) s (List.range s.cfg.numTrackedCaches)
  return s'.setMask blk 0

/-- `FALRU::moveToHead`.  The block is not the first one when it is taken out of the list. -/
def moveToHead (blk : BlkId) : Result FALRU :=
  if blk ≠ s.links.head then do
    let s' ← s.moveBlockToHead blk
    require (blk != s'.links.tail || (s'.links.next blk).isNone)
      (.assertion "blk->next == nullptr")
    let k ← getOrError (s'.links.unlink blk) (.undefined "blk->prev->next")
    return { s' with links := k.pushFront blk }
  else return s

/-- `FALRU::moveToTail`.  The block is not the last one when it is taken out of the list. -/
def moveToTail (blk : BlkId) : Result FALRU :=
  if blk ≠ s.links.tail then do
    let s' ← s.moveBlockToTail blk
    require (blk != s'.links.head || (s'.links.prev blk).isNone)
      (.assertion "blk->prev == nullptr")
    let k ← getOrError (s'.links.unlink blk) (.undefined "blk->next->prev")
    return { s' with links := k.pushBack blk }
  else return s

/-! ### Accesses -/

def findBlock (addr : Addr) (isSecure : Bool) : Result (Option BlkId) :=
  match s.tagHash (s.cfg.blkAlign addr, isSecure) with
  | none => return none
  | some blk =>
      if (s.blks blk).isValid then do
        require ((s.blks blk).tag == s.cfg.blkAlign addr) (.assertion "blk->tag == tag")
        require ((s.blks blk).isSecure == isSecure) (.assertion "blk->isSecure() == is_secure")
        return some blk
      else return some blk

/-- Does `recordAccess` count a hit for a cache, where the last number is that of the cache
itself? -/
def counts (blk : Option BlkId) (i : ℕ) : Bool :=
  match blk with
  | none => false
  | some b =>
      if i < s.cfg.numTrackedCaches then (s.blks b).inCachesMask.has i else (s.blks b).isValid

def recordAccess (blk : Option BlkId) : FALRU :=
  { s with
    hits := fun i =>
      if i ≤ s.cfg.numTrackedCaches ∧ s.counts blk i then s.hits i + 1 else s.hits i
    misses := fun i =>
      if i ≤ s.cfg.numTrackedCaches ∧ s.counts blk i = false then s.misses i + 1 else s.misses i
    accesses := s.accesses + 1 }

/-- `FALRU::accessBlock`, which returns the block and the mask that it had before. -/
def accessBlock (addr : Addr) (isSecure : Bool) : Result (FALRU × Option BlkId × CachesMask) := do
  let blk ← s.findBlock addr isSecure
  match blk with
  | none => return (s.recordAccess none, none, 0)
  | some b =>
      if (s.blks b).isValid then do
        let s' ← s.moveToHead b
        return (s'.recordAccess (some b), some b, (s.blks b).inCachesMask)
      else return (s.recordAccess (some b), some b, 0)

def invalidate (s : FALRU) (blk : BlkId) : Result FALRU := do
  let key := ((s.blks blk).tag, (s.blks blk).isSecure)
  require (s.tagHash key).isSome (.assertion "num_erased == 1")
  require (s.blks blk).isValid (.assertion "blk->isValid()")
  moveToTail { s.setBlk blk (s.blks blk).invalidate with
    tagHash := update s.tagHash key none } blk

def findVictim : BlkId := s.links.tail

def insertBlock (addr : Addr) (isSecure : Bool) (blk : BlkId) : Result FALRU := do
  require ((s.blks blk).inCachesMask == 0) (.assertion "falruBlk->inCachesMask == 0")
  require (!(s.blks blk).isValid) (.assertion "!blk->isValid()")
  require (!(s.blks blk).isSecure) (.assertion "status == 0")
  let tag := s.cfg.blkAlign addr
  let s' ← (s.setBlk blk { s.blks blk with tag, isSecure, isValid := true }).moveToHead blk
  return { s' with tagHash := update s'.tagHash (tag, isSecure) (some blk) }

/-- An access, and what the cache does for a miss: it evicts the block that `findVictim` returns,
if that one is valid, and puts the missing block in its place.  Returns the mask of the access as
well. -/
def access (addr : Addr) (isSecure : Bool) : Result (FALRU × CachesMask) := do
  let r ← s.accessBlock addr isSecure
  match r.2.1 with
  | some _ => return (r.1, r.2.2)
  | none => do
      let victim := r.1.findVictim
      let s' ← (if (r.1.blks victim).isValid then r.1.invalidate victim else pure r.1)
      let s'' ← s'.insertBlock addr isSecure victim
      return (s'', r.2.2)

def runFrom (s : FALRU) : List (Addr × Bool) → Result FALRU
  | [] => return s
  | a :: accs => do
      let r ← s.access a.1 a.2
      r.1.runFrom accs

/-- A sequence of accesses to new tags. -/
def run (accs : List (Addr × Bool)) : Result FALRU := do
  let s ← create cfg
  s.runFrom accs

end FALRU

end ChipletGem5
