import ChipletGem5.Ruby.MIExample

/-!
# The invariant of `MI_example`

At every moment a line is in one of a few phases, which say where its value is.

* `idle`: the memory has the value, and no cache takes part.
* `fetch c`: the memory is read for the cache `c`.
* `owned pre o`: the value is with the caches.  The directory has forwarded the request of each
  cache of the list `pre ++ [o]` to the cache before it, and `o` is its owner.  The first cache of
  the list has the value, or the value is on its way to it; each of the others waits for the one
  before it.
* `back c`: the value is written back to the memory for the cache `c`.
* `dma`: the memory works for a DMA request.

A DMA request that finds the line owned blocks the directory until the owner has written the line
back; the phases `owned` and `back` carry that request.  What a cache may look like depends on its
`Role` in the phase and is listed by `CacheOK`.
-/

namespace ChipletGem5.MIExample

open Lines

variable {C D : Type} {n : ℕ}

/-! ### Messages -/

def getx (c : C) : Msg C D n := .request { type := .GETX, requestor := .l1Cache c }

def putx (c : C) (b : Block n) : Msg C D n :=
  .request { type := .PUTX, requestor := .l1Cache c, dataBlk := b }

def wbAck (c : C) : Msg C D n := .request { type := .WB_ACK, requestor := .l1Cache c }

def wbNack (c : C) : Msg C D n := .request { type := .WB_NACK, requestor := .l1Cache c }

def inv : Msg C D n := .request { type := .INV, requestor := .directory }

def data (src : MachineID C D) (b : Block n) : Msg C D n := .response ⟨.DATA, src, b⟩

def memRead (who : MachineID C D) (b : Block n) : Msg C D n :=
  .memory { type := .MEMORY_READ, machine := who, dataBlk := b }

def memAck (who : MachineID C D) : Msg C D n := .memory { type := .MEMORY_WB, machine := who }

def memWrite (who : MachineID C D) (b : Block n) (len : ℕ) : Msg C D n :=
  .memory ⟨.MEMORY_WB, who, b, len⟩

/-- A DMA request for the line. -/
structure Job (D : Type) (n : ℕ) where
  d : D
  write : Bool
  offset : ℕ
  dataBlk : Block n
  len : ℕ
  len_le : reqSize n len ≤ n

def Job.msg (j : Job D n) : DMARequestMsg C D n :=
  ⟨if j.write then .WRITE else .READ, j.offset, .dma j.d, j.dataBlk, j.len⟩

/-! ### Phases -/

/-- Who holds the block, and who waits for it. -/
inductive Phase (C D : Type) (n : ℕ) where
  | idle
  | fetch (c : C)
  | owned (pre : List C) (o : C) (job : Option (Job D n))
  | back (c : C) (job : Option (Job D n))
  | dma (j : Job D n)

/-- How a cache takes part in a phase. -/
inductive Role (C : Type) where
  /-- Not at all; if the phase is `strict`, it has no writeback under way either. -/
  | none (strict : Bool)
  | fetch
  /-- In the list of an owned line: whether the value is there, the cache that is next, and
  whether the directory waits for it. -/
  | chain (holds : Bool) (succ : Option C) (blocked : Bool)
  | back

namespace Phase

def state : Phase C D n → DirState
  | idle => .I
  | fetch _ => .IM
  | owned _ _ none => .M
  | owned _ _ (some j) => if j.write then .M_DWR else .M_DRD
  | back _ none => .MI
  | back _ (some j) => if j.write then .M_DWRI else .M_DRDI
  | dma j => if j.write then .ID_W else .ID

def owner : Phase C D n → List (MachineID C D)
  | fetch c => [.l1Cache c]
  | owned _ o _ => [.l1Cache o]
  | _ => []

/-- The directory is blocked by a DMA request. -/
def blocked : Phase C D n → Bool
  | owned _ _ (some _) | back _ (some _) => true
  | _ => false

/-- A DMA write is on its way to the memory. -/
def writes : Phase C D n → Bool
  | back _ (some j) | dma j => j.write
  | _ => false

/-- The DMA request of a controller is with the directory: whether it is a write. -/
def serving [DecidableEq D] (p : Phase C D n) (d : D) : Option Bool :=
  match p with
  | owned _ _ (some j) | dma j => if j.d = d then some j.write else none
  | back _ (some j) => if j.d = d ∧ j.write then some true else none
  | _ => none

/-- The role of a cache in the list of an owned line. -/
def chainRole [DecidableEq C] (strict blocked : Bool) : Bool → List C → C → C → Role C
  | holds, [], o, c => if c = o then .chain holds none blocked else .none strict
  | holds, x :: pre, o, c =>
      if c = x then .chain holds (some (pre.headD o)) false
      else chainRole strict blocked false pre o c

def role [DecidableEq C] (strict : Bool) (p : Phase C D n) (c : C) : Role C :=
  match p with
  | idle | dma _ => .none false
  | fetch x => if c = x then .fetch else .none false
  | owned pre o job => chainRole (strict && job.isSome) job.isSome true pre o c
  | back x job => if c = x then .back else .none (strict && job.isSome)

/-- The caches of an owned line are distinct; if the phase is strict, the directory blocks for a
DMA request only if the owner is the only one. -/
def Proper (strict : Bool) : Phase C D n → Prop
  | owned pre o job => (pre ++ [o]).Nodup ∧ (strict → job.isSome → pre = [])
  | _ => True

end Phase

/-! ### The directory and the memory -/

/-- The memory is read: it has the value, and the request or the answer is under way. -/
def Reading (v : Block n) (who : MachineID C D) (mem : Block n)
    (reqs answers : List (Msg C D n)) : Prop :=
  mem = v ∧ (reqs = [memRead who 0] ∧ answers = [] ∨ reqs = [] ∧ answers = [memRead who v])

/-- The memory is written: it has the value, or will have it after the request. -/
def Writing (v : Block n) (who : MachineID C D) (mem : Block n)
    (reqs answers : List (Msg C D n)) : Prop :=
  (∃ b len, reqs = [memWrite who b len] ∧ answers = [] ∧ reqSize n len ≤ n ∧
    written mem b (reqSize n len) = v) ∨
  reqs = [] ∧ answers = [memAck who] ∧ mem = v

/-- The memory and its queues in a phase. -/
def MemoryOK (v : Block n) (p : Phase C D n) (mem : Block n)
    (reqs answers : List (Msg C D n)) : Prop :=
  match p with
  | .idle => mem = v ∧ reqs = [] ∧ answers = []
  | .owned _ _ _ => reqs = [] ∧ answers = []
  | .fetch c => Reading v (.l1Cache c) mem reqs answers
  | .back c _ => Writing v (.l1Cache c) mem reqs answers
  | .dma j =>
      if j.write then Writing v (.dma j.d) mem reqs answers
      else Reading v (.dma j.d) mem reqs answers

/-- The TBE of the directory in a phase. -/
def TBEOK (p : Phase C D n) (tbe : Option (DirTBE C D n)) : Prop :=
  match p with
  | .idle | .owned _ _ none => tbe = none
  | .fetch _ | .back _ none => ∃ t, tbe = some t ∧ t.state = p.state
  | .owned _ _ (some j) | .back _ (some j) =>
      tbe = some ⟨p.state, j.dataBlk, j.offset, j.len, some (.dma j.d)⟩
  | .dma j => ∃ t, tbe = some t ∧ t.state = p.state ∧ t.dmaRequestor = some (.dma j.d)

/-! ### The caches -/

/-- The request in the mandatory queue is the first one of the sequencer. -/
def Queued (l : L1Line n) : Prop :=
  l.requests = [] ∧ l.mandatory = [] ∨
    ∃ r rs, l.requests = r :: rs ∧ l.mandatory = [r.secondType]

/-- The state in which a cache waits for the data of a request. -/
def Request.waitState : Request n → CacheState
  | .store _ => .IM
  | _ => .IS

/-- The cache neither has nor wants the line. -/
structure Absent (l : L1Line n) : Prop where
  tbe : l.tbe = none
  entry : ∀ e, l.entry = some e → e.state = .I
  queued : Queued l

/-- The line is requested. -/
structure Waiting (l : L1Line n) : Prop where
  request : ∃ r rs, l.requests = r :: rs ∧ (∃ t, l.tbe = some ⟨r.waitState, t⟩) ∧
    ∃ e, l.entry = some ⟨r.waitState, e⟩
  mandatory : l.mandatory = []

/-- The line is present, with a value. -/
structure Present (v : Block n) (l : L1Line n) : Prop where
  tbe : l.tbe = none
  entry : l.entry = some ⟨.M, v⟩
  queued : Queued l

/-- The line is on its way out. -/
structure Leaving (st : CacheState) (v : Block n) (l : L1Line n) : Prop where
  tbe : l.tbe = some ⟨st, v⟩
  entry : l.entry = none
  queued : Queued l

/-- A line in a cache, and the channels of the cache. -/
structure View (C D : Type) (n : ℕ) where
  line : L1Line n
  request : List (Msg C D n)
  forward : List (Msg C D n)
  response : MachineID C D → List (Msg C D n)

def view (s : MILine C D n) (c : C) : View C D n :=
  ⟨s.loc.l1 c, s.chan (.request c), s.chan (.forward c), fun src => s.chan (.response src c)⟩

/-- No response is under way. -/
def silent : MachineID C D → List (Msg C D n) := fun _ => []

/-- What the directory has sent to a cache in the list of an owned line. -/
def asked (succ : Option C) (blocked : Bool) : List (Msg C D n) :=
  match succ with
  | some d => [getx d]
  | none => if blocked then [inv] else []

/-- What a cache and its channels may look like, for its role and the value of the line. -/
inductive CacheOK [DecidableEq C] [DecidableEq D] (c : C) (v : Block n) (w : View C D n) :
    Role C → Prop
  | absent {strict} (hl : Absent w.line) (hq : w.request = []) (hf : w.forward = [])
      (hr : w.response = silent) : CacheOK c v w (.none strict)
  /-- A request is on its way to the directory. -/
  | requested {strict} (hl : Waiting w.line) (hq : w.request = [getx c]) (hf : w.forward = [])
      (hr : w.response = silent) : CacheOK c v w (.none strict)
  /-- The value was given away, and the writeback has yet to be refused. -/
  | refused {b b'} (hl : Leaving .II b w.line) (hq : w.request = [putx c b'])
      (hf : w.forward = []) (hr : w.response = silent) : CacheOK c v w (.none false)
  | nacked {strict b} (hl : Leaving .II b w.line) (hq : w.request = [])
      (hf : w.forward = [wbNack c]) (hr : w.response = silent) : CacheOK c v w (.none strict)
  /-- The writeback is done.  An invalidation may have come too late. -/
  | acked {strict b f} (hl : Leaving .MI b w.line) (hq : w.request = [])
      (hf : w.forward = f ++ [wbAck c]) (hinv : f = [] ∨ f = [inv]) (hr : w.response = silent) :
      CacheOK c v w (.none strict)
  | fetching (hl : Waiting w.line) (hq : w.request = []) (hf : w.forward = [])
      (hr : w.response = silent) : CacheOK c v w .fetch
  | waiting {succ blocked} (hl : Waiting w.line) (hq : w.request = [])
      (hf : w.forward = asked succ blocked) (hr : w.response = silent) :
      CacheOK c v w (.chain false succ blocked)
  | arriving {succ blocked} (src : MachineID C D) (hl : Waiting w.line) (hq : w.request = [])
      (hf : w.forward = asked succ blocked)
      (hr : w.response = Function.update silent src [data src v]) :
      CacheOK c v w (.chain true succ blocked)
  | owning {succ blocked} (hl : Present v w.line) (hq : w.request = [])
      (hf : w.forward = asked succ blocked) (hr : w.response = silent) :
      CacheOK c v w (.chain true succ blocked)
  /-- A writeback is on its way to the directory; the invalidation may be consumed. -/
  | leaving {succ blocked} (hl : Leaving .MI v w.line) (hq : w.request = [putx c v])
      (hf : w.forward = asked succ blocked ∨ w.forward = [] ∧ succ = none)
      (hr : w.response = silent) : CacheOK c v w (.chain true succ blocked)
  /-- The writeback was refused, as the next cache is the owner. -/
  | left {d blocked} (hl : Leaving .MI v w.line) (hq : w.request = [])
      (hf : w.forward = [getx d, wbNack c]) (hr : w.response = silent) :
      CacheOK c v w (.chain true (some d) blocked)
  | writing {b} (hl : Leaving .MI b w.line) (hq : w.request = [])
      (hf : w.forward = [] ∨ w.forward = [inv]) (hr : w.response = silent) : CacheOK c v w .back

/-! ### The DMA controllers -/

def busy (write : Bool) : DMAState := if write then .BUSY_WR else .BUSY_RD

/-- What a DMA controller and its channels may look like. -/
inductive DMAOK (d : D) (tbe : Option (DMATBE n)) (req resp : List (Msg C D n)) :
    Option Bool → Prop
  | ready (ht : tbe = none) (hreq : req = []) (hresp : resp = []) : DMAOK d tbe req resp none
  | requested (j : Job D n) {b} (hd : j.d = d) (ht : tbe = some ⟨busy j.write, b⟩)
      (hreq : req = [.dmaRequest j.msg]) (hresp : resp = []) : DMAOK d tbe req resp none
  /-- The directory works on the request. -/
  | served {write b} (ht : tbe = some ⟨busy write, b⟩) (hreq : req = []) (hresp : resp = []) :
      DMAOK d tbe req resp (some write)
  | answered (write : Bool) (b' : Block n) {b} (ht : tbe = some ⟨busy write, b⟩) (hreq : req = [])
      (hresp : resp = [.dmaResponse ⟨if write then .ACK else .DATA, b'⟩]) :
      DMAOK d tbe req resp none

def Msg.isGETX : Msg C D n → Bool
  | .request m => m.type == .GETX
  | _ => false

def Msg.isPUTX : Msg C D n → Bool
  | .request m => m.type == .PUTX
  | _ => false

/-- The condition under which DMA does no harm to the directory.  A DMA controller starts a
request for a line only if no DMA request for it is under way, and the directory has seen the end
of the last read.  The directory takes a DMA request for an owned line only if no cache has a
forwarded request to answer, and no cache but the owner has a writeback under way. -/
def Orderly [DecidableEq C] [DecidableEq D] (s : MILine C D n) :
    Move (Chan C D) (Action C D n) → Prop
  | .act (.dma d _ _ _) =>
      s.loc.dma d = none → (∀ d', s.loc.dma d' = none) ∧ s.loc.dir.state ≠ .M_DRDI
  | .deliver (.dmaRequest _) _ _ => s.loc.dir.state = .M →
      (∀ c, ∀ m ∈ s.chan (.forward c), m.isGETX = false) ∧
        ∀ c, (∃ m ∈ s.chan (.request c), m.isPUTX) → .l1Cache c ∈ s.loc.dir.owner
  | _ => True

/-! ### The invariant -/

/-- The invariant, for the value of the line and the phase.  It is strict if DMA requests are
made one at a time, and only such that no old writeback meets them. -/
structure InvAt [DecidableEq C] [DecidableEq D] (strict : Bool) (v : Block n) (p : Phase C D n)
    (s : MILine C D n) : Prop where
  proper : p.Proper strict
  state : s.loc.dir.directoryState = p.state
  owner : s.loc.dir.owner = p.owner
  tbe : TBEOK p s.loc.dir.tbe
  memory : MemoryOK v p s.loc.mem (s.chan .toMemory) (s.chan .fromMemory)
  caches : ∀ c, CacheOK c v (view s c) (p.role strict c)
  dmas : ∀ d, DMAOK d (s.loc.dma d) (s.chan (.dmaRequest d)) (s.chan (.dmaResponse d))
    (p.serving d)
  /-- At most one DMA controller is busy. -/
  single : strict → ∀ d d', s.loc.dma d ≠ none → s.loc.dma d' ≠ none → d = d'
  /-- No DMA request waits at a blocked directory. -/
  quiet : strict → p.blocked → ∀ d, s.chan (.dmaRequest d) = []
  /-- The DMA write that is under way is the last thing that happened to the line. -/
  logged : p.writes → ∃ d offset len b coherent stale log,
    s.loc.log = .dmaWrite d offset len b coherent stale :: log

def Inv [DecidableEq C] [DecidableEq D] (strict : Bool) (init : Block n) (s : MILine C D n) :
    Prop :=
  Coherent init s.loc.log ∧ ∃ p, InvAt strict (current init s.loc.log) p s

end ChipletGem5.MIExample
