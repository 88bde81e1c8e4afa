import ChipletGem5.Lib.Exec
import ChipletGem5.Mem.Packet

/-!
# Load-locked and store-conditional at a cache block

A `CacheBlk` of `mem/cache/cache_blk.hh` has a list of locks, each with a context and a range of
addresses.  `trackLoadLocked` adds a lock, `checkWrite` looks for one and takes away those that a
write invalidates, and `invalidate` takes away all of them.  In every sequence of calls, each lock
in the list belongs to a load-locked of its own, and nothing has happened since then that would
invalidate it.
-/

namespace ChipletGem5

open List Function Prod Except

structure SizedRequest extends Request where
  size : Option (BitVec 32)

namespace SizedRequest

/-- `Request::getSize`, as a number that is added to an address. -/
def getSize (req : SizedRequest) : Result Addr := do
  let size ← getOrError req.size (.assertion "privateFlags.isSet(VALID_SIZE)")
  return size.setWidth 64

/-- The first and the last address of a request, `req_low` and `req_high`. -/
def bounds (req : SizedRequest) : Result (Addr × Addr) := do
  let low ← req.getPaddr
  let size ← req.getSize
  return (low, low + size - 1)

end SizedRequest

/-- What the block uses of a packet. -/
structure LockPacket extends CmdPacket where
  req : SizedRequest

namespace CacheBlk

/-! ### Locks -/

/-- A load-linked range of one context. -/
structure Lock where
  contextId : ContextID
  lowAddr : Addr
  highAddr : Addr
deriving DecidableEq, Repr

namespace Lock

def isMatch (l : Lock) (req : SizedRequest) : Result Bool := do
  let r ← req.bounds
  let contextId ← req.getContextId
  return l.contextId == contextId && decide (l.lowAddr ≤ r.1) && decide (r.2 ≤ l.highAddr)

def intersects (l : Lock) (req : SizedRequest) : Result Bool := do
  let r ← req.bounds
  return decide (r.1 ≤ l.highAddr) && decide (l.lowAddr ≤ r.2)

/-- The constructor of `Lock`. -/
def new (req : SizedRequest) : Result Lock := do
  let contextId ← req.getContextId
  let r ← req.bounds
  return ⟨contextId, r.1, r.2⟩

end Lock

/-- The loops that erase locks. -/
def eraseIf (p : Lock → Result Bool) : List Lock → Result (List Lock)
  | [] => return []
  | l :: lockList => do
      let erase ← p l
      let rest ← eraseIf p lockList
      return if erase then rest else l :: rest

def trackLoadLocked (lockList : List Lock) (pkt : LockPacket) : Result (List Lock) := do
  require pkt.isLLSC (.assertion "pkt->isLLSC()")
  let rest ← eraseIf (·.intersects pkt.req) lockList
  let lock ← Lock.new pkt.req
  return lock :: rest

/-- The condition of `CacheBlk::clearLoadLocks`. -/
def isCleared (req : SizedRequest) (l : Lock) : Result Bool := do
  let intersects ← l.intersects req
  if intersects then do
    let contextId ← req.getContextId
    return l.contextId != contextId
  else return false

def clearLoadLocks (lockList : List Lock) (req : SizedRequest) : Result (List Lock) :=
  eraseIf (isCleared req) lockList

/-- The loop of `CacheBlk::checkWrite` for a store-conditional, which erases the first lock that
matches. -/
def eraseMatch (req : SizedRequest) : List Lock → Result (Bool × List Lock)
  | [] => return (false, [])
  | l :: lockList => do
      let success ← l.isMatch req
      if success then return (true, lockList)
      else do
        let r ← eraseMatch req lockList
        return (r.1, l :: r.2)

/-- `CacheBlk::checkWrite`, which returns the locks, the request with its extra data, and whether
the write should proceed. -/
def checkWrite (lockList : List Lock) (pkt : LockPacket) :
    Result (List Lock × SizedRequest × Bool) := do
  require pkt.isWrite (.assertion "pkt->isWrite()")
  if !pkt.isLLSC && lockList.isEmpty then return (lockList, pkt.req, true)
  else if pkt.isLLSC then do
    let r ← eraseMatch pkt.req lockList
    let rest ← clearLoadLocks r.2 pkt.req
    return (rest, { pkt.req with extraData := some (if r.1 then 1 else 0) }, r.1)
  else do
    let rest ← clearLoadLocks lockList pkt.req
    return (rest, pkt.req, true)

/-! ### Sequences of calls -/

/-- The calls that touch the locks. -/
inductive Call where
  | trackLoadLocked (pkt : LockPacket)
  | checkWrite (pkt : LockPacket)
  | invalidate

/-- The locks of a block, and the calls so far with the results of `checkWrite`. -/
structure System where
  lockList : List Lock
  hist : List (Call × Option Bool)

def System.initial : System := ⟨[], []⟩

def System.step (s : System) (call : Call) : Result System :=
  match call with
  | .trackLoadLocked pkt => do
      let lockList ← CacheBlk.trackLoadLocked s.lockList pkt
      return ⟨lockList, s.hist ++ [(call, none)]⟩
  | .checkWrite pkt => do
      let r ← CacheBlk.checkWrite s.lockList pkt
      return ⟨r.1, s.hist ++ [(call, some r.2.2)]⟩
  | .invalidate => return ⟨[], s.hist ++ [(call, none)]⟩

/-! ### Ranges and interference -/

end CacheBlk

def SizedRequest.range (req : SizedRequest) : Set Addr :=
  {a | ∃ r, req.bounds = .ok r ∧ r.1 ≤ a ∧ a ≤ r.2}

namespace CacheBlk

def Lock.range (l : Lock) : Set Addr := {a | l.lowAddr ≤ a ∧ a ≤ l.highAddr}

/-- Calls that end the effect of a load-locked of a context for some addresses: `invalidate`,
writes of other contexts and load-locked accesses to any of the addresses. -/
def Interferes (c : ContextID) (range : Set Addr) : Call → Prop
  | .trackLoadLocked pkt => (pkt.req.range ∩ range).Nonempty
  | .checkWrite pkt => pkt.req.contextId ≠ some c ∧ (pkt.req.range ∩ range).Nonempty
  | .invalidate => True

/-- Call `k` is a load-locked of a context for some addresses, and no later call interferes. -/
def Holds (hist : List (Call × Option Bool)) (k : ℕ) (c : ContextID) (range : Set Addr) : Prop :=
  ∃ pkt, hist[k]? = some (.trackLoadLocked pkt, none) ∧ pkt.req.contextId = some c ∧
    pkt.req.range = range ∧
    ∀ (i : ℕ) (e : Call × Option Bool), k < i → hist[i]? = some e → ¬ Interferes c range e.1

/-- Call `j` is a store-conditional that succeeds. -/
def Succeeds (hist : List (Call × Option Bool)) (j : ℕ) : Prop :=
  ∃ pkt, hist[j]? = some (.checkWrite pkt, some true) ∧ pkt.isLLSC

/-- The store-conditional `j` may succeed for the load-locked `k`: it is of the same context,
within the addresses, and no call between them interferes. -/
def Enables (hist : List (Call × Option Bool)) (k j : ℕ) : Prop :=
  ∃ pkt c, (∃ result, hist[j]? = some (.checkWrite pkt, result)) ∧ pkt.req.contextId = some c ∧
    k < j ∧ ∃ range, Holds (hist.take j) k c range ∧ pkt.req.range ⊆ range

variable {hist : List (Call × Option Bool)} {e : Call × Option Bool} {c : ContextID}
  {range : Set Addr} {j k : ℕ}

lemma succeeds_concat : Succeeds (hist ++ [e]) j ↔ Succeeds hist j ∨
    j = hist.length ∧ ∃ pkt, e = (.checkWrite pkt, some true) ∧ pkt.isLLSC := by
  rcases lt_trichotomy j hist.length with hj | hj | hj
  · simp only [Succeeds, getElem?_append_left hj]
    exact ⟨.inl, fun h => h.resolve_right fun hr => absurd hr.1 (by omega)⟩
  · have hnone : hist[j]? = none := getElem?_eq_none (by omega)
    simp [Succeeds, hj]
  · have hnone : (hist ++ [e])[j]? = none := getElem?_eq_none (by simp; omega)
    have hnone' : hist[j]? = none := getElem?_eq_none (by omega)
    simp [Succeeds, hnone, hnone']
    omega

lemma Succeeds.lt_length (h : Succeeds hist j) : j < hist.length := by
  obtain ⟨pkt, hj, -⟩ := h
  exact (List.getElem?_eq_some_iff.1 hj).1

lemma Holds.lt_length (h : Holds hist k c range) : k < hist.length := by
  obtain ⟨pkt, hk, -⟩ := h
  exact (List.getElem?_eq_some_iff.1 hk).1

lemma Holds.concat (h : Holds hist k c range) (he : ¬ Interferes c range e.1) :
    Holds (hist ++ [e]) k c range := by
  have hk := h.lt_length
  obtain ⟨pkt, hpkt, hc, hrange, hlater⟩ := h
  refine ⟨pkt, ?_, hc, hrange, ?_⟩
  · rwa [getElem?_append_left hk]
  · intro i e' hi he'
    rcases lt_or_ge i hist.length with hlt | hge
    · rw [getElem?_append_left hlt] at he'
      exact hlater i e' hi he'
    · rw [getElem?_append_right hge] at he'
      obtain rfl : e = e' := by
        have hmem := mem_of_getElem? he'
        exact (mem_singleton.1 hmem).symm
      exact he

lemma Enables.concat (h : Enables hist k j) (e : Call × Option Bool) :
    Enables (hist ++ [e]) k j := by
  obtain ⟨pkt, c, ⟨result, hpkt⟩, hc, hkj, range, hholds, hsub⟩ := h
  have hj := (List.getElem?_eq_some_iff.1 hpkt).1
  refine ⟨pkt, c, ⟨result, ?_⟩, hc, hkj, range, ?_, hsub⟩
  · rwa [getElem?_append_left hj]
  · rwa [take_append_of_le_length hj.le]

/-! ### What the tests of the locks mean -/

section Tests

variable {l : Lock} {req : SizedRequest}

lemma mem_range_of_bounds {r : Addr × Addr} (h : req.bounds = .ok r) {a : Addr} :
    a ∈ req.range ↔ r.1 ≤ a ∧ a ≤ r.2 := by
  constructor
  · rintro ⟨r', hr', ha⟩
    cases h.symm.trans hr'
    exact ha
  · intro ha
    exact ⟨r, h, ha⟩

/-- The range of a request has its bytes, unless it is empty or goes past the end of the address
space. -/
lemma mem_range_iff {low size a : Addr} (hlow : req.getPaddr = .ok low)
    (hsize : req.getSize = .ok size) (hpos : 0 < size) (hend : low.toNat + size.toNat ≤ 2 ^ 64) :
    a ∈ req.range ↔ low.toNat ≤ a.toNat ∧ a.toNat < low.toNat + size.toNat := by
  have hbounds : req.bounds = .ok (low, low + size - 1) := by
    rw [SizedRequest.bounds, hlow, hsize]
    rfl
  rw [mem_range_of_bounds hbounds]
  bv_omega

lemma Lock.new_eq_ok (h : Lock.new req = .ok l) :
    req.contextId = some l.contextId ∧ req.range = l.range := by
  obtain ⟨c, hc, h⟩ := bind_eq_ok.1 h
  obtain ⟨r, hr, h⟩ := bind_eq_ok.1 h
  cases h
  refine ⟨getOrError_eq_ok.1 hc, ?_⟩
  ext a
  exact mem_range_of_bounds hr

lemma Lock.isMatch_eq_ok (h : l.isMatch req = .ok true) :
    req.contextId = some l.contextId ∧ req.range ⊆ l.range := by
  obtain ⟨r, hr, h⟩ := bind_eq_ok.1 h
  obtain ⟨c, hc, h⟩ := bind_eq_ok.1 h
  have hmatch := ok.inj h
  rw [Bool.and_eq_true, Bool.and_eq_true, beq_iff_eq, decide_eq_true_eq, decide_eq_true_eq]
    at hmatch
  obtain ⟨⟨hctx, hlow⟩, hhigh⟩ := hmatch
  refine ⟨hctx ▸ getOrError_eq_ok.1 hc, ?_⟩
  intro a ha
  obtain ⟨hle, hge⟩ := (mem_range_of_bounds hr).1 ha
  exact ⟨BitVec.le_trans hlow hle, BitVec.le_trans hge hhigh⟩

lemma Lock.not_nonempty_of_intersects (h : l.intersects req = .ok false) :
    ¬ (req.range ∩ l.range).Nonempty := by
  obtain ⟨r, hr, h⟩ := bind_eq_ok.1 h
  have hfalse := ok.inj h
  rintro ⟨a, ha, hlow, hhigh⟩
  obtain ⟨hle, hge⟩ := (mem_range_of_bounds hr).1 ha
  rw [decide_eq_true (BitVec.le_trans hle hhigh), decide_eq_true (BitVec.le_trans hlow hge)]
    at hfalse
  simp at hfalse

variable {pkt : LockPacket}

lemma not_interferes_of_isCleared (h : isCleared pkt.req l = .ok false) :
    ¬ Interferes l.contextId l.range (.checkWrite pkt) := by
  obtain ⟨intersects, hi, h⟩ := bind_eq_ok.1 h
  rintro ⟨hctx, hne⟩
  cases intersects with
  | false => exact Lock.not_nonempty_of_intersects hi hne
  | true =>
    obtain ⟨c, hc, h⟩ := bind_eq_ok.1 h
    have hsame := ok.inj h
    rw [bne_eq_false_iff_eq] at hsame
    exact hctx (hsame ▸ getOrError_eq_ok.1 hc)

end Tests

/-! ### Locks with the calls that made them -/

section Labels

variable {ls : List (Lock × ℕ)} {lockList : List Lock} {req : SizedRequest}

lemma eraseIf_eq_ok {p : Lock → Result Bool}
    (h : eraseIf p (ls.map fst) = .ok lockList) :
    ∃ ls' : List (Lock × ℕ), ls'.map fst = lockList ∧ ls'.Sublist ls ∧
      ∀ x ∈ ls', p x.1 = .ok false := by
  induction ls generalizing lockList with
  | nil =>
    cases h
    exact ⟨[], rfl, List.Sublist.refl _, by simp⟩
  | cons x ls ih =>
    obtain ⟨erase, hp, h⟩ := bind_eq_ok.1 h
    obtain ⟨rest, hrest, h⟩ := bind_eq_ok.1 h
    obtain ⟨ls', rfl, hsub, hkept⟩ := ih hrest
    cases h
    cases erase with
    | true => exact ⟨ls', rfl, hsub.cons x, hkept⟩
    | false =>
      refine ⟨x :: ls', rfl, hsub.cons_cons x, ?_⟩
      intro y hy
      rcases mem_cons.1 hy with rfl | hy
      · exact hp
      · exact hkept y hy

lemma eraseMatch_eq_ok {success : Bool}
    (h : eraseMatch req (ls.map fst) = .ok (success, lockList)) :
    (success = false ∧ lockList = ls.map fst) ∨
      success ∧ ∃ pre x post, ls = pre ++ x :: post ∧ x.1.isMatch req = .ok true ∧
        lockList = (pre ++ post).map fst := by
  induction ls generalizing lockList success with
  | nil =>
    cases h
    exact .inl ⟨rfl, rfl⟩
  | cons x ls ih =>
    obtain ⟨found, hmatch, h⟩ := bind_eq_ok.1 h
    cases found with
    | true =>
      cases h
      exact .inr ⟨rfl, [], x, ls, rfl, hmatch, rfl⟩
    | false =>
      obtain ⟨⟨success', rest⟩, hrest, h⟩ := bind_eq_ok.1 h
      cases h
      rcases ih hrest with ⟨rfl, rfl⟩ | ⟨rfl, pre, y, post, rfl, hy, rfl⟩
      · exact .inl ⟨rfl, rfl⟩
      · exact .inr ⟨rfl, x :: pre, y, post, rfl, hy, rfl⟩

end Labels

/-! ### The invariant -/

/-- Each lock belongs to a load-locked that still holds and was not used by a store-conditional,
and different locks to different ones.  Each store-conditional that succeeded has used a
load-locked of its own. -/
structure Inv (s : System) (ls : List (Lock × ℕ)) (used : ℕ → ℕ) : Prop where
  locks : s.lockList = ls.map Prod.fst
  nodup : (ls.map Prod.snd).Nodup
  holds : ∀ x ∈ ls, Holds s.hist x.2 x.1.contextId x.1.range
  injOn : Set.InjOn used {j | Succeeds s.hist j}
  unused : ∀ x ∈ ls, ∀ j, Succeeds s.hist j → used j ≠ x.2
  enables : ∀ j, Succeeds s.hist j → Enables s.hist (used j) j

namespace Inv

variable {s s' : System} {ls ls' : List (Lock × ℕ)} {used : ℕ → ℕ} {lockList : List Lock}

lemma initial : Inv System.initial [] id :=
  ⟨rfl, nodup_nil, by simp, injective_id.injOn, by simp, fun j hj =>
    absurd hj.lt_length (Nat.not_lt_zero j)⟩

lemma keep (h : Inv s ls used) (hsub : ls'.Sublist ls)
    (hno : ∀ x ∈ ls', ¬ Interferes x.1.contextId x.1.range e.1)
    (he : ∀ pkt, e = (.checkWrite pkt, some true) → pkt.isLLSC = false) :
    Inv ⟨ls'.map fst, s.hist ++ [e]⟩ ls' used := by
  have hsucc : ∀ {j}, Succeeds (s.hist ++ [e]) j → Succeeds s.hist j := by
    intro j hj
    rcases succeeds_concat.1 hj with hj | ⟨-, pkt, hpkt, hllsc⟩
    · exact hj
    · rw [he pkt hpkt] at hllsc
      simp at hllsc
  refine ⟨rfl, h.nodup.sublist (hsub.map _), ?_, ?_, ?_, ?_⟩
  · intro x hx
    exact (h.holds x (hsub.subset hx)).concat (hno x hx)
  · exact h.injOn.mono fun j hj => hsucc hj
  · intro x hx j hj
    exact h.unused x (hsub.subset hx) j (hsucc hj)
  · intro j hj
    exact (h.enables j (hsucc hj)).concat e

lemma use (h : Inv s ls used) {x : Lock × ℕ} (hx : x ∈ ls) (hsub : ls'.Sublist ls)
    (hne : ∀ y ∈ ls', y.2 ≠ x.2)
    (hno : ∀ y ∈ ls', ¬ Interferes y.1.contextId y.1.range (.checkWrite pkt))
    (hctx : pkt.req.contextId = some x.1.contextId) (hrange : pkt.req.range ⊆ x.1.range) :
    Inv ⟨ls'.map fst, s.hist ++ [(.checkWrite pkt, some true)]⟩ ls'
      (update used s.hist.length x.2) := by
  have hold : ∀ {j}, Succeeds s.hist j → update used s.hist.length x.2 j = used j :=
    fun hj => update_of_ne hj.lt_length.ne ..
  have hnew : update used s.hist.length x.2 s.hist.length = x.2 := update_self ..
  refine ⟨rfl, h.nodup.sublist (hsub.map _), ?_, ?_, ?_, ?_⟩
  · intro y hy
    exact (h.holds y (hsub.subset hy)).concat (hno y hy)
  · intro i hi j hj heq
    rcases succeeds_concat.1 hi with hi | ⟨rfl, -⟩ <;>
      rcases succeeds_concat.1 hj with hj | ⟨rfl, -⟩
    · rw [hold hi, hold hj] at heq
      exact h.injOn hi hj heq
    · rw [hold hi, hnew] at heq
      exact absurd heq (h.unused x hx i hi)
    · rw [hold hj, hnew] at heq
      exact absurd heq.symm (h.unused x hx j hj)
    · rfl
  · intro y hy j hj
    rcases succeeds_concat.1 hj with hj | ⟨rfl, -⟩
    · rw [hold hj]
      exact h.unused y (hsub.subset hy) j hj
    · rw [hnew]
      exact (hne y hy).symm
  · intro j hj
    rcases succeeds_concat.1 hj with hj | ⟨rfl, -⟩
    · rw [hold hj]
      exact (h.enables j hj).concat _
    · rw [hnew]
      have hholds := h.holds x hx
      refine ⟨pkt, x.1.contextId, ⟨some true, by simp⟩, hctx, hholds.lt_length, x.1.range, ?_,
        hrange⟩
      rwa [take_left]

lemma trackLoadLocked (h : Inv s ls used)
    (ht : CacheBlk.trackLoadLocked s.lockList pkt = .ok lockList) :
    ∃ ls', Inv ⟨lockList, s.hist ++ [(.trackLoadLocked pkt, none)]⟩ ls' used := by
  obtain ⟨-, -, ht⟩ := bind_eq_ok.1 ht
  obtain ⟨rest, hrest, ht⟩ := bind_eq_ok.1 ht
  obtain ⟨lock, hlock, ht⟩ := bind_eq_ok.1 ht
  cases ht
  rw [h.locks] at hrest
  obtain ⟨ls', rfl, hsub, hkept⟩ := eraseIf_eq_ok hrest
  obtain ⟨hctx, hrange⟩ := Lock.new_eq_ok hlock
  have hkeep : Inv ⟨ls'.map fst, s.hist ++ [(.trackLoadLocked pkt, none)]⟩ ls' used :=
    h.keep hsub (fun x hx => Lock.not_nonempty_of_intersects (hkept x hx)) (by simp)
  refine ⟨(lock, s.hist.length) :: ls', rfl, ?_, ?_, hkeep.injOn, ?_, hkeep.enables⟩
  · refine nodup_cons.2 ⟨?_, hkeep.nodup⟩
    intro hmem
    obtain ⟨x, hx, heq⟩ := mem_map.1 hmem
    have hlt := (h.holds x (hsub.subset hx)).lt_length
    omega
  · intro x hx
    rcases mem_cons.1 hx with rfl | hx
    · refine ⟨pkt, by simp, hctx, hrange, ?_⟩
      intro i e hi he
      have hlt := (List.getElem?_eq_some_iff.1 he).1
      rw [length_append, length_singleton] at hlt
      exact absurd hi (by show ¬ s.hist.length < i; omega)
    · exact hkeep.holds x hx
  · intro x hx j hj
    rcases mem_cons.1 hx with rfl | hx
    · -- the load-locked of a store-conditional is an earlier call
      obtain ⟨-, -, -, -, hlt, -⟩ := hkeep.enables j hj
      rcases succeeds_concat.1 hj with hj | ⟨-, pkt', hpkt', -⟩
      · exact (hlt.trans hj.lt_length).ne
      · cases hpkt'
    · exact hkeep.unused x hx j hj

lemma checkWrite (h : Inv s ls used) {req : SizedRequest} {result : Bool}
    (hw : CacheBlk.checkWrite s.lockList pkt = .ok (lockList, req, result)) :
    ∃ ls' used', Inv ⟨lockList, s.hist ++ [(.checkWrite pkt, some result)]⟩ ls' used' := by
  obtain ⟨-, -, hw⟩ := bind_eq_ok.1 hw
  split_ifs at hw with hempty hllsc
  · -- a write without any locks
    obtain ⟨rfl, -⟩ := mk.injEq .. ▸ ok.inj hw
    simp only [Bool.and_eq_true, Bool.not_eq_true', List.isEmpty_iff] at hempty
    refine ⟨[], used, ?_⟩
    rw [hempty.2]
    refine h.keep (nil_sublist ls) (by simp) ?_
    rintro pkt' heq
    cases heq
    exact hempty.1
  · -- a store-conditional
    simp only [bind_eq_ok] at hw
    obtain ⟨⟨success, rest⟩, hmatch, cleared, hclear, hw⟩ := hw
    obtain ⟨rfl, -, rfl⟩ : cleared = lockList ∧ _ ∧ success = result := by
      simpa [mk.injEq] using ok.inj hw
    rw [h.locks] at hmatch
    rcases eraseMatch_eq_ok hmatch with ⟨rfl, rfl⟩ | ⟨rfl, pre, x, post, rfl, hx, rfl⟩
    · obtain ⟨ls', rfl, hsub, hkept⟩ := eraseIf_eq_ok hclear
      exact ⟨ls', used,
        h.keep hsub (fun y hy => not_interferes_of_isCleared (hkept y hy)) (by simp)⟩
    · obtain ⟨ls', rfl, hsub, hkept⟩ := eraseIf_eq_ok hclear
      obtain ⟨hctx, hrange⟩ := Lock.isMatch_eq_ok hx
      have hskip : (pre ++ post).Sublist (pre ++ x :: post) :=
        (sublist_cons_self x post).append_left pre
      refine ⟨ls', _, h.use (x := x) (by simp) (hsub.trans hskip) ?_
        (fun y hy => not_interferes_of_isCleared (hkept y hy)) hctx hrange⟩
      intro y hy heq
      have hnodup := h.nodup
      rw [map_append, map_cons, nodup_middle, nodup_cons] at hnodup
      refine hnodup.1 ?_
      rw [← heq, ← map_append]
      exact mem_map_of_mem (hsub.subset hy)
  · -- a normal write
    obtain ⟨cleared, hclear, hw⟩ := bind_eq_ok.1 hw
    obtain ⟨rfl, -⟩ := mk.injEq .. ▸ ok.inj hw
    rw [h.locks] at hclear
    obtain ⟨ls', rfl, hsub, hkept⟩ := eraseIf_eq_ok hclear
    refine ⟨ls', used, h.keep hsub (fun y hy => not_interferes_of_isCleared (hkept y hy)) ?_⟩
    rintro pkt' heq
    cases heq
    exact Bool.eq_false_of_not_eq_true hllsc

lemma step (h : Inv s ls used) {call : Call} (hs : s.step call = .ok s') :
    ∃ ls' used', Inv s' ls' used' := by
  cases call with
  | trackLoadLocked pkt =>
    obtain ⟨lockList, ht, hs⟩ := bind_eq_ok.1 hs
    cases hs
    obtain ⟨ls', h'⟩ := h.trackLoadLocked ht
    exact ⟨ls', used, h'⟩
  | checkWrite pkt =>
    obtain ⟨_, hw, hs⟩ := bind_eq_ok.1 hs
    cases hs
    exact h.checkWrite hw
  | invalidate =>
    cases hs
    exact ⟨[], used, h.keep (nil_sublist ls) (by simp) (by simp)⟩

end Inv

/-- In every sequence of calls there is for each store-conditional that succeeds an earlier
load-locked of the same context which covers it, with no call in between that interferes, and
different store-conditionals have different ones. -/
theorem storeConditional_enabled {calls : List Call} {s : System}
    (h : Exec (fun s call s' => s.step call = .ok s') System.initial calls s) :
    s.hist.map Prod.fst = calls ∧ ∃ used : ℕ → ℕ, Set.InjOn used {j | Succeeds s.hist j} ∧
      ∀ j, Succeeds s.hist j → Enables s.hist (used j) j := by
  have hinv : ∃ ls used, Inv s ls used :=
    h.invariant_state (I := fun s => ∃ ls used, Inv s ls used) ⟨[], id, Inv.initial⟩
      fun ⟨_, _, hI⟩ hs => hI.step hs
  obtain ⟨ls, used, hI⟩ := hinv
  refine ⟨?_, used, hI.injOn, hI.enables⟩
  refine h.invariant (I := fun calls s => s.hist.map fst = calls) rfl ?_
  intro calls s call s' hcalls hs
  cases call with
  | trackLoadLocked pkt =>
    obtain ⟨lockList, -, hs⟩ := bind_eq_ok.1 hs
    cases hs
    rw [map_append, hcalls, map_singleton]
  | checkWrite pkt =>
    obtain ⟨r, -, hs⟩ := bind_eq_ok.1 hs
    cases hs
    rw [map_append, hcalls, map_singleton]
  | invalidate =>
    cases hs
    rw [map_append, hcalls, map_singleton]

/-- A packet with an address, a size and a context. -/
def lockPacket (cmd : MemCmd) (a : Addr) (size : BitVec 32) (c : ContextID) : LockPacket :=
  ⟨⟨cmd⟩, ⟨⟨some a, some c, none, [], false, false, false, none⟩, some size⟩⟩

/-- A write of another context to other addresses, between a load-locked and a
store-conditional. -/
theorem storeConditional_enabled_after_write :
    ∃ s : System, s.hist.map Prod.fst = [.trackLoadLocked (lockPacket .loadLockedReq 0x100 8 1),
        .checkWrite (lockPacket .writeReq 0x108 8 2),
        .checkWrite (lockPacket .storeCondReq 0x104 4 1)] ∧
      Succeeds s.hist 2 ∧ ∃ k, Enables s.hist k 2 := by
  have hexec : Exec (fun s call s' => s.step call = .ok s') System.initial _ _ :=
    ((Exec.nil.snoc (a := .trackLoadLocked (lockPacket .loadLockedReq 0x100 8 1)) rfl).snoc
      (a := .checkWrite (lockPacket .writeReq 0x108 8 2)) rfl).snoc
      (a := .checkWrite (lockPacket .storeCondReq 0x104 4 1)) rfl
  obtain ⟨hcalls, used, -, henables⟩ := storeConditional_enabled hexec
  refine ⟨_, hcalls, ?_, used 2, henables 2 ?_⟩ <;>
    exact ⟨lockPacket .storeCondReq 0x104 4 1, rfl, rfl⟩

end CacheBlk

end ChipletGem5
