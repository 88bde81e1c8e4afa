import ChipletGem5.Mem.MSHRTargets

/-!
# The queue of the MSHRs

`MSHRQueue` of `mem/cache/mshr_queue.cc`, with the operations of `Queue` in `mem/cache/queue.hh`
that it uses.  An entry keeps the iterators by which it is found in the lists; as it is in a list
once at most, such an iterator is the place of the entry in the list, and is not valid if the entry
is not in the list.

The ready list is to be sorted by the time at which the entries are ready.  But `delay`, which looks
for the new place of an entry, begins its search at the entry itself, which always meets the
condition.  So the entry stays in front of entries that may be ready before it.
-/

namespace ChipletGem5

open List Function

open PacketQueue (MaxTick DrainState)

/-- A queue of `n` MSHRs, which are known by their numbers. -/
structure MSHRQueue (n : ℕ) where
  entries : Fin n → MSHR
  allocatedList : List (Fin n)
  readyList : List (Fin n)
  freeList : List (Fin n)
  numInService : ℤ
  allocated : ℤ
  drainState : DrainState

namespace MSHRQueue

open MSHR (Counter Upstream)

variable {n : ℕ}

/-! ### The model -/

def init (n : ℕ) : MSHRQueue n := ⟨fun _ => .init, [], [], List.finRange n, 0, 0, .running⟩

variable (q : MSHRQueue n)

def readyTime (e : Fin n) : Tick := (q.entries e).readyTime

def setEntry (e : Fin n) (m : MSHR) : MSHRQueue n :=
  { q with entries := update q.entries e m }

/-- The loop of `addToReadyList`: insert an entry before the first that is ready later, if there
is one. -/
def insertReady (time : Fin n → Tick) (e : Fin n) : List (Fin n) → Option (List (Fin n))
  | [] => none
  | i :: l =>
      if time e < time i then some (e :: i :: l) else (insertReady time e l).map (i :: ·)

def addToReadyList (e : Fin n) : Result (MSHRQueue n) :=
  if q.readyList.getLast?.all fun last => decide (q.readyTime last ≤ q.readyTime e) then
    return { q with readyList := q.readyList ++ [e] }
  else do
    let l ← getOrError (insertReady q.readyTime e q.readyList)
      (.panic "Failed to add to ready list.")
    return { q with readyList := l }

/-- `readyList.erase(entry->readyIter)`. -/
def eraseReady (e : Fin n) : Result (MSHRQueue n) := do
  require (q.readyList.contains e) (.undefined "readyList.erase(entry->readyIter)")
  return { q with readyList := q.readyList.erase e }

/-- `MSHRQueue::allocate`, which returns the entry as well. -/
def allocate (up : Upstream) (curTick : Tick) (blkAddr : Addr) (blkSize : ℕ)
    (pkt : MSHR.Packet) (whenReady : Tick) (order : Counter) (allocOnFill : Bool) :
    Result (MSHRQueue n × Upstream × Fin n) :=
  match q.freeList with
  | [] => .error (.assertion "!freeList.empty()")
  | e :: free => do
      require ((q.entries e).getNumTargets == 0) (.assertion "mshr->getNumTargets() == 0")
      let r ← (q.entries e).allocate up curTick blkAddr blkSize pkt whenReady order allocOnFill
      let q' ← addToReadyList
        { q.setEntry e r.1 with freeList := free, allocatedList := q.allocatedList ++ [e] } e
      return ({ q' with allocated := q'.allocated + 1 }, r.2, e)

/-- The ready list from an entry on, that is, from its `readyIter` to the end. -/
def fromEntry (e : Fin n) : List (Fin n) := q.readyList.dropWhile (· != e)

/-- The entries in front of an entry in the ready list. -/
def inFront (e : Fin n) : List (Fin n) := q.readyList.takeWhile (· != e)

/-- `readyList.splice(it, readyList, mshr->readyIter)`, where the iterator `it` is `k` places
behind `readyIter`.  The list stays the same if `it` is `readyIter`. -/
def spliceReady (e : Fin n) (k : ℕ) : MSHRQueue n :=
  if k = 0 then q
  else
    let rest := q.fromEntry e
    { q with readyList := q.inFront e ++ (rest.take k).tail ++ e :: rest.drop k }

def delay (curTick : Tick) (e : Fin n) (delayTicks : Tick) : Result (MSHRQueue n) := do
  let m ← (q.entries e).delay curTick delayTicks
  require (q.readyList.contains e) (.undefined "std::find_if(mshr->readyIter, ...)")
  let q' := q.setEntry e m
  return q'.spliceReady e
    ((q'.fromEntry e).findIdx fun i => decide (q'.readyTime i ≤ q'.readyTime e))

def markInService (up : Upstream) (e : Fin n) (pendingModifiedResp : Bool) :
    Result (MSHRQueue n × Upstream) := do
  let r ← (q.entries e).markInService up pendingModifiedResp
  let q' ← (q.setEntry e r.1).eraseReady e
  return ({ q' with numInService := q'.numInService + 1 }, r.2)

def markPending (e : Fin n) : Result (MSHRQueue n) := do
  require (q.entries e).inService (.assertion "mshr->inService")
  addToReadyList { q.setEntry e { q.entries e with inService := false } with
    numInService := q.numInService - 1 } e

def deallocate (e : Fin n) : Result (MSHRQueue n) := do
  require (q.allocatedList.contains e) (.undefined "allocatedList.erase(entry->allocIter)")
  let q' := { q with
    allocatedList := q.allocatedList.erase e
    freeList := e :: q.freeList
    allocated := q.allocated - 1 }
  let q'' ← (if (q.entries e).inService then pure { q' with numInService := q'.numInService - 1 }
    else q'.eraseReady e)
  let m ← (q.entries e).deallocate
  let q''' := q''.setEntry e m
  return { q''' with
    drainState := if q'''.drainState = .draining ∧ q'''.allocated = 0 then .drained
      else q'''.drainState }

def drain : MSHRQueue n :=
  { q with drainState := if q.allocated = 0 then .drained else .draining }

def getNext (curTick : Tick) : Option (Fin n) :=
  match q.readyList with
  | [] => none
  | e :: _ => if curTick < q.readyTime e then none else some e

def nextReadyTime : Tick :=
  match q.readyList with
  | [] => MaxTick
  | e :: _ => q.readyTime e

/-! ### Sorted lists of entries -/

/-- A list of entries is sorted by a time. -/
def SortedBy (time : Fin n → Tick) (l : List (Fin n)) : Prop :=
  l.Pairwise fun i j => time i ≤ time j

variable {time time' : Fin n → Tick} {e : Fin n} {l l' : List (Fin n)}

lemma insertReady_perm (h : insertReady time e l = some l') : l'.Perm (e :: l) := by
  induction l generalizing l' with
  | nil => simp [insertReady] at h
  | cons i l ih =>
    rw [insertReady] at h
    split at h
    · rw [← Option.some.inj h]
    · obtain ⟨l1, h1, rfl⟩ := Option.map_eq_some_iff.1 h
      exact ((ih h1).cons i).trans (List.Perm.swap e i l)

lemma insertReady_sortedBy (hl : SortedBy time l) (h : insertReady time e l = some l') :
    SortedBy time l' := by
  induction l generalizing l' with
  | nil => simp [insertReady] at h
  | cons i l ih =>
    obtain ⟨hi, hl⟩ := pairwise_cons.1 hl
    rw [insertReady] at h
    split at h
    · rename_i hlt
      rw [← Option.some.inj h]
      have hle : time e ≤ time i := BitVec.le_of_lt hlt
      refine pairwise_cons.2 ⟨?_, pairwise_cons.2 ⟨hi, hl⟩⟩
      intro j hj
      rcases mem_cons.1 hj with rfl | hj
      · exact hle
      · exact BitVec.le_trans hle (hi j hj)
    · rename_i hnot
      obtain ⟨l1, h1, rfl⟩ := Option.map_eq_some_iff.1 h
      refine pairwise_cons.2 ⟨?_, ih hl h1⟩
      intro j hj
      rcases mem_cons.1 ((insertReady_perm h1).mem_iff.1 hj) with rfl | hj
      · exact BitVec.not_lt.1 hnot
      · exact hi j hj

lemma SortedBy.congr (hl : SortedBy time l) (h : ∀ i ∈ l, time' i = time i) : SortedBy time' l := by
  refine List.Pairwise.imp_of_mem ?_ hl
  intro i j hi hj hle
  rwa [h i hi, h j hj]

lemma addToReadyList_eq_ok {q q' : MSHRQueue n} (h : q.addToReadyList e = .ok q') :
    ∃ l, q' = { q with readyList := l } ∧ l.Perm (e :: q.readyList) ∧
      (SortedBy q.readyTime q.readyList → SortedBy q.readyTime l) := by
  rw [addToReadyList] at h
  split at h
  · rename_i hlast
    refine ⟨_, (pure_eq_ok.1 h).symm, perm_append_singleton e q.readyList, ?_⟩
    intro hl
    refine pairwise_append.2 ⟨hl, pairwise_singleton _ _, ?_⟩
    intro i hi j hj
    rw [mem_singleton.1 hj]
    -- all entries are ready no later than the last one
    rcases eq_nil_or_concat q.readyList with hnil | ⟨l1, last, hconcat⟩
    · rw [hnil] at hi
      simp at hi
    · rw [concat_eq_append] at hconcat
      rw [hconcat] at hlast hl hi
      have hle : q.readyTime last ≤ q.readyTime e := by simpa using hlast
      rcases mem_append.1 hi with hi | hi
      · exact BitVec.le_trans ((pairwise_append.1 hl).2.2 i hi last (by simp)) hle
      · rwa [mem_singleton.1 hi]
  · obtain ⟨l, hinsert, h⟩ := bind_eq_ok.1 h
    have hinsert := getOrError_eq_ok.1 hinsert
    exact ⟨l, (pure_eq_ok.1 h).symm, insertReady_perm hinsert,
      fun hl => insertReady_sortedBy hl hinsert⟩

variable {n : ℕ} {q q' : MSHRQueue n} {up up' : Upstream} {curTick : Tick} {e i : Fin n} {m : MSHR}
  {l : List (Fin n)}

/-! ### The lists of the queue -/

/-- The ready list is in the order of time. -/
def Sorted (q : MSHRQueue n) : Prop := SortedBy q.readyTime q.readyList

/-- The lists hold each entry once: in the free list or among the allocated ones, and of these
in the ready list, which is sorted, those that are not in service. -/
structure Listed (q : MSHRQueue n) : Prop where
  nodup : (q.freeList ++ q.allocatedList).Nodup
  nodup_ready : q.readyList.Nodup
  mem_ready : ∀ e, e ∈ q.readyList ↔
    e ∈ q.allocatedList ∧ (q.entries e).inService = false
  mem_allocated : ∀ e, (q.entries e).inService → e ∈ q.allocatedList
  sorted : q.Sorted

/-- The times of the other entries stay. -/
lemma sortedBy_update (hs : SortedBy q.readyTime l) (h : e ∈ l → m.readyTime = q.readyTime e) :
    SortedBy (fun i => (update q.entries e m i).readyTime) l := by
  refine SortedBy.congr hs fun i hi => ?_
  rcases eq_or_ne i e with rfl | hie
  · rw [update_self, h hi]
  · rw [update_of_ne hie, readyTime]

namespace Listed

/-- An entry changes, and its place in the lists. -/
lemma change {alloc free : List (Fin n)} {num count : ℤ} {state : DrainState} (hq : q.Listed)
    (hnodup : (free ++ alloc).Nodup) (hl : l.Nodup)
    (hs : SortedBy (fun i => (update q.entries e m i).readyTime) l)
    (he : e ∈ l ↔ e ∈ alloc ∧ m.inService = false) (hm : m.inService → e ∈ alloc)
    (hmem : ∀ i ≠ e, (i ∈ alloc ↔ i ∈ q.allocatedList) ∧ (i ∈ l ↔ i ∈ q.readyList)) :
    Listed ⟨update q.entries e m, alloc, l, free, num, count, state⟩ := by
  refine ⟨hnodup, hl, fun i => ?_, fun i hi => ?_, hs⟩ <;> rcases eq_or_ne i e with rfl | hie <;>
    dsimp only at *
  · rwa [update_self]
  · rw [update_of_ne hie, (hmem i hie).1, (hmem i hie).2, hq.mem_ready]
  · exact hm (by rwa [update_self] at hi)
  · rw [update_of_ne hie] at hi
    exact (hmem i hie).1.2 (hq.mem_allocated i hi)

lemma setEntry (hq : q.Listed) (h : m.inService = (q.entries e).inService)
    (hs : (q.setEntry e m).Sorted) : (q.setEntry e m).Listed :=
  hq.change hq.nodup hq.nodup_ready hs (h ▸ hq.mem_ready e)
    (fun hm => hq.mem_allocated e (h ▸ hm)) fun _ _ => ⟨.rfl, .rfl⟩

lemma addToReadyList {alloc free : List (Fin n)} (hq : q.Listed)
    (hready : e ∉ q.readyList) (hnodup : (free ++ alloc).Nodup) (he : e ∈ alloc)
    (hmem : ∀ i ≠ e, (i ∈ alloc ↔ i ∈ q.allocatedList)) (hm : m.inService = false) {num : ℤ}
    (h : MSHRQueue.addToReadyList { q.setEntry e m with
      freeList := free, allocatedList := alloc, numInService := num } e = .ok q') :
    ∀ count, Listed { q' with allocated := count } := by
  intro count
  obtain ⟨l, rfl, hperm, hsorted⟩ := addToReadyList_eq_ok h
  have hperm : l.Perm (e :: q.readyList) := hperm
  refine hq.change hnodup (hperm.nodup_iff.2 (nodup_cons.2 ⟨hready, hq.nodup_ready⟩))
    (hsorted (sortedBy_update hq.sorted fun h => absurd h hready)) ?_ (fun _ => he) fun i hie =>
      ⟨hmem i hie, ?_⟩
  · simp [hperm.mem_iff, he, hm]
  · simp [hperm.mem_iff, hie]

lemma eraseReady {alloc free : List (Fin n)} {num count : ℤ} {state : DrainState} (hq : q.Listed)
    (hnodup : (free ++ alloc).Nodup) (hmem : ∀ i ≠ e, (i ∈ alloc ↔ i ∈ q.allocatedList))
    (hm : m.inService ↔ e ∈ alloc) :
    Listed ⟨update q.entries e m, alloc, q.readyList.erase e, free, num, count, state⟩ := by
  have hmem' : ∀ i, i ∈ q.readyList.erase e ↔ i ≠ e ∧ i ∈ q.readyList := fun _ =>
    hq.nodup_ready.mem_erase_iff
  refine hq.change hnodup (hq.nodup_ready.erase e) (sortedBy_update
    (List.Pairwise.sublist erase_sublist hq.sorted) fun he => absurd rfl ((hmem' e).1 he).1)
    ?_ hm.1 fun i hie => ⟨hmem i hie, by simp [hmem', hie]⟩
  rw [hmem', ← hm]
  simp

lemma notMem_ready (hq : q.Listed) (h : (q.entries e).inService) : e ∉ q.readyList := fun hmem => by
  rw [((hq.mem_ready e).1 hmem).2] at h
  cases h

end Listed

/-! ### Calls of the queue -/

lemma eraseReady_eq_ok (h : q.eraseReady e = .ok q') :
    e ∈ q.readyList ∧ q' = { q with readyList := q.readyList.erase e } := by
  obtain ⟨_, he, h⟩ := bind_eq_ok.1 h
  exact ⟨by simpa using require_eq_ok.1 he, (pure_eq_ok.1 h).symm⟩

lemma Listed.allocate {blkAddr : Addr} {blkSize : ℕ} {pkt : MSHR.Packet} {whenReady : Tick}
    {order : Counter} {allocOnFill : Bool} (hq : q.Listed)
    (h : q.allocate up curTick blkAddr blkSize pkt whenReady order allocOnFill
      = .ok (q', up', e)) : q'.Listed := by
  rw [MSHRQueue.allocate] at h
  split at h
  · simp at h
  rename_i i free hfree
  simp only [bind_eq_ok] at h
  obtain ⟨-, -, ⟨m, up1⟩, hm, q1, hadd, h⟩ := h
  cases h
  simp only [MSHR.allocate, bind_eq_ok] at hm
  obtain ⟨_, -, _, -, _, -, hm⟩ := hm
  cases hm
  have hnodup := hq.nodup
  rw [hfree, cons_append, nodup_cons] at hnodup
  have hready : e ∉ q.readyList := fun he =>
    hnodup.1 (mem_append_right free ((hq.mem_ready e).1 he).1)
  refine hq.addToReadyList hready ?_ (by simp) (fun i hie => by simp [hie]) rfl hadd _
  rw [← append_assoc, nodup_append_comm]
  exact nodup_cons.2 hnodup

lemma Listed.markInService {resp : Bool} (hq : q.Listed)
    (h : q.markInService up e resp = .ok (q', up')) : q'.Listed := by
  obtain ⟨⟨m, up1⟩, hm, h⟩ := bind_eq_ok.1 h
  obtain ⟨q1, herase, h⟩ := bind_eq_ok.1 h
  obtain ⟨he, rfl⟩ := eraseReady_eq_ok herase
  cases h
  exact hq.eraseReady hq.nodup (fun _ _ => .rfl)
    ⟨fun _ => ((hq.mem_ready e).1 he).1, fun _ => (MSHR.waiting_of_markInService hm).2⟩

lemma Listed.markPending (hq : q.Listed) (h : q.markPending e = .ok q') : q'.Listed := by
  obtain ⟨_, he, h⟩ := bind_eq_ok.1 h
  have he := require_eq_ok.1 he
  exact hq.addToReadyList (hq.notMem_ready he) hq.nodup (hq.mem_allocated e he) (fun _ _ => .rfl)
    (m := { q.entries e with inService := false }) rfl h _

lemma Listed.deallocate (hq : q.Listed) (h : q.deallocate e = .ok q') : q'.Listed := by
  obtain ⟨_, he, h⟩ := bind_eq_ok.1 h
  have he : e ∈ q.allocatedList := by simpa using require_eq_ok.1 he
  simp only [bind_eq_ok] at h
  obtain ⟨q1, h1, m, hm, h⟩ := h
  obtain ⟨-, hnodup, -⟩ := nodup_append.1 hq.nodup
  have hq' : q' = ⟨update q.entries e m, q.allocatedList.erase e, q.readyList.erase e,
      e :: q.freeList, q1.numInService, q.allocated - 1, q'.drainState⟩ := by
    rw [← pure_eq_ok.1 h]
    split at h1
    · rename_i hservice
      rw [← pure_eq_ok.1 h1, erase_of_not_mem (hq.notMem_ready hservice)]
      rfl
    · obtain ⟨-, rfl⟩ := eraseReady_eq_ok h1
      rfl
  rw [hq']
  refine hq.eraseReady ?_ (fun i hie => ?_) ?_
  · refine (List.Perm.nodup_iff ?_).1 hq.nodup
    exact ((perm_cons_erase he).append_left q.freeList).trans perm_middle
  · rw [hnodup.mem_erase_iff]
    exact and_iff_right hie
  · rw [(MSHR.waiting_of_deallocate hm).2, hnodup.mem_erase_iff]
    simp

/-! ### Delays -/

lemma readyList_eq (h : e ∈ q.readyList) :
    q.readyList = q.inFront e ++ e :: (q.fromEntry e).tail ∧
      q.fromEntry e = e :: (q.fromEntry e).tail := by
  obtain ⟨l1, l2, hlist, hnot⟩ := eq_append_cons_of_mem h
  have hall : ∀ i ∈ l1, (i != e) := by
    intro i hi
    exact bne_iff_ne.2 fun heq => hnot (heq ▸ hi)
  have hfront : q.inFront e = l1 := by
    rw [inFront, hlist, takeWhile_append_of_pos hall]
    simp
  have hfrom : q.fromEntry e = e :: l2 := by
    rw [fromEntry, hlist, dropWhile_append_of_pos hall]
    simp
  rw [hfront, hfrom]
  exact ⟨hlist, rfl⟩

lemma delay_eq_ok {ticks : Tick} (h : q.delay curTick e ticks = .ok q') :
    q.readyTime e ≤ curTick ∧ e ∈ q.readyList ∧
      q' = q.setEntry e { q.entries e with readyTime := curTick + ticks } := by
  obtain ⟨m, hm, h⟩ := bind_eq_ok.1 h
  obtain ⟨_, he, h⟩ := bind_eq_ok.1 h
  have he : e ∈ q.readyList := by simpa using require_eq_ok.1 he
  obtain ⟨_, hle, hm⟩ := bind_eq_ok.1 hm
  rw [← pure_eq_ok.1 hm] at h
  refine ⟨of_decide_eq_true (require_eq_ok.1 hle), he, ?_⟩
  -- the search stops at the entry itself
  rw [← pure_eq_ok.1 h, (readyList_eq (q := q.setEntry e _) he).2, findIdx_cons]
  simp [spliceReady]

/-- A new time of an entry fits between the times of its neighbours in the ready list. -/
def Fits (q : MSHRQueue n) (e : Fin n) (t : Tick) : Prop :=
  (∀ i ∈ q.inFront e, q.readyTime i ≤ t) ∧ ∀ i ∈ (q.fromEntry e).tail, t ≤ q.readyTime i

instance (q : MSHRQueue n) (e : Fin n) (t : Tick) : Decidable (q.Fits e t) :=
  inferInstanceAs (Decidable (_ ∧ _))

/-- The ready list stays sorted under `delay` only if the new time fits. -/
lemma sorted_delay_iff {ticks : Tick} (hq : q.Listed)
    (h : q.delay curTick e ticks = .ok q') : q'.Sorted ↔ q.Fits e (curTick + ticks) := by
  obtain ⟨-, he, rfl⟩ := delay_eq_ok h
  set m := { q.entries e with readyTime := curTick + ticks } with hm
  have hlist := (readyList_eq he).1
  have hnodup := hq.nodup_ready
  rw [hlist, nodup_append] at hnodup
  obtain ⟨-, htail, hdisj⟩ := hnodup
  have hother : ∀ i ≠ e, (q.setEntry e m).readyTime i = q.readyTime i := fun i hie =>
    congrArg MSHR.readyTime (update_of_ne hie ..)
  have hfront : ∀ i ∈ q.inFront e, (q.setEntry e m).readyTime i = q.readyTime i := fun i hi =>
    hother i (hdisj i hi e (by simp))
  have hbehind : ∀ i ∈ (q.fromEntry e).tail, (q.setEntry e m).readyTime i = q.readyTime i :=
    fun i hi => hother i fun heq => (nodup_cons.1 htail).1 (heq ▸ hi)
  have hself : (q.setEntry e m).readyTime e = curTick + ticks := by simp [readyTime, setEntry, hm]
  have hs := hq.sorted
  rw [Sorted, SortedBy, hlist, pairwise_append, pairwise_cons] at hs
  obtain ⟨hs1, ⟨hs2, hs3⟩, hs4⟩ := hs
  have hlist' : (q.setEntry e m).readyList = q.inFront e ++ e :: (q.fromEntry e).tail := hlist
  rw [Sorted, SortedBy, hlist', pairwise_append, pairwise_cons]
  constructor
  · rintro ⟨-, ⟨hafter, -⟩, hbefore⟩
    constructor
    · intro i hi
      rw [← hfront i hi, ← hself]
      exact hbefore i hi e (by simp)
    · intro i hi
      rw [← hbehind i hi, ← hself]
      exact hafter i hi
  · rintro ⟨hbefore, hafter⟩
    refine ⟨SortedBy.congr hs1 hfront, ⟨?_, SortedBy.congr hs3 hbehind⟩, ?_⟩
    · intro i hi
      rw [hself, hbehind i hi]
      exact hafter i hi
    · intro i hi j hj
      rw [hfront i hi]
      rcases mem_cons.1 hj with rfl | hj
      · rw [hself]
        exact hbefore i hi
      · rw [hbehind j hj]
        exact hs4 i hi j (mem_cons_of_mem e hj)

/-! ### Runs -/

/-- What the ready list is for: it holds the entries that wait, its first entry is the one that
is ready first, and an entry that is ready is found. -/
structure TimeOrdered (q : MSHRQueue n) : Prop where
  nodup : q.readyList.Nodup
  mem_iff : ∀ e, e ∈ q.readyList ↔ e ∈ q.allocatedList ∧ (q.entries e).inService = false
  sorted : q.Sorted
  nextReadyTime_le : ∀ e ∈ q.readyList, q.nextReadyTime ≤ q.readyTime e
  nextReadyTime_mem : q.readyList ≠ [] → ∃ e ∈ q.readyList, q.nextReadyTime = q.readyTime e
  getNext : ∀ curTick e, e ∈ q.allocatedList → (q.entries e).inService = false →
    q.readyTime e ≤ curTick → ∃ i ∈ q.readyList, q.getNext curTick = some i ∧
      q.readyTime i ≤ curTick

lemma Sorted.nextReadyTime_le (hs : q.Sorted) (he : e ∈ q.readyList) :
    q.nextReadyTime ≤ q.readyTime e := by
  rw [nextReadyTime]
  split
  · rename_i hnil
    rw [hnil] at he
    simp at he
  · rename_i i l hl
    rw [Sorted, SortedBy, hl, pairwise_cons] at hs
    rw [hl] at he
    rcases mem_cons.1 he with rfl | he
    · exact BitVec.le_refl _
    · exact hs.1 e he

lemma Listed.timeOrdered (hq : q.Listed) : q.TimeOrdered := by
  refine ⟨hq.nodup_ready, hq.mem_ready, hq.sorted, fun e => hq.sorted.nextReadyTime_le, ?_, ?_⟩
  · intro hne
    obtain ⟨i, l, hl⟩ := exists_cons_of_ne_nil hne
    exact ⟨i, by rw [hl]; simp, by rw [nextReadyTime, hl]⟩
  · intro curTick e he hservice htime
    have hmem : e ∈ q.readyList := (hq.mem_ready e).2 ⟨he, hservice⟩
    have hle := BitVec.le_trans (hq.sorted.nextReadyTime_le hmem) htime
    obtain ⟨i, l, hl⟩ := exists_cons_of_ne_nil (ne_nil_of_mem hmem)
    rw [nextReadyTime, hl] at hle
    refine ⟨i, by rw [hl]; simp, ?_, hle⟩
    rw [getNext, hl]
    exact if_neg (BitVec.not_lt.2 hle)

/-- A queue in use, and the marks of the MSHRs above. -/
structure System (n : ℕ) where
  queue : MSHRQueue n
  upstream : Upstream

namespace System

/-- The calls that are made to a queue, and to the entries of a queue. -/
inductive Action (n : ℕ) where
  | allocate (curTick : Tick) (blkAddr : Addr) (blkSize : ℕ) (pkt : MSHR.Packet)
      (whenReady : Tick) (order : Counter) (allocOnFill : Bool)
  | delay (curTick : Tick) (e : Fin n) (delayTicks : Tick)
  | markInService (e : Fin n) (pendingModifiedResp : Bool)
  | markPending (e : Fin n)
  | deallocate (e : Fin n)
  | drain
  | entry (e : Fin n) (call : MSHR.System.Action)

def step (s : System n) : Action n → Result (System n)
  | .allocate curTick blkAddr blkSize pkt whenReady order allocOnFill => do
      let r ← s.queue.allocate s.upstream curTick blkAddr blkSize pkt whenReady order allocOnFill
      return ⟨r.1, r.2.1⟩
  | .delay curTick e delayTicks => do
      let q ← s.queue.delay curTick e delayTicks
      return { s with queue := q }
  | .markInService e pendingModifiedResp => do
      let r ← s.queue.markInService s.upstream e pendingModifiedResp
      return ⟨r.1, r.2⟩
  | .markPending e => do
      let q ← s.queue.markPending e
      return { s with queue := q }
  | .deallocate e => do
      let q ← s.queue.deallocate e
      return { s with queue := q }
  | .drain => return { s with queue := s.queue.drain }
  | .entry e call => do
      let r ← MSHR.System.step ⟨s.queue.entries e, s.upstream, [], []⟩ call
      return ⟨s.queue.setEntry e r.mshr, r.upstream⟩

/-- The calls to an entry are those that the cache makes itself, and an entry is delayed to a
time that fits its place in the ready list. -/
def Orderly (s : System n) : Action n → Prop
  | .delay curTick e delayTicks => s.queue.Fits e (curTick + delayTicks)
  | .entry e call => call.isOwn (s.queue.entries e).inService
  | _ => True

instance (s : System n) (a : Action n) : Decidable (s.Orderly a) := by
  cases a <;> dsimp only [Orderly] <;> infer_instance

def initial (n : ℕ) (upstream : Upstream) : System n := ⟨.init n, upstream⟩

variable {s s' : System n} {a : Action n} {as : List (Action n)}

lemma listed_init (n : ℕ) : (MSHRQueue.init n).Listed := by
  refine ⟨?_, nodup_nil, ?_, ?_, .nil⟩
  · simpa [MSHRQueue.init] using nodup_finRange n
  · simp [MSHRQueue.init]
  · simp [MSHRQueue.init, MSHR.init]

lemma step_invariant (hq : s.queue.Listed) (hok : s.Orderly a) (h : s.step a = .ok s') :
    s'.queue.Listed := by
  cases a with
  | allocate curTick blkAddr blkSize pkt whenReady order allocOnFill =>
    obtain ⟨_, hcall, rfl⟩ := bind_pure_eq_ok.1 h
    exact hq.allocate hcall
  | delay curTick e delayTicks =>
    obtain ⟨q, hcall, rfl⟩ := bind_pure_eq_ok.1 h
    have hsorted := (sorted_delay_iff hq hcall).2 hok
    obtain ⟨-, -, rfl⟩ := delay_eq_ok hcall
    exact hq.setEntry rfl hsorted
  | markInService e pendingModifiedResp =>
    obtain ⟨_, hcall, rfl⟩ := bind_pure_eq_ok.1 h
    exact hq.markInService hcall
  | markPending e =>
    obtain ⟨q, hcall, rfl⟩ := bind_pure_eq_ok.1 h
    exact hq.markPending hcall
  | deallocate e =>
    obtain ⟨q, hcall, rfl⟩ := bind_pure_eq_ok.1 h
    exact hq.deallocate hcall
  | drain =>
    rw [← pure_eq_ok.1 h]
    exact ⟨hq.nodup, hq.nodup_ready, hq.mem_ready, hq.mem_allocated, hq.sorted⟩
  | entry e call =>
    obtain ⟨r, hcall, rfl⟩ := bind_pure_eq_ok.1 h
    obtain ⟨hservice, htime⟩ := (MSHR.System.step_spec hcall).2 hok
    exact hq.setEntry hservice
      (sortedBy_update hq.sorted fun he => htime ((hq.mem_ready e).1 he).2)

/-- In every run in which each delayed entry fits its place, the ready list is ordered by time.
And a further call of `delay` keeps it sorted only if it meets this condition as well. -/
theorem exec_timeOrdered {up : Upstream}
    (h : Exec (Guarded Orderly step) (initial n up) as s) :
    s.queue.TimeOrdered ∧ ∀ curTick e ticks q, s.queue.delay curTick e ticks = .ok q →
      (q.Sorted ↔ s.queue.Fits e (curTick + ticks)) := by
  have hq : s.queue.Listed := h.invariant_state (I := fun s => s.queue.Listed) (listed_init n)
    fun hi hstep => step_invariant hi hstep.1 hstep.2
  exact ⟨hq.timeOrdered, fun curTick e ticks q hdelay => sorted_delay_iff hq hdelay⟩

/-- A miss at tick 0 and one that is ready at tick 5 or later; the first is delayed. -/
def delayRun {n : ℕ} [NeZero n] (whenReady delayTicks : Tick) : List (Action n) :=
  [.allocate 0 0x40 8 (MSHR.System.blockPacket 1 .writeReq) 0 0 true,
    .allocate 0 0x80 8 (MSHR.System.blockPacket 2 .writeReq) whenReady 1 true,
    .delay 0 0 delayTicks]

theorem exec_timeOrdered_delayRun : ∃ s : System 2, s.queue.TimeOrdered ∧
    s.queue.readyList = [0, 1] ∧ s.queue.nextReadyTime = 3 := by
  have h : Exec (Guarded Orderly step) (initial 2 fun _ => false) (delayRun 5 3) _ :=
    exec_of_replay rfl
  exact ⟨_, (exec_timeOrdered h).1, rfl, rfl⟩

/-- The first miss is delayed to tick 100 and stays in front of the second one, which is ready
at tick 5 and not found at tick 10. -/
theorem delayed_entry_blocks_ready_one : ∃ s : System 2,
    Exec (Guarded (fun _ _ => True) step) (initial 2 fun _ => false) (delayRun 5 100) s ∧
      1 ∈ s.queue.readyList ∧ s.queue.readyTime 1 = 5 ∧ s.queue.nextReadyTime = 100 ∧
      s.queue.getNext 10 = none ∧ ¬ s.queue.TimeOrdered := by
  refine ⟨_, exec_of_replay rfl, by decide, rfl, rfl, rfl, ?_⟩
  intro hordered
  exact absurd (hordered.nextReadyTime_le 1 (by decide)) (by decide)

end System

end MSHRQueue

end ChipletGem5
