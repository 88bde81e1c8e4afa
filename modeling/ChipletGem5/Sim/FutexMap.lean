import ChipletGem5.Lib.Exec
import ChipletGem5.Lib.Result

/-!
# Futexes

`FutexMap` (sim/futex_map.hh) has a list of waiting threads for each futex that has one.  It
refines a queue for each futex: `Effect` says what each call does to the queues, and
`FutexMap.call_refines_iff` that the calls do this in every state that can be reached.  A call of
`requeue` that moves no thread to a futex without waiters is not defined, since it goes to the list
of a futex that is not in the map.
-/

namespace ChipletGem5.Futex

open Function List

/-! ### The map -/

/-- An address of a futex, with a thread group. -/
structure FutexKey where
  addr : BitVec 64
  tgid : BitVec 64
deriving DecidableEq

inductive Status where
  | Active | Suspended | Halting | Halted
deriving DecidableEq

/-- A thread that waits, with its bitmask. -/
structure WaiterState (T : Type) where
  tc : T
  bitmask : BitVec 32
deriving DecidableEq

/-- `WaiterState(ThreadContext*)`, which has all bits. -/
def WaiterState.ofThread {T : Type} (tc : T) : WaiterState T := ⟨tc, 0xffffffff⟩

def WaiterState.checkMask {T : Type} (w : WaiterState T) (wakeupBitmask : BitVec 32) : Bool :=
  w.bitmask &&& wakeupBitmask ≠ 0

abbrev WaiterList (T : Type) := List (WaiterState T)

/-- The map, with the states of all threads. -/
structure FutexMap (T : Type) where
  find : FutexKey → Option (WaiterList T)
  status : T → Status

namespace FutexMap

variable {T : Type} [DecidableEq T] (m : FutexMap T)

def empty (status : T → Status) : FutexMap T := ⟨fun _ => none, status⟩

/-- The list of a futex that is in the map is replaced, or a futex is put into it. -/
def insert (key : FutexKey) (l : WaiterList T) : FutexMap T :=
  { m with find := update m.find key (some l) }

/-- The futex is erased if its list is empty. -/
def eraseIfEmpty (key : FutexKey) : FutexMap T :=
  match m.find key with
  | some [] => { m with find := update m.find key none }
  | _ => m

/-- `ThreadContext::suspend` and `ThreadContext::activate`. -/
def setStatus (tc : T) (st : Status) : FutexMap T :=
  { m with status := update m.status tc st }

/-- A waiter is put at the end of the list of a futex, and its thread is suspended. -/
def suspendWaiter (key : FutexKey) (w : WaiterState T) : FutexMap T :=
  match m.find key with
  | none => (m.insert key [w]).setStatus w.tc .Suspended
  | some l => (m.insert key (l ++ [w])).setStatus w.tc .Suspended

def suspend (addr tgid : BitVec 64) (tc : T) : FutexMap T :=
  m.suspendWaiter ⟨addr, tgid⟩ (.ofThread tc)

def suspendBitset (addr tgid : BitVec 64) (tc : T) (bitmask : BitVec 32) : FutexMap T :=
  m.suspendWaiter ⟨addr, tgid⟩ ⟨tc, bitmask⟩

/-- The loop of `FutexMap::wakeup`: the list, the number of threads that were woken up and the
states of the threads. -/
def wakeupLoop (count : ℤ) : WaiterList T → ℤ → (T → Status) → WaiterList T × ℤ × (T → Status)
  | [], wokenUp, status => ([], wokenUp, status)
  | w :: l, wokenUp, status =>
      if wokenUp < count then
        if status w.tc = .Suspended then
          wakeupLoop count l (wokenUp + 1) (update status w.tc .Active)
        else wakeupLoop count l wokenUp status
      else (w :: l, wokenUp, status)

def wakeup (addr tgid : BitVec 64) (count : ℤ) : ℤ × FutexMap T :=
  match m.find ⟨addr, tgid⟩ with
  | none => (0, m)
  | some l =>
      let (l, wokenUp, status) := wakeupLoop count l 0 m.status
      (wokenUp, ({ m with status }.insert ⟨addr, tgid⟩ l).eraseIfEmpty ⟨addr, tgid⟩)

/-- The loop of `FutexMap::wakeup_bitset`. -/
def wakeupBitsetLoop (bitmask : BitVec 32) :
    WaiterList T → ℤ → (T → Status) → WaiterList T × ℤ × (T → Status)
  | [], wokenUp, status => ([], wokenUp, status)
  | w :: l, wokenUp, status =>
      if w.checkMask bitmask then
        wakeupBitsetLoop bitmask l (wokenUp + 1) (update status w.tc .Active)
      else
        let (l, wokenUp, status) := wakeupBitsetLoop bitmask l wokenUp status
        (w :: l, wokenUp, status)

def wakeupBitset (addr tgid : BitVec 64) (bitmask : BitVec 32) : ℤ × FutexMap T :=
  match m.find ⟨addr, tgid⟩ with
  | none => (0, m)
  | some l =>
      let (l, wokenUp, status) := wakeupBitsetLoop bitmask l 0 m.status
      (wokenUp, ({ m with status }.insert ⟨addr, tgid⟩ l).eraseIfEmpty ⟨addr, tgid⟩)

/-- The first loop of `FutexMap::requeue`, which activates threads. -/
def requeueWake (count : ℤ) : WaiterList T → ℤ → (T → Status) → WaiterList T × ℤ × (T → Status)
  | [], wokenUp, status => ([], wokenUp, status)
  | w :: l, wokenUp, status =>
      if wokenUp < count then
        requeueWake count l (wokenUp + 1) (update status w.tc .Active)
      else (w :: l, wokenUp, status)

omit [DecidableEq T] in
/-- The second loop, which moves waiters to `tmpList`. -/
def requeueMove (count2 : ℤ) : WaiterList T → WaiterList T → ℤ → WaiterList T × WaiterList T × ℤ
  | [], tmpList, requeued => ([], tmpList, requeued)
  | w :: l, tmpList, requeued =>
      if requeued < count2 then requeueMove count2 l (tmpList ++ [w]) (requeued + 1)
      else (w :: l, tmpList, requeued)

def requeue (addr1 tgid : BitVec 64) (count count2 : ℤ) (addr2 : BitVec 64) :
    Result (ℤ × FutexMap T) := do
  match m.find ⟨addr1, tgid⟩ with
  | none => return (0, m)
  | some l =>
      let (l, wokenUp, status) := requeueWake count l 0 m.status
      let (l, tmpList, requeued) := requeueMove count2 l [] 0
      let m₁ := { m with status }.insert ⟨addr1, tgid⟩ l
      let m₂ ← match m₁.find ⟨addr2, tgid⟩ with
        | none =>
            if requeued > 0 then pure (m₁.insert ⟨addr2, tgid⟩ tmpList)
            else .error (.undefined "it2->second")
        | some l₂ => pure (m₁.insert ⟨addr2, tgid⟩ (l₂ ++ tmpList))
      return (wokenUp + requeued, m₂.eraseIfEmpty ⟨addr1, tgid⟩)

end FutexMap

/-- The calls; a thread may change its state at any time. -/
inductive Op (T : Type) where
  | suspend (addr tgid : BitVec 64) (tc : T)
  | suspendBitset (addr tgid : BitVec 64) (tc : T) (bitmask : BitVec 32)
  | wakeup (addr tgid : BitVec 64) (count : ℤ)
  | wakeupBitset (addr tgid : BitVec 64) (bitmask : BitVec 32)
  | requeue (addr1 tgid : BitVec 64) (count count2 : ℤ) (addr2 : BitVec 64)
  | setStatus (tc : T) (st : Status)

def FutexMap.call {T : Type} [DecidableEq T] (m : FutexMap T) :
    Op T → Result (Option ℤ × FutexMap T)
  | .suspend addr tgid tc => .ok (none, m.suspend addr tgid tc)
  | .suspendBitset addr tgid tc bitmask => .ok (none, m.suspendBitset addr tgid tc bitmask)
  | .wakeup addr tgid count =>
      let (wokenUp, m') := m.wakeup addr tgid count
      .ok (some wokenUp, m')
  | .wakeupBitset addr tgid bitmask =>
      let (wokenUp, m') := m.wakeupBitset addr tgid bitmask
      .ok (some wokenUp, m')
  | .requeue addr1 tgid count count2 addr2 => do
      let (n, m') ← m.requeue addr1 tgid count count2 addr2
      return (some n, m')
  | .setStatus tc st => .ok (none, m.setStatus tc st)

/-! ### Queues -/

/-- A queue for every futex, and the states of the threads. -/
@[ext]
structure Queues (T : Type) where
  queue : FutexKey → WaiterList T
  status : T → Status

section Effect

variable {T : Type} [DecidableEq T]

/-- The threads in a list that are suspended, in the order in which they come first. -/
def suspendedIn (status : T → Status) (l : WaiterList T) : List T :=
  ((l.map (·.tc)).filter (status · = .Suspended)).eraseDups

/-- The states of the threads after some are activated. -/
def activate (status : T → Status) (tcs : List T) (tc : T) : Status :=
  if tc ∈ tcs then .Active else status tc

/-- What a call does to the queues. -/
def Effect (q : Queues T) (q' : Queues T) : Op T → Option ℤ → Prop
  | .suspend addr tgid tc, r => r = none ∧
      q' = ⟨update q.queue ⟨addr, tgid⟩ (q.queue ⟨addr, tgid⟩ ++ [⟨tc, 0xffffffff⟩]),
        update q.status tc .Suspended⟩
  | .suspendBitset addr tgid tc bitmask, r => r = none ∧
      q' = ⟨update q.queue ⟨addr, tgid⟩ (q.queue ⟨addr, tgid⟩ ++ [⟨tc, bitmask⟩]),
        update q.status tc .Suspended⟩
  | .wakeup addr tgid count, r =>
      -- the queue is shortened up to the last thread that is woken, or to its end
      ∃ passed rest, q.queue ⟨addr, tgid⟩ = passed ++ rest ∧
        (suspendedIn q.status (q.queue ⟨addr, tgid⟩)).take count.toNat =
          suspendedIn q.status passed ∧
        (rest = [] ∨ (suspendedIn q.status passed).length = count) ∧
        (∀ l w, passed = l ++ [w] → (suspendedIn q.status l).length < count) ∧
        r = some ((suspendedIn q.status passed).length : ℤ) ∧
        q' = ⟨update q.queue ⟨addr, tgid⟩ rest,
          activate q.status (suspendedIn q.status passed)⟩
  | .wakeupBitset addr tgid bitmask, r =>
      let woken := (q.queue ⟨addr, tgid⟩).filter (·.checkMask bitmask)
      r = some (woken.length : ℤ) ∧
        q' = ⟨update q.queue ⟨addr, tgid⟩
            ((q.queue ⟨addr, tgid⟩).filter fun w => !w.checkMask bitmask),
          activate q.status (woken.map (·.tc))⟩
  | .requeue addr1 tgid count count2 addr2, r =>
      let woken := (q.queue ⟨addr1, tgid⟩).take count.toNat
      let moved := ((q.queue ⟨addr1, tgid⟩).drop count.toNat).take count2.toNat
      let rest := ((q.queue ⟨addr1, tgid⟩).drop count.toNat).drop count2.toNat
      let left := update q.queue ⟨addr1, tgid⟩ rest
      r = some (woken.length + moved.length : ℤ) ∧
        q' = ⟨update left ⟨addr2, tgid⟩ (left ⟨addr2, tgid⟩ ++ moved),
          activate q.status (woken.map (·.tc))⟩
  | .setStatus tc st, r => r = none ∧ q' = { q with status := update q.status tc st }

end Effect

namespace FutexMap

section Refines

variable {T : Type} {m m' : FutexMap T} {key : FutexKey} {l : WaiterList T}

/-- The queues of the map; a futex that is not in the map has no waiters. -/
def toQueues (m : FutexMap T) : Queues T := ⟨fun key => (m.find key).getD [], m.status⟩

/-- Every futex in the map has a waiter. -/
def NonEmpty (m : FutexMap T) : Prop := ∀ key, m.find key ≠ some []

lemma toQueues_queue_of_find (h : m.find key = some l) : m.toQueues.queue key = l := by
  simp [toQueues, h]

lemma toQueues_queue_of_none (h : m.find key = none) : m.toQueues.queue key = [] := by
  simp [toQueues, h]

lemma toQueues_insert : (m.insert key l).toQueues = ⟨update m.toQueues.queue key l, m.status⟩ := by
  refine Queues.ext (funext fun key' => ?_) rfl
  by_cases hkey : key' = key
  · subst hkey
    simp [toQueues, insert]
  · simp [toQueues, insert, hkey]

lemma toQueues_eraseIfEmpty : (m.eraseIfEmpty key).toQueues = m.toQueues := by
  rw [eraseIfEmpty]
  split
  next h =>
    refine Queues.ext (funext fun key' => ?_) rfl
    by_cases hkey : key' = key
    · subst hkey
      simp [toQueues, h]
    · simp [toQueues, hkey]
  next => rfl

lemma NonEmpty.insert (h : m.NonEmpty) (hl : l ≠ []) : (m.insert key l).NonEmpty := by
  intro key'
  by_cases hkey : key' = key
  · subst hkey
    simpa [FutexMap.insert] using hl
  · simpa [FutexMap.insert, hkey] using h key'

lemma nonEmpty_eraseIfEmpty (h : ∀ key', key' ≠ key → m.find key' ≠ some []) :
    (m.eraseIfEmpty key).NonEmpty := by
  intro key'
  rw [eraseIfEmpty]
  by_cases hkey : key' = key
  · subst hkey
    split
    next => simp
    next hne => exact hne
  · split
    next => simpa [hkey] using h key' hkey
    next => exact h key' hkey

lemma NonEmpty.eraseIfEmpty_insert (h : m.NonEmpty) :
    ((m.insert key l).eraseIfEmpty key).NonEmpty :=
  nonEmpty_eraseIfEmpty fun key' hkey => by simpa [FutexMap.insert, hkey] using h key'

variable [DecidableEq T]

lemma toQueues_suspendWaiter (w : WaiterState T) : (m.suspendWaiter key w).toQueues =
    ⟨update m.toQueues.queue key (m.toQueues.queue key ++ [w]),
      update m.status w.tc .Suspended⟩ := by
  have hset (m : FutexMap T) : (m.setStatus w.tc .Suspended).toQueues =
      { m.toQueues with status := update m.status w.tc .Suspended } := rfl
  rw [suspendWaiter]
  split
  next h =>
    rw [hset, toQueues_insert, toQueues_queue_of_none h]
    rfl
  next l h =>
    rw [hset, toQueues_insert, toQueues_queue_of_find h]
    rfl

lemma NonEmpty.suspendWaiter (h : m.NonEmpty) (w : WaiterState T) :
    (m.suspendWaiter key w).NonEmpty := by
  rw [FutexMap.suspendWaiter]
  split
  next => exact h.insert (by simp)
  next => exact h.insert (by simp)

end Refines

/-! ### Loops -/

section Loops

variable {T : Type} [DecidableEq T] {count : ℤ} {l : WaiterList T} {n : ℤ} {status : T → Status}

lemma activate_nil : activate status [] = status := by
  ext tc
  simp [activate]

lemma activate_cons (tc : T) (tcs : List T) :
    activate status (tc :: tcs) = activate (update status tc .Active) tcs := by
  ext tc'
  by_cases hmem : tc' ∈ tcs
  · simp [activate, hmem]
  · by_cases htc : tc' = tc
    · simp [activate, htc]
    · simp [activate, hmem, htc]

lemma suspendedIn_cons_of_suspended {w : WaiterState T} (h : status w.tc = .Suspended) :
    suspendedIn status (w :: l) =
      w.tc :: suspendedIn (update status w.tc .Active) l := by
  have hfilter : ((l.map (·.tc)).filter (status · = .Suspended)).filter (fun tc => !tc == w.tc) =
      (l.map (·.tc)).filter (update status w.tc .Active · = .Suspended) := by
    rw [filter_filter]
    refine filter_congr fun tc _ => ?_
    by_cases htc : tc = w.tc <;> simp [htc]
  rw [suspendedIn, map_cons, filter_cons_of_pos (by simpa using h),
    eraseDups_cons, hfilter, suspendedIn]

lemma suspendedIn_cons_of_ne {w : WaiterState T} (h : status w.tc ≠ .Suspended) :
    suspendedIn status (w :: l) = suspendedIn status l := by
  rw [suspendedIn, map_cons, filter_cons_of_neg (by simpa using h), suspendedIn]

lemma wakeupLoop_spec (l : WaiterList T) (status : T → Status) (hn : n ≤ count) :
    ∃ passed rest, l = passed ++ rest ∧
    wakeupLoop count l n status = (rest, n + (suspendedIn status passed).length,
      activate status (suspendedIn status passed)) ∧
    n + (suspendedIn status passed).length ≤ count ∧
    (rest = [] ∨ n + (suspendedIn status passed).length = count) ∧
    ∀ l' w, passed = l' ++ [w] → n + (suspendedIn status l').length < count := by
  induction l generalizing n status with
  | nil =>
    refine ⟨[], [], rfl, ?_, by simpa [suspendedIn] using hn, .inl rfl, by simp⟩
    simp [wakeupLoop, suspendedIn, activate_nil]
  | cons w l ih =>
    by_cases hlt : n < count
    · by_cases hw : status w.tc = .Suspended
      · obtain ⟨passed, rest, rfl, hloop, hle, hend, hlast⟩ :=
          ih (n := n + 1) (update status w.tc .Active) (by omega)
        refine ⟨w :: passed, rest, rfl, ?_, ?_, ?_, ?_⟩
        · rw [wakeupLoop, if_pos hlt, if_pos hw, hloop, suspendedIn_cons_of_suspended hw,
            activate_cons]
          simp only [length_cons, Nat.cast_add, Nat.cast_one]
          congr 2
          omega
        · rw [suspendedIn_cons_of_suspended hw, length_cons]
          omega
        · rw [suspendedIn_cons_of_suspended hw, length_cons]
          exact hend.imp_right fun h => by push_cast; omega
        · intro l' w' heq
          rcases cons_eq_append_iff.1 heq with ⟨rfl, -⟩ | ⟨l'', rfl, heq'⟩
          · simpa [suspendedIn] using hlt
          · have := hlast l'' w' heq'
            rw [suspendedIn_cons_of_suspended hw, length_cons]
            omega
      · obtain ⟨passed, rest, rfl, hloop, hle, hend, hlast⟩ := ih status hn
        refine ⟨w :: passed, rest, rfl, ?_, ?_, ?_, ?_⟩
        · rw [wakeupLoop, if_pos hlt, if_neg hw, hloop, suspendedIn_cons_of_ne hw]
        · rwa [suspendedIn_cons_of_ne hw]
        · rwa [suspendedIn_cons_of_ne hw]
        · intro l' w' heq
          rcases cons_eq_append_iff.1 heq with ⟨rfl, -⟩ | ⟨l'', rfl, heq'⟩
          · simpa [suspendedIn] using hlt
          · rw [suspendedIn_cons_of_ne hw]
            exact hlast l'' w' heq'
    · refine ⟨[], w :: l, rfl, ?_, by simpa [suspendedIn] using hn, .inr ?_, by simp⟩
      · simp [wakeupLoop, suspendedIn, activate_nil, hlt]
      · simp only [suspendedIn, map_nil, filter_nil, eraseDups_nil, length_nil]
        omega

lemma wakeupBitsetLoop_eq (bitmask : BitVec 32) : wakeupBitsetLoop bitmask l n status =
    (l.filter fun w => !w.checkMask bitmask, n + (l.filter (·.checkMask bitmask)).length,
      activate status ((l.filter (·.checkMask bitmask)).map (·.tc))) := by
  induction l generalizing n status with
  | nil => simp [wakeupBitsetLoop, activate_nil]
  | cons w l ih =>
    by_cases hw : w.checkMask bitmask
    · rw [wakeupBitsetLoop, if_pos hw, ih]
      simp only [hw, Bool.not_true, Bool.false_eq_true, not_false_eq_true, filter_cons_of_neg,
        filter_cons_of_pos, length_cons, map_cons, activate_cons]
      congr 2
      omega
    · rw [wakeupBitsetLoop, if_neg hw, ih]
      simp [hw]

lemma requeueWake_eq (l : WaiterList T) (status : T → Status) (hn : n ≤ count) :
    requeueWake count l n status =
    (l.drop (count - n).toNat, n + (l.take (count - n).toNat).length,
      activate status ((l.take (count - n).toNat).map (·.tc))) := by
  induction l generalizing n status with
  | nil => simp [requeueWake, activate_nil]
  | cons w l ih =>
    by_cases hlt : n < count
    · obtain ⟨k, hk⟩ : ∃ k, (count - n).toNat = k + 1 := ⟨(count - n).toNat - 1, by omega⟩
      have hk' : (count - (n + 1)).toNat = k := by omega
      rw [requeueWake, if_pos hlt, ih _ (by omega), hk, hk', drop_succ_cons,
        take_succ_cons, map_cons, activate_cons, length_cons]
      congr 2
      omega
    · have hk : (count - n).toNat = 0 := by omega
      simp [requeueWake, hlt, hk, activate_nil]

omit [DecidableEq T] in
lemma requeueMove_eq (l tmpList : WaiterList T) (hn : n ≤ count) : requeueMove count l tmpList n =
    (l.drop (count - n).toNat, tmpList ++ l.take (count - n).toNat,
      n + (l.take (count - n).toNat).length) := by
  induction l generalizing n tmpList with
  | nil => simp [requeueMove]
  | cons w l ih =>
    by_cases hlt : n < count
    · obtain ⟨k, hk⟩ : ∃ k, (count - n).toNat = k + 1 := ⟨(count - n).toNat - 1, by omega⟩
      have hk' : (count - (n + 1)).toNat = k := by omega
      rw [requeueMove, if_pos hlt, ih _ (by omega), hk, hk', drop_succ_cons,
        take_succ_cons, length_cons, append_assoc]
      congr 2
      omega
    · have hk : (count - n).toNat = 0 := by omega
      simp [requeueMove, hlt, hk]

end Loops

/-! ### Calls -/

section Calls

variable {T : Type} [DecidableEq T] {m m' : FutexMap T} {op : Op T} {r : Option ℤ}

variable {addr tgid addr1 addr2 : BitVec 64} {count count2 : ℤ}

lemma wakeup_effect (hcount : 0 ≤ count) :
    Effect m.toQueues (m.wakeup addr tgid count).2.toQueues (.wakeup addr tgid count)
      (some (m.wakeup addr tgid count).1) := by
  rw [wakeup]
  split
  next h =>
    have hnil := toQueues_queue_of_none h
    refine ⟨[], [], hnil, ?_, .inl rfl, by simp, rfl, ?_⟩
    · rw [hnil]
      simp [suspendedIn]
    · refine Queues.ext ?_ ?_
      · exact (update_eq_self_iff.2 hnil.symm).symm
      · exact activate_nil.symm
  next l h =>
    have hqueue := toQueues_queue_of_find h
    obtain ⟨passed, rest, rfl, hloop, hle, hend, hlast⟩ := wakeupLoop_spec l m.status hcount
    simp only [zero_add] at hloop hle hend hlast
    rw [hloop]
    refine ⟨passed, rest, hqueue, ?_, hend, hlast, rfl, ?_⟩
    · -- all threads that are suspended are woken unless their number is reached
      rw [hqueue]
      rcases hend with rfl | heq
      · rw [append_nil]
        exact take_of_length_le
          (show (suspendedIn m.status passed).length ≤ count.toNat by omega)
      · have hlen : count.toNat = (suspendedIn m.status passed).length := by omega
        simp only [hlen, suspendedIn, map_append, filter_append, eraseDups_append]
        exact take_left
    · rw [toQueues_eraseIfEmpty, toQueues_insert]
      rfl

lemma wakeupBitset_effect {bitmask : BitVec 32} :
    Effect m.toQueues (m.wakeupBitset addr tgid bitmask).2.toQueues
      (.wakeupBitset addr tgid bitmask) (some (m.wakeupBitset addr tgid bitmask).1) := by
  rw [wakeupBitset]
  split
  next h =>
    have hnil := toQueues_queue_of_none h
    refine ⟨?_, Queues.ext ?_ ?_⟩
    · simp [hnil]
    · rw [hnil]
      exact (update_eq_self_iff.2 hnil.symm).symm
    · rw [hnil]
      exact activate_nil.symm
  next l h =>
    rw [wakeupBitsetLoop_eq]
    constructor
    · simp [toQueues_queue_of_find h]
    · rw [toQueues_eraseIfEmpty, toQueues_insert, toQueues_queue_of_find h]
      rfl

lemma NonEmpty.wakeup (hm : m.NonEmpty) : (m.wakeup addr tgid count).2.NonEmpty := by
  rw [FutexMap.wakeup]
  split
  next => exact hm
  next => exact NonEmpty.eraseIfEmpty_insert (m := { m with status := _ }) hm

lemma NonEmpty.wakeupBitset {bitmask : BitVec 32} (hm : m.NonEmpty) :
    (m.wakeupBitset addr tgid bitmask).2.NonEmpty := by
  rw [FutexMap.wakeupBitset]
  split
  next => exact hm
  next => exact NonEmpty.eraseIfEmpty_insert (m := { m with status := _ }) hm

/-- The calls of `requeue` that are defined: if the first futex has waiters and the second is not
in the map, a waiter is moved. -/
def RequeueDefined (m : FutexMap T) (addr1 tgid : BitVec 64) (count count2 : ℤ)
    (addr2 : BitVec 64) : Prop :=
  ∀ l, m.find ⟨addr1, tgid⟩ = some l → m.find ⟨addr2, tgid⟩ = none →
    0 < count2 ∧ count.toNat < l.length

lemma requeue_of_find (addr2 : BitVec 64)
    {l : WaiterList T} (hcount : 0 ≤ count) (hcount2 : 0 ≤ count2)
    (h : m.find ⟨addr1, tgid⟩ = some l) :
    let moved := (l.drop count.toNat).take count2.toNat
    let m1 := FutexMap.insert
      { m with status := activate m.status ((l.take count.toNat).map WaiterState.tc) }
      ⟨addr1, tgid⟩ ((l.drop count.toNat).drop count2.toNat)
    m.requeue addr1 tgid count count2 addr2 =
      if m1.find ⟨addr2, tgid⟩ = none ∧ moved = [] then .error (.undefined "it2->second")
      else .ok ((l.take count.toNat).length + moved.length,
        (m1.insert ⟨addr2, tgid⟩ (m1.toQueues.queue ⟨addr2, tgid⟩ ++ moved)).eraseIfEmpty
          ⟨addr1, tgid⟩) := by
  intro moved m1
  have hwake := requeueWake_eq l m.status hcount
  have hmove := requeueMove_eq (l.drop count.toNat) [] hcount2
  rw [Int.sub_zero, zero_add] at hwake hmove
  have hpos : (moved.length : ℤ) > 0 ↔ moved ≠ [] := by
    rw [gt_iff_lt, Nat.cast_pos, length_pos_iff]
  simp only [requeue, h, hwake, hmove, nil_append]
  split
  next hnone =>
    have hfind : m1.find ⟨addr2, tgid⟩ = none := hnone
    by_cases hmoved : moved = []
    · rw [if_neg (hpos.not.2 (not_not.2 hmoved)), if_pos ⟨hfind, hmoved⟩]
      rfl
    · rw [if_pos (hpos.2 hmoved), if_neg (by simp [hmoved]), toQueues_queue_of_none hfind,
        nil_append]
      rfl
  next l2 hsome =>
    have hfind : m1.find ⟨addr2, tgid⟩ = some l2 := hsome
    rw [if_neg (by simp [hfind]), toQueues_queue_of_find hfind]
    rfl

omit [DecidableEq T] in
lemma requeueDefined_iff {l : WaiterList T}
    {status : T → Status} (h : m.find ⟨addr1, tgid⟩ = some l) :
    m.RequeueDefined addr1 tgid count count2 addr2 ↔
      ¬ ((FutexMap.insert { m with status } ⟨addr1, tgid⟩
          ((l.drop count.toNat).drop count2.toNat)).find ⟨addr2, tgid⟩ = none ∧
        (l.drop count.toNat).take count2.toNat = []) := by
  have hmoved : (l.drop count.toNat).take count2.toNat = [] ↔
      ¬ (0 < count2 ∧ count.toNat < l.length) := by
    rw [← length_eq_zero_iff, length_take, length_drop]
    omega
  rw [hmoved, not_and_not_right, RequeueDefined]
  by_cases haddr : addr2 = addr1
  · subst haddr
    simp [h, FutexMap.insert]
  · have hne : (⟨addr2, tgid⟩ : FutexKey) ≠ ⟨addr1, tgid⟩ := fun heq => haddr (by injection heq)
    simp [h, FutexMap.insert, hne]

/-- The conditions under which the calls are defined. -/
def Defined (m : FutexMap T) : Op T → Prop
  | .requeue addr1 tgid count count2 addr2 => m.RequeueDefined addr1 tgid count count2 addr2
  | _ => True

lemma requeue_spec (hcount : 0 ≤ count)
    (hcount2 : 0 ≤ count2) (hdef : m.RequeueDefined addr1 tgid count count2 addr2)
    (hm : m.NonEmpty) : ∃ n m', m.requeue addr1 tgid count count2 addr2 = .ok (n, m') ∧
      m'.NonEmpty ∧
      Effect m.toQueues m'.toQueues (.requeue addr1 tgid count count2 addr2) (some n) := by
  rcases h : m.find ⟨addr1, tgid⟩ with _ | l
  · have hnil := toQueues_queue_of_none h
    refine ⟨0, m, by simp [requeue, h], hm, by simp [hnil], Queues.ext ?_ ?_⟩
    · simp only [hnil, drop_nil, take_nil, append_nil]
      rw [update_eq_self_iff.2 rfl, update_eq_self_iff.2 hnil.symm]
    · simp only [hnil, take_nil, map_nil]
      exact activate_nil.symm
  · have hreq := requeue_of_find addr2 hcount hcount2 h
    dsimp only at hreq
    rw [if_neg ((requeueDefined_iff h).1 hdef)] at hreq
    refine ⟨_, _, hreq, ?_, ?_⟩
    · refine nonEmpty_eraseIfEmpty fun key' hkey => ?_
      by_cases hkey2 : key' = ⟨addr2, tgid⟩
      · -- the queue of the second futex had a waiter or gets one
        subst hkey2
        have hne : (⟨addr2, tgid⟩ : FutexKey) ≠ ⟨addr1, tgid⟩ := hkey
        rcases h2 : m.find ⟨addr2, tgid⟩ with _ | l2
        · obtain ⟨hpos, hlt⟩ := hdef l h h2
          have hlen : ((l.drop count.toNat).take count2.toNat).length ≠ 0 := by
            rw [length_take, length_drop]
            omega
          simp only [FutexMap.insert, update_self, ne_eq, Option.some.injEq,
            append_eq_nil_iff, not_and]
          exact fun _ hnil => hlen (by rw [hnil, length_nil])
        · have hl2 : l2 ≠ [] := fun heq => hm _ (heq ▸ h2)
          simp [FutexMap.insert, toQueues, hne, h2, hl2]
      · simpa [FutexMap.insert, hkey, hkey2] using hm key'
    · rw [toQueues_eraseIfEmpty, toQueues_insert, toQueues_insert]
      simp only [Effect, toQueues_queue_of_find h]
      exact ⟨trivial, rfl⟩

lemma requeue_not_defined (hcount : 0 ≤ count)
    (hcount2 : 0 ≤ count2) (hdef : ¬ m.RequeueDefined addr1 tgid count count2 addr2) :
    m.requeue addr1 tgid count count2 addr2 = .error (.undefined "it2->second") := by
  rcases h : m.find ⟨addr1, tgid⟩ with _ | l
  · exact absurd (fun l hl => by rw [h] at hl; cases hl) hdef
  · have hreq := requeue_of_find addr2 hcount hcount2 h
    dsimp only at hreq
    rwa [if_pos (not_not.1 fun hnot => hdef ((requeueDefined_iff h).2 hnot))] at hreq

end Calls

end FutexMap

/-- The counts of a call are not negative. -/
def Op.CountsNonneg {T : Type} : Op T → Prop
  | .wakeup _ _ count => 0 ≤ count
  | .requeue _ _ count count2 _ => 0 ≤ count ∧ 0 ≤ count2
  | _ => True

namespace FutexMap

variable {T : Type} [DecidableEq T]

/-- A call that returns, with non-negative counts. -/
def Step (m : FutexMap T) (op : Op T) (m' : FutexMap T) : Prop :=
  op.CountsNonneg ∧ ∃ r, m.call op = .ok (r, m')

lemma call_spec {m : FutexMap T} {op : Op T} (hm : m.NonEmpty) (hop : op.CountsNonneg)
    (hdef : m.Defined op) : ∃ r m', m.call op = .ok (r, m') ∧ m'.NonEmpty ∧
      Effect m.toQueues m'.toQueues op r := by
  cases op with
  | suspend _ _ _ | suspendBitset _ _ _ _ =>
    exact ⟨none, _, rfl, hm.suspendWaiter _, rfl, toQueues_suspendWaiter _⟩
  | wakeup addr tgid count =>
    exact ⟨_, _, rfl, hm.wakeup, wakeup_effect hop⟩
  | wakeupBitset addr tgid bitmask =>
    exact ⟨_, _, rfl, hm.wakeupBitset, wakeupBitset_effect⟩
  | requeue addr1 tgid count count2 addr2 =>
    obtain ⟨n, m', h, hm', heffect⟩ := requeue_spec hop.1 hop.2 hdef hm
    exact ⟨some n, m', bind_eq_ok.2 ⟨_, h, rfl⟩, hm', heffect⟩
  | setStatus tc st => exact ⟨none, _, rfl, hm, rfl, rfl⟩

lemma call_error {m : FutexMap T} {op : Op T} (hop : op.CountsNonneg) (hdef : ¬ m.Defined op) :
    ∃ e, m.call op = .error e := by
  cases op with
  | requeue addr1 tgid count count2 addr2 =>
    exact ⟨_, bind_eq_error.2 (.inl (requeue_not_defined hop.1 hop.2 hdef))⟩
  | suspend | suspendBitset | wakeup | wakeupBitset | setStatus => exact absurd trivial hdef

/-- In every state that calls can reach, every futex in the map has a waiter, and a call returns
with the effect that it should have on the queues, if and only if its condition holds. -/
theorem call_refines_iff (status : T → Status) (ops : List (Op T)) (m : FutexMap T)
    (h : Exec Step (empty status) ops m) (op : Op T) (hop : op.CountsNonneg) :
    m.NonEmpty ∧ ((∃ r m', m.call op = .ok (r, m') ∧ Effect m.toQueues m'.toQueues op r) ↔
      m.Defined op) := by
  have hm : m.NonEmpty := by
    refine h.invariant_state (fun _ => by simp [empty]) fun {m op m'} hm hstep => ?_
    obtain ⟨hop, r, hcall⟩ := hstep
    by_cases hdef : m.Defined op
    · obtain ⟨r', m'', hcall', hm', -⟩ := call_spec hm hop hdef
      cases hcall.symm.trans hcall'
      exact hm'
    · obtain ⟨e, he⟩ := call_error hop hdef
      cases hcall.symm.trans he
  refine ⟨hm, ?_, fun hdef => ?_⟩
  · rintro ⟨r, m', hcall, -⟩
    by_contra hdef
    obtain ⟨e, he⟩ := call_error hop hdef
    cases hcall.symm.trans he
  · obtain ⟨r, m', hcall, -, heffect⟩ := call_spec hm hop hdef
    exact ⟨r, m', hcall, heffect⟩

lemma exec_suspend (status : T → Status) (addr tgid : BitVec 64) (tc : T) :
    Exec Step (empty status) [.suspend addr tgid tc] ((empty status).suspend addr tgid tc) :=
  Exec.nil.snoc ⟨trivial, none, rfl⟩

theorem call_refines_iff_one :
    let m := (empty fun _ : Fin 2 => .Active).suspend 16 1 0
    m.NonEmpty ∧ ((∃ r m', m.call (.requeue 16 1 0 1 32) = .ok (r, m') ∧
      Effect m.toQueues m'.toQueues (.requeue 16 1 0 1 32) r) ↔
        m.Defined (.requeue 16 1 0 1 32)) :=
  call_refines_iff _ _ _ (exec_suspend _ 16 1 0) (.requeue 16 1 0 1 32) ⟨by decide, by decide⟩

/-- The only waiter is woken, so no waiter is moved to the other futex, which has none. -/
theorem not_requeue_returns : ¬ ∀ (status : Fin 1 → Status) (ops : List (Op (Fin 1)))
    (m : FutexMap (Fin 1)), Exec Step (empty status) ops m →
      ∀ addr1 tgid count count2 addr2, addr1 ≠ addr2 → 0 ≤ count → 0 ≤ count2 →
        ∃ r m', m.call (.requeue addr1 tgid count count2 addr2) = .ok (r, m') ∧
          Effect m.toQueues m'.toQueues (.requeue addr1 tgid count count2 addr2) r := by
  intro hall
  obtain ⟨r, m', hcall, -⟩ := hall (fun _ => .Active) _ _ (exec_suspend _ 16 1 0) 16 1 1 1 32
    (by decide) (by decide) (by decide)
  have herror : ((empty fun _ : Fin 1 => .Active).suspend 16 1 0).call (.requeue 16 1 1 1 32) =
      .error (.undefined "it2->second") := rfl
  cases hcall.symm.trans herror

end FutexMap

end ChipletGem5.Futex
