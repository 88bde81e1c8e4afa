import ChipletGem5.Base.AddrRange
import ChipletGem5.Lib.Exec
import ChipletGem5.Lib.Result

/-!
# Message buffers

`MessageBuffer` (mem/ruby/network/MessageBuffer.cc) keeps messages in a heap, ordered by the time
at which they arrive and, for the same time, by a counter.  A message that cannot be handled is
moved to a list for its address, from where it gets back into the heap.  In a buffer with
`m_strict_fifo` the arrival times do not fall, so a message that has been stalled keeps its place.

Times and counters are natural numbers; in the source they have 64 bits and do not get that far.
-/

namespace ChipletGem5.MessageBuffer

open List

/-! ### The buffer -/

/-- A message, with a number that stands for the object. -/
structure Message where
  id : ℕ
  lastEnqueueTime : ℕ
  delayedTicks : ℕ
  msgCounter : ℕ
deriving DecidableEq

/-- `operator>` for messages. -/
def Message.gt (l r : Message) : Bool :=
  if l.lastEnqueueTime = r.lastEnqueueTime then l.msgCounter > r.msgCounter
  else l.lastEnqueueTime > r.lastEnqueueTime

def Message.updateDelayedTicks (m : Message) (curTime : ℕ) : Result Message := do
  require (m.lastEnqueueTime ≤ curTime) (.assertion "m_LastEnqueueTime <= curTime")
  return { m with delayedTicks := m.delayedTicks + (curTime - m.lastEnqueueTime) }

/-- The random numbers that `random_time` draws. -/
structure Draws where
  time : Fin 4
  chance : Fin 8
  long : Fin 15

def randomTime (d : Draws) : ℕ := 1 + d.time + if d.chance = 0 then 100 + (1 + d.long) else 0

/-- The lists of stalled messages, by addresses in ascending order. -/
abbrev StallMsgMap := List (Addr × List Message)

/-- A buffer.  The heap is a list in any order; the least message counts as its front. -/
structure Buffer where
  strictFifo : Bool
  blockSizeBits : ℕ
  prioHeap : List Message
  stallMsgMap : StallMsgMap
  stallMapSize : ℤ
  msgCounter : ℕ
  lastArrivalTime : ℕ

/-- `m_prio_heap.front()`. -/
def front? : List Message → Option Message
  | [] => none
  | m :: l =>
      match front? l with
      | none => some m
      | some m' => if m.gt m' then some m' else some m

namespace Buffer

variable (b : Buffer)

def new (strictFifo : Bool) (blockSizeBits : ℕ) : Buffer :=
  ⟨strictFifo, blockSizeBits, [], [], 0, 0, 0⟩

/-- The time at which a message arrives, and the latest arrival time before; `random` is given if
delays are random. -/
def arrivalTime (currentTime delta : ℕ) (random : Option Draws) : ℕ × ℕ :=
  match random with
  | none => (currentTime + delta, b.lastArrivalTime)
  | some d =>
      if b.strictFifo then
        let lastArrivalTime :=
          if b.lastArrivalTime < currentTime then currentTime else b.lastArrivalTime
        (lastArrivalTime + randomTime d, lastArrivalTime)
      else (currentTime + randomTime d, b.lastArrivalTime)

def enqueue (warmupEnabled : Bool) (message : Message) (currentTime delta : ℕ)
    (random : Option Draws) : Result Buffer := do
  let msgCounter := b.msgCounter + 1
  require (delta > 0) (.assertion "delta > 0")
  let (arrivalTime, lastArrivalTime) := b.arrivalTime currentTime delta random
  require (arrivalTime > currentTime) (.assertion "arrival_time > current_time")
  require (!(b.strictFifo && arrivalTime < lastArrivalTime)) (.panic ("FIFO ordering violated: " ++
    "%s name: %s current time: %d delta: %d arrival_time: %d last arrival_time: %d\n"))
  let lastArrivalTime := if warmupEnabled then lastArrivalTime else arrivalTime
  require (currentTime ≥ message.lastEnqueueTime) (.assertion
    "current_time >= msg_ptr->getLastEnqueueTime() && \"ensure we aren't dequeued early\"")
  let message ← message.updateDelayedTicks currentTime
  let message := { message with lastEnqueueTime := arrivalTime, msgCounter }
  return { b with prioHeap := b.prioHeap ++ [message], msgCounter, lastArrivalTime }

def isReady (currentTime : ℕ) : Bool := (front? b.prioHeap).any (·.lastEnqueueTime ≤ currentTime)

/-- `MessageBuffer::dequeue`: the delay, the message and the buffer. -/
def dequeue (currentTime : ℕ) : Result (ℕ × Message × Buffer) := do
  require (b.isReady currentTime) (.assertion "isReady(current_time)")
  let front ← getOrError (front? b.prioHeap) (.undefined "m_prio_heap.front()")
  let message ← front.updateDelayedTicks currentTime
  return (message.delayedTicks, message, { b with prioHeap := b.prioHeap.erase front })

/-- `m_stall_msg_map[addr].push_back(message)`. -/
def pushStalled (addr : Addr) (message : Message) : StallMsgMap → StallMsgMap
  | [] => [(addr, [message])]
  | (a, l) :: rest =>
      if a = addr then (a, l ++ [message]) :: rest
      else if addr < a then (addr, [message]) :: (a, l) :: rest
      else (a, l) :: pushStalled addr message rest

def getOffset (addr : Addr) : ℕ := addr.toNat % 2 ^ b.blockSizeBits

def stallMessage (addr : Addr) (currentTime : ℕ) : Result Buffer := do
  require (b.isReady currentTime) (.assertion "isReady(current_time)")
  require (b.getOffset addr = 0) (.assertion "getOffset(addr) == 0")
  let (_, message, b₁) ← b.dequeue currentTime
  return { b₁ with
    stallMsgMap := pushStalled addr message b₁.stallMsgMap
    stallMapSize := b₁.stallMapSize + 1 }

/-- The body of the loop of `MessageBuffer::reanalyzeList`. -/
def reanalyze (schdTick : ℕ) (b : Buffer) (m : Message) : Result Buffer := do
  require (m.lastEnqueueTime ≤ schdTick) (.assertion "m->getLastEnqueueTime() <= schdTick")
  return { b with prioHeap := b.prioHeap ++ [m] }

/-- The messages of one list are put back; the list itself is erased by the caller. -/
def reanalyzeList (schdTick : ℕ) (b : Buffer) (lt : List Message) : Result Buffer := do
  let b₁ := { b with stallMapSize := b.stallMapSize - lt.length }
  require (b₁.stallMapSize ≥ 0) (.assertion "m_stall_map_size >= 0")
  lt.foldlM (reanalyze schdTick) b₁

def reanalyzeMessages (addr : Addr) (currentTime : ℕ) : Result Buffer := do
  let lt ← getOrError (b.stallMsgMap.lookup addr) (.assertion "m_stall_msg_map.count(addr) > 0")
  let b₁ ← reanalyzeList currentTime b lt
  return { b₁ with stallMsgMap := b.stallMsgMap.filter (·.1 ≠ addr) }

def reanalyzeAllMessages (currentTime : ℕ) : Result Buffer := do
  let b₁ ← (b.stallMsgMap.map (·.2)).foldlM (reanalyzeList currentTime) b
  return { b₁ with stallMsgMap := [] }

def stalled : List Message := b.stallMsgMap.flatMap (·.2)

end Buffer

/-! ### Calls -/

/-- The calls outside the warm-up of caches, with their times. -/
inductive Op where
  | enqueue (message : Message) (time delta : ℕ) (random : Option Draws)
  | dequeue (time : ℕ)
  | stallMessage (addr : Addr) (time : ℕ)
  | reanalyzeMessages (addr : Addr) (time : ℕ)
  | reanalyzeAllMessages (time : ℕ)

/-- The buffer, the time of the latest call, and the messages that were enqueued and those that were
dequeued, in this order. -/
structure State where
  buffer : Buffer
  now : ℕ
  enqueued : List ℕ
  dequeued : List ℕ

namespace State

variable (s : State)

def call : Op → Result State
  | .enqueue message time delta random => do
      let buffer ← s.buffer.enqueue false message time delta random
      return ⟨buffer, time, s.enqueued ++ [message.id], s.dequeued⟩
  | .dequeue time => do
      let (_, message, buffer) ← s.buffer.dequeue time
      return ⟨buffer, time, s.enqueued, s.dequeued ++ [message.id]⟩
  | .stallMessage addr time => do
      let buffer ← s.buffer.stallMessage addr time
      return { s with buffer, now := time }
  | .reanalyzeMessages addr time => do
      let buffer ← s.buffer.reanalyzeMessages addr time
      return { s with buffer, now := time }
  | .reanalyzeAllMessages time => do
      let buffer ← s.buffer.reanalyzeAllMessages time
      return { s with buffer, now := time }

/-- The time does not fall, and a message is enqueued only once. -/
def Allowed : Op → Prop
  | .enqueue message time _ _ => s.now ≤ time ∧ message.id ∉ s.enqueued
  | .dequeue time | .stallMessage _ time | .reanalyzeMessages _ time
  | .reanalyzeAllMessages time => s.now ≤ time

instance (op : Op) : Decidable (s.Allowed op) := by
  cases op <;> dsimp only [Allowed] <;> infer_instance

def init (blockSizeBits : ℕ) : State := ⟨.new true blockSizeBits, 0, [], []⟩

end State

/-- A call that returns. -/
def Step : State → Op → State → Prop := Guarded State.Allowed State.call

/-- What an ordered buffer does. -/
structure Fifo (s : State) : Prop where
  /-- Every message is in the heap, in one list of stalled messages, or dequeued. -/
  enqueued_nodup : s.enqueued.Nodup
  place : (s.buffer.prioHeap.map (·.id) ++ s.buffer.stalled.map (·.id) ++ s.dequeued).Perm
    s.enqueued
  /-- A call of `dequeue` returns the earliest of the messages that are not stalled. -/
  earliest : ∀ {time delay m b}, s.buffer.dequeue time = .ok (delay, m, b) →
    ∃ before after, s.enqueued = before ++ m.id :: after ∧
      ∀ m' ∈ s.buffer.prioHeap, m'.id = m.id ∨ m'.id ∈ after
  stallMapSize : s.buffer.stallMapSize = s.buffer.stalled.length
  /-- Messages that are stalled get back into the heap. -/
  reanalyzeMessages : ∀ {addr l time}, s.buffer.stallMsgMap.lookup addr = some l → s.now ≤ time →
    ∃ b, s.buffer.reanalyzeMessages addr time = .ok b ∧ b.prioHeap = s.buffer.prioHeap ++ l ∧
      (b.stalled ++ l).Perm s.buffer.stalled
  reanalyzeAllMessages : ∀ {time}, s.now ≤ time →
    ∃ b, s.buffer.reanalyzeAllMessages time = .ok b ∧
      b.prioHeap = s.buffer.prioHeap ++ s.buffer.stalled ∧ b.stalled = []

/-! ### The heap and the lists -/

section Parts

variable {b b' : Buffer} {m m' : Message} {l : List Message} {addr : Addr} {map : StallMsgMap}

lemma Message.gt_iff : m.gt m' ↔ m'.lastEnqueueTime < m.lastEnqueueTime ∨
    m'.lastEnqueueTime = m.lastEnqueueTime ∧ m'.msgCounter < m.msgCounter := by
  rw [gt]
  split_ifs with heq
  · simp [heq]
  · simp [Ne.symm heq]

lemma front?_spec (h : front? l = some m) : m ∈ l ∧ ∀ m' ∈ l, ¬ m.gt m' := by
  induction l generalizing m with
  | nil => cases h
  | cons m1 l ih =>
    rw [front?] at h
    split at h
    next hnone =>
      cases h
      have hl : l = [] := by
        cases l with
        | nil => rfl
        | cons m2 l =>
          rw [front?] at hnone
          split at hnone
          · cases hnone
          · split_ifs at hnone
      subst hl
      simp [Message.gt_iff]
    next m2 hsome =>
      obtain ⟨hmem, hle⟩ := ih hsome
      split_ifs at h with hgt
      · cases h
        refine ⟨mem_cons_of_mem _ hmem, fun m' hm' => ?_⟩
        rcases mem_cons.1 hm' with rfl | hm'
        · rw [Message.gt_iff] at hgt ⊢
          omega
        · exact hle m' hm'
      · cases h
        refine ⟨mem_cons_self, fun m' hm' => ?_⟩
        rcases mem_cons.1 hm' with rfl | hm'
        · simp [Message.gt_iff]
        · have := hle m' hm'
          rw [Message.gt_iff] at hgt this ⊢
          omega

lemma updateDelayedTicks_eq_ok {curTime : ℕ} (h : m.updateDelayedTicks curTime = .ok m') :
    m.lastEnqueueTime ≤ curTime ∧ m'.id = m.id ∧ m'.lastEnqueueTime = m.lastEnqueueTime ∧
      m'.msgCounter = m.msgCounter := by
  obtain ⟨_, hle, rfl⟩ := bind_pure_eq_ok.1 h
  exact ⟨of_decide_eq_true (require_eq_ok.1 hle), rfl, rfl, rfl⟩

/-- The part of a message that does not change while it is in the buffer. -/
def Message.key (m : Message) : ℕ × ℕ × ℕ := (m.id, m.lastEnqueueTime, m.msgCounter)

variable {time delay : ℕ}

lemma dequeue_spec (h : b.dequeue time = .ok (delay, m, b')) :
    ∃ front ∈ b.prioHeap, (∀ m' ∈ b.prioHeap, ¬ front.gt m') ∧ m.key = front.key ∧
      front.lastEnqueueTime ≤ time ∧ b' = { b with prioHeap := b.prioHeap.erase front } := by
  obtain ⟨-, -, h⟩ := bind_eq_ok.1 h
  obtain ⟨front, hfront, h⟩ := bind_eq_ok.1 h
  obtain ⟨m1, hm1, ⟨⟩⟩ := bind_pure_eq_ok.1 h
  obtain ⟨hmem, hleast⟩ := front?_spec (getOrError_eq_ok.1 hfront)
  obtain ⟨hle, hid, htime, hcounter⟩ := updateDelayedTicks_eq_ok hm1
  exact ⟨front, hmem, hleast, by rw [Message.key, hid, htime, hcounter, Message.key], hle, rfl⟩

lemma pushStalled_perm :
    ((Buffer.pushStalled addr m map).flatMap (·.2)).Perm (m :: map.flatMap (·.2)) := by
  induction map with
  | nil => simp [Buffer.pushStalled]
  | cons q rest ih =>
    obtain ⟨a, l⟩ := q
    rw [Buffer.pushStalled]
    split_ifs with heq hlt
    · simp only [flatMap_cons, append_assoc, singleton_append]
      exact perm_middle
    · simp
    · exact (ih.append_left l).trans perm_middle

lemma mem_keys_pushStalled {a : Addr} : a ∈ (Buffer.pushStalled addr m map).map (·.1) ↔
    a = addr ∨ a ∈ map.map (·.1) := by
  induction map with
  | nil => simp [Buffer.pushStalled]
  | cons q rest ih =>
    obtain ⟨a', l⟩ := q
    rw [Buffer.pushStalled]
    split_ifs with heq hlt
    · subst heq
      simp only [map_cons, mem_cons]
      tauto
    · simp
    · rw [map_cons, mem_cons, ih, map_cons, mem_cons]
      tauto

lemma sorted_pushStalled (h : (map.map (·.1)).Pairwise (· < ·)) :
    ((Buffer.pushStalled addr m map).map (·.1)).Pairwise (· < ·) := by
  induction map with
  | nil => simp [Buffer.pushStalled]
  | cons q rest ih =>
    obtain ⟨a, l⟩ := q
    obtain ⟨hfirst, hrest⟩ := pairwise_cons.1 h
    rw [Buffer.pushStalled]
    split_ifs with heq hlt
    · exact h
    · refine pairwise_cons.2 ⟨fun a' ha' => ?_, h⟩
      rcases mem_cons.1 ha' with rfl | ha'
      · exact hlt
      · exact BitVec.lt_trans hlt (hfirst a' ha')
    · refine pairwise_cons.2 ⟨fun a' ha' => ?_, ih hrest⟩
      rcases mem_keys_pushStalled.1 ha' with rfl | ha'
      · have hle := BitVec.le_def.1 (BitVec.not_lt.1 hlt)
        exact BitVec.lt_def.2 (lt_of_le_of_ne hle fun h => heq (BitVec.eq_of_toNat_eq h))
      · exact hfirst a' ha'

lemma perm_of_lookup (h : (map.map (·.1)).Pairwise (· < ·)) (hl : map.lookup addr = some l) :
    ((map.filter (·.1 ≠ addr)).flatMap (·.2) ++ l).Perm (map.flatMap (·.2)) := by
  induction map with
  | nil => cases hl
  | cons q rest ih =>
    obtain ⟨a, l'⟩ := q
    obtain ⟨hfirst, hrest⟩ := pairwise_cons.1 h
    by_cases ha : addr = a
    · subst ha
      obtain rfl : l' = l := by simpa [lookup_cons] using hl
      have hself : rest.filter (·.1 ≠ addr) = rest := filter_eq_self.2 fun q hq => by
        have := hfirst q.1 (mem_map_of_mem hq)
        exact decide_eq_true (BitVec.ne_of_lt this).symm
      rw [filter_cons_of_neg (by simp), hself, flatMap_cons]
      exact perm_append_comm
    · have hl' : rest.lookup addr = some l := by
        rw [lookup_cons] at hl
        simpa [beq_false_of_ne ha] using hl
      rw [filter_cons_of_pos (by simpa using Ne.symm ha), flatMap_cons, flatMap_cons, append_assoc]
      exact (ih hrest hl').append_left l'

lemma reanalyzeList_ok (schdTick : ℕ) (htime : ∀ m ∈ l, m.lastEnqueueTime ≤ schdTick)
    (hsize : (l.length : ℤ) ≤ b.stallMapSize) : Buffer.reanalyzeList schdTick b l =
      .ok { b with prioHeap := b.prioHeap ++ l, stallMapSize := b.stallMapSize - l.length } := by
  have hloop (b : Buffer) : l.foldlM (Buffer.reanalyze schdTick) b =
      .ok { b with prioHeap := b.prioHeap ++ l } := by
    clear hsize
    induction l generalizing b with
    | nil => simp
    | cons m l ih =>
      have hm : Buffer.reanalyze schdTick b m = .ok { b with prioHeap := b.prioHeap ++ [m] } := by
        simp [Buffer.reanalyze, require, htime m mem_cons_self]
      refine bind_eq_ok.2 ⟨_, hm, ?_⟩
      rw [ih fun m' hm' => htime m' (mem_cons_of_mem _ hm')]
      simp
  refine bind_eq_ok.2 ⟨(), ?_, hloop _⟩
  exact require_eq_ok.2 (decide_eq_true (by dsimp only; omega))

lemma reanalyzeAll_ok (lists : List (List Message)) (schdTick : ℕ)
    (htime : ∀ m ∈ lists.flatten, m.lastEnqueueTime ≤ schdTick)
    (hsize : (lists.flatten.length : ℤ) ≤ b.stallMapSize) :
    lists.foldlM (Buffer.reanalyzeList schdTick) b = .ok { b with
      prioHeap := b.prioHeap ++ lists.flatten
      stallMapSize := b.stallMapSize - lists.flatten.length } := by
  induction lists generalizing b with
  | nil => simp
  | cons l lists ih =>
    rw [flatten_cons, length_append] at hsize
    have hfirst := reanalyzeList_ok (b := b) (l := l) schdTick
      (fun m hm => htime m (by simp [hm])) (by omega)
    refine bind_eq_ok.2 ⟨_, hfirst, ?_⟩
    rw [ih (fun m hm => htime m (mem_append_right _ hm)) (by dsimp only; omega)]
    simp only [flatten_cons, append_assoc, length_append, Nat.cast_add]
    congr 2
    omega

end Parts

/-! ### The invariant -/

/-- The messages in a buffer are numbered in the order in which they were enqueued, and arrive in
this order. -/
structure Keyed (keys : List (ℕ × ℕ × ℕ)) (enqueued : List ℕ) (lastArrivalTime : ℕ) : Prop where
  index : ∀ {id time counter}, (id, time, counter) ∈ keys →
    0 < counter ∧ enqueued[counter - 1]? = some id
  mono : ∀ {id time counter id' time' counter'}, (id, time, counter) ∈ keys →
    (id', time', counter') ∈ keys → counter < counter' → time ≤ time'
  time_le : ∀ {id time counter}, (id, time, counter) ∈ keys → time ≤ lastArrivalTime

namespace Buffer

/-- The keys of all messages in the buffer. -/
def keys (b : Buffer) : List (ℕ × ℕ × ℕ) := (b.prioHeap ++ b.stalled).map Message.key

end Buffer

/-- What a strict FIFO keeps. -/
structure Inv (s : State) : Prop where
  strictFifo : s.buffer.strictFifo
  nodup : s.enqueued.Nodup
  place : (s.buffer.keys.map (·.1) ++ s.dequeued).Perm s.enqueued
  counter : s.buffer.msgCounter = s.enqueued.length
  keyed : Keyed s.buffer.keys s.enqueued s.buffer.lastArrivalTime
  stalled_le : ∀ m ∈ s.buffer.stalled, m.lastEnqueueTime ≤ s.now
  size : s.buffer.stallMapSize = s.buffer.stalled.length
  sorted : (s.buffer.stallMsgMap.map (·.1)).Pairwise (· < ·)

section Keeps

variable {s s' : State} {b : Buffer}

lemma inv_init (blockSizeBits : ℕ) : Inv (.init blockSizeBits) := by
  have hkeys : (State.init blockSizeBits).buffer.keys = [] := rfl
  refine ⟨rfl, .nil, .nil, rfl, ⟨?_, ?_, ?_⟩, ?_, rfl, .nil⟩
  · simp [hkeys]
  · simp [hkeys]
  · simp [hkeys]
  · simp [State.init, Buffer.new, Buffer.stalled]

lemma Keyed.of_subset {keys keys' : List (ℕ × ℕ × ℕ)} {enqueued : List ℕ} {last : ℕ}
    (h : Keyed keys enqueued last) (hsub : ∀ k ∈ keys', k ∈ keys) : Keyed keys' enqueued last :=
  ⟨fun hk => h.index (hsub _ hk), fun hk hk' => h.mono (hsub _ hk) (hsub _ hk'),
    fun hk => h.time_le (hsub _ hk)⟩

lemma Inv.move (h : Inv s) {now : ℕ} (hfifo : b.strictFifo = s.buffer.strictFifo)
    (hcounter : b.msgCounter = s.buffer.msgCounter)
    (hlast : b.lastArrivalTime = s.buffer.lastArrivalTime) (hkeys : b.keys.Perm s.buffer.keys)
    (hstalled : ∀ m ∈ b.stalled, m.lastEnqueueTime ≤ now)
    (hsize : b.stallMapSize = b.stalled.length)
    (hsorted : (b.stallMsgMap.map (·.1)).Pairwise (· < ·)) :
    Inv ⟨b, now, s.enqueued, s.dequeued⟩ where
  strictFifo := hfifo.trans h.strictFifo
  nodup := h.nodup
  place := ((hkeys.map _).append_right _).trans h.place
  counter := hcounter.trans h.counter
  keyed := by
    rw [show (⟨b, now, s.enqueued, s.dequeued⟩ : State).buffer.lastArrivalTime =
      s.buffer.lastArrivalTime from hlast]
    exact h.keyed.of_subset fun k hk => hkeys.mem_iff.1 hk
  stalled_le := hstalled
  size := hsize
  sorted := hsorted

lemma enqueue_spec {message : Message} {delta : ℕ} {random : Option Draws}
    (hfifo : s.buffer.strictFifo)
    (h : s.buffer.enqueue false message time delta random = .ok b) :
    ∃ m, m.id = message.id ∧ m.msgCounter = s.buffer.msgCounter + 1 ∧
      s.buffer.lastArrivalTime ≤ m.lastEnqueueTime ∧ b = { s.buffer with
        prioHeap := s.buffer.prioHeap ++ [m]
        msgCounter := s.buffer.msgCounter + 1
        lastArrivalTime := m.lastEnqueueTime } := by
  obtain ⟨-, -, h⟩ := bind_eq_ok.1 h
  rcases harrival : s.buffer.arrivalTime time delta random with ⟨arrivalTime, last⟩
  rw [harrival] at h
  simp only [bind_eq_ok] at h
  obtain ⟨-, -, _, hpanic, -, -, m, hm, h⟩ := h
  obtain ⟨-, hid, -, -⟩ := updateDelayedTicks_eq_ok hm
  cases h
  refine ⟨{ m with lastEnqueueTime := arrivalTime, msgCounter := s.buffer.msgCounter + 1 }, hid,
    rfl, ?_, rfl⟩
  have hle : last ≤ arrivalTime := by simpa [require_eq_ok, hfifo] using hpanic
  have hlast : s.buffer.lastArrivalTime ≤ last := by
    unfold Buffer.arrivalTime at harrival
    split at harrival
    next => cases harrival; exact le_rfl
    next d =>
      rw [if_pos hfifo] at harrival
      cases harrival
      split_ifs with hlt
      · exact hlt.le
      · exact le_rfl
  exact hlast.trans hle

/-- The new message has the largest counter, and none in the buffer arrives after it. -/
lemma Inv.enqueue (h : Inv s) {message : Message} {delta : ℕ} {random : Option Draws}
    (htime : s.now ≤ time) (hnew : message.id ∉ s.enqueued)
    (hb : s.buffer.enqueue false message time delta random = .ok b) :
    Inv ⟨b, time, s.enqueued ++ [message.id], s.dequeued⟩ := by
  obtain ⟨m, hid, hcounter, hlast, rfl⟩ := enqueue_spec h.strictFifo hb
  set b : Buffer := { s.buffer with
    prioHeap := s.buffer.prioHeap ++ [m]
    msgCounter := s.buffer.msgCounter + 1
    lastArrivalTime := m.lastEnqueueTime }
  have hkeys : b.keys.Perm (s.buffer.keys ++ [(message.id, m.lastEnqueueTime, m.msgCounter)]) := by
    rw [← hid, Buffer.keys, Buffer.keys, map_append, map_append, map_append,
      append_assoc, append_assoc]
    exact perm_append_comm.append_left _
  have hmem : ∀ {k}, k ∈ b.keys → k ∈ s.buffer.keys ∨
      k = (message.id, m.lastEnqueueTime, s.enqueued.length + 1) := by
    intro k hk
    rwa [hkeys.mem_iff, mem_append, mem_singleton, hcounter, h.counter] at hk
  have hlt : ∀ {id time counter}, (id, time, counter) ∈ s.buffer.keys →
      counter - 1 < s.enqueued.length := fun hk =>
    (List.getElem?_eq_some_iff.1 (h.keyed.index hk).2).1
  refine { h with
    nodup := h.nodup.append (nodup_singleton _) (by simpa using hnew)
    place := ((hkeys.map _).append_right _).trans ?_
    counter := by simp [b, h.counter]
    keyed := ?_
    stalled_le := fun m' hm' => (h.stalled_le m' hm').trans htime }
  · rw [map_append, append_assoc]
    refine (perm_append_comm.append_left _).trans ?_
    rw [← append_assoc]
    exact h.place.append_right _
  · refine ⟨fun {id time counter} hk => ?_,
      fun {id time counter id' time' counter'} hk hk' hlt' => ?_, fun {id time counter} hk => ?_⟩
    · -- the counter of a message is its place among those that were enqueued
      rcases hmem hk with hk | heq
      · refine ⟨(h.keyed.index hk).1, ?_⟩
        rw [List.getElem?_append_left (hlt hk)]
        exact (h.keyed.index hk).2
      · cases heq
        simp
    · -- a larger counter does not arrive earlier
      rcases hmem hk with hk | heq
      · rcases hmem hk' with hk' | heq'
        · exact h.keyed.mono hk hk' hlt'
        · cases heq'
          exact (h.keyed.time_le hk).trans hlast
      · cases heq
        rcases hmem hk' with hk' | heq'
        · have := hlt hk'
          omega
        · cases heq'
          omega
    · rcases hmem hk with hk | heq
      · exact (h.keyed.time_le hk).trans hlast
      · cases heq
        exact le_rfl

lemma keys_erase_perm {front : Message} (hmem : front ∈ s.buffer.prioHeap) :
    (front.key :: ({ s.buffer with prioHeap := s.buffer.prioHeap.erase front } : Buffer).keys).Perm
      s.buffer.keys := by
  have hperm := (perm_cons_erase hmem).symm.append_right s.buffer.stalled
  exact hperm.map Message.key

lemma Inv.dequeue (h : Inv s) {m : Message} (htime : s.now ≤ time)
    (hb : s.buffer.dequeue time = .ok (delay, m, b)) :
    Inv ⟨b, time, s.enqueued, s.dequeued ++ [m.id]⟩ := by
  obtain ⟨front, hmem, -, hkey, -, rfl⟩ := dequeue_spec hb
  have hid : m.id = front.id := congrArg (·.1) hkey
  have hperm := keys_erase_perm (s := s) hmem
  refine { h with
    place := List.Perm.trans ?_ h.place
    keyed := h.keyed.of_subset fun k hk => hperm.mem_iff.1 (.tail _ hk)
    stalled_le := fun m' hm' => (h.stalled_le m' hm').trans htime }
  refine List.Perm.trans ?_ ((hperm.map (·.1)).append_right s.dequeued)
  rw [hid, ← append_assoc]
  exact perm_append_comm

lemma Inv.stallMessage (h : Inv s) {addr : Addr} (htime : s.now ≤ time)
    (hb : s.buffer.stallMessage addr time = .ok b) :
    Inv ⟨b, time, s.enqueued, s.dequeued⟩ := by
  obtain ⟨-, -, hb⟩ := bind_eq_ok.1 hb
  obtain ⟨-, -, hb⟩ := bind_eq_ok.1 hb
  obtain ⟨⟨delay, m, b1⟩, hdeq, hb⟩ := bind_eq_ok.1 hb
  obtain ⟨front, hmem, -, hkey, hle, rfl⟩ := dequeue_spec hdeq
  cases hb
  have hstalled : (Buffer.stalled { s.buffer with
      prioHeap := s.buffer.prioHeap.erase front
      stallMsgMap := Buffer.pushStalled addr m s.buffer.stallMsgMap
      stallMapSize := s.buffer.stallMapSize + 1 }).Perm (m :: s.buffer.stalled) := pushStalled_perm
  have hm : m.lastEnqueueTime ≤ time := by
    have : m.lastEnqueueTime = front.lastEnqueueTime := congrArg (·.2.1) hkey
    omega
  refine h.move rfl rfl rfl ?_ (fun m' hm' => ?_) ?_ (sorted_pushStalled h.sorted)
  · refine List.Perm.trans ?_ (keys_erase_perm hmem)
    rw [← hkey]
    refine ((hstalled.append_left _).map Message.key).trans ?_
    exact (perm_middle.map Message.key)
  · rcases mem_cons.1 (hstalled.mem_iff.1 hm') with rfl | hm'
    · exact hm
    · exact (h.stalled_le m' hm').trans htime
  · rw [hstalled.length_eq, length_cons, Nat.cast_add, Nat.cast_one]
    exact congrArg (· + 1) h.size

lemma Inv.reanalyzeMessages_ok (h : Inv s) {addr : Addr} {l : List Message}
    (hl : s.buffer.stallMsgMap.lookup addr = some l) (htime : s.now ≤ time) :
    s.buffer.reanalyzeMessages addr time = .ok { s.buffer with
      prioHeap := s.buffer.prioHeap ++ l
      stallMapSize := s.buffer.stallMapSize - l.length
      stallMsgMap := s.buffer.stallMsgMap.filter (·.1 ≠ addr) } := by
  have hperm : ((s.buffer.stallMsgMap.filter (·.1 ≠ addr)).flatMap (·.2) ++ l).Perm
      s.buffer.stalled := perm_of_lookup h.sorted hl
  refine bind_eq_ok.2 ⟨l, getOrError_eq_ok.2 hl, bind_eq_ok.2 ⟨_, reanalyzeList_ok time ?_ ?_, rfl⟩⟩
  · exact fun m hm => (h.stalled_le m (hperm.mem_iff.1 (mem_append_right _ hm))).trans htime
  · have := hperm.length_eq
    rw [length_append] at this
    rw [h.size]
    omega

lemma Inv.reanalyzeAllMessages_ok (h : Inv s) (htime : s.now ≤ time) :
    s.buffer.reanalyzeAllMessages time = .ok { s.buffer with
      prioHeap := s.buffer.prioHeap ++ s.buffer.stalled
      stallMapSize := 0
      stallMsgMap := [] } := by
  have hflat : (s.buffer.stallMsgMap.map (·.2)).flatten = s.buffer.stalled := rfl
  have hall := reanalyzeAll_ok (b := s.buffer) (s.buffer.stallMsgMap.map (·.2)) time
    (by rw [hflat]; exact fun m hm => (h.stalled_le m hm).trans htime)
    (by rw [hflat, h.size])
  rw [hflat, h.size, sub_self] at hall
  exact bind_eq_ok.2 ⟨_, hall, rfl⟩

lemma Inv.step {op : Op} (h : Inv s) (hstep : Step s op s') : Inv s' := by
  obtain ⟨htime, hcall⟩ := hstep
  cases op with
  | enqueue message time delta random =>
    obtain ⟨b, hb, ⟨⟩⟩ := bind_pure_eq_ok.1 hcall
    exact h.enqueue htime.1 htime.2 hb
  | dequeue time =>
    obtain ⟨_, hb, ⟨⟩⟩ := bind_pure_eq_ok.1 hcall
    exact h.dequeue htime hb
  | stallMessage addr time =>
    obtain ⟨b, hb, ⟨⟩⟩ := bind_pure_eq_ok.1 hcall
    exact h.stallMessage htime hb
  | reanalyzeMessages addr time =>
    obtain ⟨b, hb, ⟨⟩⟩ := bind_pure_eq_ok.1 hcall
    obtain ⟨l, hl, -⟩ := bind_eq_ok.1 hb
    have hl := getOrError_eq_ok.1 hl
    cases hb.symm.trans (h.reanalyzeMessages_ok hl htime)
    have hperm : ((s.buffer.stallMsgMap.filter (·.1 ≠ addr)).flatMap (·.2) ++ l).Perm
        s.buffer.stalled := perm_of_lookup h.sorted hl
    refine h.move rfl rfl rfl ?_ (fun m hm => ?_) ?_ ?_
    · have hall : (s.buffer.prioHeap ++ l ++
          (s.buffer.stallMsgMap.filter (·.1 ≠ addr)).flatMap (·.2)).Perm
          (s.buffer.prioHeap ++ s.buffer.stalled) := by
        rw [append_assoc]
        exact (perm_append_comm.trans hperm).append_left _
      exact hall.map Message.key
    · exact (h.stalled_le m (hperm.mem_iff.1 (mem_append_left _ hm))).trans htime
    · have hlen := hperm.length_eq
      rw [length_append] at hlen
      show s.buffer.stallMapSize - l.length =
        ((s.buffer.stallMsgMap.filter (·.1 ≠ addr)).flatMap (·.2)).length
      rw [h.size]
      omega
    · exact h.sorted.sublist (filter_sublist.map _)
  | reanalyzeAllMessages time =>
    obtain ⟨b, hb, ⟨⟩⟩ := bind_pure_eq_ok.1 hcall
    cases hb.symm.trans (h.reanalyzeAllMessages_ok htime)
    refine h.move rfl rfl rfl ?_ (fun m hm => ?_) rfl .nil
    · simp [Buffer.keys, Buffer.stalled]
    · simp [Buffer.stalled] at hm

lemma Inv.earliest (h : Inv s) {m : Message} (hb : s.buffer.dequeue time = .ok (delay, m, b)) :
    ∃ before after, s.enqueued = before ++ m.id :: after ∧
      ∀ m' ∈ s.buffer.prioHeap, m'.id = m.id ∨ m'.id ∈ after := by
  obtain ⟨front, hmem, hleast, hkey, -, -⟩ := dequeue_spec hb
  have hid : m.id = front.id := congrArg (·.1) hkey
  have hin : ∀ {m'}, m' ∈ s.buffer.prioHeap → m'.key ∈ s.buffer.keys := fun hm' =>
    mem_map_of_mem (mem_append_left _ hm')
  obtain ⟨hpos, hindex⟩ := h.keyed.index (hin hmem)
  obtain ⟨hlt, hget⟩ := List.getElem?_eq_some_iff.1 hindex
  refine ⟨s.enqueued.take (front.msgCounter - 1), s.enqueued.drop (front.msgCounter - 1 + 1), ?_,
    fun m' hm' => ?_⟩
  · rw [hid, ← hget, ← drop_eq_getElem_cons hlt, take_append_drop]
  · obtain ⟨hpos', hindex'⟩ := h.keyed.index (hin hm')
    -- a message with a smaller number would have arrived no later, and be less in the heap
    have hle : front.msgCounter ≤ m'.msgCounter := by
      by_contra hcon
      have htime := h.keyed.mono (hin hm') (hin hmem) (not_le.1 hcon)
      have := hleast m' hm'
      rw [Message.gt_iff] at this
      omega
    rcases hle.eq_or_lt with heq | hlt'
    · left
      rw [← heq, hindex] at hindex'
      rw [hid]
      exact (Option.some.inj hindex').symm
    · right
      have hdrop : (s.enqueued.drop (front.msgCounter - 1 + 1))[
          m'.msgCounter - 1 - (front.msgCounter - 1 + 1)]? = some m'.id := by
        rw [List.getElem?_drop, ← hindex']
        congr 1
        omega
      exact mem_of_getElem? hdrop

lemma Inv.fifo (h : Inv s) : Fifo s where
  enqueued_nodup := h.nodup
  place := by
    have := h.place
    rwa [Buffer.keys, map_map, map_append] at this
  earliest hb := h.earliest hb
  stallMapSize := h.size
  reanalyzeMessages hl htime :=
    ⟨_, h.reanalyzeMessages_ok hl htime, rfl, perm_of_lookup h.sorted hl⟩
  reanalyzeAllMessages htime := ⟨_, h.reanalyzeAllMessages_ok htime, rfl, rfl⟩

end Keeps

/-- In every state that calls on an ordered buffer reach, the buffer is a queue in which stalled
messages keep their places. -/
theorem exec_fifo (blockSizeBits : ℕ) (ops : List Op) (s : State)
    (h : Exec Step (.init blockSizeBits) ops s) : Fifo s :=
  Inv.fifo (h.invariant_state (inv_init blockSizeBits) Inv.step)

/-- The first of two messages is stalled, and dequeued first after it is put back. -/
theorem exec_fifo_stalled : ∃ s, Exec Step (.init 6) [.enqueue ⟨0, 0, 0, 0⟩ 0 1 none,
    .enqueue ⟨1, 0, 0, 0⟩ 0 1 none, .stallMessage 64 1, .reanalyzeMessages 64 2, .dequeue 2] s ∧
      s.dequeued = [0] ∧ Fifo s := by
  exact exists_exec (·.dequeued) [0] (by decide +kernel)
    fun s hs hdequeued => ⟨hdequeued, exec_fifo 6 _ s hs⟩

end ChipletGem5.MessageBuffer
