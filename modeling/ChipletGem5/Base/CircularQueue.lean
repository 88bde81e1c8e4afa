import ChipletGem5.Lib.Result

/-!
# Circular queues and buffers

`CircularQueue` of `base/circular_queue.hh`, a queue in a vector of fixed size, and `CircleBuf` of
`base/circlebuf.hh`, which reads and writes several elements at a time.  The queue has the indices
of its first and its last element, a flag for the empty queue, and a counter for how often the
tail has wrapped around, all of them unsigned numbers of 32 bits.
-/

namespace ChipletGem5

def toUInt32 (n : ℕ) : ℕ := n % 2 ^ 32

def toInt32 (n : ℤ) : ℤ := n.bmod (2 ^ 32)

/-- A conversion of a signed number to an unsigned one of `w` bits. -/
def ofInt (w : ℕ) (n : ℤ) : ℕ := (n % 2 ^ w).toNat

/-- A ring buffer whose indices only grow until they wrap. -/
structure CircularQueue (α : Type) where
  /-- The vector. -/
  store : List α
  capacity : ℕ
  head : ℕ
  tail : ℕ
  empty : Bool
  round : ℕ

namespace CircularQueue

variable {α : Type}

def moduloAdd (op1 op2 size : ℕ) : ℕ := toUInt32 (op1 + op2) % size

def sub (op1 op2 size : ℕ) : ℤ :=
  if op2 < op1 then toInt32 ((op1 - op2) % size : ℕ) else toInt32 (-((op2 - op1) % size : ℕ))

def moduloSub (op1 op2 size : ℕ) : ℕ :=
  let ret := sub op1 op2 size
  if 0 ≤ ret then ret.toNat else ofInt 32 (ret + size)

variable (q : CircularQueue α)

/-- `CircularQueue::increase` by one. -/
def increase (v : ℕ) : ℕ := moduloAdd v 1 q.capacity

def decrease (v : ℕ) : ℕ := (if v ≠ 0 then v else q.capacity) - 1

def new [Inhabited α] (size : ℕ) : CircularQueue α :=
  ⟨List.replicate size default, size, 1, 0, true, 0⟩

def flush : CircularQueue α :=
  { q with head := 1, round := 0, tail := 0, empty := true }

def size : ℕ :=
  if q.empty then 0
  else if q.head ≤ q.tail then q.tail - q.head + 1
  else q.capacity - q.head + q.tail + 1

/-- `isValidIdx` for an index. -/
def isValidIdx (idx : ℕ) : Bool :=
  !(q.empty ||
    decide (q.head < q.tail) &&
      (decide (q.head < idx) && decide (q.tail < idx) ||
        decide (idx < q.head) && decide (idx < q.tail)) ||
    decide (q.tail < idx) && decide (idx < q.head))

/-- `isValidIdx` for an index and a round. -/
def isValidIdxIn (idx round : ℕ) : Bool :=
  !q.empty &&
    (round == q.round && decide (idx ≤ q.tail) &&
        (decide (q.head ≤ idx) || decide (q.tail < q.head)) ||
      toUInt32 (round + 1) == q.round && decide (q.tail < idx) && decide (q.head ≤ idx) &&
        decide (q.tail < q.head))

/-- `(*this)[i]`. -/
def getAt (i : ℕ) : Result α :=
  getOrError q.store[i]? (.undefined "(*this)[i]")

def front : Result α := q.getAt q.head

def back : Result α := q.getAt q.tail

/-! ### Iterators -/

/-- `CircularQueue::iterator`, for the queue that it belongs to. -/
structure Iterator where
  idx : ℕ
  round : ℕ
deriving DecidableEq, Repr

namespace Iterator

variable (q : CircularQueue α)

/-- `operator++`. -/
def next (it : Iterator) : Iterator :=
  let idx := q.increase it.idx
  ⟨idx, if idx = 0 then toUInt32 (it.round + 1) else it.round⟩

/-- `decrementable`: an iterator to the head is not, unless it is behind the end of a full queue. -/
def decrementable (it : Iterator) : Bool :=
  !(it.idx == q.head &&
    (q.empty || (it.idx == 0 && it.round != toUInt32 (q.round + 1)) ||
      (it.idx != 0 && it.round != q.round)))

/-- `operator--`. -/
def prev (it : Iterator) : Result Iterator := do
  require (it.decrementable q) (.assertion "decrementable()")
  pure ⟨q.decrease it.idx, if it.idx = 0 then toUInt32 (it.round + 2 ^ 32 - 1) else it.round⟩

/-- `operator+=`, for a number that is not negative. -/
def add (it : Iterator) (t : ℕ) : Iterator :=
  ⟨moduloAdd it.idx (toUInt32 t) q.capacity, toUInt32 (it.round + (t + it.idx) / q.capacity)⟩

/-- `operator+=`. -/
def addOffset (it : Iterator) (t : ℤ) : Iterator :=
  ⟨moduloAdd it.idx (ofInt 32 t) q.capacity,
    toUInt32 (it.round + ofInt 64 (t + it.idx) / q.capacity)⟩

/-- `operator-=`. -/
def subOffset (it : Iterator) (t : ℤ) : Iterator :=
  if 0 ≤ t then
    ⟨moduloSub it.idx (ofInt 32 t) q.capacity,
      toUInt32 (it.round + ofInt 64 (-t + it.idx) / q.capacity)⟩
  else it.addOffset q (-t)

/-- `operator-` for two iterators. -/
def diff (it that : Iterator) : ℤ :=
  let ret := sub it.idx that.idx q.capacity
  if it.round ≠ that.round then
    toInt32 (ret + toUInt32 (it.round + 2 ^ 32 - that.round) * q.capacity)
  else ret

def dereferenceable (it : Iterator) : Bool := q.isValidIdxIn it.idx it.round

/-- `operator<`. -/
def lt (it that : Iterator) : Bool :=
  decide (it.round < that.round) || it.round == that.round && decide (it.idx < that.idx)

/-- `operator<=`. -/
def le (it that : Iterator) : Bool := !that.lt it

end Iterator

def endIt : Iterator :=
  let poi := moduloAdd q.tail 1 q.capacity
  ⟨poi, if poi = 0 then toUInt32 (q.round + 1) else q.round⟩

def beginIt : Iterator :=
  if q.empty then q.endIt
  else if q.tail < q.head then ⟨q.head, toUInt32 (q.round + 2 ^ 32 - 1)⟩
  else ⟨q.head, q.round⟩

/-- The elements that a loop from an iterator to `end()` visits, if it takes at most `fuel`
steps. -/
def elements (q : CircularQueue α) : ℕ → Iterator → Result (Option (List α))
  | 0, it => return if it = q.endIt then some [] else none
  | fuel + 1, it =>
      if it = q.endIt then return some []
      else do
        let x ← q.getAt it.idx
        let rest ← q.elements fuel (it.next q)
        return rest.map (x :: ·)

/-! ### Changes -/

def advanceTail : CircularQueue α :=
  let tail := q.increase q.tail
  { q with
    tail
    round := if tail = 0 then toUInt32 (q.round + 1) else q.round
    head := if tail = q.head && !q.empty then q.increase q.head else q.head
    empty := false }

/-- `CircularQueue::advance_tail` by a number of steps. -/
def advanceTailBy (q : CircularQueue α) : ℕ → CircularQueue α
  | 0 => q
  | len + 1 => q.advanceTail.advanceTailBy len

/-- `(*this)[i] = val`. -/
def setAt (i : ℕ) (val : α) : Result (CircularQueue α) :=
  if i < q.store.length then return { q with store := q.store.set i val }
  else throw (.undefined "(*this)[i] = val")

def pushBack (val : α) : Result (CircularQueue α) :=
  q.advanceTail.setAt q.advanceTail.tail val

def popFront (numElem : ℕ) : Result (CircularQueue α) :=
  if numElem = 0 then return q
  else do
    let hIt := q.beginIt.add q numElem
    require (hIt.le q.endIt) (.assertion "hIt <= end()")
    return { q with empty := hIt == q.endIt, head := hIt.idx }

def popBack : Result (CircularQueue α) := do
  require (!q.empty) (.assertion "!_empty")
  return { q with
    empty := q.head == q.tail
    round := if q.tail = 0 then toUInt32 (q.round + 2 ^ 32 - 1) else q.round
    tail := q.decrease q.tail }

/-! ### Several elements -/

/-- `std::copy` of a number of elements from an iterator of the queue. -/
def copyFrom (q : CircularQueue α) (it : Iterator) : ℕ → Result (List α)
  | 0 => return []
  | len + 1 => do
      let x ← q.getAt it.idx
      let rest ← q.copyFrom (it.next q) len
      return x :: rest

/-- `std::copy` of elements to an iterator of the queue. -/
def copyTo (q : CircularQueue α) (it : Iterator) : List α → Result (CircularQueue α)
  | [] => return q
  | x :: xs => do
      let q' ← q.setAt it.idx x
      q'.copyTo (it.next q') xs

def peek (offset len : ℕ) : Result (List α) := do
  require (decide ((offset + len) % 2 ^ 64 ≤ q.size))
    (.panic "Trying to read past end of circular buffer.\n")
  let first := q.beginIt.add q offset
  let last := (q.beginIt.add q offset).add q len
  q.copyFrom first (last.diff q first).toNat

def read (len : ℕ) : Result (CircularQueue α × List α) := do
  let out ← q.peek 0 len
  let q' ← q.popFront len
  return (q', out)

def write (input : List α) : Result (CircularQueue α) := do
  let input := if q.capacity < input.length then input.drop (input.length - q.capacity) else input
  let q' ← q.copyTo q.endIt input
  return q'.advanceTailBy input.length

end CircularQueue

end ChipletGem5
