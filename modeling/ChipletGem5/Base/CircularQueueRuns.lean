import ChipletGem5.Base.CircularQueueWindow
import ChipletGem5.Lib.Exec

/-!
# Runs of circular queues

Runs are lists of calls of a queue or a buffer, next to the window that it is to hold.  With a
capacity below `2 ^ 31`, and as long as `end()`, which is one ahead of the tail, has wrapped around
less than `2 ^ 32` times, the queue shows the window after every run.
-/

namespace ChipletGem5.CircularQueue

open Nat

variable {α : Type}

/-! ### Calls -/

inductive Op (α : Type)
  | pushBack (x : α)
  | advanceTail
  | popFront (k : ℕ)
  | popBack
  | flush
  | write (xs : List α)
  | peek (offset len : ℕ)
  | read (len : ℕ)

namespace Op

/-- What a call asks for is there. -/
def Fits (w : Window α) : Op α → Prop
  | popFront k => k ≤ w.elems.length
  | popBack => w.elems ≠ []
  | peek offset len => offset + len ≤ w.elems.length
  | read len => len ≤ w.elems.length
  | _ => True

instance (w : Window α) (op : Op α) : Decidable (op.Fits w) := by
  cases op <;> dsimp only [Op.Fits] <;> infer_instance

/-- The position of the next element after a call. -/
def next (n : ℕ) (w : Window α) : Op α → ℕ
  | pushBack _ | advanceTail => w.next + 1
  | popBack => w.next - 1
  | flush => 1
  | write xs => w.next + min xs.length n
  | popFront _ | peek _ _ | read _ => w.next

/-- The elements that a call copies to its output. -/
def output (w : Window α) : Op α → List α
  | peek offset len => (w.elems.drop offset).take len
  | read len => w.elems.take len
  | _ => []

end Op

/-- A queue, the window that it is to hold, and the output of the last call. -/
structure System (α : Type) where
  queue : CircularQueue α
  window : Window α
  out : List α

namespace System

def initial [Inhabited α] (n : ℕ) : System α := ⟨new n, ⟨[], 1⟩, []⟩

/-- One call.  The element that `advance_tail` adds to the window is the one that `back()` returns
then. -/
def step (s : System α) : Op α → Result (System α)
  | .pushBack x => do
      let q ← s.queue.pushBack x
      return ⟨q, s.window.push s.queue.capacity x, []⟩
  | .advanceTail => do
      let x ← s.queue.advanceTail.back
      return ⟨s.queue.advanceTail, s.window.push s.queue.capacity x, []⟩
  | .popFront k => do
      let q ← s.queue.popFront k
      return ⟨q, s.window.popFront k, []⟩
  | .popBack => do
      let q ← s.queue.popBack
      return ⟨q, s.window.popBack, []⟩
  | .flush => return ⟨s.queue.flush, ⟨[], 1⟩, []⟩
  | .write xs => do
      let q ← s.queue.write xs
      return ⟨q, s.window.append s.queue.capacity xs, []⟩
  | .peek offset len => do
      let out ← s.queue.peek offset len
      return ⟨s.queue, s.window, out⟩
  | .read len => do
      let r ← s.queue.read len
      return ⟨r.1, s.window.popFront len, r.2⟩

/-- Calls for which `end()` has wrapped around less than `2 ^ 32` times. -/
def EndInRange (s : System α) (op : Op α) : Prop :=
  op.Fits s.window ∧ op.next s.queue.capacity s.window / s.queue.capacity < 2 ^ 32

instance (s : System α) (op : Op α) : Decidable (EndInRange s op) :=
  inferInstanceAs (Decidable (_ ∧ _))

/-- Calls for which the tail has wrapped around less than `2 ^ 32` times. -/
def TailInRange (s : System α) (op : Op α) : Prop :=
  op.Fits s.window ∧ (op.next s.queue.capacity s.window - 1) / s.queue.capacity < 2 ^ 32

/-- The queue shows the window that it is to hold. -/
structure Shows (q : CircularQueue α) (w : Window α) : Prop where
  size : q.size = w.elems.length
  elements : ∀ fuel, w.elems.length ≤ fuel → q.elements fuel q.beginIt = .ok (some w.elems)
  front : ∀ x, w.elems.head? = some x → q.front = .ok x
  back : ∀ x, w.elems.getLast? = some x → q.back = .ok x
  head_lt : q.head < q.capacity
  tail_lt : q.tail < q.capacity

/-- Queues of a given capacity are windows, as long as calls are made under some condition. -/
def RefinesWindow (α : Type) [Inhabited α] (ok : System α → Op α → Prop) (n : ℕ) : Prop :=
  ∀ (ops : List (Op α)) (s : System α), Exec (Guarded ok step) (initial n) ops s →
    Shows s.queue s.window ∧
      ∀ op, ok s op → ∃ s', s.step op = .ok s' ∧ s'.out = op.output s.window

/-- The queue shows the window, and no round counter has wrapped. -/
structure Inv (n : ℕ) (s : System α) : Prop where
  capacity : s.queue.capacity = n
  refines : Refines s.queue s.window
  inRange : s.window.next / n < 2 ^ 32

variable {n : ℕ} {s s' : System α} {op : Op α}

lemma Inv.shows (h : Inv n s) : Shows s.queue s.window := by
  have hrange := h.inRange
  rw [← h.capacity] at hrange
  constructor
  case size => exact h.refines.shape.size_eq
  case elements =>
    intro fuel hfuel
    rw [h.refines.shape.beginIt_eq hrange]
    exact h.refines.elements hrange fuel 0 (zero_le _) (by omega)
  case front => exact fun x hx => h.refines.front hx
  case back => exact fun x hx => h.refines.back hx
  case head_lt => exact h.refines.shape.head_lt
  case tail_lt => exact h.refines.shape.tail_lt

lemma Inv.step (h : Inv n s) (hn : n < 2 ^ 31) (hok : EndInRange s op) :
    ∃ s', s.step op = .ok s' ∧ Inv n s' ∧ s'.out = op.output s.window := by
  obtain ⟨hcap, href, hrange⟩ := h
  obtain ⟨hfits, hnext⟩ := hok
  subst hcap
  cases op with
  | pushBack x =>
    obtain ⟨q, hq, href', hcap⟩ := href.pushBack hrange x
    exact ⟨_, bind_eq_ok.2 ⟨q, hq, rfl⟩, ⟨hcap, href', hnext⟩, rfl⟩
  | advanceTail =>
    obtain ⟨x, hx, href'⟩ := href.advanceTail hrange
    exact ⟨_, bind_eq_ok.2 ⟨x, hx, rfl⟩, ⟨rfl, href', hnext⟩, rfl⟩
  | popFront k =>
    obtain ⟨q, hq, href', hcap⟩ := href.popFront hn hrange hfits
    exact ⟨_, bind_eq_ok.2 ⟨q, hq, rfl⟩, ⟨hcap, href', hnext⟩, rfl⟩
  | popBack =>
    obtain ⟨q, hq, href', hcap⟩ := href.popBack hrange hfits
    exact ⟨_, bind_eq_ok.2 ⟨q, hq, rfl⟩, ⟨hcap, href', hnext⟩, rfl⟩
  | flush => exact ⟨_, rfl, ⟨rfl, href.flush, hnext⟩, rfl⟩
  | write xs =>
    obtain ⟨q, hq, href', hcap⟩ := href.write xs hnext
    exact ⟨_, bind_eq_ok.2 ⟨q, hq, rfl⟩, ⟨hcap, href', hnext⟩, rfl⟩
  | peek offset len =>
    have hpeek := href.peek hn hrange hfits
    exact ⟨_, bind_eq_ok.2 ⟨_, hpeek, rfl⟩, ⟨rfl, href, hnext⟩, rfl⟩
  | read len =>
    obtain ⟨q, hq, href', hcap⟩ := href.popFront hn hrange hfits
    have hpeek := href.peek hn hrange (o := 0) (l := len) ((zero_add len).trans_le hfits)
    exact ⟨_, bind_eq_ok.2 ⟨_, bind_eq_ok.2 ⟨_, hpeek, bind_eq_ok.2 ⟨_, hq, rfl⟩⟩, rfl⟩,
      ⟨hcap, href', hnext⟩, rfl⟩

/-- Queues with capacities below `2 ^ 31` are windows, as long as `end()` has wrapped around less
than `2 ^ 32` times. -/
theorem refinesWindow_of_lt [Inhabited α] (n : ℕ) (hn : 2 ≤ n) (hlt : n < 2 ^ 31) :
    RefinesWindow α EndInRange n := by
  intro ops s h
  have hinv : Inv n s := h.invariant_ok
    ⟨rfl, refines_new hn (by omega), (div_le_self 1 n).trans_lt (by decide)⟩ fun hs hok =>
      (hs.step hlt hok).imp fun _ hs' => ⟨hs'.1, hs'.2.1⟩
  refine ⟨hinv.shows, ?_⟩
  intro op hok
  obtain ⟨s', hs', -, hout⟩ := hinv.step hlt hok
  exact ⟨s', hs', hout⟩

theorem refinesWindow_of_lt_two : RefinesWindow ℕ EndInRange 2 ∧
    ∃ s : System ℕ, Exec (Guarded EndInRange step) (initial 2)
      [.pushBack 7, .pushBack 8, .pushBack 9, .popFront 1, .write [1, 2, 3]] s ∧
      Shows s.queue s.window ∧ s.window.elems = [2, 3] := by
  have h : RefinesWindow ℕ EndInRange 2 := refinesWindow_of_lt 2 (by decide) (by decide)
  exact ⟨h, exists_exec (·.window.elems) [2, 3] rfl fun s hs helems => ⟨(h _ s hs).1, helems⟩⟩

/-! ### The largest queues -/

lemma exec_pushes (α : Type) [Inhabited α] (hn : 2 ≤ n) (hlt : n < 2 ^ 32) (m : ℕ)
    (hm : m / n < 2 ^ 32) :
    ∃ s : System α, Exec (Guarded TailInRange step) (initial n)
        (List.replicate m (.pushBack default)) s ∧
      s.queue.capacity = n ∧ Refines s.queue s.window ∧ s.window.elems.length = min n m ∧
      s.window.next = m + 1 := by
  induction m with
  | zero => exact ⟨initial n, .nil, rfl, refines_new hn hlt, (min_zero n).symm, rfl⟩
  | succ m ih =>
    have hmono : m / n ≤ (m + 1) / n := Nat.div_le_div_right (Nat.le_succ m)
    obtain ⟨s, hs, hcap, href, hlen, hnext⟩ := ih (hmono.trans_lt hm)
    obtain ⟨q, hq, href', hcap'⟩ := href.pushBack (by rwa [hcap, hnext]) default
    refine ⟨⟨q, s.window.push s.queue.capacity default, []⟩, ?_, hcap'.trans hcap, href', ?_, ?_⟩
    · rw [List.replicate_succ']
      refine hs.snoc ⟨⟨trivial, ?_⟩, bind_eq_ok.2 ⟨q, hq, rfl⟩⟩
      rwa [hcap, Op.next, hnext]
    · simp only [Window.push, length_rtake, List.length_append, List.length_singleton]
      omega
    · rw [← hnext]
      rfl

/-- If the round of `end()` overflows, `pop_front` fails its assertion.  With the largest capacity,
the sum of the index of the head and the number of elements overflows as well, and the queue is
not empty after `pop_front` of all of its elements. -/
theorem not_refinesWindow_of_overflow : ¬ RefinesWindow ℕ TailInRange 2 ∧
    ¬ RefinesWindow ℕ TailInRange (2 ^ 32 - 1) := by
  constructor
  · intro h
    obtain ⟨s, hs, hcap, href, hlen, hnext⟩ := exec_pushes ℕ (n := 2) (by decide) (by decide)
      (2 ^ 33 - 1) (by decide)
    obtain ⟨-, -, -, -, -, hhead, htail, hempty, hround⟩ := href.shape
    rw [hlen, hnext] at hhead
    rw [hnext] at htail hround
    rw [hlen] at hempty
    have hok : TailInRange s (.popFront 1) := by
      rw [TailInRange, Op.Fits, Op.next, hcap, hlen, hnext]
      decide
    obtain ⟨s', hs', -⟩ := (h _ s hs).2 _ hok
    obtain ⟨q, hq, -⟩ := bind_eq_ok.1 hs'
    obtain ⟨u, hle, -⟩ := bind_eq_ok.1 hq
    rw [require_eq_ok, Iterator.add, beginIt, endIt, hempty, hhead, htail, hround, hcap] at hle
    exact absurd hle (by decide)
  · obtain ⟨n, hn⟩ : ∃ n, n = 2 ^ 32 - 1 := ⟨_, rfl⟩
    rw [← hn]
    intro h
    have hmod : (n + 1 - n) % n = 1 := by rw [hn]; decide
    have hidx : moduloAdd 1 (toUInt32 n) n = 0 := by rw [hn]; decide
    have hend : moduloAdd 0 1 n = 1 := by rw [hn]; decide
    obtain ⟨s, hs, hcap, href, hlen, hnext⟩ := exec_pushes ℕ (n := n) (by omega) (by omega) n
      (by rw [hn]; decide)
    obtain ⟨-, -, -, -, -, hhead, htail, hempty, -⟩ := href.shape
    rw [min_self] at hlen
    rw [hcap, hlen, hnext, hmod] at hhead
    rw [hcap, hnext, Nat.add_sub_cancel, Nat.mod_self] at htail
    rw [decide_eq_false (by omega)] at hempty
    -- the index of the new head is 0, but that of `end()` is 1
    have hbegin : (s.queue.beginIt.add s.queue n).idx = 0 := by
      rwa [Iterator.add, beginIt, hempty, if_neg Bool.false_ne_true, if_pos (by omega), hhead, hcap]
    have hne : (s.queue.beginIt.add s.queue n == s.queue.endIt) = false := by
      refine beq_false_of_ne (ne_of_apply_ne Iterator.idx ?_)
      rw [hbegin, endIt, htail, hcap, hend]
      exact zero_ne_one
    have hok : TailInRange s (.popFront n) := by
      rw [TailInRange, Op.Fits, Op.next, hcap, hlen, hnext]
      exact ⟨le_rfl, by rw [hn]; decide⟩
    obtain ⟨s', hs', -⟩ := (h _ s hs).2 _ hok
    have hsize := (h _ s' (hs.snoc ⟨hok, hs'⟩)).1.size
    obtain ⟨q, hq, hs''⟩ := bind_eq_ok.1 hs'
    cases hs''
    rw [popFront, if_neg (by omega)] at hq
    obtain ⟨u, -, hq'⟩ := bind_eq_ok.1 hq
    cases hq'
    rw [size, hne, hbegin, htail, if_neg Bool.false_ne_true, if_pos le_rfl] at hsize
    have hempty' := hsize.trans List.length_drop
    omega

end System

end ChipletGem5.CircularQueue
