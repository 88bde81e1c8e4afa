import ChipletGem5.Base.CircularQueue
import ChipletGem5.Lib.Ring

/-!
# A circular queue is a window

The elements that are pushed to a `CircularQueue` are numbered from 1 on, and the one with number
`p` is in the cell `p % capacity`.  The head, the tail and the iterators stand for such numbers,
where the quotient by the capacity is the round.  `Shape` says what the fields are for a number of
elements and a position behind the last of them, and `Refines` that the elements are those of a
window over the stream.  Both are kept by every operation as long as the numbers fit.
-/

namespace ChipletGem5.CircularQueue

open Nat Bool

variable {α : Type} {q : CircularQueue α} {len e t : ℕ}

/-! ### Iterators as positions -/

/-- The iterator for a position of the stream. -/
def Iterator.ofPos (n p : ℕ) : Iterator := ⟨p % n, p / n⟩

variable {n p p' : ℕ} {x : α}

lemma toUInt32_of_lt (h : n < 2 ^ 32) : toUInt32 n = n := mod_eq_of_lt h

lemma toUInt32_pred (hpos : 0 < n) (h : n < 2 ^ 32) : toUInt32 (n + 2 ^ 32 - 1) = n - 1 := by
  have hpred : n + 2 ^ 32 - 1 = n - 1 + 2 ^ 32 := by omega
  rw [hpred, toUInt32, add_mod_right, mod_eq_of_lt (by omega)]

lemma toInt32_of_lt {n : ℤ} (hle : -2 ^ 31 ≤ n) (hlt : n < 2 ^ 31) : toInt32 n = n :=
  Int.bmod_eq_of_le (by omega) (by omega)

lemma moduloAdd_mod (h : p % n + t < 2 ^ 32) : moduloAdd (p % n) t n = (p + t) % n := by
  rw [moduloAdd, toUInt32_of_lt h, mod_add_mod]

lemma increase_mod (hpos : 0 < q.capacity) (hcap : q.capacity < 2 ^ 32) :
    q.increase (p % q.capacity) = (p + 1) % q.capacity := by
  have hlt := mod_lt p hpos
  exact moduloAdd_mod (by omega)

lemma round_succ (hpos : 0 < n) (hround : (p + 1) / n < 2 ^ 32) :
    (if (p + 1) % n = 0 then toUInt32 (p / n + 1) else p / n) = (p + 1) / n := by
  have hlt := mod_lt p hpos
  have hle : p ≤ p + 1 := le_succ p
  rcases Ring.div_mod_cases hpos hle (by omega) with ⟨hdiv, hmod⟩ | ⟨hdiv, hmod⟩
  · rw [if_neg (by omega), hdiv]
  · rw [if_pos (by omega), toUInt32_of_lt (by omega), hdiv]

namespace Iterator

lemma exists_next (hpos : 0 < q.capacity) (hcap : q.capacity < 2 ^ 32) (p r : ℕ) :
    ∃ r', next q ⟨p % q.capacity, r⟩ = ⟨(p + 1) % q.capacity, r'⟩ := by
  rw [next, increase_mod hpos hcap]
  exact ⟨_, rfl⟩

lemma next_ofPos (hpos : 0 < q.capacity) (hcap : q.capacity < 2 ^ 32)
    (hround : (p + 1) / q.capacity < 2 ^ 32) :
    (ofPos q.capacity p).next q = ofPos q.capacity (p + 1) := by
  simp only [next, ofPos, increase_mod hpos hcap, round_succ hpos hround]

lemma add_ofPos (hpos : 0 < q.capacity) (hcap : q.capacity < 2 ^ 31) (ht : t ≤ q.capacity)
    (hround : (p + t) / q.capacity < 2 ^ 32) :
    (ofPos q.capacity p).add q t = ofPos q.capacity (p + t) := by
  have hlt := mod_lt p hpos
  have hdiv : p / q.capacity + (t + p % q.capacity) / q.capacity = (p + t) / q.capacity := by
    have hsum : p + t = t + p % q.capacity + q.capacity * (p / q.capacity) := by
      have hp := mod_add_div p q.capacity
      omega
    rw [hsum, add_mul_div_left _ _ hpos, add_comm]
  have hidx : moduloAdd (p % q.capacity) (toUInt32 t) q.capacity = (p + t) % q.capacity := by
    rw [toUInt32_of_lt (by omega)]
    exact moduloAdd_mod (by omega)
  simp only [add, ofPos, hidx, hdiv, toUInt32_of_lt hround]

lemma lt_ofPos : (ofPos n p).lt (ofPos n p') = decide (p < p') := by
  rw [lt, ofPos, ofPos, Bool.eq_iff_iff]
  simp only [or_eq_true, and_eq_true, decide_eq_true_eq, beq_iff_eq]
  have hp := div_add_mod p n
  have hp' := div_add_mod p' n
  constructor
  · rintro (hdiv | ⟨hdiv, hmod⟩)
    · by_contra hge
      have hle : p' / n ≤ p / n := Nat.div_le_div_right (Nat.le_of_not_lt hge)
      omega
    · rw [hdiv] at hp
      omega
  · intro hlt
    have hle : p / n ≤ p' / n := Nat.div_le_div_right hlt.le
    rcases lt_or_eq_of_le hle with hdiv | hdiv
    · exact .inl hdiv
    · rw [hdiv] at hp
      exact .inr ⟨hdiv, by omega⟩

lemma le_ofPos : (ofPos n p).le (ofPos n p') = decide (p ≤ p') := by
  rw [le, lt_ofPos, ← decide_not, decide_eq_decide]
  exact not_lt

lemma ofPos_inj : ofPos n p = ofPos n p' ↔ p = p' := by
  constructor
  · intro h
    obtain ⟨hmod, hdiv⟩ := Iterator.mk.injEq .. ▸ h
    rw [← div_add_mod p n, ← div_add_mod p' n, hmod, hdiv]
  · rintro rfl
    rfl

lemma diff_ofPos (hpos : 0 < q.capacity) (hcap : q.capacity < 2 ^ 31) (ht : t ≤ q.capacity) :
    (ofPos q.capacity (p + t)).diff q (ofPos q.capacity p) = t := by
  have hlt := mod_lt p hpos
  rw [diff, ofPos, ofPos]
  rcases Ring.div_mod_cases hpos (le_add_right p t) (by omega) with ⟨hdiv, hmod⟩ | ⟨hdiv, hmod⟩
  · -- both are in the same round
    have hmodlt := mod_lt (p + t) hpos
    simp only [hdiv, ne_eq, not_true_eq_false, if_false]
    rw [sub]
    split_ifs with hcomp
    · have hd : (p + t) % q.capacity - p % q.capacity = t := by omega
      rw [hd, mod_eq_of_lt (by omega)]
      exact toInt32_of_lt (by omega) (by omega)
    · have hd : p % q.capacity - (p + t) % q.capacity = 0 := by omega
      have hzero : t = 0 := by omega
      rw [hd, hzero]
      rfl
  · -- the second one is in the next round
    have hone : toUInt32 ((p + t) / q.capacity + 2 ^ 32 - p / q.capacity) = 1 := by
      rw [toUInt32]
      omega
    have hne : (p + t) / q.capacity ≠ p / q.capacity := by omega
    simp only [hne, ne_eq, not_false_eq_true, if_true, hone]
    rw [sub]
    have hd : (p % q.capacity - (p + t) % q.capacity) % q.capacity = q.capacity - t := by
      rw [mod_eq_of_lt (by omega)]
      omega
    rw [hd, toInt32_of_lt (n := -↑(q.capacity - t)) (by omega) (by omega)]
    rw [toInt32_of_lt (by omega) (by omega)]
    omega

end Iterator

open Iterator

/-! ### The fields of the queue -/

/-- The fields of a queue with `len` elements, the last of which is in the position before `e`. -/
structure Shape (q : CircularQueue α) (len e : ℕ) : Prop where
  two_le : 2 ≤ q.capacity
  capacity_lt : q.capacity < 2 ^ 32
  length_store : q.store.length = q.capacity
  len_le : len ≤ q.capacity
  len_lt : len < e
  head : q.head = (e - len) % q.capacity
  tail : q.tail = (e - 1) % q.capacity
  empty : q.empty = decide (len = 0)
  round : q.round = (e - 1) / q.capacity

namespace Shape

section

variable (h : Shape q len e)
include h

lemma capacity_pos : 0 < q.capacity := by
  have htwo := h.two_le
  omega

lemma head_lt : q.head < q.capacity := by
  rw [h.head]
  exact mod_lt _ h.capacity_pos

lemma tail_lt : q.tail < q.capacity := by
  rw [h.tail]
  exact mod_lt _ h.capacity_pos

lemma head_tail_cases (hlen : 0 < len) :
    (e - len) / q.capacity = q.round ∧ q.tail + 1 = q.head + len ∨
      (e - len) / q.capacity + 1 = q.round ∧ q.tail + 1 + q.capacity = q.head + len := by
  have hle := h.len_le
  have hlt := h.len_lt
  rw [h.round, h.tail, h.head]
  have hcases := Ring.div_mod_cases (p := e - len) (q := e - 1) h.capacity_pos (by omega) (by omega)
  omega

lemma size_eq : q.size = len := by
  have hhead := h.head_lt
  have hle := h.len_le
  rw [size, h.empty]
  rcases Nat.eq_zero_or_pos len with rfl | hpos
  · rfl
  · rw [decide_eq_false (by omega), if_neg Bool.false_ne_true]
    rcases h.head_tail_cases hpos with ⟨-, hsum⟩ | ⟨-, hsum⟩
    · rw [if_pos (by omega)]
      omega
    · rw [if_neg (by omega)]
      omega

section

variable (hround : e / q.capacity < 2 ^ 32)
include hround

lemma endIt_eq : q.endIt = .ofPos q.capacity e := by
  have hlt := h.len_lt
  have hmod := mod_lt (e - 1) h.capacity_pos
  have hcap := h.capacity_lt
  have he : e - 1 + 1 = e := by omega
  have hpoi : moduloAdd q.tail 1 q.capacity = e % q.capacity := by
    rw [h.tail, moduloAdd_mod (by omega), he]
  have hsucc := round_succ (p := e - 1) h.capacity_pos (by rwa [he])
  rw [he, ← h.round] at hsucc
  simp only [endIt, hpoi, hsucc, ofPos]

lemma prev_ofPos (hp : e - len < p)
    (hpe : p ≤ e) : (ofPos q.capacity p).prev q = .ok (.ofPos q.capacity (p - 1)) := by
  have hle := h.len_le
  have hpos := h.capacity_pos
  have hmod := mod_lt (p - 1) hpos
  have hround' : p / q.capacity < 2 ^ 32 := lt_of_le_of_lt (Nat.div_le_div_right hpe) hround
  have hstep := Ring.div_mod_cases (p := p - 1) (q := p) hpos (by omega) (by omega)
  have hdec : (ofPos q.capacity p).decrementable q := by
    have hcell := Ring.div_mod_cases (p := e - len) (q := p) hpos (by omega) (by omega)
    rw [decrementable, h.empty, h.head, h.round]
    simp only [ofPos, not_eq_true', and_eq_false_iff, beq_eq_false_iff_ne,
      or_eq_false_iff, decide_eq_false_iff_not, bne_eq_false_iff_eq]
    by_cases hhead : p % q.capacity = (e - len) % q.capacity
    · -- the queue is full, and the iterator is behind its last element
      obtain rfl : p = e := by omega
      refine .inr ⟨⟨by omega, ?_⟩, ?_⟩
      · by_cases hzero : p % q.capacity = 0
        · right
          rw [toUInt32_of_lt (by omega)]
          omega
        · exact .inl hzero
      · by_cases hzero : p % q.capacity = 0
        · exact .inl hzero
        · right
          omega
    · exact .inl hhead
  have hidx : q.decrease (p % q.capacity) = (p - 1) % q.capacity := by
    rw [decrease]
    split_ifs <;> omega
  have hrnd : (if p % q.capacity = 0 then toUInt32 (p / q.capacity + 2 ^ 32 - 1)
      else p / q.capacity) = (p - 1) / q.capacity := by
    rcases hstep with ⟨hdiv, hcell⟩ | ⟨hdiv, hcell⟩
    · rw [if_neg (by omega), hdiv]
    · rw [if_pos (by omega), toUInt32_pred (hdiv ▸ succ_pos _) hround', hdiv, Nat.add_sub_cancel]
  rw [prev, hdec, ofPos, ofPos, ← hidx, ← hrnd]
  rfl

lemma beginIt_eq : q.beginIt = .ofPos q.capacity (e - len) := by
  have hle := h.len_le
  have hr : q.round ≤ e / q.capacity := by
    rw [h.round]
    exact Nat.div_le_div_right (Nat.sub_le e 1)
  rw [beginIt, h.empty]
  rcases Nat.eq_zero_or_pos len with rfl | hpos
  · exact h.endIt_eq hround
  · rw [decide_eq_false (by omega), if_neg Bool.false_ne_true, ofPos, ← h.head]
    rcases h.head_tail_cases hpos with ⟨hdiv, hsum⟩ | ⟨hdiv, hsum⟩
    · rw [if_neg (by omega), hdiv]
    · have hpred : q.round - 1 = (e - len) / q.capacity := Nat.sub_eq_of_eq_add hdiv.symm
      have hpos' : 0 < q.round := hdiv ▸ succ_pos _
      rw [if_pos (by omega), toUInt32_pred hpos' (hr.trans_lt hround), hpred]

lemma advanceTail : Shape q.advanceTail (min q.capacity (len + 1)) (e + 1) := by
  have hlt := h.len_lt
  have hle := h.len_le
  have he : e - 1 + 1 = e := by omega
  have htail : q.increase q.tail = e % q.capacity := by
    rw [h.tail, increase_mod h.capacity_pos h.capacity_lt, he]
  have hsucc := round_succ (p := e - 1) h.capacity_pos (by rwa [he])
  rw [he, ← h.round] at hsucc
  -- the tail meets the head if the queue is full, or empty
  have hhead : (if e % q.capacity = q.head && !q.empty then q.increase q.head else q.head) =
      (e + 1 - min q.capacity (len + 1)) % q.capacity := by
    rw [h.head, h.empty]
    rcases lt_or_eq_of_le hle with hlt' | hfull
    · have hsub : e + 1 - min q.capacity (len + 1) = e - len := by omega
      rw [hsub]
      rcases Nat.eq_zero_or_pos len with rfl | hpos
      · simp
      · have hne := Ring.mod_ne_mod (n := q.capacity) (p := e - len) (q := e) (by omega) (by omega)
        simp [hne.symm]
    · have hsub : e + 1 - min q.capacity (len + 1) = e - len + 1 := by omega
      have hmod : e % q.capacity = (e - len) % q.capacity := by
        rw [hfull, ← mod_eq_sub_mod (by omega)]
      have hne : len ≠ 0 := by
        have htwo := h.two_le
        omega
      rw [hsub, if_pos (by simp [hmod, hne]), increase_mod h.capacity_pos h.capacity_lt]
  have htwo := h.two_le
  have hne : min q.capacity (len + 1) ≠ 0 := by omega
  exact { h with
    head := by simpa only [CircularQueue.advanceTail, htail] using hhead
    tail := htail
    empty := (decide_eq_false hne).symm
    round := by simpa only [CircularQueue.advanceTail, htail, Nat.add_sub_cancel] using hsucc
    len_le := min_le_left _ _
    len_lt := by omega }

end

lemma advanceTailBy (k : ℕ) (hround : (e + k) / q.capacity < 2 ^ 32) :
    Shape (q.advanceTailBy k) (min q.capacity (len + k)) (e + k) := by
  induction k generalizing q len e with
  | zero =>
    rwa [add_zero, min_eq_right h.len_le]
  | succ k ih =>
    have hmono : e / q.capacity ≤ (e + (k + 1)) / q.capacity :=
      Nat.div_le_div_right (Nat.le_add_right _ _)
    have hstep := h.advanceTail (by omega)
    have hall := ih hstep (by rwa [add_right_comm])
    have hmin : min q.advanceTail.capacity (min q.capacity (len + 1) + k) =
        min q.capacity (len + (k + 1)) := by
      have hcap : q.advanceTail.capacity = q.capacity := rfl
      omega
    rwa [hmin, add_right_comm] at hall

lemma setStore {store : List α} (hlen : store.length = q.store.length) :
    Shape { q with store } len e :=
  { h with length_store := hlen.trans h.length_store }

lemma popFront (hcap : q.capacity < 2 ^ 31)
    (hround : e / q.capacity < 2 ^ 32) {k : ℕ} (hk : k ≤ len) :
    ∃ q', q.popFront k = .ok q' ∧ Shape q' (len - k) e ∧ q'.store = q.store ∧
      q'.capacity = q.capacity := by
  have hlt := h.len_lt
  have hle := h.len_le
  rcases Nat.eq_zero_or_pos k with rfl | hpos
  · exact ⟨q, rfl, h, rfl, rfl⟩
  · have hpos' : e - len + k = e - (len - k) := by omega
    have hmono : (e - (len - k)) / q.capacity ≤ e / q.capacity :=
      Nat.div_le_div_right (Nat.sub_le _ _)
    have hIt : q.beginIt.add q k = .ofPos q.capacity (e - (len - k)) := by
      rw [h.beginIt_eq hround, add_ofPos h.capacity_pos hcap (hk.trans hle), hpos']
      rw [hpos']
      omega
    have hend : (ofPos q.capacity (e - (len - k)) == q.endIt) =
        decide (len - k = 0) := by
      rw [h.endIt_eq hround, Bool.eq_iff_iff, beq_iff_eq, ofPos_inj, decide_eq_true_eq]
      omega
    have hle' : (ofPos q.capacity (e - (len - k))).le q.endIt := by
      rw [h.endIt_eq hround, le_ofPos, decide_eq_true_eq]
      exact sub_le _ _
    refine ⟨{ q with empty := decide (len - k = 0), head := (e - (len - k)) % q.capacity }, ?_,
      ?_, rfl, rfl⟩
    · rw [CircularQueue.popFront, if_neg (by omega), hIt]
      simp only [hend]
      exact bind_eq_ok.2 ⟨(), require_eq_ok.2 hle', rfl⟩
    · exact { h with
        len_le := (sub_le _ _).trans hle
        len_lt := by omega
        head := rfl
        empty := rfl }

lemma popBack (hround : e / q.capacity < 2 ^ 32) (hlen : 0 < len) :
    ∃ q', q.popBack = .ok q' ∧ Shape q' (len - 1) (e - 1) ∧ q'.store = q.store ∧
      q'.capacity = q.capacity := by
  have hlt := h.len_lt
  have hle := h.len_le
  have hhead := h.head_lt
  have hr : (e - 1) / q.capacity ≤ e / q.capacity := Nat.div_le_div_right (Nat.sub_le e 1)
  have hempty : (q.head == q.tail) = decide (len - 1 = 0) := by
    rw [Bool.eq_iff_iff, beq_iff_eq, decide_eq_true_eq]
    rcases h.head_tail_cases hlen with ⟨-, hsum⟩ | ⟨-, hsum⟩ <;> omega
  have hcases := Ring.div_mod_cases (p := e - 1 - 1) (q := e - 1) h.capacity_pos (by omega)
    (by omega)
  have hmod := mod_lt (e - 1 - 1) h.capacity_pos
  rw [← h.tail, ← h.round] at hcases
  rw [← h.round] at hr
  refine ⟨_, bind_eq_ok.2 ⟨(), require_eq_ok.2 ?_, rfl⟩, ?_, rfl, rfl⟩
  · rw [h.empty, decide_eq_false (by omega)]
    rfl
  · refine { h with
      head := ?_, tail := ?_, round := ?_
      empty := hempty
      len_le := (sub_le _ _).trans hle
      len_lt := by omega }
    · have hsub : e - 1 - (len - 1) = e - len := by omega
      rw [hsub]
      exact h.head
    · simp only [decrease]
      split_ifs <;> omega
    · rcases hcases with ⟨hdiv, htail'⟩ | ⟨hdiv, htail'⟩
      · exact (if_neg (by omega)).trans hdiv
      · have hpos : 0 < q.round := hdiv ▸ succ_pos _
        refine (if_pos (by omega)).trans ?_
        rw [toUInt32_pred hpos (by omega)]
        exact Nat.sub_eq_of_eq_add hdiv

end

end Shape

lemma Shape.flush (h : Shape q len e) : Shape q.flush 0 1 :=
  { h with
    len_le := zero_le _
    len_lt := one_pos
    head := (mod_eq_of_lt h.two_le).symm
    tail := (zero_mod _).symm
    empty := rfl
    round := (Nat.zero_div _).symm }

/-! ### The elements of the queue -/

/-- The queue holds a window. -/
structure Refines (q : CircularQueue α) (w : Window α) : Prop where
  shape : Shape q w.elems.length w.next
  holds : Ring.Holds q.store w.next w.elems

namespace Refines

variable {w : Window α}

section

variable (h : Refines q w)
include h

lemma getAt {i : ℕ} (hx : w.elems[i]? = some x) :
    q.getAt ((w.next - w.elems.length + i) % q.capacity) = .ok x := by
  have hcell := h.holds.getElem? i x hx
  rw [h.shape.length_store] at hcell
  exact getOrError_eq_ok.2 hcell

lemma copyFrom (o k r : ℕ) (hk : o + k ≤ w.elems.length) :
    q.copyFrom ⟨(w.next - w.elems.length + o) % q.capacity, r⟩ k =
      .ok ((w.elems.drop o).take k) := by
  induction k generalizing o r with
  | zero => rfl
  | succ k ih =>
    have ho : o < w.elems.length := by omega
    obtain ⟨r', hnext⟩ := exists_next h.shape.capacity_pos h.shape.capacity_lt
      (w.next - w.elems.length + o) r
    rw [CircularQueue.copyFrom, h.getAt (List.getElem?_eq_getElem ho), hnext,
      List.drop_eq_getElem_cons ho]
    exact bind_eq_ok.2 ⟨_, rfl, bind_eq_ok.2 ⟨_, ih (o + 1) r' (by omega), rfl⟩⟩

lemma elements (hround : w.next / q.capacity < 2 ^ 32) (fuel o : ℕ)
    (ho : o ≤ w.elems.length) (hfuel : w.elems.length ≤ o + fuel) :
    q.elements fuel (.ofPos q.capacity (w.next - w.elems.length + o)) =
      .ok (some (w.elems.drop o)) := by
  have hlt := h.shape.len_lt
  have hend : ofPos q.capacity (w.next - w.elems.length + o) = q.endIt ↔
      o = w.elems.length := by
    rw [h.shape.endIt_eq hround, ofPos_inj]
    omega
  induction fuel generalizing o with
  | zero =>
    have hlast : o = w.elems.length := by omega
    rw [CircularQueue.elements, if_pos (hend.2 hlast), hlast, List.drop_length]
    rfl
  | succ fuel ih =>
    rw [CircularQueue.elements]
    rcases lt_or_eq_of_le ho with ho' | hlast
    · have hmono : (w.next - w.elems.length + o + 1) / q.capacity ≤ w.next / q.capacity :=
        Nat.div_le_div_right (by omega)
      have hnext := next_ofPos h.shape.capacity_pos h.shape.capacity_lt
        (hmono.trans_lt hround)
      have hrest := ih (o + 1) (by omega) (by omega)
      rw [if_neg (by rw [hend]; omega), hnext, List.drop_eq_getElem_cons ho']
      refine bind_eq_ok.2 ⟨_, h.getAt (List.getElem?_eq_getElem ho'), ?_⟩
      refine bind_eq_ok.2 ⟨_, hrest ?_, rfl⟩
      rw [h.shape.endIt_eq hround, ofPos_inj]
      omega
    · rw [if_pos (hend.2 hlast), hlast, List.drop_length]
      rfl

lemma front (hx : w.elems.head? = some x) : q.front = .ok x := by
  rw [List.head?_eq_getElem?] at hx
  rw [CircularQueue.front, h.shape.head]
  exact h.getAt hx

lemma back (hx : w.elems.getLast? = some x) : q.back = .ok x := by
  rw [List.getLast?_eq_getElem?] at hx
  have hi := (List.getElem?_eq_some_iff.1 hx).1
  have hlt := h.shape.len_lt
  have hlast : w.next - 1 = w.next - w.elems.length + (w.elems.length - 1) := by omega
  rw [CircularQueue.back, h.shape.tail, hlast]
  exact h.getAt hx

/-! ### Changes -/

lemma push (hround : w.next / q.capacity < 2 ^ 32) {store : List α}
    (hlen : store.length = q.store.length) (hx : store[w.next % q.capacity]? = some x)
    (hother : ∀ c, c ≠ w.next % q.capacity → store[c]? = q.store[c]?) :
    Refines { q.advanceTail with store } (w.push q.capacity x) := by
  have hshape := (h.shape.advanceTail hround).setStore hlen
  have hle := h.shape.len_le
  have hlength := h.shape.length_store
  constructor
  · rwa [Window.push, length_rtake, List.length_append]
  · rw [← hlength] at hx hother hle
    rw [← hlength]
    exact h.holds.push hle hlen hx hother

lemma next_mod_lt : w.next % q.capacity < q.store.length :=
  h.shape.length_store.symm ▸ mod_lt _ h.shape.capacity_pos

lemma pushBack (hround : w.next / q.capacity < 2 ^ 32) (x : α) :
    ∃ q', q.pushBack x = .ok q' ∧ Refines q' (w.push q.capacity x) ∧ q'.capacity = q.capacity := by
  have htail : q.advanceTail.tail = w.next % q.capacity := (h.shape.advanceTail hround).tail
  have hlt := h.next_mod_lt
  refine ⟨{ q.advanceTail with store := q.store.set (w.next % q.capacity) x }, ?_, ?_, rfl⟩
  · rw [CircularQueue.pushBack, htail]
    exact if_pos hlt
  · refine h.push hround List.length_set (List.getElem?_set_self hlt) ?_
    intro c hc
    exact List.getElem?_set_ne hc.symm

lemma advanceTail (hround : w.next / q.capacity < 2 ^ 32) :
    ∃ x, q.advanceTail.back = .ok x ∧ Refines q.advanceTail (w.push q.capacity x) := by
  have htail : q.advanceTail.tail = w.next % q.capacity := (h.shape.advanceTail hround).tail
  have hx := List.getElem?_eq_getElem h.next_mod_lt
  refine ⟨_, ?_, h.push hround rfl hx (fun c _ => rfl)⟩
  rw [CircularQueue.back, htail]
  exact getOrError_eq_ok.2 hx

lemma popFront (hcap : q.capacity < 2 ^ 31)
    (hround : w.next / q.capacity < 2 ^ 32) {k : ℕ} (hk : k ≤ w.elems.length) :
    ∃ q', q.popFront k = .ok q' ∧ Refines q' (w.popFront k) ∧ q'.capacity = q.capacity := by
  obtain ⟨q', hq, hshape, hstore, hcap'⟩ := h.shape.popFront hcap hround hk
  refine ⟨q', hq, ⟨?_, ?_⟩, hcap'⟩
  · rwa [Window.popFront, List.length_drop]
  · rw [hstore]
    exact h.holds.drop hk

lemma popBack (hround : w.next / q.capacity < 2 ^ 32) (hne : w.elems ≠ []) :
    ∃ q', q.popBack = .ok q' ∧ Refines q' w.popBack ∧ q'.capacity = q.capacity := by
  obtain ⟨q', hq, hshape, hstore, hcap⟩ := h.shape.popBack hround (List.length_pos_iff.2 hne)
  refine ⟨q', hq, ⟨?_, ?_⟩, hcap⟩
  · rwa [Window.popBack, List.length_dropLast]
  · rw [hstore]
    exact h.holds.dropLast hne

lemma flush : Refines q.flush ⟨[], 1⟩ :=
  ⟨h.shape.flush, Ring.Holds.nil _ 1⟩

end

end Refines

lemma refines_new [Inhabited α] (hn : 2 ≤ n) (hlt : n < 2 ^ 32) :
    Refines (new n : CircularQueue α) ⟨[], 1⟩ :=
  ⟨{ two_le := hn
     capacity_lt := hlt
     length_store := List.length_replicate
     len_le := zero_le n
     len_lt := one_pos
     head := (mod_eq_of_lt hn).symm
     tail := (zero_mod n).symm
     empty := rfl
     round := (Nat.zero_div n).symm }, Ring.Holds.nil _ 1⟩

/-! ### Several elements -/

lemma copyTo_eq (hpos : 0 < q.capacity) (hcap : q.capacity < 2 ^ 32)
    (hlen : q.store.length = q.capacity) (p r : ℕ) (xs : List α) :
    q.copyTo ⟨p % q.capacity, r⟩ xs = .ok { q with store := Ring.write q.store p xs } := by
  induction xs generalizing q p r with
  | nil => rfl
  | cons x xs ih =>
    have hlt : p % q.capacity < q.store.length := by
      rw [hlen]
      exact mod_lt p hpos
    have hset : q.setAt (p % q.capacity) x =
        .ok { q with store := q.store.set (p % q.capacity) x } := if_pos hlt
    obtain ⟨r', hnext⟩ := exists_next
      (q := { q with store := q.store.set (p % q.capacity) x }) hpos hcap p r
    rw [copyTo, hset, Ring.write, hlen]
    refine bind_eq_ok.2 ⟨_, rfl, ?_⟩
    rw [hnext]
    exact ih (q := { q with store := q.store.set (p % q.capacity) x }) hpos hcap
      (List.length_set.trans hlen) (p + 1) r'

lemma store_advanceTailBy (k : ℕ) :
    (q.advanceTailBy k).store = q.store ∧ (q.advanceTailBy k).capacity = q.capacity := by
  induction k generalizing q with
  | zero => exact ⟨rfl, rfl⟩
  | succ k ih => exact ih (q := q.advanceTail)

namespace Refines

variable {w : Window α}

lemma write (h : Refines q w) (xs : List α)
    (hround : (w.next + min xs.length q.capacity) / q.capacity < 2 ^ 32) :
    ∃ q', q.write xs = .ok q' ∧ Refines q' (w.append q.capacity xs) ∧
      q'.capacity = q.capacity := by
  have hlength := h.shape.length_store
  have hpos := h.shape.capacity_pos
  -- only the last elements are written
  have hinput : (if q.capacity < xs.length then xs.drop (xs.length - q.capacity) else xs) =
      xs.rtake q.capacity := by
    split_ifs with hlong
    · rfl
    · rw [List.rtake, Nat.sub_eq_zero_of_le (Nat.le_of_not_lt hlong), List.drop_zero]
  have hlen : (xs.rtake q.capacity).length = min xs.length q.capacity := by
    rw [length_rtake, min_comm]
  have hmono : w.next / q.capacity ≤ (w.next + min xs.length q.capacity) / q.capacity :=
    Nat.div_le_div_right (Nat.le_add_right _ _)
  have hcopy := copyTo_eq hpos h.shape.capacity_lt hlength w.next (w.next / q.capacity)
    (xs.rtake q.capacity)
  let q1 : CircularQueue α :=
    { q with store := Ring.write q.store w.next (xs.rtake q.capacity) }
  have hshape : Shape q1 w.elems.length w.next := h.shape.setStore (Ring.length_write _ _ _)
  refine ⟨q1.advanceTailBy (min xs.length q.capacity), ?_, ⟨?_, ?_⟩, ?_⟩
  · rw [CircularQueue.write, hinput, h.shape.endIt_eq (hmono.trans_lt hround)]
    refine bind_eq_ok.2 ⟨q1, hcopy, ?_⟩
    rw [hlen]
    rfl
  · have hmin : min q.capacity (w.elems.length + xs.length) =
        min q.capacity (w.elems.length + min xs.length q.capacity) := by omega
    rw [Window.append, length_rtake, List.length_append, hmin]
    exact hshape.advanceTailBy _ hround
  · have hholds := h.holds.write (by rw [hlength]; exact h.shape.len_le) (by rwa [hlength])
      (xs.rtake q.capacity)
    rw [hlength, rtake_append_rtake, hlen] at hholds
    rwa [(store_advanceTailBy _).1]
  · exact (store_advanceTailBy _).2

lemma peek (h : Refines q w) (hcap : q.capacity < 2 ^ 31)
    (hround : w.next / q.capacity < 2 ^ 32) {o l : ℕ} (hl : o + l ≤ w.elems.length) :
    q.peek o l = .ok ((w.elems.drop o).take l) := by
  have hlt := h.shape.len_lt
  have hle := h.shape.len_le
  have hpos := h.shape.capacity_pos
  have hround' : ∀ k, k ≤ w.elems.length →
      (w.next - w.elems.length + k) / q.capacity < 2 ^ 32 := by
    intro k hk
    exact (Nat.div_le_div_right (by omega)).trans_lt hround
  have hfirst : q.beginIt.add q o = .ofPos q.capacity (w.next - w.elems.length + o) := by
    rw [h.shape.beginIt_eq hround]
    exact add_ofPos hpos hcap (by omega) (hround' o (by omega))
  have hlast : (q.beginIt.add q o).add q l =
      .ofPos q.capacity (w.next - w.elems.length + o + l) := by
    rw [hfirst]
    refine add_ofPos hpos hcap (by omega) ?_
    rw [add_assoc]
    exact hround' (o + l) hl
  have hcheck : (o + l) % 2 ^ 64 ≤ q.size := by
    rw [h.shape.size_eq]
    exact (mod_le _ _).trans hl
  refine bind_eq_ok.2 ⟨(), require_eq_ok.2 (decide_eq_true hcheck), ?_⟩
  simp only [hlast]
  rw [hfirst, diff_ofPos hpos hcap (by omega)]
  exact h.copyFrom o l _ hl

end Refines

end ChipletGem5.CircularQueue
