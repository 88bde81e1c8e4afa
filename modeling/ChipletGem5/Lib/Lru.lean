import Mathlib.Tactic

/-!
# Caches with replacement of the least recently used element

Fully associative caches have the stack property: the cache of `c` elements holds the first `c`
elements of the list of all elements in the order of their last access.  An access is a hit if
fewer than `c` other elements were accessed since the last access of the same element.  It follows
when two caches have the same hits.
-/

namespace ChipletGem5.Lru

open List

variable {α : Type*} [DecidableEq α]

/-- Move an element to the front of a list. -/
def touch (l : List α) (a : α) : List α := a :: l.erase a

/-- The elements of a sequence of accesses, the one accessed last in front. -/
def recency (accs : List α) : List α := accs.foldl touch []

/-- The other elements that were accessed since an element was. -/
def reuseDistance (accs : List α) (a : α) : ℕ := (recency accs).idxOf a

/-- A cache, the element used last in front, and the numbers of its hits and misses. -/
structure Cache (α : Type*) where
  elems : List α
  hits : ℕ
  misses : ℕ

/-- An access to a cache of `c` elements. -/
def Cache.access (c : ℕ) (s : Cache α) (a : α) : Cache α :=
  if a ∈ s.elems then { s with elems := touch s.elems a, hits := s.hits + 1 }
  else { s with elems := (a :: s.elems).take c, misses := s.misses + 1 }

/-- A sequence of accesses to a cache of `c` elements that is empty at first. -/
def run (c : ℕ) (accs : List α) : Cache α := accs.foldl (Cache.access c) ⟨[], 0, 0⟩

variable {l accs : List α} {a b : α} {c n : ℕ}

@[simp]
lemma recency_concat : recency (accs ++ [a]) = touch (recency accs) a := by
  simp [recency]

@[simp]
lemma run_concat : run c (accs ++ [a]) = (run c accs).access c a := by
  simp [run]

/-! ### Lists under `touch` -/

lemma mem_touch : b ∈ touch l a ↔ b = a ∨ b ∈ l := by
  by_cases hb : b = a
  · simp [touch, hb]
  · simp [touch, mem_erase_of_ne hb]

lemma nodup_touch (hl : l.Nodup) (a : α) : (touch l a).Nodup :=
  nodup_cons.2 ⟨hl.not_mem_erase, hl.erase a⟩

lemma touch_eq_cons_filter (hl : l.Nodup) (a : α) : touch l a = a :: l.filter (· ≠ a) := by
  rw [touch, hl.erase_eq_filter]
  exact congrArg _ (filter_congr fun b _ => Bool.eq_iff_iff.2 (by simp))

lemma perm_touch (ha : a ∈ l) : (touch l a).Perm l := (perm_cons_erase ha).symm

omit [DecidableEq α] in
lemma notMem_of_concat (h : (l ++ [a]).Nodup) : a ∉ l := (nodup_append_comm.1 h).notMem

lemma touch_append {l' : List α} (ha : a ∈ l) : touch (l ++ l') a = touch l a ++ l' :=
  congrArg (a :: ·) (erase_append_left _ ha)

lemma touch_append_cons {l1 l2 : List α} (h : a ∉ l1) :
    touch (l1 ++ a :: l2) a = a :: (l1 ++ l2) := by
  rw [touch, erase_append_right _ h, erase_cons_head]

lemma idxOf_append_cons {l' : List α} (hnot : a ∉ l) : (l ++ a :: l').idxOf a = l.length := by
  rw [idxOf_append_of_notMem hnot, idxOf_cons_self, Nat.add_zero]

lemma idxOf_touch (hl : l.Nodup) (ha : a ∈ l) (hb : b ∈ l) (hne : b ≠ a) :
    (touch l a).idxOf b = if l.idxOf b < l.idxOf a then l.idxOf b + 1 else l.idxOf b := by
  obtain ⟨l1, l2, rfl, hnot⟩ := eq_append_cons_of_mem ha
  rw [touch_append_cons hnot, idxOf_append_cons hnot, idxOf_cons_ne _ hne.symm]
  by_cases hmem : b ∈ l1
  · have hlt : l1.idxOf b < l1.length := idxOf_lt_length_of_mem hmem
    rw [idxOf_append_of_mem hmem, idxOf_append_of_mem hmem, if_pos hlt]
  · rw [idxOf_append_of_notMem hmem, idxOf_append_of_notMem hmem,
      idxOf_cons_ne _ hne.symm, if_neg (by omega)]
    omega

lemma touch_head {x : α} {l : List α} : touch (x :: l) x = x :: l := by
  rw [touch, erase_cons_head]

lemma idxOf_erase_concat (hl : l.Nodup) (ha : a ∈ l) (hb : b ∈ l) (hne : b ≠ a) :
    (l.erase a ++ [a]).idxOf b = if l.idxOf a < l.idxOf b then l.idxOf b - 1 else l.idxOf b := by
  obtain ⟨l1, l2, rfl, hnot⟩ := eq_append_cons_of_mem ha
  have hmem : b ∈ (l1 ++ a :: l2).erase a := (hl.mem_erase_iff).2 ⟨hne, hb⟩
  rw [idxOf_append_of_mem hmem, erase_append_right _ hnot, erase_cons_head, idxOf_append_cons hnot]
  by_cases hmem : b ∈ l1
  · have hlt : l1.idxOf b < l1.length := idxOf_lt_length_of_mem hmem
    rw [idxOf_append_of_mem hmem, idxOf_append_of_mem hmem, if_neg (by omega)]
  · rw [idxOf_append_of_notMem hmem, idxOf_append_of_notMem hmem,
      idxOf_cons_ne _ hne.symm, if_pos (by omega)]
    omega

lemma nodup_recency (accs : List α) : (recency accs).Nodup := by
  induction accs using List.reverseRecOn with
  | nil => exact nodup_nil
  | append_singleton accs a ih =>
    rw [recency_concat]
    exact nodup_touch ih a

lemma mem_recency : a ∈ recency accs ↔ a ∈ accs := by
  induction accs using List.reverseRecOn with
  | nil => simp [recency]
  | append_singleton accs b ih => simp [mem_touch, ih, or_comm]

/-! ### Lists under a function -/

section

variable {β γ : Type*} {f : β → γ} {x : β} {l : List β}

lemma idxOf_map_of_eq [BEq β] [LawfulBEq β] [BEq γ] [LawfulBEq γ]
    (h : ∀ y ∈ l, f y = f x → y = x) : (l.map f).idxOf (f x) = l.idxOf x := by
  induction l with
  | nil => rfl
  | cons y l ih =>
    have ih := ih fun z hz => h z (mem_cons_of_mem y hz)
    by_cases hy : y = x
    · rw [map_cons, hy, idxOf_cons_self, idxOf_cons_self]
    · rw [map_cons, idxOf_cons_ne _ fun he => hy (h y mem_cons_self he), idxOf_cons_ne _ hy, ih]

variable [DecidableEq β]

lemma map_touch [DecidableEq γ] (h : ∀ y ∈ l, f y = f x → y = x) :
    (touch l x).map f = touch (l.map f) (f x) := by
  refine congrArg (f x :: ·) ?_
  induction l with
  | nil => rfl
  | cons y l ih =>
    have ih := ih fun z hz => h z (mem_cons_of_mem y hz)
    by_cases hy : y = x
    · rw [map_cons, hy, erase_cons_head, erase_cons_head]
    · rw [map_cons, erase_cons_tail (by simpa using hy), map_cons, ih,
        erase_cons_tail (by simpa using fun he => hy (h y mem_cons_self he))]

lemma map_update_of_notMem {a : γ} (h : x ∉ l) : l.map (Function.update f x a) = l.map f :=
  map_congr_left fun _ hy => Function.update_of_ne (ne_of_mem_of_not_mem hy h) _ _

end

/-! ### The stack property -/

lemma erase_take (ha : a ∈ l.take (c + 1)) : (l.take (c + 1)).erase a = (l.erase a).take c := by
  obtain ⟨l1, l2, rfl, hnot⟩ := eq_append_cons_of_mem (mem_of_mem_take ha)
  have hlen : l1.length ≤ c := by
    by_contra hlt
    rw [take_append_of_le_length (by omega)] at ha
    exact hnot (mem_of_mem_take ha)
  have htake : (l1 ++ a :: l2).take (c + 1) = l1 ++ a :: l2.take (c - l1.length) := by
    rw [take_append, take_of_length_le (by omega),
      show c + 1 - l1.length = (c - l1.length) + 1 by omega, take_succ_cons]
  rw [htake, erase_append_right _ hnot, erase_cons_head,
    erase_append_right _ hnot, erase_cons_head, take_append,
    take_of_length_le (i := c) (by omega)]

lemma take_erase_of_notMem (ha : a ∉ l.take (c + 1)) : (l.erase a).take c = l.take c := by
  by_cases hmem : a ∈ l
  · obtain ⟨l1, l2, rfl, hnot⟩ := eq_append_cons_of_mem hmem
    have hlen : c < l1.length := by
      by_contra hge
      refine ha ?_
      rw [take_append, mem_append]
      refine .inr ?_
      rw [show c + 1 - l1.length = (c - l1.length) + 1 by omega]
      simp
    rw [erase_append_right _ hnot, take_append_of_le_length (by omega),
      take_append_of_le_length (by omega)]
  · rw [erase_of_not_mem hmem]

lemma access_take (s : Cache α) (h : s.elems = l.take (c + 1)) (a : α) :
    (s.access (c + 1) a).elems = (touch l a).take (c + 1) := by
  rw [Cache.access, h]
  split_ifs with ha
  · rw [touch, touch, take_succ_cons, erase_take ha]
  · rw [touch, take_succ_cons, take_succ_cons, take_erase_of_notMem ha, take_take]
    simp

/-- The stack property. -/
theorem elems_run (hc : 0 < c) (accs : List α) : (run c accs).elems = (recency accs).take c := by
  obtain ⟨c, rfl⟩ := Nat.exists_eq_succ_of_ne_zero hc.ne'
  induction accs using List.reverseRecOn with
  | nil => simp [run, recency]
  | append_singleton accs a ih => rw [run_concat, recency_concat, access_take _ ih]

/-! ### Hits and misses -/

lemma mem_take_recency : a ∈ (recency accs).take c ↔ a ∈ accs ∧ reuseDistance accs a < c := by
  constructor
  · intro ha
    have hmem := mem_of_mem_take ha
    exact ⟨mem_recency.1 hmem, (mem_take_iff_idxOf_lt hmem).1 ha⟩
  · rintro ⟨hmem, hlt⟩
    exact (mem_take_iff_idxOf_lt (mem_recency.2 hmem)).2 hlt

lemma hits_concat (hc : 0 < c) : (run c (accs ++ [a])).hits =
    (run c accs).hits + if a ∈ accs ∧ reuseDistance accs a < c then 1 else 0 := by
  rw [run_concat, Cache.access, elems_run hc]
  simp only [mem_take_recency]
  split_ifs <;> rfl

lemma misses_concat (hc : 0 < c) : (run c (accs ++ [a])).misses =
    (run c accs).misses + if a ∈ accs ∧ reuseDistance accs a < c then 0 else 1 := by
  rw [run_concat, Cache.access, elems_run hc]
  simp only [mem_take_recency]
  split_ifs <;> rfl

lemma hits_add_misses (c : ℕ) (accs : List α) :
    (run c accs).hits + (run c accs).misses = accs.length := by
  induction accs using List.reverseRecOn with
  | nil => rfl
  | append_singleton accs a ih =>
    rw [run_concat, Cache.access, length_append, length_singleton]
    split_ifs
    · show (run c accs).hits + 1 + (run c accs).misses = _
      omega
    · show (run c accs).hits + ((run c accs).misses + 1) = _
      omega

/-- No element that a cache of `n` elements still holds is accessed again when one of `c`
elements has evicted it already. -/
def ShortReuse (c n : ℕ) (accs : List α) : Prop :=
  ∀ pre a post, accs = pre ++ a :: post → a ∈ pre → reuseDistance pre a < n →
    reuseDistance pre a < c

lemma shortReuse_concat : ShortReuse c n (accs ++ [a]) ↔
    ShortReuse c n accs ∧ (a ∈ accs → reuseDistance accs a < n → reuseDistance accs a < c) := by
  constructor
  · intro h
    refine ⟨?_, h accs a [] rfl⟩
    intro pre b post heq
    exact h pre b (post ++ [a]) (by simp [heq])
  · rintro ⟨h, hlast⟩ pre b post heq
    -- the access is the last one, or one of those before it
    rcases eq_nil_or_concat post with rfl | ⟨post, x, rfl⟩
    · obtain ⟨rfl, hb⟩ := append_inj' heq rfl
      obtain rfl : a = b := by simpa using hb
      exact hlast
    · rw [concat_eq_append, ← cons_append, ← append_assoc] at heq
      exact h pre b post (append_inj' heq rfl).1

lemma hits_mono (hc : 0 < c) (h : c ≤ n) (accs : List α) :
    (run c accs).hits ≤ (run n accs).hits := by
  induction accs using List.reverseRecOn with
  | nil => exact le_rfl
  | append_singleton accs a ih =>
    rw [hits_concat hc, hits_concat (hc.trans_le h)]
    split_ifs with h1 h2 h2
    · omega
    · exact absurd ⟨h1.1, h1.2.trans_le h⟩ h2
    · omega
    · omega

/-- When a smaller cache has as many hits as a larger one. -/
theorem hits_eq_iff (hc : 0 < c) (h : c ≤ n) (accs : List α) :
    (run n accs).hits = (run c accs).hits ↔ ShortReuse c n accs := by
  induction accs using List.reverseRecOn with
  | nil =>
    refine iff_of_true rfl ?_
    intro pre a post heq
    simp at heq
  | append_singleton accs a ih =>
    have hmono := hits_mono hc h accs
    rw [shortReuse_concat, ← ih, hits_concat hc, hits_concat (hc.trans_le h)]
    split_ifs with h1 h2 h2
    · exact ⟨fun heq => ⟨by omega, fun _ _ => h2.2⟩, fun heq => by omega⟩
    · refine ⟨fun heq => absurd heq (by omega), fun heq => ?_⟩
      exact absurd ⟨h1.1, heq.2 h1.1 h1.2⟩ h2
    · exact absurd ⟨h2.1, h2.2.trans_le h⟩ h1
    · exact ⟨fun heq => ⟨by omega, fun ha hlt => absurd ⟨ha, hlt⟩ h1⟩, fun heq => by omega⟩

end ChipletGem5.Lru
