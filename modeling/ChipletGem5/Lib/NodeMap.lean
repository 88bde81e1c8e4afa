import Mathlib.Tactic

/-!
# Ordered maps with stable iterators

A map sorted by a comparison of its keys, as `std::map` is: every entry is a node with an
identity of its own, and an iterator is the identity of a node, or `none` for the position
behind the last one.  Identities are never used twice, so that an iterator to a node that was
erased stays different from the iterators to all later nodes.  `before` and `after` cut the nodes
where `upper_bound` does.
-/

namespace ChipletGem5

open List

/-- An entry that keeps its identity. -/
structure Node (K V : Type*) where
  /-- The identity. -/
  id : ℕ
  key : K
  value : V
deriving DecidableEq, Repr

/-- A map: its nodes in the order of their keys. -/
structure NodeMap (K V : Type*) (lt : K → K → Bool) where
  nodes : List (Node K V)
  /-- The identity of the node to be created next. -/
  fresh : ℕ
  sorted : nodes.Pairwise fun n n' => lt n.key n'.key
  nodup_ids : (nodes.map Node.id).Nodup
  id_lt : ∀ n ∈ nodes, n.id < fresh

namespace NodeMap

variable {K V : Type*} {lt : K → K → Bool}

def empty : NodeMap K V lt := ⟨[], 0, .nil, .nil, by simp⟩

instance : Inhabited (NodeMap K V lt) := ⟨empty⟩

variable (m : NodeMap K V lt)

/-- The node an iterator points to. -/
def node? (p : ℕ) : Option (Node K V) := m.nodes.find? fun n => n.id == p

/-- An iterator is valid if it points to a node of the map. -/
def Valid (p : ℕ) : Prop := p ∈ m.nodes.map Node.id

/-- The nodes that `upper_bound` passes. -/
def before (k : K) : List (Node K V) :=
  m.nodes.takeWhile fun n => !lt k n.key

/-- The nodes from `upper_bound` on. -/
def after (k : K) : List (Node K V) :=
  m.nodes.dropWhile fun n => !lt k n.key

/-! ### Looking up nodes -/

variable {m : NodeMap K V lt} {n n' : Node K V}

lemma Valid.of_mem (h : n ∈ m.nodes) : m.Valid n.id := mem_map_of_mem h

lemma eq_of_id_eq (h : n ∈ m.nodes) (h' : n' ∈ m.nodes) (hid : n.id = n'.id) : n = n' :=
  inj_on_of_nodup_map m.nodup_ids h h' hid

lemma node?_id (h : n ∈ m.nodes) : m.node? n.id = some n := by
  rcases hf : m.node? n.id with _ | n'
  · have := List.find?_eq_none.1 hf n h
    simp at this
  · have hid : n'.id = n.id := by simpa using List.find?_some hf
    rw [eq_of_id_eq (mem_of_find?_eq_some hf) h hid]

variable {p : ℕ} {k : K}

lemma mem_of_node?_eq_some (h : m.node? p = some n) : n ∈ m.nodes ∧ n.id = p :=
  ⟨mem_of_find?_eq_some h, by simpa using List.find?_some h⟩

lemma before_append_after (m : NodeMap K V lt) (k : K) : m.before k ++ m.after k = m.nodes :=
  takeWhile_append_dropWhile

lemma not_lt_of_mem_before (h : n ∈ m.before k) : ¬ lt k n.key := by
  have := all_eq_true.1 all_takeWhile n h
  simpa using this

section IsTrans

variable [IsTrans K fun k k' => lt k k' = true]

lemma lt_of_mem_after (h : n ∈ m.after k) : lt k n.key := by
  have hsorted : (m.after k).Pairwise fun n n' => lt n.key n'.key :=
    m.sorted.sublist (dropWhile_sublist _)
  have hhead := List.head?_dropWhile_not (fun n : Node K V => !lt k n.key) m.nodes
  unfold after at h hsorted
  rcases hl : m.nodes.dropWhile fun n => !lt k n.key with _ | ⟨x, l⟩
  · simp [hl] at h
  · rw [hl] at h hsorted hhead
    have hx : lt k x.key := by simpa using hhead
    rcases mem_cons.1 h with rfl | h
    · exact hx
    · exact IsTrans.trans (r := fun k k' => lt k k' = true) _ _ _ hx
        ((pairwise_cons.1 hsorted).1 n h)

lemma mem_before : n ∈ m.before k ↔ n ∈ m.nodes ∧ ¬ lt k n.key := by
  constructor
  · intro h
    exact ⟨takeWhile_subset _ h, not_lt_of_mem_before h⟩
  · rintro ⟨hn, hk⟩
    rw [← before_append_after m k, mem_append] at hn
    exact hn.resolve_right fun h => hk (lt_of_mem_after h)

lemma mem_after : n ∈ m.after k ↔ n ∈ m.nodes ∧ lt k n.key := by
  constructor
  · intro h
    exact ⟨(dropWhile_sublist _).subset h, lt_of_mem_after h⟩
  · rintro ⟨hn, hk⟩
    rw [← before_append_after m k, mem_append] at hn
    exact hn.resolve_left fun h => not_lt_of_mem_before h hk

lemma head?_after [Std.Irrefl fun k k' => lt k k' = true] :
    (m.after k).head? = some n ↔
      n ∈ m.nodes ∧ lt k n.key ∧ ∀ n' ∈ m.nodes, lt k n'.key → ¬ lt n'.key n.key := by
  have hsorted : (m.after k).Pairwise fun n n' => lt n.key n'.key :=
    m.sorted.sublist (dropWhile_sublist _)
  constructor
  · intro h
    obtain ⟨hn, hk⟩ := mem_after.1 (mem_of_head? h)
    refine ⟨hn, hk, fun n' hn' hk' hlt => ?_⟩
    obtain ⟨l, hl⟩ : ∃ l, m.after k = n :: l := List.head?_eq_some_iff.1 h
    have hmem : n' ∈ m.after k := mem_after.2 ⟨hn', hk'⟩
    rw [hl] at hsorted hmem
    rcases mem_cons.1 hmem with rfl | hmem
    · exact Std.Irrefl.irrefl (r := fun k k' => lt k k') _ hlt
    · exact Std.Irrefl.irrefl (r := fun k k' => lt k k') _
        (IsTrans.trans (r := fun k k' => lt k k' = true) _ _ _ hlt
          ((pairwise_cons.1 hsorted).1 n' hmem))
  · rintro ⟨hn, hk, hleast⟩
    have hmem : n ∈ m.after k := mem_after.2 ⟨hn, hk⟩
    rcases hl : m.after k with _ | ⟨x, l⟩
    · simp [hl] at hmem
    · have hx := mem_after.1 (hl ▸ mem_cons_self : x ∈ m.after k)
      rw [hl] at hsorted hmem
      rcases mem_cons.1 hmem with rfl | hmem
      · rfl
      · exact absurd ((pairwise_cons.1 hsorted).1 n hmem) (hleast x hx.1 hx.2)

end IsTrans

/-! ### Inserting -/

/-- The node whose key is equivalent to a key. -/
def equiv? (k : K) : Option (Node K V) :=
  m.nodes.find? fun n => !lt n.key k && !lt k n.key

lemma perm_insert (m : NodeMap K V lt) (k : K) (x : Node K V) :
    (m.before k ++ x :: m.after k).Perm (x :: m.nodes) := by
  rw [← before_append_after m k]
  exact perm_middle

section IsTrans

variable [IsTrans K fun k k' => lt k k' = true]

lemma sorted_insert (m : NodeMap K V lt) (h : m.equiv? k = none) (x : Node K V) (hx : x.key = k) :
    (m.before k ++ x :: m.after k).Pairwise fun n n' => lt n.key n'.key := by
  subst hx
  have hbefore : ∀ n ∈ m.before x.key, lt n.key x.key := by
    intro n hn
    have := List.find?_eq_none.1 h n (mem_before.1 hn).1
    simpa [not_lt_of_mem_before hn] using this
  have hsorted := m.sorted
  rw [← before_append_after m x.key, pairwise_append] at hsorted
  obtain ⟨h1, h2, h3⟩ := hsorted
  refine pairwise_append.2 ⟨h1, pairwise_cons.2 ⟨fun n => lt_of_mem_after, h2⟩, ?_⟩
  rintro n hn n' hn'
  rcases mem_cons.1 hn' with rfl | hn'
  · exact hbefore n hn
  · exact h3 n hn n' hn'

/-- `insert` of a map: an entry with an equivalent key stays as it is.  The result is the
iterator to the entry with the key, and the map. -/
def insert (m : NodeMap K V lt) (k : K) (v : V) : ℕ × NodeMap K V lt :=
  match h : m.equiv? k with
  | some n => (n.id, m)
  | none =>
      (m.fresh,
        { nodes := m.before k ++ ⟨m.fresh, k, v⟩ :: m.after k
          fresh := m.fresh + 1
          sorted := m.sorted_insert h _ rfl
          nodup_ids := by
            rw [((m.perm_insert k ⟨m.fresh, k, v⟩).map Node.id).nodup_iff, List.map_cons,
              List.nodup_cons, List.mem_map]
            refine ⟨?_, m.nodup_ids⟩
            rintro ⟨n, hn, hid⟩
            exact absurd hid (m.id_lt n hn).ne
          id_lt := by
            intro n hn
            rcases List.mem_cons.1 ((m.perm_insert k _).mem_iff.1 hn) with rfl | hn
            · exact Nat.lt_succ_self _
            · exact (m.id_lt n hn).trans (Nat.lt_succ_self _) })

lemma mem_insert {v : V} :
    n ∈ (m.insert k v).2.nodes ↔
      n ∈ m.nodes ∨ m.equiv? k = none ∧ n = ⟨m.fresh, k, v⟩ := by
  unfold insert
  split
  · rename_i h
    simp [h]
  · rename_i h
    rw [(m.perm_insert k ⟨m.fresh, k, v⟩).mem_iff]
    simp [h, or_comm]

lemma Valid.insert (h : m.Valid p) (k : K) (v : V) : (m.insert k v).2.Valid p := by
  obtain ⟨n, hn, rfl⟩ := mem_map.1 h
  exact Valid.of_mem (mem_insert.2 (.inl hn))

end IsTrans

/-! ### Erasing -/

/-- The nodes at or behind an iterator; none is behind the end. -/
def from? : Option ℕ → Option (List (Node K V))
  | none => some []
  | some p => if p ∈ m.nodes.map Node.id then some (m.nodes.dropWhile fun n => n.id != p) else none

/-- The nodes of a range of iterators; there is no such range if an iterator is not valid, or
if the second cannot be reached from the first. -/
def range? (p q : Option ℕ) : Option (List (Node K V)) := do
  let l ← m.from? p
  match q with
  | none => some l
  | some q =>
      if q ∈ l.map Node.id then some (l.takeWhile fun n => n.id != q) else none

/-- The map without some of its nodes. -/
def remove (l : List ℕ) : NodeMap K V lt where
  nodes := m.nodes.filter fun n => n.id ∉ l
  fresh := m.fresh
  sorted := m.sorted.filter _
  nodup_ids := m.nodup_ids.sublist (List.filter_sublist.map _)
  id_lt n hn := m.id_lt n (List.mem_filter.1 hn).1

lemma mem_remove {l : List ℕ} : n ∈ (m.remove l).nodes ↔ n ∈ m.nodes ∧ n.id ∉ l := by
  simp [remove]

lemma valid_remove {l : List ℕ} : (m.remove l).Valid p ↔ m.Valid p ∧ p ∉ l := by
  simp only [Valid, mem_map, mem_remove]
  constructor
  · rintro ⟨n, ⟨hn, hl⟩, rfl⟩
    exact ⟨⟨n, hn, rfl⟩, hl⟩
  · rintro ⟨⟨n, hn, rfl⟩, hl⟩
    exact ⟨n, ⟨hn, hl⟩, rfl⟩

/-- `erase` of a valid iterator. -/
def erase? (p : ℕ) : Option (NodeMap K V lt) :=
  if p ∈ m.nodes.map Node.id then some (m.remove [p]) else none

end NodeMap

end ChipletGem5
