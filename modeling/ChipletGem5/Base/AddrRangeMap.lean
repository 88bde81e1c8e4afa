import ChipletGem5.Lib.NodeMap
import ChipletGem5.Lib.Result
import ChipletGem5.Base.AddrRange

/-!
# The address range map and its cache

The class `AddrRangeMap` of `base/addr_range_map.hh`: a `std::map` from address ranges to
values, and a list of iterators to the entries used last, which a lookup tries before the tree.

A lookup looks at the entries in the cache, then at a list of entries that depends only on the
range looked up and on the tree, `inspected`; `find_eq_ok` says what a lookup that returns has
seen.
-/

namespace ChipletGem5

open List

/-- An address range map with a cache of at most `maxCacheSize` iterators. -/
structure AddrRangeMap (V : Type) (maxCacheSize : ℕ) where
  tree : NodeMap AddrRange V AddrRange.lt
  /-- Iterators to the entries used last, the latest first. -/
  cache : List ℕ

namespace AddrRangeMap

/-- Why a call does not return. -/
inductive Fault where
  | panic (p : AddrRange.Panic)
  /-- An iterator is used that does not point to an entry. -/
  | invalidIterator
deriving DecidableEq, Repr

variable {V : Type} {maxCacheSize : ℕ}

/-! ### Lookup -/

def empty : AddrRangeMap V maxCacheSize := ⟨.empty, []⟩

/-- `AddrRangeMap::addNewEntryToCache`, on the cache. -/
def addNewEntryToCache (maxCacheSize it : ℕ) (cache : List ℕ) : List ℕ :=
  if maxCacheSize ≠ 0 then
    if maxCacheSize ≤ cache.length then
      -- the last element is overwritten, and moved to the front
      if 1 < maxCacheSize then it :: cache.dropLast else cache.dropLast ++ [it]
    else it :: cache
  else cache

/-- A call of the condition of a lookup. -/
def test (cond : AddrRange → Except AddrRange.Panic Bool) (n : Node AddrRange V) :
    Except Fault Bool :=
  (cond n.key).mapError .panic

/-- The loop of `AddrRangeMap::find` over the cache.  The result is the iterator that matches,
and the cache without it. -/
def findCached (tree : NodeMap AddrRange V AddrRange.lt)
    (cond : AddrRange → Except AddrRange.Panic Bool) :
    List ℕ → Except Fault (Option (ℕ × List ℕ))
  | [] => .ok none
  | it :: cache => do
      let some n := tree.node? it | .error .invalidIterator
      if ← test cond n then return some (it, cache)
      else return (← findCached tree cond cache).map fun (c, rest) => (c, it :: rest)

/-- The loop of `AddrRangeMap::find` over the tree: `i` is the current entry, and the list has
the entries before it, from the nearest on. -/
def findBack (cond : AddrRange → Except AddrRange.Panic Bool) :
    Node AddrRange V → List (Node AddrRange V) → Except Fault (Option ℕ)
  | i, [] => do
      if ← test cond i then return some i.id else return none
  | i, next :: rest => do
      if ← test cond i then return some i.id
      -- keep looking if the next range merges with the current one
      else if next.key.mergesWith i.key then findBack cond next rest
      else return none

/-- The loop of `AddrRangeMap::find` over the tree, from the entry before the upper bound on. -/
def findBefore (cond : AddrRange → Except AddrRange.Panic Bool) :
    List (Node AddrRange V) → Except Fault (Option ℕ)
  -- the upper bound is the first entry
  | [] => .ok none
  | next :: rest => findBack cond next rest

/-- The part of `AddrRangeMap::find` behind the loop over the cache. -/
def findTree (tree : NodeMap AddrRange V AddrRange.lt) (r : AddrRange)
    (cond : AddrRange → Except AddrRange.Panic Bool) : Except Fault (Option ℕ) :=
  match (tree.after r).head? with
  | some next => do
      if ← test cond next then return some next.id
      else findBefore cond (tree.before r).reverse
  | none => findBefore cond (tree.before r).reverse

variable (m : AddrRangeMap V maxCacheSize)

/-- `AddrRangeMap::find`: the iterator found, `none` for the end, and the map. -/
def find (r : AddrRange)
    (cond : AddrRange → Except AddrRange.Panic Bool) :
    Except Fault (Option ℕ × AddrRangeMap V maxCacheSize) := do
  match ← findCached m.tree cond m.cache with
  | some (it, rest) => return (some it, { m with cache := it :: rest })
  | none =>
      match ← findTree m.tree r cond with
      | some it =>
          return (some it, { m with cache := addNewEntryToCache maxCacheSize it m.cache })
      | none => return (none, m)

/-- `AddrRangeMap::contains` of a range. -/
def containsRange (r : AddrRange) : Except Fault (Option ℕ × AddrRangeMap V maxCacheSize) :=
  m.find r fun r1 => r.isSubset r1

/-- `AddrRangeMap::contains` of an address. -/
def contains (a : Addr) : Except Fault (Option ℕ × AddrRangeMap V maxCacheSize) :=
  m.containsRange (RangeSize a 1)

def intersects (r : AddrRange) : Except Fault (Option ℕ × AddrRangeMap V maxCacheSize) :=
  m.find r fun r1 => r.intersects r1

/-! ### What a lookup inspects -/

/-- The first of some entries that meets the condition. -/
def firstWith (cond : AddrRange → Except AddrRange.Panic Bool) :
    List (Node AddrRange V) → Except Fault (Option ℕ)
  | [] => .ok none
  | n :: l => do if ← test cond n then return some n.id else firstWith cond l

/-- The entries in the loop over the tree, if none of them meets the condition. -/
def chain : Node AddrRange V → List (Node AddrRange V) → List (Node AddrRange V)
  | i, [] => [i]
  | i, next :: rest => if next.key.mergesWith i.key then i :: chain next rest else [i]

@[inherit_doc chain]
def chainFrom : List (Node AddrRange V) → List (Node AddrRange V)
  | [] => []
  | next :: rest => chain next rest

/-- The entries of the tree that a lookup inspects, if none of them meets the condition. -/
def inspected (tree : NodeMap AddrRange V AddrRange.lt) (r : AddrRange) : List (Node AddrRange V) :=
  (tree.after r).head?.toList ++ chainFrom (tree.before r).reverse

section

variable {cond : AddrRange → Except AddrRange.Panic Bool} {l : List (Node AddrRange V)}

lemma test_eq_ok {n : Node AddrRange V} {b : Bool} : test cond n = .ok b ↔ cond n.key = .ok b := by
  unfold test
  rcases cond n.key with _ | _ <;> simp [Except.mapError]

lemma firstWith_cons_eq_ok {n : Node AddrRange V} {o : Option ℕ} :
    firstWith cond (n :: l) = .ok o ↔
      cond n.key = .ok true ∧ some n.id = o ∨
        cond n.key = .ok false ∧ firstWith cond l = .ok o := by
  rw [firstWith, bind_eq_ok]
  constructor
  · rintro ⟨b, hb, h⟩
    rw [test_eq_ok] at hb
    rcases b with _ | _
    · exact .inr ⟨hb, h⟩
    · exact .inl ⟨hb, pure_eq_ok.1 h⟩
  · rintro (⟨hb, h⟩ | ⟨hb, h⟩)
    · exact ⟨true, test_eq_ok.2 hb, pure_eq_ok.2 h⟩
    · exact ⟨false, test_eq_ok.2 hb, h⟩

lemma exists_of_firstWith {it : ℕ} (h : firstWith cond l = .ok (some it)) :
    ∃ n ∈ l, n.id = it ∧ cond n.key = .ok true := by
  induction l with
  | nil => simp [firstWith] at h
  | cons n l ih =>
    rcases firstWith_cons_eq_ok.1 h with ⟨hcond, hid⟩ | ⟨-, h⟩
    · exact ⟨n, mem_cons_self, Option.some.inj hid, hcond⟩
    · obtain ⟨n', hn', hid, hcond⟩ := ih h
      exact ⟨n', mem_cons_of_mem _ hn', hid, hcond⟩

lemma forall_of_firstWith (h : firstWith cond l = .ok none) : ∀ n ∈ l, cond n.key = .ok false := by
  induction l with
  | nil => simp
  | cons n l ih =>
    rcases firstWith_cons_eq_ok.1 h with ⟨-, hid⟩ | ⟨hcond, h⟩
    · cases hid
    · intro n' hn'
      rcases mem_cons.1 hn' with rfl | hn'
      · exact hcond
      · exact ih h n' hn'

lemma firstWith_returns (h : ∀ n ∈ l, ∃ b, cond n.key = .ok b) : ∃ o, firstWith cond l = .ok o := by
  induction l with
  | nil => exact ⟨none, rfl⟩
  | cons n l ih =>
    obtain ⟨b, hb⟩ := h n mem_cons_self
    obtain ⟨o, ho⟩ := ih fun n' hn' => h n' (mem_cons_of_mem _ hn')
    rcases b with _ | _
    · exact ⟨o, firstWith_cons_eq_ok.2 (.inr ⟨hb, ho⟩)⟩
    · exact ⟨some n.id, firstWith_cons_eq_ok.2 (.inl ⟨hb, rfl⟩)⟩

lemma findBack_eq (i : Node AddrRange V) (rest : List (Node AddrRange V)) :
    findBack cond i rest = firstWith cond (chain i rest) := by
  induction rest generalizing i with
  | nil => rfl
  | cons next rest ih =>
    rw [findBack, chain, ih]
    by_cases hmerge : next.key.mergesWith i.key
    · rw [if_pos hmerge, if_pos hmerge]
      rfl
    · rw [if_neg hmerge, if_neg hmerge]
      rfl

lemma findBefore_eq (l : List (Node AddrRange V)) :
    findBefore cond l = firstWith cond (chainFrom l) := by
  rcases l with _ | ⟨next, rest⟩
  · rfl
  · exact findBack_eq next rest

lemma findTree_eq (tree : NodeMap AddrRange V AddrRange.lt) (r : AddrRange) :
    findTree tree r cond = firstWith cond (inspected tree r) := by
  unfold findTree inspected
  rcases (tree.after r).head? with _ | next
  · exact findBefore_eq _
  · rw [Option.toList_some, singleton_append, firstWith, ← findBefore_eq]

lemma chainFrom_subset (l : List (Node AddrRange V)) : chainFrom l ⊆ l := by
  have hchain : ∀ (rest : List (Node AddrRange V)) i, chain i rest ⊆ i :: rest := by
    intro rest
    induction rest with
    | nil => exact fun i => List.Subset.refl _
    | cons next rest ih =>
      intro i
      rw [chain]
      split
      · exact cons_subset_cons i (ih next)
      · simp
  rcases l with _ | ⟨next, rest⟩
  · exact nil_subset _
  · exact hchain rest next

lemma inspected_subset (tree : NodeMap AddrRange V AddrRange.lt) (r : AddrRange) :
    inspected tree r ⊆ tree.nodes := by
  intro n hn
  rw [← tree.before_append_after r, mem_append]
  rcases mem_append.1 hn with hn | hn
  · exact .inr (mem_of_head? (by simpa using hn))
  · exact .inl (mem_reverse.1 (chainFrom_subset _ hn))

variable {tree : NodeMap AddrRange V AddrRange.lt}

variable {cache : List ℕ}

lemma findCached_cons_eq_ok {it : ℕ} {r : Option (ℕ × List ℕ)} :
    findCached tree cond (it :: cache) = .ok r ↔ ∃ n, tree.node? it = some n ∧
      (cond n.key = .ok true ∧ some (it, cache) = r ∨ cond n.key = .ok false ∧
        ∃ r', findCached tree cond cache = .ok r' ∧
          (r'.map fun (c, rest) => (c, it :: rest)) = r) := by
  rw [findCached]
  rcases tree.node? it with _ | n
  · simp
  · simp only [bind_eq_ok, test_eq_ok, Bool.exists_bool, Option.some.injEq, exists_eq_left']
    simp [bind_eq_ok, or_comm]

lemma exists_of_findCached {it : ℕ} {rest : List ℕ}
    (h : findCached tree cond cache = .ok (some (it, rest))) :
    ∃ n ∈ tree.nodes, n.id = it ∧ cond n.key = .ok true ∧ cache.Perm (it :: rest) := by
  induction cache generalizing rest with
  | nil => cases h
  | cons c cache ih =>
    obtain ⟨n, hn, ⟨hcond, hr⟩ | ⟨-, r, hr, hmap⟩⟩ := findCached_cons_eq_ok.1 h
    · cases hr
      obtain ⟨hmem, hid⟩ := NodeMap.mem_of_node?_eq_some hn
      exact ⟨n, hmem, hid, hcond, List.Perm.refl _⟩
    · obtain ⟨⟨c', rest'⟩, rfl, hc⟩ := Option.map_eq_some_iff.1 hmap
      cases hc
      obtain ⟨n', hn', hid, hcond, hperm⟩ := ih hr
      exact ⟨n', hn', hid, hcond, (hperm.cons c).trans (List.Perm.swap _ _ _)⟩

lemma forall_of_findCached (h : findCached tree cond cache = .ok none) :
    ∀ n ∈ tree.nodes, n.id ∈ cache → cond n.key = .ok false := by
  induction cache with
  | nil => simp
  | cons c cache ih =>
    obtain ⟨n, hn, ⟨-, hr⟩ | ⟨hcond, r, hr, hmap⟩⟩ := findCached_cons_eq_ok.1 h
    · cases hr
    · cases Option.map_eq_none_iff.1 hmap
      intro n' hn' hid
      rcases mem_cons.1 hid with rfl | hid
      · obtain rfl : n' = n := by simpa [NodeMap.node?_id hn'] using hn
        exact hcond
      · exact ih hr n' hn' hid

lemma findCached_returns (hvalid : ∀ c ∈ cache, tree.Valid c)
    (h : ∀ n ∈ tree.nodes, ∃ b, cond n.key = .ok b) :
    ∃ o, findCached tree cond cache = .ok o := by
  induction cache with
  | nil => exact ⟨none, rfl⟩
  | cons c cache ih =>
    obtain ⟨n, hn, rfl⟩ := mem_map.1 (hvalid c mem_cons_self)
    obtain ⟨b, hb⟩ := h n hn
    obtain ⟨o, ho⟩ := ih fun c hc => hvalid c (.tail _ hc)
    have hid := NodeMap.node?_id hn
    cases b with
    | true => exact ⟨_, findCached_cons_eq_ok.2 ⟨n, hid, .inl ⟨hb, rfl⟩⟩⟩
    | false => exact ⟨_, findCached_cons_eq_ok.2 ⟨n, hid, .inr ⟨hb, o, ho, rfl⟩⟩⟩

end

/-- What a lookup that returns has seen: an entry in the cache that meets the condition, or no
such entry there, but one among the inspected entries of the tree, or none at all. -/
inductive Found (m : AddrRangeMap V maxCacheSize) (r : AddrRange)
    (cond : AddrRange → Except AddrRange.Panic Bool) :
    Option ℕ → AddrRangeMap V maxCacheSize → Prop
  | cached {n : Node AddrRange V} {rest : List ℕ} (hn : n ∈ m.tree.nodes)
      (hcond : cond n.key = .ok true) (hperm : m.cache.Perm (n.id :: rest)) :
      Found m r cond (some n.id) { m with cache := n.id :: rest }
  | tree {n : Node AddrRange V} (hn : n ∈ inspected m.tree r) (hcond : cond n.key = .ok true)
      (hcache : ∀ n ∈ m.tree.nodes, n.id ∈ m.cache → cond n.key = .ok false) :
      Found m r cond (some n.id)
        { m with cache := addNewEntryToCache maxCacheSize n.id m.cache }
  | missed (hcache : ∀ n ∈ m.tree.nodes, n.id ∈ m.cache → cond n.key = .ok false)
      (htree : ∀ n ∈ inspected m.tree r, cond n.key = .ok false) : Found m r cond none m

variable {cond : AddrRange → Except AddrRange.Panic Bool}

lemma find_eq_ok {m m' : AddrRangeMap V maxCacheSize} {r : AddrRange} {it : Option ℕ}
    (h : m.find r cond = .ok (it, m')) : Found m r cond it m' := by
  unfold find at h
  rcases hc : findCached m.tree cond m.cache with e | _ | ⟨c, rest⟩
  · rw [hc] at h
    cases h
  · rw [hc] at h
    have hcache := forall_of_findCached hc
    rcases ht : findTree m.tree r cond with e | _ | c
    · simp [ht] at h
    · obtain ⟨rfl, rfl⟩ : none = it ∧ m = m' := by
        simpa [ht] using h
      rw [findTree_eq] at ht
      exact .missed hcache (forall_of_firstWith ht)
    · obtain ⟨rfl, rfl⟩ :
          some c = it ∧ { m with cache := addNewEntryToCache maxCacheSize c m.cache } = m' := by
        simpa [ht] using h
      rw [findTree_eq] at ht
      obtain ⟨n, hn, rfl, hcond⟩ := exists_of_firstWith ht
      exact .tree hn hcond hcache
  · rw [hc] at h
    obtain ⟨rfl, rfl⟩ : some c = it ∧ { m with cache := c :: rest } = m' := by
      simpa using h
    obtain ⟨n, hn, rfl, hcond, hperm⟩ := exists_of_findCached hc
    exact .cached hn hcond hperm

lemma Found.tree_eq {m m' : AddrRangeMap V maxCacheSize} {r : AddrRange} {it : Option ℕ}
    (h : Found m r cond it m') : m'.tree = m.tree := by
  cases h <;> rfl

lemma find_returns {m : AddrRangeMap V maxCacheSize} (hvalid : ∀ c ∈ m.cache, m.tree.Valid c)
    (h : ∀ n ∈ m.tree.nodes, ∃ b, cond n.key = .ok b) (r : AddrRange) :
    ∃ it m', m.find r cond = .ok (it, m') := by
  obtain ⟨o, ho⟩ := findCached_returns hvalid h
  obtain ⟨o', ho'⟩ := firstWith_returns fun n hn => h n (inspected_subset m.tree r hn)
  unfold find
  rw [findTree_eq, ho, ho']
  rcases o with _ | ⟨c, rest⟩
  · rcases o' with _ | c
    · exact ⟨none, m, rfl⟩
    · exact ⟨some c, _, rfl⟩
  · exact ⟨some c, _, rfl⟩

/-! ### Insertion and removal -/

def insert (r : AddrRange) (d : V) : Except Fault (Option ℕ × AddrRangeMap V maxCacheSize) := do
  match ← m.intersects r with
  | (some _, m') => return (none, m')
  | (none, m') =>
      let (it, tree) := m'.tree.insert r d
      return (some it, { m' with tree })

/-- `cache.remove` of an iterator. -/
def removeCached (p : Option ℕ) (cache : List ℕ) : List ℕ := cache.filter fun c => some c ≠ p

/-- `AddrRangeMap::erase` of an iterator. -/
def erase (p : Option ℕ) : Except Fault (AddrRangeMap V maxCacheSize) :=
  match p.bind m.tree.erase? with
  | some tree => .ok { tree, cache := removeCached p m.cache }
  | none => .error .invalidIterator

/-- `AddrRangeMap::erase` of a range of iterators.  Every turn of the loop removes `p` from the
cache, not the iterator of the loop. -/
def eraseRange (p q : Option ℕ) : Except Fault (AddrRangeMap V maxCacheSize) :=
  match m.tree.range? p q with
  | some range =>
      .ok { tree := m.tree.remove (range.map Node.id)
            cache := range.foldl (fun cache _ => removeCached p cache) m.cache }
  | none => .error .invalidIterator

def clear : AddrRangeMap V maxCacheSize where
  tree := m.tree.remove (m.tree.nodes.map Node.id)
  cache := []

/-! ### Runs -/

/-- The calls of a client; iterators are positions. -/
inductive Call (V : Type) where
  | insert (r : AddrRange) (d : V)
  | contains (a : Addr)
  | containsRange (r : AddrRange)
  | intersects (r : AddrRange)
  | erase (p : Option ℕ)
  | eraseRange (p q : Option ℕ)
  | clear

/-- The map after a call. -/
def call : Call V → Except Fault (AddrRangeMap V maxCacheSize)
  | .insert r d => Prod.snd <$> m.insert r d
  | .contains a => Prod.snd <$> m.contains a
  | .containsRange r => Prod.snd <$> m.containsRange r
  | .intersects r => Prod.snd <$> m.intersects r
  | .erase p => m.erase p
  | .eraseRange p q => m.eraseRange p q
  | .clear => .ok m.clear

/-- The maps that calls build from the map without entries, if each of them meets a condition in
the state in which it is made. -/
inductive Built (P : AddrRangeMap V maxCacheSize → Call V → Prop) :
    AddrRangeMap V maxCacheSize → Prop
  | empty : Built P empty
  | call {m m' : AddrRangeMap V maxCacheSize} (hm : Built P m) (c : Call V) (hc : P m c)
      (h : m.call c = .ok m') : Built P m'

end AddrRangeMap

end ChipletGem5
