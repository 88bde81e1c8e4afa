import ChipletGem5.Mem.StackDistGrow

/-!
# The calculator is a plain stack

What the calculator is for is said with a list of addresses, the one added last in front, each
with a mark.  The distance of an address is the number of addresses above it.  The leaves of the
tree, from right to left, are the entries of this list, and every call returns what the list says:
`run_eq_answers`.
-/

namespace ChipletGem5.StackDist

open Blocks Function StackDistCalc List Prod

/-! ### The stack -/

/-- The two ways to ask for a distance. -/
inductive Call where
  | calcStackDistAndUpdate (a : Addr) (addNewNode : Bool)
  | calcStackDist (a : Addr) (mark : Bool)
deriving DecidableEq

def Call.addr : Call → Addr
  | .calcStackDistAndUpdate a _ => a
  | .calcStackDist a _ => a

/-- Does a call add a node? -/
def Call.adds : Call → Bool
  | .calcStackDistAndUpdate _ addNewNode => addNewNode
  | .calcStackDist _ _ => false

/-- The addresses of the stack with their marks, the one added last in front. -/
abbrev Stack := List (Addr × Bool)

namespace Stack

variable (s : Stack)

/-- The number of addresses above an address. -/
def dist (a : Addr) : ℕ := (s.findIdx? fun e => e.1 == a).getD Infinity

/-- The mark of an address. -/
def marked (a : Addr) : Bool := s.any fun e => e.1 == a && e.2

def next : Call → Stack
  | .calcStackDistAndUpdate a addNewNode =>
      let rest := s.filter fun e => e.1 != a
      if addNewNode then (a, false) :: rest else rest
  | .calcStackDist a mark => s.map fun e => if e.1 = a then (a, mark) else e

def answer (call : Call) : ℕ × Bool := (s.dist call.addr, s.marked call.addr)

/-- What a sequence of calls returns, with the stack at the end. -/
def answers : Stack → List Call → List (ℕ × Bool) × Stack
  | s, [] => ([], s)
  | s, call :: calls =>
      let (rs, s') := answers (s.next call) calls
      (s.answer call :: rs, s')

end Stack

section Entries

variable {s u v : Stack} {a : Addr} {m : Bool}

lemma Stack.answer_absent (h : ∀ e ∈ s, e.1 ≠ a) (m' : Bool) :
    s.dist a = Infinity ∧ s.marked a = false ∧ s.filter (fun e => e.1 != a) = s ∧
      s.map (fun e => if e.1 = a then (a, m') else e) = s := by
  refine ⟨?_, ?_, ?_, ?_⟩
  · rw [Stack.dist, List.findIdx?_eq_none_iff.2 fun e he => by simpa using h e he]
    rfl
  · refine any_eq_false.2 fun e he => ?_
    simp [h e he]
  · exact filter_eq_self.2 fun e he => by simpa using h e he
  · exact map_congr_left (fun e he => if_neg (h e he)) |>.trans s.map_id

lemma Stack.answer_found (h : ∀ e ∈ u ++ v, e.1 ≠ a) (m' : Bool) :
    Stack.dist (u ++ (a, m) :: v) a = u.length ∧ Stack.marked (u ++ (a, m) :: v) a = m ∧
      (u ++ (a, m) :: v).filter (fun e => e.1 != a) = u ++ v ∧
      (u ++ (a, m) :: v).map (fun e => if e.1 = a then (a, m') else e) = u ++ (a, m') :: v := by
  have hu : ∀ e ∈ u, e.1 ≠ a := fun e he => h e (by simp [he])
  have hv : ∀ e ∈ v, e.1 ≠ a := fun e he => h e (by simp [he])
  obtain ⟨-, hum, huf, hue⟩ := Stack.answer_absent hu m'
  obtain ⟨-, hvm, hvf, hve⟩ := Stack.answer_absent hv m'
  refine ⟨?_, ?_, ?_, ?_⟩
  · rw [Stack.dist, List.findIdx?_append,
      List.findIdx?_eq_none_iff.2 fun e he => by simpa using hu e he, List.findIdx?_cons]
    simp
  · rw [Stack.marked] at hum hvm ⊢
    simp [hum, hvm]
  · rw [filter_append, huf, filter_cons_of_neg (by simp), hvf]
  · rw [map_append, hue, map_cons, hve, if_pos rfl]

end Entries

def StackDistCalc.call (c : StackDistCalc) : Call → Result ((ℕ × Bool) × StackDistCalc)
  | .calcStackDistAndUpdate a addNewNode => c.calcStackDistAndUpdate a addNewNode
  | .calcStackDist a mark => c.calcStackDist a mark

def StackDistCalc.run : StackDistCalc → List Call →
    Result (List (ℕ × Bool) × StackDistCalc)
  | c, [] => .ok ([], c)
  | c, call :: calls => do
      let (r, c) ← c.call call
      let (rs, c) ← c.run calls
      return (r :: rs, c)

/-! ### Leaves and entries -/

variable {live : ℕ → Bool} {es pre post : List (ℕ × Addr × Bool)} {ai : Addr → Option ℕ}
  {lv : ℕ → Option Node} {r i : ℕ} {a : Addr} {m m' : Bool} {n : Node} {c : StackDistCalc}

/-- The entries of the stack, each with the index of its leaf. -/
structure Represents (live : ℕ → Bool) (es : List (ℕ × Addr × Bool)) (ai : Addr → Option ℕ)
    (lv : ℕ → Option Node) : Prop where
  sorted : es.Pairwise fun e e' => e'.1 < e.1
  live_iff : ∀ r, live r ↔ ∃ e ∈ es, e.1 = r
  aiMap : ∀ a r, ai a = some r ↔ ∃ m, (r, a, m) ∈ es
  marks : ∀ {r a m}, (r, a, m) ∈ es → ∃ n, lv r = some n ∧ n.isMarked = m

lemma Represents.found (h : Represents live es ai lv) (ha : ai a = some r) :
    ∃ pre m post, es = pre ++ (r, a, m) :: post ∧ ∀ e ∈ pre ++ post, e.2.1 ≠ a ∧ e.1 ≠ r := by
  obtain ⟨m, hm⟩ := (h.aiMap a r).1 ha
  obtain ⟨pre, post, rfl⟩ := append_of_mem hm
  refine ⟨pre, m, post, rfl, fun e he => ?_⟩
  have hne : e.1 ≠ r := by
    have hs := pairwise_append.1 h.sorted
    obtain he | he := mem_append.1 he
    · exact (hs.2.2 e he (r, a, m) (by simp)).ne'
    · exact ((pairwise_cons.1 hs.2.1).1 e he).ne
  refine ⟨fun hea => hne ?_, hne⟩
  have hmem : (e.1, a, e.2.2) ∈ pre ++ (r, a, m) :: post := by
    rw [← hea]
    simp only [mem_append, mem_cons] at he ⊢
    tauto
  exact Option.some.inj (((h.aiMap a e.1).2 ⟨_, hmem⟩).symm.trans ha)

lemma Represents.absent (h : Represents live es ai lv) (ha : ai a = none) :
    ∀ e ∈ es, e.2.1 ≠ a := by
  rintro ⟨r, a', m⟩ he rfl
  rw [(h.aiMap _ r).2 ⟨m, he⟩] at ha
  cases ha

lemma Represents.dist_eq (h : Represents live (pre ++ (r, a, m) :: post) ai lv) {N d : ℕ}
    (hlt : ∀ r, live r → r < N) (hd : before live (r + 1) + d = before live N) :
    d = pre.length := by
  have hs := pairwise_append.1 h.sorted
  have hs' := pairwise_cons.1 hs.2.1
  set l := (pre ++ (r, a, m) :: post).map fst with hl
  have hnodup : l.Nodup := List.Pairwise.map _ (fun _ _ h => h.ne') h.sorted
  have hmem : ∀ r, live r ↔ r ∈ l := fun r => by rw [h.live_iff, mem_map]
  have hall : l.countP (· < N) = l.length :=
    countP_eq_length.2 fun r hr => by simpa using hlt r ((hmem r).2 hr)
  have hpre : (pre.map fst).countP (· < r + 1) = 0 := by
    refine countP_eq_zero.2 fun x hx => ?_
    obtain ⟨e, he, rfl⟩ := mem_map.1 hx
    have := hs.2.2 e he (r, a, m) (by simp)
    simp only [decide_eq_true_eq]
    omega
  have hpost : (post.map fst).countP (· < r + 1) = post.length := by
    rw [countP_eq_length.2, length_map]
    intro x hx
    obtain ⟨e, he, rfl⟩ := mem_map.1 hx
    have := hs'.1 e he
    simp only [decide_eq_true_eq]
    omega
  rw [before_eq_countP hnodup hmem, before_eq_countP hnodup hmem, hall, hl, map_append,
    map_cons, countP_append, hpre, countP_cons, hpost] at hd
  simp at hd
  omega

lemma Represents.remove (h : Represents live (pre ++ (r, a, m) :: post) ai lv)
    (hne : ∀ e ∈ pre ++ post, e.2.1 ≠ a ∧ e.1 ≠ r) :
    Represents (update live r false) (pre ++ post) (update ai a none)
      (update lv r none) := by
  have hmem : ∀ e, e ∈ pre ++ (r, a, m) :: post ↔ e = (r, a, m) ∨ e ∈ pre ++ post := by
    intro e
    simp only [mem_append, mem_cons]
    tauto
  refine ⟨h.sorted.sublist ((sublist_cons_self _ _).append_left _), fun x => ?_,
    fun b x => ?_, fun {x b m'} he => ?_⟩
  · by_cases hx : x = r
    · subst hx
      simp only [update_self, Bool.false_eq_true, false_iff]
      rintro ⟨e, he, rfl⟩
      exact (hne e he).2 rfl
    · rw [update_of_ne hx, h.live_iff]
      constructor
      · rintro ⟨e, he, rfl⟩
        obtain rfl | he := (hmem e).1 he
        · exact absurd rfl hx
        · exact ⟨e, he, rfl⟩
      · rintro ⟨e, he, rfl⟩
        exact ⟨e, (hmem e).2 (.inr he), rfl⟩
  · by_cases hb : b = a
    · subst hb
      simp only [update_self, reduceCtorEq, false_iff]
      rintro ⟨m', he⟩
      exact (hne _ he).1 rfl
    · rw [update_of_ne hb, h.aiMap]
      simp [hb]
  · rw [update_of_ne (hne _ he).2]
    exact h.marks ((hmem _).2 (.inr he))

lemma Represents.add (h : Represents live es ai lv) (hlt : ∀ r, live r → r < i)
    (ha : ai a = none) (hn : n.isMarked = false) :
    Represents (update live i true) ((i, a, false) :: es) (update ai a (some i))
      (update lv i (some n)) := by
  have hes : ∀ e ∈ es, e.1 < i := fun e he => hlt _ ((h.live_iff _).2 ⟨e, he, rfl⟩)
  refine ⟨pairwise_cons.2 ⟨hes, h.sorted⟩, fun x => ?_, fun b x => ?_, fun {x b m} he => ?_⟩
  · by_cases hx : x = i
    · subst hx
      simp
    · rw [update_of_ne hx, h.live_iff]
      simp [Ne.symm hx]
  · by_cases hb : b = a
    · subst hb
      have habs := h.absent ha
      simp only [update_self, Option.some.injEq, mem_cons, Prod.mk.injEq, true_and]
      constructor
      · rintro rfl
        exact ⟨false, .inl ⟨rfl, rfl⟩⟩
      · rintro ⟨m, ⟨rfl, -⟩ | he⟩
        · rfl
        · exact absurd rfl (habs _ he)
    · rw [update_of_ne hb, h.aiMap]
      simp [hb]
  · obtain he | he := mem_cons.1 he
    · obtain ⟨rfl, rfl, rfl⟩ := he
      exact ⟨n, update_self _ _ _, hn⟩
    · rw [update_of_ne (hes _ he).ne]
      exact h.marks he

lemma Represents.mark (h : Represents live (pre ++ (r, a, m) :: post) ai lv)
    (hne : ∀ e ∈ pre ++ post, e.2.1 ≠ a ∧ e.1 ≠ r) (hn : n.isMarked = m') :
    Represents live (pre ++ (r, a, m') :: post) ai (update lv r (some n)) := by
  have hmem : ∀ m e, e ∈ pre ++ (r, a, m) :: post ↔ e = (r, a, m) ∨ e ∈ pre ++ post := by
    intro m e
    simp only [mem_append, mem_cons]
    tauto
  refine ⟨?_, fun x => ?_, fun b x => ?_, fun {x b m1} he => ?_⟩
  · have hs := h.sorted
    rw [← pairwise_map (f := fst) (R := fun x y => y < x)] at hs ⊢
    simpa using hs
  · rw [h.live_iff]
    simp only [hmem, or_and_right, exists_or, exists_eq_left]
  · rw [h.aiMap]
    simp only [hmem, exists_or, Prod.mk.injEq, exists_and_left, exists_eq, and_true]
  · obtain he | he := (hmem _ _).1 he
    · obtain ⟨rfl, rfl, rfl⟩ := he
      exact ⟨n, update_self _ _ _, hn⟩
    · rw [update_of_ne (hne _ he).2]
      exact h.marks ((hmem _ _).2 (.inr he))

/-! ### The calls -/

/-- The state of the calculator stands for a stack. -/
def Refines (c : StackDistCalc) (s : Stack) : Prop :=
  ∃ live es, Inv live c ∧ Represents live es c.aiMap (c.tree 0) ∧ s = es.map Prod.snd

lemma Inv.congr_aiMap (h : Inv live c) (ai : Addr → Option ℕ) :
    Inv live { c with aiMap := ai } :=
  { h with
    linked := h.linked.congr_leaves h.depth_pos (fun _ => rfl) (fun _ => rfl) rfl rfl
    leaves := ⟨h.leaves.parent, h.leaves.isLeftNode, h.leaves.live_iff, h.leaves.lt_index⟩ }

lemma Represents.map_absent (h : Represents live es ai lv) (ha : ai a = none) :
    ∀ e ∈ es.map snd, e.1 ≠ a := by
  intro e he
  obtain ⟨e', he', rfl⟩ := mem_map.1 he
  exact h.absent ha e' he'

lemma Represents.map_found (hne : ∀ e ∈ pre ++ post, e.2.1 ≠ a ∧ e.1 ≠ r) :
    ∀ e ∈ pre.map snd ++ post.map snd, e.1 ≠ a := by
  intro e he
  rw [← map_append] at he
  obtain ⟨e', he', rfl⟩ := mem_map.1 he
  exact (hne e' he').1

lemma takeLeaf_ok (h : Inv live c) (hr : Represents live es c.aiMap (c.tree 0)) (a : Addr) :
    ∃ c1 live1 es1,
      c.takeLeaf a = .ok ((Stack.dist (es.map snd) a, Stack.marked (es.map snd) a), c1) ∧
      Inv live1 c1 ∧ Represents live1 es1 (update c.aiMap a none) (c1.tree 0) ∧
      es1.map snd = (es.map snd).filter (fun e => e.1 != a) ∧ c1.index = c.index := by
  cases ha : c.aiMap a with
  | none =>
    obtain ⟨hdist, hmark, hfilter, -⟩ := Stack.answer_absent (hr.map_absent ha) false
    refine ⟨c, live, es, ?_, h, ?_, hfilter.symm, rfl⟩
    · rw [takeLeaf, ha, hdist, hmark]
    · rwa [update_eq_self_iff.2 ha.symm]
  | some r =>
    obtain ⟨pre, m, post, rfl, hne⟩ := hr.found ha
    obtain ⟨leaf, hleaf, hmark⟩ := hr.marks (r := r) (a := a) (m := m) (by simp)
    obtain ⟨d, t, hrun, hd, ht, hinv⟩ := h.removeLeaf hleaf
    cases hr.dist_eq (fun r hr => h.lt_two_pow hr) hd
    obtain ⟨hdist, hmarked, hfilter, -⟩ :=
      Stack.answer_found (m := m) (Represents.map_found hne) false
    have hleaf' : t 0 r = some { leaf with sumLeft := 0 } := by rw [ht, update_self]
    refine ⟨{ c with tree := t.set 0 r none }, _, pre ++ post, ?_, hinv, ?_, ?_, rfl⟩
    · rw [map_append, map_cons, hdist, hmarked]
      simp only [takeLeaf, ha, hrun, getOrError_eq_ok.2 hleaf', ok_bind, length_map, ← hmark]
      rfl
    · simp only [Tree.set, update_self, ht, update_idem]
      exact hr.remove hne
    · rw [map_append, map_append, map_cons, hfilter]

variable {s : Stack}

lemma Refines.calcStackDistAndUpdate (h : Refines c s) (hlt : c.index < 2 ^ 31)
    (a : Addr) (addNewNode : Bool) :
    ∃ c', c.calcStackDistAndUpdate a addNewNode = .ok ((s.dist a, s.marked a), c') ∧
      Refines c' (s.next (.calcStackDistAndUpdate a addNewNode)) ∧
      c'.index = c.index + if addNewNode then 1 else 0 := by
  obtain ⟨live, es, hinv, hr, rfl⟩ := h
  obtain ⟨c1, live1, es1, htake, hinv1, hr1, hes, hindex⟩ := takeLeaf_ok hinv hr a
  cases addNewNode with
  | false =>
    refine ⟨{ c1 with aiMap := update c.aiMap a none }, ?_,
      ⟨live1, es1, hinv1.congr_aiMap _, hr1, hes.symm⟩, hindex⟩
    simp only [calcStackDistAndUpdate, htake, ok_bind]
    rfl
  | true =>
    obtain ⟨c2, leaf, hadd, hinv2, hi2, hai2, ht2, hmark⟩ :=
      (hinv1.congr_aiMap (update c.aiMap a (some c.index))).addLeaf
        (by rw [← hindex] at hlt; exact hlt)
    refine ⟨c2, ?_, ⟨_, (c1.index, a, false) :: es1, hinv2, ?_, ?_⟩, ?_⟩
    · simp only [calcStackDistAndUpdate, htake, ok_bind, if_true, hadd]
      rfl
    · have hrep := hr1.add (i := c1.index) (fun r hr => hinv1.leaves.lt_index hr)
        (update_self _ _ _) hmark
      rw [update_idem] at hrep
      rwa [hai2, ht2, ← hindex]
    · rw [map_cons, hes]
      rfl
    · rw [hi2, ← hindex]
      rfl

lemma Refines.calcStackDist (h : Refines c s) (a : Addr) (mark : Bool) :
    ∃ c', c.calcStackDist a mark = .ok ((s.dist a, s.marked a), c') ∧
      Refines c' (s.next (.calcStackDist a mark)) ∧ c'.index = c.index := by
  obtain ⟨live, es, hinv, hr, rfl⟩ := h
  cases ha : c.aiMap a with
  | none =>
    obtain ⟨hdist, hmark, -, hmap⟩ := Stack.answer_absent (hr.map_absent ha) mark
    refine ⟨c, ?_, ⟨live, es, hinv, hr, hmap⟩, rfl⟩
    rw [calcStackDist, ha, hdist, hmark]
  | some r =>
    obtain ⟨pre, m, post, rfl, hne⟩ := hr.found ha
    obtain ⟨leaf, hleaf, hmark⟩ := hr.marks (r := r) (a := a) (m := m) (by simp)
    have hinv' := hinv.markLeaf hleaf mark
    obtain ⟨d, hrun, hd⟩ := hinv'.getSums
      (c.tree.set_self 0 r (some { leaf with isMarked := mark }))
    cases hr.dist_eq (fun r hr => hinv.lt_two_pow hr) hd
    obtain ⟨hdist, hmarked, -, hmap⟩ := Stack.answer_found (m := m) (Represents.map_found hne) mark
    refine ⟨_, ?_, ⟨live, pre ++ (r, a, mark) :: post, hinv', ?_, ?_⟩, rfl⟩
    · rw [map_append, map_cons, hdist, hmarked]
      simp only [calcStackDist, ha, getOrError_eq_ok.2 hleaf, hrun, ok_bind,
        length_map, ← hmark]
      rfl
    · simp only [Tree.set, update_self]
      exact hr.mark hne rfl
    · rw [Stack.next, map_append, map_cons, hmap, map_append, map_cons]

/-! ### Sequences of calls -/

lemma Refines.call (h : Refines c s) (hlt : c.index < 2 ^ 31) (call : Call) :
    ∃ c', c.call call = .ok (s.answer call, c') ∧ Refines c' (s.next call) ∧
      c'.index = c.index + if call.adds then 1 else 0 := by
  cases call with
  | calcStackDistAndUpdate a addNewNode => exact h.calcStackDistAndUpdate hlt a addNewNode
  | calcStackDist a mark => exact h.calcStackDist a mark

lemma inv_new : Inv (fun _ => false) new := by
  have htree : new.tree = Tree.set (fun _ _ => none) 1 0 (some {}) := rfl
  have hnode : ∀ {k j n}, new.tree (k + 1) j = some n → k = 0 ∧ j = 0 ∧ n = {} := by
    intro k j n hn
    by_cases he : k + 1 = 1 ∧ j = 0
    · rw [he.1, he.2, htree, Tree.set_self, Option.some.injEq] at hn
      exact ⟨by omega, he.2, hn.symm⟩
    · rw [htree, Tree.set_of_ne _ _ he] at hn
      cases hn
  have hspan : ∀ k j, span (fun _ => false) k j = 0 := fun k j =>
    Blocks.span_eq_zero.2 fun _ _ => rfl
  refine ⟨⟨fun hn => ?_, fun hn => ?_, fun hn => ?_, fun {k j} hk hj hn => ?_, ⟨{}, ?_⟩⟩,
    fun k j n hn => ?_, ⟨fun hn => ?_, fun hn => ?_, fun r => ?_, nofun⟩, by decide, by decide,
    .inl rfl, fun k hk => ?_⟩
  · obtain ⟨rfl, rfl, rfl⟩ := hnode hn
    exact ⟨rfl, rfl, rfl⟩
  · obtain ⟨rfl, rfl, rfl⟩ := hnode hn
    exact ⟨le_rfl, one_pos⟩
  · obtain ⟨rfl, rfl, rfl⟩ := hnode hn
    exact ⟨nofun, nofun⟩
  · obtain rfl : k = 0 := Nat.lt_one_iff.1 hk
    obtain rfl : j = 0 := Nat.lt_one_iff.1 hj
    cases hn
  · rw [htree]
    exact Tree.set_self _ 1 0 _
  · obtain ⟨rfl, rfl, rfl⟩ := hnode hn
    exact ⟨(hspan _ _).symm, (hspan _ _).symm⟩
  · cases hn
  · cases hn
  · rfl
  · obtain rfl : k = 0 := Nat.lt_one_iff.1 hk
    rfl

lemma refines_new : Refines new [] :=
  ⟨_, [], inv_new, ⟨List.Pairwise.nil, by simp, by simp [new], by simp⟩, rfl⟩

lemma Refines.run {calls : List Call} (h : Refines c s)
    (hlt : c.index + calls.countP Call.adds < 2 ^ 31) :
    ∃ c', c.run calls = .ok ((s.answers calls).1, c') ∧ Refines c' (s.answers calls).2 := by
  induction calls generalizing c s with
  | nil => exact ⟨c, rfl, h⟩
  | cons call calls ih =>
    obtain ⟨c1, hcall, h1, hindex⟩ := h.call (by omega) call
    rw [countP_cons] at hlt
    obtain ⟨c2, hrun, h2⟩ := ih h1 (by omega)
    refine ⟨c2, ?_, h2⟩
    simp only [run, hcall, hrun, ok_bind]
    rfl

/-- The calculator refines a plain stack: in every sequence of calls that adds fewer than `2 ^ 31`
nodes, each call returns the distance and the mark that the stack has, and the tree at the end
stands for the stack at the end. -/
theorem run_eq_answers (calls : List Call) (h : calls.countP Call.adds < 2 ^ 31) :
    ∃ c, StackDistCalc.new.run calls = .ok ((Stack.answers [] calls).1, c) ∧
      Refines c (Stack.answers [] calls).2 :=
  refines_new.run (by simpa [new] using h)

/-- An address is added, found at distance 1 after another one, marked, and removed. -/
theorem run_eq_answers_twoAddrs :
    let calls : List Call := [.calcStackDistAndUpdate 64 true, .calcStackDistAndUpdate 128 true,
      .calcStackDist 64 true, .calcStackDistAndUpdate 64 false, .calcStackDist 64 false]
    (Stack.answers [] calls).1 =
        [(Infinity, false), (Infinity, false), (1, false), (1, true), (Infinity, false)] ∧
      ∃ c, new.run calls = .ok ((Stack.answers [] calls).1, c) ∧
        Refines c (Stack.answers [] calls).2 :=
  ⟨by decide, run_eq_answers _ (by decide)⟩

end ChipletGem5.StackDist
