import ChipletGem5.O3.RenameMap
import Mathlib.Data.List.TakeWhile

/-!
# No physical register is lost, and a squash restores the rename map

A renaming takes a register from the free list into the rename map and moves the register that was
there into the history buffer.  When the instruction commits, that one is freed; when it is
squashed, it goes back into the map and the new one is freed.  For a squash to be right, the entries
of the history buffer must undo the renamings of the thread one after the other; that is `Traces`
for the map of the moment, and `Logged` for the maps that the instructions in flight have found.
-/

namespace ChipletGem5.O3

open Finset (univ mem_univ)

open Function List RenameMap RenameState RegHistory Prod

variable {cfg : RenameConfig}

/-! ### Places of registers -/

namespace RenameState

variable (s : RenameState cfg) (tid : Fin cfg.numThreads)

/-- How often a thread has a register: in its rename map, and as the previous register of an entry
of its history buffer that was a change. -/
def held (p : PhysRegId) : ℕ :=
  (s.renameMap tid p.regClass).count p +
    (s.historyBuffer tid).countP (fun e => e.newPhysReg ≠ e.prevPhysReg ∧ e.prevPhysReg = p)

/-- In how many places a register is. -/
def occurrences (p : PhysRegId) : ℕ :=
  (s.freeList p.regClass).count p + ∑ t, s.held t p

/-- The other threads keep their rename maps and history buffers. -/
structure SameElsewhere (s' : RenameState cfg) : Prop where
  renameMap : ∀ t ≠ tid, s'.renameMap t = s.renameMap t
  historyBuffer : ∀ t ≠ tid, s'.historyBuffer t = s.historyBuffer t

variable {s tid} {s' s'' : RenameState cfg} {p : PhysRegId}

lemma SameElsewhere.refl : s.SameElsewhere tid s :=
  ⟨fun _ _ => rfl, fun _ _ => rfl⟩

lemma SameElsewhere.trans (h : s.SameElsewhere tid s') (h' : s'.SameElsewhere tid s'') :
    s.SameElsewhere tid s'' :=
  ⟨fun t ht => (h'.renameMap t ht).trans (h.renameMap t ht),
    fun t ht => (h'.historyBuffer t ht).trans (h.historyBuffer t ht)⟩

lemma SameElsewhere.occurrences_eq (hsame : s.SameElsewhere tid s')
    (h : (s'.freeList p.regClass).count p + s'.held tid p =
      (s.freeList p.regClass).count p + s.held tid p) :
    s'.occurrences p = s.occurrences p := by
  have hothers : ∑ t ∈ univ.erase tid, s'.held t p =
      ∑ t ∈ univ.erase tid, s.held t p := by
    refine Finset.sum_congr rfl fun t ht => ?_
    have hne := Finset.ne_of_mem_erase ht
    rw [held, held, hsame.renameMap t hne, hsame.historyBuffer t hne]
  rw [occurrences, occurrences, ← Finset.add_sum_erase univ _ (mem_univ tid),
    ← Finset.add_sum_erase univ _ (mem_univ tid)]
  omega

end RenameState

lemma count_set_add {α : Type*} [DecidableEq α] {l : List α} {i : ℕ} {x y : α}
    (h : l[i]? = some x) (z : α) :
    (l.set i y).count z + (if x = z then 1 else 0) = l.count z + if y = z then 1 else 0 := by
  induction l generalizing i with
  | nil => simp at h
  | cons a l ih =>
    cases i with
    | zero =>
      obtain rfl : a = x := by simpa using h
      simp only [set_cons_zero, count_cons, beq_iff_eq]
      omega
    | succ i =>
      have := ih (by simpa using h)
      simp only [set_cons_succ, count_cons]
      omega

namespace RenameMap

variable {m : RenameMap} {r : RegId} {p q q' : PhysRegId}

lemma set_apply_self : (m.set cfg r q) r.regClass = (m r.regClass).set (cfg.flatIndex r) q := by
  simp [set]

lemma count_set (h : (m r.regClass)[cfg.flatIndex r]? = some q') (hq : q.regClass = r.regClass)
    (hq' : q'.regClass = r.regClass) :
    ((m.set cfg r q) p.regClass).count p + (if q' = p then 1 else 0) =
      (m p.regClass).count p + if q = p then 1 else 0 := by
  by_cases hp : p.regClass = r.regClass
  · rw [hp, set_apply_self]
    exact count_set_add h p
  · have hne : q ≠ p := by
      rintro rfl
      exact hp hq
    have hne' : q' ≠ p := by
      rintro rfl
      exact hp hq'
    simp [set, hp, hne, hne']

lemma set_set_self (h : (m r.regClass)[cfg.flatIndex r]? = some q') :
    (m.set cfg r q).set cfg r q' = m := by
  funext c
  by_cases hc : c = r.regClass
  · subst hc
    rw [set_apply_self, set_apply_self, set_set]
    exact ext_getElem? fun i => by
      by_cases hi : cfg.flatIndex r = i
      · subst hi
        rw [List.getElem?_set_self (List.getElem?_eq_some_iff.1 h).1, h]
      · rw [List.getElem?_set_ne hi]
  · simp [set, hc]

variable {c : RegClass}

lemma mem_set (h : p ∈ (m.set cfg r q) c) : p ∈ m c ∨ (p = q ∧ c = r.regClass) := by
  by_cases hc : c = r.regClass
  · subst hc
    rw [set_apply_self] at h
    rcases mem_or_eq_of_mem_set h with h | rfl
    · exact .inl h
    · exact .inr ⟨rfl, rfl⟩
  · exact .inl (by simpa [set, hc] using h)

end RenameMap

/-! ### The entries of the history buffer -/

/-- The map with the change of an entry undone. -/
def RegHistory.restore (cfg : RenameConfig) (m : RenameMap) (e : RegHistory) : RenameMap :=
  if e.newPhysReg ≠ e.prevPhysReg then m.set cfg e.archReg e.prevPhysReg else m

/-- The map with the changes of a list of entries undone, the first one first. -/
def undoAll (cfg : RenameConfig) (m : RenameMap) (es : List RegHistory) : RenameMap :=
  es.foldl (RegHistory.restore cfg) m

/-- The entries of a history buffer are the changes that have led to a map, the latest first. -/
def Traces (cfg : RenameConfig) : RenameMap → List RegHistory → Prop
  | _, [] => True
  | m, e :: es =>
      (e.newPhysReg ≠ e.prevPhysReg →
        (m e.archReg.regClass)[cfg.flatIndex e.archReg]? = some e.newPhysReg) ∧
      Traces cfg (e.restore cfg m) es

lemma Traces.of_append {m : RenameMap} {es es' : List RegHistory}
    (h : Traces cfg m (es ++ es')) : Traces cfg m es := by
  induction es generalizing m with
  | nil => trivial
  | cons e es ih => exact ⟨h.1, ih h.2⟩

/-- The registers of an entry that was a change are of the class of its architectural register. -/
def RegHistory.Typed (cfg : RenameConfig) (e : RegHistory) : Prop :=
  e.newPhysReg ≠ e.prevPhysReg → cfg.renames e.archReg.regClass ∧
    e.newPhysReg.regClass = e.archReg.regClass ∧ e.prevPhysReg.regClass = e.archReg.regClass

/-! ### The invariant -/

namespace RenameState

/-- What holds of the stage at all times. -/
structure Inv (s : RenameState cfg) : Prop where
  freeList_class : ∀ c, ∀ p ∈ s.freeList c, p.regClass = c
  renameMap_class : ∀ t c, ∀ p ∈ s.renameMap t c, p.regClass = c
  history_class : ∀ t, ∀ e ∈ s.historyBuffer t, e.Typed cfg
  traces : ∀ t, Traces cfg (s.renameMap t) (s.historyBuffer t)
  once : ∀ p, s.occurrences p = if cfg.IsPhysReg p then 1 else 0

variable {s s' : RenameState cfg} {tid : Fin cfg.numThreads} {p : PhysRegId} {r : RegId}
  {e : RegHistory} {es : List RegHistory} {n : ℕ}

lemma Inv.of_thread (hs : s.Inv) (hsame : s.SameElsewhere tid s')
    (hfree : ∀ c, ∀ p ∈ s'.freeList c, p.regClass = c)
    (hmap : ∀ c, ∀ p ∈ s'.renameMap tid c, p.regClass = c)
    (hhist : ∀ e ∈ s'.historyBuffer tid, e.Typed cfg)
    (htraces : Traces cfg (s'.renameMap tid) (s'.historyBuffer tid))
    (hcount : ∀ p : PhysRegId, (s'.freeList p.regClass).count p + s'.held tid p =
      (s.freeList p.regClass).count p + s.held tid p) : s'.Inv where
  freeList_class := hfree
  renameMap_class t := by
    by_cases ht : t = tid
    · exact ht ▸ hmap
    · exact hsame.renameMap t ht ▸ hs.renameMap_class t
  history_class t := by
    by_cases ht : t = tid
    · exact ht ▸ hhist
    · exact hsame.historyBuffer t ht ▸ hs.history_class t
  traces t := by
    by_cases ht : t = tid
    · exact ht ▸ htraces
    · rw [hsame.renameMap t ht, hsame.historyBuffer t ht]
      exact hs.traces t
  once p := (hsame.occurrences_eq (hcount p)).trans (hs.once p)

lemma Inv.notMem_renameMap (hs : s.Inv) (hp : p ∈ s.freeList c) : p ∉ s.renameMap tid c := by
  intro hmap
  cases hs.freeList_class c p hp
  have h1 := count_pos_iff.2 hp
  have h2 := count_pos_iff.2 hmap
  have h3 : s.held tid p ≤ ∑ t, s.held t p :=
    Finset.single_le_sum (f := fun t => s.held t p) (fun t _ => Nat.zero_le _)
      (mem_univ tid)
  have h4 := hs.once p
  rw [occurrences] at h4
  rw [held] at h3
  split_ifs at h4 <;> omega

lemma Inv.renameDestReg (hs : s.Inv) (h : renameDestReg tid n s r = .ok s') :
    s'.Inv ∧ s.SameElsewhere tid s' ∧
    ∃ e : RegHistory, e.instSeqNum = n ∧ s'.historyBuffer tid = e :: s.historyBuffer tid ∧
      e.restore cfg (s'.renameMap tid) = s.renameMap tid := by
  obtain ⟨⟨⟨new, prev⟩, s1⟩, h1, h2⟩ := bind_eq_ok.1 h
  cases h2
  obtain ⟨hhist, ⟨rfl, hfree, hmap⟩ | ⟨rest, hren, hfree, hprev, hfree', hmap⟩⟩ := rename_cases h1
  · -- the register keeps its physical register, and the entry is no change
    have hsame : s.SameElsewhere tid (s1.pushHistory tid ⟨n, r, new, new⟩) :=
      ⟨fun t _ => by simp [pushHistory, hmap], fun t ht => by simp [pushHistory, hhist, ht]⟩
    have hhist' : (s1.pushHistory tid ⟨n, r, new, new⟩).historyBuffer tid =
        ⟨n, r, new, new⟩ :: s.historyBuffer tid := by simp [pushHistory, hhist]
    have hrestore : restore cfg (s1.renameMap tid) ⟨n, r, new, new⟩ =
        s.renameMap tid := by simp [restore, hmap]
    refine ⟨hs.of_thread hsame ?_ ?_ ?_ ?_ ?_, hsame, _, rfl, hhist', hrestore⟩
    · simpa [pushHistory, hfree] using hs.freeList_class
    · simpa [pushHistory, hmap] using hs.renameMap_class tid
    · rw [hhist']
      exact forall_mem_cons.2 ⟨absurd rfl, hs.history_class tid⟩
    · rw [hhist']
      exact ⟨absurd rfl, hrestore.symm ▸ hs.traces tid⟩
    · intro p
      rw [held, held, hhist']
      simp [pushHistory, hmap, hfree]
  · -- the first free register takes the place of the previous one
    have hnew : new ∈ s.freeList r.regClass := by simp [hfree]
    have hne : new ≠ prev := by
      rintro rfl
      exact hs.notMem_renameMap hnew (mem_of_getElem? hprev)
    have hclass := hs.freeList_class _ _ hnew
    have hclass' := hs.renameMap_class tid _ _ (mem_of_getElem? hprev)
    have hsame : s.SameElsewhere tid (s1.pushHistory tid ⟨n, r, new, prev⟩) :=
      ⟨fun t ht => by simp [pushHistory, hmap, ht], fun t ht => by simp [pushHistory, hhist, ht]⟩
    have hhist' : (s1.pushHistory tid ⟨n, r, new, prev⟩).historyBuffer tid =
        ⟨n, r, new, prev⟩ :: s.historyBuffer tid := by simp [pushHistory, hhist]
    have hmap' : (s1.pushHistory tid ⟨n, r, new, prev⟩).renameMap tid =
        (s.renameMap tid).set cfg r new := by simp [pushHistory, hmap]
    have hrestore : restore cfg ((s.renameMap tid).set cfg r new) ⟨n, r, new, prev⟩ =
        s.renameMap tid := by
      simpa [restore, hne] using set_set_self hprev
    refine ⟨hs.of_thread hsame ?_ ?_ ?_ ?_ ?_, hsame, _, rfl, hhist', hmap' ▸ hrestore⟩
    -- the classes of the free registers, of the map and of the history
    · intro c p hp
      by_cases hc : c = r.regClass
      · subst hc
        exact hs.freeList_class _ p (by
          simp only [pushHistory, hfree', update_self] at hp
          simp [hfree, hp])
      · exact hs.freeList_class _ p (by simpa [pushHistory, hfree', hc] using hp)
    · intro c p hp
      rcases mem_set (hmap' ▸ hp) with hp | ⟨rfl, rfl⟩
      · exact hs.renameMap_class tid c p hp
      · exact hclass
    · rw [hhist']
      exact forall_mem_cons.2 ⟨fun _ => ⟨hren, hclass, hclass'⟩, hs.history_class tid⟩
    -- undoing the new entry leads back to the map that the older entries trace
    · rw [hhist', hmap']
      refine ⟨fun _ => ?_, hrestore.symm ▸ hs.traces tid⟩
      rw [set_apply_self, List.getElem?_set_self (List.getElem?_eq_some_iff.1 hprev).1]
    -- `new` goes from the free list to the map, and `prev` from the map to the history
    · intro p
      have hcount := count_set (p := p) hprev hclass hclass'
      have hfreeCount : (s.freeList p.regClass).count p =
          (s1.freeList p.regClass).count p + if new = p then 1 else 0 := by
        by_cases hp : p.regClass = r.regClass
        · rw [hp, hfree, hfree', update_self, count_cons]
          simp
        · have hnp : new ≠ p := by
            rintro rfl
            exact hp hclass
          simp [hfree', hp, hnp]
      rw [held, held, hhist', hmap', countP_cons]
      simp only [pushHistory, hne, ne_eq, not_false_eq_true, true_and, decide_eq_true_eq] at *
      omega

lemma count_freed (c : RegClass) (q : PhysRegId) (hq : q.regClass = c) :
    (update s.freeList c (s.freeList c ++ [q]) p.regClass).count p =
      (s.freeList p.regClass).count p + if q = p then 1 else 0 := by
  by_cases hp : p.regClass = c
  · rw [hp, update_self, count_append, count_singleton]
    simp
  · have hne : q ≠ p := by
      rintro rfl
      exact hp hq
    simp [hp, hne]

lemma class_of_mem_freed (hs : s.Inv) {c' : RegClass} {q : PhysRegId} (hq : q.regClass = c)
    (hp : p ∈ update s.freeList c (s.freeList c ++ [q]) c') : p.regClass = c' := by
  by_cases hc : c' = c
  · subst hc
    rw [update_self, mem_append, mem_singleton] at hp
    rcases hp with hp | rfl
    · exact hs.freeList_class c' p hp
    · exact hq
  · exact hs.freeList_class c' p (by simpa [hc] using hp)

/-- One round of the loop of a squash: the latest entry is undone. -/
lemma Inv.undo (hs : s.Inv) (hhist : s.historyBuffer tid = e :: es) :
    ∃ s', s.undo tid e = .ok s' ∧ (s'.setHistory tid es).Inv ∧
      s.SameElsewhere tid (s'.setHistory tid es) ∧
      s'.renameMap tid = e.restore cfg (s.renameMap tid) := by
  have htyped := hs.history_class tid e (by simp [hhist])
  have htypes : ∀ e' ∈ es, e'.Typed cfg :=
    fun e' he' => hs.history_class tid e' (by simp [hhist, he'])
  have htraces := hs.traces tid
  rw [hhist] at htraces
  by_cases hne : e.newPhysReg = e.prevPhysReg
  · have hrestore : e.restore cfg (s.renameMap tid) = s.renameMap tid := by
      simp [restore, hne]
    have hsame : s.SameElsewhere tid (s.setHistory tid es) :=
      ⟨fun t _ => rfl, fun t ht => by simp [setHistory, ht]⟩
    refine ⟨s, by simp [RenameState.undo, hne],
      hs.of_thread hsame hs.freeList_class (hs.renameMap_class tid) ?_ ?_ ?_, hsame,
      hrestore.symm⟩
    · simpa [setHistory] using htypes
    · simpa [setHistory, hrestore] using htraces.2
    · intro p
      simp [setHistory, held, hhist, hne]
  · obtain ⟨hren, hnew, hprev⟩ := htyped hne
    have hmap := htraces.1 hne
    have hrestore : e.restore cfg (s.renameMap tid) =
        (s.renameMap tid).set cfg e.archReg e.prevPhysReg := by
      simp [restore, hne]
    let s1 := s.setMap tid e.archReg e.prevPhysReg
    let s2 : RenameState cfg := { s1 with
      freeList := update s.freeList e.newPhysReg.regClass
        (s.freeList e.newPhysReg.regClass ++ [e.newPhysReg]) }
    have hundo : s.undo tid e = .ok s2 := by
      rw [RenameState.undo, if_pos hne]
      refine bind_eq_ok.2 ⟨s1, setEntry_of_renames hren hprev, ?_⟩
      exact addReg_of_renames (hnew ▸ hren)
    have hmap' : (s2.setHistory tid es).renameMap tid =
        (s.renameMap tid).set cfg e.archReg e.prevPhysReg := by
      simp [s2, s1, setHistory, setMap]
    have hsame : s.SameElsewhere tid (s2.setHistory tid es) :=
      ⟨fun t ht => by simp [s2, s1, setHistory, setMap, ht],
        fun t ht => by simp [s2, s1, setHistory, setMap, ht]⟩
    refine ⟨s2, hundo, hs.of_thread hsame ?_ ?_ ?_ ?_ ?_, hsame, hmap'.trans hrestore.symm⟩
    · intro c p hp
      exact class_of_mem_freed hs rfl hp
    · intro c p hp
      rcases mem_set (hmap' ▸ hp) with hp | ⟨rfl, rfl⟩
      · exact hs.renameMap_class tid c p hp
      · exact hprev
    · simpa [setHistory] using htypes
    · rw [hmap', ← hrestore]
      simpa [setHistory] using htraces.2
    · intro p
      have hcount := count_set (p := p) hmap hprev hnew
      have hfreed := count_freed (s := s) (p := p) _ e.newPhysReg rfl
      rw [held, held, hhist, countP_cons]
      simp only [setHistory, s2, s1, setMap, hne, ne_eq, not_false_eq_true, true_and,
        decide_eq_true_eq, update_self] at *
      omega

/-- A squash undoes the entries of the thread down to the first that is kept. -/
lemma Inv.squashLoop (hs : s.Inv) (tid : Fin cfg.numThreads) (n : ℕ)
    (hhist : s.historyBuffer tid = es) :
    ∃ s', squashLoop tid n es s = .ok s' ∧ s'.Inv ∧ s.SameElsewhere tid s' ∧
      s'.historyBuffer tid = es.dropWhile (n < ·.instSeqNum) ∧
      s'.renameMap tid = undoAll cfg (s.renameMap tid) (es.takeWhile (n < ·.instSeqNum)) := by
  induction es generalizing s with
  | nil => exact ⟨s, rfl, hs, .refl, hhist, rfl⟩
  | cons e es ih =>
    by_cases he : n < e.instSeqNum
    · obtain ⟨s1, hundo, hs1, hsame1, hmap1⟩ := hs.undo hhist
      obtain ⟨s', hloop, hs', hsame', hhist', hmap'⟩ := ih hs1 (by simp [setHistory])
      refine ⟨s', ?_, hs', hsame1.trans hsame', by simpa [he] using hhist', ?_⟩
      · rw [squashLoop, if_pos he]
        exact bind_eq_ok.2 ⟨s1, hundo, hloop⟩
      · rw [hmap', takeWhile_cons_of_pos (by simpa using he), undoAll, undoAll, foldl_cons, ← hmap1]
        rfl
    · refine ⟨s, by simp [squashLoop, he], hs, .refl, ?_, ?_⟩
      · simpa [he] using hhist
      · simp [he, undoAll]

lemma Inv.freePrev (hs : s.Inv) (hhist : s.historyBuffer tid = es ++ [e]) :
    ∃ s', s.freePrev e = .ok s' ∧ (s'.setHistory tid es).Inv ∧
      s.SameElsewhere tid (s'.setHistory tid es) ∧ s'.renameMap = s.renameMap := by
  have htyped := hs.history_class tid e (by simp [hhist])
  have htypes : ∀ e' ∈ es, e'.Typed cfg :=
    fun e' he' => hs.history_class tid e' (by simp [hhist, he'])
  have htraces := hs.traces tid
  rw [hhist] at htraces
  by_cases hne : e.newPhysReg = e.prevPhysReg
  · have hsame : s.SameElsewhere tid (s.setHistory tid es) :=
      ⟨fun t _ => rfl, fun t ht => by simp [setHistory, ht]⟩
    refine ⟨s, by simp [RenameState.freePrev, hne],
      hs.of_thread hsame hs.freeList_class (hs.renameMap_class tid) ?_ ?_ ?_, hsame, rfl⟩
    · simpa [setHistory] using htypes
    · simpa [setHistory] using htraces.of_append
    · intro p
      simp [setHistory, held, hhist, hne]
  · obtain ⟨hren, -, hprev⟩ := htyped hne
    let s1 : RenameState cfg := { s with
      freeList := update s.freeList e.prevPhysReg.regClass
        (s.freeList e.prevPhysReg.regClass ++ [e.prevPhysReg]) }
    have hfree : s.freePrev e = .ok s1 := by
      rw [RenameState.freePrev, if_pos hne]
      exact addReg_of_renames (hprev ▸ hren)
    have hsame : s.SameElsewhere tid (s1.setHistory tid es) :=
      ⟨fun t _ => rfl, fun t ht => by simp [s1, setHistory, ht]⟩
    refine ⟨s1, hfree, hs.of_thread hsame ?_ (hs.renameMap_class tid) ?_ ?_ ?_, hsame, rfl⟩
    · intro c p hp
      exact class_of_mem_freed hs rfl hp
    · simpa [setHistory] using htypes
    · simpa [setHistory] using htraces.of_append
    · intro p
      have hfreed := count_freed (s := s) (p := p) _ e.prevPhysReg rfl
      rw [held, held, hhist, countP_append, countP_singleton]
      simp only [setHistory, s1, hne, ne_eq, not_false_eq_true, true_and, decide_eq_true_eq,
        update_self] at *
      omega

lemma Inv.commitLoop (hs : s.Inv) (tid : Fin cfg.numThreads) (n : ℕ)
    (hhist : s.historyBuffer tid = es.reverse) :
    ∃ s', commitLoop tid n es s = .ok s' ∧ s'.Inv ∧ s.SameElsewhere tid s' ∧
      s'.historyBuffer tid = (es.dropWhile (·.instSeqNum ≤ n)).reverse ∧
      s'.renameMap = s.renameMap := by
  induction es generalizing s with
  | nil => exact ⟨s, rfl, hs, .refl, hhist, rfl⟩
  | cons e es ih =>
    by_cases he : e.instSeqNum ≤ n
    · obtain ⟨s1, hfree, hs1, hsame1, hmap1⟩ := hs.freePrev (by simpa using hhist)
      obtain ⟨s', hloop, hs', hsame', hhist', hmap'⟩ := ih hs1 (by simp [setHistory])
      refine ⟨s', ?_, hs', hsame1.trans hsame', by simpa [he] using hhist', ?_⟩
      · rw [commitLoop, if_pos he]
        exact bind_eq_ok.2 ⟨s1, hfree, hloop⟩
      · rw [hmap', setHistory, hmap1]
    · refine ⟨s, by simp [commitLoop, he], hs, .refl, ?_, rfl⟩
      simpa [he] using hhist

lemma Inv.renameDestRegs (hs : s.Inv) {inst : RenameInst} (h : s.renameDestRegs tid inst = .ok s') :
    s'.Inv ∧ s.SameElsewhere tid s' ∧
    ∃ es : List RegHistory, (∀ e ∈ es, e.instSeqNum = inst.seqNum) ∧
      s'.historyBuffer tid = es ++ s.historyBuffer tid ∧
      undoAll cfg (s'.renameMap tid) es = s.renameMap tid := by
  unfold RenameState.renameDestRegs at h
  generalize inst.destRegs = regs at h
  apply foldlM_invariant h
  · exact ⟨hs, .refl, [], by simp, rfl, rfl⟩
  · rintro done b r b' _ ⟨hb, hsame, es, hseq, hhist, hundo⟩ hstep
    obtain ⟨hb', hsame', e, he, hhist', hrestore⟩ := hb.renameDestReg hstep
    refine ⟨hb', hsame.trans hsame', e :: es, by simpa [he] using hseq,
      by simp [hhist', hhist], ?_⟩
    rwa [undoAll, foldl_cons, hrestore]

lemma foldlM_renameDestReg_ne_error {rs : List RegId}
    (hfree : ∀ c, cfg.renames c → rs.countP (·.regClass = c) ≤ (s.freeList c).length) :
    rs.foldlM (RenameState.renameDestReg tid n) s ≠
      .error (.assertion "!freeRegs.empty()") := by
  induction rs generalizing s with
  | nil => intro h; cases h
  | cons r rs ih =>
    intro h
    rcases bind_eq_error.1 h with h | ⟨s1, h1, h⟩
    · rcases bind_eq_error.1 h with h | ⟨_, _, h⟩
      · obtain ⟨hren, hempty⟩ := rename_eq_error h
        have := hfree r.regClass hren
        simp [hempty] at this
      · cases h
    · refine ih (fun c hc => ?_) h
      have hcount := hfree c hc
      rw [countP_cons] at hcount
      obtain ⟨⟨⟨new, prev⟩, s2⟩, h2, h3⟩ := bind_eq_ok.1 h1
      cases h3
      obtain ⟨-, ⟨-, hfree', -⟩ | ⟨rest, -, hfirst, -, hfree', -⟩⟩ := rename_cases h2
      · simp only [pushHistory, hfree']
        omega
      · by_cases hrc : r.regClass = c
        · subst hrc
          simp only [hfirst, length_cons, decide_true, if_true] at hcount
          simp only [pushHistory, hfree', update_self]
          omega
        · simp only [pushHistory, hfree', update_of_ne (Ne.symm hrc)]
          omega

lemma canRename_eq_true {inst : RenameInst} (h : s.canRename inst)
    (hc : cfg.renames c) : inst.destRegs.countP (·.regClass = c) ≤ (s.freeList c).length := by
  simp only [canRename, RenameInst.numDestRegs, Bool.and_eq_true] at h
  obtain ⟨⟨⟨⟨⟨h1, h2⟩, h3⟩, h4⟩, h5⟩, h6⟩ := h
  cases c with
  | int => exact of_decide_eq_true h1
  | float => exact of_decide_eq_true h2
  | vec => exact of_decide_eq_true h3
  | vecElem => exact of_decide_eq_true h4
  | vecPred => exact of_decide_eq_true h5
  | cc => exact of_decide_eq_true h6
  | misc => simp [RenameConfig.renames] at hc

/-! ### The initial state -/

lemma sum_count_take_drop {α : Type*} [DecidableEq α] (l : List α) (k x : ℕ) (a : α) :
    ∑ t : Fin k, ((l.drop (t * x)).take x).count a + (l.drop (k * x)).count a = l.count a := by
  induction k with
  | zero => simp
  | succ k ih =>
    rw [Fin.sum_univ_castSucc, add_assoc, ← ih]
    congr 1
    rw [Fin.val_last, add_mul, one_mul, ← drop_drop, ← count_append, take_append_drop]

lemma count_initFreeList (p : PhysRegId) :
    (cfg.initFreeList p.regClass).count p = if cfg.IsPhysReg p then 1 else 0 := by
  unfold RenameConfig.initFreeList RenameConfig.IsPhysReg
  by_cases hren : cfg.renames p.regClass
  · have hinj : Function.Injective (PhysRegId.mk p.regClass) := fun i j h => by simpa using h
    have hcount := count_map_of_injective (List.range (cfg.numPhysRegs p.regClass)) _ hinj
      p.idx
    simp only [hren, if_true, true_and]
    rw [hcount]
    by_cases hidx : p.idx < cfg.numPhysRegs p.regClass
    · rw [if_pos hidx]
      exact count_eq_one_of_mem nodup_range (by simpa using hidx)
    · rw [if_neg hidx]
      exact count_eq_zero_of_not_mem (by simpa using hidx)
  · simp [hren]

lemma class_of_mem_initFreeList (hp : p ∈ cfg.initFreeList c) : p.regClass = c := by
  unfold RenameConfig.initFreeList at hp
  split_ifs at hp
  · obtain ⟨i, -, rfl⟩ := mem_map.1 hp
    rfl
  · simp at hp

lemma inv_init : (init cfg).Inv where
  freeList_class _ _ hp := class_of_mem_initFreeList (mem_of_mem_drop hp)
  renameMap_class _ _ _ hp :=
    class_of_mem_initFreeList (mem_of_mem_drop (mem_of_mem_take hp))
  history_class _ _ he := by simp [init] at he
  traces _ := trivial
  once p := by
    rw [← count_initFreeList, ← sum_count_take_drop _ cfg.numThreads (cfg.numRegs p.regClass),
      occurrences, add_comm]
    simp [held, init]

end RenameState

/-! ### The maps that the instructions in flight have found -/

/-- A history buffer is made of the entries of the instructions in flight, the latest first, and
undoing those of an instruction gives the map that it has found. -/
inductive Logged (cfg : RenameConfig) :
    RenameMap → List RegHistory → List (ℕ × RenameMap) → Prop
  | nil (m : RenameMap) : Logged cfg m [] []
  | cons {m : RenameMap} {es hist : List RegHistory} {log : List (ℕ × RenameMap)} {k : ℕ}
      (hseq : ∀ e ∈ es, e.instSeqNum = k) (h : Logged cfg (undoAll cfg m es) hist log) :
      Logged cfg m (es ++ hist) ((k, undoAll cfg m es) :: log)

namespace Logged

variable {m : RenameMap} {hist : List RegHistory} {log : List (ℕ × RenameMap)} {n : ℕ}

lemma instSeqNum_mem (h : Logged cfg m hist log) {e : RegHistory} (he : e ∈ hist) :
    e.instSeqNum ∈ log.map fst := by
  induction h with
  | nil => simp at he
  | cons hseq _ ih =>
    rcases mem_append.1 he with he | he
    · simp [hseq e he]
    · exact mem_cons_of_mem _ (ih he)

lemma instSeqNum_le {es hist : List RegHistory} {k : ℕ} (hseq : ∀ e ∈ es, e.instSeqNum = k)
    (h : Logged cfg m hist log) (hk : ∀ k' ∈ log.map fst, k' < k) :
    ∀ e ∈ es ++ hist, e.instSeqNum ≤ k := by
  intro e he
  rcases mem_append.1 he with he | he
  · exact (hseq e he).le
  · exact (hk _ (h.instSeqNum_mem he)).le

lemma squash (h : Logged cfg m hist log) (horder : (log.map fst).Pairwise (· > ·)) (n : ℕ) :
    Logged cfg (undoAll cfg m (hist.takeWhile (n < ·.instSeqNum)))
      (hist.dropWhile (n < ·.instSeqNum)) (log.filter (·.1 ≤ n)) ∧
    undoAll cfg m (hist.takeWhile (n < ·.instSeqNum)) =
      ((log.filter (n < ·.1)).getLast?.map snd).getD m := by
  induction h with
  | nil m => exact ⟨.nil m, rfl⟩
  | @cons m es hist log k hseq h ih =>
    obtain ⟨hk, horder⟩ := pairwise_cons.1 horder
    by_cases hn : n < k
    · -- the entries of the latest instruction are undone
      have hes : ∀ e ∈ es, decide (n < e.instSeqNum) := fun e he => by
        simp [hseq e he, hn]
      obtain ⟨ih1, ih2⟩ := ih horder
      rw [takeWhile_append_of_pos hes, dropWhile_append_of_pos hes]
      rw [show undoAll cfg m (es ++ _) = undoAll cfg (undoAll cfg m es) _ from foldl_append]
      refine ⟨by simpa [hn.not_ge] using ih1, ?_⟩
      rw [ih2, filter_cons_of_pos (by simpa using hn), List.getLast?_cons]
      cases (log.filter (n < ·.1)).getLast? <;> rfl
    · -- all instructions in flight are kept
      have hle := instSeqNum_le hseq h hk
      have hes : ∀ e ∈ es ++ hist, ¬ n < e.instSeqNum := fun e he => by
        have := hle e he
        omega
      have hlog : ∀ x ∈ (k, undoAll cfg m es) :: log, x.1 ≤ n := by
        refine forall_mem_cons.2 ⟨by omega, fun x hx => ?_⟩
        have := hk x.1 (mem_map_of_mem hx)
        omega
      have htake : (es ++ hist).takeWhile (n < ·.instSeqNum) = [] :=
        takeWhile_eq_nil_iff.2 fun h0 => by simpa using hes _ (getElem_mem h0)
      have hdrop : (es ++ hist).dropWhile (n < ·.instSeqNum) = es ++ hist :=
        dropWhile_eq_self_iff.2 fun h0 => by simpa using hes _ (getElem_mem h0)
      rw [htake, hdrop, filter_eq_self.2 (by simpa using hlog),
        filter_eq_nil_iff.2 (by simpa using hlog)]
      exact ⟨.cons hseq h, rfl⟩

lemma commit (h : Logged cfg m hist log) (horder : (log.map fst).Pairwise (· > ·)) (n : ℕ) :
    Logged cfg m (hist.reverse.dropWhile (·.instSeqNum ≤ n)).reverse (log.filter (n < ·.1)) := by
  induction h with
  | nil m => exact .nil m
  | @cons m es hist log k hseq h ih =>
    obtain ⟨hk, horder⟩ := pairwise_cons.1 horder
    by_cases hn : n < k
    · have hrest := ih horder
      have hes : ∀ e ∈ es.reverse, ¬ e.instSeqNum ≤ n := fun e he => by
        rw [hseq e (mem_reverse.1 he)]
        omega
      have hdrop : es.reverse.dropWhile (·.instSeqNum ≤ n) = es.reverse :=
        dropWhile_eq_self_iff.2 fun h0 => by simpa using hes _ (getElem_mem h0)
      have hsplit : ((es ++ hist).reverse.dropWhile (·.instSeqNum ≤ n)).reverse =
          es ++ (hist.reverse.dropWhile (·.instSeqNum ≤ n)).reverse := by
        rw [reverse_append, dropWhile_append]
        split_ifs with hempty
        · rw [isEmpty_iff.1 hempty, hdrop]
          simp
        · simp
      rw [hsplit, filter_cons_of_pos (by simpa using hn)]
      exact .cons hseq hrest
    · -- everything has committed
      have hle := instSeqNum_le hseq h hk
      have hnil : (es ++ hist).reverse.dropWhile (·.instSeqNum ≤ n) = [] :=
        dropWhile_eq_nil_iff.2 fun e he => by
          have := hle e (mem_reverse.1 he)
          simp only [decide_eq_true_eq]
          omega
      have hlog : ∀ x ∈ (k, undoAll cfg m es) :: log, ¬ n < x.1 := by
        refine forall_mem_cons.2 ⟨hn, fun x hx => ?_⟩
        have := hk x.1 (mem_map_of_mem hx)
        omega
      rw [hnil, filter_eq_nil_iff.2 (by simpa using hlog)]
      exact .nil m

end Logged

/-! ### Runs -/

namespace RenameState

variable {s s' : RenameState cfg} {tid : Fin cfg.numThreads} {ops : List (RenameOp cfg)}
  {op : RenameOp cfg}

/-- The runs of the stage. -/
abbrev Run (cfg : RenameConfig) : List (RenameOp cfg) → RenameState cfg → Prop :=
  Exec (Guarded Permitted step) (init cfg)

/-- The instructions of a thread in flight, after one more operation: those that are renamed are
added, and those that are squashed or have committed are dropped. -/
def stepInFlight (tid : Fin cfg.numThreads) (l : List ℕ) : RenameOp cfg → List ℕ
  | .renameDestRegs inst t => if t = tid then inst.seqNum :: l else l
  | .doSquash n t => if t = tid then l.filter (· ≤ n) else l
  | .removeFromHistory n t => if t = tid then l.filter (n < ·) else l

/-- The sequence numbers of the instructions of a thread that are in flight, the latest first. -/
def inFlight (tid : Fin cfg.numThreads) (ops : List (RenameOp cfg)) : List ℕ :=
  ops.foldl (stepInFlight tid) []

/-- The sequence numbers of the instructions of a thread that an operation renames. -/
def seqNum? (tid : Fin cfg.numThreads) : RenameOp cfg → Option ℕ
  | .renameDestRegs inst t => if t = tid then some inst.seqNum else none
  | _ => none

/-- Sequence numbers are in program order, and the instructions of a thread are renamed in program
order. -/
def InProgramOrder (ops : List (RenameOp cfg)) : Prop :=
  ∀ tid, (ops.filterMap (seqNum? tid)).Pairwise (· < ·)

/-- The rename map that a thread had just before it has renamed the instruction `k`. -/
def MapBefore (tid : Fin cfg.numThreads) (ops : List (RenameOp cfg)) (k : ℕ) (m : RenameMap) :
    Prop :=
  ∃ ops₁ inst ops₂ s₁, ops = ops₁ ++ .renameDestRegs inst tid :: ops₂ ∧ inst.seqNum = k ∧
    Run cfg ops₁ s₁ ∧ s₁.renameMap tid = m

lemma MapBefore.snoc {k : ℕ} {m : RenameMap} (h : MapBefore tid ops k m) (op : RenameOp cfg) :
    MapBefore tid (ops ++ [op]) k m := by
  obtain ⟨ops1, inst, ops2, s1, rfl, hk, hrun, hm⟩ := h
  exact ⟨ops1, inst, ops2 ++ [op], s1, by simp, hk, hrun, hm⟩

lemma inFlight_snoc : inFlight tid (ops ++ [op]) = stepInFlight tid (inFlight tid ops) op := by
  simp [inFlight]

lemma inFlight_sublist : (inFlight tid ops).Sublist (ops.filterMap (seqNum? tid)).reverse := by
  induction ops using List.reverseRecOn with
  | nil => exact List.Sublist.slnil
  | append_singleton ops op ih =>
    rw [inFlight_snoc, filterMap_append, reverse_append]
    cases op with
    | renameDestRegs inst t =>
      by_cases ht : t = tid <;> simpa [stepInFlight, seqNum?, ht] using ih
    | doSquash _ _ | removeFromHistory _ _ =>
      simp only [stepInFlight, seqNum?, filterMap_cons, filterMap_nil]
      split_ifs
      · exact filter_sublist.trans ih
      · exact ih

lemma InProgramOrder.inFlight (h : InProgramOrder ops) (tid : Fin cfg.numThreads) :
    (inFlight tid ops).Pairwise (· > ·) :=
  (pairwise_reverse.2 (h tid)).sublist inFlight_sublist

lemma InProgramOrder.of_snoc (h : InProgramOrder (ops ++ [op])) : InProgramOrder ops := by
  intro tid
  have := h tid
  rw [filterMap_append] at this
  exact (pairwise_append.1 this).1

/-- A log of the instructions in flight of every thread, with the maps that they have found. -/
structure Tracks (ops : List (RenameOp cfg)) (s : RenameState cfg)
    (log : Fin cfg.numThreads → List (ℕ × RenameMap)) : Prop where
  logged : ∀ t, Logged cfg (s.renameMap t) (s.historyBuffer t) (log t)
  inFlight : ∀ t, (log t).map Prod.fst = inFlight t ops
  before : ∀ t, ∀ x ∈ log t, MapBefore t ops x.1 x.2

lemma Tracks.of_thread {log : Fin cfg.numThreads → List (ℕ × RenameMap)}
    {l : List (ℕ × RenameMap)} (h : Tracks ops s log) (hsame : s.SameElsewhere tid s')
    (hothers : ∀ t ≠ tid, stepInFlight t (RenameState.inFlight t ops) op =
      RenameState.inFlight t ops) (hlogged : Logged cfg (s'.renameMap tid) (s'.historyBuffer tid) l)
    (hfst : l.map fst = stepInFlight tid (RenameState.inFlight tid ops) op)
    (hbefore : ∀ x ∈ l, MapBefore tid (ops ++ [op]) x.1 x.2) :
    Tracks (ops ++ [op]) s' (update log tid l) where
  logged t := by
    by_cases ht : t = tid
    · subst ht
      simpa using hlogged
    · rw [update_of_ne ht, hsame.renameMap t ht, hsame.historyBuffer t ht]
      exact h.logged t
  inFlight t := by
    rw [inFlight_snoc]
    by_cases ht : t = tid
    · subst ht
      simpa using hfst
    · rw [update_of_ne ht, hothers t ht]
      exact h.inFlight t
  before t := by
    by_cases ht : t = tid
    · subst ht
      simpa using hbefore
    · rw [update_of_ne ht]
      exact fun x hx => (h.before t x hx).snoc op

lemma Inv.step (hs : s.Inv) (hrun : Run cfg ops s) (hstep : s.step op = .ok s') :
    s'.Inv ∧ ∀ log, InProgramOrder (ops ++ [op]) → Tracks ops s log →
      ∃ log', Tracks (ops ++ [op]) s' log' := by
  cases op with
  | renameDestRegs inst tid =>
    obtain ⟨hs', hsame, es, hseq, hhist, hundo⟩ := hs.renameDestRegs hstep
    refine ⟨hs', fun log _ hlog => ⟨_, hlog.of_thread hsame (fun t ht => by
      simp [stepInFlight, Ne.symm ht]) (l := (inst.seqNum, s.renameMap tid) :: log tid) ?_ ?_ ?_⟩⟩
    · rw [hhist, ← hundo]
      exact .cons hseq (hundo.symm ▸ hlog.logged tid)
    · simp [stepInFlight, hlog.inFlight]
    · refine forall_mem_cons.2 ⟨⟨ops, inst, [], s, rfl, rfl, hrun, rfl⟩, fun x hx => ?_⟩
      exact (hlog.before tid x hx).snoc _
  | doSquash n tid =>
    obtain ⟨s1, hloop, hs', hsame, hhist, hmap⟩ := hs.squashLoop tid n rfl
    cases hloop.symm.trans hstep
    refine ⟨hs', fun log horder hlog => ⟨_, hlog.of_thread hsame (fun t ht => by
      simp [stepInFlight, Ne.symm ht]) (l := (log tid).filter (·.1 ≤ n)) ?_ ?_ ?_⟩⟩
    · rw [hhist, hmap]
      refine ((hlog.logged tid).squash ?_ n).1
      exact hlog.inFlight tid ▸ horder.of_snoc.inFlight tid
    · simp only [stepInFlight, if_true, ← hlog.inFlight, filter_map]
      rfl
    · exact fun x hx => (hlog.before tid x (mem_of_mem_filter hx)).snoc _
  | removeFromHistory n tid =>
    obtain ⟨s1, hloop, hs', hsame, hhist, hmap⟩ := hs.commitLoop tid n (reverse_reverse _).symm
    cases hloop.symm.trans hstep
    refine ⟨hs', fun log horder hlog => ⟨_, hlog.of_thread hsame (fun t ht => by
      simp [stepInFlight, Ne.symm ht]) (l := (log tid).filter (n < ·.1)) ?_ ?_ ?_⟩⟩
    · rw [hhist, hmap]
      refine (hlog.logged tid).commit ?_ n
      exact hlog.inFlight tid ▸ horder.of_snoc.inFlight tid
    · simp only [stepInFlight, if_true, ← hlog.inFlight, filter_map]
      rfl
    · exact fun x hx => (hlog.before tid x (mem_of_mem_filter hx)).snoc _

lemma tracks_init : Tracks [] (init cfg) fun _ => [] where
  logged _ := .nil _
  inFlight _ := rfl
  before _ _ hx := by simp at hx

/-- The run lemma: the invariant holds at all times, and there is a log in a run in program
order. -/
lemma Run.inv (h : Run cfg ops s) : s.Inv ∧ (InProgramOrder ops → ∃ log, Tracks ops s log) := by
  refine (h.invariant (I := fun ops s => Run cfg ops s ∧ s.Inv ∧
    (InProgramOrder ops → ∃ log, Tracks ops s log)) ?_ ?_).2
  · exact ⟨.nil, inv_init, fun _ => ⟨_, tracks_init⟩⟩
  · rintro ops s op s' ⟨hrun, hs, hlog⟩ hstep
    obtain ⟨hs', hlog'⟩ := hs.step hrun hstep.2
    refine ⟨hrun.snoc hstep, hs', fun horder => ?_⟩
    obtain ⟨log, hlog⟩ := hlog horder.of_snoc
    exact hlog' log horder hlog

/-- In every run, every physical register that can be renamed to is in exactly one place, no
permitted renaming finds a free list empty, and a squash gives the thread the rename map that it had
before it has renamed the oldest of the squashed instructions. -/
theorem run_conserves (h : Run cfg ops s) :
    (∀ p, cfg.IsPhysReg p → s.occurrences p = 1) ∧
    (∀ inst tid, s.canRename inst →
      s.renameDestRegs tid inst ≠ .error (.assertion "!freeRegs.empty()")) ∧
    (InProgramOrder ops → ∀ n tid, ∃ s', s.doSquash tid n = .ok s' ∧
      match ((inFlight tid ops).filter (n < ·)).getLast? with
      | some k => MapBefore tid ops k (s'.renameMap tid)
      | none => s'.renameMap tid = s.renameMap tid) := by
  obtain ⟨hs, hlog⟩ := h.inv
  refine ⟨fun p hp => by simpa [hp] using hs.once p, fun inst tid hcan => ?_,
    fun horder n tid => ?_⟩
  · exact foldlM_renameDestReg_ne_error fun c hc => canRename_eq_true hcan hc
  · obtain ⟨log, hlog⟩ := hlog horder
    obtain ⟨s', hloop, -, -, -, hmap⟩ := hs.squashLoop tid n rfl
    refine ⟨s', hloop, ?_⟩
    have hsquash := ((hlog.logged tid).squash
      (hlog.inFlight tid ▸ horder.inFlight tid) n).2
    rw [hmap, hsquash]
    have hlast : ((inFlight tid ops).filter (n < ·)).getLast? =
        ((log tid).filter (n < ·.1)).getLast?.map fst := by
      rw [← hlog.inFlight, filter_map, List.getLast?_map]
      rfl
    rw [hlast]
    rcases hx : ((log tid).filter (n < ·.1)).getLast? with _ | x
    · rw [hx]
      rfl
    · rw [hx]
      exact hlog.before tid x (mem_of_mem_filter (mem_of_getLast? hx))

/-- Two threads with two integer registers each, the first of them the zero register, and eight
physical registers. -/
def twoThreads : RenameConfig where
  numIntRegs := 2
  numFloatRegs := 0
  numVecRegs := 0
  numVecElemPerVecReg := 1
  numVecPredRegs := 0
  numCCRegs := 0
  zeroReg := 0
  vecMode := .full
  numThreads := 2
  numPhysIntRegs := 8
  numPhysFloatRegs := 0
  numPhysVecRegs := 0
  numPhysVecPredRegs := 0
  numPhysCCRegs := 0
  int_enough := by decide
  float_enough := by decide
  vec_enough := by decide
  vecPred_enough := by decide
  cc_enough := by decide

/-- Three instructions of the first thread, of which one has committed, and one of the second. -/
def twoThreadsRun : List (RenameOp twoThreads) :=
  [.renameDestRegs ⟨1, [⟨.int, 1, 0, 0⟩, ⟨.misc, 4, 0, 0⟩]⟩ ⟨0, by decide⟩,
    .renameDestRegs ⟨2, [⟨.int, 1, 0, 0⟩]⟩ ⟨1, by decide⟩,
    .renameDestRegs ⟨3, [⟨.int, 0, 0, 0⟩, ⟨.int, 1, 0, 1⟩]⟩ ⟨0, by decide⟩,
    .removeFromHistory 1 ⟨0, by decide⟩,
    .renameDestRegs ⟨4, [⟨.int, 1, 0, 0⟩]⟩ ⟨0, by decide⟩]

theorem run_conserves_twoThreads :
    ∃ s, Run twoThreads twoThreadsRun s ∧ s.freeList .int = [⟨.int, 7⟩, ⟨.int, 1⟩] ∧
      (∀ p, twoThreads.IsPhysReg p → s.occurrences p = 1) ∧
      ∃ s', s.doSquash ⟨0, by decide⟩ 2 = .ok s' ∧
        MapBefore ⟨0, by decide⟩ twoThreadsRun 3 (s'.renameMap ⟨0, by decide⟩) := by
  refine exists_exec (·.freeList .int) [⟨.int, 7⟩, ⟨.int, 1⟩] (by decide +kernel)
    fun s hrun hfree => ?_
  obtain ⟨honce, -, hsquash⟩ := run_conserves hrun
  have horder : InProgramOrder twoThreadsRun := by
    unfold InProgramOrder
    decide +kernel
  exact ⟨hfree, honce, hsquash horder 2 ⟨0, by decide⟩⟩

end RenameState

end ChipletGem5.O3
