import ChipletGem5.Lib.LifoQueue
import ChipletGem5.Sim.EventLinks

/-!
# Event queues are priority queues

What an event queue is for: `Spec` is a family of priority queues, one for each main event
queue, that serve the latest of equal events first, together with the lists of the events that
other threads have handed over.  `Queued` relates the linked lists in memory to it; the lemmas
say how inserting, removing, handing over and popping act on both sides.
-/

namespace ChipletGem5.EventQueue

open List (map_append mem_cons mem_map nodup_cons map_cons cons)

open LifoQueue Function Sim Prod

variable {n : ℕ}

/-! ### The abstract queues -/

/-- The queues as their users see them. -/
structure Spec (n : ℕ) where
  /-- The priorities of the events. -/
  priority : EventId → ℤ
  /-- The mode of execution. -/
  parallel : Bool
  /-- The events in each queue, the latest insertion first. -/
  pending : Fin n → List (EventId × Key)
  /-- The events handed over to each queue, the earliest first. -/
  waiting : Fin n → List (EventId × Key)

namespace Spec

variable (a : Spec n)

/-- Insert an event into a queue. -/
def insert (q : Fin n) (e : EventId) (k : Key) : Spec n :=
  { a with pending := update a.pending q (push (a.pending q) e k) }

/-- Take an event out of a queue. -/
def remove (a : Spec n) (q : Fin n) (e : EventId) : Spec n :=
  { a with pending := update a.pending q (LifoQueue.remove (a.pending q) e) }

/-- Hand an event over to a queue. -/
def handOver (q : Fin n) (e : EventId) (k : Key) : Spec n :=
  { a with waiting := update a.waiting q (a.waiting q ++ [(e, k)]) }

/-- A call of the thread whose current queue is `cur`. -/
def call (cur : Fin n) : Sim.Call n → Spec n
  | .schedule this e when global =>
      if a.parallel && (this != cur || global) then a.handOver this e (toLex (when, a.priority e))
      else a.insert this e (toLex (when, a.priority e))
  | .deschedule this e => a.remove this e
  | .reschedule this e when _ => (a.remove this e).insert this e (toLex (when, a.priority e))
  | .squash _ => a

/-- Serve the next event of a queue. -/
def serve (q : Fin n) : Spec n :=
  match next? (a.pending q) with
  | none => a
  | some x => a.remove q x.1

/-- Insert the events handed over to a queue. -/
def merge (q : Fin n) : Spec n :=
  { a with
    pending := update a.pending q ((a.waiting q).reverse ++ a.pending q)
    waiting := update a.waiting q [] }

/-- All events of a queue with their keys. -/
def all (q : Fin n) : List (EventId × Key) := a.pending q ++ a.waiting q

lemma insert_pending_self (a : Spec n) (q : Fin n) (e : EventId) (k : Key) :
    (a.insert q e k).pending q = (e, k) :: a.pending q := by
  simp [insert, push]

variable {q q' this : Fin n} {k : Key} {x : EventId × Key}

lemma insert_pending_of_ne (a : Spec n) (h : q' ≠ q) (e : EventId) (k : Key) :
    (a.insert q e k).pending q' = a.pending q' := by
  simp [insert, h]

lemma remove_pending_self (a : Spec n) (q : Fin n) (e : EventId) :
    (a.remove q e).pending q = LifoQueue.remove (a.pending q) e := by
  simp [remove]

lemma remove_pending_of_ne (a : Spec n) (h : q' ≠ q) (e : EventId) :
    (a.remove q e).pending q' = a.pending q' := by
  simp [remove, h]

lemma mem_all_insert {a : Spec n} {e : EventId} :
    x ∈ (a.insert q e k).all q' ↔ (q' = q ∧ x = (e, k)) ∨ x ∈ a.all q' := by
  rcases eq_or_ne q' q with rfl | hne
  · simp [all, insert, push]
  · simp [all, insert, hne]

lemma mem_all_handOver {a : Spec n} {e : EventId} :
    x ∈ (a.handOver q e k).all q' ↔ (q' = q ∧ x = (e, k)) ∨ x ∈ a.all q' := by
  rcases eq_or_ne q' q with rfl | hne
  · simp [all, handOver, or_comm, or_left_comm]
  · simp [all, handOver, hne]

end Spec

/-! ### The relation to the code -/

/-- The links, keys and owners of the events in memory are those of the abstract queues. -/
structure Queued (s : Sim n) (a : Spec n) : Prop where
  mode : s.inParallelMode = a.parallel
  priority : ∀ e, (s.events e).priority = a.priority e
  links : ∀ q, Represents s.events (s.queues q).head ((sorted (a.pending q)).map Prod.fst)
  async : ∀ q, (s.queues q).asyncQueue = (a.waiting q).map Prod.fst
  entry : ∀ q, ∀ x ∈ a.all q, (s.events x.1).key = x.2 ∧ (s.events x.1).queue = some q.val
  nodup : ∀ q, ((a.all q).map Prod.fst).Nodup

/-- The event is in no queue. -/
def Spec.Absent (a : Spec n) (e : EventId) : Prop := ∀ q k, (e, k) ∉ a.all q

variable {s s' : Sim n} {a : Spec n} {e : EventId}

lemma mem_sorted_fst {l : List (EventId × Key)} :
    e ∈ (sorted l).map Prod.fst ↔ ∃ k, (e, k) ∈ l := by
  rw [((perm_sorted l).map fst).mem_iff]
  simp

lemma Spec.mem_all_of_pending (h : x ∈ a.pending q) : x ∈ a.all q := List.mem_append_left _ h

lemma Spec.Absent.notMem_sorted (h : a.Absent e) (q : Fin n) :
    e ∉ (sorted (a.pending q)).map Prod.fst := by
  rw [mem_sorted_fst]
  rintro ⟨k, hk⟩
  exact h q k (mem_all_of_pending hk)

lemma Queued.nodup_sorted (h : Queued s a) (q : Fin n) :
    ((sorted (a.pending q)).map Prod.fst).Nodup := by
  have hnd := h.nodup q
  rw [Spec.all, map_append] at hnd
  exact (((perm_sorted _).map _).nodup_iff).2 (List.nodup_append.1 hnd).1

lemma Queued.queue_unique (h : Queued s a) {k' : Key} (hq : (e, k) ∈ a.all q)
    (hq' : (e, k') ∈ a.all q') : q = q' := by
  have h1 := (h.entry q _ hq).2
  have h2 := (h.entry q' _ hq').2
  exact Fin.ext (Option.some.inj (h1.symm.trans h2))

/-- The fields of an event on which the queues depend. -/
structure SameLinks (ev ev' : Event) : Prop where
  nextBin : ev'.nextBin = ev.nextBin
  nextInBin : ev'.nextInBin = ev.nextInBin
  key : ev'.key = ev.key
  queue : ev'.queue = ev.queue

lemma SameLinks.refl (ev : Event) : SameLinks ev ev := ⟨rfl, rfl, rfl, rfl⟩

lemma SameLinks.priority {ev ev' : Event} (h : SameLinks ev ev') : ev'.priority = ev.priority :=
  congrArg (fun k : Key => (ofLex k).2) h.key

lemma Queued.congr (h : Queued s a) (hmode : s'.inParallelMode = s.inParallelMode)
    (hhead : ∀ q, (s'.queues q).head = (s.queues q).head)
    (hasync : ∀ q, (s'.queues q).asyncQueue = (s.queues q).asyncQueue)
    (hprio : ∀ x, (s'.events x).priority = (s.events x).priority)
    (hkeep : ∀ q, ∀ x ∈ a.all q, SameLinks (s.events x.1) (s'.events x.1)) : Queued s' a where
  mode := hmode.trans h.mode
  priority x := (hprio x).trans (h.priority x)
  links q := by
    rw [hhead]
    refine (h.links q).congr fun x hx => ?_
    obtain ⟨k, hk⟩ := mem_sorted_fst.1 hx
    have hsame := hkeep q _ (Spec.mem_all_of_pending hk)
    exact ⟨hsame.nextBin, hsame.nextInBin, hsame.key⟩
  async q := (hasync q).trans (h.async q)
  entry q x hx := by
    have hsame := hkeep q x hx
    rw [hsame.key, hsame.queue]
    exact h.entry q x hx
  nodup := h.nodup

lemma Queued.setEvent (h : Queued s a) {ev : Event}
    (hev : (a.Absent e ∧ ev.priority = (s.events e).priority) ∨ SameLinks (s.events e) ev) :
    Queued (s.setEvent e ev) a := by
  have hprio : ev.priority = (s.events e).priority := by
    rcases hev with ⟨-, hprio⟩ | hsame
    · exact hprio
    · exact hsame.priority
  refine h.congr rfl (fun _ => rfl) (fun _ => rfl) (fun x => ?_) fun q x hx => ?_
  · rcases eq_or_ne x e with rfl | hne
    · simpa [setEvent] using hprio
    · simp [Sim.setEvent, hne]
  · obtain ⟨x, k⟩ := x
    rcases eq_or_ne x e with rfl | hne
    · rcases hev with ⟨habs, -⟩ | hsame
      · exact absurd hx (habs q k)
      · simpa [setEvent] using hsame
    · simpa [Sim.setEvent, hne] using SameLinks.refl _

lemma Queued.setCurTick (h : Queued s a) (q : Fin n) (t : Tick) :
    Queued (s.setQueue q { s.queues q with curTick := t }) a := by
  refine h.congr rfl (fun q' => ?_) (fun q' => ?_) (fun _ => rfl) fun _ _ _ => SameLinks.refl _
  all_goals
    rcases eq_or_ne q' q with rfl | hne
    · simp [setQueue]
    · simp [setQueue, hne]

/-- New links of one queue: the other queues do not notice them as long as none of their events
is touched. -/
lemma Queued.relink (h : Queued s a) {h' : Heap} {head : Option EventId}
    {touched : List EventId} {l : List (EventId × Key)}
    (hrep : Represents h' head ((sorted l).map Prod.fst)) (hrel : Relinked touched s.events h')
    (htouched : ∀ q', q' ≠ q → ∀ x ∈ a.pending q', x.1 ∉ touched)
    (hentry : ∀ x ∈ l, (s.events x.1).key = x.2 ∧ (s.events x.1).queue = some q.val)
    (hnodup : ((l ++ a.waiting q).map Prod.fst).Nodup) :
    Queued (s.relink q h' head) { a with pending := update a.pending q l } where
  mode := h.mode
  priority x := (hrel.keeps Event.priority (fun _ => rfl) x).trans (h.priority x)
  links q' := by
    rcases eq_or_ne q' q with rfl | hne
    · simpa [Sim.relink, Sim.setQueue] using hrep
    · have hlinks : Represents h' (s.queues q').head ((sorted (a.pending q')).map fst) := by
        refine (h.links q').congr fun x hx => ?_
        obtain ⟨k, hk⟩ := mem_sorted_fst.1 hx
        rw [hrel.frame x (htouched q' hne _ hk)]
        exact ⟨rfl, rfl, rfl⟩
      simpa [Sim.relink, Sim.setQueue, hne] using hlinks
  async q' := by
    rcases eq_or_ne q' q with rfl | hne
    · simpa [Sim.relink, Sim.setQueue] using h.async q'
    · simpa [Sim.relink, Sim.setQueue, hne] using h.async q'
  entry q' x hx := by
    have hold : (s.events x.1).key = x.2 ∧ (s.events x.1).queue = some q'.val := by
      rcases eq_or_ne q' q with rfl | hne
      · simp only [Spec.all, update_self, List.mem_append] at hx
        rcases hx with hx | hx
        · exact hentry x hx
        · exact h.entry q' x (List.mem_append_right _ hx)
      · simp only [Spec.all, update_of_ne hne] at hx
        exact h.entry q' x hx
    exact ⟨(hrel.key x.1).trans hold.1, (hrel.keeps Event.queue (fun _ => rfl) x.1).trans hold.2⟩
  nodup q' := by
    rcases eq_or_ne q' q with rfl | hne
    · simpa only [Spec.all, update_self] using hnodup
    · simpa only [Spec.all, update_of_ne hne] using h.nodup q'

lemma Queued.notMem_of_ne (h : Queued s a) (hne : q' ≠ q)
    (hx : x ∈ a.pending q') : x.1 ∉ (sorted (a.pending q)).map Prod.fst := by
  rw [mem_sorted_fst]
  rintro ⟨k, hk⟩
  exact hne (h.queue_unique (Spec.mem_all_of_pending hx) (Spec.mem_all_of_pending hk))

lemma Sim.insert_returns {h' : Heap} {head' : Option EventId}
    (h : Returns (fun fuel => EventQueue.insert fuel s.events (s.queues this).head e)
      (.ok (h', head'))) :
    Returns (fun fuel => s.insert fuel this e) (.ok (s.relink this h' head')) :=
  h.map fun p => s.relink this p.1 p.2

section

variable (h : Queued s a)
include h

lemma Queued.insert (habs : a.Absent e) (hq : (s.events e).queue = some this.val) :
    ∃ h' head', Returns (fun fuel => EventQueue.insert fuel s.events (s.queues this).head e)
        (.ok (h', head')) ∧
      Queued (s.relink this h' head') (a.insert this e (s.events e).key) ∧
      Relinked (e :: (sorted (a.pending this)).map Prod.fst) s.events h' := by
  obtain ⟨h', head', hins, hrep, hrel⟩ := insert_spec (h.links this) (habs.notMem_sorted this)
  refine ⟨h', head', .of_lt hins, ?_, hrel⟩
  refine h.relink ?_ hrel ?_ ?_ ?_
  · have hmap : ((sorted (a.pending this)).map fst).orderedInsert
        (fun x y => (s.events x).key ≤ (s.events y).key) e
          = (sorted (push (a.pending this) e (s.events e).key)).map fst := by
      have hkey : ∀ x ∈ sorted (a.pending this), (s.events x.1).key = x.2 := fun x hx =>
        (h.entry this x (Spec.mem_all_of_pending ((perm_sorted _).mem_iff.1 hx))).1
      refine (List.map_orderedInsert (fun x y => x.2 ≤ y.2)
        (fun x y => (s.events x).key ≤ (s.events y).key) fst _ (e, (s.events e).key)
        (fun x hx => ?_) fun x hx => ?_).symm
      · rw [hkey x hx]
      · rw [hkey x hx]
    rwa [← hmap]
  · intro q' hne x hx hmem
    rcases mem_cons.1 hmem with heq | hmem
    · exact habs q' x.2 (heq ▸ Spec.mem_all_of_pending hx)
    · exact h.notMem_of_ne hne hx hmem
  · intro x hx
    rcases mem_cons.1 hx with rfl | hx
    · exact ⟨rfl, hq⟩
    · exact h.entry this x (Spec.mem_all_of_pending hx)
  · have hnot : e ∉ (a.all this).map fst := by
      intro hm
      obtain ⟨x, hx, rfl⟩ := mem_map.1 hm
      exact habs this x.2 hx
    exact nodup_cons.2 ⟨hnot, h.nodup this⟩

lemma Queued.remove (hmem : (e, k) ∈ a.pending this) :
    ∃ h' head', Returns (fun fuel => s.remove fuel this e) (.ok (s.relink this h' head')) ∧
      Queued (s.relink this h' head') (a.remove this e) ∧
      Relinked ((sorted (a.pending this)).map Prod.fst) s.events h' := by
  have hq := (h.entry this _ (Spec.mem_all_of_pending hmem)).2
  obtain ⟨h', head', hrem, hrep, hrel⟩ :=
    remove_spec (h.links this) (h.nodup_sorted this) (mem_sorted_fst.2 ⟨k, hmem⟩) hq
  refine ⟨h', head', (Returns.of_lt hrem).map fun p => s.relink this p.1 p.2, ?_, hrel⟩
  refine h.relink ?_ hrel (fun q' hne x hx => h.notMem_of_ne hne hx) ?_ ?_
  · rw [sorted_remove]
    rwa [List.filter_map] at hrep
  · exact fun x hx => h.entry this x (Spec.mem_all_of_pending (mem_remove.1 hx).1)
  · refine (h.nodup this).sublist (List.Sublist.map _ ?_)
    exact List.filter_sublist.append (List.Sublist.refl _)

lemma Queued.remove_fault (hmem : ∀ k, (e, k) ∉ a.pending this)
    (fuel : ℕ) : ∃ err, s.remove fuel this e = .error err := by
  rcases herr : EventQueue.remove fuel this s.events (s.queues this).head e with err | q
  · exact ⟨err, by rw [Sim.remove, herr]; rfl⟩
  · obtain ⟨k, hk⟩ := mem_sorted_fst.1 (mem_of_remove (h.links this) herr)
    exact absurd hk (hmem k)

lemma Queued.asyncInsert (habs : a.Absent e) (hq : (s.events e).queue = some this.val) :
    Queued (s.asyncInsert this e) (a.handOver this e (s.events e).key) where
  mode := h.mode
  priority := h.priority
  links q := by
    rcases eq_or_ne q this with rfl | hne
    · simpa [Sim.asyncInsert, Sim.setQueue, Spec.handOver] using h.links q
    · simpa [Sim.asyncInsert, Sim.setQueue, Spec.handOver, hne] using h.links q
  async q := by
    rcases eq_or_ne q this with rfl | hne
    · simp [Sim.asyncInsert, Sim.setQueue, Spec.handOver, h.async q]
    · simpa [Sim.asyncInsert, Sim.setQueue, Spec.handOver, hne] using h.async q
  entry q x hx := by
    rcases Spec.mem_all_handOver.1 hx with ⟨rfl, rfl⟩ | hx
    · exact ⟨rfl, hq⟩
    · exact h.entry q x hx
  nodup q := by
    rcases eq_or_ne q this with rfl | hne
    · have hnot : e ∉ (a.all q).map fst := by
        intro hm
        obtain ⟨x, hx, rfl⟩ := mem_map.1 hm
        exact habs q x.2 hx
      have hnd := h.nodup q
      simp only [Spec.all, Spec.handOver, update_self, ← List.append_assoc,
        map_append, List.map_singleton]
      rw [← map_append, List.nodup_append]
      refine ⟨hnd, List.nodup_singleton e, fun x hx y hy heq => hnot ?_⟩
      rwa [← List.mem_singleton.1 hy, ← heq]
    · simpa [Spec.all, Spec.handOver, hne] using h.nodup q

/-- Moving the first event that was handed over to a queue into it: one iteration of
`handleAsyncInsertions`. -/
lemma Queued.insertWaiting {rest : List (EventId × Key)} (hw : a.waiting q = x :: rest) :
    ∃ h' head', Returns (fun fuel => s.insert fuel q x.1) (.ok (s.relink q h' head')) ∧
      Queued ((s.relink q h' head').setQueue q
        { (s.relink q h' head').queues q with asyncQueue := rest.map fst })
        { a with
          pending := update a.pending q (x :: a.pending q)
          waiting := update a.waiting q rest } ∧
      Relinked (x.1 :: (sorted (a.pending q)).map fst) s.events h' := by
  have hx : x ∈ a.all q := List.mem_append_right _ (by simp [hw])
  have hnd := h.nodup q
  rw [Spec.all, hw, map_append, map_cons, List.nodup_middle] at hnd
  -- the state in which the event has left the list but is in no bin yet
  let s₁ := s.setQueue q { s.queues q with asyncQueue := rest.map fst }
  have h0 : Queued s₁
      { a with waiting := update a.waiting q rest } := by
    refine ⟨h.mode, h.priority, fun q' => ?_, fun q' => ?_, fun q' y hy => ?_, fun q' => ?_⟩
    all_goals rcases eq_or_ne q' q with rfl | hne
    · simpa [s₁, Sim.setQueue] using h.links q'
    · simpa [s₁, Sim.setQueue, hne] using h.links q'
    · simp [s₁, Sim.setQueue]
    · simpa [s₁, Sim.setQueue, hne] using h.async q'
    · refine h.entry q' y ?_
      simp only [Spec.all, update_self, List.mem_append, hw, mem_cons] at hy ⊢
      rcases hy with hy | hy
      · exact Or.inl hy
      · exact Or.inr (Or.inr hy)
    · refine h.entry q' y ?_
      simpa [Spec.all, hne] using hy
    · simpa [Spec.all] using (nodup_cons.1 hnd).2
    · simpa [Spec.all, hne] using h.nodup q'
  have habs : Spec.Absent { a with waiting := update a.waiting q rest } x.1 := by
    intro q' k hk
    rcases eq_or_ne q' q with rfl | hne
    · refine (nodup_cons.1 hnd).1 ?_
      rw [← map_append]
      refine mem_map.2 ⟨(x.1, k), ?_, rfl⟩
      simpa [Spec.all] using hk
    · have hk' : (x.1, k) ∈ a.all q' := by simpa [Spec.all, hne] using hk
      exact hne (h.queue_unique hk' hx)
  obtain ⟨h', head', hret, hq, hrel⟩ := h0.insert habs (h.entry q x hx).2
  have hhead : (s₁.queues q).head = (s.queues q).head := by simp [s₁, Sim.setQueue]
  rw [hhead] at hret
  refine ⟨h', head', Sim.insert_returns hret, ?_, hrel⟩
  have hkey : (s₁.events x.1).key = x.2 := (h.entry q x hx).1
  rw [hkey] at hq
  have hswap : s₁.relink q h' head'
      = (s.relink q h' head').setQueue q
        { (s.relink q h' head').queues q with asyncQueue := rest.map fst } := by
    simp [s₁, Sim.relink, setQueue]
  rwa [← hswap]

lemma Queued.popLinks (hnext : next? (a.pending q) = some x) : (s.queues q).head = some x.1 ∧
      ∃ h' head', s.unlinkHead q x.1 = s.relink q h' head' ∧
        Queued (s.relink q h' head') (a.remove q x.1) ∧
        Relinked ((sorted (a.pending q)).map Prod.fst) s.events h' := by
  have hrep := h.links q
  have hnd := h.nodup_sorted q
  rw [next?_eq_head?_sorted, List.head?_eq_some_iff] at hnext
  obtain ⟨rest, hsorted⟩ := hnext
  have hhead : (s.queues q).head = some x.1 := by
    rcases hq : (s.queues q).head with _ | hd
    · rw [hq] at hrep
      simpa [hsorted] using hrep.eq_nil
    · rw [hq] at hrep
      obtain ⟨l', hl', -⟩ := hrep.pop hnd
      rw [hsorted] at hl'
      rw [(cons.inj hl').1]
  have hfil : (sorted (LifoQueue.remove (a.pending q) x.1)).map fst = rest.map fst := by
    rw [hsorted, map_cons, nodup_cons] at hnd
    rw [sorted_remove, hsorted, List.filter_cons_of_neg (by simp), List.filter_eq_self.2]
    intro y hy
    exact decide_eq_true fun heq => hnd.1 (heq ▸ List.mem_map_of_mem hy)
  -- what is left to show once the new links are known
  have hdone : ∀ h' head', Represents h' head' (rest.map fst) →
      Relinked ((sorted (a.pending q)).map fst) s.events h' →
      Queued (s.relink q h' head') (a.remove q x.1) := by
    intro h' head' hrep' hrel
    refine h.relink (by rwa [hfil]) hrel (fun q' hne y hy => h.notMem_of_ne hne hy) ?_ ?_
    · exact fun y hy => h.entry q y (Spec.mem_all_of_pending (mem_remove.1 hy).1)
    · refine (h.nodup q).sublist (List.Sublist.map _ ?_)
      exact List.filter_sublist.append (List.Sublist.refl _)
  refine ⟨hhead, ?_⟩
  rw [hhead] at hrep
  obtain ⟨l', hl', hpop⟩ := hrep.pop hnd
  obtain rfl : l' = rest.map fst := by
    rw [hsorted, map_cons] at hl'
    exact (cons.inj hl').2.symm
  rcases hin : (s.events x.1).nextInBin with _ | next
  · rw [hin] at hpop
    rw [unlinkHead, hin]
    exact ⟨_, _, rfl, hdone _ _ hpop (Relinked.refl _ _), Relinked.refl _ _⟩
  · rw [hin] at hpop
    rw [unlinkHead, hin]
    exact ⟨_, _, rfl, hdone _ _ hpop.1 hpop.2, hpop.2⟩

end

end ChipletGem5.EventQueue
