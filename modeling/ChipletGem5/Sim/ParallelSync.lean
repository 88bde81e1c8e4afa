import ChipletGem5.Sim.EventQueueRun

/-!
# Quantum synchronisation of parallel event queues

The threads of `simulate` in `sim/simulate.cc`, one for each main event queue, and the
`GlobalSyncEvent` of `sim/global_event.cc` that keeps them together: a set of barrier events,
one on each queue, at the end of every quantum.  A thread that services its barrier event waits
until all threads have arrived; the last one schedules the barrier events anew, and then each
thread inserts the events that others have handed over to its queue.

The threads take their steps in any order.  The lists of handed over events are protected by a
mutex, so that each step of a thread is atomic with respect to them.
-/

namespace ChipletGem5.EventQueue

open LifoQueue List Spec Sim Function

variable {n : ℕ}

/-! ### Global events -/

/-- The barrier that ends a quantum. -/
structure GlobalSyncEvent (n : ℕ) where
  /-- The local events, one for each queue. -/
  barrierEvent : Fin n → EventId
  /-- The field `repeat`. -/
  repeatTicks : Tick

namespace GlobalSyncEvent

/-- The calls of `BaseGlobalEvent::schedule`. -/
def scheduleCalls (g : GlobalSyncEvent n) (when : Tick) : List (Fin n) → List (Sim.Call n) :=
  List.map fun i => .schedule i (g.barrierEvent i) when true

/-- `GlobalSyncEvent::process`, run by the thread of the queue `cur`. -/
def process (g : GlobalSyncEvent n) (fuel : ℕ) (s : Sim n) (cur : Fin n) : Result (Sim n) :=
  if g.repeatTicks ≠ 0 then
    s.calls fuel cur (g.scheduleCalls ((s.queues cur).curTick + g.repeatTicks) (List.finRange n))
  else .ok s

end GlobalSyncEvent

/-- `EventBase::Progress_Event_Pri`. -/
def EventBase.progressEventPri : ℤ := 95

/-! ### Threads -/

/-- What the thread of a queue is doing. -/
inductive Phase where
  /-- It is about to enter `doSimLoop`, which starts with `handleAsyncInsertions`. -/
  | entering
  /-- It services events. -/
  | running
  /-- It waits at the barrier. -/
  | arrived
  /-- It has left the barrier and is about to call `handleAsyncInsertions`. -/
  | released
deriving DecidableEq, Repr

/-- The thread is about to call `handleAsyncInsertions`. -/
def Phase.merging : Phase → Bool
  | .entering => true
  | .released => true
  | _ => false

/-- The state of a parallel simulation, with the history of what was handed over to each queue
and of what its `handleAsyncInsertions` has inserted. -/
structure Par (n : ℕ) where
  /-- The queues and events. -/
  sim : Sim n
  /-- The threads. -/
  phase : Fin n → Phase
  /-- History: the events that were handed over. -/
  sent : Fin n → List EventId
  /-- History: the events that were inserted asynchronously. -/
  inserted : Fin n → List EventId

/-- What a call of the thread of `cur` hands over to the queue `q`. -/
def Sim.Call.handsOver (s : Sim n) (cur : Fin n) (q : Fin n) : Sim.Call n → List EventId
  | .schedule this e _ global =>
      if this = q ∧ (s.inParallelMode && (this != cur || global)) then [e] else []
  | _ => []

/-- The discipline of handlers: they leave the barrier events alone, and what they hand over is
at least a quantum away. -/
def Sim.Call.Respects (g : GlobalSyncEvent n) (s : Sim n) (cur : Fin n) (c : Sim.Call n) : Prop :=
  (∀ i, c.event ≠ g.barrierEvent i) ∧
    match c with
    | .schedule this _ when global =>
        this ≠ cur ∨ global → (s.queues cur).curTick + g.repeatTicks ≤ when
    | _ => True

/-- The steps of the threads. -/
inductive ParStep (g : GlobalSyncEvent n) : Par n → Par n → Prop
  /-- A thread calls `handleAsyncInsertions`, at the start of `doSimLoop` or behind the
  barrier. -/
  | merge {p : Par n} {s' : Sim n} (q : Fin n) (hphase : (p.phase q).merging)
      (hret : Returns (fun fuel => p.sim.handleAsyncInsertions fuel q) (.ok s')) :
      ParStep g p { p with
        sim := s'
        phase := update p.phase q .running
        inserted := update p.inserted q
          (p.inserted q ++ (p.sim.queues q).asyncQueue) }
  /-- A handler makes a call. -/
  | call {p : Par n} {s' : Sim n} (q : Fin n) (c : Sim.Call n) (hphase : p.phase q = .running)
      (hcall : c.Respects g p.sim q)
      (hret : Returns (fun fuel => p.sim.call fuel q c) (.ok s')) :
      ParStep g p { p with
        sim := s'
        sent := fun q' => p.sent q' ++ c.handsOver p.sim q q' }
  /-- A thread takes an event of its queue. -/
  | service {p : Par n} {s' : Sim n} (q : Fin n) (hd : EventId) (hphase : p.phase q = .running)
      (hhead : (p.sim.queues q).head = some hd) (hne : hd ≠ g.barrierEvent q)
      (hret : Returns (fun fuel => (Action.take q).exec fuel p.sim) (.ok s')) :
      ParStep g p { p with sim := s' }
  /-- The service of an event ends. -/
  | release {p : Par n} (q : Fin n) (e : EventId) (hphase : p.phase q = .running) :
      ParStep g p { p with sim := p.sim.release e }
  /-- A thread takes its barrier event and waits. -/
  | arrive {p : Par n} {s' : Sim n} (q : Fin n) (hphase : p.phase q = .running)
      (hhead : (p.sim.queues q).head = some (g.barrierEvent q))
      (hret : Returns (fun fuel => (Action.take q).exec fuel p.sim) (.ok s')) :
      ParStep g p { p with sim := s', phase := update p.phase q .arrived }
  /-- All threads have arrived; one of them processes the global event, and all leave the
  barrier. -/
  | process {p : Par n} {s' : Sim n} (cur : Fin n) (hphase : ∀ q, p.phase q = .arrived)
      (hret : Returns (fun fuel => g.process fuel p.sim cur) (.ok s')) :
      ParStep g p { p with
        sim := s'
        phase := fun _ => .released
        sent := fun q => p.sent q ++ if g.repeatTicks ≠ 0 then [g.barrierEvent q] else [] }

/-- How `simulate` starts the threads: the queues are at the same time `now`, no scheduled event
is in the past, and the barrier events are scheduled for the end of the first quantum. -/
structure Par.Start (g : GlobalSyncEvent n) (p : Par n) (now : Tick) : Prop where
  quantum : g.repeatTicks ≠ 0
  parallel : p.sim.inParallelMode
  refines : ∃ a, Refines p.sim a
  phase : ∀ q, p.phase q = .entering
  curTick : ∀ q, (p.sim.queues q).curTick = now
  future : ∀ e, (p.sim.events e).scheduled → now ≤ (p.sim.events e).when
  barrier : ∀ q, (p.sim.events (g.barrierEvent q)).scheduled ∧
    (p.sim.events (g.barrierEvent q)).queue = some q.val ∧
    (p.sim.events (g.barrierEvent q)).when = now + g.repeatTicks ∧
    (p.sim.events (g.barrierEvent q)).priority = EventBase.progressEventPri ∧
    (p.sim.events (g.barrierEvent q)).squashed = false
  sent : ∀ q, p.sent q = (p.sim.queues q).asyncQueue
  inserted : ∀ q, p.inserted q = []

/-! ### The invariant of a queue -/

/-- The key of the barrier events of the quantum that starts at `base`. -/
def GlobalSyncEvent.key (g : GlobalSyncEvent n) (base : Tick) : Key :=
  toLex (base + g.repeatTicks, EventBase.progressEventPri)

/-- When the events that wait for insertion may be due: in a later quantum, or in this one as
long as they can still be inserted in time. -/
def GlobalSyncEvent.earliest (g : GlobalSyncEvent n) (base : Tick) (ph : Phase) : Tick :=
  if ph.merging then base else base + g.repeatTicks

/-- A queue is in the quantum that starts at `base`, or waits at one of its ends. -/
structure QueueSynced (g : GlobalSyncEvent n) (base : Tick) (q : Fin n) (ph : Phase)
    (tick : Tick) (pending waiting : List (EventId × Key)) : Prop where
  timely : ∀ x ∈ pending, tick ≤ (ofLex x.2).1
  due : ∀ x ∈ waiting, g.earliest base ph ≤ (ofLex x.2).1
  merging : ph.merging →
    tick = base ∧ (g.barrierEvent q, g.key base) ∈ pending ++ waiting
  running : ph = .running → base ≤ tick ∧ (g.barrierEvent q, g.key base) ∈ pending
  arrived : ph = .arrived → tick = base + g.repeatTicks

variable {g : GlobalSyncEvent n} {base tick : Tick} {q : Fin n} {ph : Phase}
  {pending waiting : List (EventId × Key)}

variable {x : EventId × Key} {now when : Tick} {this cur : Fin n} {e : EventId} {c : Sim.Call n}

section

variable (h : QueueSynced g base q ph tick pending waiting)
include h

lemma QueueSynced.waiting_le
    (hph : ph.merging) (hx : x ∈ waiting) : tick ≤ (ofLex x.2).1 := by
  have hle := h.due x hx
  rwa [GlobalSyncEvent.earliest, if_pos hph, ← (h.merging hph).1] at hle

lemma QueueSynced.merge (hph : ph.merging) :
    QueueSynced g base q .running tick (waiting.reverse ++ pending) [] := by
  obtain ⟨hbase, hmem⟩ := h.merging hph
  refine ⟨fun x hx => ?_, by simp, fun hph' => ?_, fun _ => ⟨hbase.ge, ?_⟩, fun hph' => ?_⟩
  · rw [mem_append, mem_reverse] at hx
    rcases hx with hx | hx
    · exact h.waiting_le hph hx
    · exact h.timely x hx
  · exact absurd hph' (by decide)
  · rw [mem_append, mem_reverse]
    exact (mem_append.1 hmem).symm
  · simp at hph'

lemma QueueSynced.of_lists
    {pending' waiting' : List (EventId × Key)} (htimely : ∀ x ∈ pending', tick ≤ (ofLex x.2).1)
    (hwaiting : ∀ x ∈ waiting', x ∈ waiting ∨ base + g.repeatTicks ≤ (ofLex x.2).1)
    (hpending : ∀ k, (g.barrierEvent q, k) ∈ pending → (g.barrierEvent q, k) ∈ pending')
    (hkeep : ∀ x ∈ waiting, x ∈ waiting') :
    QueueSynced g base q ph tick pending' waiting' := by
  refine ⟨htimely, fun x hx => ?_, fun hph => ?_, fun hph => ?_, h.arrived⟩
  · rcases hwaiting x hx with hx | hle
    · exact h.due x hx
    · refine le_trans ?_ hle
      rw [GlobalSyncEvent.earliest]
      split
      · exact Nat.le_add_right _ _
      · exact le_rfl
  · obtain ⟨hbase, hmem⟩ := h.merging hph
    refine ⟨hbase, ?_⟩
    rcases mem_append.1 hmem with hmem | hmem
    · exact mem_append_left _ (hpending _ hmem)
    · exact mem_append_right _ (hkeep _ hmem)
  · obtain ⟨hbase, hmem⟩ := h.running hph
    exact ⟨hbase, hpending _ hmem⟩

end

lemma QueueSynced.le_end (h : QueueSynced g base q .running tick pending waiting) :
    tick ≤ base + g.repeatTicks :=
  h.timely _ (h.running rfl).2

lemma QueueSynced.leave (h : QueueSynced g base q .arrived tick pending waiting) :
    QueueSynced g (base + g.repeatTicks) q .released tick pending
      (waiting ++ [(g.barrierEvent q, g.key (base + g.repeatTicks))]) := by
  have htick := h.arrived rfl
  refine ⟨h.timely, fun x hx => ?_, fun _ => ⟨htick, by simp⟩, fun hph => ?_, fun hph => ?_⟩
  · rcases mem_append.1 hx with hx | hx
    · exact h.due x hx
    · cases mem_singleton.1 hx
      exact Nat.le_add_right _ _
  · simp at hph
  · simp at hph

/-! ### The invariant of the threads -/

/-- All queues are in the quantum that starts at `base`, and what was handed over was either
inserted or still waits. -/
structure Synced (g : GlobalSyncEvent n) (p : Par n) (a : Spec n) (base : Tick) : Prop where
  refines : Refines p.sim a
  parallel : a.parallel
  queue : ∀ q, QueueSynced g base q (p.phase q) (p.sim.queues q).curTick (a.pending q) (a.waiting q)
  priority : ∀ q, a.priority (g.barrierEvent q) = EventBase.progressEventPri
  squashed : ∀ q, (p.sim.events (g.barrierEvent q)).squashed = false
  history : ∀ q, p.sent q = p.inserted q ++ (a.waiting q).map Prod.fst

variable {p p' : Par n} {a : Spec n} {s s' : Sim n}

lemma Par.Start.synced (h : p.Start g now) : ∃ a, Synced g p a now := by
  obtain ⟨a, href⟩ := h.refines
  have hfuture : ∀ q, ∀ x ∈ a.all q, now ≤ (ofLex x.2).1 := by
    intro q x hx
    have hle := h.future x.1 ((href.scheduled x.1).2 ⟨q, x.2, hx⟩)
    rwa [← (href.entry q x hx).1]
  have hbarrier : ∀ q, (g.barrierEvent q, g.key now) ∈ a.all q := by
    intro q
    obtain ⟨hsched, hqueue, hwhen, hprio, -⟩ := h.barrier q
    obtain ⟨q', k, hk⟩ := (href.scheduled _).1 hsched
    obtain ⟨hkey, hq'⟩ := href.entry q' _ hk
    obtain rfl : q' = q := Fin.ext (Option.some.inj (hq'.symm.trans hqueue))
    have hk' : k = g.key now := by
      rw [← show (p.sim.events (g.barrierEvent q')).key = k from hkey, Event.key, hwhen, hprio]
      rfl
    rwa [← hk']
  refine ⟨a, href, href.mode.symm.trans h.parallel, fun q => ?_, fun q => ?_,
    fun q => (h.barrier q).2.2.2.2, fun q => ?_⟩
  · rw [h.phase q, h.curTick q]
    refine ⟨fun x hx => hfuture q x (mem_all_of_pending hx),
      fun x hx => hfuture q x (mem_append_right _ hx), fun _ => ⟨rfl, hbarrier q⟩,
      fun hph => ?_, fun hph => ?_⟩
    · simp at hph
    · simp at hph
  · rw [← href.priority]
    exact (h.barrier q).2.2.2.1
  · rw [h.sent q, h.inserted q, nil_append, href.async]

lemma Synced.merge (h : Synced g p a base) (hphase : (p.phase q).merging)
    (hret : Returns (fun fuel => p.sim.handleAsyncInsertions fuel q) (.ok s')) :
    Synced g { p with
      sim := s'
      phase := update p.phase q .running
      inserted := update p.inserted q (p.inserted q ++ (p.sim.queues q).asyncQueue) }
      (a.merge q) base := by
  obtain ⟨s1, hret1, href, ht, hflags⟩ := h.refines.handleAsyncInsertions q
  cases hret1.unique hret
  refine ⟨href, h.parallel, fun q' => ?_, h.priority, fun q' => ?_, fun q' => ?_⟩
  · rw [ht q']
    rcases eq_or_ne q' q with rfl | hne
    · simpa [Spec.merge] using (h.queue q').merge hphase
    · simpa [Spec.merge, hne] using h.queue q'
  · rw [Event.squashed_congr (hflags _)]
    exact h.squashed q'
  · rcases eq_or_ne q' q with rfl | hne
    · simpa [Spec.merge, h.refines.async q'] using h.history q'
    · simpa [Spec.merge, hne] using h.history q'

/-! ### Calls of handlers -/

lemma Spec.call_priority (a : Spec n) (cur : Fin n) (c : Sim.Call n) :
    (a.call cur c).priority = a.priority := by
  cases c with
  | schedule this e when global =>
    rw [call]
    split <;> rfl
  | deschedule _ _ | reschedule _ _ _ _ | squash _ => rfl

lemma Spec.mem_insert_pending {k : Key}
    (hx : x ∈ a.pending q) : x ∈ (a.insert this e k).pending q := by
  rcases eq_or_ne q this with rfl | hne
  · rw [insert_pending_self]
    exact mem_cons_of_mem _ hx
  · rwa [insert_pending_of_ne a hne]

lemma Spec.mem_remove_pending
    (hx : x ∈ a.pending q) (hne : x.1 ≠ e) : x ∈ (a.remove this e).pending q := by
  rcases eq_or_ne q this with rfl | hq
  · rw [remove_pending_self]
    exact mem_remove.2 ⟨hx, hne⟩
  · rwa [remove_pending_of_ne a hq]

lemma Spec.mem_call_pending
    (hx : x ∈ a.pending q) (hne : x.1 ≠ c.event) : x ∈ (a.call cur c).pending q := by
  cases c with
  | schedule this e when global =>
    rw [call]
    split
    · exact hx
    · exact mem_insert_pending hx
  | deschedule this e => exact mem_remove_pending hx hne
  | reschedule this e when always => exact mem_insert_pending (mem_remove_pending hx hne)
  | squash e => exact hx

lemma Spec.call_waiting (hmode : s.inParallelMode = a.parallel)
    (hcall : c.Respects g s cur) (q : Fin n) :
    ∃ l, (a.call cur c).waiting q = a.waiting q ++ l ∧ l.map Prod.fst = c.handsOver s cur q ∧
      ∀ x ∈ l, (s.queues cur).curTick + g.repeatTicks ≤ (ofLex x.2).1 := by
  cases c with
  | schedule this e when global =>
    rw [call, Sim.Call.handsOver, hmode]
    by_cases hasync : (a.parallel && (this != cur || global))
    · rw [if_pos hasync]
      rcases eq_or_ne q this with rfl | hne
      · refine ⟨[(e, toLex (when, a.priority e))], by simp [handOver], by simp [hasync], ?_⟩
        intro x hx
        cases mem_singleton.1 hx
        have hremote : q ≠ cur ∨ global := by
          rw [Bool.and_eq_true, Bool.or_eq_true, bne_iff_ne] at hasync
          exact hasync.2
        exact hcall.2 hremote
      · exact ⟨[], by simp [handOver, hne], by simp [hne.symm], by simp⟩
    · rw [if_neg hasync]
      exact ⟨[], by simp [insert], by simp [hasync], by simp⟩
  | deschedule this e => exact ⟨[], by simp [call, remove], rfl, by simp⟩
  | reschedule this e when always => exact ⟨[], by simp [call, remove, insert], rfl, by simp⟩
  | squash e => exact ⟨[], by simp [call], rfl, by simp⟩

lemma Synced.timely (h : Synced g p a base) : Timely p.sim a := fun q x hx =>
  (h.queue q).timely x hx

lemma Synced.call (h : Synced g p a base) (hphase : p.phase q = .running)
    (hcall : c.Respects g p.sim q) (hret : Returns (fun fuel => p.sim.call fuel q c) (.ok s')) :
    Synced g { p with sim := s', sent := fun q' => p.sent q' ++ c.handsOver p.sim q q' }
      (a.call q c) base := by
  have hpre := h.refines.call_returns_iff.1 ⟨s', hret⟩
  obtain ⟨s1, hret1, href, ht, hflags⟩ := h.refines.call hpre
  cases hret1.unique hret
  have htimely := h.timely.call hpre ht
  have hbase := ((hphase ▸ h.queue q).running rfl).1
  refine ⟨href, ?_, fun q' => ?_, fun q' => ?_, fun q' => ?_, fun q' => ?_⟩
  · rw [← h.parallel]
    exact (step_waiting a (.call q c)).1
  · obtain ⟨l, hl, -, hdue⟩ := call_waiting h.refines.mode hcall q'
    refine (ht q' ▸ (h.queue q')).of_lists (htimely q') (fun x hx => ?_) (fun k hk => ?_)
      fun x hx => ?_
    · rw [hl] at hx
      rcases mem_append.1 hx with hx | hx
      · exact Or.inl hx
      · exact Or.inr (le_trans (Nat.add_le_add_right hbase _) (hdue x hx))
    · exact mem_call_pending hk (hcall.1 q').symm
    · rw [hl]
      exact mem_append_left _ hx
  · rw [call_priority]
    exact h.priority q'
  · rw [Event.squashed_congr (hflags _ (hcall.1 q').symm)]
    exact h.squashed q'
  · obtain ⟨l, hl, hids, -⟩ := call_waiting h.refines.mode hcall q'
    rw [hl, map_append, hids, ← append_assoc, ← h.history]

/-! ### Servicing events -/

lemma Synced.take (h : Synced g p a base) {hd : EventId} (hhead : (p.sim.queues q).head = some hd)
    (hret : Returns (fun fuel => (Action.take q).exec fuel p.sim) (.ok s')) :
    ∃ x, x.1 = hd ∧ x ∈ a.pending q ∧ Refines s' (a.remove q x.1) ∧
      Timely s' (a.remove q x.1) ∧
      (∀ q', q' ≠ q → (s'.queues q').curTick = (p.sim.queues q').curTick) ∧
      (p.sim.queues q).curTick ≤ (s'.queues q).curTick ∧
      ((p.sim.events hd).squashed = false → (s'.queues q).curTick = (ofLex x.2).1) ∧
      ∀ y, (p.sim.events y).squashed = false → (s'.events y).squashed = false := by
  obtain ⟨N, hN⟩ := hret
  obtain ⟨x, hnext, href, hother, htick, hsq⟩ := h.refines.take (hN N le_rfl)
  obtain ⟨y, hnext', rfl, -⟩ := h.refines.next_of_head hhead
  cases hnext.symm.trans hnext'
  obtain ⟨htimely, hmono⟩ := h.timely.take hnext hother htick
  rw [serve_of_next hnext] at href htimely
  refine ⟨x, rfl, mem_of_next? hnext, href, htimely, hother, hmono q, fun hns => ?_, hsq⟩
  rw [htick, hns]
  rfl

lemma Synced.service (h : Synced g p a base) {hd : EventId} (hphase : p.phase q = .running)
    (hhead : (p.sim.queues q).head = some hd) (hne : hd ≠ g.barrierEvent q)
    (hret : Returns (fun fuel => (Action.take q).exec fuel p.sim) (.ok s')) :
    Synced g { p with sim := s' } (a.remove q hd) base := by
  obtain ⟨x, rfl, -, href, htimely, hother, htick, -, hsq⟩ := h.take hhead hret
  refine ⟨href, h.parallel, fun q' => ?_, h.priority, fun q' => hsq _ (h.squashed q'), h.history⟩
  rcases eq_or_ne q' q with rfl | hq
  · have hq := h.queue q'
    have htimely' := htimely q'
    rw [remove_pending_self] at htimely' ⊢
    simp only [hphase] at hq ⊢
    obtain ⟨hbase, hmem⟩ := hq.running rfl
    exact ⟨htimely', hq.due, nofun, fun _ => ⟨hbase.trans htick, mem_remove.2 ⟨hmem, hne.symm⟩⟩,
      nofun⟩
  · simp only [remove_pending_of_ne a hq, hother q' hq]
    exact h.queue q'

lemma Synced.arrive (h : Synced g p a base) (hphase : p.phase q = .running)
    (hhead : (p.sim.queues q).head = some (g.barrierEvent q))
    (hret : Returns (fun fuel => (Action.take q).exec fuel p.sim) (.ok s')) :
    Synced g { p with sim := s', phase := update p.phase q .arrived }
      (a.remove q (g.barrierEvent q)) base := by
  obtain ⟨x, hx, hmem, href, htimely, hother, -, htick, hsq⟩ := h.take hhead hret
  rw [hx] at href htimely
  -- the event is the barrier event of this quantum
  have hkey : x.2 = g.key base := by
    have hbar := ((hphase ▸ h.queue q).running rfl).2
    have hx2 := (h.refines.entry q x (mem_all_of_pending hmem)).1
    have hb2 := (h.refines.entry q _ (mem_all_of_pending hbar)).1
    rwa [← hx2, hx]
  have htick' : (s'.queues q).curTick = base + g.repeatTicks := by
    rw [htick (h.squashed q), hkey]
    rfl
  refine ⟨href, h.parallel, fun q' => ?_, h.priority, fun q' => hsq _ (h.squashed q'), h.history⟩
  rcases eq_or_ne q' q with rfl | hq
  · have hq := h.queue q'
    have htimely' := htimely q'
    simp only [remove_pending_self, htick', update_self] at htimely' ⊢
    rw [hphase] at hq
    exact ⟨htimely', hq.due, nofun, nofun, fun _ => rfl⟩
  · simp only [remove_pending_of_ne a hq, hother q' hq, update_of_ne hq]
    exact h.queue q'

lemma Event.squashed_release {ev : Event} (h : ev.squashed = false) :
    ev.release.squashed = false := by
  rw [Event.release]
  split
  · simp [Event.squashed, Flags.isSet]
  · exact h

lemma Synced.release (h : Synced g p a base) (e : EventId) :
    Synced g { p with sim := p.sim.release e } a base := by
  refine ⟨h.refines.release e, h.parallel, h.queue, h.priority, fun q' => ?_, h.history⟩
  rcases eq_or_ne (g.barrierEvent q') e with heq | hne
  · rw [Sim.release, heq, Sim.setEvent_self]
    exact Event.squashed_release (heq ▸ h.squashed q')
  · rw [Sim.release, Sim.setEvent_of_ne _ hne]
    exact h.squashed q'

/-! ### Processing the global event -/

lemma Refines.scheduleBarriers (h : Refines s a) (hpar : a.parallel) {l : List (Fin n)}
    (hret : Returns (fun fuel => s.calls fuel cur (g.scheduleCalls when l)) (.ok s')) :
    ∃ a', Refines s' a' ∧ a'.parallel ∧ a'.priority = a.priority ∧
      a'.pending = a.pending ∧ (∀ q, a'.waiting q = a.waiting q ++ (l.filter (· = q)).map
        fun i => (g.barrierEvent i, toLex (when, a.priority (g.barrierEvent i)))) ∧
      SameTime s s' ∧ ∀ x, (s'.events x).squashed = (s.events x).squashed := by
  induction l generalizing s a with
  | nil =>
    obtain rfl : s = s' := Except.ok.inj ((Returns.of_forall fun _ => rfl).unique hret)
    exact ⟨a, h, hpar, rfl, rfl, by simp, SameTime.refl s, fun _ => rfl⟩
  | cons i l ih =>
    obtain ⟨hpre, hrest⟩ := h.calls_cons hret
    obtain ⟨s1, hret1, href, ht, hflags, hsq⟩ := h.schedule hpre
    have hcall : a.call cur (.schedule i (g.barrierEvent i) when true)
        = a.handOver i (g.barrierEvent i) (toLex (when, a.priority (g.barrierEvent i))) := by
      rw [Spec.call, hpar]
      simp
    rw [hcall] at href
    obtain ⟨a', href', hpar', hprio, hpend, hwait, ht', hsq'⟩ := ih href hpar (hrest s1 hret1)
    refine ⟨a', href', hpar', hprio, hpend, fun q => ?_, ht.trans ht', fun x => ?_⟩
    · rw [hwait q]
      rcases eq_or_ne q i with rfl | hne
      · simp [handOver]
      · simp [handOver, hne, hne.symm]
    · rw [hsq' x]
      rcases eq_or_ne x (g.barrierEvent i) with rfl | hne
      · exact hsq
      · exact Event.squashed_congr (hflags x hne)

lemma finRange_filter_eq (q : Fin n) : (List.finRange n).filter (· = q) = [q] := by
  rw [filter_eq, count_eq_one_of_mem (nodup_finRange n) (mem_finRange q)]
  rfl

lemma Synced.process (h : Synced g p a base) (hquantum : g.repeatTicks ≠ 0)
    (hphase : ∀ q, p.phase q = .arrived)
    (hret : Returns (fun fuel => g.process fuel p.sim cur) (.ok s')) :
    ∃ a', Synced g { p with
      sim := s'
      phase := fun _ => .released
      sent := fun q => p.sent q ++ if g.repeatTicks ≠ 0 then [g.barrierEvent q] else [] }
      a' (base + g.repeatTicks) := by
  have hcalls : Returns (fun fuel => p.sim.calls fuel cur
      (g.scheduleCalls ((p.sim.queues cur).curTick + g.repeatTicks) (List.finRange n))) (.ok s') :=
    hret.congr fun fuel => by rw [GlobalSyncEvent.process, if_pos hquantum]
  obtain ⟨a', href, hpar, hprio, hpend, hwait, ht, hsq⟩ :=
    h.refines.scheduleBarriers h.parallel hcalls
  have htick : (p.sim.queues cur).curTick = base + g.repeatTicks :=
    (h.queue cur).arrived (hphase cur)
  have hwait' : ∀ q, a'.waiting q
      = a.waiting q ++ [(g.barrierEvent q, g.key (base + g.repeatTicks))] := by
    intro q
    rw [hwait q, finRange_filter_eq, htick]
    simp [h.priority q, GlobalSyncEvent.key]
  refine ⟨a', href, hpar, fun q => ?_, fun q => ?_, fun q => ?_, fun q => ?_⟩
  · have hq := h.queue q
    rw [hphase q] at hq
    simp only [hpend, hwait' q, ht q]
    exact hq.leave
  · rw [hprio]
    exact h.priority q
  · rw [hsq]
    exact h.squashed q
  · simp only [if_pos hquantum, hwait' q, map_append, ← append_assoc, ← h.history]
    rfl

/-! ### Runs of the threads -/

/-- No queue is beyond the end of the quantum, so that the assertion `when >= getCurTick()` on
the time of another queue holds whenever the call keeps to the discipline. -/
lemma Synced.remote_time (h : Synced g p a base) (hcur : p.phase cur = .running)
    (hwhen : (p.sim.queues cur).curTick + g.repeatTicks ≤ when) (q : Fin n) :
    (p.sim.queues q).curTick ≤ when := by
  have hbase := ((hcur ▸ h.queue cur).running rfl).1
  have hend : (p.sim.queues q).curTick ≤ base + g.repeatTicks := by
    have hq := h.queue q
    rcases hph : p.phase q with _ | _ | _ | _
    · exact ((hq.merging (by rw [hph]; rfl)).1).le.trans (Nat.le_add_right _ _)
    · rw [hph] at hq
      exact hq.le_end
    · exact (hq.arrived hph).le
    · exact ((hq.merging (by rw [hph]; rfl)).1).le.trans (Nat.le_add_right _ _)
  exact hend.trans ((Nat.add_le_add_right hbase _).trans hwhen)

lemma Synced.step (h : Synced g p a base) (hquantum : g.repeatTicks ≠ 0) (hstep : ParStep g p p') :
    ∃ a' base', Synced g p' a' base' := by
  cases hstep with
  | merge q hphase hret => exact ⟨_, _, h.merge hphase hret⟩
  | call q c hphase hcall hret => exact ⟨_, _, h.call hphase hcall hret⟩
  | service q hd hphase hhead hne hret => exact ⟨_, _, h.service hphase hhead hne hret⟩
  | release q e hphase => exact ⟨_, _, h.release e⟩
  | arrive q hphase hhead hret => exact ⟨_, _, h.arrive hphase hhead hret⟩
  | process cur hphase hret =>
    obtain ⟨a', h'⟩ := h.process hquantum hphase hret
    exact ⟨a', _, h'⟩

lemma Par.Start.synced_of_run (h : p.Start g now)
    (hrun : Relation.ReflTransGen (ParStep g) p p') : ∃ a base, Synced g p' a base := by
  induction hrun with
  | refl =>
    obtain ⟨a, hs⟩ := h.synced
    exact ⟨a, now, hs⟩
  | tail _ hstep ih =>
    obtain ⟨a, base, hs⟩ := ih
    exact hs.step h.quantum hstep

/-- In every interleaving of the threads: what `handleAsyncInsertions` moves into a queue is not
in the past of the queue, the call returns and puts each of the events into the queue once,
and the events that were handed over to a queue are, one by one and in this order, those that were
inserted followed by those that still wait. -/
theorem quantum_causally_safe {now : Tick} (hstart : p.Start g now)
    (hrun : Relation.ReflTransGen (ParStep g) p p') (q : Fin n) :
    ((p'.phase q).merging →
      (∀ e ∈ (p'.sim.queues q).asyncQueue,
        (p'.sim.queues q).curTick ≤ (p'.sim.events e).when) ∧
      ∃ s' l l', Returns (fun fuel => p'.sim.handleAsyncInsertions fuel q) (.ok s') ∧
        Represents p'.sim.events (p'.sim.queues q).head l ∧
        Represents s'.events (s'.queues q).head l' ∧
        l'.Perm ((p'.sim.queues q).asyncQueue ++ l) ∧ l'.Nodup ∧
        (s'.queues q).asyncQueue = []) ∧
    p'.sent q = p'.inserted q ++ (p'.sim.queues q).asyncQueue := by
  obtain ⟨a, base, h⟩ := hstart.synced_of_run hrun
  refine ⟨fun hphase => ⟨fun e he => ?_, ?_⟩, (h.refines.async q).symm ▸ h.history q⟩
  · rw [h.refines.async q] at he
    obtain ⟨x, hx, rfl⟩ := mem_map.1 he
    have hkey := (h.refines.entry q x (mem_append_right _ hx)).1
    have hle := (h.queue q).waiting_le hphase hx
    rwa [← hkey] at hle
  · obtain ⟨s', hret, href, -, -⟩ := h.refines.handleAsyncInsertions q
    refine ⟨s', _, _, hret, h.refines.links q, href.links q, ?_, href.nodup_sorted q, ?_⟩
    · refine ((perm_sorted _).map Prod.fst).trans ?_
      rw [h.refines.async q, ← map_append]
      have hmerge : (a.merge q).pending q = (a.waiting q).reverse ++ a.pending q := by
        simp [Spec.merge]
      rw [hmerge, map_append, map_append]
      exact ((reverse_perm _).map _).append ((perm_sorted _).symm.map _)
    · rw [href.async]
      simp [Spec.merge]

/-- In every interleaving, a running thread that hands an event over to any queue a quantum
ahead does not run into the assertion on the time of that queue. -/
theorem run_remote_schedule_returns (hstart : p.Start g now)
    (hrun : Relation.ReflTransGen (ParStep g) p p')
    {global : Bool} (hcur : p'.phase cur = .running) (hsched : (p'.sim.events e).scheduled = false)
    (hinit : (p'.sim.events e).initialized)
    (hwhen : (p'.sim.queues cur).curTick + g.repeatTicks ≤ when) :
    ∃ s', Returns (fun fuel => p'.sim.schedule fuel cur this e when global) (.ok s') := by
  obtain ⟨a, base, h⟩ := hstart.synced_of_run hrun
  obtain ⟨s', hret, -⟩ := h.refines.schedule ⟨h.remote_time hcur hwhen this, hsched, hinit⟩
  exact ⟨s', hret⟩

lemma Refines.enterParallelMode (h : Refines s a) :
    Refines { s with inParallelMode := true } { a with parallel := true } :=
  ⟨⟨rfl, h.priority, h.links, h.async, h.entry, h.nodup⟩, h.scheduled⟩

/-- Two queues; the events 100 and 101 are the barrier events. -/
def twoQueues : Sim 2 :=
  ⟨fun e => Event.new (if 100 ≤ e then EventBase.progressEventPri else 0) 0,
    fun _ => ⟨none, 0, []⟩, false⟩

/-- A quantum of 10 ticks. -/
def syncTen : GlobalSyncEvent 2 := ⟨fun q => 100 + q.val, 10⟩

lemma twoQueues_idle : twoQueues.Idle := by
  refine ⟨fun _ => rfl, fun _ => rfl, fun e => ?_⟩
  show Flags.isSet (EventBase.initialized ||| 0) EventBase.scheduled = false
  decide

lemma exists_start_syncTen : ∃ p : Par 2, p.Start syncTen 0 ∧ p.sim.events 7 = Event.new 0 0 ∧
    ∀ q, (p.sim.queues q).asyncQueue = [] := by
  obtain ⟨s, hrun, hbar, hasync, htick, hev⟩ : ∃ s, Run twoQueues
      ([] ++ [.call 0 (.schedule 0 100 10 true)] ++ [.call 0 (.schedule 1 101 10 true)]) s ∧
      (∀ q, (s.events (syncTen.barrierEvent q)).scheduled ∧
        (s.events (syncTen.barrierEvent q)).queue = some q.val ∧
        (s.events (syncTen.barrierEvent q)).when = 10 ∧
        (s.events (syncTen.barrierEvent q)).priority = EventBase.progressEventPri ∧
        (s.events (syncTen.barrierEvent q)).squashed = false) ∧
      (∀ q, (s.queues q).asyncQueue = []) ∧ (∀ q, (s.queues q).curTick = 0) ∧
      s.events 7 = Event.new 0 0 := by
    refine ⟨_, ((Run.nil _).snoc (Returns.of_forall fun _ => rfl)).snoc
      (Returns.of_forall fun _ => rfl), fun q => ?_, fun q => ?_, fun q => ?_, rfl⟩
    all_goals fin_cases q
    · exact ⟨rfl, rfl, rfl, rfl, rfl⟩
    · exact ⟨rfl, rfl, rfl, rfl, rfl⟩
    all_goals rfl
  refine ⟨⟨{ s with inParallelMode := true }, fun _ => .entering, fun _ => [], fun _ => []⟩, ?_,
    hev, hasync⟩
  exact ⟨by decide, rfl, ⟨_, (Run.refines twoQueues_idle.refines hrun).enterParallelMode⟩,
    fun _ => rfl, htick, fun _ _ => Nat.zero_le _, hbar, fun q => (hasync q).symm, fun _ => rfl⟩

/-- The first queue has entered its loop. -/
lemma exists_run_syncTen : ∃ p p' : Par 2, p.Start syncTen 0 ∧
    Relation.ReflTransGen (ParStep syncTen) p p' ∧ p'.sim = p.sim ∧ p'.phase 0 = .running ∧
    (p'.phase 1).merging ∧ p.sim.events 7 = Event.new 0 0 ∧
    ∀ q, (p.sim.queues q).asyncQueue = [] := by
  obtain ⟨p, hstart, hev, hasync⟩ := exists_start_syncTen
  have hmerge : Returns (fun fuel => p.sim.handleAsyncInsertions fuel 0) (.ok p.sim) :=
    Returns.of_forall fun fuel => by rw [handleAsyncInsertions, hasync 0]; rfl
  refine ⟨p, _, hstart, .single (.merge 0 (by rw [hstart.phase 0]; rfl) hmerge), rfl,
    by simp, ?_, hev, hasync⟩
  simp only [update_of_ne (by decide : (1 : Fin 2) ≠ 0), hstart.phase 1]
  rfl

/-- An event that one queue hands over to another one before that one has started. -/
theorem quantum_causally_safe_one_remote_event :
    ∃ p p' : Par 2, p.Start syncTen 0 ∧ Relation.ReflTransGen (ParStep syncTen) p p' ∧
      (p'.phase 1).merging ∧ (p'.sim.queues 1).asyncQueue = [7] ∧
      (p'.sim.queues 1).curTick ≤ (p'.sim.events 7).when ∧
      p'.sent 1 = p'.inserted 1 ++ [7] := by
  obtain ⟨p, p', hstart, hrun, hsim, hphase0, hphase, hev, hasync⟩ := exists_run_syncTen
  have hpre : (Sim.Call.schedule 1 7 15 false).Pre p'.sim 0 := by
    rw [hsim]
    refine ⟨?_, ?_, ?_⟩
    · rw [hstart.curTick 1]
      decide
    · rw [hev]
      decide
    · rw [hev]
      decide
  have hresp : (Sim.Call.schedule 1 7 15 false).Respects syncTen p'.sim 0 := by
    refine ⟨fun i => ?_, fun _ => ?_⟩
    · fin_cases i <;> decide
    · rw [hsim, hstart.curTick 0]
      decide
  have hcall := Returns.of_forall fun fuel => (schedule_eq hpre fuel).trans
    (if_pos (by rw [hsim, hstart.parallel]; rfl))
  have hrun' := hrun.tail (.call 0 (.schedule 1 7 15 false) hphase0 hresp hcall)
  obtain ⟨hsafe, hhist⟩ := quantum_causally_safe hstart hrun' 1
  rw [hsim] at hsafe hhist hrun'
  refine ⟨p, _, hstart, hrun', hphase, ?_, ?_, ?_⟩
  · simp [asyncInsert, setQueue, setEvent, hasync 1]
  · exact (hsafe hphase).1 7 (by simp [asyncInsert, setQueue, setEvent])
  · simpa [asyncInsert, setQueue, setEvent, hasync 1] using hhist

/-- The first queue hands an event over to the second one at the end of the quantum. -/
theorem run_remote_schedule_returns_first : ∃ (p p' : Par 2) (s' : Sim 2), p.Start syncTen 0 ∧
    Relation.ReflTransGen (ParStep syncTen) p p' ∧
      Returns (fun fuel => p'.sim.schedule fuel 0 1 7 10 false) (.ok s') := by
  obtain ⟨p, p', hstart, hrun, hsim, hphase, -, hev, -⟩ := exists_run_syncTen
  have hwhen : (p'.sim.queues 0).curTick + syncTen.repeatTicks ≤ 10 := by
    rw [hsim, hstart.curTick 0]
    decide
  obtain ⟨s', hs'⟩ := run_remote_schedule_returns hstart hrun hphase
    (by rw [hsim, hev]; decide) (by rw [hsim, hev]; decide) hwhen
  exact ⟨p, p', s', hstart, hrun, hs'⟩

end ChipletGem5.EventQueue
