import ChipletGem5.Sim.EventQueueSpec

/-!
# The operations of event queues refine those of priority queues

`Refines` adds the flag `Scheduled` to the relation between the memory and the abstract queues.
Each call on the event queues, and each part of the servicing of an event, keeps the relation
and does on the abstract queues what it is meant to do.  A call returns exactly when its
assertions hold (`Refines.call_returns_iff`).
-/

namespace ChipletGem5.EventQueue

open LifoQueue Sim Event Spec SameLinks Function

variable {n : ℕ}

/-! ### Flags -/

section

variable (ev : Event)
include ev

lemma Event.scheduled_setFlags_scheduled : (ev.setFlags EventBase.scheduled).scheduled :=
  Flags.isSet_set_self (by decide) _

lemma Event.scheduled_clearFlags_scheduled :
    (ev.clearFlags EventBase.scheduled).scheduled = false :=
  Flags.isSet_clear_self _ _

lemma Event.scheduled_setFlags_squashed :
    (ev.setFlags EventBase.squashed).scheduled = ev.scheduled :=
  Flags.isSet_set_of_disjoint (by decide) _

lemma Event.scheduled_clearFlags_squashed :
    (ev.clearFlags EventBase.squashed).scheduled = ev.scheduled :=
  Flags.isSet_clear_of_disjoint (by decide) _

lemma Event.squashed_setFlags_scheduled :
    (ev.setFlags EventBase.scheduled).squashed = ev.squashed :=
  Flags.isSet_set_of_disjoint (by decide) _

lemma Event.squashed_clearFlags_scheduled :
    (ev.clearFlags EventBase.scheduled).squashed = ev.squashed :=
  Flags.isSet_clear_of_disjoint (by decide) _

lemma Event.scheduled_release : ev.release.scheduled = ev.scheduled := by
  rw [release]
  split
  · rename_i h
    rw [Bool.and_eq_true, Bool.not_eq_true'] at h
    rw [h.2]
    simp [scheduled, Flags.isSet]
  · rfl

lemma SameLinks.setFlags (m : FlagsType) : SameLinks ev (ev.setFlags m) :=
  ⟨rfl, rfl, rfl, rfl⟩

lemma SameLinks.clearFlags (m : FlagsType) : SameLinks ev (ev.clearFlags m) :=
  ⟨rfl, rfl, rfl, rfl⟩

lemma SameLinks.release : SameLinks ev ev.release := by
  rw [Event.release]
  split
  · exact ⟨rfl, rfl, rfl, rfl⟩
  · exact refl ev

end

/-! ### Refinement -/

/-- The code is in a state that the abstract queues describe: its links are those of the
queues, and the events with the flag `Scheduled` are those in the queues. -/
structure Refines (s : Sim n) (a : Spec n) : Prop extends Queued s a where
  scheduled : ∀ e, (s.events e).scheduled ↔ ∃ q k, (e, k) ∈ a.all q

variable {s s' : Sim n} {a a' : Spec n} {e : EventId}

lemma Refines.absent (h : Refines s a) (he : (s.events e).scheduled = false) : a.Absent e := by
  intro q k hk
  have hsched := (h.scheduled e).2 ⟨q, k, hk⟩
  exact absurd (he.symm.trans hsched) (by simp)

lemma Spec.remove_of_absent (h : a.Absent e) (q : Fin n) : a.remove q e = a := by
  have hself : LifoQueue.remove (a.pending q) e = a.pending q := by
    refine List.filter_eq_self.2 fun x hx => decide_eq_true fun heq => ?_
    exact h q x.2 (heq ▸ mem_all_of_pending hx)
  rw [remove, hself, update_eq_self]

variable {this cur q : Fin n} {x : EventId × Key} {when : Tick} {k : Key} {ev : Event}
  {c : Sim.Call n}

lemma Queued.mem_all_remove (h : Queued s a) (hmem : (e, k) ∈ a.pending this) :
    x ∈ (a.remove this e).all q ↔ x ∈ a.all q ∧ x.1 ≠ e := by
  rcases eq_or_ne q this with rfl | hne
  · have hnd := h.nodup q
    rw [Spec.all, List.map_append, List.nodup_append] at hnd
    have hwait : ∀ y ∈ a.waiting q, y.1 ≠ e := fun y hy heq =>
      hnd.2.2 e (List.mem_map.2 ⟨(e, k), hmem, rfl⟩) y.1 (List.mem_map_of_mem hy) heq.symm
    simp only [Spec.all, Spec.remove, update_self, List.mem_append, mem_remove]
    constructor
    · rintro (⟨hx, hxe⟩ | hx)
      · exact ⟨Or.inl hx, hxe⟩
      · exact ⟨Or.inr hx, hwait x hx⟩
    · rintro ⟨hx | hx, hxe⟩
      · exact Or.inl ⟨hx, hxe⟩
      · exact Or.inr hx
  · have hother : ∀ y ∈ a.all q, y.1 ≠ e := by
      rintro ⟨y, k'⟩ hy rfl
      exact hne (h.queue_unique hy (Spec.mem_all_of_pending hmem))
    have hall : (a.remove this e).all q = a.all q := by
      simp [Spec.all, Spec.remove, hne]
    rw [hall]
    exact ⟨fun hx => ⟨hx, hother x hx⟩, And.left⟩

lemma Refines.of_insert (h : ∀ x, x ≠ e → ((s.events x).scheduled ↔
      ∃ q k, (x, k) ∈ a.all q)) (hq : Queued s' a')
    (hall : ∀ q x, x ∈ a'.all q ↔ (q = this ∧ x = (e, k)) ∨ x ∈ a.all q)
    (hflags : ∀ x, x ≠ e → (s'.events x).scheduled = (s.events x).scheduled)
    (he : (s'.events e).scheduled) : Refines s' a' := by
  refine ⟨hq, fun x => ?_⟩
  rcases eq_or_ne x e with rfl | hne
  · exact ⟨fun _ => ⟨this, k, (hall _ _).2 (Or.inl ⟨rfl, rfl⟩)⟩, fun _ => he⟩
  · rw [hflags x hne, h x hne]
    constructor
    · rintro ⟨q, k', hk'⟩
      exact ⟨q, k', (hall _ _).2 (Or.inr hk')⟩
    · rintro ⟨q, k', hk'⟩
      rcases (hall _ _).1 hk' with ⟨-, heq⟩ | hk'
      · exact absurd (Prod.mk.inj heq).1 hne
      · exact ⟨q, k', hk'⟩

lemma Refines.of_remove (h : Refines s a) (hq : Queued s' a')
    (hall : ∀ q x, x ∈ a'.all q ↔ x ∈ a.all q ∧ x.1 ≠ e)
    (hflags : ∀ x, x ≠ e → (s'.events x).scheduled = (s.events x).scheduled)
    (he : (s'.events e).scheduled = false) : Refines s' a' := by
  refine ⟨hq, fun x => ?_⟩
  rcases eq_or_ne x e with rfl | hne
  · refine ⟨fun hx => absurd (he.symm.trans hx) (by simp), ?_⟩
    rintro ⟨q, k, hk⟩
    exact absurd rfl ((hall _ _).1 hk).2
  · rw [hflags x hne, h.scheduled x]
    constructor
    · rintro ⟨q, k, hk⟩
      exact ⟨q, k, (hall _ _).2 ⟨hk, hne⟩⟩
    · rintro ⟨q, k, hk⟩
      exact ⟨q, k, ((hall _ _).1 hk).1⟩

/-! ### Calls -/

namespace Sim

/-- What the assertions of a call ask for.  An event is removed from a queue only if it was
scheduled on this queue and is not waiting to be inserted. -/
def Call.Pre (s : Sim n) (cur : Fin n) : Call n → Prop
  | .schedule this e when _ => (s.queues this).curTick ≤ when ∧
      (s.events e).scheduled = false ∧ (s.events e).initialized
  | .deschedule this e => (s.events e).scheduled ∧ (s.events e).initialized ∧
      (s.inParallelMode → this = cur) ∧ (s.events e).queue = some this.val ∧
      e ∉ (s.queues this).asyncQueue
  | .reschedule this e when always => (s.queues this).curTick ≤ when ∧
      (always ∨ (s.events e).scheduled) ∧ (s.events e).initialized ∧
      (s.inParallelMode → this = cur) ∧
      ((s.events e).scheduled →
        (s.events e).queue = some this.val ∧ e ∉ (s.queues this).asyncQueue)
  | .squash _ => True

end Sim

/-- The queues keep their times. -/
def SameTime (s s' : Sim n) : Prop := ∀ q, (s'.queues q).curTick = (s.queues q).curTick

lemma SameTime.refl (s : Sim n) : SameTime s s := fun _ => rfl

lemma SameTime.trans {s'' : Sim n} (h : SameTime s s') (h' : SameTime s' s'') : SameTime s s'' :=
  fun q => (h' q).trans (h q)

lemma SameTime.setEvent (s : Sim n) (e : EventId) (ev : Event) : SameTime s (s.setEvent e ev) :=
  fun _ => rfl

lemma SameTime.setQueue {qu : Queue} (h : qu.curTick = (s.queues q).curTick) :
    SameTime s (s.setQueue q qu) := by
  intro q'
  rcases eq_or_ne q' q with rfl | hne
  · simp [Sim.setQueue, h]
  · simp [Sim.setQueue, hne]

lemma SameTime.relink (s : Sim n) (q : Fin n) (h : Heap) (head : Option EventId) :
    SameTime s (s.relink q h head) :=
  fun q' => setQueue (s := { s with events := h }) (by rfl) q'

/-- Only the flags of the event `e` change. -/
def SameFlags (e : EventId) (s s' : Sim n) : Prop :=
  ∀ x, x ≠ e → (s'.events x).flags = (s.events x).flags

lemma Refines.mem_pending (h : Refines s a)
    (hsched : (s.events e).scheduled) (hq : (s.events e).queue = some this.val)
    (hwait : e ∉ (s.queues this).asyncQueue) : ∃ k, (e, k) ∈ a.pending this := by
  obtain ⟨q, k, hk⟩ := (h.scheduled e).1 hsched
  have hqe := (h.entry q _ hk).2
  obtain rfl : q = this := Fin.ext (Option.some.inj (hqe.symm.trans hq))
  rcases List.mem_append.1 hk with hk | hk
  · exact ⟨k, hk⟩
  · rw [h.async q] at hwait
    exact absurd (List.mem_map.2 ⟨(e, k), hk, rfl⟩) hwait

lemma Sim.setEvent_self (s : Sim n) (e : EventId) (ev : Event) :
    (s.setEvent e ev).events e = ev := by
  simp [setEvent]

lemma Sim.setEvent_of_ne (s : Sim n) {e x : EventId} (hx : x ≠ e) (ev : Event) :
    (s.setEvent e ev).events x = s.events x := by
  simp [setEvent, hx]

lemma Sim.setEvent_congr {β : Type} (f : Event → β) (h : f ev = f (s.events e)) (x : EventId) :
    f ((s.setEvent e ev).events x) = f (s.events x) := by
  rcases eq_or_ne x e with rfl | hne
  · rw [setEvent_self, h]
  · rw [setEvent_of_ne _ hne]

/-- Putting an event that is in no queue into one: the common end of `schedule` and
`reschedule`. -/
lemma Queued.setWhen_insert (h : Queued s a) (habs : a.Absent e) (this : Fin n) (when : Tick) :
    ∃ s', Returns (fun fuel => (s.setEvent e ((s.events e).setWhen when this)).insert fuel this e)
        (.ok s') ∧
      Queued s' (a.insert this e (toLex (when, a.priority e))) ∧ SameTime s s' ∧
      (∀ x, (s'.events x).flags = (s.events x).flags) := by
  have h1 : Queued (s.setEvent e ((s.events e).setWhen when this)) a :=
    h.setEvent (Or.inl ⟨habs, rfl⟩)
  have hev : (s.setEvent e ((s.events e).setWhen when this)).events e
      = (s.events e).setWhen when this := setEvent_self ..
  have hkey : ((s.setEvent e ((s.events e).setWhen when this)).events e).key
      = toLex (when, a.priority e) := by
    rw [hev, ← h.priority]
    rfl
  obtain ⟨h', head', hret, hq, hrel⟩ := h1.insert habs (by rw [hev]; rfl)
  rw [hkey] at hq
  refine ⟨_, insert_returns hret, hq,
    (SameTime.setEvent _ _ _).trans (SameTime.relink _ _ _ _),
    fun x => (hrel.flags x).trans (setEvent_congr flags (by rfl) x)⟩

lemma Event.scheduled_congr {ev' : Event} (h : ev'.flags = ev.flags) :
    ev'.scheduled = ev.scheduled := by
  rw [scheduled, scheduled, h]

lemma Event.squashed_congr {ev' : Event} (h : ev'.flags = ev.flags) :
    ev'.squashed = ev.squashed := by
  rw [squashed, squashed, h]

lemma Refines.setScheduled {s2 : Sim n} {a2 : Spec n}
    (h : ∀ x, x ≠ e → ((s.events x).scheduled ↔ ∃ q k, (x, k) ∈ a.all q))
    (hq : Queued s2 a2) (hall : ∀ q x, x ∈ a2.all q ↔ (q = this ∧ x = (e, k)) ∨ x ∈ a.all q)
    (hflags : ∀ x, (s2.events x).flags = (s.events x).flags)
    (hlinks : SameLinks (s2.events e) ev) (hev : ev.scheduled) :
    Refines (s2.setEvent e ev) a2 := by
  refine Refines.of_insert h (hq.setEvent (Or.inr hlinks)) hall (fun x hx => ?_) ?_
  · rw [setEvent_of_ne _ hx]
    exact scheduled_congr (hflags x)
  · rwa [setEvent_self]

lemma Sim.schedule_eq {global : Bool}
    (hpre : (Sim.Call.schedule this e when global).Pre s cur) (fuel : ℕ) :
    s.schedule fuel cur this e when global =
      let s1 := s.setEvent e ((s.events e).setWhen when this)
      let s2 := s1.asyncInsert this e
      if s.inParallelMode && (this != cur || global) then
        .ok (s2.setEvent e ((s2.events e).setFlags EventBase.scheduled))
      else s1.insert fuel this e >>= fun s2 =>
        .ok (s2.setEvent e ((s2.events e).setFlags EventBase.scheduled)) := by
  obtain ⟨htime, hsched, hinit⟩ := hpre
  simp only [schedule, require, htime, hsched, hinit, decide_true, Bool.not_false, if_true]
  rfl

lemma Refines.schedule (h : Refines s a) {global : Bool}
    (hpre : (Sim.Call.schedule this e when global).Pre s cur) :
    ∃ s', Returns (fun fuel => s.schedule fuel cur this e when global) (.ok s') ∧
      Refines s' (a.call cur (.schedule this e when global)) ∧ SameTime s s' ∧
      SameFlags e s s' ∧ (s'.events e).squashed = (s.events e).squashed := by
  have habs := h.absent hpre.2.1
  have heq := schedule_eq hpre
  have hcall := congrArg (fun b => b && (this != cur || global)) h.mode
  by_cases hasync : (a.parallel && (this != cur || global))
  · -- the event is handed over
    let s₁ := s.setEvent e ((s.events e).setWhen when this)
    have hq : Queued s₁ a := h.setEvent (Or.inl ⟨habs, rfl⟩)
    have hkey : (s₁.events e).key = toLex (when, a.priority e) := by
      rw [setEvent_self, ← h.priority]
      rfl
    have hflags : ∀ x, (s₁.events x).flags = (s.events x).flags := setEvent_congr flags rfl
    have hqueue : (s₁.events e).queue = some this.val := by
      rw [setEvent_self]
      rfl
    have hq2 := hq.asyncInsert habs hqueue
    rw [hkey] at hq2
    simp only [hcall, hasync, if_true] at heq
    rw [Spec.call, if_pos hasync]
    refine ⟨_, Returns.of_forall heq, ?_, ?_, fun x hx => ?_, ?_⟩
    · exact Refines.setScheduled (fun x _ => h.scheduled x) hq2 (fun _ _ => mem_all_handOver)
        hflags (setFlags _ _) (scheduled_setFlags_scheduled _)
    · exact (SameTime.setEvent _ _ _).trans
        ((SameTime.setQueue (by rfl)).trans (SameTime.setEvent _ _ _))
    · rw [setEvent_of_ne _ hx]
      exact hflags x
    · rw [setEvent_self, squashed_setFlags_scheduled]
      exact squashed_congr (hflags e)
  · obtain ⟨s2, hret, hq2, ht, hflags⟩ := h.setWhen_insert habs this when
    simp only [hcall, hasync] at heq
    rw [Spec.call, if_neg hasync]
    refine ⟨_, Returns.congr (hret.map _) heq, ?_, ?_, fun x hx => ?_, ?_⟩
    · exact Refines.setScheduled (fun x _ => h.scheduled x) hq2 (fun _ _ => mem_all_insert)
        hflags (setFlags _ _) (scheduled_setFlags_scheduled _)
    · exact ht.trans (SameTime.setEvent _ _ _)
    · rw [setEvent_of_ne _ hx]
      exact hflags x
    · rw [setEvent_self, squashed_setFlags_scheduled]
      exact squashed_congr (hflags e)

lemma modeAssertion :
    (!s.inParallelMode || this == cur) ↔ (s.inParallelMode → this = cur) := by
  cases s.inParallelMode <;> simp

lemma Refines.deschedule (h : Refines s a) (hpre : (Sim.Call.deschedule this e).Pre s cur) :
    ∃ s', Returns (fun fuel => s.deschedule fuel cur this e) (.ok s') ∧
      Refines s' (a.call cur (.deschedule this e)) ∧ SameTime s s' ∧ SameFlags e s s' := by
  obtain ⟨hsched, hinit, hmode, hqueue, hwait⟩ := hpre
  obtain ⟨k, hk⟩ := h.mem_pending hsched hqueue hwait
  obtain ⟨h', head', hret, hq, hrel⟩ := h.remove hk
  have heq : ∀ fuel, s.deschedule fuel cur this e = s.remove fuel this e >>= fun s1 =>
      .ok (s1.setEvent e (((s1.events e).clearFlags EventBase.squashed).clearFlags
        EventBase.scheduled).release) := by
    simp only [Sim.deschedule, require, hsched, hinit, modeAssertion.2 hmode, if_true]
    exact fun _ => rfl
  refine ⟨_, Returns.congr (hret.map _) heq, ?_,
    (SameTime.relink _ _ _ _).trans (SameTime.setEvent _ _ _), fun x hx => ?_⟩
  swap
  · rw [setEvent_of_ne _ hx]
    exact hrel.flags x
  have hlinks := SameLinks.release ((((s.relink this h' head').events e).clearFlags
    EventBase.squashed).clearFlags EventBase.scheduled)
  refine h.of_remove (hq.setEvent (Or.inr ?_)) (fun _ _ => h.mem_all_remove hk) (fun x hx => ?_) ?_
  · exact ⟨hlinks.nextBin, hlinks.nextInBin, hlinks.key, hlinks.queue⟩
  · rw [setEvent_of_ne _ hx]
    exact scheduled_congr (hrel.flags x)
  · rw [setEvent_self, scheduled_release, scheduled_clearFlags_scheduled]

lemma Sim.reschedule_eq {always : Bool}
    (hpre : (Sim.Call.reschedule this e when always).Pre s cur) (fuel : ℕ) :
    s.reschedule fuel cur this e when always =
      (if (s.events e).scheduled then s.remove fuel this e else .ok s) >>= fun s1 =>
        (s1.setEvent e ((s1.events e).setWhen when this)).insert fuel this e >>= fun s2 =>
          .ok (s2.setEvent e (((s2.events e).clearFlags EventBase.squashed).setFlags
            EventBase.scheduled)) := by
  obtain ⟨htime, halways, hinit, hmode, -⟩ := hpre
  have halways' : (always || (s.events e).scheduled) := by simpa using halways
  simp only [reschedule, require, htime, halways', hinit, modeAssertion.2 hmode, decide_true,
    if_true]
  cases (s.events e).scheduled <;> rfl

lemma Refines.reschedule (h : Refines s a) {always : Bool}
    (hpre : (Sim.Call.reschedule this e when always).Pre s cur) :
    ∃ s', Returns (fun fuel => s.reschedule fuel cur this e when always) (.ok s') ∧
      Refines s' (a.call cur (.reschedule this e when always)) ∧ SameTime s s' ∧
      SameFlags e s s' := by
  have heq := reschedule_eq hpre
  obtain ⟨-, -, -, -, hqueue⟩ := hpre
  -- the state in which the event is in no queue
  obtain ⟨s1, hret1, hq1, ht1, hflags1, habs, hsched1⟩ : ∃ s1, Returns (fun fuel =>
      if (s.events e).scheduled then s.remove fuel this e else .ok s) (.ok s1) ∧
      Queued s1 (a.remove this e) ∧ SameTime s s1 ∧
      (∀ x, (s1.events x).flags = (s.events x).flags) ∧ (a.remove this e).Absent e ∧
      ∀ x, x ≠ e → ((s.events x).scheduled ↔ ∃ q k, (x, k) ∈ (a.remove this e).all q) := by
    rcases hsched : (s.events e).scheduled with _ | _
    · have habs := h.absent hsched
      rw [remove_of_absent habs]
      exact ⟨s, Returns.of_forall fun _ => rfl, h.toQueued, SameTime.refl s, fun _ => rfl, habs,
        fun x _ => h.scheduled x⟩
    · obtain ⟨k, hk⟩ := h.mem_pending hsched (hqueue hsched).1 (hqueue hsched).2
      obtain ⟨h', head', hret, hq, hrel⟩ := h.remove hk
      have hmem := fun {q x} => h.mem_all_remove hk (q := q) (x := x)
      refine ⟨_, hret, hq, SameTime.relink _ _ _ _, hrel.flags, ?_, fun x hx => ?_⟩
      · exact fun q k' hk' => (hmem.1 hk').2 rfl
      · rw [h.scheduled x]
        constructor
        · rintro ⟨q, k', hk'⟩
          exact ⟨q, k', hmem.2 ⟨hk', hx⟩⟩
        · rintro ⟨q, k', hk'⟩
          exact ⟨q, k', (hmem.1 hk').1⟩
  obtain ⟨s2, hret2, hq2, ht2, hflags2⟩ := hq1.setWhen_insert habs this when
  refine ⟨_, Returns.congr (hret1.bind (hret2.map _)) heq, ?_,
    ht1.trans (ht2.trans (SameTime.setEvent _ _ _)), fun x hx => ?_⟩
  · exact Refines.setScheduled hsched1 hq2 (fun _ _ => mem_all_insert)
      (fun x => (hflags2 x).trans (hflags1 x)) ⟨rfl, rfl, rfl, rfl⟩
      (scheduled_setFlags_scheduled _)
  · rw [setEvent_of_ne _ hx]
    exact (hflags2 x).trans (hflags1 x)

/-- An event changes, but neither its links nor whether it is scheduled. -/
lemma Refines.same (h : Refines s a) (hlinks : SameLinks (s.events e) ev)
    (hev : ev.scheduled = (s.events e).scheduled) : Refines (s.setEvent e ev) a :=
  ⟨h.setEvent (Or.inr hlinks), fun x => by rw [setEvent_congr Event.scheduled hev, h.scheduled]⟩

lemma Refines.squash (h : Refines s a) (e : EventId) : Refines (s.squash e) a :=
  h.same (setFlags _ _) (scheduled_setFlags_squashed _)

/-- A call whose assertions hold returns, and does what it does to the abstract queues. -/
lemma Refines.call (h : Refines s a) (hpre : c.Pre s cur) :
    ∃ s', Returns (fun fuel => s.call fuel cur c) (.ok s') ∧ Refines s' (a.call cur c) ∧
      SameTime s s' ∧ SameFlags c.event s s' := by
  cases c with
  | schedule this e when global =>
    obtain ⟨s', hret, href, ht, hflags, -⟩ := h.schedule hpre
    exact ⟨s', hret, href, ht, hflags⟩
  | deschedule this e => exact h.deschedule hpre
  | reschedule this e when always => exact h.reschedule hpre
  | squash e =>
    refine ⟨_, Returns.of_forall fun _ => rfl, h.squash e, SameTime.setEvent _ _ _,
      fun x (hx : x ≠ e) => ?_⟩
    rw [Sim.squash, Sim.setEvent_of_ne _ hx]

lemma Queued.mem_pending_of_remove (h : Queued s a) {fuel : ℕ}
    (hrem : s.remove fuel this e = .ok s') :
    (s.events e).queue = some this.val ∧ e ∉ (s.queues this).asyncQueue := by
  by_cases hmem : ∃ k, (e, k) ∈ a.pending this
  · obtain ⟨k, hk⟩ := hmem
    refine ⟨(h.entry this _ (mem_all_of_pending hk)).2, fun hwait => ?_⟩
    have hnd := h.nodup this
    rw [all, List.map_append, List.nodup_append] at hnd
    rw [h.async this] at hwait
    exact hnd.2.2 e (List.mem_map.2 ⟨(e, k), hk, rfl⟩) e hwait rfl
  · obtain ⟨err, herr⟩ := h.remove_fault (fun k hk => hmem ⟨k, hk⟩) fuel
    exact absurd (herr.symm.trans hrem) (by simp)

lemma Refines.pre_of_ok (h : Refines s a) {fuel : ℕ}
    (hok : s.call fuel cur c = .ok s') : c.Pre s cur := by
  cases c with
  | schedule this e when global =>
    simp only [Sim.call, Sim.schedule, bind_eq_ok, require_eq_ok] at hok
    obtain ⟨-, htime, -, hsched, -, hinit, -⟩ := hok
    exact ⟨of_decide_eq_true htime, by simpa using hsched, hinit⟩
  | deschedule this e =>
    simp only [Sim.call, Sim.deschedule, bind_eq_ok, require_eq_ok] at hok
    obtain ⟨-, hsched, -, hinit, -, hmode, s1, hrem, -⟩ := hok
    exact ⟨hsched, hinit, modeAssertion.1 hmode, h.mem_pending_of_remove hrem⟩
  | reschedule this e when always =>
    simp only [Sim.call, Sim.reschedule, bind_eq_ok, require_eq_ok] at hok
    obtain ⟨-, htime, -, halways, -, hinit, -, hmode, hrest⟩ := hok
    refine ⟨of_decide_eq_true htime, by simpa using halways, hinit, modeAssertion.1 hmode, ?_⟩
    intro hsched
    simp only [hsched, if_true, bind_eq_ok] at hrest
    obtain ⟨s1, hrem, -⟩ := hrest
    exact h.mem_pending_of_remove hrem
  | squash e => trivial

lemma Refines.call_returns_iff (h : Refines s a) :
    (∃ s', Returns (fun fuel => s.call fuel cur c) (.ok s')) ↔ c.Pre s cur := by
  constructor
  · rintro ⟨s', N, hN⟩
    exact h.pre_of_ok (hN N le_rfl)
  · intro hpre
    obtain ⟨s', hret, -⟩ := h.call hpre
    exact ⟨s', hret⟩

/-! ### Servicing -/

lemma Spec.serve_of_next (h : next? (a.pending q) = some x) : a.serve q = a.remove q x.1 := by
  rw [serve, h]

lemma mem_of_next? {l : List (EventId × Key)} (h : next? l = some x) : x ∈ l := by
  obtain ⟨newer, older, rfl, -, -⟩ := next?_eq_some_iff.1 h
  simp

lemma Refines.popHead (h : Refines s a) (hnext : next? (a.pending q) = some x) :
    ∃ s', s.popHead q = .ok (s', x.1) ∧ Refines s' (a.serve q) ∧ SameTime s s' ∧
      (∀ y, (s'.events y).key = (s.events y).key) ∧
      ∀ y, (s'.events y).squashed = (s.events y).squashed := by
  have hlinks := SameLinks.clearFlags (s.events x.1) EventBase.scheduled
  let s₁ := s.setEvent x.1 ((s.events x.1).clearFlags EventBase.scheduled)
  have hq : Queued s₁ a := h.setEvent (Or.inr hlinks)
  obtain ⟨hhead, h', head', heq, hq', hrel⟩ := hq.popLinks hnext
  have hhead' : (s.queues q).head = some x.1 := hhead
  rw [serve_of_next hnext]
  refine ⟨s₁.relink q h' head', ?_, ?_, (SameTime.setEvent _ _ _).trans (SameTime.relink _ _ _ _),
    fun y => (hrel.key y).trans (setEvent_congr key (by rfl) y), fun y => (squashed_congr
      (hrel.flags y)).trans (setEvent_congr squashed (squashed_clearFlags_scheduled _) y)⟩
  · rw [Sim.popHead, hhead', ← heq]
  · refine h.of_remove hq' (fun _ _ => h.mem_all_remove (mem_of_next? hnext)) (fun y hy => ?_) ?_
    · refine (scheduled_congr (hrel.flags y)).trans ?_
      rw [setEvent_of_ne _ hy]
    · refine (scheduled_congr (hrel.flags x.1)).trans ?_
      rw [setEvent_self, scheduled_clearFlags_scheduled]

lemma Refines.popHead_empty (h : Refines s a) (hnone : next? (a.pending q) = none) :
    s.popHead q = .error (.undefined "head->nextInBin") := by
  have hrep := h.links q
  rw [next?_eq_head?_sorted, List.head?_eq_none_iff] at hnone
  rw [hnone] at hrep
  rcases hq : (s.queues q).head with _ | hd
  · rw [Sim.popHead, hq]
  · rw [hq] at hrep
    obtain ⟨l', hl', -⟩ := hrep.pop (by simp)
    simp at hl'

lemma Refines.startService (h : Refines s a) (q : Fin n) (e : EventId) :
    Refines (s.startService q e) a := by
  rw [Sim.startService]
  split
  · exact h.same (clearFlags _ _) (scheduled_clearFlags_squashed _)
  · exact ⟨h.setCurTick q _, h.scheduled⟩

lemma Refines.release (h : Refines s a) (e : EventId) : Refines (s.release e) a :=
  h.same (SameLinks.release _) (scheduled_release _)

/-! ### Asynchronous insertions -/

lemma Queued.handleAsyncLoop (h : Queued s a) {l : List (EventId × Key)} (hw : a.waiting q = l) :
    ∃ s', Returns (fun fuel => Sim.handleAsyncLoop fuel q (l.map Prod.fst) s) (.ok s') ∧
      Queued s' (a.merge q) ∧ SameTime s s' ∧
      ∀ x, (s'.events x).flags = (s.events x).flags := by
  induction l generalizing s a with
  | nil =>
    have hmerge : a.merge q = a := by
      rw [merge, hw, List.reverse_nil, List.nil_append, ← hw, update_eq_self,
        update_eq_self]
    rw [hmerge]
    exact ⟨s, Returns.of_forall fun _ => rfl, h, SameTime.refl s, fun _ => rfl⟩
  | cons x rest ih =>
    obtain ⟨h', head', hret, hq, hrel⟩ := h.insertWaiting hw
    obtain ⟨s', hret', hq', ht', hflags'⟩ := ih hq (by simp)
    refine ⟨s', hret.bind hret', ?_,
      (SameTime.relink _ _ _ _).trans ((SameTime.setQueue (by rfl)).trans ht'),
      fun y => (hflags' y).trans (hrel.flags y)⟩
    convert hq' using 1
    simp [merge, hw]

lemma Refines.handleAsyncInsertions (h : Refines s a) (q : Fin n) :
    ∃ s', Returns (fun fuel => s.handleAsyncInsertions fuel q) (.ok s') ∧
      Refines s' (a.merge q) ∧ SameTime s s' ∧
      ∀ x, (s'.events x).flags = (s.events x).flags := by
  obtain ⟨s', hret, hq, ht, hflags⟩ := h.handleAsyncLoop rfl
  rw [← h.async q] at hret
  refine ⟨s', hret, ⟨hq, fun e => ?_⟩, ht, hflags⟩
  rw [scheduled_congr (hflags e), h.scheduled e]
  have hall : ∀ q' x, x ∈ (a.merge q).all q' ↔ x ∈ a.all q' := by
    intro q' x
    rcases eq_or_ne q' q with rfl | hne
    · simp [all, merge, or_comm]
    · simp [all, merge, hne]
  simp only [hall]

end ChipletGem5.EventQueue
