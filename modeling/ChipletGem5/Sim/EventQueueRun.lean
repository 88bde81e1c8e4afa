import ChipletGem5.Sim.EventQueueRefines

/-!
# Runs of event queues

A run is any sequence of calls and of services of events.  `serviceOne` is split at its call of
the handler, so that the calls which a handler makes are steps of the run like all others; the
lemma `serviceOne_run` puts the parts together again.

Along every run the linked lists of the queues are stable priority queues, and the time of a
queue does not go back as long as nothing is inserted asynchronously.
-/

namespace ChipletGem5.EventQueue

open LifoQueue Spec Returns Sim Except

variable {n : ℕ}

/-! ### Runs -/

/-- The steps of the threads. -/
inductive Action (n : ℕ) where
  /-- A call of the thread whose current queue is `cur`. -/
  | call (cur : Fin n) (c : Sim.Call n)
  /-- `serviceOne` on a queue, up to the handler of the event. -/
  | take (q : Fin n)
  /-- The end of `serviceOne`, behind the handler. -/
  | release (e : EventId)
  /-- `handleAsyncInsertions` on a queue. -/
  | handleAsyncInsertions (q : Fin n)
deriving DecidableEq, Repr

def Action.exec (fuel : ℕ) (s : Sim n) : Action n → Result (Sim n)
  | .call cur c => s.call fuel cur c
  | .take q => do
      let (s, e) ← s.popHead q
      return s.startService q e
  | .release e => .ok (s.release e)
  | .handleAsyncInsertions q => s.handleAsyncInsertions fuel q

/-- A run: each step returns. -/
inductive Run : Sim n → List (Action n) → Sim n → Prop
  | nil (s : Sim n) : Run s [] s
  | snoc {s s₁ s' : Sim n} {acts : List (Action n)} {act : Action n} (hrun : Run s acts s₁)
      (hret : Returns (fun fuel => act.exec fuel s₁) (.ok s')) : Run s (acts ++ [act]) s'

/-- No event is scheduled. -/
structure Sim.Idle (s : Sim n) : Prop where
  head : ∀ q, (s.queues q).head = none
  async : ∀ q, (s.queues q).asyncQueue = []
  events : ∀ e, (s.events e).scheduled = false

namespace Spec

/-- The abstract queues of an idle simulation. -/
def initial (s : Sim n) : Spec n :=
  ⟨fun e => (s.events e).priority, s.inParallelMode, fun _ => [], fun _ => []⟩

def step (a : Spec n) : Action n → Spec n
  | .call cur c => a.call cur c
  | .take q => a.serve q
  | .release _ => a
  | .handleAsyncInsertions q => a.merge q

/-- A run of the abstract queues. -/
def run (a : Spec n) (acts : List (Action n)) : Spec n := acts.foldl step a

lemma run_snoc (a : Spec n) (acts : List (Action n)) (act : Action n) :
    a.run (acts ++ [act]) = (a.run acts).step act := by
  simp [run]

end Spec

variable {s s' s₀ : Sim n} {a : Spec n} {acts : List (Action n)}

lemma Sim.Idle.refines (h : s.Idle) : Refines s (Spec.initial s) where
  mode := rfl
  priority _ := rfl
  links q := by
    rw [h.head q]
    exact Represents.nil _
  async q := h.async q
  entry q x hx := by simp [all, initial] at hx
  nodup q := by simp [all, initial]
  scheduled e := by simp [h.events e, all, initial]

variable {q cur : Fin n} {act : Action n} {s₁ : Sim n} {e : EventId}

lemma Refines.take (h : Refines s a) {fuel : ℕ} (hok : (Action.take q).exec fuel s = .ok s') :
    ∃ x, next? (a.pending q) = some x ∧ Refines s' (a.serve q) ∧
      (∀ q', q' ≠ q → (s'.queues q').curTick = (s.queues q').curTick) ∧
      (s'.queues q).curTick
        = (if (s.events x.1).squashed then (s.queues q).curTick else (ofLex x.2).1) ∧
      ∀ y, (s.events y).squashed = false → (s'.events y).squashed = false := by
  rcases hnext : next? (a.pending q) with _ | x
  · rw [Action.exec, h.popHead_empty hnext] at hok
    simp at hok
  · obtain ⟨s₁, hpop, href, ht, hkey, hsq⟩ := h.popHead hnext
    rw [Action.exec, hpop] at hok
    cases hok
    refine ⟨x, rfl, href.startService q x.1, fun q' hne => ?_, ?_, fun y hy => ?_⟩
    · rw [← ht q', Sim.startService]
      split
      · rfl
      · simp [setQueue, hne]
    · rw [Sim.startService, ← hsq x.1]
      split
      · exact ht q
      · have hx := (h.entry q x (mem_all_of_pending (mem_of_next? hnext))).1
        rw [← hx, ← hkey x.1]
        simp [setQueue, Event.key]
    · rw [← hsq y] at hy
      rw [Sim.startService]
      split
      · rcases eq_or_ne y x.1 with rfl | hne
        · rw [setEvent_self]
          exact Flags.isSet_clear_self _ _
        · rwa [setEvent_of_ne _ hne]
      · exact hy

lemma Refines.step (h : Refines s a)
    (hret : Returns (fun fuel => act.exec fuel s) (.ok s')) : Refines s' (a.step act) := by
  cases act with
  | call cur c =>
    obtain ⟨s₁, hret1, href, -⟩ := h.call (h.call_returns_iff.1 ⟨s', hret⟩)
    cases hret1.unique hret
    exact href
  | take q =>
    obtain ⟨N, hN⟩ := hret
    obtain ⟨x, -, href, -⟩ := h.take (hN N le_rfl)
    exact href
  | release e =>
    cases (of_forall fun _ => rfl).unique hret
    exact h.release e
  | handleAsyncInsertions q =>
    obtain ⟨s₁, hret1, href, -⟩ := h.handleAsyncInsertions q
    cases hret1.unique hret
    exact href

lemma Run.refines (h : Refines s a) (hrun : Run s acts s') : Refines s' (a.run acts) := by
  induction hrun with
  | nil => exact h
  | snoc _ hret ih =>
    rw [run_snoc]
    exact ih.step hret

/-! ### Whole services -/

lemma Run.append {acts' : List (Action n)} (h : Run s acts s₁)
    (h' : Run s₁ acts' s') : Run s (acts ++ acts') s' := by
  induction h' with
  | nil => simpa using h
  | snoc _ hret ih =>
    rw [← List.append_assoc]
    exact ih.snoc hret

lemma Run.single (h : Returns (fun fuel => act.exec fuel s) (.ok s')) :
    Run s [act] s' := (Run.nil s).snoc h

/-- The handler of an event, made of calls. -/
def handlerActions (cur : Fin n) (handler : List (Sim.Call n)) : List (Action n) :=
  handler.map (Action.call cur)

lemma Refines.calls (h : Refines s a) (cur : Fin n) (handler : List (Sim.Call n)) :
    (∃ s', Returns (fun fuel => s.calls fuel cur handler) (.ok s') ∧
      Run s (handlerActions cur handler) s') ∨
    ∃ N, ∀ fuel, N ≤ fuel → ∃ err, s.calls fuel cur handler = .error err := by
  induction handler generalizing s a with
  | nil => exact Or.inl ⟨s, of_forall fun _ => rfl, Run.nil s⟩
  | cons c cs ih =>
    by_cases hpre : c.Pre s cur
    · obtain ⟨s₁, hret, href, -⟩ := h.call hpre
      rcases ih href with ⟨s', hret', hrun⟩ | ⟨N, hN⟩
      · exact Or.inl ⟨s', hret.bind hret', (Run.single hret : Run s [.call cur c] s₁).append hrun⟩
      · obtain ⟨M, hM⟩ := hret
        refine Or.inr ⟨max M N, fun fuel hfuel => ?_⟩
        obtain ⟨err, herr⟩ := hN fuel (le_of_max_le_right hfuel)
        have hcall : s.call fuel cur c = .ok s₁ := hM fuel (le_of_max_le_left hfuel)
        exact ⟨err, by rw [calls, hcall]; exact herr⟩
    · refine Or.inr ⟨0, fun fuel _ => ?_⟩
      rcases hcall : s.call fuel cur c with err | s₁
      · exact ⟨err, by rw [calls, hcall]; rfl⟩
      · exact absurd (h.pre_of_ok hcall) hpre

lemma Refines.calls_cons (h : Refines s a) {c : Sim.Call n} {cs : List (Sim.Call n)}
    (hret : Returns (fun fuel => s.calls fuel cur (c :: cs)) (.ok s')) :
    c.Pre s cur ∧ ∀ s₁, Returns (fun fuel => s.call fuel cur c) (.ok s₁) →
      Returns (fun fuel => s₁.calls fuel cur cs) (.ok s') := by
  obtain ⟨N, hN⟩ := hret
  refine ⟨?_, fun s₁ ⟨M, hM⟩ => ⟨max N M, fun fuel hfuel => ?_⟩⟩
  · have hok := hN N le_rfl
    simp only [Sim.calls, bind_eq_ok] at hok
    obtain ⟨s₁, hcall, -⟩ := hok
    exact h.pre_of_ok hcall
  · have hok := hN fuel (le_of_max_le_left hfuel)
    have hcall : s.call fuel cur c = .ok s₁ := hM fuel (le_of_max_le_right hfuel)
    simp only [Sim.calls, hcall] at hok
    exact hok

/-- A call of `serviceOne` that returns is a run: the event is taken, its handler makes its
calls unless the event was squashed, and the event is released unless it ends the
simulation. -/
lemma Refines.serviceOne_run (h : Refines s a) {handler : List (Sim.Call n)} {r : Option EventId}
    (hret : Returns (fun fuel => s.serviceOne fuel q handler) (.ok (s', r))) :
    ∃ e, Run s [.take q, .release e] s' ∨ Run s ([.take q] ++ handlerActions q handler) s' ∨
      Run s ([.take q] ++ handlerActions q handler ++ [.release e]) s' := by
  rcases hnext : next? (a.pending q) with _ | x
  · obtain ⟨N, hN⟩ := hret
    have hfault := hN N le_rfl
    simp only [serviceOne, h.popHead_empty hnext] at hfault
    simp at hfault
  obtain ⟨s₁, hpop, href, -⟩ := h.popHead hnext
  have htake : Run s [.take q] (s₁.startService q x.1) := by
    refine Run.single (of_forall fun fuel => ?_)
    rw [Action.exec, hpop]
    rfl
  have hrelease : ∀ t : Sim n, Run t [.release x.1] (t.release x.1) := fun t =>
    Run.single (of_forall fun _ => rfl)
  refine ⟨x.1, ?_⟩
  by_cases hsq : (s₁.events x.1).squashed
  · left
    obtain ⟨N, hN⟩ := hret
    have hok := hN N le_rfl
    simp only [serviceOne, hpop] at hok
    simp only [ok_bind, hsq, if_true] at hok
    cases hok
    exact htake.append (hrelease _)
  · right
    obtain ⟨N, hN⟩ := hret
    rcases (href.startService q x.1).calls q handler with ⟨t, hcalls, hrun⟩ | ⟨M, hM⟩
    · obtain ⟨M, hM⟩ := hcalls
      have hok := hN (max N M) (le_max_left N M)
      have hcall : (s₁.startService q x.1).calls (max N M) q handler = .ok t :=
        hM (max N M) (le_max_right N M)
      simp only [serviceOne, hpop] at hok
      simp only [ok_bind, hsq, hcall, Bool.false_eq_true, if_false] at hok
      split at hok
      · obtain ⟨-, -, hok⟩ := bind_eq_ok.1 hok
        cases hok
        exact Or.inl (htake.append hrun)
      · cases hok
        exact Or.inr ((htake.append hrun).append (hrelease t))
    · obtain ⟨err, herr⟩ := hM (max N M) (le_max_right N M)
      have hok := hN (max N M) (le_max_left N M)
      simp only [serviceOne, hpop] at hok
      simp [hsq, herr] at hok

/-! ### Stable priority queues -/

/-- The linked lists of the event queues are priority queues that hold `pending`, the latest
insertion first, and serve the latest of equal events. -/
structure StablePriorityQueues (s : Sim n) (pending : Fin n → List (EventId × Key)) : Prop where
  /-- The bins hold the events of `pending`, in the order of service. -/
  represents : ∀ q, Represents s.events (s.queues q).head ((sorted (pending q)).map Prod.fst)
  /-- Each is there under its own time and priority. -/
  key : ∀ q, ∀ x ∈ pending q, (s.events x.1).key = x.2
  /-- They are exactly the scheduled events, apart from those that still wait for
  `handleAsyncInsertions`; there are none of these outside of parallel mode. -/
  scheduled : ∀ e, (s.events e).scheduled ↔
    ∃ q, (∃ k, (e, k) ∈ pending q) ∨ e ∈ (s.queues q).asyncQueue
  sequential : s.inParallelMode = false → ∀ q, (s.queues q).asyncQueue = []
  /-- `serviceOne` removes an event unless there is none. -/
  serves : ∀ q, pending q ≠ [] → ∃ s' e, s.popHead q = .ok (s', e)
  /-- This event is minimal, and all events inserted after it are larger. -/
  minimal : ∀ q s' e, s.popHead q = .ok (s', e) → ∃ newer k older,
    pending q = newer ++ (e, k) :: older ∧ (∀ y ∈ newer, k < y.2) ∧ ∀ y ∈ older, k ≤ y.2
  /-- Every call whose assertions hold returns; no removal of a scheduled event panics. -/
  returns : ∀ cur c, Sim.Call.Pre s cur c → ∃ s', Returns (fun fuel => s.call fuel cur c) (.ok s')

/-- Outside of parallel mode no event waits for `handleAsyncInsertions`. -/
lemma Spec.step_waiting (a : Spec n) (act : Action n) : (a.step act).parallel = a.parallel ∧
    (a.parallel = false → (∀ q, a.waiting q = []) → ∀ q, (a.step act).waiting q = []) := by
  cases act with
  | call cur c =>
    cases c with
    | schedule this e when global =>
      rw [step, call]
      split
      next hpar => exact ⟨rfl, fun h => by simp [h] at hpar⟩
      next => exact ⟨rfl, fun _ hw => hw⟩
    | deschedule _ _ | reschedule _ _ _ _ | squash _ => exact ⟨rfl, fun _ hw => hw⟩
  | take q =>
    rw [step, serve]
    split <;> exact ⟨rfl, fun _ hw => hw⟩
  | release e => exact ⟨rfl, fun _ hw => hw⟩
  | handleAsyncInsertions q' =>
    refine ⟨rfl, fun _ hw q => ?_⟩
    rcases eq_or_ne q q' with rfl | hne
    · simp [step, merge]
    · simpa [step, merge, hne] using hw q

lemma Spec.run_waiting (a : Spec n) (acts : List (Action n)) :
    (a.run acts).parallel = a.parallel ∧
      (a.parallel = false → (∀ q, a.waiting q = []) → ∀ q, (a.run acts).waiting q = []) := by
  induction acts generalizing a with
  | nil => exact ⟨rfl, fun _ hw => hw⟩
  | cons act acts ih =>
    obtain ⟨hpar, hwait⟩ := step_waiting a act
    obtain ⟨hpar', hwait'⟩ := ih (a.step act)
    exact ⟨hpar'.trans hpar, fun h hw => hwait' (hpar.trans h) (hwait h hw)⟩

/-- Every state of every run from an idle simulation: the event queues are stable priority
queues whose contents are those of the abstract queues. -/
theorem run_stablePriorityQueues (hidle : s₀.Idle) (hrun : Run s₀ acts s) :
    StablePriorityQueues s ((Spec.initial s₀).run acts).pending := by
  have h := Run.refines hidle.refines hrun
  refine ⟨h.links, ?_, fun e => ?_, fun hseq q => ?_, fun q hne => ?_, fun q s' e hpop => ?_, ?_⟩
  · exact fun q x hx => (h.entry q x (mem_all_of_pending hx)).1
  · rw [h.scheduled e]
    refine exists_congr fun q => ?_
    rw [h.async q]
    simp [all, exists_or]
  · obtain ⟨hpar, hwait⟩ := run_waiting (initial s₀) acts
    rw [h.async q, hwait (hpar.symm.trans (h.mode.symm.trans hseq)) fun _ => rfl, List.map_nil]
  · rcases hnext : next? (((initial s₀).run acts).pending q) with _ | x
    · rw [next?_eq_head?_sorted, List.head?_eq_none_iff] at hnext
      exact absurd (List.Perm.nil_eq (hnext ▸ perm_sorted _)).symm hne
    · obtain ⟨s', hpop, -⟩ := h.popHead hnext
      exact ⟨s', x.1, hpop⟩
  · rcases hnext : next? (((initial s₀).run acts).pending q) with _ | x
    · rw [h.popHead_empty hnext] at hpop
      simp at hpop
    · obtain ⟨s₁, hpop1, -⟩ := h.popHead hnext
      obtain ⟨-, rfl⟩ := Prod.mk.inj (ok.inj (hpop1.symm.trans hpop))
      obtain ⟨newer, older, hsplit, hnew, hold⟩ := next?_eq_some_iff.1 hnext
      exact ⟨newer, x.2, older, hsplit, hnew, hold⟩
  · exact fun cur c hpre => h.call_returns_iff.2 hpre

/-- One queue and events of priority 0. -/
def oneQueue : Sim 1 := ⟨fun _ => Event.new 0 0, fun _ => ⟨none, 0, []⟩, false⟩

lemma oneQueue_idle : oneQueue.Idle := by
  have hnew : (Event.new 0 0).scheduled = false := by decide
  exact ⟨fun _ => rfl, fun _ => rfl, fun _ => hnew⟩

/-- Two events scheduled for the same time: the second one is first. -/
theorem stablePriorityQueues_two_equal_events :
    ∃ s, Run oneQueue [.call 0 (.schedule 0 10 5 false), .call 0 (.schedule 0 11 5 false)] s ∧
      (s.queues 0).head = some 11 ∧ ∃ pending, StablePriorityQueues s pending ∧
        pending 0 = [(11, toLex (5, 0)), (10, toLex (5, 0))] := by
  obtain ⟨s, hrun, hhead⟩ : ∃ s, Run oneQueue ([] ++ [.call 0 (.schedule 0 10 5 false)]
      ++ [.call 0 (.schedule 0 11 5 false)]) s ∧ (s.queues 0).head = some 11 :=
    ⟨_, ((Run.nil _).snoc (of_forall fun _ => rfl)).snoc
      (of_forall fun _ => rfl), rfl⟩
  exact ⟨s, hrun, hhead, _, run_stablePriorityQueues oneQueue_idle hrun, rfl⟩

/-! ### Time -/

/-- No queued event is in the past. -/
def Timely (s : Sim n) (a : Spec n) : Prop :=
  ∀ q, ∀ x ∈ a.pending q, (s.queues q).curTick ≤ (ofLex x.2).1

lemma fst_le_of_key_le {k k' : Key} (h : k ≤ k') : (ofLex k).1 ≤ (ofLex k').1 := by
  rcases Prod.Lex.le_iff.1 h with hlt | ⟨heq, -⟩
  · exact hlt.le
  · exact heq.le

lemma Timely.insert {this : Fin n} {when : Tick} {p : ℤ} (ht : Timely s a)
    (hs : SameTime s s') (hwhen : (s.queues this).curTick ≤ when) :
    Timely s' (a.insert this e (toLex (when, p))) := by
  intro q x hx
  rw [hs q]
  rcases eq_or_ne q this with rfl | hne
  · rw [insert_pending_self] at hx
    rcases List.mem_cons.1 hx with rfl | hx
    · exact hwhen
    · exact ht q x hx
  · rw [insert_pending_of_ne a hne] at hx
    exact ht q x hx

lemma Timely.sameTime (ht : Timely s a) (hs : SameTime s s') : Timely s' a := by
  intro q x hx
  rw [hs q]
  exact ht q x hx

lemma Timely.remove (ht : Timely s a) (hs : SameTime s s') (this : Fin n) (e : EventId) :
    Timely s' (a.remove this e) := by
  intro q x hx
  rw [hs q]
  rcases eq_or_ne q this with rfl | hne
  · rw [remove_pending_self] at hx
    exact ht q x (mem_remove.1 hx).1
  · rw [remove_pending_of_ne a hne] at hx
    exact ht q x hx

/-- A step that is not an asynchronous insertion. -/
def Action.Local (act : Action n) : Prop := ∀ q, act ≠ .handleAsyncInsertions q

lemma Timely.call (ht : Timely s a) {c : Sim.Call n} (hpre : c.Pre s cur)
    (hs : SameTime s s') : Timely s' (a.call cur c) := by
  cases c with
  | schedule this e when global =>
    rw [Spec.call]
    split
    · exact ht.sameTime hs
    · exact ht.insert hs hpre.1
  | deschedule this e => exact ht.remove hs this e
  | reschedule this e when always =>
    exact (ht.remove (SameTime.refl s) this e).insert hs hpre.1
  | squash e => exact ht.sameTime hs

lemma Timely.take (ht : Timely s a) {x : EventId × Key} (hnext : next? (a.pending q) = some x)
    (hother : ∀ q', q' ≠ q → (s'.queues q').curTick = (s.queues q').curTick)
    (hq : (s'.queues q).curTick
      = if (s.events x.1).squashed then (s.queues q).curTick else (ofLex x.2).1) :
    Timely s' (a.serve q) ∧ ∀ q', (s.queues q').curTick ≤ (s'.queues q').curTick := by
  obtain ⟨newer, older, hsplit, hnew, hold⟩ := next?_eq_some_iff.1 hnext
  have hle : ∀ y ∈ a.pending q, (ofLex x.2).1 ≤ (ofLex y.2).1 := by
    intro y hy
    rw [hsplit, List.mem_append, List.mem_cons] at hy
    rcases hy with hy | rfl | hy
    · exact fst_le_of_key_le (hnew y hy).le
    · exact le_rfl
    · exact fst_le_of_key_le (hold y hy)
  have hx : (s.queues q).curTick ≤ (ofLex x.2).1 := ht q x (mem_of_next? hnext)
  rw [serve_of_next hnext]
  refine ⟨fun q' y hy => ?_, fun q' => ?_⟩
  · rcases eq_or_ne q' q with rfl | hne
    · rw [remove_pending_self] at hy
      have hy := (mem_remove.1 hy).1
      rw [hq]
      split
      · exact ht q' y hy
      · exact hle y hy
    · rw [remove_pending_of_ne a hne] at hy
      rw [hother q' hne]
      exact ht q' y hy
  · rcases eq_or_ne q' q with rfl | hne
    · rw [hq]
      split
      · exact le_rfl
      · exact hx
    · exact (hother q' hne).ge

lemma Timely.step (h : Refines s a) (ht : Timely s a) (hact : act.Local)
    (hret : Returns (fun fuel => act.exec fuel s) (.ok s')) :
    Timely s' (a.step act) ∧ ∀ q, (s.queues q).curTick ≤ (s'.queues q).curTick := by
  cases act with
  | call cur c =>
    have hpre := h.call_returns_iff.1 ⟨s', hret⟩
    obtain ⟨s₁, hret1, -, hs, -⟩ := h.call hpre
    cases hret1.unique hret
    exact ⟨ht.call hpre hs, fun q => (hs q).ge⟩
  | take q =>
    obtain ⟨N, hN⟩ := hret
    obtain ⟨x, hnext, -, hother, hq, -⟩ := h.take (hN N le_rfl)
    exact ht.take hnext hother hq
  | release e =>
    cases (of_forall fun _ => rfl).unique hret
    exact ⟨ht.sameTime (SameTime.setEvent _ _ _), fun _ => le_rfl⟩
  | handleAsyncInsertions q => exact absurd rfl (hact q)

lemma Timely.run (h : Refines s a) (ht : Timely s a) (hrun : Run s acts s')
    (hacts : ∀ act ∈ acts, act.Local) :
    Timely s' (a.run acts) ∧ ∀ q, (s.queues q).curTick ≤ (s'.queues q).curTick := by
  induction hrun with
  | nil => exact ⟨ht, fun _ => le_rfl⟩
  | @snoc s₁ s2 acts act hrun hret ih =>
    obtain ⟨ht1, hle1⟩ := ih fun b hb => hacts b (by simp [hb])
    obtain ⟨ht2, hle2⟩ := ht1.step (Run.refines h hrun) (hacts act (by simp)) hret
    rw [run_snoc]
    exact ⟨ht2, fun q => (hle1 q).trans (hle2 q)⟩

lemma handlerActions_local {handler : List (Sim.Call n)} :
    ∀ act ∈ handlerActions cur handler, act.Local := by
  intro act hact q heq
  obtain ⟨c, -, rfl⟩ := List.mem_map.1 hact
  simp at heq

lemma Refines.next_of_head (h : Refines s a) {hd : EventId} (hhead : (s.queues q).head = some hd) :
    ∃ x, next? (a.pending q) = some x ∧ x.1 = hd ∧ (s.events hd).when = (ofLex x.2).1 := by
  rcases hnext : next? (a.pending q) with _ | x
  · have hfault := h.popHead_empty hnext
    rw [Sim.popHead, hhead] at hfault
    simp at hfault
  · obtain ⟨s', hpop, -⟩ := h.popHead hnext
    rw [Sim.popHead, hhead] at hpop
    obtain rfl : hd = x.1 := (Prod.mk.inj (ok.inj hpop)).2
    refine ⟨x, rfl, rfl, ?_⟩
    rw [← (h.entry q x (mem_all_of_pending (mem_of_next? hnext))).1]
    rfl

/-- In every state of a run of local steps from an idle simulation, no queue has an event in its
past, so that the assertion of `doSimLoop` holds before every `serviceOne`; and neither
further steps nor whole services turn back the time of a queue.  A squashed event leaves it as
it is. -/
theorem run_time_forward (hidle : s₀.Idle) (hrun : Run s₀ acts s)
    (hacts : ∀ act ∈ acts, act.Local) :
    (∀ q hd, (s.queues q).head = some hd → (s.queues q).curTick ≤ (s.events hd).when ∧
      ∀ fuel handler, s.simLoopBody fuel q handler = s.serviceOne fuel q handler) ∧
    (∀ acts' s', Run s acts' s' → (∀ act ∈ acts', act.Local) →
      ∀ q, (s.queues q).curTick ≤ (s'.queues q).curTick) ∧
    (∀ q handler s' r, Returns (fun fuel => s.simLoopBody fuel q handler) (.ok (s', r)) →
      ∀ q', (s.queues q').curTick ≤ (s'.queues q').curTick) ∧
    ∀ q hd s', (s.queues q).head = some hd → (s.events hd).squashed →
      Returns (fun fuel => (Action.take q).exec fuel s) (.ok s') →
      (s'.queues q).curTick = (s.queues q).curTick := by
  have h := Run.refines hidle.refines hrun
  have ht := (Timely.run hidle.refines (fun q x hx => by simp [initial] at hx) hrun hacts).1
  have hpast : ∀ q hd, (s.queues q).head = some hd → (s.queues q).curTick ≤ (s.events hd).when ∧
      ∀ fuel handler, s.simLoopBody fuel q handler = s.serviceOne fuel q handler := by
    intro q hd hhead
    obtain ⟨x, hnext, rfl, hwhen⟩ := h.next_of_head hhead
    have hle : (s.queues q).curTick ≤ (s.events x.1).when := by
      rw [hwhen]
      exact ht q x (mem_of_next? hnext)
    refine ⟨hle, fun fuel handler => ?_⟩
    simp only [simLoopBody, hhead, require, hle, decide_true, if_true]
    rfl
  have hmono := fun acts' s' (hrun' : Run s acts' s') hlocal => (ht.run h hrun' hlocal).2
  refine ⟨hpast, hmono, fun q handler s' r hret => ?_, fun q hd s' hhead hsq hret => ?_⟩
  · rcases hhead : (s.queues q).head with _ | hd
    · obtain ⟨N, hN⟩ := hret
      have hfault := hN N le_rfl
      simp only [simLoopBody, hhead] at hfault
      simp at hfault
    · have hservice := hret.congr fun fuel => ((hpast q hd hhead).2 fuel handler).symm
      obtain ⟨e, hserve | hserve | hserve⟩ := h.serviceOne_run hservice
      all_goals
        refine hmono _ s' hserve fun act hact => ?_
        simp only [List.mem_append, List.mem_cons, List.not_mem_nil, or_false] at hact
      · rcases hact with rfl | rfl <;> exact fun _ => by simp
      · rcases hact with rfl | hact
        · exact fun _ => by simp
        · exact handlerActions_local act hact
      · rcases hact with (rfl | hact) | rfl
        · exact fun _ => by simp
        · exact handlerActions_local act hact
        · exact fun _ => by simp
  · obtain ⟨x, hnext, rfl, -⟩ := h.next_of_head hhead
    obtain ⟨N, hN⟩ := hret
    obtain ⟨y, hnext', -, -, hq, -⟩ := h.take (hN N le_rfl)
    cases hnext.symm.trans hnext'
    rw [hq, if_pos hsq]

/-- An event is serviced after one that was squashed. -/
theorem time_forward_after_squash :
    ∃ s, Run oneQueue [.call 0 (.schedule 0 10 5 false), .call 0 (.schedule 0 11 7 false),
        .call 0 (.squash 10), .take 0, .take 0] s ∧ (s.queues 0).curTick = 7 ∧
      ∀ acts' s', Run s acts' s' → (∀ act ∈ acts', act.Local) → 7 ≤ (s'.queues 0).curTick := by
  obtain ⟨s, hrun, htick⟩ : ∃ s, Run oneQueue ([] ++ [.call 0 (.schedule 0 10 5 false)]
      ++ [.call 0 (.schedule 0 11 7 false)] ++ [.call 0 (.squash 10)] ++ [.take 0] ++ [.take 0]) s ∧
      (s.queues 0).curTick = 7 :=
    ⟨_, (((((Run.nil _).snoc (of_forall fun _ => rfl)).snoc
      ⟨1, fun fuel hfuel => by obtain ⟨f, rfl⟩ := Nat.exists_eq_add_of_le' hfuel; rfl⟩).snoc
      (of_forall fun _ => rfl)).snoc (of_forall fun _ => rfl)).snoc
      (of_forall fun _ => rfl), rfl⟩
  refine ⟨s, hrun, htick, fun acts' s' hrun' hlocal => ?_⟩
  rw [← htick]
  refine (run_time_forward oneQueue_idle hrun ?_).2.1 acts' s' hrun' hlocal 0
  simp [Action.Local]

end ChipletGem5.EventQueue
