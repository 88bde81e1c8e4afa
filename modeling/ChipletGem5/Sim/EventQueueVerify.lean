import ChipletGem5.Sim.EventQueueRun

/-!
# The check of an event queue

`debugVerify` walks through the bins of a queue and compares each event with the one before it.
It starts from time 0 and priority 0, so it rejects events of time 0 with a negative priority.
-/

namespace ChipletGem5.EventQueue

open BinList LifoQueue Spec Returns List

/-- What `debugVerify` has seen: the time and priority of the last event, and all events. -/
structure Seen where
  time : Tick
  priority : ℤ
  map : List EventId

/-- The comparisons for one event. -/
def Seen.check (h : Heap) (v : Seen) (e : EventId) : Option Seen :=
  if (h e).when < v.time then none
  else if (h e).when = v.time ∧ (h e).priority < v.priority then none
  else if e ∈ v.map then none
  else some ⟨(h e).when, (h e).priority, e :: v.map⟩

/-- The loop over a bin.  The check has failed if it returns no state. -/
def verifyBin (h : Heap) : ℕ → Option EventId → Seen → Result (Option Seen)
  | 0, _, _ => .error .outOfFuel
  | _ + 1, none, v => .ok (some v)
  | fuel + 1, some e, v =>
      match v.check h e with
      | none => .ok none
      | some v => verifyBin h fuel (h e).nextInBin v

/-- `EventQueue::debugVerify`, from a bin on. -/
def debugVerify (h : Heap) : ℕ → Option EventId → Seen → Result Bool
  | 0, _, _ => .error .outOfFuel
  | _ + 1, none, _ => .ok true
  | fuel + 1, some e, v => do
      match ← verifyBin h fuel (some e) v with
      | none => return false
      | some v => debugVerify h fuel (h e).nextBin v

variable {n fuel : ℕ} {s s₀ : Sim n} {acts : List (Action n)} {h : Heap} {p : Option EventId}
  {e : EventId} {l : List EventId} {bins : List (List EventId)} {v : Seen}

lemma verifyBin_spec (hl : Chain (fun e => (h e).nextInBin) p l) (hfuel : l.length < fuel) :
    verifyBin h fuel p v = .ok (l.foldlM (Seen.check h) v) := by
  induction l generalizing p v fuel with
  | nil =>
    obtain _ | fuel := fuel
    · cases hfuel
    cases hl
    rfl
  | cons e l ih =>
    obtain _ | fuel := fuel
    · cases hfuel
    obtain ⟨rfl, hl⟩ := hl
    rw [verifyBin, foldlM_cons]
    rcases v.check h e with _ | v
    · rfl
    · exact ih hl (by simpa using hfuel)

lemma debugVerify_spec (hb : Linked h p bins) (hfuel : bins.flatten.length + bins.length < fuel) :
    debugVerify h fuel p v = .ok (bins.flatten.foldlM (Seen.check h) v).isSome := by
  induction bins generalizing p v fuel with
  | nil =>
    obtain _ | fuel := fuel
    · cases hfuel
    cases hb
    rfl
  | cons b bins ih =>
    obtain _ | fuel := fuel
    · cases hfuel
    obtain ⟨t, ts, rfl, rfl⟩ := hb.eq_some
    simp only [flatten_cons, length_append, length_cons] at hfuel
    rw [debugVerify, verifyBin_spec (l := t :: ts) ⟨rfl, hb.2.1⟩ (by simp; omega), flatten_cons,
      foldlM_append, ok_bind]
    rcases (t :: ts).foldlM (Seen.check h) v with _ | v
    · rfl
    · exact ih hb.2.2 (by omega)

lemma le_key_iff {t : Tick} {i : ℤ} {ev : Event} :
    toLex (t, i) ≤ ev.key ↔ t ≤ ev.when ∧ (ev.when = t → i ≤ ev.priority) := by
  rw [Event.key, Prod.Lex.toLex_le_toLex', eq_comm]

lemma Seen.check_eq (hmem : e ∉ v.map) : v.check h e =
    if toLex (v.time, v.priority) ≤ (h e).key then some ⟨(h e).when, (h e).priority, e :: v.map⟩
    else none := by
  rw [Seen.check, if_neg hmem]
  simp only [le_key_iff]
  split_ifs <;> grind

lemma isSome_foldlM_check (hl : l.Pairwise fun x y => (h x).key ≤ (h y).key) (hnodup : l.Nodup)
    (hmap : ∀ e ∈ l, e ∉ v.map) :
    (l.foldlM (Seen.check h) v).isSome ↔ ∀ e ∈ l, toLex (v.time, v.priority) ≤ (h e).key := by
  induction l generalizing v with
  | nil => simp
  | cons e l ih =>
    obtain ⟨he, hl⟩ := pairwise_cons.1 hl
    obtain ⟨hmem, hnodup⟩ := nodup_cons.1 hnodup
    rw [foldlM_cons, Seen.check_eq (hmap e mem_cons_self)]
    split_ifs with hle
    · refine (ih hl hnodup fun x hx => ?_).trans (iff_of_true he ?_)
      · exact not_mem_cons_of_ne_of_not_mem (ne_of_mem_of_not_mem hx hmem) (hmap x (by simp [hx]))
      · exact forall_mem_cons.2 ⟨hle, fun x hx => hle.trans (he x hx)⟩
    · exact iff_of_false (by simp) fun hall => hle (hall e mem_cons_self)

/-- In every state that is reached, the check of a queue ends, and it accepts the queue exactly if
no event in it has time 0 and a negative priority. -/
theorem debugVerify_iff (hidle : s₀.Idle) (hrun : Run s₀ acts s) (q : Fin n) :
    ∃ b, Returns (fun fuel => debugVerify s.events fuel (s.queues q).head ⟨0, 0, []⟩) (.ok b) ∧
      (b ↔ ∀ x ∈ ((Spec.initial s₀).run acts).pending q,
        ¬ ((s.events x.1).when = 0 ∧ (s.events x.1).priority < 0)) := by
  have href := Run.refines hidle.refines hrun
  obtain ⟨bins, hb, -, hflat⟩ := href.links q
  refine ⟨_, of_lt fun fuel hfuel => debugVerify_spec hb hfuel, ?_⟩
  rw [hflat, isSome_foldlM_check _ (href.nodup_sorted q) (by simp)]
  · simp only [mem_sorted_fst, Prod.forall, forall_exists_index]
    refine forall₃_congr fun e k _ => ?_
    rw [le_key_iff, not_and, not_lt]
    exact and_iff_right (Nat.zero_le _)
  · -- the events are listed by their keys
    refine pairwise_map.2 ((pairwise_sorted _).imp_of_mem fun {x y} hx hy hle => ?_)
    rwa [(href.entry q x (mem_all_of_pending ((perm_sorted _).mem_iff.1 hx))).1,
      (href.entry q y (mem_all_of_pending ((perm_sorted _).mem_iff.1 hy))).1]

theorem debugVerify_iff_one : ∃ s, Run oneQueue ([] ++ [.call 0 (.schedule 0 10 5 false)]) s ∧
    Returns (fun fuel => debugVerify s.events fuel (s.queues 0).head ⟨0, 0, []⟩) (.ok true) := by
  have hrun : Run oneQueue ([] ++ [.call 0 (.schedule 0 10 5 false)]) _ :=
    (Run.nil oneQueue).snoc (of_forall fun _ => rfl)
  obtain ⟨b, hb, hiff⟩ := debugVerify_iff oneQueue_idle hrun 0
  obtain rfl := hiff.2 fun x hx => by
    cases mem_singleton.1 hx
    decide
  exact ⟨_, hrun, hb⟩

/-- An event of priority -1 at time 0. -/
theorem debugVerify_negative :
    ∃ s, Run (⟨fun _ => Event.new (-1) 0, fun _ => ⟨none, 0, []⟩, false⟩ : Sim 1)
      ([] ++ [.call 0 (.schedule 0 10 0 false)]) s ∧
    Returns (fun fuel => debugVerify s.events fuel (s.queues 0).head ⟨0, 0, []⟩) (.ok false) := by
  refine ⟨_, (Run.nil _).snoc (of_forall fun _ => rfl), 2, fun fuel hfuel => ?_⟩
  obtain ⟨fuel, rfl⟩ := Nat.exists_eq_add_of_le' hfuel
  rfl

end ChipletGem5.EventQueue
