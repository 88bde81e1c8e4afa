import ChipletGem5.Ruby.MIExampleInv

/-!
# What the controllers of `MI_example` do

One lemma for each transition that the invariant lets a cache take.
-/

namespace ChipletGem5.MIExample

open Lines

variable {C D : Type} {n : ℕ} {c : C} {l : L1Line n} {v : Block n} {r : Request n}
  {rs : List (Request n)} {log : List (Record C D n)} {init : Block n} {st : CacheState}

/-! ### The sequencer -/

/-- Completed requests keep a history coherent that ends with the value `v`, and make it end with
the value `v'`. -/
def Completes (v : Block n) (log : List (Record C D n)) (v' : Block n)
    (log' : List (Record C D n)) :
    Prop :=
  ∀ init, Coherent init log → v = current init log → Coherent init log' ∧ v' = current init log'

lemma completes_hitCallbacks (c : C) (rs : List (Request n)) (v : Block n)
    (log : List (Record C D n)) :
    Completes v log (hitCallbacks c rs v log).1 (hitCallbacks c rs v log).2 := by
  induction rs generalizing v log with
  | nil => exact fun _ h hv => ⟨h, hv⟩
  | cons r rs ih =>
    cases r with
    | store f => exact fun init h hv => ih _ _ init ⟨hv, h⟩ rfl
    | load | ifetch => exact fun init h hv => ih _ _ init ⟨hv, h⟩ hv

lemma completes_hitLoads (c : C) (rs : List (Request n)) (v : Block n) (log : List (Record C D n)) :
    Completes v log v (hitLoads c v rs log).2 := by
  induction rs generalizing log with
  | nil => exact fun _ h hv => ⟨h, hv⟩
  | cons r rs ih =>
    cases r with
    | store f => exact fun _ h hv => ⟨h, hv⟩
    | load | ifetch => exact fun init h hv => ih _ init ⟨hv, h⟩ hv

/-! ### Requests of the processor -/

lemma Queued.makeRequest (h : Queued l) (r : Request n) : Queued (l.makeRequest r) := by
  rcases h with ⟨hr, hm⟩ | ⟨r', rs, hr, hm⟩
  · exact .inr ⟨r, [], by simp [L1Line.makeRequest, hr, hm]⟩
  · exact .inr ⟨r', rs ++ [r], by simp [L1Line.makeRequest, hr, hm]⟩

lemma Absent.makeRequest (h : Absent l) (r : Request n) : Absent (l.makeRequest r) :=
  ⟨h.tbe, h.entry, h.queued.makeRequest r⟩

lemma Present.makeRequest (h : Present v l) (r : Request n) : Present v (l.makeRequest r) :=
  ⟨h.tbe, h.entry, h.queued.makeRequest r⟩

lemma Leaving.makeRequest (h : Leaving st v l) (r : Request n) : Leaving st v (l.makeRequest r) :=
  ⟨h.tbe, h.entry, h.queued.makeRequest r⟩

lemma Waiting.makeRequest (h : Waiting l) (r : Request n) : Waiting (l.makeRequest r) := by
  obtain ⟨⟨r', rs, hr, ht, he⟩, hm⟩ := h
  exact ⟨⟨r', rs ++ [r], by simp [L1Line.makeRequest, hr], ht, he⟩,
    by simp [L1Line.makeRequest, hr, hm]⟩

lemma queued_left (e t : Option (CacheEntry n)) (rs : List (Request n)) :
    Queued ⟨e, t, rs, (rs.head?.map Request.secondType).toList⟩ := by
  cases rs with
  | nil => exact .inl ⟨rfl, rfl⟩
  | cons r rs => exact .inr ⟨r, rs, rfl, rfl⟩

/-! ### Transitions of a cache -/

lemma Absent.state (h : Absent l) : l.state = .I := by
  obtain ⟨entry, _⟩ := l
  obtain ⟨rfl, hentry, -⟩ := h
  cases entry with
  | none => rfl
  | some e => exact hentry e rfl

/-- The event of a request in the mandatory queue. -/
def Request.event : Request n → CacheEvent
  | .load => .Load
  | .ifetch => .Ifetch
  | .store _ => .Store

lemma mandatoryEvent_secondType (r : Request n) : mandatoryEvent r.secondType = .ok r.event := by
  cases r <;> rfl

section

variable {ev : CacheEvent} (c : C) (log : List (Record C D n))

lemma Absent.mandatory (h : Absent l) (hr : l.requests = r :: rs)
    (hm : l.mandatory = [r.secondType]) : ∃ l', Waiting l' ∧
    l1Trigger (D := D) c none r.event l log =
      .ok ⟨l', [(.request c, getx c)], false, log⟩ := by
  have hI := h.state
  obtain ⟨entry, _⟩ := l
  obtain ⟨rfl, -, -⟩ := h
  subst hr hm
  refine ⟨⟨some ⟨r.waitState, (entry.map CacheEntry.dataBlk).getD 0⟩, some ⟨r.waitState, 0⟩,
    r :: rs, []⟩, ⟨⟨r, rs, rfl, ⟨_, rfl⟩, ⟨_, rfl⟩⟩, rfl⟩, ?_⟩
  rw [l1Trigger, hI]
  cases r <;> cases entry <;> rfl

lemma Absent.replacement (h : Absent l) : ∃ l', Absent l' ∧
    l1Trigger (D := D) c none .Replacement l log = .ok ⟨l', [], false, log⟩ := by
  have hI := h.state
  cases l
  obtain ⟨rfl, -, hq⟩ := h
  refine ⟨⟨none, none, _, _⟩, ⟨rfl, nofun, hq⟩, ?_⟩
  rw [l1Trigger, hI]
  rfl

lemma Present.mandatory (h : Present v l) (hr : l.requests = r :: rs)
    (hm : l.mandatory = [r.secondType]) : ∃ l' v' log', Present v' l' ∧ Completes v log v' log' ∧
    l1Trigger (D := D) c none r.event l log = .ok ⟨l', [], false, log'⟩ := by
  cases l
  obtain ⟨rfl, rfl, -⟩ := h
  subst hr hm
  have hstores := completes_hitCallbacks c (r :: rs) v log
  have hloads := completes_hitLoads c (r :: rs) v log
  cases r with
  | store f => exact ⟨_, _, _, ⟨rfl, rfl, .inl ⟨rfl, rfl⟩⟩, hstores, rfl⟩
  | load | ifetch => exact ⟨_, v, _, ⟨rfl, rfl, queued_left _ _ _⟩, hloads, rfl⟩

lemma Present.writeback (h : Present v l) (m : Option (Msg C D n))
    (hev : ev = .Replacement ∨ ev = .Inv) : ∃ l', Leaving .MI v l' ∧
    l1Trigger c m ev l log = .ok ⟨l', [(.request c, putx c v)], false, log⟩ := by
  cases l
  obtain ⟨rfl, rfl, hq⟩ := h
  refine ⟨⟨none, some ⟨.MI, v⟩, _, _⟩, ⟨rfl, rfl, hq⟩, ?_⟩
  rcases hev with rfl | rfl <;> rfl

lemma Present.fwdGETX (h : Present v l) (d : C) : ∃ l', Absent l' ∧
    l1Trigger (D := D) c (some (getx d)) .Fwd_GETX l log =
      .ok ⟨l', [(.response (.l1Cache c) d, data (.l1Cache c) v)], true, log⟩ := by
  cases l
  obtain ⟨rfl, rfl, hq⟩ := h
  refine ⟨⟨some ⟨.I, v⟩, none, _, _⟩, ⟨rfl, ?_, hq⟩, rfl⟩
  rintro e ⟨⟩
  rfl

lemma Leaving.fwdGETX (h : Leaving .MI v l) (d : C) : ∃ l', Leaving .II v l' ∧
    l1Trigger (D := D) c (some (getx d)) .Fwd_GETX l log =
      .ok ⟨l', [(.response (.l1Cache c) d, data (.l1Cache c) v)], true, log⟩ := by
  cases l
  obtain ⟨rfl, rfl, hq⟩ := h
  exact ⟨⟨none, some ⟨.II, v⟩, _, _⟩, ⟨rfl, rfl, hq⟩, rfl⟩

lemma Leaving.done (h : Leaving st v l) (m : Option (Msg C D n))
    (hev : st = .MI ∧ ev = .Writeback_Ack ∨ st = .II ∧ ev = .Writeback_Nack) : ∃ l', Absent l' ∧
    l1Trigger c m ev l log = .ok ⟨l', [], true, log⟩ := by
  cases l
  obtain ⟨rfl, rfl, hq⟩ := h
  refine ⟨⟨none, none, _, _⟩, ⟨rfl, nofun, hq⟩, ?_⟩
  rcases hev with ⟨rfl, rfl⟩ | ⟨rfl, rfl⟩ <;> rfl

lemma Waiting.data (h : Waiting l) (src : MachineID C D) (v : Block n) :
    ∃ l' v' log', Present v' l' ∧ Completes v log v' log' ∧
    l1Trigger c (some (data src v)) .Data l log = .ok ⟨l', [], true, log'⟩ := by
  cases l
  obtain ⟨⟨r, rs, rfl, ⟨t, rfl⟩, e, rfl⟩, rfl⟩ := h
  have hstores := completes_hitCallbacks c (r :: rs) v log
  have hloads := completes_hitLoads c (r :: rs) v log
  cases r with
  | store f => exact ⟨_, _, _, ⟨rfl, rfl, .inl ⟨rfl, rfl⟩⟩, hstores, rfl⟩
  | load | ifetch => exact ⟨_, v, _, ⟨rfl, rfl, queued_left _ _ _⟩, hloads, rfl⟩

end

variable {ev : CacheEvent}

lemma Leaving.inv (h : Leaving .MI v l) {m : Option (Msg C D n)} :
    l1Trigger c m .Inv l log = .ok ⟨l, [], true, log⟩ := by
  cases l
  obtain ⟨rfl, rfl, -⟩ := h
  rfl

lemma Leaving.stall (h : Leaving st v l) (hst : st = .MI ∨ st = .II)
    (hev : ev = .Replacement ∨ ∃ r : Request n, ev = r.event) :
    l1Trigger (D := D) c none ev l log = .ok ⟨l, [], false, log⟩ := by
  cases l
  obtain ⟨rfl, -, -⟩ := h
  rcases hst with rfl | rfl <;> rcases hev with rfl | ⟨r, rfl⟩ <;> first | rfl | (cases r <;> rfl)

lemma Waiting.stall (h : Waiting l) {m : Option (Msg C D n)}
    (hev : ev = .Replacement ∨ ev = .Fwd_GETX ∨ ev = .Inv) :
    l1Trigger c m ev l log = .ok ⟨l, [], false, log⟩ := by
  cases l
  obtain ⟨⟨r, rs, rfl, ⟨t, rfl⟩, e, rfl⟩, rfl⟩ := h
  rcases hev with rfl | rfl | rfl <;> cases r <;> rfl

end ChipletGem5.MIExample
