import ChipletGem5.Ruby.Sequencer

/-!
# Every request of the sequencer is answered once

For each line, the requests that have been accepted are those that were answered, in the same
order, followed by those that wait in the table.  If a line has requests in the table, the first of
them is in flight or the line is being called back.  While `hitCallback` runs, the request that it
answers is still in the table, but does not count any more.
-/

namespace ChipletGem5.Sequencer

open Finset (univ mem_univ)

open Function List

variable {c : Params} {s s' : Sequencer} {a : Addr} {r : SequencerRequest} {cb : Callback}
  {pkt : Packet}

/-! ### The invariant -/

instance : Fintype Addr :=
  Fintype.ofEquiv (Fin (2 ^ 64)) ⟨BitVec.ofFin, BitVec.toFin, fun _ => rfl, fun _ => rfl⟩

/-- Where a callback is: its line, and whether it is in `hitCallback` or at the head of its loop. -/
abbrev Phase := Option (Addr × Bool)

/-- The requests of a line that have not been answered. -/
def waiting (table : Addr → List SequencerRequest) (ph : Phase) (a : Addr) :
    List SequencerRequest :=
  if ph = some (a, true) then (table a).tail else table a

/-- The invariant, in a phase. -/
structure Core (c : Params) (s : Sequencer) (ph : Phase) : Prop where
  entries : ∀ a, ∀ r ∈ s.requestTable a, c.line r = a ∧ r.secondType.isLoad = r.type.isLoad
  inFlight : ∀ a, s.issued.filter (c.line · = a) =
    if ph.map Prod.fst = some a then [] else (s.requestTable a).take 1
  order : ∀ a, s.accepted.filter (c.line · = a) =
    s.hits.filter (c.line · = a) ++ waiting s.requestTable ph a
  count : s.outstandingCount = ∑ a, ((waiting s.requestTable ph a).length : ℤ)
  limit : s.outstandingCount ≤ c.maxOutstandingRequests
  called : ∀ a, ph = some (a, true) → s.requestTable a ≠ []

/-- The phase of a sequencer between two actions. -/
def phase (s : Sequencer) : Phase := s.callback.map fun cb => (cb.address, true)

/-- The invariant between two actions. -/
structure Inv (c : Params) (s : Sequencer) : Prop where
  core : Core c s s.phase
  first : ∀ cb ∈ s.callback, cb.rubyRequest = false

lemma sum_add_eq {f g : Addr → ℤ} (h : ∀ b, b ≠ a → f b = g b) :
    ∑ b, f b + g a = ∑ b, g b + f a := by
  have herase : ∑ b ∈ univ.erase a, f b = ∑ b ∈ univ.erase a, g b :=
    Finset.sum_congr rfl fun b hb => h b (Finset.ne_of_mem_erase hb)
  rw [← Finset.add_sum_erase univ f (mem_univ a),
    ← Finset.add_sum_erase univ g (mem_univ a), herase]
  ring

lemma inv_init : Inv c init := by
  refine ⟨⟨fun a r hr => ?_, fun a => rfl, fun a => rfl, ?_, ?_, fun a ha => ?_⟩,
    fun cb hcb => ?_⟩
  · simp [init] at hr
  · refine (Finset.sum_eq_zero fun a _ => ?_).symm
    unfold waiting
    split_ifs <;> rfl
  · simp [init]
  · simp [phase, init] at ha
  · simp [init] at hcb

/-! ### New requests -/

lemma requestTypes_ok (h : Supported pkt) :
    ∃ t1 t2, requestTypes c pkt = .ok (t1, t2) ∧ t2.isLoad = t1.isLoad := by
  unfold requestTypes
  obtain h | h | ⟨h, hllsc, hlocked⟩ := h
  · split_ifs <;> exact ⟨_, _, rfl, rfl⟩
  · split_ifs <;> exact ⟨_, _, rfl, rfl⟩
  · split_ifs <;> first | exact ⟨_, _, rfl, rfl⟩ | simp_all

/-- The state after a request has been accepted. -/
def accept (c : Params) (s : Sequencer) (r : SequencerRequest) : Sequencer :=
  { s with
    requestTable := update s.requestTable (c.line r) (s.requestTable (c.line r) ++ [r])
    outstandingCount := s.outstandingCount + 1
    issued := s.issued ++ if s.requestTable (c.line r) = [] then [r] else []
    accepted := s.accepted ++ [r] }

lemma insertAndIssue_eq (c : Params) (s : Sequencer) (r : SequencerRequest) :
    { s.insertAndIssue c r with accepted := (s.insertAndIssue c r).accepted ++ [r] } =
      s.accept c r := by
  unfold insertAndIssue insertRequest accept
  rcases hl : s.requestTable (c.line r) with _ | ⟨x, l⟩
  · simp [issueRequest]
  · simp

lemma makeRequest_eq (hp : Supported pkt) :
    ∃ t1 t2, requestTypes c pkt = .ok (t1, t2) ∧ t2.isLoad = t1.isLoad ∧
      s.makeRequest c pkt = .ok (
        if s.outstandingCount ≥ c.maxOutstandingRequests then (.BufferFull, s)
        else if c.makeLineAddress pkt.addr ∈ s.blockMap ∧ t1 ≠ .Locked_RMW_Write then (.Aliased, s)
        else (.Issued, s.accept c ⟨pkt, t1, t2⟩)) := by
  obtain ⟨t1, t2, htypes, hload⟩ := requestTypes_ok (c := c) hp
  refine ⟨t1, t2, htypes, hload, ?_⟩
  unfold makeRequest
  by_cases hfull : s.outstandingCount ≥ c.maxOutstandingRequests
  · rw [if_pos hfull, if_pos hfull]
    rfl
  · rw [if_neg hfull, if_neg hfull, htypes]
    simp only [ok_bind]
    by_cases hblock : c.makeLineAddress pkt.addr ∈ s.blockMap ∧ t1 ≠ .Locked_RMW_Write
    · rw [if_pos hblock, if_pos hblock]
      rfl
    · rw [if_neg hblock, if_neg hblock, ← insertAndIssue_eq]
      rfl

lemma Inv.not_called (h : Inv c s) (hnil : s.requestTable a = []) :
    s.phase.map Prod.fst ≠ some a := by
  intro he
  rcases hcb : s.callback with _ | cb
  · simp [phase, hcb] at he
  · have ha : cb.address = a := by simpa [phase, hcb] using he
    exact h.core.called a (by simp [phase, hcb, ha]) hnil

lemma Core.accept {ph : Phase} (h : Core c s ph)
    (hnew : s.requestTable (c.line r) = [] → ph.map Prod.fst ≠ some (c.line r))
    (hroom : s.outstandingCount < c.maxOutstandingRequests)
    (ht : r.secondType.isLoad = r.type.isLoad) : Core c (s.accept c r) ph := by
  have hmem : ∀ a, ∀ x ∈ (s.accept c r).requestTable a,
      x ∈ s.requestTable a ∨ x = r ∧ a = c.line r := by
    intro a x hx
    by_cases ha : a = c.line r
    · subst ha
      simp only [Sequencer.accept, update_self, mem_append, mem_singleton] at hx
      exact hx.imp_right fun hx => ⟨hx, rfl⟩
    · simp only [Sequencer.accept, update_of_ne ha] at hx
      exact .inl hx
  have hwait : ∀ b, waiting (s.accept c r).requestTable ph b =
      waiting s.requestTable ph b ++ if b = c.line r then [r] else [] := by
    intro b
    unfold waiting Sequencer.accept
    by_cases hb : b = c.line r
    · subst hb
      simp only [update_self, if_true]
      split_ifs with hc
      · rw [tail_append_of_ne_nil (h.called _ hc)]
      · rfl
    · simp only [update_of_ne hb, if_neg hb, append_nil]
  refine ⟨fun a x hx => ?_, fun a => ?_, fun a => ?_, ?_, ?_, fun a ha => ?_⟩
  · obtain hx | ⟨rfl, rfl⟩ := hmem a x hx
    · exact h.entries a x hx
    · exact ⟨rfl, ht⟩
  · simp only [Sequencer.accept, filter_append, h.inFlight a]
    by_cases ha : a = c.line r
    · subst ha
      rcases hl : s.requestTable (c.line r) with _ | ⟨x, l⟩
      · rw [if_neg (hnew hl), if_neg (hnew hl)]
        simp
      · simp
    · rw [update_of_ne ha]
      split_ifs <;> simp [Ne.symm ha]
  · rw [hwait, ← append_assoc]
    simp only [Sequencer.accept, filter_append, h.order a]
    by_cases ha : a = c.line r
    · simp [ha]
    · simp [ha, Ne.symm ha]
  · have hsum := sum_add_eq (a := c.line r)
      (f := fun a => ((waiting (s.accept c r).requestTable ph a).length : ℤ))
      (g := fun a => ((waiting s.requestTable ph a).length : ℤ)) fun b hb => by simp [hwait, hb]
    have hcount := h.count
    simp only [hwait, if_true, length_append, length_singleton] at hsum ⊢
    change s.outstandingCount + 1 = _
    omega
  · change s.outstandingCount + 1 ≤ _
    omega
  · by_cases hal : a = c.line r
    · simp [Sequencer.accept, hal]
    · simp only [Sequencer.accept, update_of_ne hal]
      exact h.called a ha

lemma Inv.makeRequest (h : Inv c s) (hp : Supported pkt) :
    ∃ status s', s.makeRequest c pkt = .ok (status, s') ∧ Inv c s' := by
  obtain ⟨t1, t2, -, hload, heq⟩ := makeRequest_eq (c := c) (s := s) hp
  rw [heq]
  split_ifs with hfull hblock
  · exact ⟨_, _, rfl, h⟩
  · exact ⟨_, _, rfl, h⟩
  · exact ⟨_, _, rfl, h.core.accept h.not_called (not_le.1 hfull) hload, h.first⟩

/-! ### Callbacks -/

/-- A number that goes down with each step of a callback. -/
def remaining (s : Sequencer) : ℤ :=
  2 * s.outstandingCount + if s.callback.isSome then 1 else 0

lemma Core.hit {rest : List SequencerRequest} (h : Core c s (some (a, false)))
    (hl : s.requestTable a = r :: rest) (blockMap : Finset Addr) (hcb : cb.address = a) :
    Inv c (({ s with blockMap } : Sequencer).hit cb r) := by
  have hline : c.line r = a := (h.entries a r (by simp [hl])).1
  have hphase : (({ s with blockMap } : Sequencer).hit cb r).phase = some (a, true) := by
    simp [phase, Sequencer.hit, hcb]
  have hwait : ∀ b, waiting s.requestTable (some (a, false)) b =
      (if b = a then [r] else []) ++ waiting s.requestTable (some (a, true)) b := by
    intro b
    by_cases hb : b = a
    · subst hb
      simp [waiting, hl]
    · simp [waiting, hb, Ne.symm hb]
  constructor
  · rw [hphase]
    refine ⟨h.entries, h.inFlight, fun b => ?_, ?_, ?_, fun b hb => ?_⟩
    · change s.accepted.filter _ = (s.hits ++ [r]).filter _ ++ waiting s.requestTable _ b
      rw [h.order b, hwait b, filter_append, append_assoc]
      congr 1
      by_cases hb : b = a
      · simp [hb, hline]
      · simp [hb, hline, Ne.symm hb]
    · have hsum := sum_add_eq (a := a)
        (f := fun b => ((waiting s.requestTable (some (a, false)) b).length : ℤ))
        (g := fun b => ((waiting s.requestTable (some (a, true)) b).length : ℤ))
        fun b hb => by simp [hwait, hb]
      have hcount := h.count
      have hone : (waiting s.requestTable (some (a, false)) a).length =
          (waiting s.requestTable (some (a, true)) a).length + 1 := by
        rw [hwait a]
        simp [add_comm]
      simp only [Sequencer.hit, hcount]
      omega
    · have hlimit := h.limit
      change s.outstandingCount - 1 ≤ _
      omega
    · obtain ⟨rfl, -⟩ := Prod.mk.inj (Option.some.inj hb)
      change s.requestTable a ≠ []
      simp [hl]
  · rintro _ ⟨⟩
    rfl

/-- The phase changes, but not what waits. -/
lemma Core.rephase {ph q : Phase} {table : Addr → List SequencerRequest}
    {issued : List SequencerRequest} {callback : Option Callback} (h : Core c s ph)
    (hwait : waiting table q = waiting s.requestTable ph)
    (hsub : ∀ a, table a ⊆ s.requestTable a)
    (hissued : ∀ a, issued.filter (c.line · = a) =
      if q.map Prod.fst = some a then [] else (table a).take 1)
    (hcalled : ∀ a, q ≠ some (a, true)) :
    Core c { s with requestTable := table, issued, callback } q where
  entries a r hr := h.entries a r (hsub a hr)
  inFlight := hissued
  order := hwait ▸ h.order
  count := hwait ▸ h.count
  limit := h.limit
  called a ha := absurd ha (hcalled a)

lemma Core.leave (h : Core c s (some (a, false))) :
    Inv c { s with issued := s.issued ++ (s.requestTable a).take 1, callback := none } := by
  refine ⟨h.rephase (q := none) (funext fun b => by simp [waiting]) (fun _ => .refl _)
    (fun b => ?_) nofun, nofun⟩
  have hissued := h.inFlight b
  simp only [filter_append, hissued, Option.map_none, reduceCtorEq, if_false]
  by_cases hb : b = a
  · subst hb
    rcases hl : s.requestTable b with _ | ⟨r, l⟩
    · simp
    · simp [(h.entries b r (by simp [hl])).1]
  · rcases hl : s.requestTable a with _ | ⟨r, l⟩
    · simp [Ne.symm hb]
    · simp [Ne.symm hb, (h.entries a r (by simp [hl])).1]

lemma block_eq (s : Sequencer) (a : Addr) (t : RubyRequestType) :
    s.block a t = { s with blockMap := (s.block a t).blockMap } := by
  cases t <;> rfl

lemma remaining_hit (blockMap : Finset Addr) :
    (({ s with blockMap } : Sequencer).hit cb r).remaining = 2 * s.outstandingCount - 1 := by
  simp only [remaining, Sequencer.hit, Option.isSome_some, if_true]
  ring

/-- From the head of a loop to the next `hitCallback` or to the end.  At the start, the first
request is of the kind of the callback, and is answered. -/
lemma Core.round (cb : Callback) (h : Core c s (some (cb.address, false)))
    (hfirst : cb.rubyRequest →
      ∃ r ∈ (s.requestTable cb.address).head?, r.type.isLoad = !cb.write) :
    ∃ s', s.round cb = .ok s' ∧ Inv c s' ∧
      s'.remaining < 2 * s.outstandingCount + if cb.rubyRequest then 0 else 1 := by
  have hleave := h.leave
  unfold Sequencer.round
  rcases hl : s.requestTable cb.address with _ | ⟨r, rest⟩
  · rw [hl, take_nil, append_nil] at hleave
    have hruby : cb.rubyRequest = false := by
      simpa [hl] using hfirst
    exact ⟨_, rfl, hleave, by simp [remaining, hruby]⟩
  · simp only [hl, List.head?_cons, Option.mem_some_iff, exists_eq_left'] at hfirst
    have hlate : (r.type.isLoad = cb.write) → cb.rubyRequest = false := by
      intro he
      cases hr : cb.rubyRequest with
      | false => rfl
      | true => simpa [he] using hfirst hr
    have hless : 2 * s.outstandingCount - 1 <
        2 * s.outstandingCount + if cb.rubyRequest then 0 else 1 := by
      split_ifs <;> omega
    cases hw : cb.write with
    | true =>
      rw [hw] at hlate
      simp only [if_true, Sequencer.writeRound]
      cases hload : r.type.isLoad with
      | true =>
        refine ⟨s.hit cb r, ?_, h.hit hl s.blockMap rfl,
          (remaining_hit s.blockMap).trans_lt hless⟩
        simp [hlate hload, require]
      | false =>
        refine ⟨(s.block cb.address r.type).hit cb r, ?_, ?_, ?_⟩
        · have hne : r.type ≠ .LD ∧ r.type ≠ .Load_Linked ∧ r.type ≠ .IFETCH := by
            refine ⟨?_, ?_, ?_⟩ <;> rintro he <;> rw [he] at hload <;> cases hload
          simp [hne.1, hne.2.1, hne.2.2, require]
        · rw [block_eq]
          exact h.hit hl _ rfl
        · rw [block_eq]
          exact (remaining_hit _).trans_lt hless
    | false =>
      rw [hw] at hlate
      simp only [Bool.false_eq_true, if_false, Sequencer.readRound]
      cases hload : r.type.isLoad with
      | true =>
        refine ⟨s.hit cb r, ?_, h.hit hl s.blockMap rfl,
          (remaining_hit s.blockMap).trans_lt hless⟩
        simp [require]
      | false =>
        rw [hl, take_succ_cons, take_zero] at hleave
        refine ⟨_, ?_, hleave, by simp [remaining, hlate hload]⟩
        simp [hlate hload, require, issueRequest]

lemma Inv.startCallback (h : Inv c s) (hnone : s.callback = none) (write : Bool)
    (hr : r ∈ s.issued) (hline : c.line r = a) (hkind : r.secondType.isLoad = !write) :
    ∃ s', s.startCallback c write a = .ok s' ∧ Inv c s' ∧ s'.remaining < s.remaining := by
  have hcore := h.core
  have hphase : s.phase = none := by simp [phase, hnone]
  rw [hphase] at hcore
  have hmem : r ∈ s.issued.filter (c.line · = a) := mem_filter.2 ⟨hr, by simpa using hline⟩
  rw [hcore.inFlight a, Option.map_none, if_neg (by simp)] at hmem
  obtain ⟨rest, hl⟩ : ∃ rest, s.requestTable a = r :: rest := by
    rcases hl : s.requestTable a with _ | ⟨x, rest⟩
    · simp [hl] at hmem
    · obtain rfl : r = x := by simpa [hl] using hmem
      exact ⟨rest, rfl⟩
  have haddr : a = c.makeLineAddress a := by
    rw [← hline, Params.line, Params.makeLineAddress, Params.makeLineAddress, BitVec.and_assoc,
      BitVec.and_self]
  have hcore' : Core c { s with issued := s.issued.filter (c.line · ≠ a) } (some (a, false)) := by
    refine hcore.rephase (funext fun b => by simp [waiting]) (fun _ => .refl _) (fun b => ?_)
      (by simp)
    simp only [filter_filter, Option.map_some]
    by_cases hb : b = a
    · subst hb
      simp
    · have hfilter := hcore.inFlight b
      rw [Option.map_none, if_neg (by simp)] at hfilter
      rw [if_neg (by simpa using Ne.symm hb), ← hfilter]
      refine filter_congr fun x _ => ?_
      by_cases hx : c.line x = b
      · simp [hx, hb]
      · simp [hx]
  have hfirst : r.type.isLoad = !write := by
    rw [← (hcore.entries a r (by simp [hl])).2, hkind]
  obtain ⟨s', hrun, h', hless⟩ :=
    Core.round ⟨a, write, true⟩ hcore' fun _ => ⟨r, by simp [hl], hfirst⟩
  refine ⟨s', ?_, h', by simpa [remaining, hnone] using hless⟩
  simp only [Sequencer.startCallback, require, hl]
  rwa [if_pos (by simpa using haddr), if_pos (by simp)]

lemma Inv.hitReturned (h : Inv c s) (hcb : s.callback = some cb) :
    ∃ s', s.hitReturned = .ok s' ∧ Inv c s' ∧ s'.remaining < s.remaining := by
  have hcore := h.core
  have hphase : s.phase = some (cb.address, true) := by simp [phase, hcb]
  rw [hphase] at hcore
  set a := cb.address with ha
  have hcore' : Core c { s with
      requestTable := update s.requestTable a (s.requestTable a).tail }
      (some (a, false)) := by
    refine hcore.rephase (funext fun b => ?_) (fun b x hx => ?_) (fun b => ?_) (by simp)
    · by_cases hb : b = a
      · subst hb
        simp [waiting]
      · simp [waiting, hb, Ne.symm hb]
    · by_cases hb : b = a
      · subst hb
        rw [update_self] at hx
        exact mem_of_mem_tail hx
      · rwa [update_of_ne hb] at hx
    · have hissued := hcore.inFlight b
      by_cases hb : b = a
      · subst hb
        simpa using hissued
      · simpa [Ne.symm hb, hb] using hissued
  have hlate : cb.rubyRequest = false := h.first cb hcb
  obtain ⟨s', hrun, h', hless⟩ := Core.round cb hcore' (by simp [hlate])
  refine ⟨s', ?_, h', by simpa [remaining, hcb, hlate] using hless⟩
  unfold Sequencer.hitReturned
  rw [← hrun, hcb]

/-! ### Runs -/

/-- The actions of the controller, and the return of `hitCallback`. -/
def Action.isCallback : Action → Bool
  | .makeRequest _ => false
  | _ => true

lemma Inv.step (h : Inv c s) {act : Action} (hok : Permitted c s act) :
    ∃ s', s.step c act = .ok s' ∧ Inv c s' ∧
      (act.isCallback → s'.remaining < s.remaining) := by
  cases act with
  | makeRequest pkt =>
    obtain ⟨status, s', hrun, h'⟩ := h.makeRequest hok
    refine ⟨s', ?_, h', nofun⟩
    simp only [Sequencer.step, hrun]
    rfl
  | readCallback address =>
    obtain ⟨hnone, r, hr, hline, hkind⟩ := hok
    obtain ⟨s', hrun, h', hless⟩ := h.startCallback hnone false hr hline hkind
    exact ⟨s', hrun, h', fun _ => hless⟩
  | writeCallback address =>
    obtain ⟨hnone, r, hr, hline, hkind⟩ := hok
    obtain ⟨s', hrun, h', hless⟩ := h.startCallback hnone true hr hline hkind
    exact ⟨s', hrun, h', fun _ => hless⟩
  | hitReturned =>
    obtain ⟨cb, hcb⟩ := Option.isSome_iff_exists.1 hok
    obtain ⟨s', hrun, h', hless⟩ := h.hitReturned hcb
    exact ⟨s', hrun, h', fun _ => hless⟩

/-- What holds in every state. -/
structure Sound (c : Params) (s : Sequencer) : Prop where
  /-- A request counts until its `hitCallback` begins, and is in the table until it returns. -/
  entries : ∑ a, ((s.requestTable a).length : ℤ) =
    s.outstandingCount + if s.callback.isSome then 1 else 0
  limit : s.outstandingCount ≤ c.maxOutstandingRequests
  issuedOnce : ∀ a, (s.issued.filter (c.line · = a)).length ≤ 1
  inFlight : ∀ a, s.requestTable a ≠ [] ↔
    (∃ r ∈ s.issued, c.line r = a) ∨ ∃ cb ∈ s.callback, cb.address = a
  /-- The requests of a line have been answered in order, and those that have not are in the
  table. -/
  order : ∀ a, s.accepted.filter (c.line · = a) =
    s.hits.filter (c.line · = a) ++ waiting s.requestTable s.phase a

lemma Inv.entries (h : Inv c s) : ∑ a, ((s.requestTable a).length : ℤ) =
    s.outstandingCount + if s.callback.isSome then 1 else 0 := by
  have hcount := h.core.count
  rcases hcb : s.callback with _ | cb
  · have hphase : s.phase = none := by simp [phase, hcb]
    simpa [hphase, waiting] using hcount.symm
  · have hphase : s.phase = some (cb.address, true) := by simp [phase, hcb]
    have hne := h.core.called cb.address hphase
    obtain ⟨r, l, hl⟩ := exists_cons_of_ne_nil hne
    have hsum := sum_add_eq (a := cb.address)
      (f := fun b => ((s.requestTable b).length : ℤ))
      (g := fun b => ((waiting s.requestTable s.phase b).length : ℤ))
      fun b hb => by simp [waiting, hphase, Ne.symm hb]
    have hone : waiting s.requestTable s.phase cb.address = l := by simp [waiting, hphase, hl]
    simp only [hone, hl, length_cons] at hsum
    simp only [Option.isSome_some, if_true]
    omega

lemma Inv.sound (h : Inv c s) : Sound c s := by
  refine ⟨h.entries, h.core.limit, fun a => ?_, fun a => ?_, h.core.order⟩
  · rw [h.core.inFlight a]
    split_ifs <;> simp
  · have hmem : (∃ r ∈ s.issued, c.line r = a) ↔ s.issued.filter (c.line · = a) ≠ [] := by
      simp
    rw [hmem, h.core.inFlight a]
    by_cases hcalled : ∃ cb ∈ s.callback, cb.address = a
    · obtain ⟨cb, hcb, rfl⟩ := hcalled
      have hphase : s.phase = some (cb.address, true) := by
        simp [phase, Option.mem_def.1 hcb]
      simp [h.core.called _ hphase, hphase, Option.mem_def.1 hcb]
    · have hphase : s.phase.map Prod.fst ≠ some a := by
        simpa [phase] using hcalled
      rw [if_neg hphase, or_iff_left hcalled]
      simp

/-- As long as a request has not been answered or a callback goes on, there is a callback that can
go on. -/
lemma Inv.progress (h : Inv c s) (hpos : 0 < s.remaining) :
    ∃ act : Action, act.isCallback ∧ Permitted c s act := by
  rcases hcb : s.callback with _ | cb
  · have hout : s.outstandingCount ≠ 0 := by
      rintro h0
      simp [remaining, hcb, h0] at hpos
    have hphase : s.phase = none := by simp [phase, hcb]
    have hne : ∃ a, s.requestTable a ≠ [] := by
      by_contra hall
      push Not at hall
      exact hout (by simpa [hphase, waiting, hall] using h.core.count)
    obtain ⟨a, ha⟩ := hne
    obtain ⟨r, hr, hline⟩ | ⟨cb, hcb', -⟩ := (h.sound.inFlight a).1 ha
    · cases hkind : r.secondType.isLoad with
      | true => exact ⟨.readCallback a, rfl, hcb, r, hr, hline, hkind⟩
      | false => exact ⟨.writeCallback a, rfl, hcb, r, hr, hline, hkind⟩
    · simp [hcb] at hcb'
  · exact ⟨.hitReturned, rfl, by simp [Permitted, hcb]⟩

lemma Inv.answered (h : Inv c s) (hnone : s.remaining ≤ 0) (a : Addr) :
    waiting s.requestTable s.phase a = [] := by
  have hcount := h.core.count
  have hle : ((waiting s.requestTable s.phase a).length : ℤ) ≤ s.outstandingCount := by
    rw [hcount]
    exact Finset.single_le_sum (f := fun a => ((waiting s.requestTable s.phase a).length : ℤ))
      (fun b _ => Int.natCast_nonneg _) (mem_univ a)
  have hzero : 2 * s.outstandingCount ≤ 0 := by
    refine le_trans ?_ hnone
    unfold remaining
    split_ifs <;> omega
  exact eq_nil_of_length_eq_zero (by omega)

lemma exec_inv {acts : List Action} (h : Exec (Guarded (Permitted c) (step c)) init acts s) :
    Inv c s :=
  h.invariant_ok inv_init fun hi hok => (hi.step hok).imp fun _ hs => ⟨hs.1, hs.2.1⟩

/-- In every run the sequencer is sound, no assertion fails, and there are callbacks to come until
every request has been answered. -/
theorem exec_answersOnce {acts : List Action}
    (h : Exec (Guarded (Permitted c) (step c)) init acts s) :
    Sound c s ∧
    (∀ act, Permitted c s act → ∃ s', s.step c act = .ok s' ∧
      (act.isCallback → s'.remaining < s.remaining)) ∧
    (0 < s.remaining → ∃ act : Action, act.isCallback ∧ Permitted c s act) ∧
    (s.remaining ≤ 0 → ∀ a, s.accepted.filter (c.line · = a) = s.hits.filter (c.line · = a)) := by
  have hinv := exec_inv h
  refine ⟨hinv.sound, fun act hok => ?_, hinv.progress, fun hnone a => ?_⟩
  · obtain ⟨s', hrun, -, hless⟩ := hinv.step hok
    exact ⟨s', hrun, hless⟩
  · rw [hinv.core.order a, hinv.answered hnone a, append_nil]

/-- A sequencer with 64-byte lines and room for two requests. -/
def twoRequests : Params := ⟨2, 6, false, by decide⟩

def load (id : ℕ) (addr : Addr) : Packet :=
  ⟨id, 0, addr, true, false, false, false, false, false, false⟩

def store (id : ℕ) (addr : Addr) : Packet :=
  ⟨id, 0, addr, false, true, false, false, false, false, false⟩

/-- While `hitCallback` runs for the only request, it is in the table and does not count. -/
theorem not_count_eq_entries :
    ¬ ∀ (c : Params) (acts : List Action) (s : Sequencer),
      Exec (Guarded (Permitted c) (step c)) init acts s →
      s.outstandingCount = ∑ a, ((s.requestTable a).length : ℤ) := by
  intro h
  obtain ⟨s, hs, hval⟩ := Option.map_eq_some_iff.1
    (show (replay (Permitted twoRequests) (step twoRequests) init
      [.makeRequest (load 0 0x1008), .readCallback 0x1000]).map (·.callback.isSome) = some true by
        decide +kernel)
  have hentries := (exec_inv (exec_of_replay hs)).entries
  rw [← h _ _ _ (exec_of_replay hs), hval] at hentries
  simp at hentries

/-- A load and a store to a line, and a store to it that the processor makes while the load is
answered.  The first store is issued after the load, and both stores are answered together. -/
def storeInCallback : List Action :=
  [.makeRequest (load 0 0x1008), .makeRequest (store 1 0x1010), .makeRequest (load 2 0x2000),
    .readCallback 0x1000, .makeRequest (store 3 0x1018), .hitReturned, .writeCallback 0x1000,
    .hitReturned, .hitReturned]

theorem exec_answersOnce_storeInCallback :
    ∃ s, Exec (Guarded (Permitted twoRequests) (step twoRequests)) init storeInCallback s ∧
      s.hits.map (·.pkt.id) = [0, 1, 3] ∧ s.remaining = 0 ∧ Sound twoRequests s ∧
      ∀ a, s.accepted.filter (twoRequests.line · = a) = s.hits.filter (twoRequests.line · = a) := by
  refine exists_exec (fun s => (s.hits.map (·.pkt.id), s.remaining)) ([0, 1, 3], 0)
    (by decide +kernel) fun s hs hval => ?_
  obtain ⟨hhits, hzero⟩ := Prod.mk.inj hval
  obtain ⟨hsound, -, -, hall⟩ := exec_answersOnce hs
  exact ⟨hhits, hzero, hsound, hall hzero.le⟩

end ChipletGem5.Sequencer
