import ChipletGem5.Ruby.SequencerTable

/-!
# Locked read-modify-writes of the sequencer

A `Locked_RMW_Read` blocks its line when it is answered, and the `Locked_RMW_Write` of the same port
unblocks it.  The requests that were taken before and wait behind the read are answered all the
same.  So the pair is atomic if no store and no other `Locked_RMW_Read` is made while the read
waits.  As the requests of a line are answered in the order in which they were accepted, it is
enough to look at the accepted ones, with the port that holds the line after each of them.
-/

namespace ChipletGem5.Sequencer

open List Option

variable {c : Params} {s s' : Sequencer} {a : Addr} {r : SequencerRequest} {cb : Callback}
  {h : Option ℕ} {l l' : List SequencerRequest} {p q : ℕ}

/-! ### The port that holds a line -/

/-- The types that write. -/
def RubyRequestType.isStore : RubyRequestType → Bool
  | .ST => true
  | .Store_Conditional => true
  | .Locked_RMW_Write => true
  | _ => false

/-- The port that holds the line after a request. -/
def turn (h : Option ℕ) (r : SequencerRequest) : Option ℕ :=
  match r.type with
  | .Locked_RMW_Read => some r.pkt.port
  | .Locked_RMW_Write => none
  | _ => h

/-- The requests that may come while a port, or none, holds the line. -/
def Admissible (h : Option ℕ) (r : SequencerRequest) : Prop :=
  match r.type with
  | .ST => h = none
  | .Store_Conditional => h = none
  | .Locked_RMW_Read => h = none
  | .Locked_RMW_Write => h = some r.pkt.port
  | _ => True

/-- A list of requests that come when they may. -/
def Orderly : Option ℕ → List SequencerRequest → Prop
  | _, [] => True
  | h, r :: l => Admissible h r ∧ Orderly (turn h r) l

lemma orderly_append : Orderly h (l ++ l') ↔ Orderly h l ∧ Orderly (l.foldl turn h) l' := by
  induction l generalizing h with
  | nil => simp [Orderly]
  | cons r l ih => simp only [cons_append, Orderly, ih, foldl_cons, and_assoc]

/-- The `Locked_RMW_Write` of a port. -/
def IsLockedWrite (p : ℕ) (r : SequencerRequest) : Prop :=
  r.type = .Locked_RMW_Write ∧ r.pkt.port = p

/-- The `Locked_RMW_Read` of a port. -/
def IsLockedRead (p : ℕ) (r : SequencerRequest) : Prop :=
  r.type = .Locked_RMW_Read ∧ r.pkt.port = p

instance : Decidable (IsLockedWrite p r) := inferInstanceAs (Decidable (_ ∧ _))

instance : Decidable (IsLockedRead p r) := inferInstanceAs (Decidable (_ ∧ _))

lemma Orderly.store {mid post : List SequencerRequest} {st : SequencerRequest}
    (ho : Orderly (some q) (mid ++ st :: post)) (hst : st.type.isStore) :
    (∃ w ∈ mid, IsLockedWrite q w) ∨ IsLockedWrite q st := by
  induction mid with
  | nil =>
    obtain ⟨hadm, -⟩ := ho
    unfold Admissible at hadm
    refine .inr ?_
    cases ht : st.type <;> simp [ht, RubyRequestType.isStore] at hadm hst
    exact ⟨ht, hadm.symm⟩
  | cons x mid ih =>
    obtain ⟨hadm, ho⟩ := ho
    unfold Admissible at hadm
    unfold turn at ho
    cases ht : x.type <;> simp only [ht, reduceCtorEq] at hadm ho
    case Locked_RMW_Write =>
      exact .inl ⟨x, mem_cons_self, ht, (some.inj hadm).symm⟩
    all_goals
      exact (ih ho).imp_left fun ⟨w, hw, hport⟩ => ⟨w, mem_cons_of_mem _ hw, hport⟩

lemma Orderly.count (ho : Orderly h l) (p : ℕ) :
    l.countP (IsLockedRead p ·) + (if h = some p then 1 else 0) =
      l.countP (IsLockedWrite p ·) + if l.foldl turn h = some p then 1 else 0 := by
  induction l generalizing h with
  | nil => rfl
  | cons x l ih =>
    obtain ⟨hadm, ho⟩ := ho
    have hrest := ih ho
    rw [countP_cons, countP_cons, foldl_cons]
    unfold Admissible at hadm
    cases ht : x.type with
    | Locked_RMW_Read =>
      have hturn : turn h x = some x.pkt.port := by simp [turn, ht]
      have hread : IsLockedRead p x ↔ x.pkt.port = p := by simp [IsLockedRead, ht]
      have hwrite : ¬ IsLockedWrite p x := by simp [IsLockedWrite, ht]
      simp only [ht] at hadm
      simp only [hturn, some.injEq] at hrest ⊢
      simp only [hread, hwrite, hadm, reduceCtorEq, decide_eq_true_eq, if_false]
      omega
    | Locked_RMW_Write =>
      have hturn : turn h x = none := by simp [turn, ht]
      have hread : ¬ IsLockedRead p x := by simp [IsLockedRead, ht]
      have hwrite : IsLockedWrite p x ↔ x.pkt.port = p := by simp [IsLockedWrite, ht]
      simp only [ht] at hadm
      simp only [hturn, reduceCtorEq, if_false] at hrest ⊢
      simp only [hread, hwrite, hadm, some.injEq, decide_eq_true_eq, if_false]
      omega
    | _ =>
      have hturn : turn h x = h := by simp [turn, ht]
      rw [hturn] at hrest ⊢
      simpa [IsLockedRead, IsLockedWrite, ht] using hrest

lemma foldl_turn_none (hl : ∀ r ∈ l, r.type ≠ .Locked_RMW_Read) : l.foldl turn none = none := by
  induction l with
  | nil => rfl
  | cons x l ih =>
    have hturn : turn none x = none := by
      unfold turn
      split <;> simp_all
    rw [foldl_cons, hturn]
    exact ih fun r hr => hl r (.tail _ hr)

/-! ### The condition on new requests -/

/-- The primary type that `makeRequest` finds. -/
def primaryType (c : Params) (pkt : Packet) : Option RubyRequestType :=
  match requestTypes c pkt with
  | .ok (t, _) => some t
  | .error _ => none

/-- A port makes a `Locked_RMW_Write` after the answer to a `Locked_RMW_Read` of its own for the
line, once for each of them. -/
def Owes (c : Params) (s : Sequencer) (pkt : Packet) : Prop :=
  (s.accepted.filter (c.line · = c.makeLineAddress pkt.addr)).countP (IsLockedWrite pkt.port ·) <
    (s.hits.filter (c.line · = c.makeLineAddress pkt.addr)).countP (IsLockedRead pkt.port ·)

/-- What processors and controller may do. -/
def Legal (c : Params) (s : Sequencer) (act : Action) : Prop :=
  Permitted c s act ∧
    match act with
    | .makeRequest pkt => primaryType c pkt = some .Locked_RMW_Write → Owes c s pkt
    | _ => True

/-- A store or a `Locked_RMW_Read` is made for a line only if no `Locked_RMW_Read` for it waits, or
if the line is blocked. -/
def Unqueued (c : Params) (s : Sequencer) : Action → Prop
  | .makeRequest pkt =>
      primaryType c pkt ∈ [some .ST, some .Store_Conditional, some .Locked_RMW_Read] →
        c.makeLineAddress pkt.addr ∈ s.blockMap ∨
          ∀ x ∈ s.requestTable (c.makeLineAddress pkt.addr), x.type ≠ .Locked_RMW_Read
  | _ => True

instance (pkt : Packet) : Decidable (Owes c s pkt) := inferInstanceAs (Decidable (_ < _))

instance (act : Action) : Decidable (Legal c s act) :=
  match act with
  | .makeRequest _ => inferInstanceAs (Decidable (_ ∧ (_ → _)))
  | .readCallback _ | .writeCallback _ | .hitReturned => inferInstanceAs (Decidable (_ ∧ True))

instance (act : Action) : Decidable (Unqueued c s act) :=
  match act with
  | .makeRequest _ => inferInstanceAs (Decidable (_ → _))
  | .readCallback _ | .writeCallback _ | .hitReturned => inferInstanceAs (Decidable True)

/-! ### The invariant -/

/-- The invariant: the requests are accepted when they may come, and the blocked lines are those
that a port holds. -/
structure Locks (c : Params) (s : Sequencer) : Prop where
  inv : Inv c s
  orderly : ∀ a, Orderly none (s.accepted.filter (c.line · = a))
  blocked : ∀ a, a ∈ s.blockMap ↔ (s.hits.filter (c.line · = a)).foldl turn none ≠ none

lemma locks_init : Locks c init :=
  ⟨inv_init, fun _ => trivial, fun a => by simp [init]⟩

lemma Locks.orderly_hits (h : Locks c s) (a : Addr) :
    Orderly none (s.hits.filter (c.line · = a)) ∧
      Orderly ((s.hits.filter (c.line · = a)).foldl turn none)
        (waiting s.requestTable s.phase a) := by
  have ho := h.orderly a
  rw [h.inv.core.order a] at ho
  exact orderly_append.1 ho

lemma Locks.foldl_accepted (h : Locks c s) (a : Addr) :
    (s.accepted.filter (c.line · = a)).foldl turn none =
      (waiting s.requestTable s.phase a).foldl turn
        ((s.hits.filter (c.line · = a)).foldl turn none) := by
  rw [h.inv.core.order a, foldl_append]

lemma mem_of_mem_waiting {table : Addr → List SequencerRequest} {ph : Phase}
    (hr : r ∈ waiting table ph a) : r ∈ table a := by
  unfold waiting at hr
  split_ifs at hr
  · exact mem_of_mem_tail hr
  · exact hr

lemma Locks.free (h : Locks c s) (hb : a ∉ s.blockMap)
    (hl : ∀ x ∈ s.requestTable a, x.type ≠ .Locked_RMW_Read) :
    (s.accepted.filter (c.line · = a)).foldl turn none = none := by
  rw [h.blocked a, not_not] at hb
  rw [h.foldl_accepted a, hb]
  exact foldl_turn_none fun r hr => hl r (mem_of_mem_waiting hr)

/-- A port that may make a `Locked_RMW_Write` holds the line, and still does when all requests have
been answered. -/
lemma Locks.held (h : Locks c s)
    (howes : (s.accepted.filter (c.line · = a)).countP (IsLockedWrite p ·) <
      (s.hits.filter (c.line · = a)).countP (IsLockedRead p ·)) :
    (s.accepted.filter (c.line · = a)).foldl turn none = some p := by
  obtain ⟨hhits, hwait⟩ := h.orderly_hits a
  have hcount := hhits.count p
  have hcount' := hwait.count p
  rw [h.foldl_accepted a]
  rw [h.inv.core.order a, countP_append] at howes
  by_contra hne
  split_ifs at hcount hcount' <;> omega

lemma Locks.makeRequest {pkt : Packet} (h : Locks c s) (hinv : Inv c s')
    (hok : Legal c s (.makeRequest pkt)) (hun : Unqueued c s (.makeRequest pkt))
    (hrun : s.step c (.makeRequest pkt) = .ok s') : Locks c s' := by
  obtain ⟨t1, t2, htypes, -, heq⟩ := makeRequest_eq (c := c) (s := s) hok.1
  have hprimary : primaryType c pkt = some t1 := by simp [primaryType, htypes]
  simp only [Sequencer.step, heq] at hrun
  cases hrun
  split_ifs at hinv ⊢ with hfull hblock
  · exact h
  · exact h
  · refine ⟨hinv, fun a => ?_, h.blocked⟩
    simp only [Sequencer.accept, filter_append]
    by_cases ha : c.makeLineAddress pkt.addr = a
    · have hnew : [(⟨pkt, t1, t2⟩ : SequencerRequest)].filter (c.line · = a) = [⟨pkt, t1, t2⟩] := by
        simp [Params.line, ha]
      rw [hnew, orderly_append]
      refine ⟨h.orderly a, ?_, trivial⟩
      have hfree : primaryType c pkt ∈
          [some .ST, some .Store_Conditional, some .Locked_RMW_Read] →
          (s.accepted.filter (c.line · = a)).foldl turn none = none := by
        intro hmem
        have hnot : c.makeLineAddress pkt.addr ∉ s.blockMap := by
          intro hin
          refine hblock ⟨hin, ?_⟩
          rintro rfl
          simp [hprimary] at hmem
        rw [ha] at hnot
        exact h.free hnot (by simpa [ha, hnot] using hun hmem)
      cases t1 with
      | ST | Store_Conditional | Locked_RMW_Read => exact hfree (by simp [hprimary])
      | Locked_RMW_Write =>
        have howes := hok.2 hprimary
        unfold Owes at howes
        rw [ha] at howes
        exact h.held howes
      | _ => trivial
    · have hnew : [(⟨pkt, t1, t2⟩ : SequencerRequest)].filter (c.line · = a) = [] := by
        simp [Params.line, ha]
      rw [hnew, append_nil]
      exact h.orderly a

lemma round_cases (hrun : s.round cb = .ok s') :
    s'.accepted = s.accepted ∧ (s'.hits = s.hits ∧ s'.blockMap = s.blockMap ∨
      ∃ r ∈ s.requestTable cb.address, s'.hits = s.hits ++ [r] ∧
        s'.blockMap = (s.block cb.address r.type).blockMap) := by
  have hload : ∀ {r : SequencerRequest}, r.type.isLoad → s.block cb.address r.type = s := by
    intro r hr
    cases ht : r.type <;> simp [ht, RubyRequestType.isLoad] at hr <;> rfl
  unfold round at hrun
  rcases hl : s.requestTable cb.address with _ | ⟨r, rest⟩
  · simp only [hl] at hrun
    cases hrun
    exact ⟨rfl, .inl ⟨rfl, rfl⟩⟩
  · simp only [hl] at hrun
    split_ifs at hrun
    · obtain ⟨_, -, hrun⟩ := bind_eq_ok.1 hrun
      obtain ⟨_, -, hrun⟩ := bind_eq_ok.1 hrun
      obtain ⟨_, -, hrun⟩ := bind_eq_ok.1 hrun
      split_ifs at hrun with hr
      · obtain ⟨_, -, hrun⟩ := bind_eq_ok.1 hrun
        cases hrun
        exact ⟨rfl, .inr ⟨r, by simp, rfl, by rw [hload hr]; rfl⟩⟩
      · cases hrun
        refine ⟨?_, .inr ⟨r, by simp, ?_, rfl⟩⟩
        all_goals
          rw [block_eq]
          rfl
    · obtain ⟨_, -, hrun⟩ := bind_eq_ok.1 hrun
      split_ifs at hrun with hr
      · cases hrun
        exact ⟨rfl, .inr ⟨r, by simp, rfl, by rw [hload hr]; rfl⟩⟩
      · cases hrun
        exact ⟨rfl, .inl ⟨rfl, rfl⟩⟩

variable {act : Action}

lemma Inv.callback_cases (h : Inv c s) (hact : act.isCallback)
    (hrun : s.step c act = .ok s') :
    s'.accepted = s.accepted ∧ (s'.hits = s.hits ∧ s'.blockMap = s.blockMap ∨
      ∃ r, s'.hits = s.hits ++ [r] ∧ s'.blockMap = (s.block (c.line r) r.type).blockMap) := by
  cases act with
  | makeRequest pkt => cases hact
  | readCallback a | writeCallback a =>
    obtain ⟨_, -, hrun⟩ := bind_eq_ok.1 hrun
    obtain ⟨_, -, hrun⟩ := bind_eq_ok.1 hrun
    obtain ⟨hacc, hsame | ⟨r, hr, hhits, hblock⟩⟩ := round_cases hrun
    · exact ⟨hacc, .inl hsame⟩
    · refine ⟨hacc, .inr ⟨r, hhits, ?_⟩⟩
      rw [(h.core.entries a r hr).1, hblock]
      cases r.type <;> rfl
  | hitReturned =>
    simp only [Sequencer.step, Sequencer.hitReturned] at hrun
    rcases hcb : s.callback with _ | cb
    · simp [hcb] at hrun
    · simp only [hcb] at hrun
      obtain ⟨hacc, hsame | ⟨r, hr, hhits, hblock⟩⟩ := round_cases hrun
      · exact ⟨hacc, .inl hsame⟩
      · refine ⟨hacc, .inr ⟨r, hhits, ?_⟩⟩
        simp only [Function.update_self] at hr
        rw [(h.core.entries cb.address r (mem_of_mem_tail hr)).1, hblock]
        cases r.type <;> rfl

lemma Locks.callback (h : Locks c s) (hinv : Inv c s')
    (hact : act.isCallback) (hrun : s.step c act = .ok s') : Locks c s' := by
  obtain ⟨hacc, ⟨hhits, hblock⟩ | ⟨r, hhits, hblock⟩⟩ := h.inv.callback_cases hact hrun
  · exact ⟨hinv, by rw [hacc]; exact h.orderly, by rw [hhits, hblock]; exact h.blocked⟩
  · refine ⟨hinv, by rw [hacc]; exact h.orderly, fun b => ?_⟩
    rw [hblock, hhits, filter_append]
    by_cases hline : c.line r = b
    · subst hline
      rw [filter_cons_of_pos (by simp), foldl_append, filter_nil, foldl_cons, foldl_nil, turn]
      cases r.type <;> simp [block, h.blocked]
    · rw [filter_cons_of_neg (by simpa using hline), filter_nil, append_nil, ← h.blocked b]
      cases r.type <;> simp [block, Ne.symm hline]

lemma Locks.step (h : Locks c s) (hok : Legal c s act) (hun : Unqueued c s act)
    (hrun : s.step c act = .ok s') : Locks c s' := by
  obtain ⟨s1, hrun1, hinv, -⟩ := h.inv.step hok.1
  cases hrun1.symm.trans hrun
  cases act with
  | makeRequest pkt => exact h.makeRequest hinv hok hun hrun
  | readCallback _ | writeCallback _ | hitReturned => exact h.callback hinv rfl hrun

/-! ### Atomicity -/

/-- The answers after a `Locked_RMW_Read`, to stores to the line: the first is that to the
`Locked_RMW_Write` of the same port. -/
def Atomic (c : Params) (hits : List SequencerRequest) : Prop :=
  ∀ pre read mid st post, hits = pre ++ read :: (mid ++ st :: post) →
    read.type = .Locked_RMW_Read → c.line st = c.line read → st.type.isStore →
    IsLockedWrite read.pkt.port st ∨
      ∃ w ∈ mid, IsLockedWrite read.pkt.port w ∧ c.line w = c.line read

lemma atomic_of_orderly (ho : ∀ a, Orderly none (l.filter (c.line · = a))) : Atomic c l := by
  rintro pre read mid st post rfl hread hline hst
  have ho := ho (c.line read)
  rw [filter_append, filter_cons_of_pos (by simp), filter_append,
    filter_cons_of_pos (by simpa using hline), orderly_append] at ho
  obtain ⟨-, -, ho⟩ := ho
  have hturn : ∀ h, turn h read = some read.pkt.port := fun h => by simp [turn, hread]
  rw [hturn] at ho
  obtain ⟨w, hw, hmatch⟩ | hmatch := ho.store hst
  · obtain ⟨hw, hline⟩ := mem_filter.1 hw
    exact .inr ⟨w, hw, hmatch, by simpa using hline⟩
  · exact .inl hmatch

/-- In every run in which no store and no `Locked_RMW_Read` is made for a line while a
`Locked_RMW_Read` for it waits, locked read-modify-writes are atomic. -/
theorem exec_atomic {acts : List Action}
    (h : Exec (Guarded (fun s act => Legal c s act ∧ Unqueued c s act) (step c)) init acts s) :
    Atomic c s.hits := by
  have hlocks : Locks c s := h.invariant_state locks_init fun {s act s'} hi hs =>
    hi.step hs.1.1 hs.1.2 hs.2
  exact atomic_of_orderly fun a => (hlocks.orderly_hits a).1

/-- A part of a locked read-modify-write. -/
def locked (id port : ℕ) (write : Bool) (addr : Addr) : Packet :=
  ⟨id, port, addr, !write, write, false, false, true, false, false⟩

/-- A store of port 1 that is made while the `Locked_RMW_Read` of port 0 waits. -/
def storeBehindRead : List Action :=
  [.makeRequest (locked 0 0 false 0x1008), .makeRequest { store 1 0x1008 with port := 1 },
    .writeCallback 0x1000, .hitReturned, .hitReturned, .makeRequest (locked 2 0 true 0x1008),
    .writeCallback 0x1000, .hitReturned]

/-- The store that waits behind the `Locked_RMW_Read` is performed before the
`Locked_RMW_Write`. -/
theorem not_atomic_storeBehindRead :
    ¬ ∀ (c : Params) (acts : List Action) (s : Sequencer),
      Exec (Guarded (Legal c) (step c)) init acts s → Atomic c s.hits := by
  intro h
  obtain ⟨s, hs, hval⟩ := map_eq_some_iff.1
    (show (replay (Legal twoRequests) (step twoRequests) init storeBehindRead).map (·.hits) =
      some ([] ++ ⟨locked 0 0 false 0x1008, .Locked_RMW_Read, .ST⟩ ::
        ([] ++ ⟨{ store 1 0x1008 with port := 1 }, .ST, .ST⟩ ::
          [⟨locked 2 0 true 0x1008, .Locked_RMW_Write, .ST⟩])) by decide +kernel)
  obtain hmatch | ⟨w, hw, -⟩ := h _ _ _ (exec_of_replay hs) _ _ _ _ _ hval rfl (by decide) rfl
  · cases hmatch.1
  · cases hw

/-- The two parts of a locked read-modify-write, with a load that waits behind the first, and a
store that is refused in between and taken afterwards. -/
def lockedPair : List Action :=
  [.makeRequest (locked 0 0 false 0x1008), .makeRequest (load 1 0x1010), .writeCallback 0x1000,
    .makeRequest (store 2 0x1008), .hitReturned, .makeRequest (locked 3 0 true 0x1008),
    .hitReturned, .hitReturned, .makeRequest (store 4 0x1008), .writeCallback 0x1000]

theorem exec_atomic_lockedPair :
    ∃ s, Exec (Guarded (fun s act => Legal twoRequests s act ∧ Unqueued twoRequests s act)
        (step twoRequests)) init lockedPair s ∧
      s.hits.map (·.pkt.id) = [0, 1, 3, 4] ∧ Atomic twoRequests s.hits := by
  exact exists_exec (fun s => s.hits.map (·.pkt.id)) [0, 1, 3, 4] (by decide +kernel)
    fun s hs hval => ⟨hval, exec_atomic hs⟩

end ChipletGem5.Sequencer
