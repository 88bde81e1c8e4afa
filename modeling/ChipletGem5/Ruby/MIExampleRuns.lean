import ChipletGem5.Ruby.MIExampleMemKeeps

/-!
# Runs of `MI_example`

What the invariant says about whole runs.  Without DMA every event has a transition, at most one
cache has a line in state `M`, and every request observes the value of the line.  With DMA the
directory may meet events that it has no transition for, unless the requests are `Orderly`; and a
DMA write to an owned line drops the data of the owner.
-/

namespace ChipletGem5.MIExample

open Lines Option System Phase Prod Except

variable {A C D : Type} {n : ℕ} [DecidableEq A] [DecidableEq C] [DecidableEq D] {strict : Bool}
  {v : Block n} {mem : A → Block n} {p : Phase C D n} {s s' : MISystem A C D n} {a : A} {c : C}

/-! ### The invariant holds -/

lemma inv_initial (strict : Bool) (mem : A → Block n) (a : A) :
    Inv strict (mem a) ((initial C D mem).line a) := by
  refine ⟨trivial, .idle, ?_⟩
  constructor
  case proper => trivial
  case state => rfl
  case owner => rfl
  case tbe => rfl
  case memory => exact ⟨rfl, rfl, rfl⟩
  case caches => exact fun c => .absent ⟨rfl, nofun, .inl ⟨rfl, rfl⟩⟩ rfl rfl rfl
  case dmas => exact fun d => .ready rfl rfl rfl
  case single => exact fun _ d d' hd => absurd rfl hd
  case quiet => exact nofun
  case logged => exact nofun

/-- A run from the initial state. -/
abbrev Run (mem : A → Block n) (mvs : List (MIMove A C D n)) (s : MISystem A C D n) : Prop :=
  Exec (Guarded (fun _ _ => True) (System.step program)) (initial C D mem) mvs s

/-- The runs in which DMA is orderly. -/
abbrev OrderlyRun (mem : A → Block n) (mvs : List (MIMove A C D n)) (s : MISystem A C D n) : Prop :=
  Exec (Guarded (System.Allowed program Orderly) (System.step program)) (initial C D mem) mvs s

variable {mvs : List (MIMove A C D n)} {mv : MIMove A C D n} {l : MILine C D n}

lemma Run.inv (h : Run mem mvs s) (a : A) : Inv false (mem a) (s.line a) := by
  refine line_invariant (fun _ _ => True) h (fun _ _ _ _ => trivial)
    (inv_initial false mem) ?_ a
  intro a l b l' hl _ hstep
  have hgood := good_step hl b nofun
  rwa [hstep] at hgood

lemma OrderlyRun.inv (h : OrderlyRun mem mvs s) (a : A) : Inv true (mem a) (s.line a) := by
  refine line_invariant Orderly h id (inv_initial true mem) ?_ a
  intro a l b l' hl hok hstep
  have hgood := good_step hl b fun _ => hok
  rwa [hstep] at hgood

lemma OrderlyRun.step_ok (h : OrderlyRun mem mvs s) (hmv : System.Allowed program Orderly s mv) :
    ∃ s', s.step program mv = .ok s' := by
  rcases htarget : s.target program mv with _ | ⟨a, b⟩
  · exact ⟨s, step_of_target_eq_none htarget⟩
  · rcases step_of_target htarget with ⟨e, he, -⟩ | ⟨l, s', -, hs', -⟩
    · have hgood := good_step (h.inv a) b fun _ => hmv a b htarget
      rw [he] at hgood
      cases hgood
    · exact ⟨s', hs'⟩

/-! ### Without DMA -/

lemma orderly_of_isEmpty [IsEmpty D] (l : MILine C D n) (b : Move (Chan C D) (Action C D n)) :
    Orderly l b := by
  cases b with
  | act b =>
    cases b with
    | dma d write offset data => exact isEmptyElim d
    | request _ _ | mandatory _ | replacement _ => trivial
  | deliver k i pos =>
    cases k with
    | dmaRequest d => exact isEmptyElim d
    | request _ | forward _ | response _ _ | dmaResponse _ | toMemory | fromMemory => trivial

lemma Run.orderly [IsEmpty D] (h : Run mem mvs s) : OrderlyRun mem mvs s := by
  induction h with
  | nil => exact .nil
  | snoc _ hs ih => exact ih.snoc ⟨fun _ _ _ => orderly_of_isEmpty _ _, hs.2⟩

lemma CacheOK.holds_of_state {w : View C D n} {r : Role C} (h : CacheOK c v w r)
    (hM : w.line.state = .M) : ∃ succ blocked, r = .chain true succ blocked := by
  have habsent : ¬ Absent w.line := fun hl => by cases hl.state.symm.trans hM
  have hwaiting : ¬ Waiting w.line := by
    rintro ⟨⟨r, rs, -, ⟨t, ht⟩, -⟩, -⟩
    rw [L1Line.state, ht] at hM
    cases r <;> cases hM
  have hleaving : ∀ {st b}, st ≠ .M → ¬ Leaving st b w.line := by
    rintro st b hst ⟨ht, -, -⟩
    rw [L1Line.state, ht] at hM
    exact hst hM
  cases h with
  | absent hl hq hf hr => exact absurd hl habsent
  | requested hl _ _ _ | fetching hl _ _ _ | waiting hl _ _ _ => exact absurd hl hwaiting
  | arriving _ _ _ _ _ | owning _ _ _ _ | leaving _ _ _ _ | left _ _ _ _ => exact ⟨_, _, rfl⟩
  | refused hl _ _ _ | nacked hl _ _ _ | acked hl _ _ _ _ | writing hl _ _ _ =>
      exact absurd hl (hleaving nofun)

lemma Inv.eq_of_state {init : Block n} (h : Inv strict init l) {c c' : C}
    (hc : (l.loc.l1 c).state = .M) (hc' : (l.loc.l1 c').state = .M) : c = c' := by
  obtain ⟨-, p, h⟩ := h
  obtain ⟨succ, blocked, hr⟩ := (h.caches c).holds_of_state hc
  obtain ⟨succ', blocked', hr'⟩ := (h.caches c').holds_of_state hc'
  obtain ⟨pre, o, job, rfl, rfl⟩ := role_holds hr
  obtain ⟨pre', o', job', heq, rfl⟩ := role_holds hr'
  cases heq
  rfl

/-- Without DMA, in every state that a run reaches: no step fails, whatever message is delivered
or request is made; at most one cache has a line in state `M`; and every load and store has
observed what the latest store to its line before it has produced. -/
theorem coherent_without_dma {mvs : List (MIMove A C Empty n)} {s : MISystem A C Empty n}
    (h : Run mem mvs s) :
    (∀ mv, ∃ s', s.step program mv = .ok s') ∧
      (∀ a c c', ((s.loc a).l1 c).state = .M → ((s.loc a).l1 c').state = .M → c = c') ∧
      ∀ a, Coherent (mem a) (s.loc a).log :=
  ⟨fun _ => h.orderly.step_ok fun _ _ _ => orderly_of_isEmpty _ _,
    fun a _ _ hc hc' => (h.inv a).eq_of_state hc hc', fun a => (h.inv a).1⟩

/-- A cache makes a request for the line, which the memory answers. -/
def fetchMoves (a : A) (c : C) (r : Request n) : List (MIMove A C D n) :=
  [.act (a, .request c r), .act (a, .mandatory c), .deliver (.request c) 0 0,
    .deliver .toMemory 0 0, .deliver .fromMemory 0 0, .deliver (.response .directory c) 0 0]

/-- A cache stores to a line, and another one loads it. -/
theorem coherent_without_dma_forward : ∃ (mvs : List (MIMove Bool (Fin 2) Empty 1))
    (s : MISystem Bool (Fin 2) Empty 1), Run (fun _ => 0) mvs s ∧
      (s.loc true).log = [.load 1 fun _ => 7, .store 0 0 fun _ => 7] ∧
      (∀ mv, ∃ s', s.step program mv = .ok s') ∧
      (∀ a c c', ((s.loc a).l1 c).state = .M → ((s.loc a).l1 c').state = .M → c = c') ∧
      ∀ a, Coherent 0 (s.loc a).log := by
  refine ⟨fetchMoves true 0 (.store fun _ _ => 7) ++ [.act (true, .request 1 .load),
    .act (true, .mandatory 1), .deliver (.request 1) 0 0, .deliver (.forward 0) 0 0,
    .deliver (.response (.l1Cache 0) 1) 0 0], ?_⟩
  exact exists_exec (fun s => (s.loc true).log) [.load 1 fun _ => 7, .store 0 0 fun _ => 7]
    (by decide +kernel) fun s hs hlog => ⟨hlog, coherent_without_dma hs⟩

/-! ### The directory and DMA -/

/-- If DMA is orderly in a run, the directory has a transition for every event that it takes; no
other controller fails either. -/
theorem dma_defined_of_orderly {mvs : List (MIMove A C D n)} (h : OrderlyRun mem mvs s)
    {mv : MIMove A C D n} (hmv : System.Allowed program Orderly s mv) :
    ∃ s', s.step program mv = .ok s' :=
  h.step_ok hmv

instance [Fintype C] [Fintype D] (l : MILine C D n) (b : Move (Chan C D) (Action C D n)) :
    Decidable (Orderly l b) :=
  match b with
  | .act (.dma d _ _ _) => inferInstanceAs (Decidable
      (l.loc.dma d = none → (∀ d', l.loc.dma d' = none) ∧ l.loc.dir.state ≠ .M_DRDI))
  | .deliver (.dmaRequest _) _ _ => inferInstanceAs (Decidable (l.loc.dir.state = .M →
      (∀ c, ∀ m ∈ l.chan (.forward c), m.isGETX = false) ∧
        ∀ c, (∃ m ∈ l.chan (.request c), m.isPUTX) → .l1Cache c ∈ l.loc.dir.owner))
  | .act (.request _ _) | .act (.mandatory _) | .act (.replacement _) => .isTrue trivial
  | .deliver (.request _) _ _ | .deliver (.forward _) _ _ | .deliver (.response _ _) _ _
  | .deliver (.dmaResponse _) _ _ | .deliver .toMemory _ _ | .deliver .fromMemory _ _ =>
      .isTrue trivial

/-- A DMA controller reads a line that a cache owns. -/
theorem dma_defined_of_orderly_read : ∃ (mvs : List (MIMove Unit (Fin 1) (Fin 1) 1))
    (s : MISystem Unit (Fin 1) (Fin 1) 1), OrderlyRun (fun _ => 0) mvs s ∧
      (s.loc ()).dir.state = .M_DRD ∧
        ∃ s', s.step program (.deliver (.forward 0) 0 0) = .ok s' := by
  refine ⟨fetchMoves () 0 (.store fun _ _ => 7) ++ [.act ((), .dma 0 false 0 [0]),
    .deliver (.dmaRequest 0) 0 0], exists_exec (fun s => (s.loc ()).dir.state) .M_DRD
      (by decide +kernel) fun s hs hstate => ⟨hstate, dma_defined_of_orderly hs ?_⟩⟩
  rintro a b hb
  obtain ⟨q, -, hq⟩ := map_eq_some_iff.1 hb
  cases hq
  trivial

/-- The step fails for want of a transition. -/
def Undefined (s : MISystem A C D n) (mv : MIMove A C D n) : Bool :=
  match s.step program mv with
  | .error e => e = invalidTransition
  | .ok _ => false

lemma step_of_undefined (h : Undefined s mv) :
    s.step program mv = .error invalidTransition := by
  rcases hstep : s.step program mv with e | s'
  · rw [Undefined, hstep] at h
    exact congrArg _ (of_decide_eq_true h)
  · rw [Undefined, hstep] at h
    cases h

/-- A cache replaces a line that another one has requested.  A DMA read then blocks the directory,
which has no transition for the writeback of the first cache. -/
theorem not_dma_defined : ¬ ∀ (mvs : List (MIMove Unit (Fin 2) (Fin 1) 1))
    (s : MISystem Unit (Fin 2) (Fin 1) 1) (mv : MIMove Unit (Fin 2) (Fin 1) 1),
      Run (fun _ => 0) mvs s → s.step program mv ≠ .error invalidTransition := by
  intro hall
  obtain ⟨s, hs, hfail⟩ := map_eq_some_iff.1 (show (replay (fun _ _ => True)
    (step program) (initial (Fin 2) (Fin 1) fun _ : Unit => (0 : Block 1))
      (fetchMoves () 0 .load ++ [.act ((), .request 1 .load), .act ((), .mandatory 1),
        .act ((), .replacement 0), .deliver (.request 1) 0 0, .act ((), .dma 0 false 0 [0]),
        .deliver (.dmaRequest 0) 0 0])).map (fun s => Undefined s (.deliver (.request 0) 0 0)) =
      some true by decide +kernel)
  exact hall _ s _ (exec_of_replay hs) (step_of_undefined hfail)

/-! ### DMA writes -/

section Log

variable {x : Local C D n} {o : Outcome (Local C D n) (Chan C D) (Msg C D n)}
  {m : Msg C D n} {inMsg : Option (Msg C D n)}

omit [DecidableEq D] in
lemma onL1_dir {ev : CacheEvent} (h : x.onL1 c inMsg ev = .ok o) : o.next.dir = x.dir := by
  obtain ⟨y, -, hy⟩ := bind_eq_ok.1 h
  rw [← ok.inj hy]

omit [DecidableEq C] in
lemma onDMA_dir {d : D} {req : Option (SequencerMsg n)} {ev : DMAEvent}
    (h : x.onDMA d req inMsg ev = .ok o) : o.next.dir = x.dir := by
  obtain ⟨y, -, hy⟩ := bind_eq_ok.1 h
  rw [← ok.inj hy]

omit [DecidableEq C] [DecidableEq D] in
lemma onDir_log {ev : DirEvent} (h : x.onDir m ev = .ok o) :
    o.next.log = x.dmaWrites m ev ++ x.log := by
  obtain ⟨y, -, hy⟩ := bind_eq_ok.1 h
  rw [← ok.inj hy]

lemma handle_log {k : Chan C D} (h : handle k m x = .ok o) (hdir : o.next.dir ≠ x.dir) :
    ∃ ev, o.next.log = x.dmaWrites m ev ++ x.log := by
  unfold handle at h
  split at h
  · obtain ⟨ev, -, hev⟩ := bind_eq_ok.1 h
    exact ⟨ev, onDir_log hev⟩
  · obtain ⟨ev, -, hev⟩ := bind_eq_ok.1 h
    exact ⟨ev, onDir_log hev⟩
  · exact ⟨_, onDir_log h⟩
  · obtain ⟨ev, -, hev⟩ := bind_eq_ok.1 h
    exact absurd (onL1_dir hev) hdir
  · obtain ⟨ev, -, hev⟩ := bind_eq_ok.1 h
    exact absurd (onL1_dir hev) hdir
  · obtain ⟨ev, -, hev⟩ := bind_eq_ok.1 h
    exact absurd (onDMA_dir hev) hdir
  · obtain ⟨y, -, hy⟩ := bind_eq_ok.1 h
    rw [← ok.inj hy] at hdir
    exact absurd rfl hdir
  · cases h

lemma perform_dir {b : Action C D n} (h : b.perform x = .ok o) : o.next.dir = x.dir := by
  cases b with
  | request c r => rw [← ok.inj h]
  | mandatory c =>
    simp only [Action.perform] at h
    split at h
    · obtain ⟨ev, -, hev⟩ := bind_eq_ok.1 h
      exact onL1_dir hev
    · rw [← ok.inj h]
  | replacement c => exact onL1_dir h
  | dma d write offset data => exact onDMA_dir h

/-- A step that changes the directory is one of its own, which may log a DMA write. -/
lemma log_of_dir_ne {l' : MILine C D n} {b : Move (Chan C D) (Action C D n)}
    (h : l.step program b = .ok l') (hdir : l'.loc.dir ≠ l.loc.dir) :
    ∃ m ev, l'.loc.log = l.loc.dmaWrites m ev ++ l.loc.log := by
  cases b with
  | act b =>
    obtain ⟨o, ho, rfl⟩ := map_eq_ok.1 h
    exact absurd (perform_dir ho) hdir
  | deliver k i pos =>
    rw [Line.step] at h
    split_ifs at h with hi
    · split at h
      · obtain ⟨o, ho, rfl⟩ := map_eq_ok.1 h
        obtain ⟨ev, hev⟩ := handle_log ho hdir
        exact ⟨_, ev, hev⟩
      · exact absurd (congrArg (·.loc.dir) (ok.inj h).symm) hdir
    · exact absurd (congrArg (·.loc.dir) (ok.inj h).symm) hdir

end Log

lemma InvAt.dir_state (h : InvAt strict v p l) : l.loc.dir.state = p.state := by
  have hstate := h.state
  have htbe := h.tbe
  rw [DirLine.state]
  cases p with
  | idle => rw [htbe]; exact hstate
  | fetch c =>
    obtain ⟨t, ht, hst⟩ := htbe
    rwa [ht]
  | owned pre o job =>
    cases job with
    | none => rw [htbe]; exact hstate
    | some j => rw [htbe]
  | back c job =>
    cases job with
    | none =>
      obtain ⟨t, ht, hst⟩ := htbe
      rwa [ht]
    | some j => rw [htbe]
  | dma j =>
    obtain ⟨t, ht, hst, -⟩ := htbe
    rwa [ht]

omit [DecidableEq C] [DecidableEq D] in
lemma Phase.writes_of_state (h : p.state = .ID_W ∨ p.state = .M_DWRI) : p.writes := by
  cases p with
  | idle | fetch _ => rcases h with h | h <;> cases h
  | owned pre o job => rcases job with _ | j <;> simp only [state] at h <;> grind
  | back c job => rcases job with _ | j <;> simp only [state, writes] at h ⊢ <;> grind
  | dma j => simp only [state, writes] at h ⊢; grind

omit [DecidableEq C] [DecidableEq D] in
lemma Phase.eq_idle_of_state (h : p.state = .I) : p = .idle := by
  cases p with
  | idle => rfl
  | fetch c => cases h
  | owned _ _ job | back _ job => rcases job with _ | j <;> simp only [state] at h <;> grind
  | dma j => simp only [state] at h; grind

lemma CacheOK.present_of_state {w : View C D n} {r : Role C} (h : CacheOK c v w r)
    (hM : w.line.state = .M) : Present v w.line := by
  obtain ⟨succ, blocked, rfl⟩ := h.holds_of_state hM
  cases h with
  | owning hl _ _ _ => exact hl
  | arriving _ hl _ _ _ =>
    obtain ⟨⟨r, _, -, ⟨t, ht⟩, -⟩, -⟩ := hl
    rw [L1Line.state, ht] at hM
    cases r <;> cases hM
  | leaving hl _ _ _ | left hl _ _ _ =>
    rw [L1Line.state, hl.tbe] at hM
    cases hM

/-- Also with DMA, in every state that a run reaches: every load and store has observed the value
that the stores and DMA writes before it have left; a copy in state `M` has the value of the line,
is the only one, and the directory knows of it; and the memory has the value if the directory is in
state `I`. -/
theorem coherent_with_dma {mvs : List (MIMove A C D n)} (h : Run mem mvs s) (a : A) :
    Coherent (mem a) (s.loc a).log ∧
      (∀ c, ((s.loc a).l1 c).state = .M →
        ((s.loc a).l1 c).entry = some ⟨.M, current (mem a) (s.loc a).log⟩ ∧
          (s.loc a).dir.state ≠ .I ∧ ∀ c', ((s.loc a).l1 c').state = .M → c' = c) ∧
      ((s.loc a).dir.state = .I → (s.loc a).mem = current (mem a) (s.loc a).log) := by
  obtain ⟨hcoh, p, hp⟩ := h.inv a
  have hidle (hI : (s.loc a).dir.state = .I) : p = .idle :=
    eq_idle_of_state (hp.dir_state.symm.trans hI)
  refine ⟨hcoh, fun c hc => ⟨((hp.caches c).present_of_state hc).entry, fun hI => ?_,
    fun c' hc' => (h.inv a).eq_of_state hc' hc⟩, fun hI => ?_⟩
  · obtain ⟨succ, blocked, hr⟩ := (hp.caches c).holds_of_state hc
    rw [hidle hI] at hr
    cases hr
  · have hmem := hp.memory
    rw [hidle hI] at hmem
    exact hmem.1

/-- A cache loads a line after a DMA write. -/
theorem coherent_with_dma_load : ∃ (mvs : List (MIMove Unit (Fin 1) (Fin 1) 1))
    (s : MISystem Unit (Fin 1) (Fin 1) 1), Run (fun _ => 0) mvs s ∧
      ((s.loc ()).l1 0).state = .M ∧ (s.loc ()).dir.state ≠ .I :=
  ⟨[.act ((), .dma 0 true 0 [9]), .deliver (.dmaRequest 0) 0 0, .deliver .toMemory 0 0,
    .deliver .fromMemory 0 0] ++ fetchMoves () 0 .load,
    exists_exec (fun s => ((s.loc ()).l1 0).state) .M (by decide +kernel)
      fun _ hs hM => ⟨hM, ((coherent_with_dma hs ()).2.1 0 hM).2.1⟩⟩

/-- The value that a DMA write should leave: its bytes at their positions, and the value of the
line elsewhere. -/
def merged (offset len : ℕ) (dataBlk coherent : Block n) : Block n :=
  fun i => if offset ≤ i ∧ i < offset + len then dataBlk i else coherent i

/-- When the memory ends up with that value.  What is written is the start of the block, up to the
length, over the contents of the memory.  So the block must have the bytes of the line where it
is written by mistake, and the memory those of the request or of the line where nothing is
written. -/
def Merges (offset len : ℕ) (dataBlk coherent stale : Block n) : Prop :=
  ∀ i : Fin n,
    ((i : ℕ) < len → ¬ (offset ≤ i ∧ i < offset + len) → dataBlk i = coherent i) ∧
    (len ≤ i → offset ≤ i ∧ i < offset + len → stale i = dataBlk i) ∧
    (len ≤ i → ¬ (offset ≤ i ∧ i < offset + len) → stale i = coherent i)

lemma written_eq_merged_iff {offset len : ℕ} {dataBlk coherent stale : Block n} (hlen : 1 ≤ len) :
    written stale dataBlk (reqSize n len) = merged offset len dataBlk coherent ↔
      Merges offset len dataBlk coherent stale := by
  have hsize : reqSize n len = len := if_pos hlen
  rw [hsize]
  refine Iff.trans (funext_iff (f := written stale dataBlk len)) (forall_congr' fun i => ?_)
  by_cases hi : (i : ℕ) < len <;> by_cases hin : offset ≤ (i : ℕ) ∧ (i : ℕ) < offset + len <;>
    simp [written, merged, hi, hin, Nat.not_le.2, Nat.le_of_not_lt]

/-- When the directory is done with a DMA write, in any run, the write is the last thing that has
happened to the line.  The memory has the bytes of the write at their positions, and the value
that the line had before elsewhere, if and only if `Merges` holds. -/
theorem dmaWrite_merged_iff {mvs : List (MIMove A C D n)} (h : Run mem mvs s)
    {mv : MIMove A C D n} (hstep : s.step program mv = .ok s') {a : A}
    (hbefore : (s.loc a).dir.state = .ID_W ∨ (s.loc a).dir.state = .M_DWRI)
    (hafter : (s'.loc a).dir.state = .I) :
    ∃ d offset len dataBlk coherent stale log,
      (s'.loc a).log = .dmaWrite d offset len dataBlk coherent stale :: log ∧
      coherent = current (mem a) log ∧
      (1 ≤ len → ((s'.loc a).mem = merged offset len dataBlk coherent ↔
        Merges offset len dataBlk coherent stale)) := by
  obtain ⟨-, p, hp⟩ := h.inv a
  have hlog : (s'.loc a).log = (s.loc a).log := by
    have hdir : (s'.line a).loc.dir ≠ (s.line a).loc.dir := by
      intro heq
      have hstate : (s.loc a).dir.state = .I := (congrArg DirLine.state heq).symm.trans hafter
      rcases hbefore with hb | hb <;> cases hstate.symm.trans hb
    obtain ⟨b, -, hb⟩ := (step_line hstep a).resolve_left fun heq => hdir (by rw [heq])
    obtain ⟨m, ev, hlog⟩ := log_of_dir_ne hb hdir
    have hnil : (s.line a).loc.dmaWrites m ev = [] := by
      refine dmaWrites_eq_nil (fun _ hI => ?_) (fun _ hM => ?_)
      · rcases hbefore with hb | hb <;> cases hb.symm.trans hI
      · rcases hbefore with hb | hb <;> cases hb.symm.trans hM
    rwa [hnil] at hlog
  have hwrites : p.writes := by
    have hstate := hp.dir_state
    rcases hbefore with hb | hb
    · exact writes_of_state (.inl (hstate.symm.trans hb))
    · exact writes_of_state (.inr (hstate.symm.trans hb))
  obtain ⟨d, offset, len, b, coherent, stale, log, hrec⟩ := hp.logged hwrites
  obtain ⟨hcoh, p', hp'⟩ : Inv false (mem a) (s'.line a) := Run.inv (h.snoc ⟨trivial, hstep⟩) a
  cases eq_idle_of_state (hp'.dir_state.symm.trans hafter)
  have hrec' : (s'.loc a).log = .dmaWrite d offset len b coherent stale :: log := hlog.trans hrec
  have hval : (s'.loc a).mem = current (mem a) (s'.loc a).log := hp'.memory.1
  refine ⟨d, offset, len, b, coherent, stale, log, hrec', ?_, fun hlen => ?_⟩
  · have hcoh' : Coherent (mem a) (s'.loc a).log := hcoh
    rw [hrec'] at hcoh'
    exact hcoh'.1
  · rw [hval, hrec']
    exact written_eq_merged_iff hlen

/-- The state that a step leads to, if it does not fail. -/
def next? (s : MISystem A C D n) (mv : MIMove A C D n) : Option (MISystem A C D n) :=
  (s.step program mv).toOption

lemma step_of_next? (h : next? s mv = some s') : s.step program mv = .ok s' := by
  rw [next?] at h
  cases hstep : s.step program mv with
  | error e => rw [hstep] at h; cases h
  | ok s'' => rw [hstep] at h; exact congrArg _ (Option.some.inj h)

/-- A DMA write of the first byte of a line that no cache owns. -/
theorem dmaWrite_merged_iff_first : ∃ (mvs : List (MIMove Unit (Fin 1) (Fin 1) 2))
    (s s' : MISystem Unit (Fin 1) (Fin 1) 2), Run (fun _ => 0) mvs s ∧
      s.step program (.deliver .fromMemory 0 0) = .ok s' ∧
      ∃ d offset len dataBlk coherent stale log,
        (s'.loc ()).log = .dmaWrite d offset len dataBlk coherent stale :: log ∧
        coherent = current 0 log ∧
        (1 ≤ len → ((s'.loc ()).mem = merged offset len dataBlk coherent ↔
          Merges offset len dataBlk coherent stale)) := by
  obtain ⟨s, hs, hnext⟩ := map_eq_some_iff.1 (show (replay (fun _ _ => True)
    (step program) (initial (Fin 1) (Fin 1) fun _ : Unit => (0 : Block 2))
      [.act ((), .dma 0 true 0 [9]), .deliver (.dmaRequest 0) 0 0, .deliver .toMemory 0 0]).map
        (fun s => ((s.loc ()).dir.state,
          (next? s (.deliver .fromMemory 0 0)).map fun s' => (s'.loc ()).dir.state)) =
      some (.ID_W, some .I) by decide +kernel)
  obtain ⟨hbefore, hnext⟩ := mk.inj hnext
  obtain ⟨s', hs', hafter⟩ := map_eq_some_iff.1 hnext
  exact ⟨_, s, s', exec_of_replay hs, step_of_next? hs',
    dmaWrite_merged_iff (exec_of_replay hs) (step_of_next? hs') (.inl hbefore) hafter⟩

/-- The offset and the length of the latest DMA write, and the second byte of the line then. -/
def secondByte [NeZero n] : List (Record C D n) → ℕ × ℕ × BitVec 8
  | .dmaWrite _ offset len _ coherent _ :: _ => (offset, len, coherent 1)
  | _ => (0, 0, 0)

set_option synthInstance.maxSize 512 in
/-- A cache has stored to both bytes of a line when a DMA write of the first one arrives.  The
memory then has the old second byte. -/
theorem not_dmaWrite_merged : ¬ ∀ (mvs : List (MIMove Unit (Fin 1) (Fin 1) 2))
    (s s' : MISystem Unit (Fin 1) (Fin 1) 2) (mv : MIMove Unit (Fin 1) (Fin 1) 2),
      Run (fun _ => 0) mvs s → s.step program mv = .ok s' →
      (s.loc ()).dir.state = .ID_W ∨ (s.loc ()).dir.state = .M_DWRI →
      (s'.loc ()).dir.state = .I → ∀ d offset len dataBlk coherent stale log,
      (s'.loc ()).log = .dmaWrite d offset len dataBlk coherent stale :: log →
      1 ≤ len → len ≤ 2 → (s'.loc ()).mem = merged offset len dataBlk coherent := by
  intro hall
  obtain ⟨s, hs, hnext⟩ := map_eq_some_iff.1 (show (replay (fun _ _ => True)
    (step program) (initial (Fin 1) (Fin 1) fun _ : Unit => (0 : Block 2))
      (fetchMoves () 0 (.store fun _ _ => 7) ++ [.act ((), .dma 0 true 0 [9]),
        .deliver (.dmaRequest 0) 0 0, .deliver (.forward 0) 0 0, .deliver (.forward 0) 0 0,
        .deliver (.request 0) 0 0, .deliver .toMemory 0 0])).map
        (fun s => ((s.loc ()).dir.state, (next? s (.deliver .fromMemory 0 0)).map fun s' =>
          ((s'.loc ()).dir.state, (s'.loc ()).mem 1, secondByte (s'.loc ()).log))) =
      some (.M_DWRI, some (.I, 0, 0, 1, 7)) by decide +kernel)
  obtain ⟨hbefore, hnext⟩ := mk.inj hnext
  obtain ⟨s', hs', hafter⟩ := map_eq_some_iff.1 hnext
  obtain ⟨hstate, hrest⟩ := mk.inj hafter
  obtain ⟨hmem, hbyte⟩ := mk.inj hrest
  rcases hlog : (s'.loc ()).log with _ | ⟨r, log⟩
  · rw [hlog] at hbyte
    cases hbyte
  rw [hlog] at hbyte
  cases r with
  | load _ _ | store _ _ _ => cases hbyte
  | dmaWrite d offset len dataBlk coherent stale =>
    obtain ⟨hoffset, hrest⟩ := mk.inj hbyte
    obtain ⟨hlen, hcoherent⟩ := mk.inj hrest
    subst hoffset hlen
    have hmerged := hall _ s s' _ (exec_of_replay hs) (step_of_next? hs') (.inr hbefore) hstate
      _ _ _ _ _ _ _ hlog le_rfl (by decide)
    have hone : (s'.loc ()).mem 1 = coherent 1 := by rw [hmerged]; rfl
    rw [hmem, hcoherent] at hone
    simp at hone

end ChipletGem5.MIExample
