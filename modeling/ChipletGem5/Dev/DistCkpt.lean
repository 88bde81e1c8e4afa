import ChipletGem5.Dev.DistSync

/-!
# Checkpoints of a distributed simulation

A node may request a checkpoint.  The request goes to the switch with the next barrier.  The switch
decides for a checkpoint if there is an immediate request, or if all nodes have made a collective
one, and tells the nodes in its acknowledgement.  Every process then drains, meets the others at
one more barrier, and takes its checkpoint.  A node whose request has been sent is `pending` and
stays so after the checkpoint, and a collective request is then ignored.

In a barrier a node only sends its request and waits for the answer, so the order in which the
requests arrive at the switch is all there is to know about the interleaving.
-/

namespace ChipletGem5.DistIface

open List Prod

variable {n : ℕ}

/-- The processes between two barriers. -/
structure System (n : ℕ) where
  nodes : Fin n → SyncNode
  switch : SyncSwitch
  /-- The nodes that have made a collective request since the last decision. -/
  asked : Finset (Fin n)
  /-- Whether there was an immediate request since the last decision. -/
  urgent : Bool

/-- A barrier: the order in which the requests arrive, and the ticks of the processes. -/
structure Barrier (n : ℕ) where
  order : List (Fin n)
  tick : Fin n → ℕ
  switchTick : ℕ

/-- A period of the simulation: the requests, the barrier of `SyncEvent::process`, and if there is a
checkpoint, the requests that are made while draining and the barrier of `drainComplete`. -/
structure Period (n : ℕ) where
  requests : List (Fin n × ReqType)
  sync : Barrier n
  drainRequests : List (Fin n × ReqType)
  drain : Barrier n

/-- With which `doCkpt` the switch and the nodes leave a barrier of `SyncEvent::process`, and
whether there should be a checkpoint. -/
structure Outcome (n : ℕ) where
  switch : Bool
  nodes : Fin n → Bool
  due : Bool

namespace System

/-- The processes after the first barrier. -/
def start (n nextAt nextRepeat : ℕ) : System n :=
  ⟨fun _ => { SyncNode.new with nextAt, nextRepeat }, { SyncSwitch.new n with nextAt, nextRepeat },
    ∅, false⟩

variable (s : System n)

def setNode (i : Fin n) (nd : SyncNode) : System n :=
  { s with nodes := Function.update s.nodes i nd }

def request (r : Fin n × ReqType) : Result (System n) := do
  let nd ← (s.nodes r.1).requestCkpt r.2
  return { s.setNode r.1 nd with
    asked := if r.2 = .collective then insert r.1 s.asked else s.asked
    urgent := r.2 = .immediate || s.urgent }

/-- A node starts the barrier, and its request arrives at the switch. -/
def arrive (b : Barrier n) (i : Fin n) : Result (System n) := do
  let (h, nd) ← (s.nodes i).runStart 1 (b.tick i)
  let (_, switch) ← s.switch.progress h
  return { s.setNode i nd with switch }

/-- The acknowledgement arrives at a node, which leaves the barrier. -/
def leave (b : Barrier n) (sameTick : Bool) (h : Header) (i : Fin n) : Result (System n) := do
  let (_, nd) ← (s.nodes i).progress h
  let _ ← nd.runEnd sameTick (b.tick i)
  return s.setNode i nd

def acknowledge (b : Barrier n) (sameTick : Bool) : Option Header → Result (System n)
  | none => .ok s
  | some h => b.order.foldlM (fun s i => s.leave b sameTick h i) s

def barrier (b : Barrier n) (sameTick : Bool) : Result (System n) := do
  let s ← b.order.foldlM (fun s i => s.arrive b i) s
  let (h, switch) ← s.switch.run sameTick b.switchTick
  ({ s with switch } : System n).acknowledge b sameTick h

def due : Bool := s.urgent || decide (s.asked = Finset.univ)

/-- A decision is made about the requests up to now. -/
def decided : System n := { s with asked := ∅, urgent := false }

/-- The end of `drainComplete`. -/
def complete : System n :=
  { s with
    nodes := fun i => { s.nodes i with doCkpt := false }
    switch := { s.switch with doCkpt := false } }

def checkpoint (p : Period n) : Result (System n) :=
  if s.switch.doCkpt then do
    let s ← p.drainRequests.foldlM request s.decided
    let s ← s.barrier p.drain false
    return s.complete
  else .ok s

/-- A period, with the outcome of its barrier. -/
def period (p : Period n) : Result (Outcome n × System n) := do
  let s ← p.requests.foldlM request s
  let due := s.due
  let s ← s.barrier p.sync true
  let outcome := ⟨s.switch.doCkpt, fun i => (s.nodes i).doCkpt, due⟩
  let s ← s.checkpoint p
  return (outcome, s)

/-- Some periods, one after the other. -/
def step (x : List (Outcome n) × System n) (p : Period n) :
    Result (List (Outcome n) × System n) := do
  let (o, s) ← x.2.period p
  return (x.1 ++ [o], s)

/-- Each node comes to the barriers once. -/
def Complete (p : Period n) : Prop :=
  (p.sync.order.Nodup ∧ ∀ i, i ∈ p.sync.order) ∧ p.drain.order.Nodup ∧ ∀ i, i ∈ p.drain.order

/-- No request is made while draining, and none for a collective checkpoint if the last request of
the node was sent before the last decision. -/
def Timely (p : Period n) : Prop :=
  p.drainRequests = [] ∧ ∀ r ∈ p.requests, r.2 ∈ [ReqType.collective, .immediate] ∧
    (r.2 = .collective → (s.nodes r.1).needCkpt = .pending → r.1 ∈ s.asked)

/-! ### Barriers -/

variable {s} {s' : System n} {b : Barrier n} {sameTick : Bool} {i : Fin n} {l : List (Fin n)}

/-- The processes between two barriers: no request is on its way to the switch. -/
structure Idle (s : System n) : Prop where
  numNodes : s.switch.numNodes = n
  alive : s.switch.isAbort = false ∧ ∀ i, (s.nodes i).isAbort = false

/-- What has happened when some nodes have come to the barrier. -/
structure Arrived (s s' : System n) (l : List (Fin n)) : Prop extends Idle s' where
  doCkpt : s'.switch.doCkpt ↔
    s.switch.doCkpt ∨ ∃ i ∈ l, (s.nodes i).needCkpt = .immediate
  numCkptReq : s'.switch.numCkptReq =
    s.switch.numCkptReq + l.countP fun i => (s.nodes i).needCkpt = .collective
  needCkpt : ∀ i, (s'.nodes i).needCkpt =
    if i ∈ l then SyncNode.sent (s.nodes i).needCkpt else (s.nodes i).needCkpt
  asked : s'.asked = s.asked ∧ s'.urgent = s.urgent

lemma nodes_setNode (nd : SyncNode) (j : Fin n) :
    (s.setNode i nd).nodes j = if j = i then nd else s.nodes j :=
  Function.update_apply ..

lemma arrived_foldlM (h : Idle s) (hl : l.Nodup)
    (hrun : l.foldlM (fun s i => s.arrive b i) s = .ok s') : Arrived s s' l := by
  apply foldlM_invariant hrun ⟨h, by simp, by simp, by simp, rfl, rfl⟩
  intro done s1 i s2 hdone h1 hstep
  have hi : i ∉ done := (nodup_append_comm.1 (hl.sublist hdone.sublist)).notMem
  obtain ⟨⟨hd, nd⟩, hnode, hstep⟩ := bind_eq_ok.1 hstep
  obtain ⟨⟨_, sw⟩, hswitch, hstep⟩ := bind_eq_ok.1 hstep
  obtain ⟨_, -, hnode⟩ := bind_eq_ok.1 hnode
  obtain ⟨_, -, ⟨⟩⟩ := bind_pure_eq_ok.1 hnode
  unfold SyncSwitch.progress at hswitch
  rw [h1.alive.1, if_neg (by simp)] at hswitch
  obtain ⟨_, -, hswitch⟩ := bind_eq_ok.1 hswitch
  obtain ⟨-, rfl⟩ := Prod.mk.inj (pure_eq_ok.1 hswitch)
  cases hstep
  have halive := h1.alive.2
  have hsent := h1.needCkpt
  have hneed : (s1.nodes i).needCkpt = (s.nodes i).needCkpt := by rw [hsent, if_neg hi]
  refine ⟨⟨h1.numNodes, rfl, fun j => ?_⟩, ?_, ?_, fun j => ?_, h1.asked⟩
  · simp only [nodes_setNode]
    grind
  · simp only [Bool.or_eq_true, decide_eq_true_eq, h1.doCkpt, hneed, mem_append, mem_singleton]
    grind
  · simp only [hneed, h1.numCkptReq, countP_append, countP_singleton]
    grind
  · simp only [nodes_setNode, mem_append, mem_singleton]
    grind

lemma foldlM_leave {hd : Header} (h : Idle s)
    (hrun : l.foldlM (fun s i => s.leave b sameTick hd i) s = .ok s') :
    Idle s' ∧ s'.switch = s.switch ∧ s'.asked = s.asked ∧ s'.urgent = s.urgent ∧
      (∀ i, (s'.nodes i).needCkpt = (s.nodes i).needCkpt) ∧
      ∀ i ∈ l, (s'.nodes i).doCkpt = decide (hd.needCkpt ≠ .none) := by
  apply foldlM_invariant hrun ⟨h, rfl, rfl, rfl, fun _ => rfl, by simp⟩
  rintro done s1 i s2 - ⟨hidle, hswitch, hasked, hurgent, hneed, hckpt⟩ hstep
  obtain ⟨⟨_, nd⟩, hnode, hstep⟩ := bind_eq_ok.1 hstep
  obtain ⟨_, -, rfl⟩ := bind_pure_eq_ok.1 hstep
  unfold SyncNode.progress at hnode
  rw [hidle.alive.2 i, if_neg (by simp)] at hnode
  obtain ⟨_, -, hnode⟩ := bind_eq_ok.1 hnode
  obtain ⟨-, rfl⟩ := Prod.mk.inj (pure_eq_ok.1 hnode)
  have halive := hidle.alive.2
  refine ⟨⟨hidle.numNodes, hidle.alive.1, fun j => ?_⟩, hswitch, hasked, hurgent, fun j => ?_,
    fun j hj => ?_⟩ <;> rw [nodes_setNode] <;> grind

lemma run_spec {sw sw' : SyncSwitch} {hd : Option Header} {t : ℕ} (halive : sw.isAbort = false)
    (hrun : sw.run sameTick t = .ok (hd, sw')) :
    sw'.doCkpt = (sw.doCkpt || decide (sw.numCkptReq = sw.numNodes)) ∧
      sw'.numCkptReq = (if sw'.doCkpt then 0 else sw.numCkptReq) ∧
      sw'.numNodes = sw.numNodes ∧ sw'.isAbort = false ∧
      ∃ hd', hd = some hd' ∧ decide (hd'.needCkpt ≠ .none) = sw'.doCkpt := by
  obtain ⟨_, -, hrun⟩ := bind_eq_ok.1 hrun
  rw [if_neg (by simp [halive])] at hrun
  obtain ⟨_, -, ⟨⟩⟩ := bind_pure_eq_ok.1 hrun
  refine ⟨rfl, rfl, rfl, halive, _, rfl, ?_⟩
  cases hdo : sw.doCkpt || decide (sw.numCkptReq = sw.numNodes) <;>
    simp [SyncSwitch.answer]

lemma barrier_spec (h : Idle s) (hnd : b.order.Nodup) (hall : ∀ i, i ∈ b.order)
    (hrun : s.barrier b sameTick = .ok s') : ∃ s1, Arrived s s1 b.order ∧ Idle s' ∧
      s'.switch.doCkpt = (s1.switch.doCkpt || decide (s1.switch.numCkptReq = n)) ∧
      s'.switch.numCkptReq = (if s'.switch.doCkpt then 0 else s1.switch.numCkptReq) ∧
      s'.asked = s.asked ∧ s'.urgent = s.urgent ∧
      (∀ i, (s'.nodes i).needCkpt = SyncNode.sent (s.nodes i).needCkpt) ∧
      ∀ i, (s'.nodes i).doCkpt = s'.switch.doCkpt := by
  obtain ⟨s1, harr, hrun⟩ := bind_eq_ok.1 hrun
  obtain ⟨⟨hd, sw⟩, hsw, hrun⟩ := bind_eq_ok.1 hrun
  have h1 := arrived_foldlM h hnd harr
  obtain ⟨hdo, hnum, hnodes, halive, hd, rfl, hack⟩ := run_spec h1.alive.1 hsw
  obtain ⟨hidle, hswitch, hasked, hurgent, hneed, hckpt⟩ :=
    foldlM_leave (s := { s1 with switch := sw }) ⟨hnodes.trans h1.numNodes, halive, h1.alive.2⟩ hrun
  rw [hswitch]
  refine ⟨s1, h1, hidle, by rw [hdo, h1.numNodes], hnum, hasked.trans h1.asked.1,
    hurgent.trans h1.asked.2, fun i => ?_, fun i => ?_⟩
  · rw [hneed, h1.needCkpt, if_pos (hall i)]
  · rw [hckpt i (hall i), hack]

/-! ### Requests -/

/-- The effect of requests on the nodes. -/
structure Requested (s s' : System n) (rs : List (Fin n × ReqType)) : Prop extends Idle s' where
  switch : s'.switch = s.switch
  urgent : s'.urgent ↔ s.urgent ∨ ∃ i, (i, .immediate) ∈ rs
  asked : ∀ i, i ∈ s'.asked ↔ i ∈ s.asked ∨ (i, .collective) ∈ rs
  immediate : ∀ i, (s'.nodes i).needCkpt = .immediate ↔
    (s.nodes i).needCkpt = .immediate ∨ (i, .immediate) ∈ rs
  quiet : s'.urgent = false → ∀ i, (s'.nodes i).needCkpt =
    if (s.nodes i).needCkpt = .none ∧ (i, .collective) ∈ rs then .collective
    else (s.nodes i).needCkpt

lemma requested_foldlM {rs : List (Fin n × ReqType)} (h : Idle s)
    (hrs : ∀ r ∈ rs, r.2 ∈ [ReqType.collective, .immediate])
    (hrun : rs.foldlM request s = .ok s') : Requested s s' rs := by
  apply foldlM_invariant hrun ⟨h, rfl, by simp, by simp, by simp, by simp⟩
  rintro done s1 ⟨i, req⟩ s2 hdone h1 hstep
  have hr : (i, req) ∈ rs := hdone.subset (by simp)
  obtain ⟨nd, hnode, hstep⟩ := bind_eq_ok.1 hstep
  obtain ⟨_, -, rfl⟩ := bind_pure_eq_ok.1 hnode
  cases hstep
  have halive := h1.alive.2
  have hurgent := h1.urgent
  have hasked := h1.asked
  have himm := h1.immediate
  have hquiet := h1.quiet
  refine ⟨⟨h1.numNodes, h1.alive.1, fun j => ?_⟩, h1.switch, ?_, fun j => ?_, fun j => ?_,
    fun hu j => ?_⟩
  · simp only [nodes_setNode]
    grind
  · simp only [mem_append, mem_singleton]
    grind
  · simp only [mem_append, mem_singleton]
    grind
  · simp only [nodes_setNode, mem_append, mem_singleton]
    grind
  · simp only [nodes_setNode, mem_append, mem_singleton]
    grind

/-! ### Periods -/

variable {p : Period n}

/-- The processes between two periods. -/
structure Inv (s : System n) : Prop extends Idle s where
  doCkpt : s.switch.doCkpt = false
  urgent : s.urgent = false
  settled : ∀ i, (s.nodes i).needCkpt = .none ∨ (s.nodes i).needCkpt = .pending
  asked : ∀ i ∈ s.asked, (s.nodes i).needCkpt = .pending
  numCkptReq : s.switch.numCkptReq = s.asked.card

lemma countP_order {order : List (Fin n)} (hnd : order.Nodup) (hall : ∀ i, i ∈ order)
    (P : Fin n → Prop) [DecidablePred P] : order.countP (P ·) = (Finset.univ.filter P).card := by
  have huniv : order.toFinset = Finset.univ := Finset.eq_univ_of_forall (by simpa using hall)
  rw [countP_eq_length_filter, ← toFinset_card_of_nodup (hnd.filter _), toFinset_filter, huniv]
  simp

lemma sent_settled (req : ReqType) : SyncNode.sent req = .none ∨ SyncNode.sent req = .pending := by
  cases req <;> simp [SyncNode.sent]

lemma Inv.collective_iff (h : Inv s) (ht : s.Timely p) (hr : Requested s s' p.requests)
    (hu : s'.urgent = false) (i : Fin n) :
    (s'.nodes i).needCkpt = .collective ↔ i ∈ s'.asked \ s.asked := by
  have hset := h.settled i
  have hask := h.asked i
  have hreq : (i, .collective) ∈ p.requests → (s.nodes i).needCkpt = .pending → i ∈ s.asked :=
    fun hmem => (ht.2 _ hmem).2 rfl
  rw [hr.quiet hu i, Finset.mem_sdiff, hr.asked i]
  grind

lemma Inv.sync (h : Inv s) (hp : Complete p) (ht : s.Timely p) {s1 s2 : System n}
    (hreq : p.requests.foldlM request s = .ok s1) (hbar : s1.barrier p.sync true = .ok s2) :
    s2.switch.doCkpt = s1.due ∧ (∀ i, (s2.nodes i).doCkpt = s1.due) ∧
      (∀ i, (s2.nodes i).needCkpt = .none ∨ (s2.nodes i).needCkpt = .pending) ∧ Idle s2 ∧
      (s2.switch.doCkpt = false → Inv s2) := by
  have hr := requested_foldlM h.toIdle (fun r hmem => (ht.2 r hmem).1) hreq
  obtain ⟨s3, harr, hidle, hdo, hnum, hasked, hurgent, hneed, hnodes⟩ :=
    barrier_spec hr.toIdle hp.1.1 hp.1.2 hbar
  have hsettled := fun i => (hneed i).symm ▸ sent_settled (s1.nodes i).needCkpt
  -- an immediate request has come to the switch if one was made
  have himm : s3.switch.doCkpt = s1.urgent := by
    have hset := h.settled
    have hall := hp.1.2
    rw [Bool.eq_iff_iff, harr.doCkpt, hr.urgent, hr.switch, h.doCkpt, h.urgent]
    simp only [hr.immediate, Bool.false_eq_true, false_or]
    grind
  cases hu : s1.urgent with
  | true =>
    have hdue : s1.due := by simp [due, hu]
    have hckpt : s2.switch.doCkpt := by simp [hdo, himm, hu]
    exact ⟨hckpt.trans hdue.symm, fun i => (hnodes i).trans (hckpt.trans hdue.symm), hsettled,
      hidle, by simp [hckpt]⟩
  | false =>
    have hcount : s3.switch.numCkptReq = s1.asked.card := by
      have hsub : s.asked ⊆ s1.asked := fun i hi => (hr.asked i).2 (.inl hi)
      have hnew : Finset.univ.filter (fun i => (s1.nodes i).needCkpt = .collective) =
          s1.asked \ s.asked := by
        ext i
        simpa using h.collective_iff ht hr hu i
      rw [harr.numCkptReq, countP_order hp.1.1 hp.1.2, hnew, hr.switch, h.numCkptReq, add_comm,
        Finset.card_sdiff_add_card_eq_card hsub]
    have hdue : s2.switch.doCkpt = s1.due := by
      rw [hdo, himm, hcount, due, hu, Bool.false_or, Bool.false_or, decide_eq_decide,
        ← Finset.card_eq_iff_eq_univ, Fintype.card_fin]
    refine ⟨hdue, fun i => (hnodes i).trans hdue, hsettled, hidle, fun hno =>
      ⟨hidle, hno, hurgent.trans hu, hsettled, fun i hi => ?_, ?_⟩⟩
    · have hold := h.asked i
      have hnew := h.collective_iff ht hr hu i
      rw [hneed, SyncNode.sent]
      have hq := hr.quiet hu i
      grind
    · rw [hnum, hno, if_neg (by simp), hcount, hasked]

lemma Inv.period (h : Inv s) (hp : Complete p) (ht : s.Timely p) {o : Outcome n}
    (hrun : s.period p = .ok (o, s')) :
    Inv s' ∧ o.switch = o.due ∧ ∀ i, o.nodes i = o.due := by
  obtain ⟨s1, hreq, hrun⟩ := bind_eq_ok.1 hrun
  obtain ⟨s2, hbar, hrun⟩ := bind_eq_ok.1 hrun
  obtain ⟨s3, hck, ⟨⟩⟩ := bind_pure_eq_ok.1 hrun
  obtain ⟨hswitch, hnodes, hsettled, hidle, hinv⟩ := h.sync hp ht hreq hbar
  refine ⟨?_, hswitch, hnodes⟩
  unfold checkpoint at hck
  split_ifs at hck with hdo
  · rw [ht.1] at hck
    obtain ⟨s4, hnil, hck⟩ := bind_eq_ok.1 hck
    cases hnil
    obtain ⟨s5, hbar', rfl⟩ := bind_pure_eq_ok.1 hck
    have hdecided : Idle s2.decided := ⟨hidle.numNodes, hidle.alive⟩
    obtain ⟨s6, harr, hidle', hdo', hnum, hasked, hurgent, hneed, -⟩ :=
      barrier_spec hdecided hp.2.1 hp.2.2 hbar'
    have hckpt : s6.switch.doCkpt := harr.doCkpt.2 (.inl hdo)
    have hempty : s5.asked = ∅ := hasked
    refine ⟨⟨hidle'.numNodes, hidle'.alive⟩, rfl, hurgent, fun i => ?_, by simp [complete, hempty],
      ?_⟩
    · exact (hneed i).symm ▸ sent_settled _
    · simp [complete, hnum, hdo', hckpt, hempty]
  · cases hck
    exact hinv (by simpa using hdo)

lemma inv_start (n nextAt nextRepeat : ℕ) : Inv (start n nextAt nextRepeat) :=
  ⟨⟨rfl, rfl, fun _ => rfl⟩, rfl, rfl, fun _ => .inl rfl, nofun, rfl⟩

/-- In every run in which no request is made while draining, and no collective one by a node whose
last request was sent before the last decision, all processes leave a barrier with the decision that
there should be. -/
theorem exec_honoured {nextAt nextRepeat : ℕ} {ps : List (Period n)}
    {x : List (Outcome n) × System n}
    (h : Exec (Guarded (fun x p => Complete p ∧ x.2.Timely p) step)
      ([], start n nextAt nextRepeat) ps x) :
    ∀ o ∈ x.1, o.switch = o.due ∧ ∀ i, o.nodes i = o.due := by
  refine (h.invariant_state (I := fun x : List (Outcome n) × System n => Inv x.2 ∧ ∀ o ∈ x.1,
    o.switch = o.due ∧ ∀ i, o.nodes i = o.due) ⟨inv_start .., nofun⟩ ?_).2
  rintro ⟨os, s⟩ p x' ⟨hi, hos⟩ ⟨⟨hp, ht⟩, hrun⟩
  obtain ⟨⟨o, s'⟩, hper, rfl⟩ := bind_pure_eq_ok.1 hrun
  obtain ⟨hi', ho⟩ := hi.period hp ht hper
  refine ⟨hi', fun o' ho' => ?_⟩
  obtain ho' | ho' := mem_append.1 ho'
  · exact hos o' ho'
  · rwa [mem_singleton.1 ho']

instance (p : Period n) : Decidable (Complete p) := inferInstanceAs (Decidable ((_ ∧ _) ∧ _))

instance (p : Period n) : Decidable (s.Timely p) := inferInstanceAs (Decidable (_ ∧ _))

/-- A period with some requests, for which the barriers are at given ticks. -/
def plain (requests : List (Fin n × ReqType)) (tick drainTick : ℕ) : Period n :=
  ⟨requests, ⟨List.finRange n, fun _ => tick, tick⟩, [],
    ⟨List.finRange n, fun _ => drainTick, drainTick⟩⟩

/-- A node that makes a collective request after a checkpoint. -/
theorem not_honoured_again :
    ¬ ∀ (n nextAt nextRepeat : ℕ) (ps : List (Period n)) (x : List (Outcome n) × System n),
      Exec (Guarded (fun _ p => Complete p) step) ([], start n nextAt nextRepeat) ps x →
      ∀ o ∈ x.1, o.switch = o.due ∧ ∀ i, o.nodes i = o.due := by
  intro h
  obtain ⟨x, hx, hval⟩ := Option.map_eq_some_iff.1
    (show (replay (fun _ p => Complete p) step ([], start 1 10 10)
      [plain [(0, .collective)] 10 12, plain [(0, .collective)] 20 22]).map
        (fun x => x.1.map fun o => (o.switch, o.due)) = some [(true, true), (false, true)] by
          decide +kernel)
  have hmem : (false, true) ∈ x.1.map fun o => (o.switch, o.due) := by simp [hval]
  obtain ⟨o, ho, heq⟩ := mem_map.1 hmem
  obtain ⟨hswitch, hdue⟩ := Prod.mk.inj heq
  have hsame := (h _ _ _ _ _ (exec_of_replay hx) o ho).1
  simp [hswitch, hdue] at hsame

/-- The nodes make their collective requests in two periods, and one of them an immediate request
in the next. -/
theorem exec_honoured_twoNodes :
    ∃ x, Exec (Guarded (fun x p => Complete p ∧ x.2.Timely p) step) ([], start 2 10 10)
        [plain [(0, .collective)] 10 12, plain [(1, .collective)] 20 22,
          plain [(1, .immediate)] 30 32] x ∧
      x.1.map (·.switch) = [false, true, true] ∧ ∀ o ∈ x.1, o.switch = o.due := by
  exact exists_exec (fun x => x.1.map (·.switch)) [false, true, true] (by decide +kernel)
    fun x hx hval => ⟨hval, fun o ho => (exec_honoured hx o ho).1⟩

end System

/-! ### The order of arrival -/

/-- The requests arrive in another order, and all else is the same. -/
def Barrier.Reordered (b b' : Barrier n) : Prop :=
  b.order.Perm b'.order ∧ b.tick = b'.tick ∧ b.switchTick = b'.switchTick

lemma SyncSwitch.progress_comm {sw sw1 sw2 : SyncSwitch} {h h' : Header} {r r' : Bool}
    (h1 : sw.progress h = .ok (r, sw1)) (h2 : sw1.progress h' = .ok (r', sw2)) :
    ∃ sw1', sw.progress h' = .ok (r', sw1') ∧ sw1'.progress h = .ok (r, sw2) := by
  unfold progress at h1 h2
  cases habort : sw.isAbort with
  | true =>
    simp only [habort] at h1
    cases h1
    simp only [habort] at h2
    cases h2
    exact ⟨sw, by simp [progress, habort], by simp [progress, habort]⟩
  | false =>
    simp only [habort] at h1
    obtain ⟨_, hwait, ⟨⟩⟩ := bind_pure_eq_ok.1 h1
    simp only at h2
    obtain ⟨_, hwait', ⟨⟩⟩ := bind_pure_eq_ok.1 h2
    apply Exists.intro
    constructor
    · unfold progress
      rw [habort]
      exact bind_pure_eq_ok.2 ⟨(), hwait, rfl⟩
    · unfold progress
      simp only
      refine bind_pure_eq_ok.2 ⟨(), hwait', ?_⟩
      simp only [Prod.mk.injEq, SyncSwitch.mk.injEq, Sync.mk.injEq, Bool.or_left_comm, true_and,
        and_true]
      and_intros <;> split_ifs <;> omega

namespace System

variable {s s1 s2 s' : System n} {b b' : Barrier n} {sameTick : Bool} {i j : Fin n}

lemma arrive_comm (h1 : s.arrive b i = .ok s1) (h2 : s1.arrive b j = .ok s2) :
    ∃ s1', s.arrive b j = .ok s1' ∧ s1'.arrive b i = .ok s2 := by
  rcases eq_or_ne i j with rfl | hij
  · exact ⟨s1, h1, h2⟩
  obtain ⟨⟨hd, nd⟩, hnode, h1⟩ := bind_eq_ok.1 h1
  obtain ⟨⟨r, sw⟩, hswitch, ⟨⟩⟩ := bind_eq_ok.1 h1
  obtain ⟨⟨hd', nd'⟩, hnode', h2⟩ := bind_eq_ok.1 h2
  obtain ⟨⟨r', sw'⟩, hswitch', ⟨⟩⟩ := bind_eq_ok.1 h2
  obtain ⟨sw1, hsw1, hsw2⟩ := SyncSwitch.progress_comm hswitch hswitch'
  replace hnode' : (s.nodes j).runStart 1 (b.tick j) = .ok (hd', nd') := by
    simpa [setNode, hij.symm] using hnode'
  refine ⟨{ s.setNode j nd' with switch := sw1 }, bind_eq_ok.2 ⟨(hd', nd'), hnode',
    bind_eq_ok.2 ⟨(r', sw1), hsw1, rfl⟩⟩, bind_eq_ok.2 ⟨(hd, nd), ?_,
      bind_eq_ok.2 ⟨(r, sw'), hsw2, ?_⟩⟩⟩
  · simpa [setNode, hij] using hnode
  · simp only [setNode, Function.update_comm hij]
    rfl

lemma leave_comm {hd : Header} (h1 : s.leave b sameTick hd i = .ok s1)
    (h2 : s1.leave b sameTick hd j = .ok s2) :
    ∃ s1', s.leave b sameTick hd j = .ok s1' ∧ s1'.leave b sameTick hd i = .ok s2 := by
  rcases eq_or_ne i j with rfl | hij
  · exact ⟨s1, h1, h2⟩
  obtain ⟨⟨r, nd⟩, hnode, h1⟩ := bind_eq_ok.1 h1
  obtain ⟨_, hend, ⟨⟩⟩ := bind_pure_eq_ok.1 h1
  obtain ⟨⟨r', nd'⟩, hnode', h2⟩ := bind_eq_ok.1 h2
  obtain ⟨_, hend', ⟨⟩⟩ := bind_pure_eq_ok.1 h2
  replace hnode' : (s.nodes j).progress hd = .ok (r', nd') := by
    simpa [setNode, hij.symm] using hnode'
  refine ⟨s.setNode j nd', bind_eq_ok.2 ⟨(r', nd'), hnode', bind_pure_eq_ok.2 ⟨_, hend', rfl⟩⟩,
    bind_eq_ok.2 ⟨(r, nd), ?_, bind_pure_eq_ok.2 ⟨_, hend, ?_⟩⟩⟩
  · simpa [setNode, hij] using hnode
  · simp only [setNode, Function.update_comm hij]

/-- The order in which the requests of the nodes arrive at a barrier does not matter: a barrier to
which they come in another order has the same decisions, and leads to the same state. -/
theorem barrier_reordered (hb : b.Reordered b') (h : s.barrier b sameTick = .ok s') :
    s.barrier b' sameTick = .ok s' := by
  obtain ⟨order, tick, switchTick⟩ := b
  obtain ⟨order', tick', switchTick'⟩ := b'
  obtain ⟨hperm, rfl, rfl⟩ := hb
  obtain ⟨s1, harrive, h⟩ := bind_eq_ok.1 h
  obtain ⟨⟨hd, sw⟩, hswitch, h⟩ := bind_eq_ok.1 h
  refine bind_eq_ok.2 ⟨s1, foldlM_perm hperm arrive_comm harrive,
    bind_eq_ok.2 ⟨_, hswitch, ?_⟩⟩
  cases hd with
  | none => exact h
  | some hd => exact foldlM_perm hperm leave_comm h

/-- Two nodes come to the barrier in either order. -/
theorem barrier_reordered_twoNodes : ∃ s',
    (start 2 10 10).barrier ⟨[0, 1], fun _ => 10, 10⟩ true = .ok s' ∧
      (start 2 10 10).barrier ⟨[1, 0], fun _ => 10, 10⟩ true = .ok s' := by
  obtain ⟨s', hs'⟩ : ∃ s', (start 2 10 10).barrier ⟨[0, 1], fun _ => 10, 10⟩ true = .ok s' :=
    ⟨_, rfl⟩
  refine ⟨s', hs', barrier_reordered ?_ hs'⟩
  exact ⟨.swap _ _ _, rfl, rfl⟩

end System

end ChipletGem5.DistIface
