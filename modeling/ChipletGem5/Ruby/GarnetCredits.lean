import ChipletGem5.Lib.Lines

/-!
# Credits of a Garnet link

A link of `mem/ruby/network/garnet2.0` from the output unit of a router to the input unit of the
next one.  For each virtual channel the output unit counts in `OutVcState` the free places of the
buffer at the other end.  The input unit sends back a credit for each flit that leaves the buffer,
and says with the tail of a packet that the channel is free.

A link takes one flit in a cycle, so that flit buffers, which are ordered by time, are queues.
The switch allocator of the router is modelled for the one output port: which input channels it
looks at, in which order, and the check of an ordered virtual network are left open.
-/

namespace ChipletGem5.Garnet

open Lines List

inductive FlitType where
  | HEAD_
  | BODY_
  | TAIL_
  | HEAD_TAIL_
deriving DecidableEq

/-- A flit, by its place in its packet. -/
structure Flit where
  packet : ℕ
  id : ℕ
  size : ℕ

/-- The type that the constructor gives a flit. -/
def Flit.type (f : Flit) : FlitType :=
  if f.size = 1 then .HEAD_TAIL_
  else if f.id = 0 then .HEAD_
  else if f.id = f.size - 1 then .TAIL_
  else .BODY_

/-- The states of `VC_state_type` that are used. -/
inductive VCState where
  | IDLE_
  | ACTIVE_
deriving DecidableEq

/-- A virtual channel of a link: the `OutVcState` at one end, with the flits still to come of the
packet that it is allocated to, and the `VirtualChannel` at the other.  The packets that got the
channel and the flits that left it are recorded. -/
structure VCLink where
  outState : VCState := .IDLE_
  creditCount : ℤ
  maxCreditCount : ℤ
  unsent : List Flit := []
  vcState : VCState := .IDLE_
  inputBuffer : List Flit := []
  packets : List (ℕ × ℕ) := []
  granted : List Flit := []

/-- The two directions of a link. -/
inductive LinkChan where
  | flits
  | credits
deriving DecidableEq

/-- What travels on a link. -/
inductive LinkMsg where
  | flit (f : Flit)
  | credit (isFreeSignal : Bool)

/-- The last flits of a packet. -/
def lastFlits (packet size : ℕ) : ℕ → List Flit
  | 0 => []
  | m + 1 => ⟨packet, size - (m + 1), size⟩ :: lastFlits packet size m

namespace VCLink

abbrev LinkResult := Result (Outcome VCLink LinkChan LinkMsg)

/-- The end of `arbitrate_outports` for the output unit. -/
def sendFlit (s : VCLink) : LinkResult :=
  match s.unsent with
  | [] => .error (.undefined "input_unit->getTopFlit(invc)")
  | f :: rest => do
    let s := { s with creditCount := s.creditCount - 1, unsent := rest }
    require (0 ≤ s.creditCount) (.assertion "m_credit_count >= 0")
    return ⟨s, .keep, [(.flits, .flit f)]⟩

/-- What `arbitrate_outports` does to one channel. -/
inductive Grant where
  /-- The head of a packet wins, and gets the channel. -/
  | allocate (packet size : ℕ) (h : 0 < size)
  /-- A further flit of the packet wins. -/
  | advance
  /-- The first flit of the input buffer wins at the next router. -/
  | leave

/-- `SwitchAllocator::arbitrate_outports` for the channel of the request that is granted. -/
def grant (s : VCLink) : Grant → LinkResult
  | .allocate packet size _ =>
    sendFlit { s with
      outState := .ACTIVE_
      unsent := lastFlits packet size size
      packets := s.packets ++ [(packet, size)] }
  | .advance => s.sendFlit
  | .leave =>
    match s.inputBuffer with
    | [] => return ⟨s, .keep, []⟩
    | f :: rest => do
      require (s.vcState = .ACTIVE_) (.assertion "m_vc_state.first == ACTIVE_")
      let s := { s with inputBuffer := rest, granted := s.granted ++ [f] }
      if f.type = .TAIL_ ∨ f.type = .HEAD_TAIL_ then
        require rest.isEmpty (.assertion "!(input_unit->isReady(invc))")
        return ⟨{ s with vcState := .IDLE_ }, .keep, [(.credits, .credit true)]⟩
      else return ⟨s, .keep, [(.credits, .credit false)]⟩

/-- `InputUnit::wakeup` and `OutputUnit::wakeup`. -/
def wakeup (pipeStages : ℕ) (k : LinkChan) (m : LinkMsg) (s : VCLink) : LinkResult :=
  match k, m with
  | .flits, .flit f => do
    let head : Bool := f.type = .HEAD_ ∨ f.type = .HEAD_TAIL_
    require (s.vcState = if head then .IDLE_ else .ACTIVE_)
      (.assertion "virtualChannels[vc].get_state()")
    require (pipeStages = 1 || 1 < pipeStages) (.assertion "pipe_stages > 1")
    return ⟨{ s with vcState := .ACTIVE_, inputBuffer := s.inputBuffer ++ [f] }, .pop, []⟩
  | .credits, .credit free => do
    let s := { s with creditCount := s.creditCount + 1 }
    require (s.creditCount ≤ s.maxCreditCount) (.assertion "m_credit_count <= m_max_credit_count")
    return ⟨{ s with outState := if free then .IDLE_ else s.outState }, .pop, []⟩
  | _, _ => .error (.undefined "a flit on the wrong link")

def program (pipeStages : ℕ) : Program VCLink LinkChan LinkMsg Grant CallFault where
  handle := wakeup pipeStages
  act b s := s.grant b
  unordered _ := false

def hasCredit (s : VCLink) : Result Bool := do
  require (s.outState = .ACTIVE_) (.assertion "outVcState[out_vc].isInState(ACTIVE_)")
  return 0 < s.creditCount

end VCLink

open VCLink

/-! ### The switch allocator -/

/-- The parameters of a router. -/
structure RouterParams where
  numVnets : ℕ
  vcPerVnet : ℕ
  pipeStages : ℕ
  pipeStages_pos : 0 < pipeStages

/-- An input channel with a flit that is to go to the output port. -/
structure Candidate where
  invc : ℕ
  /-- `get_outvc`, if it is not -1. -/
  outvc : Option ℕ
  /-- The packet that gets a channel, if there is none. -/
  packet : ℕ
  size : ℕ
  size_pos : 0 < size
  /-- No other flit of an ordered virtual network goes before. -/
  inOrder : Bool

/-- The channels of a link by their numbers. -/
abbrev Link := System ℕ VCLink LinkChan LinkMsg

namespace RouterParams

variable (c : RouterParams) (s : Link)

def getVnet (invc : ℕ) : Result ℕ := do
  let vnet := invc / c.vcPerVnet
  require (vnet < c.numVnets) (.assertion "vnet < m_router->get_num_vnets()")
  return vnet

/-- The channels of a virtual network. -/
def vcs (vnet : ℕ) : List ℕ := (range c.vcPerVnet).map (vnet * c.vcPerVnet + ·)

def hasFreeVc (vnet : ℕ) : Bool := (c.vcs vnet).any fun vc => (s.loc vc).outState = .IDLE_

/-- `OutputUnit::select_free_vc`, which finds the channel that `grant` sets to active. -/
def selectFreeVc (vnet : ℕ) : Option ℕ := (c.vcs vnet).find? fun vc => (s.loc vc).outState = .IDLE_

def sendAllowed (x : Candidate) : Result Bool := do
  let vnet ← c.getVnet x.invc
  let allowed ←
    match x.outvc with
    | none => .ok (c.hasFreeVc s vnet)
    | some vc => (s.loc vc).hasCredit
  return allowed && x.inOrder

/-- `SwitchAllocator::arbitrate_inports`: the requests for the output port. -/
def arbitrateInports : List Candidate → Result (List Candidate)
  | [] => .ok []
  | x :: xs => do
    let makeRequest ← c.sendAllowed s x
    let requests ← arbitrateInports xs
    return if makeRequest then x :: requests else requests

def vcAllocate (invc : ℕ) : Result ℕ := do
  let vnet ← c.getVnet invc
  getOrError (c.selectFreeVc s vnet) (.assertion "outvc != -1")

/-- `SwitchAllocator::arbitrate_outports`: the first request wins. -/
def arbitrateOutports : List Candidate → Result Link
  | [] => .ok s
  | x :: _ =>
    match x.outvc with
    | none => do
      let vc ← c.vcAllocate s x.invc
      s.step (program c.pipeStages) (.act (vc, .allocate x.packet x.size x.size_pos))
    | some vc => s.step (program c.pipeStages) (.act (vc, .advance))

end RouterParams

/-- What happens at a link. -/
inductive LinkAction where
  /-- The switch allocator of the router wakes up. -/
  | switch (xs : List Candidate)
  /-- The one of the next router takes the first flit of a channel. -/
  | leave (vc : ℕ)
  /-- The unit at the end of the link, or of the credit link, wakes up. -/
  | wakeup (k : LinkChan)

def linkStep (c : RouterParams) (s : Link) : LinkAction → Result Link
  | .switch xs => do
    let requests ← c.arbitrateInports s xs
    c.arbitrateOutports s requests
  | .leave vc => s.step (program c.pipeStages) (.act (vc, .leave))
  | .wakeup k => s.step (program c.pipeStages) (.deliver k 0 0)

/-- The input channels are those of the router; one that has an output channel has a flit of the
packet that the output channel was given to. -/
def LinkPermitted (c : RouterParams) (s : Link) : LinkAction → Prop
  | .switch xs => ∀ x ∈ xs, x.invc < c.numVnets * c.vcPerVnet ∧
      ∀ vc ∈ x.outvc, (s.loc vc).unsent.isEmpty = false
  | .leave _ | .wakeup _ => True

instance (c : RouterParams) (s : Link) (a : LinkAction) : Decidable (LinkPermitted c s a) :=
  match a with
  | .switch _ => inferInstanceAs (Decidable (∀ _, _))
  | .leave _ | .wakeup _ => inferInstanceAs (Decidable True)

/-! ### The invariant of a channel -/

variable {max : ℤ} {s : VCLink} {chan : LinkChan → List LinkMsg} {fs b r : List Flit}
  {ks : List Bool} {f : Flit} {p n m j : ℕ}

/-- A channel of a link and what is under way for it: flits `fs` and credits `ks`.  The flits that
have not left the channel are the last ones of a packet.  If there are none, the channel is free,
or the last credit says so. -/
structure Inv (max : ℤ) (s : VCLink) (chan : LinkChan → List LinkMsg) (fs : List Flit)
    (ks : List Bool) : Prop where
  flits : chan .flits = fs.map .flit
  credits : chan .credits = ks.map .credit
  room : 1 ≤ max ∧ s.maxCreditCount = max
  conserved : 0 ≤ s.creditCount ∧
    s.creditCount + fs.length + s.inputBuffer.length + ks.length = max
  order : s.granted ++ (s.inputBuffer ++ fs ++ s.unsent) =
    s.packets.flatMap fun x => lastFlits x.1 x.2 x.2
  phase : ∃ p n m, m ≤ n ∧ s.inputBuffer ++ fs ++ s.unsent = lastFlits p n m ∧
    s.vcState = (if m = 0 ∨ m = n ∧ s.inputBuffer = [] then .IDLE_ else .ACTIVE_) ∧
    (s.outState = .IDLE_ ∧ m = 0 ∧ ks = [] ∨ s.outState = .ACTIVE_ ∧
      ∃ ks', ks = ks' ++ (if m = 0 then [true] else []) ∧ ∀ b ∈ ks', b = false)

lemma eq_lastFlits (h : b ++ f :: r = lastFlits p n m) :
    ∃ j, m = b.length + (j + 1) ∧ f = ⟨p, n - (j + 1), n⟩ ∧ r = lastFlits p n j := by
  induction b generalizing m with
  | nil =>
    cases m with
    | zero => cases h
    | succ j => exact ⟨j, (Nat.zero_add _).symm, (cons.inj h).1, (cons.inj h).2⟩
  | cons f' b ih =>
    cases m with
    | zero => cases h
    | succ m =>
      obtain ⟨j, rfl, hf, hr⟩ := ih (cons.inj h).2
      exact ⟨j, by rw [length_cons]; omega, hf, hr⟩

lemma head_iff (hj : j < n) : ((⟨p, n - (j + 1), n⟩ : Flit).type = .HEAD_ ∨
    (⟨p, n - (j + 1), n⟩ : Flit).type = .HEAD_TAIL_) ↔ j + 1 = n := by
  simp only [Flit.type]
  split_ifs <;> simp <;> omega

lemma tail_iff (hj : j < n) : ((⟨p, n - (j + 1), n⟩ : Flit).type = .TAIL_ ∨
    (⟨p, n - (j + 1), n⟩ : Flit).type = .HEAD_TAIL_) ↔ j = 0 := by
  simp only [Flit.type]
  split_ifs <;> simp <;> omega

/-- The step returns, and leaves the invariant. -/
def Keeps (max : ℤ) (fate : Fate) (chan : LinkChan → List LinkMsg) (r : LinkResult) : Prop :=
  ∃ o fs ks, r = .ok o ∧ o.fate = fate ∧ Inv max o.next (sendAll chan o.sends) fs ks

namespace Inv

lemma sendFlit (h : Inv max s chan fs ks) (hu : s.unsent = f :: r) (hpos : 0 < s.creditCount) :
    Keeps max .keep chan s.sendFlit := by
  obtain ⟨-, hcons⟩ := h.conserved
  refine ⟨⟨{ s with creditCount := s.creditCount - 1, unsent := r }, .keep, [(.flits, .flit f)]⟩,
    fs ++ [f], ks, ?_, rfl, by simp [send, h.flits], by simp [send, h.credits], h.room,
    ⟨Int.sub_nonneg_of_le hpos, ?_⟩, by simpa [hu] using h.order, by simpa [hu] using h.phase⟩
  · rw [VCLink.sendFlit, hu]
    exact bind_eq_ok.2 ⟨(), require_eq_ok.2 (decide_eq_true (Int.sub_nonneg_of_le hpos)), rfl⟩
  · rw [length_append, length_singleton]
    push_cast
    omega

lemma allocate (h : Inv max s chan fs ks) (hidle : s.outState = .IDLE_) (hn : 0 < n) :
    Keeps max .keep chan (s.grant (.allocate p n hn)) := by
  obtain ⟨j, rfl⟩ := Nat.exists_eq_succ_of_ne_zero hn.ne'
  obtain ⟨p', n', m, -, hlast, hvc, ⟨-, rfl, rfl⟩ | ⟨hact, -⟩⟩ := h.phase
  · obtain ⟨hb, rfl, hu⟩ : s.inputBuffer = [] ∧ fs = [] ∧ s.unsent = [] := by
      simpa [lastFlits] using hlast
    have hcons := h.conserved
    rw [VCLink.grant]
    -- a free channel has all its credits
    refine sendFlit ⟨h.flits, h.credits, h.room, hcons, ?_, p, j + 1, j + 1, le_rfl, ?_⟩ rfl ?_
    · simpa [hb, hu] using h.order
    · simpa [hb] using hvc
    · simp only [hb, length_nil, Nat.cast_zero, add_zero] at hcons
      exact hcons.2 ▸ h.room.1
  · cases hidle.symm.trans hact

lemma leave (h : Inv max s chan fs ks) (hb : s.inputBuffer = f :: b) :
    Keeps max .keep chan (s.grant .leave) := by
  obtain ⟨hfs, hks, hroom, ⟨hpos, hcons⟩, horder, p, n, m, hmn, hlast, hvc, hout⟩ := h
  rw [hb] at hcons horder hlast hvc
  obtain ⟨j, rfl, rfl, hrest⟩ := eq_lastFlits (b := []) hlast
  rw [length_nil, Nat.zero_add] at hmn hvc hout
  rw [if_neg (by simp)] at hvc
  obtain ⟨-, hm, -⟩ | ⟨hact, ks', hks', hfalse⟩ := hout
  · cases hm
  rw [if_neg (by simp), append_nil] at hks'
  subst hks'
  have htail := tail_iff (p := p) hmn
  have hempty (hj : j = 0) : b = [] := by
    subst hj
    exact (append_eq_nil_iff.1 (append_eq_nil_iff.1 hrest).1).1
  refine ⟨⟨{ s with
    inputBuffer := b
    granted := s.granted ++ [⟨p, n - (j + 1), n⟩]
    vcState := if j = 0 then .IDLE_ else .ACTIVE_ }, .keep,
    [(.credits, .credit (decide (j = 0)))]⟩, fs, ks ++ [decide (j = 0)], ?_, rfl,
    by simp [send, hfs], by simp [send, hks], hroom, ⟨hpos, ?_⟩, by simpa using horder,
    p, n, j, by omega, hrest, ?_, .inr ⟨hact, ?_⟩⟩
  · rw [VCLink.grant, hb]
    refine bind_eq_ok.2 ⟨(), require_eq_ok.2 (decide_eq_true hvc), ?_⟩
    by_cases hj : j = 0
    · rw [if_pos (htail.2 hj), hempty hj, if_pos hj, decide_eq_true hj]
      rfl
    · rw [if_neg (htail.not.2 hj), if_neg hj, decide_eq_false hj, hvc]
      rfl
  · simp at hcons ⊢
    omega
  · have hlt : j ≠ n := by omega
    simp [hlt]
  · by_cases hj : j = 0
    · exact ⟨ks, by simp [hj], hfalse⟩
    · exact ⟨ks ++ [false], by simp [hj], by simpa using hfalse⟩

/-- The arrival of a flit. -/
lemma flit {pipeStages : ℕ} (hpipe : 0 < pipeStages) (h : Inv max s chan (f :: fs) ks) :
    Keeps max .pop (Function.update chan .flits (fs.map .flit))
      (wakeup pipeStages .flits (.flit f) s) := by
  obtain ⟨hfs, hks, hroom, ⟨hpos, hcons⟩, horder, p, n, m, hmn, hlast, hvc, hout⟩ := h
  rw [append_assoc, cons_append] at hlast
  obtain ⟨j, rfl, rfl, hrest⟩ := eq_lastFlits hlast
  have hhead := head_iff (p := p) (by omega : j < n)
  have hstate : s.vcState = if j + 1 = n then .IDLE_ else .ACTIVE_ := by
    rw [hvc]
    congr 1
    rw [← length_eq_zero_iff, eq_iff_iff]
    omega
  have hstages : (decide (pipeStages = 1) || decide (1 < pipeStages)) := by
    simp
    omega
  refine ⟨_, fs, ks, bind_eq_ok.2 ⟨(), require_eq_ok.2 (decide_eq_true ?_),
    bind_eq_ok.2 ⟨(), require_eq_ok.2 hstages, rfl⟩⟩, rfl, by simp, by simpa using hks, hroom,
    ⟨hpos, ?_⟩, by simpa using horder, p, n, _, hmn, by simpa using hlast, by simp, hout⟩
  · rw [hstate]
    simp only [hhead, decide_eq_true_eq]
  · simp at hcons ⊢
    omega

lemma credit {free : Bool} (pipeStages : ℕ) (h : Inv max s chan fs (free :: ks)) :
    Keeps max .pop (Function.update chan .credits (ks.map .credit))
      (wakeup pipeStages .credits (.credit free) s) := by
  obtain ⟨hfs, -, hroom, ⟨hpos, hcons⟩, horder, p, n, m, hmn, hlast, hvc, ⟨-, -, ⟨⟩⟩ |
    ⟨hact, ks', hks', hfalse⟩⟩ := h
  simp only [length_cons, Nat.cast_add, Nat.cast_one] at hcons
  refine ⟨_, fs, ks, bind_eq_ok.2 ⟨(), require_eq_ok.2 (decide_eq_true ?_), rfl⟩, rfl,
    by simpa using hfs, by simp, hroom, ⟨Int.le_add_one hpos, ?_⟩, horder,
    p, n, m, hmn, hlast, hvc, ?_⟩
  · have hmax := hroom.2
    dsimp only
    omega
  · dsimp only
    omega
  · rcases ks' with _ | ⟨b, ks'⟩
    · split_ifs at hks' with hm <;> cases hks'
      exact .inl ⟨rfl, hm, rfl⟩
    · obtain ⟨rfl, rfl⟩ := cons.inj hks'
      obtain ⟨rfl, hrest⟩ := forall_mem_cons.1 hfalse
      exact .inr ⟨hact, ks', rfl, hrest⟩

/-- A channel with unsent flits is active. -/
lemma active (h : Inv max s chan fs ks) (hu : s.unsent.isEmpty = false) :
    s.outState = .ACTIVE_ := by
  obtain ⟨p, n, m, -, hlast, -, ⟨-, rfl, -⟩ | ⟨hact, -⟩⟩ := h.phase
  · simp only [lastFlits, append_eq_nil_iff] at hlast
    simp [hlast.2] at hu
  · exact hact

end Inv

/-- A flit is only granted a channel that can take it. -/
def Grantable (l : Line VCLink LinkChan LinkMsg) : Move LinkChan Grant → Prop
  | .act (.allocate _ _ _) => l.loc.outState = .IDLE_
  | .act .advance => l.loc.unsent.isEmpty = false ∧ 0 < l.loc.creditCount
  | _ => True

namespace Inv

lemma grant (h : Inv max s chan fs ks) {g : Grant} (hg : Grantable ⟨s, chan⟩ (.act g)) :
    Keeps max .keep chan (s.grant g) := by
  cases g with
  | allocate p n hn => exact h.allocate hg hn
  | advance =>
    rcases hu : s.unsent with _ | ⟨f, r⟩
    · simp [Grantable, hu] at hg
    · exact h.sendFlit hu hg.2
  | leave =>
    rcases hb : s.inputBuffer with _ | ⟨f, b⟩
    · rw [VCLink.grant, hb]
      exact ⟨_, fs, ks, rfl, rfl, h⟩
    · exact h.leave hb

/-- No step of a channel fails, and each keeps the invariant. -/
lemma step {l : Line VCLink LinkChan LinkMsg} {mv : Move LinkChan Grant} {pipeStages : ℕ}
    (hpipe : 0 < pipeStages) (h : ∃ fs ks, Inv max l.loc l.chan fs ks) (hmv : Grantable l mv) :
    ∃ l', l.step (program pipeStages) mv = .ok l' ∧ ∃ fs ks, Inv max l'.loc l'.chan fs ks := by
  obtain ⟨fs, ks, h⟩ := h
  cases mv with
  | act g =>
    obtain ⟨o, fs', ks', ho, -, h'⟩ := h.grant hmv
    exact ⟨.finish l.chan o, by simp [Line.step, program, ho], fs', ks', h'⟩
  | deliver k i pos =>
    by_cases hi : i = 0
    · subst hi
      cases k with
      | flits =>
        rcases fs with _ | ⟨f, fs⟩
        · exact ⟨l, by simp [Line.step, h.flits], [], ks, h⟩
        · obtain ⟨o, fs', ks', ho, hpop, h'⟩ := h.flit hpipe
          exact ⟨_, Line.step_deliver h.flits ho hpop, fs', ks', h'⟩
      | credits =>
        rcases ks with _ | ⟨free, ks⟩
        · exact ⟨l, by simp [Line.step, h.credits], fs, [], h⟩
        · obtain ⟨o, fs', ks', ho, hpop, h'⟩ := h.credit pipeStages
          exact ⟨_, Line.step_deliver h.credits ho hpop, fs', ks', h'⟩
    · rw [Line.step, if_neg (by simp [hi, program])]
      exact ⟨l, rfl, fs, ks, h⟩

end Inv

/-! ### The link -/

/-- Every channel of the link is as it should be. -/
def LinkInv (max : ℕ → ℤ) (s : Link) : Prop :=
  ∀ v, ∃ fs ks, Inv (max v) (s.line v).loc (s.line v).chan fs ks

namespace LinkInv

variable {c : RouterParams} {max : ℕ → ℤ} {s : Link} {x : Candidate} {xs : List Candidate}
  (h : LinkInv max s)
include h

lemma move {mv : Move LinkChan (ℕ × Grant)}
    (hmv : System.Allowed (program c.pipeStages) Grantable s mv) :
    ∃ s', s.step (program c.pipeStages) mv = .ok s' ∧ LinkInv max s' :=
  System.step_ok Grantable (fun hl hok => Inv.step c.pipeStages_pos hl hok) h hmv

lemma act {vc : ℕ} {g : Grant} (hg : Grantable (s.line vc) (.act g)) :
    ∃ s', s.step (program c.pipeStages) (.act (vc, g)) = .ok s' ∧ LinkInv max s' :=
  h.move fun a b hab => by
    cases hab
    exact hg

omit h in
lemma getVnet_eq (hx : x.invc < c.numVnets * c.vcPerVnet) :
    c.getVnet x.invc = .ok (x.invc / c.vcPerVnet) := by
  have hlt : x.invc / c.vcPerVnet < c.numVnets := Nat.div_lt_of_lt_mul (by rwa [mul_comm])
  simp [RouterParams.getVnet, require, hlt]

lemma sendAllowed (hx : LinkPermitted c s (.switch [x])) : ∃ b, c.sendAllowed s x = .ok b := by
  obtain ⟨hvc, hout⟩ := hx x (mem_singleton_self x)
  rw [RouterParams.sendAllowed, getVnet_eq hvc]
  rcases hx : x.outvc with _ | vc
  · exact ⟨_, rfl⟩
  · obtain ⟨fs, ks, hi⟩ := h vc
    have hact : (s.loc vc).outState = .ACTIVE_ := hi.active (hout vc hx)
    exact ⟨_, by simp [hasCredit, require, hact]; rfl⟩

/-- The first stage returns the requests that are allowed. -/
lemma arbitrateInports (hxs : LinkPermitted c s (.switch xs)) :
    ∃ requests, c.arbitrateInports s xs = .ok requests ∧
      ∀ x ∈ requests, x ∈ xs ∧ c.sendAllowed s x = .ok true := by
  induction xs with
  | nil => exact ⟨[], rfl, by simp⟩
  | cons x xs ih =>
    obtain ⟨requests, hrest, hall⟩ := ih fun y hy => hxs y (mem_cons_of_mem x hy)
    obtain ⟨b, hb⟩ := h.sendAllowed (x := x) fun y hy =>
      hxs y (mem_singleton.1 hy ▸ mem_cons_self)
    rw [RouterParams.arbitrateInports, hb, hrest]
    have htail : ∀ y ∈ requests, y ∈ x :: xs ∧ c.sendAllowed s y = .ok true := fun y hy =>
      ⟨mem_cons_of_mem x (hall y hy).1, (hall y hy).2⟩
    cases b with
    | false => exact ⟨requests, rfl, htail⟩
    | true => exact ⟨x :: requests, rfl, forall_mem_cons.2 ⟨⟨mem_cons_self, hb⟩, htail⟩⟩

/-- The second stage finds a channel for a head, and sends a flit of a packet that has one. -/
lemma arbitrateOutports (xs : List Candidate) (hx : x.invc < c.numVnets * c.vcPerVnet)
    (hout : ∀ vc ∈ x.outvc, (s.loc vc).unsent.isEmpty = false)
    (hallowed : c.sendAllowed s x = .ok true) :
    ∃ s', c.arbitrateOutports s (x :: xs) = .ok s' ∧ LinkInv max s' := by
  rw [RouterParams.sendAllowed, getVnet_eq hx] at hallowed
  rw [RouterParams.arbitrateOutports]
  rcases hvc : x.outvc with _ | vc
  · simp only [hvc, ok_bind, pure_eq, Except.ok.injEq, Bool.and_eq_true] at hallowed
    obtain ⟨vc, hmem, hidle⟩ := any_eq_true.1 hallowed.1
    have hsome : (c.selectFreeVc s (x.invc / c.vcPerVnet)).isSome :=
      find?_isSome.2 ⟨vc, hmem, hidle⟩
    obtain ⟨vc', hvc'⟩ := Option.isSome_iff_exists.1 hsome
    have hidle' : (s.loc vc').outState = .IDLE_ := by simpa using find?_some hvc'
    simp only [RouterParams.vcAllocate, getVnet_eq hx, hvc', getOrError, ok_bind]
    exact h.act hidle'
  · simp only [hvc, ok_bind, hasCredit] at hallowed
    obtain ⟨b, hcredit, hb⟩ := bind_eq_ok.1 hallowed
    obtain ⟨-, -, hpos⟩ := bind_eq_ok.1 hcredit
    refine h.act ⟨hout vc hvc, ?_⟩
    cases hpos
    simp only [pure_eq, Except.ok.injEq, Bool.and_eq_true, decide_eq_true_eq] at hb
    exact hb.1

/-- No step of a link fails, and each keeps the invariant. -/
lemma step {a : LinkAction} (ha : LinkPermitted c s a) :
    ∃ s', linkStep c s a = .ok s' ∧ LinkInv max s' := by
  cases a with
  | switch xs =>
    obtain ⟨requests, hrequests, hall⟩ := h.arbitrateInports ha
    rw [linkStep, hrequests]
    rcases requests with _ | ⟨x, requests⟩
    · exact ⟨s, rfl, h⟩
    · obtain ⟨hx, hallowed⟩ := hall x mem_cons_self
      exact h.arbitrateOutports requests (ha x hx).1 (ha x hx).2 hallowed
  | leave vc => exact h.act trivial
  | wakeup k =>
    rw [linkStep]
    refine h.move fun a b hab => ?_
    simp only [System.target, true_or, if_true] at hab
    obtain ⟨p, -, hp⟩ := Option.map_eq_some_iff.1 hab
    cases hp
    trivial

end LinkInv

/-- A link at the start: every channel is free. -/
def linkInitial (max : ℕ → ℤ) : Link :=
  ⟨fun v => { creditCount := max v, maxCreditCount := max v }, fun _ => []⟩

/-- In every run of a link no assertion fails, credits and flits of a channel add up to the places
of its buffer, and the flits arrive packet after packet, in order. -/
theorem link_flow_control {c : RouterParams} {max : ℕ → ℤ} (hmax : ∀ v, 1 ≤ max v)
    {as : List LinkAction} {s : Link}
    (h : Exec (Guarded (LinkPermitted c) (linkStep c)) (linkInitial max) as s) :
    (∀ a, LinkPermitted c s a → ∃ s', linkStep c s a = .ok s') ∧
      ∀ v, 0 ≤ (s.loc v).creditCount ∧
        (s.loc v).creditCount + (project v (s.chan .flits)).length +
          (s.loc v).inputBuffer.length + (project v (s.chan .credits)).length = max v ∧
        ∃ fs, project v (s.chan .flits) = fs.map .flit ∧
          (s.loc v).granted ++ ((s.loc v).inputBuffer ++ fs ++ (s.loc v).unsent) =
            (s.loc v).packets.flatMap fun x => lastFlits x.1 x.2 x.2 := by
  have hinv : LinkInv max s := h.invariant_ok (fun v => ⟨[], [], rfl, rfl, ⟨hmax v, rfl⟩,
    ⟨zero_le_one.trans (hmax v), by simp [linkInitial, System.line]⟩, rfl, 0, 0, 0, le_rfl, rfl,
    rfl, .inl ⟨rfl, rfl, rfl⟩⟩) fun hs ha => hs.step ha
  refine ⟨fun a ha => (hinv.step ha).imp fun _ => And.left, fun v => ?_⟩
  obtain ⟨fs, ks, hi⟩ := hinv v
  have hfs : project v (s.chan .flits) = fs.map .flit := hi.flits
  have hks : project v (s.chan .credits) = ks.map .credit := hi.credits
  rw [hfs, hks, length_map, length_map]
  exact ⟨hi.conserved.1, hi.conserved.2, fs, rfl, hi.order⟩

/-- Two channels in one virtual network.  The head of a packet of three flits gets channel 0, and
one more flit uses up its credits; the head of a second packet then gets channel 1, and the third
flit of the first packet has to wait. -/
theorem link_flow_control_blocked : ∃ as s,
    Exec (Guarded (LinkPermitted ⟨1, 2, 1, by decide⟩) (linkStep ⟨1, 2, 1, by decide⟩))
        (linkInitial fun _ => 2) as s ∧
      ((s.loc 0).creditCount, (s.loc 1).creditCount) = (0, 1) ∧
      ∀ a, LinkPermitted ⟨1, 2, 1, by decide⟩ s a →
        ∃ s', linkStep ⟨1, 2, 1, by decide⟩ s a = .ok s' :=
  ⟨[.switch [⟨0, none, 0, 3, by decide, true⟩], .switch [⟨0, some 0, 0, 3, by decide, true⟩],
    .wakeup .flits, .leave 0,
    .switch [⟨0, some 0, 0, 3, by decide, true⟩, ⟨1, none, 1, 1, by decide, true⟩]],
    exists_exec (fun s => ((s.loc 0).creditCount, (s.loc 1).creditCount)) (0, 1) (by decide +kernel)
      fun _ hs h => ⟨h, (link_flow_control (fun _ => by decide) hs).1⟩⟩

end ChipletGem5.Garnet
