import ChipletGem5.Lib.Exec
import ChipletGem5.Mem.SnoopFilter

/-!
# What the snoop filter knows about the holders of a line

The filter is conservative if every port that holds a line has its bit in the entry of the line.
A port gets a line with a response, and loses it when it evicts the line, when an invalidating
packet reaches it, or when another cache takes the line over.

Two things stand in the way, both of them by design.  A response to a request that the filter
has not recorded, one that does not come from a cache, is not recorded either: so a port is said
to get a line only by a response to a recorded request.  And between `lookupRequest` and
`finishRequest` the entry of the line is not final, which is why the crossbar keeps other
operations on that line out.
-/

namespace ChipletGem5.SnoopFilter

open Function Ports List Bool

variable {f f' : SnoopFilter} {pkt : SnoopPacket} {port p : PortID} {line : Addr}

/-! ### Entries -/

/-- The parts of a filter that stay the same but for the entries and the result of the lookup. -/
structure SameLines (f f' : SnoopFilter) : Prop where
  ports : f'.ports = f.ports
  linesize : f'.linesize = f.linesize

lemma SameLines.lineAddr (h : SameLines f f') (pkt : SnoopPacket) :
    f'.lineAddr pkt = f.lineAddr pkt := by
  simp [SnoopFilter.lineAddr, lineKey, h.linesize]

/-- The parts of a filter that an operation other than `lookupRequest` leaves unchanged. -/
structure SameLookup (f f' : SnoopFilter) : Prop extends SameLines f f' where
  it : f'.it = f.it
  retryItem : f'.retryItem = f.retryItem

lemma SameLookup.refl (f : SnoopFilter) : SameLookup f f := ⟨⟨rfl, rfl⟩, rfl, rfl⟩

lemma sameLookup_eraseIfNullEntry (f : SnoopFilter) (line : Addr) :
    SameLookup f (f.eraseIfNullEntry line) := by
  unfold eraseIfNullEntry
  split
  · exact .refl f
  · split_ifs
    · exact ⟨⟨rfl, rfl⟩, rfl, rfl⟩
    · exact .refl f

lemma lookup_eq_some_of_bit (h : f.ports.Bit (f.item line).holder p) :
    f.cachedLocations.lookup line = some (f.item line) := by
  rcases hl : f.cachedLocations.lookup line with _ | i
  · rw [item_eq_zero hl] at h
    exact absurd h not_bit_zero
  · rw [item_eq_of_lookup hl]

lemma Written.sameLookup {i : SnoopItem} (h : Written f f' line i) : SameLookup f f' := by
  obtain rfl | ⟨rfl, -⟩ := h
  · exact { sameLookup_eraseIfNullEntry (f.setItem line i) line with }
  · exact ⟨⟨rfl, rfl⟩, rfl, rfl⟩

/-! ### The operations -/

/-- A packet that takes the line away from its sender. -/
def SnoopPacket.evicts (pkt : SnoopPacket) : Bool := pkt.isEviction && !pkt.isBlockCached

/-- A request that the filter records. -/
def records (f : SnoopFilter) (pkt : SnoopPacket) (port : PortID) : Bool :=
  f.allocates pkt port && pkt.needsResponse && !pkt.cacheResponding

lemma bit_of_requestItem {i i' : SnoopItem} (h : (if f.allocates pkt port then
      requestItem pkt (f.ports.portToMask port) i else .ok i) = .ok i') :
    (∀ p, f.ports.Bit i.requested p → f.ports.Bit i'.requested p) ∧
      (∀ p, f.ports.Bit i.holder p → f.ports.Bit i'.holder p ∨ p = port ∧ pkt.evicts) ∧
      (f.records pkt port → f.ports.Bit i'.requested port) := by
  unfold requestItem at h
  split_ifs at h with halloc hresp hcache hcached
  · obtain ⟨-, -, rfl⟩ := bind_pure_eq_ok.1 h
    refine ⟨fun p hp => bit_or.2 (.inl hp), fun p hp => .inl hp, fun _ => bit_or.2 (.inr ?_)⟩
    simp only [allocates, isSnooping, and_eq_true, decide_eq_true_eq] at halloc
    exact bit_portToMask.2 ⟨halloc.1.2, rfl⟩
  · obtain ⟨-, -, rfl⟩ := bind_pure_eq_ok.1 h
    refine ⟨fun p hp => hp, fun p hp => .inl hp, fun hrec => ?_⟩
    simp_all [records]
  · simp only [bind_eq_ok, pure_eq_ok] at h
    obtain ⟨-, -, -, -, rfl⟩ := h
    refine ⟨fun p hp => hp, fun p hp => .inl hp, fun hrec => ?_⟩
    simp [records, hresp] at hrec
  · simp only [bind_eq_ok, pure_eq_ok, require_eq_ok] at h
    obtain ⟨-, hevict, -, -, rfl⟩ := h
    refine ⟨fun p hp => hp, fun p hp => ?_, fun hrec => ?_⟩
    · by_cases hpp : p = port
      · exact .inr ⟨hpp, by simp [SnoopPacket.evicts, hevict, hcached]⟩
      · exact .inl (bit_andNot.2 ⟨hp, hpp⟩)
    · simp [records, hresp] at hrec
  · cases h
    refine ⟨fun p hp => hp, fun p hp => .inl hp, fun hrec => ?_⟩
    simp [records, halloc] at hrec

variable {willRetry : Bool} {x : Addr × PortID}

/-! ### Runs -/

/-- A filter with the history that decides which ports hold which lines. -/
structure System where
  filter : SnoopFilter
  /-- The ports that hold a line. -/
  held : List (Addr × PortID)
  /-- The recorded requests that have not been answered. -/
  outstanding : List (Addr × PortID)
  /-- The request whose `finishRequest` is due. -/
  pending : Option (SnoopPacket × PortID)

/-- The calls a crossbar makes. -/
inductive Action where
  | lookupRequest (pkt : SnoopPacket) (port : PortID)
  | finishRequest (willRetry : Bool) (addr : Addr) (isSecure : Bool)
  | lookupSnoop (pkt : SnoopPacket)
  | updateSnoopResponse (pkt : SnoopPacket) (rspPort reqPort : PortID)
  | updateSnoopForward (pkt : SnoopPacket)
  | updateResponse (pkt : SnoopPacket) (port : PortID)

namespace System

variable (s : System)

/-- The ports of a list lose a line. -/
def lose (line : Addr) (ports : List PortID) : List (Addr × PortID) :=
  s.held.filter fun x => !(x.1 == line && ports.contains x.2)

def loseAll (line : Addr) : List (Addr × PortID) := s.held.filter fun x => x.1 != line

/-- The ports that hold a line after the ports `snooped` have received a packet. -/
def heldAfterSnoop (pkt : SnoopPacket) (snooped : List PortID) : List (Addr × PortID) :=
  if pkt.isInvalidate then s.lose (s.filter.lineAddr pkt) snooped else s.held

/-- The ports that hold a line after the outcome of a request is known. -/
def heldAfterRequest (willRetry : Bool) : List (Addr × PortID) :=
  match s.pending with
  | some (pkt, port) =>
      if !willRetry && pkt.evicts then s.lose (s.filter.lineAddr pkt) [port] else s.held
  | none => s.held

/-- The unanswered requests after the outcome of a request is known. -/
def outstandingAfterRequest (willRetry : Bool) : List (Addr × PortID) :=
  match s.pending with
  | some (pkt, port) =>
      if !willRetry && s.filter.records pkt port then
        (s.filter.lineAddr pkt, port) :: s.outstanding
      else s.outstanding
  | none => s.outstanding

/-- The ports that hold a line after a snoop response. -/
def heldAfterSnoopResponse (pkt : SnoopPacket) : List (Addr × PortID) :=
  if !pkt.hasSharers then s.loseAll (s.filter.lineAddr pkt) else s.held

/-- The unanswered requests after a response to a port. -/
def outstandingAfterResponse (pkt : SnoopPacket) (port : PortID) : List (Addr × PortID) :=
  if pkt.isUncacheable then s.outstanding
  else s.outstanding.filter fun x => x != (s.filter.lineAddr pkt, port)

/-- An operation; `gains` says which responses bring a line to a port. -/
def step (gains : System → SnoopPacket → PortID → Bool) (s : System) :
    Action → Result System
  | .lookupRequest pkt port => do
      let (f, snooped) ← s.filter.lookupRequest pkt port
      return { s with
        filter := f
        held := s.heldAfterSnoop pkt snooped
        pending := some (pkt, port) }
  | .finishRequest willRetry addr isSecure => do
      let f ← s.filter.finishRequest willRetry addr isSecure
      return {
        filter := f
        held := s.heldAfterRequest willRetry
        outstanding := s.outstandingAfterRequest willRetry
        pending := none }
  | .lookupSnoop pkt => do
      let (f, snooped) ← s.filter.lookupSnoop pkt
      return { s with filter := f, held := s.heldAfterSnoop pkt snooped }
  | .updateSnoopResponse pkt rspPort reqPort => do
      let f ← s.filter.updateSnoopResponse pkt rspPort reqPort
      let held := s.heldAfterSnoopResponse pkt
      return { s with
        filter := f
        held := if gains s pkt reqPort then (s.filter.lineAddr pkt, reqPort) :: held else held
        outstanding := s.outstandingAfterResponse pkt reqPort }
  | .updateSnoopForward pkt => do
      let f ← s.filter.updateSnoopForward pkt
      return { s with filter := f, held := s.heldAfterSnoopResponse pkt }
  | .updateResponse pkt port => do
      let f ← s.filter.updateResponse pkt port
      return { s with
        filter := f
        held :=
          if pkt.isCacheMaintenance then
            if pkt.isInvalidate then s.lose (s.filter.lineAddr pkt) [port] else s.held
          else if gains s pkt port then (s.filter.lineAddr pkt, port) :: s.held
          else s.held
        outstanding := s.outstandingAfterResponse pkt port }

/-- Every response brings the line. -/
def anyResponse (_ : System) (_ : SnoopPacket) (_ : PortID) : Bool := true

/-- A cacheable response to a recorded request brings the line. -/
def recordedResponse (pkt : SnoopPacket) (port : PortID) : Bool :=
  !pkt.isUncacheable && s.outstanding.contains (s.filter.lineAddr pkt, port)

/-- The line of an operation, but for `finishRequest`. -/
def line? : Action → Option Addr
  | .lookupRequest pkt _ => some (s.filter.lineAddr pkt)
  | .finishRequest _ _ _ => none
  | .lookupSnoop pkt => some (s.filter.lineAddr pkt)
  | .updateSnoopResponse pkt _ _ => some (s.filter.lineAddr pkt)
  | .updateSnoopForward pkt => some (s.filter.lineAddr pkt)
  | .updateResponse pkt _ => some (s.filter.lineAddr pkt)

/-- The operations come in order: `lookupRequest` is followed by `finishRequest`, with only
operations on other lines in between. -/
def InOrder (a : Action) : Prop :=
  match a with
  | .finishRequest _ _ _ => s.pending.isSome
  | .lookupRequest _ _ => s.pending.isNone
  | a => ∀ x ∈ s.pending, s.line? a ≠ some (s.filter.lineAddr x.1)

instance (s : System) (a : Action) : Decidable (s.InOrder a) := by
  cases a <;> dsimp only [InOrder] <;> infer_instance

def initial (ports : Ports) (linesize maxEntryCount : ℕ) : System :=
  ⟨new ports linesize maxEntryCount, [], [], none⟩

/-- A port has sent an eviction of a line, and it is not yet known whether it has to send it
again. -/
def Evicting (line : Addr) (p : PortID) : Prop :=
  ∃ pkt, s.pending = some (pkt, p) ∧ pkt.evicts ∧ s.filter.lineAddr pkt = line

/-- Every port that holds a line has its bit in the entry of the line. -/
def Conservative : Prop :=
  ∀ line p, (line, p) ∈ s.held → ¬ s.Evicting line p → ∃ item,
    s.filter.cachedLocations.lookup line = some item ∧
      s.filter.ports.Bit (item.holder ||| item.requested) p

/-! ### The invariant -/

variable {s s' : System}

/-- What a request that is not finished has left behind: the entry of its line as it was, unless
there is none. -/
def Saved (pkt : SnoopPacket) (port : PortID) : Prop :=
  match s.filter.it with
  | none => (∀ p, (s.filter.lineAddr pkt, p) ∉ s.held) ∧ s.filter.allocates pkt port = false
  | some line => line = s.filter.lineAddr pkt ∧
      (∀ p, (line, p) ∈ s.held → s.filter.ports.Bit s.filter.retryItem.holder p) ∧
      (∀ p, (line, p) ∈ s.outstanding → s.filter.ports.Bit s.filter.retryItem.requested p) ∧
      (s.filter.records pkt port → s.filter.ports.Bit (s.filter.item line).requested port)

/-- The bits of the holders and of the unanswered requests are set. -/
structure Tracked (s : System) : Prop where
  held : ∀ line p, (line, p) ∈ s.held → ¬ s.Evicting line p →
    s.filter.ports.Bit (s.filter.item line).holder p
  outstanding : ∀ line p, (line, p) ∈ s.outstanding →
    s.filter.ports.Bit (s.filter.item line).requested p
  pending : ∀ pkt port, s.pending = some (pkt, port) → s.Saved pkt port

/-- No request for the line is pending. -/
def Quiet (line : Addr) : Prop :=
  ∀ pkt port, s.pending = some (pkt, port) → s.filter.lineAddr pkt ≠ line

lemma Quiet.not_evicting (h : s.Quiet line) : ¬ s.Evicting line p := by
  rintro ⟨pkt, hpkt, -, hline⟩
  exact h pkt p hpkt hline

lemma quiet_of_pending_eq_none (h : s.pending = none) (line : Addr) : s.Quiet line := by
  intro pkt port hpkt
  simp [h] at hpkt

lemma Tracked.bit_holder (h : s.Tracked) (hq : s.Quiet line) (hp : (line, p) ∈ s.held) :
    s.filter.ports.Bit (s.filter.item line).holder p :=
  h.held line p hp hq.not_evicting

lemma Tracked.conservative (h : s.Tracked) : s.Conservative := by
  intro line p hp hne
  have hbit := h.held line p hp hne
  exact ⟨_, lookup_eq_some_of_bit hbit, bit_or.2 (.inl hbit)⟩

lemma mem_lose {ports : List PortID} :
    x ∈ s.lose line ports ↔ x ∈ s.held ∧ ¬ (x.1 = line ∧ x.2 ∈ ports) := by
  simp only [lose, mem_filter, Bool.not_eq_eq_eq_not, Bool.not_true, Bool.and_eq_false_iff,
    beq_eq_false_iff_ne, contains_eq_mem, decide_eq_false_iff_not, not_and_or, ne_eq]

lemma mem_loseAll : x ∈ s.loseAll line ↔ x ∈ s.held ∧ x.1 ≠ line := by
  simp [loseAll]

lemma SameLookup.records (h : SameLookup f f') (pkt : SnoopPacket) (port : PortID) :
    f'.records pkt port = f.records pkt port := by
  simp [SnoopFilter.records, allocates, h.ports]

/-- An operation that changes the entry of one line, for which no request is pending, keeps the
invariant if the new entry has the bits of the holders and the unanswered requests of the line. -/
lemma Tracked.update (h : s.Tracked) (hq : s.Quiet line) {i : SnoopItem}
    (hsame : SameLookup s.filter s'.filter) (hitem : s'.filter.item = update s.filter.item line i)
    (hpending : s'.pending = s.pending)
    (hheld : ∀ l p, (l, p) ∈ s'.held → l = line ∧ s.filter.ports.Bit i.holder p ∨
      (l, p) ∈ s.held ∧ (l = line → s.filter.ports.Bit (s.filter.item l).holder p →
        s.filter.ports.Bit i.holder p))
    (hout : ∀ l p, (l, p) ∈ s'.outstanding → (l, p) ∈ s.outstanding ∧
      (l = line → s.filter.ports.Bit (s.filter.item l).requested p →
        s.filter.ports.Bit i.requested p)) : s'.Tracked := by
  have hother : ∀ l p, (l, p) ∈ s'.held → l ≠ line → (l, p) ∈ s.held := fun l p hp hl =>
    (hheld l p hp).elim (fun hnew => absurd hnew.1 hl) And.left
  refine ⟨fun l p hp hne => ?_, fun l p hp => ?_, fun pkt port hpkt => ?_⟩
  · rw [hsame.ports, hitem]
    rcases eq_or_ne l line with rfl | hl
    · rw [update_self]
      obtain ⟨-, hbit⟩ | ⟨hmem, hbit⟩ := hheld l p hp
      · exact hbit
      · exact hbit rfl (h.bit_holder hq hmem)
    · rw [update_of_ne hl]
      refine h.held l p (hother l p hp hl) ?_
      rintro ⟨pkt, hpkt, hev, hline⟩
      exact hne ⟨pkt, hpending.trans hpkt, hev, (hsame.lineAddr pkt).trans hline⟩
  · obtain ⟨hmem, hbit⟩ := hout l p hp
    rw [hsame.ports, hitem]
    rcases eq_or_ne l line with rfl | hl
    · rw [update_self]
      exact hbit rfl (h.outstanding l p hmem)
    · rw [update_of_ne hl]
      exact h.outstanding l p hmem
  · -- the line of the pending request is another one, and nothing about it has changed
    rw [hpending] at hpkt
    have hline := hq pkt port hpkt
    have hsaved := h.pending pkt port hpkt
    unfold Saved at hsaved ⊢
    rw [hsame.it]
    rcases hit : s.filter.it with _ | l
    · simp only [hit] at hsaved ⊢
      rw [hsame.lineAddr]
      refine ⟨fun p hp => hsaved.1 p (hother _ p hp hline), ?_⟩
      simpa [allocates, hsame.ports] using hsaved.2
    · simp only [hit] at hsaved ⊢
      obtain ⟨rfl, hhold, hreq, hrec⟩ := hsaved
      rw [hsame.lineAddr, hsame.retryItem, hsame.ports, SameLookup.records hsame, hitem,
        update_of_ne hline]
      exact ⟨rfl, fun p hp => hhold p (hother _ p hp hline),
        fun p hp => hreq p (hout _ p hp).1, hrec⟩

lemma Tracked.shrink (h : s.Tracked) (hq : s.Quiet line) (hfilter : s'.filter = s.filter)
    (hpending : s'.pending = s.pending) (hheld : ∀ x ∈ s'.held, x ∈ s.held)
    (hout : ∀ x ∈ s'.outstanding, x ∈ s.outstanding) : s'.Tracked :=
  h.update hq (i := s.filter.item line) (hfilter ▸ .refl _) (by rw [update_eq_self, hfilter])
    hpending (fun l p hp => .inr ⟨hheld _ hp, by rintro rfl; exact id⟩)
    fun l p hp => ⟨hout _ hp, by rintro rfl; exact id⟩

/-! ### The operations keep the invariant -/

lemma mem_heldAfterSnoop {snooped : List PortID}
    (hx : x ∈ s.heldAfterSnoop pkt snooped) : x ∈ s.held ∧
      (pkt.isInvalidate → ¬ (x.1 = s.filter.lineAddr pkt ∧ x.2 ∈ snooped)) := by
  unfold heldAfterSnoop at hx
  split_ifs at hx with hinv
  · obtain ⟨hmem, hnot⟩ := mem_lose.1 hx
    exact ⟨hmem, fun _ => hnot⟩
  · exact ⟨hx, fun h => absurd h hinv⟩

lemma mem_heldAfterSnoopResponse (hx : x ∈ s.heldAfterSnoopResponse pkt) :
    x ∈ s.held ∧ (pkt.hasSharers = false → x.1 ≠ s.filter.lineAddr pkt) := by
  unfold heldAfterSnoopResponse at hx
  split_ifs at hx with hsharers
  · obtain ⟨hmem, hne⟩ := mem_loseAll.1 hx
    exact ⟨hmem, fun _ => hne⟩
  · exact ⟨hx, fun h => absurd h (by simpa using hsharers)⟩

lemma mem_outstandingAfterResponse
    (hx : x ∈ s.outstandingAfterResponse pkt port) : x ∈ s.outstanding ∧
      (pkt.isUncacheable = false → x ≠ (s.filter.lineAddr pkt, port)) := by
  unfold outstandingAfterResponse at hx
  split_ifs at hx with hunc
  · exact ⟨hx, fun h => absurd hunc (by simp [h])⟩
  · simp only [mem_filter, bne_iff_ne] at hx
    exact ⟨hx.1, fun _ => hx.2⟩

lemma Tracked.recordedResponse_eq_false (h : s.Tracked)
    (hskip : pkt.isUncacheable ∨ port ∉ s.filter.ports.slavePorts ∨
      s.filter.item (s.filter.lineAddr pkt) = ⟨0, 0⟩) : recordedResponse s pkt port = false := by
  unfold recordedResponse
  rw [and_eq_false_iff, contains_eq_mem, decide_eq_false_iff_not]
  rcases hskip with hunc | hport | hitem
  · exact .inl (by simp [hunc])
  · exact .inr fun hmem => hport (h.outstanding _ _ hmem).1
  · refine .inr fun hmem => ?_
    have hbit := h.outstanding _ _ hmem
    rw [hitem] at hbit
    exact not_bit_zero hbit

lemma InOrder.quiet {a : Action} (h : s.InOrder a) (hline : s.line? a = some line)
    (hfinish : ∀ w addr sec, a ≠ .finishRequest w addr sec) : s.Quiet line := by
  intro pkt port hpkt heq
  rcases a with _ | _ | _ | _ | _ | _
  · simp [InOrder, hpkt] at h
  · exact absurd rfl (hfinish _ _ _)
  all_goals exact h _ hpkt (hline.trans (by rw [heq]))

variable {gains : System → SnoopPacket → PortID → Bool}

lemma Tracked.lookupSnoop (h : s.Tracked) (ha : s.InOrder (.lookupSnoop pkt))
    (hs : step gains s (.lookupSnoop pkt) = .ok s') : s'.Tracked := by
  obtain ⟨⟨f, list⟩, hf, rfl⟩ := bind_pure_eq_ok.1 hs
  have hq := ha.quiet rfl (by simp)
  obtain ⟨rfl, rfl | ⟨hinv, hw⟩⟩ := lookupSnoop_eq_ok hf
  · exact h.shrink hq rfl rfl (fun x hx => (mem_heldAfterSnoop hx).1) fun x hx => hx
  · refine h.update hq hw.sameLookup hw.item_eq rfl (fun l p hp => .inr ?_)
      fun l p hp => ⟨hp, by rintro rfl; exact id⟩
    -- the holders of the line have been snooped, and none is left
    obtain ⟨hmem, hnot⟩ := mem_heldAfterSnoop hp
    refine ⟨hmem, fun hl hbit => absurd ⟨hl, ?_⟩ (hnot hinv)⟩
    exact mem_maskToPortList.2 (bit_or.2 (.inl (hl ▸ hbit)))

lemma Tracked.updateSnoopForward (h : s.Tracked) (ha : s.InOrder (.updateSnoopForward pkt))
    (hs : step gains s (.updateSnoopForward pkt) = .ok s') : s'.Tracked := by
  obtain ⟨f, hf, rfl⟩ := bind_pure_eq_ok.1 hs
  have hq := ha.quiet rfl (by simp)
  obtain rfl | ⟨hsharers, hw⟩ := updateSnoopForward_eq_ok hf
  · exact h.shrink hq rfl rfl (fun x hx => (mem_heldAfterSnoopResponse hx).1) fun x hx => hx
  · refine h.update hq hw.sameLookup hw.item_eq rfl (fun l p hp => .inr ?_)
      fun l p hp => ⟨hp, by rintro rfl; exact id⟩
    obtain ⟨hmem, hne⟩ := mem_heldAfterSnoopResponse hp
    exact ⟨hmem, fun hl => absurd hl (hne hsharers)⟩

lemma bit_of_mem_outstandingAfterResponse (hcache : pkt.isUncacheable = false) {l : Addr}
    (hp : (l, p) ∈ s.outstandingAfterResponse pkt port) :
    (l, p) ∈ s.outstanding ∧ (l = s.filter.lineAddr pkt →
      s.filter.ports.Bit (s.filter.item l).requested p → s.filter.ports.Bit
        ((s.filter.item (s.filter.lineAddr pkt)).requested &&& ~~~s.filter.ports.portToMask port)
          p) := by
  obtain ⟨hmem, hne⟩ := mem_outstandingAfterResponse hp
  refine ⟨hmem, ?_⟩
  rintro rfl hbit
  refine bit_andNot.2 ⟨hbit, ?_⟩
  rintro rfl
  exact hne hcache rfl

lemma Tracked.updateSnoopResponse {rspPort reqPort : PortID} (h : s.Tracked)
    (ha : s.InOrder (.updateSnoopResponse pkt rspPort reqPort))
    (hs : step recordedResponse s (.updateSnoopResponse pkt rspPort reqPort) = .ok s') :
    s'.Tracked := by
  obtain ⟨f, hf, rfl⟩ := bind_pure_eq_ok.1 hs
  have hq := ha.quiet rfl (by simp)
  obtain ⟨rfl, hskip⟩ | ⟨⟨hport, hcache⟩, hw⟩ := updateSnoopResponse_eq_ok hf
  · have hno := h.recordedResponse_eq_false (hskip.imp id .inl)
    refine h.shrink hq rfl rfl (fun x hx => ?_) fun x hx => (mem_outstandingAfterResponse hx).1
    simp only [hno, false_eq_true, if_false] at hx
    exact (mem_heldAfterSnoopResponse hx).1
  · refine h.update hq hw.sameLookup hw.item_eq rfl (fun l p hp => ?_)
      fun l p hp => bit_of_mem_outstandingAfterResponse hcache hp
    obtain heq | hp : (l, p) = (s.filter.lineAddr pkt, reqPort) ∨
        (l, p) ∈ s.heldAfterSnoopResponse pkt := by
      split_ifs at hp
      · exact mem_cons.1 hp
      · exact .inr hp
    · cases heq
      exact .inl ⟨rfl, bit_or.2 (.inr (bit_portToMask.2 ⟨hport, rfl⟩))⟩
    · obtain ⟨hmem, hne⟩ := mem_heldAfterSnoopResponse hp
      refine .inr ⟨hmem, ?_⟩
      rintro rfl hbit
      rw [if_neg]
      · exact bit_or.2 (.inl hbit)
      · exact fun hsharers => hne (by simpa using hsharers) rfl

lemma Tracked.updateResponse (h : s.Tracked) (ha : s.InOrder (.updateResponse pkt port))
    (hs : step recordedResponse s (.updateResponse pkt port) = .ok s') : s'.Tracked := by
  obtain ⟨f, hf, rfl⟩ := bind_pure_eq_ok.1 hs
  have hq := ha.quiet rfl (by simp)
  obtain ⟨rfl, hskip⟩ | ⟨⟨hport, hcache⟩, hw⟩ := updateResponse_eq_ok hf
  · have hno := h.recordedResponse_eq_false hskip
    refine h.shrink hq rfl rfl (fun x hx => ?_) fun x hx => (mem_outstandingAfterResponse hx).1
    simp only [hno, false_eq_true, if_false] at hx
    split_ifs at hx
    · exact (mem_lose.1 hx).1
    · exact hx
    · exact hx
  · refine h.update hq hw.sameLookup hw.item_eq rfl (fun l p hp => ?_)
      fun l p hp => bit_of_mem_outstandingAfterResponse hcache hp
    unfold responseHolder
    split_ifs at hp ⊢
    · obtain ⟨hmem, hnot⟩ := mem_lose.1 hp
      refine .inr ⟨hmem, ?_⟩
      rintro rfl hbit
      exact bit_andNot.2 ⟨hbit, fun heq => hnot ⟨rfl, by simp [heq]⟩⟩
    · exact .inr ⟨hp, by rintro rfl; exact id⟩
    · rcases mem_cons.1 hp with heq | hp
      · cases heq
        exact .inl ⟨rfl, bit_or.2 (.inr (bit_portToMask.2 ⟨hport, rfl⟩))⟩
      · exact .inr ⟨hp, by rintro rfl hbit; exact bit_or.2 (.inl hbit)⟩
    · exact .inr ⟨hp, by rintro rfl hbit; exact bit_or.2 (.inl hbit)⟩

lemma Tracked.lookupRequest (h : s.Tracked) (ha : s.InOrder (.lookupRequest pkt port))
    (hs : step gains s (.lookupRequest pkt port) = .ok s') : s'.Tracked := by
  obtain ⟨⟨f, list⟩, hf, rfl⟩ := bind_pure_eq_ok.1 hs
  have hquiet := quiet_of_pending_eq_none (Option.isNone_iff_eq_none.1 ha)
  have hheld : ∀ l p, (l, p) ∈ s.heldAfterSnoop pkt list →
      s.filter.ports.Bit (s.filter.item l).holder p := fun l p hp =>
    h.bit_holder (hquiet l) (mem_heldAfterSnoop hp).1
  obtain ⟨-, ⟨rfl, hzero, halloc⟩ | ⟨i, hi, rfl⟩⟩ := lookupRequest_eq_ok hf
  · refine ⟨fun l p hp _ => hheld l p hp, h.outstanding, fun pkt' port' hpkt => ?_⟩
    cases hpkt
    refine ⟨fun p hp => ?_, halloc⟩
    have hbit := hheld (s.filter.lineAddr pkt) p hp
    rw [hzero] at hbit
    exact not_bit_zero hbit
  · obtain ⟨hreq, hhold, hrec⟩ := bit_of_requestItem hi
    refine ⟨fun l p hp hne => ?_, fun l p hp => ?_, fun pkt' port' hpkt => ?_⟩
    · rw [item_setItem]
      rcases eq_or_ne l (s.filter.lineAddr pkt) with rfl | hl
      · rw [update_self]
        rcases hhold p (hheld _ p hp) with hbit | ⟨rfl, hev⟩
        · exact hbit
        · exact absurd ⟨pkt, rfl, hev, rfl⟩ hne
      · rw [update_of_ne hl]
        exact hheld l p hp
    · rw [item_setItem]
      rcases eq_or_ne l (s.filter.lineAddr pkt) with rfl | hl
      · rw [update_self]
        exact hreq p (h.outstanding _ p hp)
      · rw [update_of_ne hl]
        exact h.outstanding l p hp
    · cases hpkt
      refine ⟨rfl, hheld _, h.outstanding _, fun hr => ?_⟩
      rw [item_setItem, update_self]
      exact hrec hr

lemma Evicting.eq (h : s.Evicting line p) (hpkt : s.pending = some (pkt, port)) :
    line = s.filter.lineAddr pkt ∧ p = port ∧ pkt.evicts := by
  obtain ⟨pkt', hpkt', hev, hline⟩ := h
  cases hpkt.symm.trans hpkt'
  exact ⟨hline.symm, rfl, hev⟩

lemma mem_heldAfterRequest (hx : x ∈ s.heldAfterRequest willRetry) :
    x ∈ s.held ∧ (willRetry = false → ¬ s.Evicting x.1 x.2) := by
  unfold heldAfterRequest at hx
  split at hx
  · rename_i pkt port hpkt
    split_ifs at hx with hev
    · obtain ⟨hmem, hnot⟩ := mem_lose.1 hx
      refine ⟨hmem, fun _ hevicting => hnot ?_⟩
      obtain ⟨hline, hport, -⟩ := hevicting.eq hpkt
      exact ⟨hline, by simp [hport]⟩
    · refine ⟨hx, fun hno hevicting => hev ?_⟩
      obtain ⟨-, -, hevicts⟩ := hevicting.eq hpkt
      simp [hno, hevicts]
  · rename_i hnone
    refine ⟨hx, ?_⟩
    rintro - ⟨pkt, hpkt, -⟩
    simp [hnone] at hpkt

lemma mem_outstandingAfterRequest
    (hpkt : s.pending = some (pkt, port)) (hx : x ∈ s.outstandingAfterRequest willRetry) :
    x ∈ s.outstanding ∨ willRetry = false ∧ s.filter.records pkt port ∧
      x = (s.filter.lineAddr pkt, port) := by
  simp only [outstandingAfterRequest, hpkt] at hx
  split_ifs at hx with hrec
  · simp only [Bool.and_eq_true, Bool.not_eq_eq_eq_not, Bool.not_true] at hrec
    exact (mem_cons.1 hx).elim (fun heq => .inr ⟨hrec.1, hrec.2, heq⟩) .inl
  · exact .inl hx

lemma Tracked.finishRequest {isSecure : Bool} {addr : Addr} (h : s.Tracked)
    (ha : s.InOrder (.finishRequest willRetry addr isSecure))
    (hs : step gains s (.finishRequest willRetry addr isSecure) = .ok s') : s'.Tracked := by
  obtain ⟨f, hf, rfl⟩ := bind_pure_eq_ok.1 hs
  obtain ⟨⟨pkt, port⟩, hpkt⟩ := Option.isSome_iff_exists.1 ha
  have hsaved := h.pending pkt port hpkt
  unfold Saved at hsaved
  obtain ⟨hit, rfl⟩ | ⟨line, hit, rfl⟩ := finishRequest_eq_ok hf
  · -- there was no entry, and the request has left none
    simp only [hit] at hsaved
    refine ⟨fun l p hp _ => h.held l p (mem_heldAfterRequest hp).1 ?_, fun l p hp => ?_, by simp⟩
    · intro hevicting
      obtain ⟨rfl, -, -⟩ := hevicting.eq hpkt
      exact hsaved.1 _ (mem_heldAfterRequest hp).1
    · rcases mem_outstandingAfterRequest hpkt hp with hold | ⟨-, hrec, -⟩
      · exact h.outstanding l p hold
      · simp [records, hsaved.2] at hrec
  · simp only [hit] at hsaved
    obtain ⟨rfl, hhold, hreq, hrec⟩ := hsaved
    have hports := (sameLookup_eraseIfNullEntry (if willRetry then
      s.filter.setItem (s.filter.lineAddr pkt) s.filter.retryItem else s.filter)
        (s.filter.lineAddr pkt)).ports
    cases willRetry with
    | false =>
      refine ⟨fun l p hp _ => ?_, fun l p hp => ?_, by simp⟩
      · rw [hports, item_eraseIfNullEntry]
        exact h.held l p (mem_heldAfterRequest hp).1 ((mem_heldAfterRequest hp).2 rfl)
      · rw [hports, item_eraseIfNullEntry]
        rcases mem_outstandingAfterRequest hpkt hp with hold | ⟨-, hrecords, heq⟩
        · exact h.outstanding l p hold
        · cases heq
          exact hrec hrecords
    | true =>
      refine ⟨fun l p hp _ => ?_, fun l p hp => ?_, by simp⟩
      · rw [hports, item_eraseIfNullEntry, if_pos rfl, item_setItem]
        rcases eq_or_ne l (s.filter.lineAddr pkt) with rfl | hl
        · rw [update_self]
          exact hhold p (mem_heldAfterRequest hp).1
        · rw [update_of_ne hl]
          exact h.held l p (mem_heldAfterRequest hp).1 fun hevicting => hl (hevicting.eq hpkt).1
      · rw [hports, item_eraseIfNullEntry, if_pos rfl, item_setItem]
        rcases mem_outstandingAfterRequest hpkt hp with hold | ⟨hfalse, -, -⟩
        · rcases eq_or_ne l (s.filter.lineAddr pkt) with rfl | hl
          · rw [update_self]
            exact hreq p hold
          · rw [update_of_ne hl]
            exact h.outstanding l p hold
        · simp at hfalse

lemma Tracked.step {a : Action} (h : s.Tracked) (ha : s.InOrder a)
    (hs : step recordedResponse s a = .ok s') : s'.Tracked := by
  cases a with
  | lookupRequest => exact h.lookupRequest ha hs
  | finishRequest => exact h.finishRequest ha hs
  | lookupSnoop => exact h.lookupSnoop ha hs
  | updateSnoopResponse => exact h.updateSnoopResponse ha hs
  | updateSnoopForward => exact h.updateSnoopForward ha hs
  | updateResponse => exact h.updateResponse ha hs

/-- In every run in order, the filter is conservative, a snoop is sent to all ports that hold the
line, and a request to all of them but the one that it comes from. -/
theorem exec_conservative {ports : Ports} {linesize maxEntryCount : ℕ} {as : List Action}
    (h : Exec (Guarded InOrder (step recordedResponse)) (initial ports linesize maxEntryCount) as
      s) :
    s.Conservative ∧
      (∀ pkt f list, s.InOrder (.lookupSnoop pkt) → s.filter.lookupSnoop pkt = .ok (f, list) →
        ∀ p, (s.filter.lineAddr pkt, p) ∈ s.held → p ∈ list) ∧
      ∀ pkt port f list, s.InOrder (.lookupRequest pkt port) →
        s.filter.lookupRequest pkt port = .ok (f, list) →
          ∀ p, (s.filter.lineAddr pkt, p) ∈ s.held → p ≠ port → p ∈ list := by
  have htracked : s.Tracked := h.invariant_state
    ⟨by simp [initial], by simp [initial], by simp [initial]⟩ fun hs ⟨ha, hstep⟩ => hs.step ha hstep
  refine ⟨htracked.conservative, fun pkt f list ha hf p hp => ?_,
    fun pkt port f list ha hf p hp hne => ?_⟩
  · have hbit := htracked.bit_holder (ha.quiet rfl (by simp)) hp
    rw [(lookupSnoop_eq_ok hf).1]
    exact mem_maskToPortList.2 (bit_or.2 (.inl hbit))
  · have hbit := htracked.bit_holder (ha.quiet rfl (by simp)) hp
    rw [(lookupRequest_eq_ok hf).1]
    exact mem_maskToPortList.2 (bit_andNot.2 ⟨bit_or.2 (.inl hbit), hne⟩)

/-- A cache reads a line, and another one takes it over with the first as its supplier. -/
def takeOverRun : List Action :=
  [.lookupRequest (linePacket .readSharedReq) 0, .finishRequest false 0x40 false,
    .updateResponse (linePacket .readResp) 0, .lookupRequest (linePacket .readExReq) 1,
    .finishRequest false 0x40 false,
    .updateSnoopResponse { linePacket .readExResp with cacheResponding := true } 0 1]

theorem exec_conservative_takeOverRun : ∃ s : System, s.Conservative ∧ s.held = [(0x40, 1)] ∧
    ∀ f list, s.filter.lookupSnoop (linePacket .readSharedReq) = .ok (f, list) → 1 ∈ list := by
  have h : Exec (Guarded InOrder (step recordedResponse)) (initial twoPorts 64 16) takeOverRun _ :=
    exec_of_replay rfl
  obtain ⟨hcons, hsnoop, -⟩ := exec_conservative h
  exact ⟨_, hcons, rfl, fun f list hf => hsnoop _ f list nofun hf 1 mem_cons_self⟩

/-- The filter does not record the response to a request that does not come from a cache.  And
while it is not known whether an eviction has to be sent again, a snoop passes by the port that
still holds the line. -/
theorem unrecorded_response_and_retried_eviction :
    (∃ s, Exec (Guarded InOrder (step anyResponse)) (initial twoPorts 64 16)
        [.lookupRequest (linePacket .readReq) 0, .finishRequest false 0x40 false,
          .updateResponse (linePacket .readResp) 0] s ∧
      s.pending = none ∧ (0x40, 0) ∈ s.held ∧ s.filter.cachedLocations.lookup 0x40 = none ∧
      ¬ s.Conservative) ∧
    ∃ s f f', Exec (Guarded InOrder (step recordedResponse)) (initial twoPorts 64 16)
        [.lookupRequest (linePacket .readSharedReq) 0, .finishRequest false 0x40 false,
          .updateResponse (linePacket .readResp) 0, .lookupRequest (linePacket .cleanEvict) 0] s ∧
      (0x40, 0) ∈ s.held ∧ s.filter.lookupSnoop (linePacket .readSharedReq) = .ok (f, []) ∧
      f.finishRequest true 0x40 false = .ok f' ∧
      f'.cachedLocations.lookup 0x40 = some ⟨0, 1⟩ := by
  constructor
  · refine ⟨_, exec_of_replay rfl, rfl, mem_cons_self, rfl, fun hcons => ?_⟩
    obtain ⟨item, hitem, -⟩ := hcons 0x40 0 mem_cons_self
      (quiet_of_pending_eq_none rfl _).not_evicting
    cases hitem
  · exact ⟨_, _, _, exec_of_replay rfl, mem_cons_self, rfl, rfl, rfl⟩

end System

end ChipletGem5.SnoopFilter
