import ChipletGem5.Base.AddrRange

/-!
# Store sets

`StoreSet` (cpu/o3/store_set.cc) predicts on which store a load or store depends.  The SSIT gives
the PC of an instruction a store set, and the LFST has the last store of each set that was fetched.
`storeList` has the stores that were entered, with their sets, the youngest first.

The loop of `squash` would go on forever if the LFST had an older store for the set of the first
entry.  This does not happen.  But a store that issues looks for its set in the SSIT, where
`violation` may have put another one: then the LFST keeps the store.
-/

namespace ChipletGem5

open Function List

namespace StoreSet

/-- The tables have `2 ^ ssitBits` and `2 ^ lfstBits` entries.  The constructor with parameters
refuses other sizes than powers of two; `init` takes any size, and is modelled for these. -/
structure Config where
  ssitBits : ℕ
  lfstBits : ℕ
  clearPeriod : BitVec 64

abbrev Config.Index (cfg : Config) := BitVec cfg.ssitBits

/-- The id of a store set. -/
abbrev Config.SSID (cfg : Config) := BitVec cfg.lfstBits

end StoreSet

/-- The tables.  An entry of the SSIT is not read unless it is valid, one of the LFST is. -/
structure StoreSet (cfg : StoreSet.Config) where
  ssit : cfg.Index → Option cfg.SSID := fun _ => none
  lfst : cfg.SSID → ℕ := fun _ => 0
  validLFST : cfg.SSID → Bool := fun _ => false
  storeList : List (ℕ × cfg.SSID) := []
  memOpsPred : BitVec 32 := 0

namespace StoreSet

variable {cfg : Config}

def calcIndex (pc : Addr) : cfg.Index := (pc >>> 2).setWidth _

def calcSSID (pc : Addr) : cfg.SSID := (pc ^^^ (pc >>> 10)).setWidth _

section

variable (s : StoreSet cfg)

def violation (storePC loadPC : Addr) : StoreSet cfg :=
  let loadIndex := calcIndex loadPC
  let storeIndex := calcIndex storePC
  { s with ssit :=
      match s.ssit loadIndex, s.ssit storeIndex with
      | none, none =>
          let newSet := some (calcSSID loadPC)
          update (update s.ssit loadIndex newSet) storeIndex newSet
      | some loadSSID, none => update s.ssit storeIndex (some loadSSID)
      | none, some storeSSID => update s.ssit loadIndex (some storeSSID)
      | some loadSSID, some storeSSID =>
          -- the store set with the lower number wins
          if storeSSID > loadSSID then update s.ssit storeIndex (some loadSSID)
          else update s.ssit loadIndex (some storeSSID) }

def clear : StoreSet cfg :=
  { s with ssit := fun _ => none, validLFST := fun _ => false, storeList := [] }

/-- `StoreSet::checkClear`; the counter is an `int`, and is compared as an unsigned number. -/
def checkClear : StoreSet cfg :=
  if (s.memOpsPred + 1).signExtend 64 > cfg.clearPeriod then { s with memOpsPred := 0 }.clear
  else { s with memOpsPred := s.memOpsPred + 1 }

def insertLoad : StoreSet cfg := s.checkClear

/-- Write an entry of a map that has the largest key first. -/
def setEntry (sn : ℕ) (ssid : cfg.SSID) : List (ℕ × cfg.SSID) → List (ℕ × cfg.SSID)
  | [] => [(sn, ssid)]
  | e :: l =>
      if e.1 < sn then (sn, ssid) :: e :: l
      else if e.1 = sn then (sn, ssid) :: l else e :: setEntry sn ssid l

def insertStore (storePC : Addr) (sn : ℕ) : StoreSet cfg :=
  let s := s.checkClear
  match s.ssit (calcIndex storePC) with
  | none => s
  | some ssid =>
      { s with
        lfst := update s.lfst ssid sn
        validLFST := update s.validLFST ssid true
        storeList := setEntry sn ssid s.storeList }

def checkInst (pc : Addr) : ℕ :=
  match s.ssit (calcIndex pc) with
  | none => 0
  | some ssid => if s.validLFST ssid then s.lfst ssid else 0

def issued (issuedPC : Addr) (sn : ℕ) (isStore : Bool) : StoreSet cfg :=
  if isStore then
    { s with
      storeList := s.storeList.filter (·.1 ≠ sn)
      validLFST :=
        match s.ssit (calcIndex issuedPC) with
        | none => s.validLFST
        | some ssid =>
            if s.validLFST ssid && s.lfst ssid == sn then update s.validLFST ssid false
            else s.validLFST }
  else s

end

/-- The loop of `squash`, for at most `fuel` rounds. -/
def squashLoop (n : ℕ) : ℕ → StoreSet cfg → Option (StoreSet cfg)
  | 0, _ => none
  | fuel + 1, s =>
      match s.storeList with
      | [] => some s
      | (sn, ssid) :: l =>
          if sn ≤ n then some s
          else
            let younger := decide (s.lfst ssid > n)
            if s.validLFST ssid && younger then
              squashLoop n fuel
                { s with validLFST := update s.validLFST ssid false, storeList := l }
            else if !s.validLFST ssid && younger then squashLoop n fuel { s with storeList := l }
            else squashLoop n fuel s

/-- `StoreSet::squash`.  A round takes an entry away or changes nothing, so a loop that does not end
after as many rounds as there are entries does not end at all. -/
def squash (s : StoreSet cfg) (n : ℕ) : Option (StoreSet cfg) :=
  s.squashLoop n (s.storeList.length + 1)

/-! ### Histories -/

/-- No outstanding store with this index is the last one of the set. -/
def Free (s : StoreSet cfg) (live : List (ℕ × Addr)) (index : cfg.Index) (ssid : cfg.SSID) : Prop :=
  ∀ x ∈ live, calcIndex x.2 = index → s.validLFST ssid = true → s.lfst ssid ≠ x.1

/-- Of two sets, a violation does not take the PC of the last store from the one that loses. -/
def Settled (s : StoreSet cfg) (live : List (ℕ × Addr)) (storePC loadPC : Addr) : Prop :=
  ∀ l t, s.ssit (calcIndex loadPC) = some l → s.ssit (calcIndex storePC) = some t →
    (t > l → s.Free live (calcIndex storePC) t) ∧ (t < l → s.Free live (calcIndex loadPC) l)

section

variable (matched settled : Prop)

/-- The predictor after some calls, with the stores that have been inserted and neither issued nor
squashed, and a bound for the sequence numbers of those inserted, which increase.  Stores may have
to issue with the PCs with which they were inserted (`matched`), and violations to be `settled`. -/
inductive History : StoreSet cfg → List (ℕ × Addr) → ℕ → Prop
  | new : History {} [] 0
  | violation {s live next} (h : History s live next) (storePC loadPC : Addr)
      (hok : settled → s.Settled live storePC loadPC) :
      History (s.violation storePC loadPC) live next
  | insertLoad {s live next} (h : History s live next) : History s.insertLoad live next
  | insertStore {s live next} (h : History s live next) (storePC : Addr) (sn : ℕ)
      (hok : next ≤ sn) : History (s.insertStore storePC sn) ((sn, storePC) :: live) (sn + 1)
  | issuedLoad {s live next} (h : History s live next) (issuedPC : Addr) (sn : ℕ) :
      History (s.issued issuedPC sn false) live next
  | issued {s live next} (h : History s live next) (issuedPC : Addr) (sn : ℕ)
      (hok : matched → ∀ x ∈ live, x.1 = sn → x.2 = issuedPC) :
      History (s.issued issuedPC sn true) (live.filter (·.1 ≠ sn)) next
  | squash {s t live next} (h : History s live next) (n : ℕ) (hsquash : s.squash n = some t) :
      History t (live.filter (·.1 ≤ n)) next

end

/-! ### The loop of a squash -/

variable {s t : StoreSet cfg} {live : List (ℕ × Addr)} {next n sn : ℕ} {ssid : cfg.SSID}

/-- What a squash leaves. -/
def squashed (n : ℕ) (s : StoreSet cfg) : StoreSet cfg :=
  { s with
    storeList := s.storeList.filter (·.1 ≤ n)
    validLFST := fun i => s.validLFST i && s.storeList.all fun e => e.1 ≤ n || e.2 ≠ i }

lemma squashed_eq_self (h : ∀ e ∈ s.storeList, e.1 ≤ n) : s.squashed n = s := by
  have hlist : s.storeList.filter (·.1 ≤ n) = s.storeList := filter_eq_self.2 (by simpa using h)
  have hall i : (s.storeList.all fun e => e.1 ≤ n || e.2 ≠ i) :=
    all_eq_true.2 fun e he => by simp [h e he]
  simp only [squashed, hlist, hall, Bool.and_true]

lemma squashed_cons {l : List (ℕ × cfg.SSID)} (hlist : s.storeList = (sn, ssid) :: l)
    (hn : ¬sn ≤ n) : s.squashed n =
      squashed n { s with validLFST := update s.validLFST ssid false, storeList := l } := by
  have hvalid i : (s.validLFST i && s.storeList.all fun e => e.1 ≤ n || e.2 ≠ i) =
      (update s.validLFST ssid false i && l.all fun e => e.1 ≤ n || e.2 ≠ i) := by
    rcases eq_or_ne i ssid with rfl | hi
    · simp [hlist, hn]
    · simp [hlist, hi, hi.symm]
  simp only [squashed, hvalid]
  simp [hlist, hn]

lemma squashLoop_eq {fuel : ℕ} (hfuel : s.storeList.length < fuel)
    (hsorted : s.storeList.Pairwise (·.1 > ·.1)) (hle : ∀ e ∈ s.storeList, e.1 ≤ s.lfst e.2) :
    s.squashLoop n fuel = some (s.squashed n) := by
  induction fuel generalizing s with
  | zero => omega
  | succ fuel ih =>
    rw [squashLoop]
    rcases hlist : s.storeList with _ | ⟨⟨sn, ssid⟩, l⟩
    · rw [squashed_eq_self (by simp [hlist])]
    rw [hlist] at hfuel hsorted hle
    obtain ⟨hhead, hsorted⟩ := pairwise_cons.1 hsorted
    obtain ⟨hfirst, hle⟩ := forall_mem_cons.1 hle
    simp only
    by_cases hn : sn ≤ n
    · -- the first entry is kept, and with it all others
      rw [if_pos hn, squashed_eq_self]
      rw [hlist]
      exact forall_mem_cons.2 ⟨hn, fun e he => (hhead e he).le.trans hn⟩
    -- the last store of the set is not older than that of the entry
    have hyounger : s.lfst ssid > n := (not_le.1 hn).trans_le hfirst
    have hrest := ih (s := { s with validLFST := update s.validLFST ssid false, storeList := l })
      (by simpa using hfuel) hsorted hle
    simp only [if_neg hn, hyounger, decide_true, Bool.and_true]
    rw [squashed_cons hlist hn, ← hrest]
    cases hvalid : s.validLFST ssid
    · rw [update_eq_self_iff.2 hvalid.symm]
      rfl
    · rfl

/-! ### Every call keeps the invariant -/

/-- The last store of a set is outstanding, and its PC is still in the set. -/
def Tracks (s : StoreSet cfg) (live : List (ℕ × Addr)) (i : cfg.SSID) : Prop :=
  (s.lfst i, i) ∈ s.storeList ∧ ∃ pc, (s.lfst i, pc) ∈ live ∧ s.ssit (calcIndex pc) = some i

/-- The entries and the last stores of the sets fit together.  If stores issue from the sets into
which they were entered (`strict`), the last stores are those of entries. -/
structure Inv (strict : Prop) (s : StoreSet cfg) (live : List (ℕ × Addr)) (next : ℕ) : Prop where
  sorted : s.storeList.Pairwise (·.1 > ·.1)
  lt_next : ∀ e ∈ s.storeList, e.1 < next
  le_lfst : ∀ e ∈ s.storeList, e.1 ≤ s.lfst e.2
  owned : ∀ i, s.validLFST i → s.lfst i < next ∧ ∀ e ∈ s.storeList, s.lfst i = e.1 → i = e.2
  tracked : strict → ∀ i, s.validLFST i → s.Tracks live i

variable {strict : Prop}

lemma Inv.squash (h : Inv strict s live next) (n : ℕ) : s.squash n = some (s.squashed n) :=
  squashLoop_eq (Nat.lt_succ_self _) h.sorted h.le_lfst

lemma validLFST_squashed {i : cfg.SSID} : (s.squashed n).validLFST i ↔
    s.validLFST i ∧ ∀ e ∈ s.storeList, n < e.1 → e.2 ≠ i := by
  simp [squashed, or_iff_not_imp_left]

lemma Inv.mono {live' : List (ℕ × Addr)} {next' : ℕ} (h : Inv strict s live next)
    (hlist : t.storeList.Sublist s.storeList)
    (hvalid : ∀ i, t.validLFST i → s.validLFST i) (hlfst : t.lfst = s.lfst)
    (hnext : next ≤ next')
    (htracks : strict → ∀ i, t.validLFST i → s.Tracks live i → t.Tracks live' i) :
    Inv strict t live' next' where
  sorted := h.sorted.sublist hlist
  lt_next e he := (h.lt_next e (hlist.subset he)).trans_le hnext
  le_lfst e he := hlfst ▸ h.le_lfst e (hlist.subset he)
  owned i hi := by
    obtain ⟨hlt, hown⟩ := h.owned i (hvalid i hi)
    rw [hlfst]
    exact ⟨hlt.trans_le hnext, fun e he => hown e (hlist.subset he)⟩
  tracked hs i hi := htracks hs i hi (h.tracked hs i (hvalid i hi))

lemma Inv.violation {storePC loadPC : Addr} (h : Inv strict s live next)
    (hok : strict → s.Settled live storePC loadPC) :
    Inv strict (s.violation storePC loadPC) live next := by
  refine h.mono (.refl _) (fun _ => id) rfl le_rfl fun hs i hi ⟨hmem, pc, hlive, hpc⟩ =>
    ⟨hmem, pc, hlive, ?_⟩
  -- an entry that was not valid is not the one of `pc`
  have hne {index : cfg.Index} (hnone : s.ssit index = none) : calcIndex pc ≠ index := by
    rintro rfl
    simp [hnone] at hpc
  simp only [StoreSet.violation]
  rcases hl : s.ssit (calcIndex loadPC) with _ | l <;>
    rcases ht : s.ssit (calcIndex storePC) with _ | t <;> simp only
  · rwa [update_of_ne (hne ht), update_of_ne (hne hl)]
  · rwa [update_of_ne (hne hl)]
  · rwa [update_of_ne (hne ht)]
  obtain ⟨hstore, hload⟩ := hok hs l t hl ht
  split_ifs with hlt
  · rcases eq_or_ne (calcIndex pc) (calcIndex storePC) with heq | hne
    · cases hpc.symm.trans (heq ▸ ht)
      exact absurd rfl (hstore hlt _ hlive heq hi)
    · rwa [update_of_ne hne]
  · rcases eq_or_ne (calcIndex pc) (calcIndex loadPC) with heq | hne
    · cases hpc.symm.trans (heq ▸ hl)
      rcases eq_or_ne t i with rfl | hti
      · rw [heq, update_self]
      · exact absurd rfl (hload (by bv_omega) _ hlive heq hi)
    · rwa [update_of_ne hne]

lemma Inv.checkClear (h : Inv strict s live next) : Inv strict s.checkClear live next := by
  unfold StoreSet.checkClear
  split_ifs
  · exact ⟨.nil, nofun, nofun, nofun, fun _ _ => nofun⟩
  · exact { h with }

lemma setEntry_eq_cons {l : List (ℕ × cfg.SSID)} (h : ∀ e ∈ l, e.1 < sn) :
    setEntry sn ssid l = (sn, ssid) :: l := by
  cases l with
  | nil => rfl
  | cons e l => exact if_pos (h e mem_cons_self)

lemma Inv.insertStore (h : Inv strict s live next) (pc : Addr) (hsn : next ≤ sn) :
    Inv strict (s.insertStore pc sn) ((sn, pc) :: live) (sn + 1) := by
  have hc := h.checkClear
  have hlt e (he : e ∈ s.checkClear.storeList) : e.1 < sn := (hc.lt_next e he).trans_le hsn
  unfold StoreSet.insertStore
  simp only
  rcases hssit : s.checkClear.ssit (calcIndex pc) with _ | ssid
  · exact hc.mono (.refl _) (fun _ => id) rfl (Nat.le_succ_of_le hsn)
      fun _ i _ ⟨hmem, pc', hlive, hpc⟩ => ⟨hmem, pc', .tail _ hlive, hpc⟩
  simp only [setEntry_eq_cons hlt]
  refine ⟨pairwise_cons.2 ⟨hlt, hc.sorted⟩, ?_, ?_, fun i hi => ?_, fun hs i hi => ?_⟩
  · exact forall_mem_cons.2 ⟨Nat.lt_succ_self _, fun e he => (hlt e he).trans (Nat.lt_succ_self _)⟩
  · refine forall_mem_cons.2 ⟨by simp, fun e he => ?_⟩
    simp only [update_apply]
    split_ifs
    · exact (hlt e he).le
    · exact hc.le_lfst e he
  all_goals rcases eq_or_ne i ssid with rfl | hne
  · simp only [update_self, forall_mem_cons, implies_true, true_and]
    exact ⟨Nat.lt_succ_self _, fun e he heq => absurd heq (hlt e he).ne'⟩
  · simp only [update_of_ne hne, forall_mem_cons] at hi ⊢
    obtain ⟨hnext, hown⟩ := hc.owned i hi
    exact ⟨by omega, by omega, hown⟩
  · simp only [Tracks, update_self]
    exact ⟨mem_cons_self, pc, mem_cons_self, hssit⟩
  · simp only [Tracks, update_of_ne hne] at hi ⊢
    obtain ⟨hmem, pc', hlive, hpc⟩ := hc.tracked hs i hi
    exact ⟨.tail _ hmem, pc', .tail _ hlive, hpc⟩

lemma Inv.issued {issuedPC : Addr} (h : Inv strict s live next)
    (hok : strict → ∀ x ∈ live, x.1 = sn → x.2 = issuedPC) :
    Inv strict (s.issued issuedPC sn true) (live.filter (·.1 ≠ sn)) next := by
  have hvalid i (hi : (s.issued issuedPC sn true).validLFST i) :
      s.validLFST i = true ∧ (s.ssit (calcIndex issuedPC) = some i → s.lfst i ≠ sn) := by
    simp only [StoreSet.issued, if_true] at hi
    rcases hssit : s.ssit (calcIndex issuedPC) with _ | ssid
    · exact ⟨by simpa [hssit] using hi, nofun⟩
    simp only [hssit] at hi
    split_ifs at hi with hlast
    · rcases eq_or_ne i ssid with rfl | hne
      · simp at hi
      · exact ⟨by rwa [update_of_ne hne] at hi, fun heq => by cases heq; exact absurd rfl hne⟩
    · refine ⟨hi, ?_⟩
      rintro ⟨⟩ heq
      simp [hi, heq] at hlast
  refine h.mono filter_sublist (fun i hi => (hvalid i hi).1) rfl le_rfl
    fun hs i hi ⟨hmem, pc, hlive, hpc⟩ => ?_
  -- the store that issues is the last one of the set where its PC leads
  have hne : s.lfst i ≠ sn := fun heq => (hvalid i hi).2 (by rwa [← hok hs _ hlive heq]) heq
  simp only [Tracks, StoreSet.issued, if_true, mem_filter, decide_eq_true_eq]
  exact ⟨⟨hmem, hne⟩, pc, ⟨hlive, hne⟩, hpc⟩

lemma Inv.squashed (h : Inv strict s live next) (n : ℕ) :
    Inv strict (s.squashed n) (live.filter (·.1 ≤ n)) next := by
  refine h.mono filter_sublist (fun i hi => (validLFST_squashed.1 hi).1) rfl le_rfl
    fun _ i hi ⟨hmem, pc, hlive, hpc⟩ => ?_
  have hle : s.lfst i ≤ n := not_lt.1 fun hlt => (validLFST_squashed.1 hi).2 _ hmem hlt rfl
  simp only [Tracks, StoreSet.squashed, mem_filter, decide_eq_true_eq]
  exact ⟨⟨hmem, hle⟩, pc, ⟨hlive, hle⟩, hpc⟩

lemma History.inv {matched settled : Prop} (h : History matched settled s live next) :
    Inv (matched ∧ settled) s live next := by
  induction h with
  | new => exact ⟨.nil, nofun, nofun, nofun, fun _ _ => nofun⟩
  | violation _ _ _ hok ih => exact ih.violation fun hs => hok hs.2
  | insertLoad _ ih => exact ih.checkClear
  | insertStore _ storePC _ hok ih => exact ih.insertStore storePC hok
  | issuedLoad _ _ _ ih => exact ih
  | issued _ _ _ hok ih => exact ih.issued fun hs => hok hs.1
  | squash _ n hsquash ih =>
    cases (ih.squash n).symm.trans hsquash
    exact ih.squashed n

/-- A squash comes to an end and takes away exactly the younger stores, also from the LFST. -/
theorem squash_exact (h : History False False s live next) (n : ℕ) :
    ∃ t, s.squash n = some t ∧ t.storeList = s.storeList.filter (·.1 ≤ n) ∧
      ∀ e ∈ s.storeList, n < e.1 → ∀ i, t.validLFST i → t.lfst i ≠ e.1 := by
  refine ⟨_, h.inv.squash n, rfl, fun e he hlt i hi heq => ?_⟩
  -- the last store of a set is that of an entry for this set, which is no longer valid
  obtain ⟨hvalid, hne⟩ := validLFST_squashed.1 hi
  exact hne e he hlt ((h.inv.owned i hvalid).2 e he heq).symm

theorem squash_exact_two : ∃ t : StoreSet ⟨10, 10, 100⟩, t.storeList = [(1, 0x20)] := by
  obtain ⟨t, -, hlist, -⟩ := @squash_exact ⟨10, 10, 100⟩ _ _ _
    (((History.new.violation 0x10 0x20 nofun).insertStore 0x10 1 (by simp)).insertStore 0x10 2
      le_rfl) 1
  exact ⟨t, hlist⟩

/-- As long as no violation takes the PC of the last store from a set, an instruction is said to
depend on a store that has neither issued nor been squashed, or on none. -/
theorem checkInst_outstanding (h : History True True s live next) (pc : Addr) :
    s.checkInst pc = 0 ∨ ∃ x ∈ live, s.checkInst pc = x.1 := by
  unfold checkInst
  split
  · exact .inl rfl
  split_ifs with hvalid
  · obtain ⟨-, pc, hlive, -⟩ := h.inv.tracked ⟨trivial, trivial⟩ _ hvalid
    exact .inr ⟨_, hlive, rfl⟩
  · exact .inl rfl

theorem checkInst_outstanding_one : ∃ s : StoreSet ⟨10, 10, 100⟩, s.checkInst 0x20 = 1 ∧
    (s.checkInst 0x20 = 0 ∨ ∃ x ∈ [(1, (0x10 : Addr))], s.checkInst 0x20 = x.1) :=
  ⟨_, rfl, checkInst_outstanding
    ((History.new.violation 0x10 0x20 fun _ => nofun).insertStore 0x10 1 (by simp)) 0x20⟩

/-- The PC of a store goes from set 32 to set 8 before the store issues: the load of set 32 still
waits for it. -/
theorem checkInst_issued : ¬∀ (cfg : Config) (s : StoreSet cfg) (live : List (ℕ × Addr)) (next : ℕ),
    History True False s live next → ∀ pc,
      s.checkInst pc = 0 ∨ ∃ x ∈ live, s.checkInst pc = x.1 := by
  intro h
  have hrun : @History ⟨10, 10, 100⟩ True False _ _ _ :=
    ((((History.new.violation 0x10 0x20 nofun).violation 0x30 0x8 nofun).insertStore 0x10 1
      (by simp)).violation 0x10 0x8 False.elim).issued 0x10 1 (by simp)
  exact absurd (h _ _ _ _ hrun 0x20) (by decide)

end StoreSet
end ChipletGem5
