import ChipletGem5.Ruby.MIExampleSteps

/-!
# The invariant of `MI_example` is kept by the caches

A step of one cache changes its own line and its own channels, so that the other caches keep what
they had.  What the cache itself may do is decided by its role in the phase of the line.
-/

namespace ChipletGem5.MIExample

open Lines Function List Phase

variable {C D : Type} {n : ℕ} {strict : Bool} {v v' init : Block n}
  {p p' : Phase C D n} {s s' : MILine C D n} {c d x : C} {l : L1Line n}
  {log : List (Record C D n)} {ch : Chan C D → List (Msg C D n)} {k : Chan C D}

/-! ### Roles -/

variable {a b blocked : Bool} {pre : List C} {o : C} {succ : Option C} {m : Msg C D n}

lemma eq_nil_of_length_le_one {l rest : List (Msg C D n)} (h : l = m :: rest)
    (hlen : l.length ≤ 1) : rest = [] := by
  rw [h] at hlen
  exact eq_nil_of_length_eq_zero (Nat.le_zero.1 (Nat.le_of_succ_le_succ hlen))

lemma asked_cases {rest : List (Msg C D n)} (h : m :: rest = asked succ blocked) :
    (∃ d, succ = some d ∧ m = getx d ∧ rest = []) ∨ succ = none ∧ m = inv ∧ rest = [] := by
  cases succ with
  | some d =>
    cases h
    exact .inl ⟨d, rfl, rfl, rfl⟩
  | none =>
    cases blocked with
    | true =>
      cases h
      exact .inr ⟨rfl, rfl, rfl⟩
    | false => cases h

variable [DecidableEq C]

lemma chainRole_false_ne : Phase.chainRole a b false pre o c ≠ .chain true succ blocked := by
  induction pre with
  | nil =>
    rw [chainRole]
    split_ifs <;> simp
  | cons y pre ih =>
    rw [chainRole]
    split_ifs
    · simp
    · exact ih

/-- The value is with the caches only if the line is owned, and then with the first one. -/
lemma role_holds (h : p.role strict c = .chain true succ blocked) :
    ∃ pre o job, p = .owned pre o job ∧ c = pre.headD o := by
  cases p with
  | idle | dma _ => cases h
  | fetch _ | back _ _ =>
    simp only [role] at h
    split_ifs at h
  | owned pre o job =>
    refine ⟨pre, o, job, rfl, ?_⟩
    cases pre with
    | nil =>
      simp only [role, chainRole] at h
      split_ifs at h with hc
      exact hc
    | cons y pre =>
      simp only [role, chainRole] at h
      split_ifs at h with hc
      · exact hc
      · exact absurd h chainRole_false_ne

lemma chainRole_of_notMem {holds : Bool} (h : c ∉ pre ++ [o]) :
    Phase.chainRole a b holds pre o c = .none a := by
  induction pre generalizing holds with
  | nil => simpa [chainRole] using h
  | cons y pre ih =>
    simp only [cons_append, mem_cons, not_or] at h
    rw [chainRole, if_neg h.1, ih h.2]

lemma chainRole_headD (a b : Bool) (pre : List C) (o : C) : ∃ succ blocked, ∀ holds,
    Phase.chainRole a b holds pre o (pre.headD o) = .chain holds succ blocked := by
  cases pre with
  | nil => exact ⟨none, b, fun _ => if_pos rfl⟩
  | cons y pre => exact ⟨some (pre.headD o), false, fun _ => if_pos rfl⟩

lemma chainRole_of_ne_headD (h : x ≠ pre.headD o) (holds holds' : Bool) :
    Phase.chainRole a b holds pre o x = Phase.chainRole a b holds' pre o x := by
  cases pre with
  | nil | cons _ _ => exact (if_neg h).trans (if_neg h).symm

lemma role_next (h : p.role strict c = .chain true (some d) blocked) :
    ∃ pre o job, p = .owned (c :: pre) o job ∧ d = pre.headD o := by
  obtain ⟨pre, o, job, rfl, rfl⟩ := role_holds h
  cases pre with
  | nil =>
    simp only [role, chainRole, headD_nil, if_pos] at h
    cases h
  | cons y pre =>
    simp only [role, chainRole, headD_cons, if_pos] at h
    cases h
    exact ⟨pre, o, job, rfl, rfl⟩

/-! ### Steps within a cache -/

/-- The cache that a channel starts or ends at. -/
def Chan.cache : Chan C D → Option C
  | .request c | .forward c | .response _ c => some c
  | _ => none

/-- The line after a step of the cache `c`. -/
def cacheAfter (s : MILine C D n) (c : C) (l : L1Line n) (log : List (Record C D n))
    (ch : Chan C D → List (Msg C D n)) : MILine C D n :=
  ⟨{ s.loc with l1 := update s.loc.l1 c l, log := log }, ch⟩

lemma view_cacheAfter_self : view (cacheAfter s c l log ch) c =
    ⟨l, ch (.request c), ch (.forward c), fun src => ch (.response src c)⟩ := by
  simp [view, cacheAfter]

lemma view_cacheAfter_of_ne (hx : x ≠ c) : view (cacheAfter s c l log ch) x =
    ⟨s.loc.l1 x, ch (.request x), ch (.forward x), fun src => ch (.response src x)⟩ := by
  simp [view, cacheAfter, hx]

variable [DecidableEq D]

lemma CacheOK.change {w : View C D n} {r : Role C} (h : CacheOK c v w r)
    (hne : ∀ succ blocked, r ≠ .chain true succ blocked) : CacheOK c v' w r := by
  cases h with
  | absent hl hq hf hr => exact .absent hl hq hf hr
  | requested hl hq hf hr => exact .requested hl hq hf hr
  | refused hl hq hf hr => exact .refused hl hq hf hr
  | nacked hl hq hf hr => exact .nacked hl hq hf hr
  | acked hl hq hf hinv hr => exact .acked hl hq hf hinv hr
  | fetching hl hq hf hr => exact .fetching hl hq hf hr
  | waiting hl hq hf hr => exact .waiting hl hq hf hr
  | arriving _ _ _ _ _ | owning _ _ _ _ | leaving _ _ _ _ | left _ _ _ _ =>
      exact absurd rfl (hne _ _)
  | writing hl hq hf hr => exact .writing hl hq hf hr

/-- A step keeps the invariant, and fails only if the invariant is not strict. -/
def Good (strict : Bool) (init : Block n) (r : Result (MILine C D n)) : Prop :=
  match r with
  | .ok s => Inv strict init s
  | .error _ => strict = false

lemma InvAt.exists_role (h : InvAt strict v p s) (c : C) :
    ∃ role, p.role strict c = role ∧ CacheOK c v (view s c) role := ⟨_, rfl, h.caches c⟩

/-- A step of a cache that only touches its own channels.  If requests are completed, the cache
is the one that has the value. -/
lemma InvAt.cacheStep (h : InvAt strict v p s) (hch : ∀ k, k.cache ≠ some c → ch k = s.chan k)
    (hc : CacheOK c v' ⟨l, ch (.request c), ch (.forward c), fun src => ch (.response src c)⟩
      (p.role strict c))
    (hv : v' = v ∧ log = s.loc.log ∨ ∃ succ blocked, p.role strict c = .chain true succ blocked) :
    InvAt strict v' p (cacheAfter s c l log ch) where
  proper := h.proper
  state := h.state
  owner := h.owner
  tbe := h.tbe
  memory := by
    have hto : ch .toMemory = s.chan .toMemory := hch _ nofun
    have hfrom : ch .fromMemory = s.chan .fromMemory := hch _ nofun
    have hmem := h.memory
    simp only [cacheAfter, hto, hfrom]
    rcases hv with ⟨rfl, -⟩ | ⟨succ, blocked, hr⟩
    · exact hmem
    · obtain ⟨pre, o, job, rfl, -⟩ := role_holds hr
      exact hmem
  caches x := by
    rcases eq_or_ne x c with rfl | hx
    · rwa [view_cacheAfter_self]
    · have hview : view (cacheAfter s c l log ch) x = view s x := by
        have hne : some x ≠ some c := fun he => hx (Option.some.inj he)
        rw [view_cacheAfter_of_ne hx, hch (.request x) hne, hch (.forward x) hne]
        congr 1
        funext src
        exact hch (.response src x) hne
      rw [hview]
      rcases hv with ⟨rfl, -⟩ | ⟨succ, blocked, hr⟩
      · exact h.caches x
      · refine (h.caches x).change fun succ' blocked' hr' => hx ?_
        -- two caches with the value would both be the first of the list
        obtain ⟨pre, o, job, rfl, rfl⟩ := role_holds hr
        obtain ⟨pre', o', job', heq, rfl⟩ := role_holds hr'
        cases heq
        rfl
  dmas d := by
    have hd := h.dmas d
    rwa [← hch (.dmaRequest d) nofun, ← hch (.dmaResponse d) nofun] at hd
  single := h.single
  quiet hst hb d := (hch (.dmaRequest d) nofun).trans (h.quiet hst hb d)
  logged hw := by
    rcases hv with ⟨-, rfl⟩ | ⟨succ, blocked, hr⟩
    · exact h.logged hw
    · obtain ⟨pre, o, job, rfl, -⟩ := role_holds hr
      cases hw

lemma update_of_cache_ne {m : List (Msg C D n)} {k' : Chan C D} (h : k.cache ≠ k'.cache) :
    update ch k' m k = ch k :=
  update_of_ne (fun heq => h (congrArg _ heq)) ..

section

variable (hcoh : Coherent init s.loc.log) (h : InvAt strict (current init s.loc.log) p s)
  (hch : ∀ k, k.cache ≠ some c → ch k = s.chan k)
include hcoh h hch

lemma Inv.cacheStep (hc : CacheOK c (current init s.loc.log)
      ⟨l, ch (.request c), ch (.forward c), fun src => ch (.response src c)⟩ (p.role strict c)) :
    Inv strict init (cacheAfter s c l s.loc.log ch) :=
  ⟨hcoh, p, h.cacheStep hch hc (.inl ⟨rfl, rfl⟩)⟩

lemma Inv.cacheCompletes (hlog : Completes (current init s.loc.log) s.loc.log v' log)
    (hr : p.role strict c = .chain true succ blocked)
    (hc : CacheOK c v' ⟨l, ch (.request c), ch (.forward c), fun src => ch (.response src c)⟩
      (.chain true succ blocked)) :
    Inv strict init (cacheAfter s c l log ch) := by
  obtain ⟨hcoh', rfl⟩ := hlog init hcoh rfl
  exact ⟨hcoh', p, h.cacheStep hch (hr ▸ hc) (.inr ⟨succ, blocked, hr⟩)⟩

end

variable {role : Role C}

lemma CacheOK.send
    (h : CacheOK c v ⟨l, ch (.request c) ++ [m], ch (.forward c), fun src => ch (.response src c)⟩
      role) :
    CacheOK c v ⟨l, sendAll ch [(.request c, m)] (.request c),
      sendAll ch [(.request c, m)] (.forward c),
      fun src => sendAll ch [(.request c, m)] (.response src c)⟩ role := by
  simpa [Lines.send] using h

lemma CacheOK.forward {f : List (Msg C D n)}
    (h : CacheOK c v ⟨l, ch (.request c), f, fun src => ch (.response src c)⟩ role) :
    CacheOK c v ⟨l, update ch (.forward c) f (.request c),
      update ch (.forward c) f (.forward c),
      fun src => update ch (.forward c) f (.response src c)⟩ role := by
  simpa using h

lemma CacheOK.receive {src : MachineID C D} (hr : ∀ src' ≠ src, ch (.response src' c) = [])
    (h : CacheOK c v ⟨l, ch (.request c), ch (.forward c), silent⟩ role) :
    CacheOK c v ⟨l, update ch (.response src c) [] (.request c),
      update ch (.response src c) [] (.forward c),
      fun src' => update ch (.response src c) [] (.response src' c)⟩ role := by
  have hsilent : (fun src' => update ch (.response src c) [] (.response src' c)) =
      silent := by
    funext src'
    rcases eq_or_ne src' src with rfl | hne
    · exact update_self ..
    · exact (update_of_ne (by simpa using hne) ..).trans (hr src' hne)
  rw [hsilent]
  simpa using h

/-! ### Actions of a cache -/

lemma good_request (hs : Inv strict init s) (c : C) (r : Request n) :
    Good strict init (s.step program (.act (.request c r))) := by
  obtain ⟨hcoh, p, h⟩ := hs
  refine Inv.cacheStep (l := (s.loc.l1 c).makeRequest r) hcoh h (fun _ _ => rfl) ?_
  have hc := h.caches c
  generalize p.role strict c = role at hc ⊢
  cases hc with
  | absent hl hq hf hr => exact .absent (hl.makeRequest r) hq hf hr
  | requested hl hq hf hr => exact .requested (hl.makeRequest r) hq hf hr
  | refused hl hq hf hr => exact .refused (hl.makeRequest r) hq hf hr
  | nacked hl hq hf hr => exact .nacked (hl.makeRequest r) hq hf hr
  | acked hl hq hf hinv hr => exact .acked (hl.makeRequest r) hq hf hinv hr
  | fetching hl hq hf hr => exact .fetching (hl.makeRequest r) hq hf hr
  | waiting hl hq hf hr => exact .waiting (hl.makeRequest r) hq hf hr
  | arriving src hl hq hf hr => exact .arriving src (hl.makeRequest r) hq hf hr
  | owning hl hq hf hr => exact .owning (hl.makeRequest r) hq hf hr
  | leaving hl hq hf hr => exact .leaving (hl.makeRequest r) hq hf hr
  | left hl hq hf hr => exact .left (hl.makeRequest r) hq hf hr
  | writing hl hq hf hr => exact .writing (hl.makeRequest r) hq hf hr

lemma good_onL1 {ev : CacheEvent} {x : L1Context C D n}
    (htrigger : l1Trigger c none ev (s.loc.l1 c) s.loc.log = .ok x)
    (h : Inv strict init (cacheAfter s c x.line x.log (sendAll s.chan x.sends))) :
    Good strict init ((fun o : Outcome (Local C D n) (Chan C D) (Msg C D n) =>
      (⟨o.next, sendAll s.chan o.sends⟩ : MILine C D n)) <$> s.loc.onL1 c none ev) := by
  rwa [Local.onL1, htrigger]

lemma Inv.unchanged (hs : Inv strict init s) (c : C) :
    Inv strict init (cacheAfter s c (s.loc.l1 c) s.loc.log s.chan) := by
  have heq : cacheAfter s c (s.loc.l1 c) s.loc.log s.chan = s := by
    simp [cacheAfter]
  rwa [heq]

lemma good_mandatory (hs : Inv strict init s) (c : C) :
    Good strict init (s.step program (.act (.mandatory c))) := by
  rcases hm : (s.loc.l1 c).mandatory with _ | ⟨t, ts⟩
  · simp only [Line.step, program, Action.perform, hm]
    exact hs
  have hs' := hs
  obtain ⟨hcoh, p, h⟩ := hs
  simp only [Line.step, program, Action.perform, hm]
  have hqueued : ∀ {l : L1Line n}, Queued l → l.mandatory = t :: ts →
      ∃ r rs, l.requests = r :: rs ∧ l.mandatory = [r.secondType] ∧
        mandatoryEvent t = .ok r.event := by
    rintro l (⟨-, hm'⟩ | ⟨r, rs, hr, hm'⟩) ht
    · simp [hm'] at ht
    · obtain ⟨rfl, -⟩ := List.cons.inj (hm'.symm.trans ht)
      exact ⟨r, rs, hr, hm', mandatoryEvent_secondType r⟩
  have hwait : Waiting (s.loc.l1 c) → False := fun hl => by simp [hl.mandatory] at hm
  obtain ⟨role, hrole, hc⟩ := h.exists_role c
  cases hc with
  | absent hl hq hf hr =>
    obtain ⟨r, rs, hreq, hman, hev⟩ := hqueued hl.queued hm
    rw [hev]
    obtain ⟨l', hl', htrigger⟩ := hl.mandatory (D := D) c s.loc.log hreq hman
    refine good_onL1 htrigger (Inv.cacheStep hcoh h (fun k hk => update_of_cache_ne hk) ?_)
    exact hrole ▸ .send (.requested hl' (congrArg (· ++ _) hq) hf hr)
  | refused hl _ _ _ | nacked hl _ _ _ =>
      obtain ⟨r, -, -, -, hev⟩ := hqueued hl.queued hm
      rw [hev]
      exact good_onL1 (hl.stall (.inr rfl) (.inr ⟨r, rfl⟩)) (hs'.unchanged c)
  | requested hl _ _ _ | fetching hl _ _ _ | waiting hl _ _ _ | arriving _ hl _ _ _ =>
      exact (hwait hl).elim
  | owning hl hq hf hr =>
    obtain ⟨r, rs, hreq, hman, hev⟩ := hqueued hl.queued hm
    rw [hev]
    obtain ⟨l', v', log', hl', hlog, htrigger⟩ := hl.mandatory (D := D) c s.loc.log hreq hman
    exact good_onL1 htrigger (Inv.cacheCompletes hcoh h (fun _ _ => rfl) hlog hrole
      (.owning hl' hq hf hr))
  | acked hl _ _ _ _ | leaving hl _ _ _ | left hl _ _ _ | writing hl _ _ _ =>
      obtain ⟨r, -, -, -, hev⟩ := hqueued hl.queued hm
      rw [hev]
      exact good_onL1 (hl.stall (.inl rfl) (.inr ⟨r, rfl⟩)) (hs'.unchanged c)

lemma good_replacement (hs : Inv strict init s) (c : C) :
    Good strict init (s.step program (.act (.replacement c))) := by
  have hs' := hs
  obtain ⟨hcoh, p, h⟩ := hs
  obtain ⟨role, hrole, hc⟩ := h.exists_role c
  cases hc with
  | absent hl hq hf hr =>
    obtain ⟨l', hl', htrigger⟩ := hl.replacement (D := D) c s.loc.log
    exact good_onL1 htrigger (Inv.cacheStep hcoh h (fun _ _ => rfl) (hrole ▸ .absent hl' hq hf hr))
  | refused hl _ _ _ | nacked hl _ _ _ =>
      exact good_onL1 (hl.stall (.inr rfl) (.inl rfl)) (hs'.unchanged c)
  | requested hl _ _ _ | fetching hl _ _ _ | waiting hl _ _ _ | arriving _ hl _ _ _ =>
      exact good_onL1 (hl.stall (.inl rfl)) (hs'.unchanged c)
  | owning hl hq hf hr =>
    obtain ⟨l', hl', htrigger⟩ := hl.writeback (D := D) c s.loc.log none (.inl rfl)
    refine good_onL1 htrigger (Inv.cacheStep hcoh h (fun k hk => update_of_cache_ne hk) ?_)
    exact hrole ▸ .send (.leaving hl' (congrArg (· ++ _) hq) (.inl hf) hr)
  | acked hl _ _ _ _ | leaving hl _ _ _ | left hl _ _ _ | writing hl _ _ _ =>
      exact good_onL1 (hl.stall (.inl rfl) (.inl rfl)) (hs'.unchanged c)

/-! ### Deliveries to a cache -/

/-- The result of the message at the head of a channel. -/
def delivered (s : MILine C D n) (k : Chan C D) (pos : ℕ) (m : Msg C D n)
    (rest : List (Msg C D n)) : Result (MILine C D n) :=
  (fun o : Outcome (Local C D n) (Chan C D) (Msg C D n) =>
    ⟨o.next, sendAll (update s.chan k (settle o.fate pos [] m rest)) o.sends⟩) <$>
      handle k m s.loc

lemma good_deliver (hs : Inv strict init s) (k : Chan C D) (i pos : ℕ)
    (hone : k = .toMemory ∨ k = .fromMemory → (s.chan k).length ≤ 1)
    (h : ∀ m rest, s.chan k = m :: rest → Good strict init (delivered s k pos m rest)) :
    Good strict init (s.step program (.deliver k i pos)) := by
  rw [Line.step]
  split_ifs with hi
  · rcases hk : s.chan k with _ | ⟨m, rest⟩
    · exact hs
    · have hi0 : i = 0 ∨ rest = [] ∧ 0 < i := by
        rcases Nat.eq_zero_or_pos i with rfl | hpos
        · exact .inl rfl
        · refine .inr ⟨?_, hpos⟩
          have hun : k = .toMemory ∨ k = .fromMemory := by
            simpa [program] using hi.resolve_left hpos.ne'
          exact eq_nil_of_length_le_one hk (hone hun)
      rcases hi0 with rfl | ⟨rfl, hpos⟩
      · have hgood := h m rest hk
        rw [delivered] at hgood
        simpa [Line.finish, settleAt, hk, program] using hgood
      · obtain ⟨i, rfl⟩ := Nat.exists_eq_succ_of_ne_zero hpos.ne'
        exact hs
  · exact hs

lemma good_l1 {k : Chan C D} {rest : List (Msg C D n)} {ev : CacheEvent} {pos : ℕ}
    {x : L1Context C D n} (hhandle : handle k m s.loc = s.loc.onL1 c (some m) ev)
    (htrigger : l1Trigger c (some m) ev (s.loc.l1 c) s.loc.log = .ok x)
    (h : Inv strict init (cacheAfter s c x.line x.log
      (sendAll (update s.chan k (if x.popped then rest else m :: rest)) x.sends))) :
    Good strict init (delivered s k pos m rest) := by
  rw [delivered, hhandle, Local.onL1, htrigger]
  obtain ⟨line, sends, popped, log⟩ := x
  cases popped <;> exact h

lemma InvAt.giveAway {f : List (Msg C D n)} (h : InvAt strict v p s)
    (hr : p.role strict c = .chain true (some d) blocked)
    (hc : CacheOK c v ⟨l, s.chan (.request c), f, fun src => s.chan (.response src c)⟩
      (.none false)) :
    ∃ p', InvAt strict v p' (cacheAfter s c l s.loc.log
      (sendAll (update s.chan (.forward c) f)
        [(.response (.l1Cache c) d, data (.l1Cache c) v)])) := by
  obtain ⟨pre, o, job, rfl, hd⟩ := role_next hr
  obtain ⟨hnodup, hstrict⟩ := h.proper
  have hjob : (strict && job.isSome) = false := by
    rw [Bool.eq_false_iff, ne_eq, Bool.and_eq_true]
    exact fun hb => absurd (hstrict hb.1 hb.2) (cons_ne_nil _ _)
  obtain ⟨hmem, hnodup'⟩ := nodup_cons.1 hnodup
  have hdc : d ≠ c := by
    rintro rfl
    exact hmem (by cases pre <;> simp [hd])
  have hch : ∀ k, k ≠ .forward c → k ≠ .response (.l1Cache c) d →
      sendAll (update s.chan (.forward c) f)
        [(.response (.l1Cache c) d, data (.l1Cache c) v)] k = s.chan k := by
    intro k hk hk'
    simp [send, hk, hk']
  refine ⟨.owned pre o job, ?_⟩
  constructor
  case proper => exact ⟨hnodup', fun h1 h2 => absurd (hstrict h1 h2) (cons_ne_nil _ _)⟩
  case state => cases job <;> exact h.state
  case owner => exact h.owner
  case tbe => cases job <;> exact h.tbe
  case memory => exact h.memory
  case dmas => cases job <;> exact h.dmas
  case single => exact h.single
  case quiet => cases job <;> exact h.quiet
  case logged => cases job <;> rintro ⟨⟩
  case caches =>
    intro x
    have hx := h.caches x
    simp only [role, chainRole, hjob] at hx ⊢
    rcases eq_or_ne x c with rfl | hxc
    · rw [view_cacheAfter_self, chainRole_of_notMem hmem]
      simpa [send, hdc.symm] using hc
    rw [if_neg hxc] at hx
    rw [view_cacheAfter_of_ne hxc, hch (.forward x) (by simpa using hxc) (by simp)]
    rcases eq_or_ne x d with rfl | hxd
    · -- the next cache waits for the value, which is now on its way
      obtain ⟨succ, blocked, hrole⟩ := chainRole_headD false job.isSome pre o
      rw [hd, hrole, ← hd] at hx ⊢
      cases hx with
      | waiting hl hq hf hr =>
        refine .arriving (.l1Cache c) hl hq hf ?_
        funext src
        rcases eq_or_ne src (.l1Cache c) with rfl | hsrc
        · have hnil : s.chan (.response (.l1Cache c) x) = [] := congrFun hr _
          simp [send, hnil]
        · rw [update_of_ne hsrc]
          exact (hch (.response src x) (by simp) (by simp [hsrc])).trans (congrFun hr src)
    · rw [chainRole_of_ne_headD (hd ▸ hxd) true false]
      have hresp := fun src => hch (.response src x) (by simp) (by simp [hxd])
      simp only [hresp]
      exact hx

lemma good_forward (hs : Inv strict init s) (c : C) (i pos : ℕ) :
    Good strict init (s.step program (.deliver (.forward c) i pos)) := by
  refine good_deliver hs _ _ _ (by simp) ?_
  intro m rest hk
  have hs' := hs
  obtain ⟨hcoh, p, h⟩ := hs
  -- a message that is not consumed leaves the channel as it is
  have hkeep : update s.chan (.forward c) (m :: rest) = s.chan := by
    rw [← hk, update_eq_self]
  have hforward : ∀ k' : Chan C D, k'.cache ≠ some c →
      update s.chan (.forward c) rest k' = s.chan k' :=
    fun k' hk' => update_of_cache_ne hk'
  have hstall : ∀ {ev : CacheEvent},
      handle (.forward c) m s.loc = s.loc.onL1 c (some m) ev →
      l1Trigger c (some m) ev (s.loc.l1 c) s.loc.log = .ok ⟨s.loc.l1 c, [], false, s.loc.log⟩ →
      Good strict init (delivered s (.forward c) pos m rest) := by
    intro ev hhandle htrigger
    refine good_l1 hhandle htrigger ?_
    simp only [Bool.false_eq_true, if_false, sendAll_nil, hkeep]
    exact hs'.unchanged c
  obtain ⟨role, hrole, hc⟩ := h.exists_role c
  cases hc with
  | nacked hl hq hf hr =>
    cases hk.symm.trans hf
    obtain ⟨l', hl', htrigger⟩ := hl.done c s.loc.log (some (wbNack c)) (.inr ⟨rfl, rfl⟩)
    exact good_l1 rfl htrigger (Inv.cacheStep hcoh h hforward
      (hrole ▸ .forward (.absent hl' hq rfl hr)))
  | acked hl hq hf hinv hr =>
    rcases hinv with rfl | rfl
    · cases hk.symm.trans hf
      obtain ⟨l', hl', htrigger⟩ := hl.done c s.loc.log (some (wbAck c)) (.inl ⟨rfl, rfl⟩)
      exact good_l1 rfl htrigger (Inv.cacheStep hcoh h hforward
        (hrole ▸ .forward (.absent hl' hq rfl hr)))
    · cases hk.symm.trans hf
      exact good_l1 rfl hl.inv (Inv.cacheStep hcoh h hforward
        (hrole ▸ .forward (f := [wbAck c]) (.acked (f := []) hl hq rfl (.inl rfl) hr)))
  | absent _ _ hf _ | requested _ _ hf _ | refused _ _ hf _ | fetching _ _ hf _ =>
      cases hk.symm.trans hf
  | @waiting _ _ hl _ hf _ | arriving _ hl _ hf _ =>
    rcases asked_cases (hk.symm.trans hf) with ⟨d, -, rfl, rfl⟩ | ⟨-, rfl, rfl⟩
    · exact hstall rfl (hl.stall (.inr (.inl rfl)))
    · exact hstall rfl (hl.stall (.inr (.inr rfl)))
  | owning hl hq hf hr =>
    rcases asked_cases (hk.symm.trans hf) with ⟨d, rfl, rfl, rfl⟩ | ⟨rfl, rfl, rfl⟩
    · obtain ⟨l', hl', htrigger⟩ := hl.fwdGETX (D := D) c s.loc.log d
      exact good_l1 rfl htrigger ⟨hcoh, h.giveAway hrole (.absent hl' hq rfl hr)⟩
    · obtain ⟨l', hl', htrigger⟩ := hl.writeback c s.loc.log (some inv) (.inr rfl)
      refine good_l1 rfl htrigger ?_
      simp only [Bool.false_eq_true, if_false, hkeep]
      exact Inv.cacheStep hcoh h (fun k hk => update_of_cache_ne hk)
        (hrole ▸ .send (.leaving hl' (congrArg (· ++ _) hq) (.inl hf) hr))
  | leaving hl hq hf hr =>
    rcases hf with hf | ⟨hf, -⟩
    · rcases asked_cases (hk.symm.trans hf) with ⟨d, rfl, rfl, rfl⟩ | ⟨rfl, rfl, rfl⟩
      · obtain ⟨l', hl', htrigger⟩ := hl.fwdGETX (D := D) c s.loc.log d
        exact good_l1 rfl htrigger ⟨hcoh, h.giveAway hrole (.refused hl' hq rfl hr)⟩
      · exact good_l1 rfl hl.inv (Inv.cacheStep hcoh h hforward
          (hrole ▸ .forward (f := []) (.leaving hl hq (.inr ⟨rfl, rfl⟩) hr)))
    · cases hk.symm.trans hf
  | left hl hq hf hr =>
    cases hk.symm.trans hf
    obtain ⟨l', hl', htrigger⟩ := hl.fwdGETX (D := D) c s.loc.log _
    exact good_l1 rfl htrigger ⟨hcoh, h.giveAway hrole (.nacked hl' hq rfl hr)⟩
  | writing hl hq hf hr =>
    rcases hf with hf | hf
    · cases hk.symm.trans hf
    · cases hk.symm.trans hf
      exact good_l1 rfl hl.inv (Inv.cacheStep hcoh h hforward
        (hrole ▸ .forward (f := []) (.writing hl hq (.inl rfl) hr)))

lemma good_response (hs : Inv strict init s) (src : MachineID C D) (c : C) (i pos : ℕ) :
    Good strict init (s.step program (.deliver (.response src c) i pos)) := by
  refine good_deliver hs _ _ _ (by simp) ?_
  intro m rest hk
  obtain ⟨hcoh, p, h⟩ := hs
  -- only the cache that the value is on its way to has a response
  have hsilent : (view s c).response = silent → False := fun hr => by
    cases hk.symm.trans (congrFun hr src)
  obtain ⟨role, hrole, hc⟩ := h.exists_role c
  cases hc with
  | absent _ _ _ hr | requested _ _ _ hr | refused _ _ _ hr | nacked _ _ _ hr | acked _ _ _ _ hr
  | fetching _ _ _ hr | waiting _ _ _ hr | owning _ _ _ hr | leaving _ _ _ hr | left _ _ _ hr
  | writing _ _ _ hr => exact (hsilent hr).elim
  | arriving src' hl hq hf hr =>
    have hsrc : src = src' := by
      by_contra hne
      have hnil := congrFun hr src
      rw [update_of_ne hne] at hnil
      cases hk.symm.trans hnil
    subst hsrc
    have hmsg := congrFun hr src
    rw [update_self] at hmsg
    cases hk.symm.trans hmsg
    obtain ⟨l', v', log', hl', hlog, htrigger⟩ := hl.data c s.loc.log src (current init s.loc.log)
    refine good_l1 rfl htrigger (Inv.cacheCompletes hcoh h
      (fun k hk => update_of_cache_ne hk) hlog hrole (.receive ?_ (.owning hl' hq hf rfl)))
    intro src' hne
    have hnil := congrFun hr src'
    rwa [update_of_ne hne] at hnil

end ChipletGem5.MIExample
