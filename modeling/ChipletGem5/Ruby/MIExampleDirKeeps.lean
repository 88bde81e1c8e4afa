import ChipletGem5.Ruby.MIExampleKeeps

/-!
# The invariant of `MI_example` is kept by the directory

The requests of the caches at the directory.  A `GETX` makes its sender the last cache of the
phase's list, a `PUTX` of the owner ends the list, and a `PUTX` of any other cache is refused and
changes nothing.
-/

namespace ChipletGem5.MIExample

open Lines Function List Phase

variable {C D : Type} {n : ℕ} [DecidableEq C] [DecidableEq D] {strict : Bool} {v v' init : Block n}
  {p p' : Phase C D n} {s s' : MILine C D n} {c o x : C} {dl : DirLine C D n}
  {log : List (Record C D n)} {ch : Chan C D → List (Msg C D n)} {k : Chan C D} {m : Msg C D n}
  {w : View C D n} {a holds b : Bool} {pre : List C} {ev : DirEvent}

/-! ### Roles -/

/-- Only a writeback that has yet to be refused depends on whether the phase is strict. -/
lemma CacheOK.restrict (h : CacheOK c v w (.none a))
    (hstrict : b → ∀ b, w.request ≠ [putx c b]) : CacheOK c v w (.none b) := by
  cases h with
  | absent hl hq hf hr => exact .absent hl hq hf hr
  | requested hl hq hf hr => exact .requested hl hq hf hr
  | refused hl hq hf hr =>
    cases b with
    | false => exact .refused hl hq hf hr
    | true => exact absurd hq (hstrict rfl _)
  | nacked hl hq hf hr => exact .nacked hl hq hf hr
  | acked hl hq hf hinv hr => exact .acked hl hq hf hinv hr

lemma CacheOK.ask (h : CacheOK o v w (.chain holds none false)) (succ : Option C) (blocked : Bool) :
    CacheOK o v { w with forward := w.forward ++ asked succ blocked }
      (.chain holds succ blocked) := by
  cases h with
  | waiting hl hq hf hr => exact .waiting hl hq (by rw [hf]; rfl) hr
  | arriving src hl hq hf hr => exact .arriving src hl hq (by rw [hf]; rfl) hr
  | owning hl hq hf hr => exact .owning hl hq (by rw [hf]; rfl) hr
  | leaving hl hq hf hr =>
    refine .leaving hl hq (.inl ?_) hr
    rcases hf with hf | ⟨hf, -⟩ <;> rw [hf] <;> rfl

lemma notMem_of_chainRole {a' : Bool}
    (h : Phase.chainRole a b holds pre o c = .none a') : c ∉ pre ++ [o] := by
  induction pre generalizing holds with
  | nil =>
    rw [chainRole] at h
    split_ifs at h with hc
    simpa using hc
  | cons y pre ih =>
    rw [chainRole] at h
    split_ifs at h with hc
    rw [cons_append, mem_cons, not_or]
    exact ⟨hc, ih h⟩

lemma chainRole_owner (holds : Bool) (ho : o ∉ pre) : ∃ holds', ∀ a b,
    Phase.chainRole a b holds pre o o = .chain holds' none b ∧
      ∀ c, Phase.chainRole a b holds (pre ++ [o]) c o = .chain holds' (some c) false := by
  induction pre generalizing holds with
  | nil => exact ⟨holds, fun _ _ => ⟨if_pos rfl, fun _ => if_pos rfl⟩⟩
  | cons y pre ih =>
    obtain ⟨hy, ho⟩ := not_or.1 (mt mem_cons.2 ho)
    obtain ⟨holds', h⟩ := ih false ho
    exact ⟨holds', fun a b =>
      ⟨(if_neg hy).trans (h a b).1, fun c => (if_neg hy).trans ((h a b).2 c)⟩⟩

lemma chainRole_append_self (hc : c ∉ pre ++ [o]) :
    Phase.chainRole a b holds (pre ++ [o]) c c = .chain false none b := by
  induction pre generalizing holds with
  | nil => simpa [chainRole] using hc
  | cons y pre ih =>
    obtain ⟨hy, hc⟩ := not_or.1 (mt mem_cons.2 hc)
    exact (if_neg hy).trans (ih hc)

lemma chainRole_append_of_ne (ho : x ≠ o) (hc : x ≠ c) :
    Phase.chainRole a b holds (pre ++ [o]) c x = Phase.chainRole a b holds pre o x := by
  induction pre generalizing holds with
  | nil => simp [chainRole, ho, hc]
  | cons y pre ih =>
    have hhead : (pre ++ [o]).headD c = pre.headD o := by cases pre <;> rfl
    simp only [cons_append, chainRole, hhead, ih]

/-! ### Steps of the directory -/

/-- The line after a step of the directory. -/
def dirAfter (s : MILine C D n) (dl : DirLine C D n) (log : List (Record C D n))
    (ch : Chan C D → List (Msg C D n)) : MILine C D n :=
  ⟨{ s.loc with dir := dl, log := log }, ch⟩

section

variable {l : List (Msg C D n)} {sends : List (Chan C D × Msg C D n)}

lemma view_update (hk : k.cache ≠ some x) : view ⟨s.loc, update s.chan k l⟩ x = view s x := by
  simp only [view, update_of_cache_ne (k := .request x) hk.symm,
    update_of_cache_ne (k := .forward x) hk.symm, update_of_cache_ne (k := .response _ x) hk.symm]

/-- What the directory sends to others is not seen by a cache. -/
lemma view_sendAll (hsends : ∀ q ∈ sends, q.1.cache ≠ some x) :
    view (dirAfter s dl log (sendAll ch sends)) x = view ⟨s.loc, ch⟩ x := by
  have hch : ∀ k, k.cache = some x → sendAll ch sends k = ch k := fun k hk =>
    sendAll_of_forall_ne fun q hq heq => hsends q hq (heq ▸ hk)
  simp only [view, dirAfter, hch (.request x) rfl, hch (.forward x) rfl, hch (.response _ x) rfl]

variable (hk : k.cache ≠ some x) (hsends : ∀ q ∈ sends, q.1.cache ≠ some x)
include hk hsends

lemma view_dirAfter :
    view (dirAfter s dl log (sendAll (update s.chan k l) sends)) x = view s x :=
  (view_sendAll hsends).trans (view_update hk)

lemma view_dirAfter_forward :
    view (dirAfter s dl log (sendAll (update s.chan k l) ((.forward x, m) :: sends))) x =
      { view s x with forward := (view s x).forward ++ [m] } := by
  rw [sendAll_cons, view_sendAll hsends]
  simp [view, send, update_of_cache_ne (k := .request x) hk.symm,
    update_of_cache_ne (k := .forward x) hk.symm, update_of_cache_ne (k := .response _ x) hk.symm]

end

variable {pos : ℕ} {b : Block n}

/-- The directory handles a message, and may log a DMA write. -/
lemma good_dir {rest : List (Msg C D n)} {y : DirContext C D n} {records : List (Record C D n)}
    (hhandle : handle k m s.loc = s.loc.onDir m ev)
    (htrigger : dirTrigger (some m) ev s.loc.dir = .ok y)
    (hlog : s.loc.dmaWrites m ev = records) (hcoh : Coherent init (records ++ s.loc.log))
    (hv : v = current init (records ++ s.loc.log))
    (h : InvAt strict v p (dirAfter s y.line (records ++ s.loc.log)
      (sendAll (update s.chan k (settle y.fate pos [] m rest)) y.sends))) :
    Good strict init (delivered s k pos m rest) := by
  subst hlog hv
  rw [delivered, hhandle, Local.onDir, htrigger]
  exact ⟨hcoh, p, h⟩

lemma good_dir_error {rest : List (Msg C D n)} {e : CallFault}
    (hstrict : strict = false) (hhandle : handle k m s.loc = s.loc.onDir m ev)
    (htrigger : dirTrigger (some m) ev s.loc.dir = .error e) :
    Good strict init (delivered s k pos m rest) := by
  rwa [delivered, hhandle, Local.onDir, htrigger]

lemma good_recycle (hs : Inv strict init s) (hk : s.chan k = [m])
    (hhandle : handle k m s.loc = s.loc.onDir m ev) (hlog : s.loc.dmaWrites m ev = [])
    (htrigger : dirTrigger (some m) ev s.loc.dir = .ok ⟨s.loc.dir, [], .recycle⟩) :
    Good strict init (delivered s k pos m []) := by
  obtain ⟨hcoh, p, h⟩ := hs
  refine good_dir (p := p) hhandle htrigger hlog hcoh rfl ?_
  have hsame : update s.chan k (settle .recycle pos [] m []) = s.chan := by
    simp [settle, ← hk]
  simp only [hsame, sendAll_nil]
  exact h

lemma InvAt.dirStep (h : InvAt strict v p s) (hproper : p'.Proper strict)
    (hstate : dl.directoryState = p'.state) (howner : dl.owner = p'.owner) (htbe : TBEOK p' dl.tbe)
    (hmemory : MemoryOK v p' s.loc.mem (ch .toMemory) (ch .fromMemory))
    (hcaches : ∀ x, CacheOK x v (view (dirAfter s dl s.loc.log ch) x) (p'.role strict x))
    (hreq : ∀ d, ch (.dmaRequest d) = s.chan (.dmaRequest d))
    (hresp : ∀ d, ch (.dmaResponse d) = s.chan (.dmaResponse d))
    (hserving : ∀ d, p'.serving d = p.serving d) (hblocked : p'.blocked → p.blocked)
    (hwrites : p'.writes = false) : InvAt strict v p' (dirAfter s dl s.loc.log ch) where
  proper := hproper
  state := hstate
  owner := howner
  tbe := htbe
  memory := hmemory
  caches := hcaches
  dmas d := by
    have hd := h.dmas d
    rwa [← hreq, ← hresp, ← hserving] at hd
  single := h.single
  quiet hst hb d := (hreq d).trans (h.quiet hst (hblocked hb) d)
  logged hw := by rw [hwrites] at hw; cases hw

omit [DecidableEq C] in
lemma DMAOK.answer {d : D} {tbe : Option (DMATBE n)} {req : List (Msg C D n)}
    (resp : D → List (Msg C D n)) {j : Job D n}
    (h : DMAOK d tbe req (resp d) (if j.d = d then some j.write else none)) (b : Block n) :
    DMAOK d tbe req (if d = j.d then
      resp j.d ++ [.dmaResponse ⟨if j.write then .ACK else .DATA, b⟩] else resp d) none := by
  rcases eq_or_ne d j.d with rfl | hne
  · rw [if_pos rfl] at h ⊢
    cases h with
    | served ht hreq hresp => exact .answered j.write b ht hreq (by rw [hresp, nil_append])
  · rw [if_neg hne]
    rwa [if_neg hne.symm] at h

/-! ### The directory waits -/

lemma InvAt.dir_eq (h : InvAt strict v p s) : s.loc.dir = ⟨p.state, p.owner, s.loc.dir.tbe⟩ := by
  rw [← h.state, ← h.owner]

omit [DecidableEq C] [DecidableEq D] in
lemma dmaWrites_eq_nil (h : ev = .DMA_WRITE → s.loc.dir.state ≠ .I)
    (h' : ev = .PUTX → s.loc.dir.state ≠ .M_DWR) : s.loc.dmaWrites m ev = [] := by
  unfold Local.dmaWrites
  split
  · exact absurd ‹_› (h rfl)
  · exact absurd ‹_› (h' rfl)
  · rfl

/-- The memory works for the directory, without a DMA request that blocks it. -/
def Phase.waits : Phase C D n → Prop
  | .fetch _ | .back _ none | .dma _ => True
  | _ => False

lemma InvAt.recycles (h : InvAt strict v p s) (hp : p.waits) (ev : DirEvent)
    (hev : ev ≠ .Memory_Data ∧ ev ≠ .Memory_Ack) (m : Msg C D n) :
    dirTrigger (some m) ev s.loc.dir = .ok ⟨s.loc.dir, [], .recycle⟩ ∧
      s.loc.dmaWrites m ev = [] := by
  have hdir : ∃ st owner t, s.loc.dir = ⟨st, owner, some t⟩ ∧ t.state = st ∧
      (st = .IM ∨ st = .MI ∨ st = .ID ∨ st = .ID_W) := by
    have htbe := h.tbe
    have heq := h.dir_eq
    cases p with
    | idle | owned _ _ _ => cases hp
    | fetch c =>
      obtain ⟨t, ht, hst⟩ := htbe
      exact ⟨_, _, t, ht ▸ heq, hst, .inl rfl⟩
    | back c job =>
      cases job with
      | some j => cases hp
      | none =>
        obtain ⟨t, ht, hst⟩ := htbe
        exact ⟨_, _, t, ht ▸ heq, hst, .inr (.inl rfl)⟩
    | dma j =>
      obtain ⟨t, ht, hst, -⟩ := htbe
      refine ⟨_, _, t, ht ▸ heq, hst, ?_⟩
      rw [Phase.state]
      split_ifs
      · exact .inr (.inr (.inr rfl))
      · exact .inr (.inr (.inl rfl))
  obtain ⟨st, owner, ⟨st', blk, off, len, req⟩, hdir, rfl, hst⟩ := hdir
  have hstate : s.loc.dir.state = st' := by rw [hdir]; rfl
  constructor
  · rw [hdir]
    rcases hst with rfl | rfl | rfl | rfl <;> cases ev <;>
      first | rfl | exact absurd rfl hev.1 | exact absurd rfl hev.2
  · refine dmaWrites_eq_nil (fun _ => ?_) (fun _ => ?_) <;> rw [hstate] <;>
      rcases hst with rfl | rfl | rfl | rfl <;> decide

lemma InvAt.recycles_getx (h : InvAt strict v p s) (hp : p.blocked) (m : Msg C D n) :
    dirTrigger (some m) .GETX s.loc.dir = .ok ⟨s.loc.dir, [], .recycle⟩ := by
  have htbe := h.tbe
  have heq := h.dir_eq
  cases p with
  | idle | fetch _ | dma _ => cases hp
  | owned _ _ job | back _ job =>
    cases job with
    | none => cases hp
    | some j =>
      rw [heq, htbe, Phase.state]
      cases j.write <;> rfl

/-! ### Requests of the caches -/

lemma good_getx (hs : Inv strict init s) (hrole : p.role strict c = .none a)
    (h : InvAt strict (current init s.loc.log) p s) (hl : Waiting (s.loc.l1 c))
    (hk : s.chan (.request c) = [getx c]) (hf : s.chan (.forward c) = [])
    (hr : (view s c).response = silent) (pos : ℕ) :
    Good strict init (delivered s (.request c) pos (getx c) []) := by
  have hhandle : handle (.request c) (getx c) s.loc = s.loc.onDir (getx c) .GETX := rfl
  have hlog : s.loc.dmaWrites (getx c) .GETX = [] := dmaWrites_eq_nil (by simp) (by simp)
  have hwaits : p.waits → Good strict init (delivered s (.request c) pos (getx c) []) := fun hp =>
    good_recycle hs hk hhandle hlog (h.recycles hp .GETX ⟨by simp, by simp⟩ _).1
  have hblocked : p.blocked → Good strict init (delivered s (.request c) pos (getx c) []) :=
    fun hp => good_recycle hs hk hhandle hlog (h.recycles_getx hp _)
  cases p with
  | fetch _ | dma _ => exact hwaits trivial
  | back y job =>
    cases job with
    | none => exact hwaits trivial
    | some j => exact hblocked rfl
  | idle =>
    have hdir : s.loc.dir = ⟨.I, [], none⟩ := by rw [h.dir_eq, h.tbe]; rfl
    obtain ⟨hmem, hto, hfrom⟩ := h.memory
    refine good_dir (y := ⟨⟨.IM, [.l1Cache c], some { state := .IM }⟩,
      [(.toMemory, memRead (.l1Cache c) 0)], .pop⟩) (p := .fetch c) hhandle (by rw [hdir]; rfl)
      hlog hs.1 rfl (h.dirStep trivial rfl rfl ⟨_, rfl, rfl⟩ ?_ ?_ (by simp [send])
        (by simp [send]) (fun _ => rfl) (by rintro ⟨⟩) rfl)
    · exact ⟨hmem, .inl ⟨by simp [send, hto], by simp [send, hfrom]⟩⟩
    · intro x
      rcases eq_or_ne x c with rfl | hx
      · rw [role, if_pos rfl]
        refine .fetching hl ?_ ?_ ?_
        · simp [view, dirAfter, send, settle]
        · simpa [view, dirAfter, send] using hf
        · simpa [view, dirAfter, send] using hr
      · rw [role, if_neg hx, view_dirAfter (by simpa [Chan.cache] using hx.symm)
          (by simp [Chan.cache])]
        exact h.caches x
  | owned pre o job =>
    cases job with
    | some j => exact hblocked rfl
    | none =>
      -- the request goes to the owner, and its cache is the owner now
      have hdir : s.loc.dir = ⟨.M, [.l1Cache o], none⟩ := by rw [h.dir_eq, h.tbe]; rfl
      have hnodup := h.proper.1
      have ho : o ∉ pre := fun ho => disjoint_of_nodup_append hnodup ho (by simp)
      have hc : c ∉ pre ++ [o] := notMem_of_chainRole hrole
      have hco : c ≠ o := fun heq => hc (by simp [heq])
      refine good_dir (y := ⟨⟨.M, [.l1Cache c], none⟩, [(.forward o, getx c)], .pop⟩)
        (p := .owned (pre ++ [o]) c none) hhandle (by rw [hdir]; rfl) hlog hs.1 rfl
        (h.dirStep ⟨?_, by simp⟩ rfl rfl rfl ?_ ?_ (by simp [send]) (by simp [send])
          (fun _ => rfl) (by rintro ⟨⟩) rfl)
      · exact nodup_append_comm.1 (nodup_cons.2 ⟨hc, hnodup⟩)
      · exact ⟨by simpa [send] using h.memory.1, by simpa [send] using h.memory.2⟩
      · intro x
        have hx := h.caches x
        simp only [role] at hx ⊢
        rcases eq_or_ne x c with rfl | hxc
        · rw [chainRole_append_self hc]
          refine .waiting hl ?_ ?_ ?_
          · simp [view, dirAfter, send, settle, hco]
          · simpa [view, dirAfter, send, hco, asked] using hf
          · simpa [view, dirAfter, send] using hr
        rcases eq_or_ne x o with rfl | hxo
        · obtain ⟨holds, hrole⟩ := chainRole_owner true ho
          obtain ⟨hold, hnew⟩ := hrole (strict && false) false
          refine hnew c ▸ ?_
          rw [view_dirAfter_forward (by simpa [Chan.cache] using hco) (by simp)]
          exact (hold ▸ hx : CacheOK x _ _ (.chain holds none false)).ask (some c) false
        · rw [chainRole_append_of_ne hxo hxc, view_dirAfter (by simpa [Chan.cache] using hxc.symm)
            (by simpa [Chan.cache] using hxo.symm)]
          exact hx

lemma InvAt.handle_putx (h : InvAt strict v p s) (hown : .l1Cache c ∉ p.owner) :
    handle (.request c) (putx c b) s.loc = s.loc.onDir (putx c b) .PUTX_NotOwner := by
  have hown' : .l1Cache c ∉ s.loc.dir.owner := h.owner ▸ hown
  change s.loc.onDir (putx c b) (if _ then _ else _) = _
  rw [if_neg hown']

lemma good_nack (hs : Inv strict init s) (h : InvAt strict (current init s.loc.log) p s)
    (hp : p = .idle ∨ ∃ pre o, p = .owned pre o none) (hown : .l1Cache c ∉ p.owner)
    (hc : CacheOK c (current init s.loc.log)
      { view s c with request := [], forward := (view s c).forward ++ [wbNack c] }
      (p.role strict c)) (pos : ℕ) :
    Good strict init (delivered s (.request c) pos (putx c b) []) := by
  have hhandle := h.handle_putx (b := b) hown
  have htrigger : dirTrigger (some (putx c b)) .PUTX_NotOwner s.loc.dir =
      .ok ⟨s.loc.dir, [(.forward c, wbNack c)], .pop⟩ := by
    have htbe := h.tbe
    have heq := h.dir_eq
    rcases hp with rfl | ⟨pre, o, rfl⟩ <;> rw [htbe] at heq <;> rw [heq] <;> rfl
  have hlog : s.loc.dmaWrites (putx c b) .PUTX_NotOwner = [] := dmaWrites_eq_nil nofun nofun
  refine good_dir hhandle htrigger hlog hs.1 rfl (h.dirStep h.proper h.state h.owner h.tbe ?_ ?_
    (by simp [send]) (by simp [send]) (fun _ => rfl) id ?_)
  · simpa [send] using h.memory
  · intro x
    rcases eq_or_ne x c with rfl | hx
    · simpa [view, dirAfter, send, settle] using hc
    · rw [view_dirAfter (by simpa [Chan.cache] using hx.symm)
        (by simpa [Chan.cache] using hx.symm)]
      exact h.caches x
  · rcases hp with rfl | ⟨pre, o, rfl⟩ <;> rfl

lemma good_putx_refused (hs : Inv strict init s)
    (h : InvAt strict (current init s.loc.log) p s) (hrole : p.role strict c = .none false)
    (hk : s.chan (.request c) = [putx c b]) (hc : CacheOK c (current init s.loc.log)
      { view s c with request := [], forward := (view s c).forward ++ [wbNack c] }
      (.none false)) (pos : ℕ) :
    Good strict init (delivered s (.request c) pos (putx c b) []) := by
  have hown : .l1Cache c ∉ p.owner := by
    cases p with
    | idle | back _ _ | dma _ => exact not_mem_nil
    | fetch y =>
      rw [role] at hrole
      split_ifs at hrole with hy
      simpa [owner] using hy
    | owned pre o job =>
      have hmem := notMem_of_chainRole hrole
      simp only [mem_append, mem_singleton, not_or] at hmem
      simpa [owner] using hmem.2
  have hhandle := h.handle_putx (b := b) hown
  have hwaits : p.waits → Good strict init (delivered s (.request c) pos (putx c b) []) := fun hp =>
    good_recycle hs hk hhandle (h.recycles hp .PUTX_NotOwner ⟨by simp, by simp⟩ _).2
      (h.recycles hp .PUTX_NotOwner ⟨by simp, by simp⟩ _).1
  have heq := h.dir_eq
  have htbe := h.tbe
  cases p with
  | idle => exact good_nack hs h (.inl rfl) hown (hrole ▸ hc) pos
  | fetch _ | dma _ => exact hwaits trivial
  | owned pre o job =>
    cases job with
    | none => exact good_nack hs h (.inr ⟨pre, o, rfl⟩) hown (hrole ▸ hc) pos
    | some j =>
      have hstrict : strict = false := by
        rw [role, chainRole_of_notMem (notMem_of_chainRole hrole)] at hrole
        simpa using hrole
      refine good_dir_error (e := invalidTransition) hstrict hhandle ?_
      rw [heq, htbe, state]
      cases j.write <;> rfl
  | back y job =>
    cases job with
    | none => exact hwaits trivial
    | some j =>
      have hstrict : strict = false := by
        rw [role] at hrole
        split_ifs at hrole
        simpa using hrole
      refine good_dir_error (e := invalidTransition) hstrict hhandle ?_
      rw [heq, htbe, state]
      cases j.write <;> rfl

lemma written_full (mem b : Block n) : written mem b (reqSize n 0) = b := by
  funext i
  exact if_pos i.isLt

/-! The owner writes the line back.  Its writeback ends the phase, in one of three ways. -/

section

variable {job : Option (Job D n)} {j : Job D n}

lemma InvAt.handle_putx_owner (h : InvAt strict v (.owned [] o job) s) :
    handle (.request o) (putx o b) s.loc = s.loc.onDir (putx o b) .PUTX := by
  have hown : .l1Cache o ∈ s.loc.dir.owner := by rw [h.owner]; exact mem_singleton_self _
  change s.loc.onDir (putx o b) (if _ then _ else _) = _
  rw [if_pos hown]

/-- The caches while the memory is written, whatever the directory has sent to others. -/
lemma InvAt.caches_back {sends : List (Chan C D × Msg C D n)}
    (h : InvAt strict v (.owned [] o job) s)
    (hc : CacheOK o v' { view s o with request := [] } .back)
    (hsends : ∀ q ∈ sends, q.1.cache = none) (x : C) : CacheOK x v'
      (view (dirAfter s dl log (sendAll (update s.chan (.request o) []) sends)) x)
      ((back o job).role strict x) := by
  have hsends' : ∀ q ∈ sends, q.1.cache ≠ some x := fun q hq => by simp [hsends q hq]
  rcases eq_or_ne x o with rfl | hx
  · rw [role, if_pos rfl, view_sendAll hsends']
    simpa [view] using hc
  · have hrole : (owned [] o job).role strict x = .none (strict && job.isSome) := if_neg hx
    rw [role, if_neg hx, view_dirAfter (by simpa [Chan.cache] using hx.symm) hsends']
    exact (hrole ▸ h.caches x).change (by simp)

variable (hcoh : Coherent init s.loc.log) (hv : v = current init s.loc.log)
  (hc : ∀ v', CacheOK o v' { view s o with request := [] } .back)
include hcoh hv hc

/-- No DMA request waits: the data goes to the memory. -/
lemma InvAt.good_putx (h : InvAt strict v (.owned [] o none) s) :
    Good strict init (delivered s (.request o) pos (putx o v) []) := by
  have hdir : s.loc.dir = ⟨.M, [.l1Cache o], none⟩ := by rw [h.dir_eq, h.tbe]; rfl
  refine good_dir (y := ⟨⟨.MI, [], some { state := .MI, dataBlk := v }⟩,
    [(.toMemory, memWrite (.l1Cache o) v 0)], .pop⟩) (p := .back o none) h.handle_putx_owner
    (by rw [hdir]; rfl) (dmaWrites_eq_nil (by simp) fun _ => by rw [hdir]; rintro ⟨⟩) hcoh hv
    (h.dirStep trivial rfl rfl ⟨_, rfl, rfl⟩ ?_ (h.caches_back (hc v) (by simp [Chan.cache]))
      (by simp [send]) (by simp [send]) (fun _ => rfl) (by rintro ⟨⟩) rfl)
  refine .inl ⟨v, 0, ?_, ?_, le_rfl, written_full _ _⟩
  · simpa [send] using h.memory.1
  · simpa [send] using h.memory.2

/-- A DMA read waits: the data goes to its controller, and to the memory. -/
lemma InvAt.good_putx_read (h : InvAt strict v (.owned [] o (some j)) s) (hw : j.write = false) :
    Good strict init (delivered s (.request o) pos (putx o v) []) := by
  have hdir : s.loc.dir = ⟨.M_DRD, [.l1Cache o],
      some ⟨.M_DRD, j.dataBlk, j.offset, j.len, some (.dma j.d)⟩⟩ := by
    rw [h.dir_eq, h.tbe, Phase.state, hw]; rfl
  refine good_dir (y := ⟨⟨.M_DRDI, [], some ⟨.M_DRDI, j.dataBlk, j.offset, j.len,
    some (.dma j.d)⟩⟩, [(.dmaResponse j.d, .dmaResponse ⟨.DATA, v⟩),
      (.toMemory, memWrite (.l1Cache o) v 0)], .pop⟩) (p := .back o (some j)) h.handle_putx_owner
    (by rw [hdir]; rfl) (dmaWrites_eq_nil (by simp) fun _ => by rw [hdir]; rintro ⟨⟩) hcoh hv
    ⟨trivial, by simp [dirAfter, Phase.state, hw], rfl,
      by simp [dirAfter, TBEOK, Phase.state, hw], ?_,
      h.caches_back (hc v) (by simp [Chan.cache]), fun d => ?_, h.single,
      by simpa [dirAfter, send, blocked] using h.quiet, by simp [writes, hw]⟩
  · refine .inl ⟨v, 0, ?_, ?_, le_rfl, written_full _ _⟩
    · simpa [dirAfter, send] using h.memory.1
    · simpa [dirAfter, send] using h.memory.2
  · have hd := DMAOK.answer (fun d => s.chan (.dmaResponse d)) (h.dmas d) v
    simpa [dirAfter, send, serving, hw, update_apply] using hd

/-- A DMA write waits: its bytes go to the memory, and the data of the owner is dropped. -/
lemma InvAt.good_putx_write (h : InvAt strict v (.owned [] o (some j)) s) (hw : j.write) :
    Good strict init (delivered s (.request o) pos (putx o v) []) := by
  have hdir : s.loc.dir = ⟨.M_DWR, [.l1Cache o],
      some ⟨.M_DWR, j.dataBlk, j.offset, j.len, some (.dma j.d)⟩⟩ := by
    rw [h.dir_eq, h.tbe, Phase.state, hw]; rfl
  have hlog : s.loc.dmaWrites (putx o v) .PUTX =
      [.dmaWrite j.d j.offset j.len j.dataBlk v s.loc.mem] := by
    unfold Local.dmaWrites
    rw [hdir]
    rfl
  refine good_dir (y := ⟨⟨.M_DWRI, [], some ⟨.M_DWRI, j.dataBlk, j.offset, j.len,
    some (.dma j.d)⟩⟩, [(.toMemory, memWrite (.l1Cache o) j.dataBlk j.len)], .pop⟩)
    (p := .back o (some j)) h.handle_putx_owner (by rw [hdir]; rfl) hlog ⟨hv, hcoh⟩ rfl
    ⟨trivial, by simp [dirAfter, Phase.state, hw], rfl,
      by simp [dirAfter, TBEOK, Phase.state, hw], ?_,
      h.caches_back (hc _) (by simp [Chan.cache]), fun d => ?_, h.single,
      by simpa [dirAfter, send, blocked] using h.quiet, fun _ => ⟨_, _, _, _, _, _, _, rfl⟩⟩
  · refine .inl ⟨j.dataBlk, j.len, ?_, ?_, j.len_le, rfl⟩
    · simpa [dirAfter, send] using h.memory.1
    · simpa [dirAfter, send] using h.memory.2
  · simpa [dirAfter, send, serving, hw] using h.dmas d

end

lemma good_putx_leaving (hs : Inv strict init s) {succ : Option C} {blocked : Bool}
    (h : InvAt strict (current init s.loc.log) p s)
    (hrole : p.role strict c = .chain true succ blocked)
    (hl : Leaving .MI (current init s.loc.log) (s.loc.l1 c))
    (hf : s.chan (.forward c) = asked succ blocked ∨ s.chan (.forward c) = [] ∧ succ = none)
    (hr : (view s c).response = silent) (pos : ℕ) :
    Good strict init
      (delivered s (.request c) pos (putx c (current init s.loc.log)) []) := by
  obtain ⟨pre, o, job, rfl, rfl⟩ := role_holds hrole
  cases pre with
  | nil =>
    -- the cache is the owner
    have hchain : Role.chain true none job.isSome = Role.chain true succ blocked :=
      (if_pos rfl).symm.trans hrole
    cases hchain
    have hfwd : s.chan (.forward o) = [] ∨ s.chan (.forward o) = [inv] := by
      rcases hf with hf | ⟨hf, -⟩
      · rcases hjob : job.isSome with _ | _ <;> rw [hjob] at hf
        · exact .inl hf
        · exact .inr hf
      · exact .inl hf
    have hc : ∀ v', CacheOK o v' { view s o with request := [] } .back :=
      fun _ => .writing hl rfl hfwd hr
    cases job with
    | none => exact h.good_putx hs.1 rfl hc
    | some j =>
      cases hw : j.write with
      | false => exact h.good_putx_read hs.1 rfl hc hw
      | true => exact h.good_putx_write hs.1 rfl hc hw
  | cons y pre =>
    -- the request of another cache was forwarded to it
    obtain ⟨hnodup, hstrict⟩ := h.proper
    have hyo : y ≠ o := by
      rintro rfl
      exact (nodup_cons.1 hnodup).1 (by simp)
    have hown : .l1Cache y ∉ (owned (y :: pre) o job).owner := by
      simpa [owner] using hyo
    have hchain : Role.chain true (some (pre.headD o)) false = Role.chain true succ blocked :=
      (if_pos rfl).symm.trans hrole
    cases hchain
    have hfwd : s.chan (.forward y) = [getx (pre.headD o)] := by
      rcases hf with hf | ⟨-, hf⟩
      · exact hf
      · cases hf
    cases job with
    | none =>
      refine good_nack hs h (.inr ⟨_, _, rfl⟩) hown (hrole ▸ .left hl rfl ?_ hr) pos
      exact congrArg (· ++ _) hfwd
    | some j =>
      have hfalse : strict = false := by
        rw [Bool.eq_false_iff]
        exact fun hst => absurd (hstrict hst rfl) (cons_ne_nil _ _)
      refine good_dir_error (e := invalidTransition) hfalse (h.handle_putx hown) ?_
      rw [h.dir_eq, h.tbe, state]
      cases j.write <;> rfl

lemma good_requestChan (hs : Inv strict init s) (c : C) (i pos : ℕ) :
    Good strict init (s.step program (.deliver (.request c) i pos)) := by
  refine good_deliver hs _ _ _ (by simp) ?_
  intro m rest hk
  obtain ⟨p, h⟩ := hs.2
  obtain ⟨role, hrole, hc⟩ := h.exists_role c
  cases hc with
  | requested hl hq hf hr =>
    cases hk.symm.trans hq
    exact good_getx hs hrole h hl hk hf hr pos
  | refused hl hq hf hr =>
    cases hk.symm.trans hq
    exact good_putx_refused hs h hrole hk (.nacked hl rfl (congrArg (· ++ _) hf) hr) pos
  | leaving hl hq hf hr =>
    cases hk.symm.trans hq
    exact good_putx_leaving hs h hrole hl hf hr pos
  | absent _ hq _ _ | nacked _ hq _ _ | acked _ hq _ _ _ | fetching _ hq _ _ | waiting _ hq _ _
  | arriving _ _ hq _ _ | owning _ hq _ _ | left _ hq _ _ | writing _ hq _ _ =>
      cases hk.symm.trans hq

end ChipletGem5.MIExample
