import ChipletGem5.Ruby.MIExampleDirKeeps

/-!
# The invariant of `MI_example` is kept by the memory and by DMA

The memory has at most one request for a line and gives at most one answer, and the answer ends
the phase that it was asked in.  A DMA request begins a phase of its own: at once if the directory
has the line, after the owner has written the line back if not.
-/

namespace ChipletGem5.MIExample

open Lines Function Phase List Chan

variable {C D : Type} {n : ℕ} {strict : Bool} {v init : Block n}
  {p : Phase C D n} {s : MILine C D n} {c o x : C} {d : D} {j : Job D n}
  {reqs answers : List (Msg C D n)} {mem : Block n} {who : MachineID C D}

/-! ### The memory -/

lemma Reading.length_le (h : Reading v who mem reqs answers) :
    reqs.length ≤ 1 ∧ answers.length ≤ 1 := by
  rcases h.2 with ⟨h, h'⟩ | ⟨h, h'⟩ <;> simp [h, h']

lemma Writing.length_le (h : Writing v who mem reqs answers) :
    reqs.length ≤ 1 ∧ answers.length ≤ 1 := by
  rcases h with ⟨b, len, h, h', -, -⟩ | ⟨h, h', -⟩ <;> simp [h, h']

lemma MemoryOK.length_le (h : MemoryOK v p mem reqs answers) :
    reqs.length ≤ 1 ∧ answers.length ≤ 1 := by
  cases p with
  | idle => simp [h.2.1, h.2.2]
  | owned pre o job => simp [h.1, h.2]
  | fetch c => exact Reading.length_le h
  | back c job => exact Writing.length_le h
  | dma j =>
    simp only [MemoryOK] at h
    split_ifs at h <;> exact h.length_le

lemma MemoryOK.service {m : Msg C D n} (h : MemoryOK v p mem [m] answers) :
    answers = [] ∧ ∃ r mem' r', m = .memory r ∧ serviceMemory mem r = .ok (mem', r') ∧
      MemoryOK v p mem' [] [.memory r'] := by
  have hread : ∀ {who}, Reading v who mem [m] answers → answers = [] ∧ ∃ r mem' r',
      m = .memory r ∧ serviceMemory mem r = .ok (mem', r') ∧
        Reading v who mem' [] [.memory r'] := by
    rintro who ⟨rfl, ⟨hm, rfl⟩ | ⟨hm, -⟩⟩
    · refine ⟨rfl, _, mem, _, (cons.inj hm).1, ?_, rfl, .inr ⟨rfl, rfl⟩⟩
      simp [serviceMemory, reqSize, require]
    · cases hm
  have hwrite : ∀ {who}, Writing v who mem [m] answers → answers = [] ∧ ∃ r mem' r',
      m = .memory r ∧ serviceMemory mem r = .ok (mem', r') ∧
        Writing v who mem' [] [.memory r'] := by
    rintro who (⟨b, len, hm, rfl, hlen, rfl⟩ | ⟨hm, -⟩)
    · refine ⟨rfl, _, _, _, (cons.inj hm).1, ?_, .inr ⟨rfl, rfl, rfl⟩⟩
      simp [serviceMemory, require, hlen]
    · cases hm
  cases p with
  | idle => cases h.2.1
  | owned pre o job => cases h.1
  | fetch c => exact hread h
  | back c job => exact hwrite h
  | dma j =>
    cases hw : j.write <;> simp only [MemoryOK, hw, if_true, Bool.false_eq_true, if_false] at h ⊢
    · exact hread h
    · exact hwrite h

lemma Reading.answer {m : Msg C D n} (h : Reading v who mem reqs [m]) :
    mem = v ∧ reqs = [] ∧ m = memRead who v := by
  rcases h with ⟨hmem, ⟨-, hm⟩ | ⟨hreqs, hm⟩⟩
  · cases hm
  · exact ⟨hmem, hreqs, (cons.inj hm).1⟩

lemma Writing.answer {m : Msg C D n} (h : Writing v who mem reqs [m]) :
    mem = v ∧ reqs = [] ∧ m = memAck who := by
  rcases h with ⟨b, len, -, hm, -⟩ | ⟨hreqs, hm, hmem⟩
  · cases hm
  · exact ⟨hmem, hreqs, (cons.inj hm).1⟩

lemma DMAOK.busy_of_req {tbe : Option (DMATBE n)} {req resp : List (Msg C D n)} {w : Option Bool}
    (h : DMAOK d tbe req resp w) (hreq : req ≠ []) : tbe ≠ none := by
  cases h with
  | requested _ _ ht _ _ => rw [ht]; exact Option.some_ne_none _
  | ready _ hnil _ | served _ hnil _ | answered _ _ _ hnil _ => exact absurd hnil hreq

lemma Job.write_eq_of_msg_eq {j' : Job D n} (h : (j.msg : DMARequestMsg C D n) = j'.msg) :
    j.write = j'.write := by
  have htype := congrArg DMARequestMsg.type h
  cases hw : j.write <;> cases hw' : j'.write <;> simp [Job.msg, hw, hw'] at htype ⊢

variable [DecidableEq D]

lemma DMAOK.take {req resp : D → List (Msg C D n)} {tbe : D → Option (DMATBE n)}
    (h : ∀ d, DMAOK d (tbe d) (req d) (resp d) none) (hj : req j.d = [.dmaRequest j.msg]) (d : D) :
    DMAOK d (tbe d) (if d = j.d then [] else req d) (resp d)
      (if j.d = d then some j.write else none) := by
  have hd := h d
  rcases eq_or_ne j.d d with rfl | hne
  · rw [if_pos rfl, if_pos rfl]
    generalize hnone : (none : Option Bool) = o at hd
    cases hd with
    | requested j' hd ht hreq hresp =>
      have hmsg := Msg.dmaRequest.inj (cons.inj (hj.symm.trans hreq)).1
      exact .served (Job.write_eq_of_msg_eq hmsg ▸ ht) rfl hresp
    | served ht hreq hresp => cases hnone
    | ready _ hreq _ | answered _ _ _ hreq _ => cases hj.symm.trans hreq
  · rwa [if_neg hne, if_neg hne.symm]

variable [DecidableEq C]

lemma good_toMemory (hs : Inv strict init s) (i pos : ℕ) :
    Good strict init (s.step program (.deliver .toMemory i pos)) := by
  obtain ⟨hcoh, p, h⟩ := hs
  refine good_deliver ⟨hcoh, p, h⟩ _ _ _ (fun _ => h.memory.length_le.1) ?_
  intro m rest hk
  cases eq_nil_of_length_le_one hk h.memory.length_le.1
  have hmem := h.memory
  rw [hk] at hmem
  obtain ⟨hnil, r, mem', r', rfl, hservice, hmem'⟩ := hmem.service
  have hhandle : handle .toMemory (.memory r) s.loc =
      .ok ⟨{ s.loc with mem := mem' }, .pop, [(.fromMemory, .memory r')]⟩ := by
    simp [handle, hservice]
  rw [delivered, hhandle]
  exact ⟨hcoh, p, { h with
    memory := by simpa [send, settle, hnil] using hmem'
    caches := by simpa [view, send] using h.caches
    dmas := by simpa [send] using h.dmas
    quiet := by simpa [send] using h.quiet }⟩

/-! ### The answers of the memory -/

/-- The answer ends the phase. -/
lemma InvAt.good_idle {m : Msg C D n} (ev : DirEvent) (sends : List (Chan C D × Msg C D n))
    (pos : ℕ) (h : InvAt strict v p s) (hcoh : Coherent init s.loc.log)
    (hv : v = current init s.loc.log) (hhandle : handle .fromMemory m s.loc = s.loc.onDir m ev)
    (hlog : s.loc.dmaWrites m ev = [])
    (htrigger : dirTrigger (some m) ev s.loc.dir = .ok ⟨⟨.I, [], none⟩, sends, .pop⟩)
    (hsends : ∀ q ∈ sends, .toMemory ≠ q.1 ∧ .fromMemory ≠ q.1) (hmem : s.loc.mem = v)
    (hreqs : s.chan .toMemory = [])
    (hcaches : ∀ x, CacheOK x v (view (dirAfter s ⟨.I, [], none⟩ s.loc.log
      (sendAll (update s.chan .fromMemory []) sends)) x) (.none false))
    (hdmas : ∀ d, DMAOK d (s.loc.dma d)
      (sendAll (update s.chan .fromMemory []) sends (.dmaRequest d))
      (sendAll (update s.chan .fromMemory []) sends (.dmaResponse d)) none) :
    Good strict init (delivered s .fromMemory pos m []) := by
  refine good_dir (p := .idle) hhandle htrigger hlog hcoh hv
    ⟨trivial, rfl, rfl, rfl, ⟨hmem, ?_, ?_⟩, hcaches, hdmas, h.single, by simp [blocked],
      by simp [writes]⟩
  · exact (sendAll_of_forall_ne fun q hq => (hsends q hq).1).trans hreqs
  · exact (sendAll_of_forall_ne fun q hq => (hsends q hq).2).trans (update_self ..)

lemma InvAt.caches_acked {job : Option (Job D n)} {dl : DirLine C D n} {log : List (Record C D n)}
    (h : InvAt strict v (.back c job) s) (sends : List (Chan C D × Msg C D n))
    (hsends : ∀ q ∈ sends, q.1.cache = none) (x : C) : CacheOK x v
      (view (dirAfter s dl log (sendAll (update s.chan .fromMemory [])
        ((.forward c, wbAck c) :: sends))) x) (.none false) := by
  have hx := h.caches x
  have hsends' : ∀ q ∈ sends, q.1.cache ≠ some x := fun q hq => by simp [hsends q hq]
  rcases eq_or_ne x c with rfl | hne
  · rw [role, if_pos rfl] at hx
    rw [view_dirAfter_forward (by simp [cache]) hsends']
    cases hx with
    | writing hl hq hf hr => exact .acked hl hq rfl hf hr
  · rw [role, if_neg hne] at hx
    rw [view_dirAfter (by simp [cache])
      (forall_mem_cons.2 ⟨by simpa [cache] using hne.symm, hsends'⟩)]
    exact hx.restrict (by simp)

section

variable {m : Msg C D n} {pos : ℕ} (hcoh : Coherent init s.loc.log)
  (hv : v = current init s.loc.log) (hk : s.chan .fromMemory = [m])
include hcoh hv hk

/-- The data goes to the cache that asked for it, which is the owner now. -/
lemma InvAt.good_fetched (h : InvAt strict v (.fetch c) s) :
    Good strict init (delivered s .fromMemory pos m []) := by
  obtain ⟨hval, hreqs, rfl⟩ := Reading.answer (hk ▸ h.memory)
  have hdir := h.dir_eq
  obtain ⟨⟨st, blk, off, len, req⟩, ht, rfl⟩ := h.tbe
  rw [ht] at hdir
  refine good_dir (y := ⟨⟨.M, [.l1Cache c], none⟩,
    [(.response .directory c, data .directory v)], .pop⟩) (p := .owned [] c none)
    (rfl : _ = s.loc.onDir _ .Memory_Data) (by rw [hdir]; rfl)
    (dmaWrites_eq_nil (by simp) (by simp)) hcoh hv
    (h.dirStep ⟨by simp, by simp⟩ rfl rfl rfl ?_ ?_ (by simp [send]) (by simp [send])
      (fun _ => rfl) (by rintro ⟨⟩) rfl)
  · exact ⟨by simpa [send] using hreqs, by simp [send, settle]⟩
  · intro x
    have hx := h.caches x
    rcases eq_or_ne x c with rfl | hne
    · rw [role, if_pos rfl] at hx
      rw [role, chainRole, if_pos rfl]
      cases hx with
      | fetching hl hq hf hr =>
        refine .arriving .directory hl hq hf ?_
        ext src
        have hsrc : s.chan (.response src x) = [] := congrFun hr src
        rcases eq_or_ne src .directory with rfl | hne
        · simp [view, dirAfter, send, hsrc]
        · simp [view, dirAfter, send, hsrc, hne, silent]
    · rw [role, if_neg hne] at hx
      rw [role, chainRole, if_neg hne, view_dirAfter (by simp [cache])
        (by simpa [cache] using hne.symm)]
      simpa using hx

/-- The writeback is acknowledged, and with it the DMA write whose bytes it has carried. -/
lemma InvAt.good_written {job : Option (Job D n)} (h : InvAt strict v (.back c job) s) :
    Good strict init (delivered s .fromMemory pos m []) := by
  obtain ⟨hval, hreqs, rfl⟩ := Writing.answer (hk ▸ h.memory)
  have hidle := fun sends => h.good_idle (m := memAck (.l1Cache c)) .Memory_Ack sends pos
    hcoh hv rfl (dmaWrites_eq_nil (by simp) (by simp))
  have hdir := h.dir_eq
  cases job with
  | none =>
    obtain ⟨⟨st, blk, off, len, req⟩, ht, rfl⟩ := h.tbe
    rw [ht] at hdir
    refine hidle [(.forward c, wbAck c)] (by rw [hdir]; rfl) (by simp) hval hreqs
      (h.caches_acked [] (by simp)) ?_
    simpa [send, serving] using h.dmas
  | some j =>
    rw [h.tbe] at hdir
    cases hw : j.write with
    | false =>
      simp only [Phase.state, hw] at hdir
      refine hidle [(.forward c, wbAck c)] (by rw [hdir]; rfl) (by simp) hval hreqs
        (h.caches_acked [] (by simp)) ?_
      simpa [send, serving, hw] using h.dmas
    | true =>
      simp only [Phase.state, hw] at hdir
      refine hidle [(.forward c, wbAck c), (.dmaResponse j.d, .dmaResponse ⟨.ACK, 0⟩)]
        (by rw [hdir]; rfl) (by simp) hval hreqs (h.caches_acked _ (by simp [cache])) ?_
      intro d
      have hd := h.dmas d
      simp only [serving, hw, and_true] at hd
      rw [← hw] at hd
      simpa [send, hw, update_apply] using
        DMAOK.answer (fun d => s.chan (.dmaResponse d)) hd 0

/-- The DMA request is answered. -/
lemma InvAt.good_dmaDone (h : InvAt strict v (.dma j) s) :
    Good strict init (delivered s .fromMemory pos m []) := by
  have hmem := h.memory
  rw [hk] at hmem
  have hdir := h.dir_eq
  obtain ⟨⟨st, blk, off, len, req⟩, ht, rfl, rfl⟩ := h.tbe
  rw [ht] at hdir
  have hdmas : ∀ b d, DMAOK d (s.loc.dma d) _ _ none := fun b d =>
    DMAOK.answer (fun d => s.chan (.dmaResponse d)) (h.dmas d) b
  cases hw : j.write with
  | false =>
    simp only [MemoryOK, hw, Bool.false_eq_true, if_false] at hmem
    obtain ⟨hval, hreqs, rfl⟩ := hmem.answer
    simp only [Phase.state, hw] at hdir
    refine h.good_idle .Memory_Data [(.dmaResponse j.d, .dmaResponse ⟨.DATA, v⟩)] pos hcoh hv rfl
      (dmaWrites_eq_nil (by simp) (by simp)) (by rw [hdir]; rfl) (by simp) hval hreqs h.caches ?_
    simpa [send, hw, update_apply] using hdmas v
  | true =>
    simp only [MemoryOK, hw, if_true] at hmem
    obtain ⟨hval, hreqs, rfl⟩ := hmem.answer
    simp only [Phase.state, hw] at hdir
    refine h.good_idle .Memory_Ack [(.dmaResponse j.d, .dmaResponse ⟨.ACK, 0⟩)] pos hcoh hv rfl
      (dmaWrites_eq_nil (by simp) (by simp)) (by rw [hdir]; rfl) (by simp) hval hreqs h.caches ?_
    simpa [send, hw, update_apply] using hdmas 0

end

lemma good_fromMemory (hs : Inv strict init s) (i pos : ℕ) :
    Good strict init (s.step program (.deliver .fromMemory i pos)) := by
  obtain ⟨hcoh, p, h⟩ := hs
  refine good_deliver ⟨hcoh, p, h⟩ _ _ _ (fun _ => h.memory.length_le.2) ?_
  intro m rest hk
  cases eq_nil_of_length_le_one hk h.memory.length_le.2
  cases p with
  | idle => cases hk.symm.trans h.memory.2.2
  | owned pre o job => cases hk.symm.trans h.memory.2
  | fetch c => exact h.good_fetched hcoh rfl hk
  | back c job => exact h.good_written hcoh rfl hk
  | dma j => exact h.good_dmaDone hcoh rfl hk

/-! ### DMA requests at the directory -/

lemma CacheOK.getx_mem {w : View C D n} {holds blocked : Bool} {y : C}
    (h : CacheOK c v w (.chain holds (some y) blocked)) : getx y ∈ w.forward := by
  cases h with
  | leaving hl hq hf hr =>
    rcases hf with hf | ⟨-, hf⟩
    · rw [hf]
      exact mem_cons_self
    · cases hf
  | waiting _ _ hf _ | arriving _ _ _ hf _ | owning _ _ hf _ | left _ _ hf _ =>
      rw [hf]; exact mem_cons_self

lemma handle_dmaRequest (j : Job D n) : handle (.dmaRequest j.d) (.dmaRequest j.msg) s.loc =
    s.loc.onDir (.dmaRequest j.msg) (if j.write then .DMA_WRITE else .DMA_READ) := by
  cases hw : j.write <;> simp [handle, Job.msg, hw, dmaRequestEvent]

lemma good_dma_idle (hs : Inv strict init s) (h : InvAt strict (current init s.loc.log) .idle s)
    (hk : s.chan (.dmaRequest j.d) = [.dmaRequest j.msg]) (pos : ℕ) :
    Good strict init (delivered s (.dmaRequest j.d) pos (.dmaRequest j.msg) []) := by
  have hdir : s.loc.dir = ⟨.I, [], none⟩ := by rw [h.dir_eq, h.tbe]; rfl
  obtain ⟨hmem, hreqs, hanswers⟩ := h.memory
  have hhandle := handle_dmaRequest (s := s) j
  have hdmas := DMAOK.take (j := j) h.dmas hk
  cases hw : j.write with
  | false =>
    rw [hw, if_neg Bool.false_ne_true] at hhandle
    refine good_dir (y := ⟨⟨.ID, [], some ⟨.ID, 0, 0, 0, some (.dma j.d)⟩⟩,
      [(.toMemory, memRead (.dma j.d) 0)], .pop⟩) (p := .dma j) hhandle (by rw [hdir]; rfl)
      (dmaWrites_eq_nil (by simp) (by simp)) hs.1 rfl ⟨trivial, by simp [dirAfter, state, hw], rfl,
        ⟨_, rfl, by simp [state, hw], rfl⟩, ?_,
        fun x => (h.caches x).change (by rintro _ _ ⟨⟩), ?_, h.single, by rintro _ ⟨⟩,
        by simp [writes, hw]⟩
    · simp only [MemoryOK, hw, Bool.false_eq_true, if_false]
      exact ⟨hmem, .inl ⟨by simp [dirAfter, send, hreqs], by simp [dirAfter, send, hanswers]⟩⟩
    · simpa [dirAfter, send, update_apply, serving, settle] using hdmas
  | true =>
    rw [hw, if_pos rfl] at hhandle
    have hlog : s.loc.dmaWrites (.dmaRequest j.msg) .DMA_WRITE =
        [.dmaWrite j.d j.offset j.len j.dataBlk s.loc.mem s.loc.mem] := by
      unfold Local.dmaWrites
      rw [hdir]
      rfl
    refine good_dir (y := ⟨⟨.ID_W, [], some ⟨.ID_W, j.dataBlk, j.offset, j.len, some (.dma j.d)⟩⟩,
      [(.toMemory, memWrite (.dma j.d) j.dataBlk j.len)], .pop⟩) (p := .dma j) hhandle
      (by rw [hdir]; rfl) hlog ⟨hmem, hs.1⟩ rfl ⟨trivial, by simp [dirAfter, state, hw], rfl,
        ⟨_, rfl, by simp [state, hw], rfl⟩, ?_, fun x => (h.caches x).change (by rintro _ _ ⟨⟩),
        ?_, h.single, by rintro _ ⟨⟩, fun _ => ⟨_, _, _, _, _, _, _, rfl⟩⟩
    · simp only [MemoryOK, hw, if_true]
      exact .inl ⟨j.dataBlk, j.len, by simp [dirAfter, send, hreqs],
        by simp [dirAfter, send, hanswers], j.len_le, rfl⟩
    · simpa [dirAfter, send, update_apply, serving, settle] using hdmas

lemma chainRole_of_ne_owner {a b b' holds : Bool} {pre : List C} (hx : x ≠ o) :
    Phase.chainRole a b holds pre o x = Phase.chainRole a b' holds pre o x := by
  induction pre generalizing holds with
  | nil => exact (if_neg hx).trans (if_neg hx).symm
  | cons y pre ih => simp only [chainRole, ih]

lemma good_dma_owned (hs : Inv strict init s) {pre : List C}
    (h : InvAt strict (current init s.loc.log) (.owned pre o none) s)
    (hk : s.chan (.dmaRequest j.d) = [.dmaRequest j.msg])
    (horderly : strict → (∀ c, ∀ m ∈ s.chan (.forward c), m.isGETX = false) ∧
      ∀ c, (∃ m ∈ s.chan (.request c), m.isPUTX) → .l1Cache c ∈ s.loc.dir.owner)
    (pos : ℕ) : Good strict init (delivered s (.dmaRequest j.d) pos (.dmaRequest j.msg) []) := by
  have hdir : s.loc.dir = ⟨.M, [.l1Cache o], none⟩ := by rw [h.dir_eq, h.tbe]; rfl
  have hnodup := h.proper.1
  have ho : o ∉ pre := fun ho => disjoint_of_nodup_append hnodup ho (by simp)
  -- without a forwarded request the owner is the only cache of the list
  have hpre : strict → pre = [] := by
    intro hst
    cases pre with
    | nil => rfl
    | cons y pre =>
      have hy := h.caches y
      simp only [role, chainRole, if_pos] at hy
      cases (horderly hst).1 y _ hy.getx_mem
  have hlog : s.loc.dmaWrites (.dmaRequest j.msg)
      (if j.write then .DMA_WRITE else .DMA_READ) = [] := by
    refine dmaWrites_eq_nil (fun _ => ?_) (fun _ => ?_) <;> rw [hdir] <;> rintro ⟨⟩
  obtain ⟨st, hst⟩ : ∃ st, st = (owned pre o (some j) : Phase C D n).state := ⟨_, rfl⟩
  refine good_dir (y := ⟨⟨st, [.l1Cache o], some ⟨st, j.dataBlk, j.offset, j.len,
    some (.dma j.d)⟩⟩, [(.forward o, inv)], .pop⟩) (p := .owned pre o (some j))
    (handle_dmaRequest j) ?_ hlog hs.1 rfl ?_
  · rw [hdir, hst, state]
    cases j.write <;> rfl
  constructor
  case proper => exact ⟨hnodup, fun h1 _ => hpre h1⟩
  case state => exact hst
  case owner => rfl
  case tbe => exact hst ▸ rfl
  case memory =>
    exact ⟨by simpa [dirAfter, send] using h.memory.1, by simpa [dirAfter, send] using h.memory.2⟩
  case caches =>
    intro x
    have hx := h.caches x
    simp only [role] at hx ⊢
    rcases eq_or_ne x o with rfl | hxo
    · obtain ⟨holds, hrole⟩ := chainRole_owner true ho
      rw [(hrole _ _).1] at hx ⊢
      rw [view_dirAfter_forward (by simp [cache]) (by simp)]
      exact hx.ask none true
    · rw [view_dirAfter (by simp [cache]) (by simpa [cache] using hxo.symm)]
      cases strict with
      | false =>
        have hb : chainRole false true true pre o x =
            chainRole false false true pre o x :=
          chainRole_of_ne_owner hxo
        exact hb ▸ hx
      | true =>
        cases hpre rfl
        rw [chainRole, if_neg hxo] at hx ⊢
        refine hx.restrict fun _ b hb => hxo ?_
        have hmem : putx x b ∈ (view s x).request := hb ▸ mem_singleton_self _
        have hown := (horderly rfl).2 x ⟨_, hmem, rfl⟩
        rw [hdir] at hown
        simpa using hown
  case dmas =>
    intro d
    simpa [dirAfter, send, settle, update_apply, serving] using
      DMAOK.take (j := j) h.dmas hk d
  case single => exact h.single
  case quiet =>
    intro hst _ d
    rcases eq_or_ne d j.d with rfl | hne
    · simp [dirAfter, send, settle]
    · -- another controller would be busy as well
      by_contra hd
      refine hne (h.single hst d j.d ((h.dmas d).busy_of_req ?_) ((h.dmas j.d).busy_of_req ?_))
      · simpa [dirAfter, send, hne] using hd
      · rw [hk]
        exact cons_ne_nil _ _
  case logged => rintro ⟨⟩

lemma good_dmaRequestChan (hs : Inv strict init s) (d : D) (i pos : ℕ)
    (horderly : strict → Orderly s (.deliver (.dmaRequest d) i pos)) :
    Good strict init (s.step program (.deliver (.dmaRequest d) i pos)) := by
  refine good_deliver hs _ _ _ (by simp) ?_
  intro m rest hk
  obtain ⟨p, h⟩ := hs.2
  obtain ⟨j, rfl, hreq⟩ : ∃ j : Job D n,
      j.d = d ∧ s.chan (.dmaRequest d) = [.dmaRequest j.msg] := by
    have hd := h.dmas d
    generalize p.serving d = w at hd
    cases hd with
    | requested j hd _ hreq _ => exact ⟨j, hd, hreq⟩
    | ready _ hreq _ | served _ hreq _ | answered _ _ _ hreq _ => cases hk.symm.trans hreq
  cases hk.symm.trans hreq
  have hhandle := handle_dmaRequest (s := s) j
  have hwaits : p.waits →
      Good strict init (delivered s (.dmaRequest j.d) pos (.dmaRequest j.msg) []) := by
    intro hp
    have hrec := h.recycles hp (if j.write then .DMA_WRITE else .DMA_READ)
      (by cases j.write <;> exact ⟨nofun, nofun⟩) (.dmaRequest j.msg)
    exact good_recycle hs hk hhandle hrec.2 hrec.1
  -- a blocked directory has no transition, but then no request waits if the invariant is strict
  have hblocked : p.blocked → strict = false := by
    intro hp
    rw [Bool.eq_false_iff]
    intro hst
    cases hk.symm.trans (h.quiet hst hp j.d)
  cases p with
  | idle => exact good_dma_idle hs h hk pos
  | fetch _ | dma _ => exact hwaits trivial
  | owned pre o job =>
    cases job with
    | none =>
      refine good_dma_owned hs h hk (fun hst => horderly hst ?_) pos
      rw [h.dir_eq, h.tbe]
      rfl
    | some j' =>
      refine good_dir_error (e := invalidTransition) (hblocked rfl) hhandle ?_
      rw [h.dir_eq, h.tbe, state]
      cases j.write <;> cases j'.write <;> rfl
  | back c job =>
    cases job with
    | none => exact hwaits trivial
    | some j' =>
      refine good_dir_error (e := invalidTransition) (hblocked rfl) hhandle ?_
      rw [h.dir_eq, h.tbe, state]
      cases j.write <;> cases j'.write <;> rfl

/-! ### The DMA controllers -/

/-- The request that a DMA sequencer makes, as one of the directory. -/
def SequencerMsg.job (d : D) (write : Bool) (offset : Fin n) (data : List (BitVec 8)) :
    Job D n where
  d := d
  write := write
  offset := offset
  dataBlk := (SequencerMsg.make write offset data).dataBlk
  len := (SequencerMsg.make write offset data).len
  len_le := by
    have hlen : (SequencerMsg.make write offset data).len ≤ n := by
      simp only [SequencerMsg.make]
      split_ifs <;> omega
    simp only [reqSize]
    split_ifs <;> omega

lemma InvAt.dmaStep {tbe : Option (DMATBE n)} {ch : Chan C D → List (Msg C D n)}
    (h : InvAt strict v p s) (hch : ∀ k, k ≠ .dmaRequest d → k ≠ .dmaResponse d → ch k = s.chan k)
    (hd : DMAOK d tbe (ch (.dmaRequest d)) (ch (.dmaResponse d)) (p.serving d))
    (hsingle : strict → tbe ≠ none → s.loc.dma d = none → ∀ d', s.loc.dma d' = none)
    (hquiet : strict → p.blocked → ch (.dmaRequest d) = []) :
    InvAt strict v p ⟨{ s.loc with dma := update s.loc.dma d tbe }, ch⟩ where
  proper := h.proper
  state := h.state
  owner := h.owner
  tbe := h.tbe
  memory := by
    have hmem := h.memory
    rwa [← hch .toMemory (by simp) (by simp), ← hch .fromMemory (by simp) (by simp)] at hmem
  caches x := by
    have hview : view ⟨{ s.loc with dma := update s.loc.dma d tbe }, ch⟩ x = view s x := by
      rw [view]
      congr 1
      · exact hch _ (by simp) (by simp)
      · exact hch _ (by simp) (by simp)
      · funext src
        exact hch _ (by simp) (by simp)
    rw [hview]
    exact h.caches x
  dmas d' := by
    rcases eq_or_ne d' d with rfl | hne
    · simpa using hd
    · have hd' := h.dmas d'
      rw [← hch (.dmaRequest d') (by simpa using hne) (by simp),
        ← hch (.dmaResponse d') (by simp) (by simpa using hne)] at hd'
      simpa [hne] using hd'
  single hst d1 d2 h1 h2 := by
    -- a controller that gets busy finds the others ready
    have hother : ∀ {d'}, d' ≠ d → s.loc.dma d' ≠ none → tbe ≠ none → d' = d := by
      intro d' hne hd' htbe
      by_cases hnone : s.loc.dma d = none
      · exact absurd (hsingle hst htbe hnone d') hd'
      · exact h.single hst d' d hd' hnone
    rcases eq_or_ne d1 d with rfl | hne1 <;> rcases eq_or_ne d2 d1 with rfl | hne2
    · rfl
    · refine (hother hne2 ?_ ?_).symm
      · simpa [hne2] using h2
      · simpa using h1
    · rfl
    · rcases eq_or_ne d2 d with rfl | hne
      · refine hother hne1 ?_ ?_
        · simpa [hne1] using h1
        · simpa using h2
      · exact h.single hst d1 d2 (by simpa [hne1] using h1) (by simpa [hne] using h2)
  quiet hst hb d' := by
    rcases eq_or_ne d' d with rfl | hne
    · exact hquiet hst hb
    · exact (hch _ (by simpa using hne) (by simp)).trans (h.quiet hst hb d')
  logged := h.logged

lemma good_dma (hs : Inv strict init s) (d : D) (write : Bool) (offset : Fin n)
    (data : List (BitVec 8))
    (horderly : strict → Orderly s (.act (.dma d write offset data))) :
    Good strict init (s.step program (.act (.dma d write offset data))) := by
  have hs' := hs
  obtain ⟨hcoh, p, h⟩ := hs
  have hd := h.dmas d
  generalize hw : p.serving d = w at hd
  -- a busy controller lets the request wait
  have hstall : ∀ {b : Bool} {blk : Block n}, s.loc.dma d = some ⟨busy b, blk⟩ →
      Good strict init (s.step program (.act (.dma d write offset data))) := by
    intro b blk ht
    have hstep : s.step program (.act (.dma d write offset data)) = .ok s := by
      have htrigger : dmaTrigger d (some (.make write offset data)) (none : Option (Msg C D n))
          (if write then .WriteRequest else .ReadRequest) (s.loc.dma d) =
          .ok ⟨s.loc.dma d, [], false⟩ := by
        rw [ht]
        cases b <;> cases write <;> rfl
      simp only [Line.step, program, Action.perform, Local.onDMA, htrigger]
      simp [Functor.map, Except.map, Line.finish]
    rwa [hstep]
  cases hd with
  | requested _ _ ht _ _ | served ht _ _ | answered _ _ ht _ _ => exact hstall ht
  | ready ht hreq hresp =>
    obtain ⟨j, hj⟩ : ∃ j, j = SequencerMsg.job d write offset data := ⟨_, rfl⟩
    have hstep : s.step program (.act (.dma d write offset data)) =
        .ok ⟨{ s.loc with dma := update s.loc.dma d (some ⟨busy write, 0⟩) },
          sendAll s.chan [(.dmaRequest d, .dmaRequest j.msg)]⟩ := by
      simp only [Line.step, program, Action.perform, Local.onDMA, ht, hj]
      cases write <;> rfl
    rw [hstep]
    refine ⟨hcoh, p, h.dmaStep ?_ ?_ ?_ ?_⟩
    · intro k hk _
      simp [send, hk]
    · rw [hw]
      refine .requested j (by rw [hj]; rfl) (b := 0) (by rw [hj]; rfl) ?_ ?_
      · simp [send, hreq]
      · simpa [send] using hresp
    · exact fun hst _ hnone => (horderly hst hnone).1
    · intro hst hb
      exfalso
      obtain ⟨hready, hstate⟩ := horderly hst ht
      -- the directory is blocked by a request of a controller that is busy, or ends a read
      have hbusy : ∀ d' b, p.serving d' ≠ some b := by
        intro d' b hd'
        have hd := h.dmas d'
        rw [hd', hready d'] at hd
        cases hd with
        | served ht _ _ => cases ht
      cases p with
      | idle => cases hb
      | fetch c => cases hb
      | dma j' => cases hb
      | owned pre o job =>
        cases job with
        | none => cases hb
        | some j' => exact hbusy j'.d j'.write (if_pos rfl)
      | back c job =>
        cases job with
        | none => cases hb
        | some j' =>
          cases hw' : j'.write with
          | true => exact hbusy j'.d true (if_pos ⟨rfl, hw'⟩)
          | false =>
            refine hstate ?_
            rw [h.dir_eq, h.tbe]
            simp [DirLine.state, state, hw']

lemma good_dmaResponse (hs : Inv strict init s) (d : D) (i pos : ℕ) :
    Good strict init (s.step program (.deliver (.dmaResponse d) i pos)) := by
  refine good_deliver hs _ _ _ (by simp) ?_
  intro m rest hk
  obtain ⟨hcoh, p, h⟩ := hs
  have hd := h.dmas d
  generalize hw : p.serving d = w at hd
  cases hd with
  | ready _ _ hresp | requested _ _ _ _ hresp | served _ _ hresp => cases hk.symm.trans hresp
  | answered write b ht hreq hresp =>
    cases hk.symm.trans hresp
    have hhandle : handle (.dmaResponse d)
        (.dmaResponse ⟨if write then .ACK else .DATA, b⟩) s.loc =
        .ok ⟨{ s.loc with dma := update s.loc.dma d none }, .pop, []⟩ := by
      cases write <;> simp only [handle, Local.onDMA, ht] <;> rfl
    rw [delivered, hhandle]
    refine ⟨hcoh, p, h.dmaStep ?_ ?_ ?_ ?_⟩
    · intro k _ hk
      exact update_of_ne hk ..
    · rw [hw]
      exact .ready rfl (by simpa [settle] using hreq) (by simp [settle])
    · exact fun _ hnone => absurd rfl hnone
    · intro hst hb
      simpa [settle] using hreq

/-! ### Every step -/

/-- Every step of a line keeps the invariant.  If the invariant is strict, and DMA is orderly, no
step fails. -/
theorem good_step (hs : Inv strict init s) (mv : Move (Chan C D) (Action C D n))
    (horderly : strict → Orderly s mv) : Good strict init (s.step program mv) := by
  cases mv with
  | act b =>
    cases b with
    | request c r => exact good_request hs c r
    | mandatory c => exact good_mandatory hs c
    | replacement c => exact good_replacement hs c
    | dma d write offset data => exact good_dma hs d write offset data horderly
  | deliver k i pos =>
    cases k with
    | request c => exact good_requestChan hs c i pos
    | forward c => exact good_forward hs c i pos
    | response src c => exact good_response hs src c i pos
    | dmaRequest d => exact good_dmaRequestChan hs d i pos horderly
    | dmaResponse d => exact good_dmaResponse hs d i pos
    | toMemory => exact good_toMemory hs i pos
    | fromMemory => exact good_fromMemory hs i pos

end ChipletGem5.MIExample
