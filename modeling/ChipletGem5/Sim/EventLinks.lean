import Mathlib.Data.Prod.Lex
import ChipletGem5.Lib.BinList
import ChipletGem5.Sim.EventQueue

/-!
# The links of an event queue

What `insert`, `remove` and the popping of `serviceOne` do to the two-level list of an event
queue.  `Represents h head l` says that the events reachable from `head` are those of `l`, in
the order in which they will be serviced; the `nextBin` pointers of events that are not first
in their bin are left open.  Each operation returns once its loops may run over the whole queue, and
changes nothing but the links of the events it handles (`Relinked`).
-/

namespace ChipletGem5.EventQueue

open BinList Event Function List Heap

/-! ### Keys -/

/-- The key of an event: time first, then priority. -/
abbrev Key := ℕ ×ₗ ℤ

/-- The key under which an event is sorted. -/
def Event.key (e : Event) : Key := toLex (e.when, e.priority)

lemma Event.lt_iff (l r : Event) : l.lt r ↔ l.key < r.key := by
  simp [lt, key, Prod.Lex.toLex_lt_toLex]

lemma Event.le_iff (l r : Event) : l.le r ↔ l.key ≤ r.key := by
  simp [le, key, Prod.Lex.toLex_le_toLex]

lemma Event.eq_iff (l r : Event) : l.eq r ↔ l.key = r.key := by
  simp [eq, key]

lemma Event.ne_iff (l r : Event) : l.ne r ↔ l.key ≠ r.key := by
  simp [ne, key, imp_iff_not_or]

/-! ### Representation -/

/-- The bins of a queue, linked through the events in memory. -/
abbrev Linked (h : Heap) : Option EventId → List (List EventId) → Prop :=
  Bins (fun e => (h e).nextBin) (fun e => (h e).nextInBin)

/-- Sorted by the keys in memory. -/
abbrev Binned (h : Heap) : List (List EventId) → Prop := Ordered fun e => (h e).key

/-- The queue that starts at `head` holds the events `l`, in the order of service. -/
def Represents (h : Heap) (head : Option EventId) (l : List EventId) : Prop :=
  ∃ bins, Linked h head bins ∧ Binned h bins ∧ bins.flatten = l

/-- An event without its links. -/
def Event.unlinked (e : Event) : Event := { e with nextBin := none, nextInBin := none }

/-- The memory `h'` differs from `h` in the links of the events of `l` only. -/
structure Relinked (l : List EventId) (h h' : Heap) : Prop where
  unlinked : ∀ e, (h' e).unlinked = (h e).unlinked
  frame : ∀ e, e ∉ l → h' e = h e

variable {h h' h'' : Heap} {l l' : List EventId} {e : EventId}

lemma Relinked.refl (l : List EventId) (h : Heap) : Relinked l h h :=
  ⟨fun _ => rfl, fun _ _ => rfl⟩

lemma Relinked.trans (h1 : Relinked l h h') (h2 : Relinked l h' h'') : Relinked l h h'' :=
  ⟨fun e => (h2.unlinked e).trans (h1.unlinked e),
    fun e he => (h2.frame e he).trans (h1.frame e he)⟩

lemma Relinked.mono (hl : Relinked l h h') (hsub : l ⊆ l') : Relinked l' h h' :=
  ⟨hl.unlinked, fun e he => hl.frame e fun hm => he (hsub hm)⟩

lemma Relinked.keeps {β : Type} (hl : Relinked l h h') (f : Event → β)
    (hf : ∀ x : Event, f x.unlinked = f x) (e : EventId) : f (h' e) = f (h e) := by
  rw [← hf, hl.unlinked, hf]

lemma Relinked.key (hl : Relinked l h h') : ∀ e, (h' e).key = (h e).key :=
  hl.keeps Event.key fun _ => rfl

lemma Relinked.flags (hl : Relinked l h h') : ∀ e, (h' e).flags = (h e).flags :=
  hl.keeps Event.flags fun _ => rfl

lemma Heap.setNextBin_self (h : Heap) (e : EventId) (p : Option EventId) :
    (h.setNextBin e p e).nextBin = p := by
  simp [setNextBin]

variable {r pre bins : List (List EventId)} {ts us : List EventId} {hd x t prev : EventId}
  {head p : Option EventId} {this : ℕ}

lemma Heap.setNextBin_of_ne (hx : x ≠ e) (p : Option EventId) : h.setNextBin e p x = h x := by
  simp [setNextBin, hx]

lemma Heap.setNextBin_nextInBin (h : Heap) (e : EventId) (p : Option EventId) (x : EventId) :
    (h.setNextBin e p x).nextInBin = (h x).nextInBin := by
  rcases eq_or_ne x e with rfl | hx
  · simp [setNextBin]
  · rw [setNextBin_of_ne hx]

lemma Heap.setNextInBin_self (h : Heap) (e : EventId) (p : Option EventId) :
    (h.setNextInBin e p e).nextInBin = p := by
  simp [setNextInBin]

lemma Heap.setNextInBin_of_ne (hx : x ≠ e) (p : Option EventId) : h.setNextInBin e p x = h x := by
  simp [setNextInBin, hx]

lemma Heap.setNextInBin_nextBin (h : Heap) (e : EventId) (p : Option EventId) (x : EventId) :
    (h.setNextInBin e p x).nextBin = (h x).nextBin := by
  rcases eq_or_ne x e with rfl | hx
  · simp [setNextInBin]
  · rw [setNextInBin_of_ne hx]

lemma Relinked.of_update {ev : Event} (he : e ∈ l) (hev : ev.unlinked = (h e).unlinked) :
    Relinked l h (update h e ev) where
  unlinked x := by
    rcases eq_or_ne x e with rfl | hne
    · rwa [update_self]
    · rw [update_of_ne hne]
  frame x hx := update_of_ne (ne_of_mem_of_not_mem he hx).symm ..

lemma Relinked.setNextBin (hl : Relinked l h h') (he : e ∈ l) (p : Option EventId) :
    Relinked l h (h'.setNextBin e p) :=
  hl.trans (.of_update he rfl)

lemma Relinked.setNextInBin (hl : Relinked l h h') (he : e ∈ l) (p : Option EventId) :
    Relinked l h (h'.setNextInBin e p) :=
  hl.trans (.of_update he rfl)

lemma Represents.eq_nil (hl : Represents h none l) : l = [] := by
  obtain ⟨bins, hb, -, rfl⟩ := hl
  simp [hb.eq_nil]

lemma Represents.nil (h : Heap) : Represents h none [] :=
  ⟨[], rfl, trivial, rfl⟩

lemma Represents.congr (hl : Represents h head l)
    (hsame : ∀ x ∈ l, (h' x).nextBin = (h x).nextBin ∧ (h' x).nextInBin = (h x).nextInBin ∧
      (h' x).key = (h x).key) : Represents h' head l := by
  obtain ⟨bins, hb, ho, rfl⟩ := hl
  exact ⟨bins, hb.congr (fun x hx => (hsame x hx).1) (fun x hx => (hsame x hx).2.1),
    ho.congr fun x hx => (hsame x hx).2.2, rfl⟩

/-! ### Bins -/

lemma Binned.le_of_mem_behind
    (ho : Binned h (pre ++ (t :: ts) :: r)) (hx : x ∈ ((t :: ts) :: r).flatten) :
    (h t).key ≤ (h x).key := by
  rw [flatten_cons, mem_append] at hx
  rcases hx with hx | hx
  · exact (ho.same mem_cons_self hx).le
  · exact (ho.lt_of_post (mem_cons_self (a := t)) hx).le

lemma flatten_append_cons (pre r : List (List EventId)) (b : List EventId) :
    (pre ++ b :: r).flatten = (pre ++ [b]).flatten ++ r.flatten := by
  simp

lemma notMem_flatten_of_nodup {b : List EventId}
    (hnd : (b :: r).flatten.Nodup) (hx : x ∈ b) : x ∉ r.flatten := fun hm => by
  rw [flatten_cons, nodup_append] at hnd
  exact hnd.2.2 x hx x hm rfl

/-! ### Looking for a bin -/

/-- The loop of `insert` and `remove` stops behind the last bin that comes before `e`. -/
lemma findBin_spec (hb : Linked h head (pre ++ (prev :: ts) :: bins))
    (ho : Binned h (pre ++ (prev :: ts) :: bins)) (hprev : (h prev).key < (h e).key) :
    ∃ pre' prev' ts' r, pre ++ (prev :: ts) :: bins = pre' ++ (prev' :: ts') :: r ∧
      (∀ fuel, bins.length < fuel →
        findBin h e fuel prev (h prev).nextBin = .ok (prev', (h prev').nextBin)) ∧
      (h prev').key < (h e).key ∧ ∀ x ∈ r.flatten, (h e).key ≤ (h x).key := by
  induction bins generalizing pre prev ts with
  | nil =>
    have hnone : (h prev).nextBin = none := hb.behind
    refine ⟨pre, prev, ts, [], rfl, fun fuel hfuel => ?_, hprev, by simp⟩
    obtain ⟨fuel, rfl⟩ := Nat.exists_eq_succ_of_ne_zero (by omega : fuel ≠ 0)
    rw [hnone]
    rfl
  | cons b bins ih =>
    obtain ⟨t, us, rfl, ht⟩ := hb.behind.eq_some
    by_cases hlt : (h t).lt (h e)
    · -- the next bin still comes before `e`
      rw [append_cons] at hb ho ⊢
      obtain ⟨pre', prev', ts', r, hsplit, hfind, hrest⟩ := ih hb ho ((lt_iff _ _).1 hlt)
      refine ⟨pre', prev', ts', r, hsplit, fun fuel hfuel => ?_, hrest⟩
      obtain ⟨fuel, rfl⟩ := Nat.exists_eq_succ_of_ne_zero (by omega : fuel ≠ 0)
      rw [ht, findBin]
      simp only [hlt, if_true]
      exact hfind fuel (by simpa using hfuel)
    · have hle : (h e).key ≤ (h t).key := not_lt.1 fun hk => hlt ((lt_iff _ _).2 hk)
      refine ⟨pre, prev, ts, (t :: us) :: bins, rfl, fun fuel hfuel => ?_, hprev, fun x hx => ?_⟩
      · obtain ⟨fuel, rfl⟩ := Nat.exists_eq_succ_of_ne_zero (by omega : fuel ≠ 0)
        simp [ht, findBin, hlt]
      rw [append_cons] at ho
      exact hle.trans (Binned.le_of_mem_behind ho hx)

lemma lt_of_mem_front (ho : Binned h (pre ++ (t :: ts) :: r)) (ht : (h t).key < (h e).key)
    (hx : x ∈ (pre ++ [t :: ts]).flatten) : (h x).key < (h e).key := by
  rw [flatten_append, mem_append, flatten_singleton] at hx
  rcases hx with hx | hx
  · exact (ho.lt_of_pre hx (mem_cons_self (a := t))).trans ht
  · rwa [ho.same hx mem_cons_self]

/-- Writing `prev->nextBin`: the bins behind `prev` are replaced by those of the pointer that
is written. -/
lemma Represents.setNextBin {r' : List (List EventId)}
    (hb : Linked h head (pre ++ (t :: ts) :: r)) (ho : Binned h (pre ++ (t :: ts) :: r'))
    (hrel : Relinked l h h') (hfront : ∀ x ∈ (pre ++ [t :: ts]).flatten, x ∉ l)
    (hr' : Linked h' p r') :
    Represents (h'.setNextBin t p) head ((pre ++ [t :: ts]).flatten ++ r'.flatten) ∧
      Relinked ((pre ++ [t :: ts]).flatten ++ l) h (h'.setNextBin t p) := by
  have hrel' : Relinked ((pre ++ [t :: ts]).flatten ++ l) h (h'.setNextBin t p) :=
    (hrel.mono (subset_append_right ..)).setNextBin (by simp) p
  have hframe := fun x hx => hrel.frame x (hfront x hx)
  -- by its key, `t` is neither in front of its bin nor behind it
  have hne : ∀ {L : List (List EventId)}, t ∉ L.flatten → ∀ x ∈ L.flatten,
      (h'.setNextBin t p x).nextBin = (h' x).nextBin := by
    intro L hL x hx
    rw [setNextBin_of_ne]
    rintro rfl
    exact hL hx
  have hpre : t ∉ pre.flatten := fun hm => (ho.lt_of_pre hm mem_cons_self).false
  have hnot : t ∉ r'.flatten := fun hm => (ho.lt_of_post mem_cons_self hm).false
  refine ⟨⟨pre ++ (t :: ts) :: r', Bins.frame hb (fun x hx => ?_) (fun x hx => ?_)
    fun q hq => ⟨hq.1, ?_, ?_⟩, ho.congr fun x _ => hrel'.key x, by simp⟩, hrel'⟩
  · rw [hne hpre x hx, hframe x (by simp [mem_flatten.1 hx])]
  · rw [setNextBin_nextInBin, hframe x (by simp [mem_flatten.1 hx])]
  · simp only [setNextBin_nextInBin, hframe t (by simp)]
    exact (Bins.inside hb).congr fun x hx => by rw [hframe x (by simp [hx])]
  · simp only [setNextBin_self]
    exact Bins.congr hr' (hne hnot) fun x _ => setNextBin_nextInBin h' t p x

/-! ### Insertion -/

lemma insertBefore_relinked (p : Option EventId) : Relinked [e] h (insertBefore h e p) := by
  have he : e ∈ [e] := by simp
  cases p with
  | none => exact ((Relinked.refl _ h).setNextBin he _).setNextInBin he _
  | some c =>
    rw [insertBefore]
    split <;> exact ((Relinked.refl _ h).setNextBin he _).setNextInBin he _

lemma Heap.setLinks_self (h : Heap) (e : EventId) (p q : Option EventId) :
    (((h.setNextBin e p).setNextInBin e q) e).nextBin = p ∧
      (((h.setNextBin e p).setNextInBin e q) e).nextInBin = q :=
  ⟨by rw [setNextInBin_nextBin, setNextBin_self], setNextInBin_self ..⟩

/-- `insertBefore` puts `e` in front of the bins that do not come before it, as a bin of its
own or on top of the first one. -/
lemma insertBefore_spec (hb : Linked h p r)
    (hr : ∀ x ∈ r.flatten, (h e).key ≤ (h x).key) (he : e ∉ r.flatten) :
    ∃ r', Linked (insertBefore h e p) (some e) r' ∧ r'.flatten = e :: r.flatten ∧
      ∀ pre, Binned h (pre ++ r) → (∀ x ∈ pre.flatten, (h x).key < (h e).key) →
        Binned h (pre ++ r') := by
  have hframe := (insertBefore_relinked (h := h) (e := e) p).frame
  have hkeep : ∀ x ∈ r.flatten, insertBefore h e p x = h x := fun x hx =>
    hframe x (by rintro hm; exact he (mem_singleton.1 hm ▸ hx))
  have hb' : Linked (insertBefore h e p) p r :=
    hb.congr (fun x hx => by rw [hkeep x hx]) (fun x hx => by rw [hkeep x hx])
  cases r with
  | nil =>
    obtain rfl : p = none := hb
    obtain ⟨hnext, hin⟩ := setLinks_self h e none none
    exact ⟨[[e]], ⟨rfl, hin, hnext⟩, rfl, fun pre ho hpre => ho.insert_new hpre (by simp)⟩
  | cons b r =>
    obtain ⟨c, cs, rfl, rfl⟩ := hb.eq_some
    by_cases hlt : (h e).lt (h c)
    · obtain ⟨hnext, hin⟩ := setLinks_self h e (some c) none
      rw [insertBefore, if_pos hlt] at hb' ⊢
      refine ⟨[e] :: (c :: cs) :: r, ⟨rfl, hin, ?_⟩, rfl, fun pre ho hpre => ?_⟩
      · simpa only [hnext] using hb'
      · have hec : (h e).key < (h c).key := (lt_iff _ _).1 hlt
        exact ho.insert_new hpre fun x hx => hec.trans_le (Binned.le_of_mem_behind ho hx)
    · -- the key of `e` is that of the first bin
      have hkey : (h e).key = (h c).key :=
        le_antisymm (hr c (by simp)) (not_lt.1 fun hk => hlt ((lt_iff _ _).2 hk))
      obtain ⟨hnext, hin⟩ := setLinks_self h e (h c).nextBin (some c)
      have hc := hkeep c (by simp)
      rw [insertBefore, if_neg hlt] at hb' hc ⊢
      refine ⟨(e :: c :: cs) :: r, ⟨rfl, ?_, ?_⟩, rfl, fun pre ho hpre => ?_⟩
      · exact ⟨hin, hb'.2.1⟩
      · have htail := hb'.2.2
        simp only [hc] at htail
        simpa only [hnext] using htail
      · refine ho.replace (by simp) fun x hx => ?_
        rcases mem_cons.1 hx with rfl | hx
        · exact ⟨c, by simp, hkey⟩
        · exact ⟨x, hx, rfl⟩

lemma insert_front_spec (hb : Linked h head bins) (ho : Binned h bins) (he : e ∉ bins.flatten)
    (hall : ∀ x ∈ bins.flatten, (h e).key ≤ (h x).key) :
    Represents (insertBefore h e head) (some e)
        (bins.flatten.orderedInsert (fun x y => (h x).key ≤ (h y).key) e) ∧
      Relinked (e :: bins.flatten) h (insertBefore h e head) := by
  obtain ⟨r', hr', hflat, hord⟩ := insertBefore_spec hb hall he
  have hrel := insertBefore_relinked (h := h) (e := e) head
  refine ⟨⟨r', hr', ?_, ?_⟩, hrel.mono (by simp)⟩
  · exact (hord [] ho (by simp)).congr fun x _ => hrel.key x
  · rw [hflat]
    exact (orderedInsert_eq_append (by simp) hall : _ = [] ++ _).symm

lemma insert_behind_spec
    (hb : Linked h (some hd) (pre ++ (prev :: us) :: r)) (ho : Binned h (pre ++ (prev :: us) :: r))
    (he : e ∉ (pre ++ (prev :: us) :: r).flatten) (hle : ¬ (h e).le (h hd))
    (hprev : (h prev).key < (h e).key) (hr : ∀ x ∈ r.flatten, (h e).key ≤ (h x).key) :
    ∃ h', (∀ fuel, findBin h e fuel hd (h hd).nextBin = .ok (prev, (h prev).nextBin) →
        insert fuel h (some hd) e = .ok (h', some hd)) ∧
      Represents h' (some hd) ((pre ++ (prev :: us) :: r).flatten.orderedInsert
        (fun x y => (h x).key ≤ (h y).key) e) ∧
      Relinked (e :: (pre ++ (prev :: us) :: r).flatten) h h' := by
  have hfront : ∀ x ∈ (pre ++ [prev :: us]).flatten, (h x).key < (h e).key := fun x hx =>
    lt_of_mem_front ho hprev hx
  obtain ⟨r', hr', hflat, hord⟩ := insertBefore_spec hb.behind hr fun hm => he (by simp [hm])
  have hord' := hord (pre ++ [prev :: us]) (append_cons .. ▸ ho) hfront
  rw [← append_cons] at hord'
  obtain ⟨hrep, hrel⟩ := Represents.setNextBin hb hord' (insertBefore_relinked (e := e) _)
    (fun x hx hm => (hfront e (mem_singleton.1 hm ▸ hx)).false) hr'
  refine ⟨_, fun fuel hfind => ?_, ?_, hrel.mono fun x hx => ?_⟩
  · rw [insert, if_neg hle, hfind]
    rfl
  · rwa [flatten_append_cons pre r, orderedInsert_eq_append hfront hr, ← hflat]
  · rw [flatten_append_cons pre r, mem_cons]
    rcases mem_append.1 hx with hx | hx
    · exact .inr (mem_append_left _ hx)
    · exact .inl (mem_singleton.1 hx)

/-- `insert` puts an event in front of all events of its key or a larger one. -/
lemma insert_spec (hl : Represents h head l) (he : e ∉ l) :
    ∃ h' head', (∀ fuel, l.length < fuel → insert fuel h head e = .ok (h', head')) ∧
      Represents h' head' (l.orderedInsert (fun x y => (h x).key ≤ (h y).key) e) ∧
      Relinked (e :: l) h h' := by
  obtain ⟨bins, hb, ho, rfl⟩ := hl
  rcases head with _ | hd
  · cases hb.eq_nil
    exact ⟨_, _, fun _ _ => rfl, insert_front_spec hb ho he (by simp)⟩
  obtain ⟨ts, bins, rfl, -, -⟩ := hb.eq_cons
  by_cases hle : (h e).le (h hd)
  · have hfirst : Binned h ([] ++ (hd :: ts) :: bins) := ho
    exact ⟨_, _, fun _ _ => by rw [insert, if_pos hle], insert_front_spec hb ho he fun x hx =>
      ((le_iff _ _).1 hle).trans (Binned.le_of_mem_behind hfirst hx)⟩
  · have hlt : (h hd).key < (h e).key := not_le.1 fun hk => hle ((le_iff _ _).2 hk)
    have hlen : bins.length < ((hd :: ts) :: bins).flatten.length := ho.length_le
    have hb' : Linked h (some hd) ([] ++ (hd :: ts) :: bins) := hb
    obtain ⟨pre, prev, us, r, hsplit, hfind, hprev, hr⟩ := findBin_spec hb' ho hlt
    rw [nil_append] at hsplit
    rw [hsplit] at hb ho he hlen ⊢
    obtain ⟨h', hins, hrep, hrel⟩ := insert_behind_spec hb ho he hle hprev hr
    exact ⟨h', some hd, fun fuel hfuel => hins fuel (hfind fuel (hlen.trans hfuel)), hrep, hrel⟩

/-! ### Removal -/

lemma removeItemLoop_spec {curr : EventId}
    (hc : Chain (fun x => (h x).nextInBin) (h curr).nextInBin ts) (he : e ∈ ts) :
    ∃ as c bs, curr :: ts = as ++ c :: e :: bs ∧ ∀ fuel, ts.length ≤ fuel →
      removeItemLoop h e fuel curr (h curr).nextInBin = .ok c := by
  induction ts generalizing curr with
  | nil => simp at he
  | cons t ts ih =>
    obtain ⟨hnext, hts⟩ := hc
    rcases eq_or_ne t e with rfl | hne
    · refine ⟨[], curr, ts, rfl, fun fuel hfuel => ?_⟩
      obtain ⟨fuel, rfl⟩ := Nat.exists_eq_add_of_le' (Nat.le_of_add_left_le hfuel)
      rw [hnext, removeItemLoop, if_pos rfl]
    · have hmem : e ∈ ts := (mem_cons.1 he).resolve_left hne.symm
      obtain ⟨as, c, bs, hsplit, hloop⟩ := ih hts hmem
      refine ⟨curr :: as, c, bs, by rw [hsplit]; rfl, fun fuel hfuel => ?_⟩
      obtain ⟨fuel, rfl⟩ := Nat.exists_eq_add_of_le' (Nat.le_of_add_left_le hfuel)
      rw [hnext, removeItemLoop]
      simpa [hne] using hloop fuel (by simpa using hfuel)

lemma mem_of_removeItemLoop {curr c : EventId} {fuel : ℕ}
    (hc : Chain (fun x => (h x).nextInBin) (h curr).nextInBin ts)
    (hok : removeItemLoop h e fuel curr (h curr).nextInBin = .ok c) : e ∈ ts := by
  induction fuel generalizing curr ts with
  | zero => cases hok
  | succ fuel ih =>
    cases ts with
    | nil =>
      have hnone : (h curr).nextInBin = none := hc
      simp [hnone, removeItemLoop] at hok
    | cons t ts =>
      obtain ⟨hnext, hts⟩ := hc
      rw [hnext, removeItemLoop] at hok
      split_ifs at hok with heq
      · exact Option.some.inj heq ▸ mem_cons_self
      · exact mem_cons_of_mem t (ih hts hok)

/-- The bins that are left when the first one loses some of its elements. -/
def consBin (b : List EventId) (r : List (List EventId)) : List (List EventId) :=
  if b = [] then r else b :: r

lemma consBin_cons (t : EventId) (ts : List EventId) (r : List (List EventId)) :
    consBin (t :: ts) r = (t :: ts) :: r := rfl

lemma flatten_consBin (b : List EventId) (r : List (List EventId)) :
    (consBin b r).flatten = b ++ r.flatten := by
  rw [consBin]
  split
  · simp_all
  · rfl

lemma Binned.consBin_filter {b : List EventId} (ho : Binned h (pre ++ b :: r)) (e : EventId) :
    Binned h (pre ++ consBin (b.filter (· ≠ e)) r) := by
  rw [consBin]
  split
  · exact Ordered.drop ho
  · rename_i hne
    exact Ordered.replace ho hne fun x hx => ⟨x, (mem_filter.1 hx).1, rfl⟩

lemma filter_ne_eq_self {l : List EventId} (he : e ∉ l) : l.filter (· ≠ e) = l := by
  rw [filter_eq_self]
  intro x hx
  exact decide_eq_true fun heq => he (heq ▸ hx)

lemma filter_ne_of_nodup {as bs : List EventId} {c : EventId}
    (hnd : (as ++ c :: e :: bs).Nodup) : (as ++ c :: e :: bs).filter (· ≠ e) = as ++ c :: bs := by
  rw [append_cons] at hnd ⊢
  obtain ⟨-, hebs, hpre⟩ := nodup_append.1 hnd
  have heas : e ∉ as ++ [c] := fun hm => hpre e hm e (by simp) rfl
  rw [filter_append, filter_ne_eq_self heas, filter_cons_of_neg (by simp),
    filter_ne_eq_self (nodup_cons.1 hebs).1]
  simp

lemma removeItem_spec {top : EventId}
    (hb : Linked h (some top) ((top :: ts) :: r)) (he : e ∈ top :: ts)
    (hnd : ((top :: ts) ++ r.flatten).Nodup) :
    ∃ h' p, (∀ fuel, ts.length ≤ fuel → removeItem fuel h e top = .ok (h', p)) ∧
      Linked h' p (consBin ((top :: ts).filter (· ≠ e)) r) ∧ Relinked (top :: ts) h h' := by
  obtain ⟨hbin, -, hdisj⟩ := nodup_append.1 hnd
  by_cases htop : e = top
  · subst htop
    have hts : (e :: ts).filter (· ≠ e) = ts := by
      simp only [ne_eq, filter_cons, not_true_eq_false, decide_false, Bool.false_eq_true, if_false]
      exact filter_ne_eq_self (nodup_cons.1 hbin).1
    rw [hts]
    cases ts with
    | nil =>
      have hnone : (h e).nextInBin = none := hb.2.1
      refine ⟨h, _, fun _ _ => ?_, hb.2.2, Relinked.refl _ h⟩
      rw [removeItem, if_pos rfl, hnone]
    | cons u us =>
      have hu : (h e).nextInBin = some u := hb.2.1.1
      refine ⟨_, some u, fun _ _ => by rw [removeItem, if_pos rfl, hu], ?_,
        (Relinked.refl _ h).setNextBin (by simp) _⟩
      refine Bins.pop hb (setNextBin_self _ _ _)
        (fun x _ => setNextBin_nextInBin _ _ _ x) fun x hx => ?_
      have hxu : x ≠ u := fun heq => hdisj u (by simp) x hx heq.symm
      rw [setNextBin_of_ne hxu]
      exact ⟨rfl, rfl⟩
  · have hmem : e ∈ ts := (mem_cons.1 he).resolve_left htop
    obtain ⟨as, c, bs, hsplit, hloop⟩ := removeItemLoop_spec hb.2.1 hmem
    have hc : c ∈ top :: ts := by rw [hsplit]; simp
    refine ⟨h.setNextInBin c (h e).nextInBin, some top, fun fuel hfuel => ?_, ?_,
      (Relinked.refl _ h).setNextInBin hc _⟩
    · rw [removeItem, if_neg htop, hloop fuel hfuel]
      rfl
    have hnd' : (as ++ c :: e :: bs).Nodup := hsplit ▸ hbin
    have hfil : (top :: ts).filter (· ≠ e) = as ++ c :: bs := by
      rw [hsplit, filter_ne_of_nodup hnd']
    -- the bin still starts with `top`
    obtain ⟨us, hus⟩ : ∃ us, as ++ c :: bs = top :: us := by
      cases as with
      | nil => exact ⟨bs, by simpa using (List.cons.inj hsplit).1.symm⟩
      | cons a as => exact ⟨as ++ c :: bs, by simpa using (List.cons.inj hsplit).1.symm⟩
    have hchain : Chain (fun x => (h x).nextInBin) (some top) (as ++ c :: e :: bs) :=
      hsplit ▸ ⟨rfl, hb.2.1⟩
    have hkeep : ∀ x, x ≠ c → (h.setNextInBin c (h e).nextInBin x).nextInBin = (h x).nextInBin :=
      fun x hx => by rw [setNextInBin_of_ne hx]
    rw [nodup_append, nodup_cons] at hnd'
    obtain ⟨-, ⟨hcbs, -⟩, hcas⟩ := hnd'
    have hunlink : Chain (fun x => (h.setNextInBin c (h e).nextInBin x).nextInBin) (some top)
        (as ++ c :: bs) :=
      hchain.unlink (setNextInBin_self _ _ _) (fun x hx => hkeep x (hcas x hx c (by simp)))
        fun x hx => hkeep x fun heq => hcbs (by simp [← heq, hx])
    rw [hus] at hunlink
    rw [hfil, hus, consBin_cons]
    refine ⟨rfl, hunlink.2, ?_⟩
    simp only [setNextInBin_nextBin]
    refine Bins.congr hb.2.2 (fun x _ => rfl) fun x hx => hkeep x ?_
    exact fun heq => hdisj c hc x hx heq.symm

lemma remove_of_queue (fuel : ℕ) (hq : (h e).queue = some this) :
    remove fuel this h (some hd) e =
      if (h hd).eq (h e) then removeItem fuel h e hd
      else (findBin h e fuel hd (h hd).nextBin).bind fun (prev, curr) =>
        match curr with
        | none => .error (.panic "event not found!")
        | some c =>
            if (h c).ne (h e) then .error (.panic "event not found!")
            else (removeItem fuel h e c).bind fun (h', top) =>
              .ok (h'.setNextBin prev top, some hd) := by
  simp only [remove, require, hq, beq_self_eq_true, if_true]
  rfl

lemma Binned.mem_first
    (ho : Binned h ((hd :: ts) :: bins)) (he : e ∈ ((hd :: ts) :: bins).flatten) :
    (e ∈ hd :: ts ∧ (h hd).key = (h e).key) ∨ (e ∈ bins.flatten ∧ (h hd).key < (h e).key) := by
  rw [flatten_cons, mem_append] at he
  rcases he with he | he
  · exact .inl ⟨he, ho.2.1 hd mem_cons_self e he⟩
  · exact .inr ⟨he, ho.2.2.1 hd mem_cons_self e he⟩

lemma remove_first_spec
    (hb : Linked h (some hd) ((hd :: ts) :: bins)) (ho : Binned h ((hd :: ts) :: bins))
    (hnd : ((hd :: ts) :: bins).flatten.Nodup) (he : e ∈ hd :: ts)
    (hkey : (h hd).key = (h e).key) (hq : (h e).queue = some this) :
    ∃ h' head', (∀ fuel, ts.length ≤ fuel → remove fuel this h (some hd) e = .ok (h', head')) ∧
      Represents h' head' (((hd :: ts) :: bins).flatten.filter (· ≠ e)) ∧
      Relinked ((hd :: ts) :: bins).flatten h h' := by
  obtain ⟨h', p, hrem, hlink, hrel⟩ := removeItem_spec hb he (by simpa using hnd)
  have hfirst : Binned h ([] ++ (hd :: ts) :: bins) := ho
  refine ⟨h', p, fun fuel hfuel => ?_, ⟨_, hlink, ?_, ?_⟩, hrel.mono (by simp)⟩
  · rw [remove_of_queue fuel hq, if_pos ((eq_iff _ _).2 hkey), hrem fuel hfuel]
  · exact (Binned.consBin_filter hfirst e).congr fun x _ => hrel.key x
  · rw [flatten_consBin, flatten_cons, filter_append,
      filter_ne_eq_self (notMem_flatten_of_nodup hnd he)]

lemma remove_behind_spec {c : EventId}
    {cs : List EventId} (hb : Linked h (some hd) (pre ++ (prev :: us) :: (c :: cs) :: r))
    (ho : Binned h (pre ++ (prev :: us) :: (c :: cs) :: r))
    (hnd : (pre ++ (prev :: us) :: (c :: cs) :: r).flatten.Nodup) (he : e ∈ c :: cs)
    (hkey : (h c).key = (h e).key) (hneq : ¬ (h hd).eq (h e))
    (hprev : (h prev).key < (h e).key) (hq : (h e).queue = some this) :
    ∃ h', (∀ fuel, cs.length ≤ fuel →
        findBin h e fuel hd (h hd).nextBin = .ok (prev, (h prev).nextBin) →
        remove fuel this h (some hd) e = .ok (h', some hd)) ∧
      Represents h' (some hd) ((pre ++ (prev :: us) :: (c :: cs) :: r).flatten.filter (· ≠ e)) ∧
      Relinked (pre ++ (prev :: us) :: (c :: cs) :: r).flatten h h' := by
  rw [flatten_append_cons pre ((c :: cs) :: r)] at hnd ⊢
  obtain ⟨-, hndr, hdisj⟩ := nodup_append.1 hnd
  have hfront : e ∉ (pre ++ [prev :: us]).flatten := fun hm =>
    (lt_of_mem_front ho hprev hm).false
  have hbr : Linked h (h prev).nextBin ((c :: cs) :: r) := hb.behind
  have hc : (h prev).nextBin = some c := hbr.1
  rw [hc] at hbr
  obtain ⟨h', p, hrem, hlink, hrel⟩ := removeItem_spec hbr he (by simpa using hndr)
  have hsub : c :: cs ⊆ ((c :: cs) :: r).flatten := subset_append_left _ _
  rw [append_cons] at ho
  have hord := Binned.consBin_filter ho e
  rw [← append_cons] at hord
  obtain ⟨hrep, hrel'⟩ := Represents.setNextBin hb hord hrel
    (fun x hx hm => hdisj x hx x (hsub hm) rfl) hlink
  refine ⟨_, fun fuel hfuel hfind => ?_, ?_, hrel'.mono ?_⟩
  · have hne : ¬ (h c).ne (h e) := fun hne => (ne_iff _ _).1 hne hkey
    rw [remove_of_queue fuel hq, if_neg hneq, hfind]
    simp [Except.bind, hc, hne, hrem fuel hfuel]
  · rwa [filter_append, filter_ne_eq_self hfront, flatten_cons, filter_append,
      filter_ne_eq_self (notMem_flatten_of_nodup hndr he), ← flatten_consBin]
  · exact append_subset.2 ⟨subset_append_left .., fun x hx => mem_append_right _ (hsub hx)⟩

lemma Binned.mem_behind
    (ho : Binned h (pre ++ (prev :: us) :: r)) (he : e ∈ (pre ++ (prev :: us) :: r).flatten)
    (hprev : (h prev).key < (h e).key) (hr : ∀ x ∈ r.flatten, (h e).key ≤ (h x).key)
    (hb : Linked h p r) :
    ∃ c cs r', r = (c :: cs) :: r' ∧ e ∈ c :: cs ∧ (h c).key = (h e).key := by
  rw [flatten_append_cons pre r] at he
  have her : e ∈ r.flatten := (mem_append.1 he).resolve_left fun hm =>
    (lt_of_mem_front ho hprev hm).false
  obtain ⟨b, r, rfl⟩ := exists_cons_of_ne_nil (fun hnil => by simp [hnil] at her : r ≠ [])
  obtain ⟨c, cs, rfl, -⟩ := hb.eq_some
  refine ⟨c, cs, r, rfl, ?_⟩
  rcases Binned.mem_first (ordered_append.1 ho).2.1.2.2.2 her with hfirst | ⟨-, hlt⟩
  · exact hfirst
  · exact absurd (hr c (by simp)) (not_le.2 hlt)

/-- `remove` takes a queued event out of the queue and does not panic. -/
lemma remove_spec (hl : Represents h head l)
    (hnd : l.Nodup) (he : e ∈ l) (hq : (h e).queue = some this) :
    ∃ h' head', (∀ fuel, l.length < fuel → remove fuel this h head e = .ok (h', head')) ∧
      Represents h' head' (l.filter (· ≠ e)) ∧ Relinked l h h' := by
  obtain ⟨bins, hb, ho, rfl⟩ := hl
  rcases head with _ | hd
  · exact absurd he (by simp [hb.eq_nil])
  obtain ⟨ts, bins, rfl, -, -⟩ := hb.eq_cons
  rcases Binned.mem_first ho he with ⟨hmem, hkey⟩ | ⟨-, hkey⟩
  · obtain ⟨h', head', hrem, hrep, hrel⟩ := remove_first_spec hb ho hnd hmem hkey hq
    refine ⟨h', head', fun fuel hfuel => hrem fuel ?_, hrep, hrel⟩
    rw [flatten_cons, length_append, length_cons] at hfuel
    omega
  · have hneq : ¬ (h hd).eq (h e) := fun heq => hkey.ne ((eq_iff _ _).1 heq)
    have hlen : bins.length < ((hd :: ts) :: bins).flatten.length := ho.length_le
    have hb' : Linked h (some hd) ([] ++ (hd :: ts) :: bins) := hb
    obtain ⟨pre, prev, us, r, hsplit, hfind, hprev, hr⟩ := findBin_spec hb' ho hkey
    rw [nil_append] at hsplit
    rw [hsplit] at hb ho he hnd hlen ⊢
    obtain ⟨c, cs, r, rfl, hmem, hkc⟩ := Binned.mem_behind ho he hprev hr hb.behind
    obtain ⟨h', hrem, hrep, hrel⟩ := remove_behind_spec hb ho hnd hmem hkc hneq hprev hq
    refine ⟨h', some hd, fun fuel hfuel => hrem fuel ?_ (hfind fuel (hlen.trans hfuel)), hrep, hrel⟩
    have hcs : cs.length ≤ (pre ++ (prev :: us) :: (c :: cs) :: r).flatten.length := by
      simp only [flatten_append, flatten_cons, length_append, length_cons]
      omega
    omega

section

variable {fuel : ℕ} {q : Heap × Option EventId}

lemma exists_bin_of_findBin {c prev' : EventId} (hb : Linked h p bins)
    (hok : findBin h e fuel prev p = .ok (prev', some c)) :
    ∃ cs, c :: cs ∈ bins ∧ Chain (fun x => (h x).nextInBin) (h c).nextInBin cs := by
  induction bins generalizing p prev fuel with
  | nil =>
    obtain rfl : p = none := hb
    cases fuel <;> cases hok
  | cons b bins ih =>
    obtain ⟨t, ts, rfl, rfl⟩ := hb.eq_some
    cases fuel with
    | zero => cases hok
    | succ fuel =>
      rw [findBin] at hok
      split_ifs at hok with hlt
      · obtain ⟨cs, hmem, hchain⟩ := ih hb.2.2 hok
        exact ⟨cs, mem_cons_of_mem _ hmem, hchain⟩
      · cases hok
        exact ⟨ts, mem_cons_self, hb.2.1⟩

lemma mem_of_removeItem {top : EventId}
    (hc : Chain (fun x => (h x).nextInBin) (h top).nextInBin ts)
    (hok : removeItem fuel h e top = .ok q) : e ∈ top :: ts := by
  rw [removeItem] at hok
  split_ifs at hok with htop
  · exact htop ▸ mem_cons_self
  · obtain ⟨c, hloop, -⟩ := bind_eq_ok.1 hok
    exact mem_cons_of_mem top (mem_of_removeItemLoop hc hloop)

/-- `remove` returns only if the event is in the queue. -/
lemma mem_of_remove (hl : Represents h head l) (hok : remove fuel this h head e = .ok q) :
    e ∈ l := by
  obtain ⟨bins, hb, -, rfl⟩ := hl
  rcases head with _ | hd
  · cases hok
  obtain ⟨ts, bins, rfl, hts, hbins⟩ := hb.eq_cons
  obtain ⟨-, -, hok⟩ := bind_eq_ok.1 hok
  split_ifs at hok
  · exact mem_append_left _ (mem_of_removeItem hts hok)
  · obtain ⟨⟨prev, _ | c⟩, hfind, hok⟩ := bind_eq_ok.1 hok
    · cases hok
    · obtain ⟨cs, hmem, hchain⟩ := exists_bin_of_findBin hbins hfind
      dsimp only at hok
      split_ifs at hok
      obtain ⟨_, hrem, -⟩ := bind_eq_ok.1 hok
      exact mem_append_right _ (mem_flatten.2 ⟨_, hmem, mem_of_removeItem hchain hrem⟩)

end

/-! ### Popping -/

/-- Taking the first event off a queue, as `serviceOne` does: the next event of its bin becomes
the first one and inherits its `nextBin`. -/
lemma Represents.pop (hl : Represents h (some hd) l) (hnd : l.Nodup) :
    ∃ l', l = hd :: l' ∧
      match (h hd).nextInBin with
      | some next => Represents (h.setNextBin next (h hd).nextBin) (some next) l' ∧
          Relinked l h (h.setNextBin next (h hd).nextBin)
      | none => Represents h (h hd).nextBin l' := by
  obtain ⟨bins, hb, ho, rfl⟩ := hl
  obtain ⟨ts, bins, rfl, hts, hbins⟩ := hb.eq_cons
  have ho' : Binned h ([] ++ (hd :: ts) :: bins) := ho
  refine ⟨ts ++ bins.flatten, rfl, ?_⟩
  cases ts with
  | nil =>
    have hnone : (h hd).nextInBin = none := hts
    rw [hnone]
    exact ⟨bins, hbins, ho'.drop, rfl⟩
  | cons u us =>
    have hu : (h hd).nextInBin = some u := hts.1
    rw [hu]
    have hrel : Relinked ((hd :: u :: us) :: bins).flatten h (h.setNextBin u (h hd).nextBin) :=
      (Relinked.refl _ h).setNextBin (by simp) _
    refine ⟨⟨(u :: us) :: bins, ?_, ?_, rfl⟩, hrel⟩
    · refine Bins.pop hb (setNextBin_self _ _ _)
        (fun x _ => setNextBin_nextInBin _ _ _ x) fun x hx => ?_
      have hxu : x ≠ u := fun heq => notMem_flatten_of_nodup hnd (by simp [heq]) hx
      rw [setNextBin_of_ne hxu]
      exact ⟨rfl, rfl⟩
    · have hord := ho'.replace (cons_ne_nil u us) fun x hx => ⟨x, by simp [hx], rfl⟩
      exact hord.congr fun x _ => hrel.key x

end ChipletGem5.EventQueue
