import ChipletGem5.Lib.Exec
import ChipletGem5.Lib.Result

/-!
# Lines that share channels

Components that keep a state for each of many lines, and that exchange messages over channels.
What a component does with a message touches the line of the message only.  The channels however
carry the messages of all lines, so that a message waits for those of other lines before it.

Such a `System` is a product of `Line`s, each with channels of its own: a step of the system is
a step of one line.  A property that every step of a line keeps thus holds of every line, after
every execution of the system.
-/

namespace ChipletGem5.Lines

open Function List

variable {A L κ μ β ε τ : Type}

/-- What becomes of a message that a component has looked at. -/
inductive Fate where
  /-- The message is consumed. -/
  | pop
  /-- The message stays where it is. -/
  | keep
  /-- The message is queued again, behind some of those that follow. -/
  | recycle
deriving DecidableEq, Repr

/-- The result of a handler: the state of the line, the fate of the message, messages to send. -/
structure Outcome (L κ μ : Type) where
  next : L
  fate : Fate
  sends : List (κ × μ)

/-- The handlers of a system with local states `L`, channels `κ`, messages `μ` and spontaneous
actions `β`. -/
structure Program (L κ μ β ε : Type) where
  /-- What the receiver at the end of a channel does with a message. -/
  handle : κ → μ → L → Except ε (Outcome L κ μ)
  /-- What a component does on its own. -/
  act : β → L → Except ε (Outcome L κ μ)
  /-- Whether the messages of a channel may overtake one another. -/
  unordered : κ → Bool

/-- A step: the delivery of the message at a position of a channel, with the number of messages
that go before it if it is recycled, or a spontaneous action. -/
inductive Move (κ β : Type) where
  | deliver (k : κ) (i pos : ℕ)
  | act (b : β)
deriving DecidableEq, Repr

def send [DecidableEq κ] (ch : κ → List τ) (p : κ × τ) : κ → List τ :=
  update ch p.1 (ch p.1 ++ [p.2])

def sendAll [DecidableEq κ] (ch : κ → List τ) (ps : List (κ × τ)) : κ → List τ := ps.foldl send ch

@[simp] lemma sendAll_nil [DecidableEq κ] (ch : κ → List τ) : sendAll ch [] = ch := rfl

@[simp] lemma sendAll_cons [DecidableEq κ] (ch : κ → List τ) (p : κ × τ) (ps : List (κ × τ)) :
    sendAll ch (p :: ps) = sendAll (send ch p) ps := rfl

lemma sendAll_of_forall_ne [DecidableEq κ] {ch : κ → List τ} {ps : List (κ × τ)} {k : κ}
    (h : ∀ p ∈ ps, k ≠ p.1) : sendAll ch ps k = ch k := by
  induction ps generalizing ch with
  | nil => rfl
  | cons p ps ih =>
    obtain ⟨hp, hps⟩ := forall_mem_cons.1 h
    rw [sendAll_cons, ih hps, send, update_of_ne hp]

/-- A channel after one of its messages was looked at. -/
def settle (fate : Fate) (pos : ℕ) (l₁ : List τ) (m : τ) (l₂ : List τ) : List τ :=
  match fate with
  | .pop => l₁ ++ l₂
  | .keep => l₁ ++ m :: l₂
  | .recycle => l₁ ++ (l₂.take pos ++ m :: l₂.drop pos)

/-- Channels after the message at a position of one of them was looked at. -/
def settleAt [DecidableEq κ] (ch : κ → List τ) (k : κ) (i pos : ℕ) (m : τ) (fate : Fate) :
    κ → List τ :=
  update ch k (settle fate pos ((ch k).take i) m ((ch k).drop (i + 1)))

/-! ### A single line -/

/-- A line, with channels of its own. -/
structure Line (L κ μ : Type) where
  loc : L
  chan : κ → List μ

namespace Line

variable [DecidableEq κ]

/-- The line after a handler, with the channels that it sends to. -/
def finish (ch : κ → List μ) (o : Outcome L κ μ) : Line L κ μ := ⟨o.next, sendAll ch o.sends⟩

/-- A message may be taken if it is the first of its channel, or the channel is unordered. -/
def step (P : Program L κ μ β ε) (s : Line L κ μ) : Move κ β → Except ε (Line L κ μ)
  | .deliver k i pos =>
      if i = 0 ∨ P.unordered k then
        match (s.chan k)[i]? with
        | some m => (fun o => finish (settleAt s.chan k i pos m o.fate) o) <$> P.handle k m s.loc
        | none => .ok s
      else .ok s
  | .act b => finish s.chan <$> P.act b s.loc

/-- The first message of a channel is consumed. -/
lemma step_deliver {P : Program L κ μ β ε} {s : Line L κ μ} {k : κ} {m : μ} {ms : List μ} {pos : ℕ}
    {o : Outcome L κ μ} (hk : s.chan k = m :: ms) (ho : P.handle k m s.loc = .ok o)
    (hpop : o.fate = .pop) :
    s.step P (.deliver k 0 pos) = .ok ⟨o.next, sendAll (update s.chan k ms) o.sends⟩ := by
  simp [step, finish, settleAt, settle, hk, ho, hpop]

end Line

/-! ### Many lines -/

/-- Lines over common channels. -/
structure System (A L κ μ : Type) where
  loc : A → L
  chan : κ → List (A × μ)

section Project

variable [DecidableEq A]

/-- The messages of a line in a channel. -/
def project (a : A) (l : List (A × μ)) : List μ :=
  l.filterMap fun p => if p.1 = a then some p.2 else none

@[simp] lemma project_nil (a : A) : project a ([] : List (A × μ)) = [] := rfl

@[simp] lemma project_append (a : A) (l l' : List (A × μ)) :
    project a (l ++ l') = project a l ++ project a l' :=
  filterMap_append

@[simp] lemma project_cons_self (a : A) (m : μ) (l : List (A × μ)) :
    project a ((a, m) :: l) = m :: project a l := by
  simp [project]

variable {a b : A} {mv : Move κ (A × β)}

lemma project_cons_of_ne (h : b ≠ a) (m : μ) (l : List (A × μ)) :
    project a ((b, m) :: l) = project a l := by
  simp [project, h]

lemma project_eq_of_getElem? {m : μ} {l : List (A × μ)} {i : ℕ} (h : l[i]? = some (a, m)) :
    project a l = project a (l.take i) ++ m :: project a (l.drop (i + 1)) := by
  obtain ⟨hlt, hm⟩ := List.getElem?_eq_some_iff.1 h
  conv_lhs => rw [← take_append_drop i l, drop_eq_getElem_cons hlt, hm]
  rw [project_append, project_cons_self]

lemma project_settle_self (fate : Fate) (pos : ℕ) (l1 : List (A × μ)) (a : A) (m : μ)
    (l2 : List (A × μ)) :
    project a (settle fate pos l1 (a, m) l2) =
      settle fate (project a (l2.take pos)).length (project a l1) m (project a l2) := by
  cases fate with
  | pop | keep => simp [settle]
  | recycle =>
    have h : project a l2 = project a (l2.take pos) ++ project a (l2.drop pos) := by
      rw [← project_append, take_append_drop]
    simp [settle, h]

lemma project_settle_of_ne (h : b ≠ a) (fate : Fate) (pos : ℕ) (l1 : List (A × μ))
    (m : μ) (l2 : List (A × μ)) :
    project a (settle fate pos l1 (b, m) l2) = project a (l1 ++ l2) := by
  cases fate with
  | pop => rfl
  | keep => simp [settle, project_cons_of_ne h]
  | recycle =>
    simp only [settle, project_append, project_cons_of_ne h]
    rw [← project_append, take_append_drop]

end Project

namespace System

variable [DecidableEq A] [DecidableEq κ] {P : Program L κ μ β ε} {s s' : System A L κ μ} {a b : A}

/-- The state of a line and its messages in the channels. -/
def line (s : System A L κ μ) (a : A) : Line L κ μ := ⟨s.loc a, fun k => project a (s.chan k)⟩

/-- The messages that a handler sends belong to the line of the message that it handled. -/
def finish (s : System A L κ μ) (a : A) (ch : κ → List (A × μ)) (o : Outcome L κ μ) :
    System A L κ μ :=
  ⟨update s.loc a o.next, sendAll ch (o.sends.map fun p => (p.1, a, p.2))⟩

def step (P : Program L κ μ β ε) (s : System A L κ μ) :
    Move κ (A × β) → Except ε (System A L κ μ)
  | .deliver k i pos =>
      if i = 0 ∨ P.unordered k then
        match (s.chan k)[i]? with
        | some (a, m) =>
            (fun o => s.finish a (settleAt s.chan k i pos (a, m) o.fate) o) <$>
              P.handle k m (s.loc a)
        | none => .ok s
      else .ok s
  | .act (a, b) => s.finish a s.chan <$> P.act b (s.loc a)

/-- The line that a step is about, and the step as one of that line. -/
def target (P : Program L κ μ β ε) (s : System A L κ μ) : Move κ (A × β) → Option (A × Move κ β)
  | .deliver k i pos =>
      if i = 0 ∨ P.unordered k then
        (s.chan k)[i]?.map fun p =>
          (p.1, .deliver k (project p.1 ((s.chan k).take i)).length
            (project p.1 (((s.chan k).drop (i + 1)).take pos)).length)
      else none
  | .act (a, b) => some (a, .act b)

/-- Each step is one that the condition allows on its line. -/
def Allowed (P : Program L κ μ β ε) (ok : Line L κ μ → Move κ β → Prop) (s : System A L κ μ)
    (mv : Move κ (A × β)) : Prop :=
  ∀ a b, s.target P mv = some (a, b) → ok (s.line a) b

instance {ok : Line L κ μ → Move κ β → Prop} [∀ l b, Decidable (ok l b)]
    (mv : Move κ (A × β)) : Decidable (Allowed P ok s mv) :=
  match h : s.target P mv with
  | none => isTrue fun a b hab => by cases h.symm.trans hab
  | some (a, b) => decidable_of_iff (ok (s.line a) b)
      ⟨fun hok a' b' hab => by cases h.symm.trans hab; exact hok, fun hok => hok a b h⟩

lemma project_sendAll_self (ch : κ → List (A × μ)) (a : A) (ps : List (κ × μ)) (k : κ) :
    project a (sendAll ch (ps.map fun p => (p.1, a, p.2)) k) =
      sendAll (fun k => project a (ch k)) ps k := by
  induction ps generalizing ch with
  | nil => rfl
  | cons p ps ih =>
    have hsend : (fun k => project a (send ch (p.1, a, p.2) k)) =
        send (fun k => project a (ch k)) p := by
      ext k'
      by_cases hk : k' = p.1
      · subst hk
        simp [send]
      · simp [send, hk]
    rw [map_cons, sendAll_cons, sendAll_cons, ih, hsend]

lemma project_sendAll_of_ne (h : b ≠ a) (ch : κ → List (A × μ)) (ps : List (κ × μ))
    (k : κ) : project a (sendAll ch (ps.map fun p => (p.1, b, p.2)) k) = project a (ch k) := by
  induction ps generalizing ch with
  | nil => rfl
  | cons p ps ih =>
    rw [map_cons, sendAll_cons, ih]
    by_cases hk : k = p.1
    · subst hk
      simp [send, project_cons_of_ne h]
    · simp [send, hk]

lemma line_finish {ch : κ → List (A × μ)}
    (hch : ∀ b ≠ a, ∀ k, project b (ch k) = project b (s.chan k)) (o : Outcome L κ μ) :
    (s.finish a ch o).line = update s.line a (.finish (fun k => project a (ch k)) o) := by
  funext b
  rcases eq_or_ne b a with rfl | hb
  · rw [update_self, line, finish]
    congr 1
    · exact update_self ..
    · funext k
      exact project_sendAll_self ..
  · rw [update_of_ne hb, line, finish]
    congr 1
    · exact update_of_ne hb ..
    · funext k
      exact (project_sendAll_of_ne hb.symm ..).trans (hch b hb k)

section

variable {ch : κ → List (A × μ)} {k : κ} {i pos : ℕ} {m : μ} {fate : Fate}
  (h : (ch k)[i]? = some (a, m))
include h

/-- The channel of a line splits where its message stands. -/
lemma project_settleAt_self : (fun k' => project a (settleAt ch k i pos (a, m) fate k')) =
    settleAt (fun k => project a (ch k)) k (project a ((ch k).take i)).length
      (project a (((ch k).drop (i + 1)).take pos)).length m fate := by
  funext k'
  by_cases hk : k' = k
  · subst hk
    simp [settleAt, project_settle_self, project_eq_of_getElem? h]
  · simp [settleAt, hk]

lemma project_settleAt_of_ne (hb : b ≠ a) (k' : κ) :
    project b (settleAt ch k i pos (a, m) fate k') = project b (ch k') := by
  by_cases hk : k' = k
  · subst hk
    obtain ⟨hlt, hm⟩ := List.getElem?_eq_some_iff.1 h
    rw [settleAt, update_self, project_settle_of_ne hb.symm]
    conv_rhs => rw [← take_append_drop i (ch k'), drop_eq_getElem_cons hlt, hm]
    simp only [project_append, project_cons_of_ne hb.symm]
  · rw [settleAt, update_of_ne hk]

end

lemma step_of_target_eq_none (h : s.target P mv = none) : s.step P mv = .ok s := by
  cases mv with
  | act b => cases h
  | deliver k i pos =>
    simp only [target, step] at h ⊢
    split_ifs at h ⊢ with hi
    · rw [Option.map_eq_none_iff.1 h]
    · rfl

/-- A step of the system is a step of one line, and fails if that does. -/
theorem step_of_target {b : Move κ β} (h : s.target P mv = some (a, b)) :
    (∃ e, (s.line a).step P b = .error e ∧ s.step P mv = .error e) ∨
      ∃ l s', (s.line a).step P b = .ok l ∧ s.step P mv = .ok s' ∧
        s'.line = update s.line a l := by
  cases mv with
  | act c =>
    obtain ⟨a', b'⟩ := c
    obtain ⟨rfl, rfl⟩ := Prod.mk.inj (Option.some.inj h)
    have hloc : (s.line a').loc = s.loc a' := rfl
    rw [step, Line.step, hloc]
    rcases P.act b' (s.loc a') with e | o
    · exact .inl ⟨e, rfl, rfl⟩
    · exact .inr ⟨_, _, rfl, rfl, line_finish (fun _ _ _ => rfl) o⟩
  | deliver k i pos =>
    simp only [target] at h
    split_ifs at h with hi
    obtain ⟨⟨a', m⟩, hm, heq⟩ := Option.map_eq_some_iff.1 h
    cases heq
    have hloc : (s.line a').loc = s.loc a' := rfl
    -- the first message of the channel is also the first of its line
    have hi' : (project a' ((s.chan k).take i)).length = 0 ∨ P.unordered k := by
      rcases hi with rfl | hi
      · exact .inl rfl
      · exact .inr hi
    have hm' : ((s.line a').chan k)[(project a' ((s.chan k).take i)).length]? = some m := by
      simp [line, project_eq_of_getElem? hm]
    rw [step, Line.step, if_pos hi, if_pos hi', hm, hm']
    simp only [hloc]
    rcases P.handle k m (s.loc a') with e | o
    · exact .inl ⟨e, rfl, rfl⟩
    · refine .inr ⟨_, _, rfl, rfl, ?_⟩
      rw [line_finish fun _ hb => project_settleAt_of_ne hm hb, project_settleAt_self hm]
      rfl

/-- If the steps of the lines that are allowed return and keep a property, so do the steps of the
system. -/
lemma step_ok (ok : Line L κ μ → Move κ β → Prop) {I : A → Line L κ μ → Prop}
    (hstep : ∀ {a l b}, I a l → ok l b → ∃ l', l.step P b = .ok l' ∧ I a l')
    (hs : ∀ a, I a (s.line a)) (hmv : Allowed P ok s mv) :
    ∃ s', s.step P mv = .ok s' ∧ ∀ a, I a (s'.line a) := by
  rcases htarget : s.target P mv with _ | ⟨a, b⟩
  · exact ⟨s, step_of_target_eq_none htarget, hs⟩
  · obtain ⟨l, hl, hi⟩ := hstep (hs a) (hmv a b htarget)
    rcases step_of_target htarget with ⟨e, he, -⟩ | ⟨l', s', hl', hs', hline⟩
    · cases hl.symm.trans he
    · cases hl.symm.trans hl'
      refine ⟨s', hs', fun x => ?_⟩
      rw [hline]
      rcases eq_or_ne x a with rfl | hx
      · rwa [update_self]
      · rw [update_of_ne hx]
        exact hs x

/-- A step of the system leaves a line alone, or is a step of that line. -/
lemma step_line (h : s.step P mv = .ok s') (a : A) :
    s'.line a = s.line a ∨
      ∃ b, s.target P mv = some (a, b) ∧ (s.line a).step P b = .ok (s'.line a) := by
  rcases htarget : s.target P mv with _ | ⟨a', b⟩
  · rw [← Except.ok.inj ((step_of_target_eq_none htarget).symm.trans h)]
    exact .inl rfl
  · rcases step_of_target htarget with ⟨e, -, he⟩ | ⟨l, s'', hl, hs'', hline⟩
    · cases he.symm.trans h
    · cases hs''.symm.trans h
      rw [hline]
      rcases eq_or_ne a a' with rfl | hne
      · rw [update_self]
        exact .inr ⟨b, rfl, hl⟩
      · rw [update_of_ne hne]
        exact .inl rfl

/-- What every step of a line keeps holds of every line, after every execution whose steps are
allowed. -/
theorem line_invariant (ok : Line L κ μ → Move κ β → Prop) {I : A → Line L κ μ → Prop}
    {G : System A L κ μ → Move κ (A × β) → Prop} {s0 : System A L κ μ}
    {mvs : List (Move κ (A × β))} (h : Exec (Guarded G (step P)) s0 mvs s)
    (hG : ∀ {s mv}, G s mv → Allowed P ok s mv) (hinit : ∀ a, I a (s0.line a))
    (hstep : ∀ {a l b l'}, I a l → ok l b → l.step P b = .ok l' → I a l') (a : A) :
    I a (s.line a) := by
  refine h.invariant_state (I := fun s => ∀ a, I a (s.line a)) hinit ?_ a
  intro s mv s' hs hmv x
  rcases step_line hmv.2 x with heq | ⟨b, htarget, hb⟩
  · rw [heq]
    exact hs x
  · exact hstep (hs x) (hG hmv.1 _ _ htarget) hb

end System

end ChipletGem5.Lines
