import ChipletGem5.Sim.Mailbox

/-!
# A mailbox with one receiver is a first-in first-out channel

When all receives of a process use one id `r` of a single digit, the mailbox of `r` behaves as
a channel of `int` values.  The read position is the end of the part already consumed, and a receive
delivers the first message behind it that is addressed to `r`; messages for other targets whose file
name is the same are passed over.  `run_refines_channel` is the simulation.
-/

namespace ChipletGem5.Mailbox

open TextStream Message List

/-! ### The channel -/

/-- What a mailbox is for: the values delivered so far and those still waiting. -/
structure Channel where
  /-- The values delivered, in the order of delivery. -/
  delivered : List (BitVec 64)
  /-- The values sent and not delivered yet. -/
  waiting : List (BitVec 64)
deriving DecidableEq

namespace Channel

def send (q : Channel) (v : BitVec 64) : Channel := ⟨q.delivered, q.waiting ++ [v]⟩

/-- Deliver the first waiting value, if there is one. -/
def poll (q : Channel) : Channel :=
  match q.waiting with
  | [] => q
  | v :: vs => ⟨q.delivered ++ [v], vs⟩

/-- Everything that was ever sent. -/
def history (q : Channel) : List (BitVec 64) := q.delivered ++ q.waiting

@[simp] lemma history_send (q : Channel) (v : BitVec 64) :
    (q.send v).history = q.history ++ [v] := by
  simp [history, send]

@[simp] lemma history_poll (q : Channel) : q.poll.history = q.history := by
  unfold poll
  split
  · rfl
  · rename_i v vs hw
    simp [history, hw]

end Channel

/-- The value that a step sends to `r`, as the sign-extended `int`. -/
def Step.sent? (r : ℤ) : Step → Option (BitVec 64)
  | .call _ _ targetCoreNum data init =>
      if init = 0 ∧ toInt targetCoreNum = r then some (BitVec.ofInt 64 (toInt data)) else none
  | .receive _ => none

/-- The values sent to `r`, in sending order. -/
def sentTo (r : ℤ) (steps : List Step) : List (BitVec 64) := steps.filterMap (Step.sent? r)

/-- The effect of a step on the channel of `r`. -/
def Channel.step (r : ℤ) (q : Channel) : Step → Channel
  | .receive _ => q.poll
  | st => match st.sent? r with
    | some v => q.send v
    | none => q

/-- The channel of `r` after a run. -/
def Channel.run (r : ℤ) (q : Channel) (steps : List Step) : Channel := steps.foldl (step r) q

/-- The channel before the first call. -/
def Channel.empty : Channel := ⟨[], []⟩

lemma Channel.history_run (r : ℤ) (q : Channel) (steps : List Step) :
    (q.run r steps).history = q.history ++ sentTo r steps := by
  induction steps generalizing q with
  | nil => simp [run, sentTo]
  | cons st steps ih =>
    have hstep : (q.step r st).history = q.history ++ (st.sent? r).toList := by
      cases st with
      | call tick src t d init =>
        simp only [step]
        cases Step.sent? r (.call tick src t d init) with
        | none | some _ => simp
      | receive id => simp [step, Step.sent?]
    change ((q.step r st).run r steps).history = _
    rw [ih, hstep, append_assoc]
    congr 1
    simp only [sentTo, filterMap_cons]
    cases st.sent? r <;> rfl

/-- The receives all use the id `r`, and no call is an initialisation. -/
def SingleReceiver (r : ℤ) (steps : List Step) : Prop :=
  ∀ st ∈ steps, match st with
    | .call _ _ _ _ init => init = 0
    | .receive id => toInt id = r

/-- The values returned by the receives that found a line. -/
def matched (log : List (ℤ × Outcome)) : List (BitVec 64) :=
  log.filterMap fun p => match p.2 with
    | .found c => some (BitVec.ofInt 64 c)
    | _ => none

/-! ### Reading a line back -/

/-- The fields of a message are in the range of their types. -/
structure Message.InRange (m : Message) : Prop where
  time_lt : m.time < 2 ^ 64
  a_ge : intMin ≤ m.a
  a_le : m.a ≤ intMax
  b_ge : intMin ≤ m.b
  b_le : m.b ≤ intMax
  c_ge : intMin ≤ m.c
  c_le : m.c ≤ intMax

lemma toInt_ge (x : BitVec 64) : intMin ≤ toInt x := by
  have h := BitVec.le_toInt (x.setWidth 32)
  simpa [toInt, intMin] using h

lemma toInt_le (x : BitVec 64) : toInt x ≤ intMax := by
  have h := BitVec.toInt_lt (x := x.setWidth 32)
  simp only [toInt, intMax]
  omega

def callMessage (tick srcCore targetCoreNum data : BitVec 64) : Message :=
  ⟨tick.toNat, toInt srcCore, toInt targetCoreNum, toInt data⟩

variable {m : Message} {t : ℤ}

lemma parseLine_line (hm : m.InRange) : parseLine m.line = some m := by
  have hspace : ∀ (cs : List Char), ∀ c ∈ (' ' :: cs).head?, c.isDigit = false := by
    intro cs c hc
    obtain rfl : ' ' = c := by simpa using hc
    decide
  have hend : ∀ c ∈ ([] : List Char).head?, c.isDigit = false := by simp
  have h1 := readUnsigned_putNat hm.time_lt
    (hspace (putInt m.a ++ ' ' :: (putInt m.b ++ ' ' :: putInt m.c)))
  have h2 := readSigned_putInt hm.a_ge hm.a_le (hspace (putInt m.b ++ ' ' :: putInt m.c))
  have h3 := readSigned_putInt hm.b_ge hm.b_le (hspace (putInt m.c))
  have h4 := readSigned_putInt hm.c_ge hm.c_le hend
  rw [append_nil] at h4
  simp only [isEmpty_cons, IStream.ofText] at h1 h2 h3 h4
  simp only [parseLine, line, IStream.ofText, h1, h2, h3, h4]

lemma newline_notMem_line (m : Message) : '\n' ∉ m.line := by
  have hint : ∀ z : ℤ, '\n' ∉ putInt z := fun z hz => ne_newline_of_mem_putInt hz rfl
  have hnat : '\n' ∉ putNat m.time := fun hz =>
    absurd (isDigit_of_mem_putNat hz) (by decide)
  simp [line, hint, hnat]

/-! ### File names -/

lemma cStr_append_singleton {s : List Char} (hs : ∀ c ∈ s, (c != '\x00')) (x : Char) :
    cStr (s ++ [x]) = s ++ if x = '\x00' then [] else [x] := by
  unfold cStr
  rw [takeWhile_append_of_pos hs]
  by_cases hx : x = '\x00' <;> simp [hx]

variable {r : ℤ} {s : Host} {past ahead : List Message}

section

variable (hr : 0 ≤ r ∧ r ≤ 9) (h : mailboxPath t = mailboxPath r)
include hr h

lemma emod_eq_of_mailboxPath_eq : (t - r) % 256 = 0 := by
  have hbase : ∀ c ∈ "communication".toList, (c != '\x00') := by simp
  have hofNat : ∀ n < 256, (Char.ofNat n).toNat = n := by
    intro n hn
    have hv : n.isValidChar := Or.inl (by omega)
    rw [Char.ofNat, dif_pos hv]
    rfl
  have hrn : Char.ofNat ((r + 48) % 256).toNat ≠ '\x00' := by
    intro h0
    have h1 := congrArg Char.toNat h0
    rw [hofNat _ (by omega), show '\x00'.toNat = 0 from rfl] at h1
    omega
  unfold mailboxPath fileName at h
  rw [cStr_append_singleton hbase, cStr_append_singleton hbase, if_neg hrn] at h
  have h' := append_cancel_left h
  split at h'
  · simp at h'
  · have h1 := congrArg Char.toNat (List.cons.inj h').1
    rw [hofNat _ (by omega), hofNat _ (by omega)] at h1
    omega

lemma ne_neg_one_of_mailboxPath_eq : t ≠ -1 := by
  have := emod_eq_of_mailboxPath_eq hr h
  omega

lemma getLast?_mailboxPath_ne_slash : (mailboxPath t).getLast? ≠ some '/' := by
  rw [h]
  obtain ⟨hr0, hr9⟩ := hr
  interval_cases r <;> decide

end

/-! ### The representation -/

/-- The mailbox of `r` holds the messages `past` in front of the read position and the
messages `ahead` behind it. -/
structure Holds (r : ℤ) (s : Host) (past ahead : List Message) : Prop where
  file : s.files (mailboxPath r) = some (unlines ((past ++ ahead).map Message.line)) ∨
    (past ++ ahead = [] ∧ s.files (mailboxPath r) = none)
  position : s.gadiaLastPosition = ((unlines (past.map Message.line)).length : ℤ)
  messages : ∀ m ∈ past ++ ahead, m.InRange ∧ mailboxPath m.b = mailboxPath r

lemma Fresh.holds (hs : Fresh s) (r : ℤ) : Holds r s [] [] := by
  refine ⟨?_, by simpa using hs.position_zero, by simp⟩
  rcases hs.files_empty (mailboxPath r) with h | h
  · exact Or.inr ⟨rfl, h⟩
  · exact Or.inl (by simpa using h)

/-- The values of the messages addressed to `r`. -/
def valuesFor (r : ℤ) (ms : List Message) : List (BitVec 64) :=
  (ms.filter fun m => m.b == r).map fun m => BitVec.ofInt 64 m.c

@[simp] lemma valuesFor_nil (r : ℤ) : valuesFor r [] = [] := rfl

@[simp] lemma valuesFor_append (r : ℤ) (ms ms' : List Message) :
    valuesFor r (ms ++ ms') = valuesFor r ms ++ valuesFor r ms' := by
  simp [valuesFor]

lemma valuesFor_eq_nil {ms : List Message} (h : ∀ m ∈ ms, m.b ≠ r) : valuesFor r ms = [] := by
  simpa [valuesFor] using h

lemma valuesFor_cons_self (h : m.b = r) (ms : List Message) :
    valuesFor r (m :: ms) = BitVec.ofInt 64 m.c :: valuesFor r ms := by
  simp [valuesFor, h]

/-- The channel that a mailbox represents. -/
def channelOf (r : ℤ) (past ahead : List Message) : Channel :=
  ⟨valuesFor r past, valuesFor r ahead⟩

/-! ### One receive -/

lemma accepts_iff (hr : 0 ≤ r ∧ r ≤ 9) (hm : mailboxPath m.b = mailboxPath r) :
    accepts r m ↔ m.b = r := by
  have hne := ne_neg_one_of_mailboxPath_eq hr hm
  simp only [accepts, Bool.or_eq_true, beq_iff_eq, Bool.and_eq_true]
  constructor
  · rintro (h | ⟨h, -⟩)
    · exact h.symm
    · exact absurd h.symm hne
  · intro h
    exact Or.inl h.symm

lemma Holds.linesFrom_eq (h : Holds r s past ahead) :
    linesFrom s.gadiaLastPosition (unlines ((past ++ ahead).map line))
      = lineEnds (unlines (past.map line)).length (ahead.map line) := by
  have hnl : ∀ l ∈ ahead.map line, '\n' ∉ l := by
    intro l hl
    obtain ⟨m, -, rfl⟩ := mem_map.1 hl
    exact newline_notMem_line m
  rw [linesFrom, if_neg (by rw [h.position]; omega), h.position, Int.toNat_natCast,
    map_append, unlines_append, drop_left, getlines_unlines hnl]

lemma receiveLoop_skip {skip : List Message} (hr : ∀ m ∈ skip, m.InRange)
    (hskip : ∀ m ∈ skip, accepts r m = false) (pos : ℕ) (ls : List (List Char)) :
    receiveLoop r (lineEnds pos (skip.map line ++ ls))
      = receiveLoop r (lineEnds (pos + (unlines (skip.map line)).length) ls) := by
  induction skip generalizing pos with
  | nil => simp
  | cons m skip ih =>
    simp only [map_cons, cons_append, lineEnds, receiveLoop,
      parseLine_line (hr m (by simp)), hskip m (by simp)]
    rw [if_neg (by simp), ih (fun x hx => hr x (by simp [hx])) (fun x hx => hskip x (by simp [hx]))]
    congr 2
    simp only [unlines_cons, length_append, length_cons]
    omega

/-- The two ways in which a receive of `r` can end: the first message ahead that is addressed
to `r` is delivered, or there is none and nothing changes. -/
lemma Holds.receive (hr : 0 ≤ r ∧ r ≤ 9) (h : Holds r s past ahead)
    {id : BitVec 64} (hid : toInt id = r) :
    (∃ skip m rest s', ahead = skip ++ m :: rest ∧ (∀ x ∈ skip, x.b ≠ r) ∧ m.b = r ∧
      gadiaReceive s id = some (s', .found m.c) ∧ Holds r s' (past ++ skip ++ [m]) rest) ∨
    ((∀ x ∈ ahead, x.b ≠ r) ∧
      ∃ o, gadiaReceive s id = some (s, o) ∧ (o = .noFile ∨ o = .noMatch)) := by
  have hacc : ∀ x ∈ past ++ ahead, accepts r x ↔ x.b = r := fun x hx =>
    accepts_iff hr (h.messages x hx).2
  rcases h.file with hfile | ⟨hnil, hfile⟩
  · -- the file is there: its lines are those of the messages ahead
    have hlines := h.linesFrom_eq
    have hno : ∀ x ∈ ahead, x.b ≠ r → accepts r x = false := by
      intro x hx hb
      exact Bool.eq_false_iff.2 fun ht => hb ((hacc x (mem_append_right _ hx)).1 ht)
    rcases hfind : ahead.find? (fun m => m.b == r) with _ | m
    · right
      have hnone : ∀ x ∈ ahead, x.b ≠ r := by simpa using hfind
      refine ⟨hnone, .noMatch, ?_, Or.inr rfl⟩
      have hloop := receiveLoop_skip (fun x hx => (h.messages x (mem_append_right _ hx)).1)
        (fun x hx => hno x hx (hnone x hx)) (unlines (past.map line)).length []
      rw [append_nil] at hloop
      simp only [gadiaReceive, hid, hfile, hlines, hloop]
      rfl
    · left
      obtain ⟨hm, skip, rest, rfl, hskip⟩ := List.find?_eq_some_iff_append.1 hfind
      have hmb : m.b = r := by simpa using hm
      have hskip' : ∀ x ∈ skip, x.b ≠ r := by simpa using hskip
      refine ⟨skip, m, rest, { s with gadiaLastPosition :=
          (((unlines (past.map line)).length + (unlines (skip.map line)).length
            + m.line.length + 1 : ℕ) : ℤ) }, rfl, hskip', hmb, ?_, ?_⟩
      · have hloop := receiveLoop_skip (fun x (hx : x ∈ skip) => (h.messages x (by simp [hx])).1)
          (fun x hx => hno x (by simp [hx]) (hskip' x hx))
          (unlines (past.map line)).length ((m :: rest).map line)
        have hacm : accepts r m := (hacc m (by simp)).2 hmb
        simp only [gadiaReceive, hid, hfile, hlines]
        rw [map_append, hloop, map_cons, lineEnds, receiveLoop,
          parseLine_line (h.messages m (by simp)).1]
        simp only [hacm, if_true]
      · refine ⟨Or.inl (by simpa using hfile), ?_, by simpa using h.messages⟩
        · simp only [map_append, unlines_append, length_append, map_cons,
            map_nil, unlines_cons, unlines_nil, length_cons, length_nil]
          omega
  · right
    obtain ⟨-, rfl⟩ := append_eq_nil_iff.1 hnil
    exact ⟨by simp, .noFile, by simp [gadiaReceive, hid, hfile], Or.inl rfl⟩

/-! ### One call -/

lemma gadiaCall_eq_append (s : Host) (tick srcCore targetCoreNum data : BitVec 64) :
    gadiaCall s tick srcCore targetCoreNum data 0
      = s.append (mailboxPath (toInt targetCoreNum))
          ((callMessage tick srcCore targetCoreNum data).line ++ ['\n']) := by
  rw [gadiaCall, if_pos rfl, callMessage]

lemma Host.append_position (s : Host) (path text : List Char) :
    (s.append path text).gadiaLastPosition = s.gadiaLastPosition := by
  unfold Host.append
  split <;> rfl

lemma Host.append_files_of_ne {path path' : List Char} (h : path' ≠ path) (s : Host)
    (text : List Char) : (s.append path text).files path' = s.files path' := by
  unfold Host.append
  split
  · rfl
  · exact Function.update_of_ne h _ _

lemma Holds.call_same (hr : 0 ≤ r ∧ r ≤ 9) (h : Holds r s past ahead) {targetCoreNum : BitVec 64}
    (ht : mailboxPath (toInt targetCoreNum) = mailboxPath r) (tick srcCore data : BitVec 64) :
    Holds r (gadiaCall s tick srcCore targetCoreNum data 0) past
      (ahead ++ [callMessage tick srcCore targetCoreNum data]) := by
  have hslash := getLast?_mailboxPath_ne_slash hr ht
  have hold : (s.files (mailboxPath r)).getD [] = unlines ((past ++ ahead).map line) := by
    rcases h.file with hfile | ⟨hnil, hfile⟩
    · rw [hfile]; rfl
    · rw [hfile, hnil]; rfl
  rw [gadiaCall_eq_append]
  refine ⟨Or.inl ?_, ?_, fun m hm => ?_⟩
  · rw [← ht, Host.append, if_neg hslash, ht]
    simp [hold, unlines_append]
  · rw [Host.append_position, h.position]
  · rw [← append_assoc, mem_append, mem_singleton] at hm
    rcases hm with hm | rfl
    · exact h.messages m hm
    · exact ⟨⟨tick.isLt, toInt_ge _, toInt_le _, toInt_ge _, toInt_le _, toInt_ge _, toInt_le _⟩,
        ht⟩

/-! ### Runs -/

lemma matched_cons (p : ℤ × Outcome) (log : List (ℤ × Outcome)) :
    matched (p :: log) = matched [p] ++ matched log := by
  obtain ⟨r, o⟩ := p
  cases o <;> rfl

lemma Holds.step (hr : 0 ≤ r ∧ r ≤ 9) (h : Holds r s past ahead)
    {st : Step} (hst : SingleReceiver r [st]) :
    ∃ s' log past' ahead', run s [st] = some (s', log) ∧ Holds r s' past' ahead' ∧
      channelOf r past' ahead' = (channelOf r past ahead).step r st ∧
      valuesFor r past' = valuesFor r past ++ matched log := by
  cases st with
  | call tick src t d init =>
    obtain rfl : init = 0 := hst (.call tick src t d init) (by simp)
    by_cases ht : mailboxPath (toInt t) = mailboxPath r
    · refine ⟨_, [], past, ahead ++ [callMessage tick src t d], rfl,
        h.call_same hr ht tick src d, ?_, by simp [matched]⟩
      by_cases htr : toInt t = r
      · simp [channelOf, Channel.step, Step.sent?, htr, Channel.send, valuesFor, callMessage]
      · simp [channelOf, Channel.step, Step.sent?, htr, valuesFor, callMessage]
    · -- the mailbox of `r` is left alone
      refine ⟨_, [], past, ahead, rfl, ⟨?_, ?_, h.messages⟩, ?_, by simp [matched]⟩
      · rw [gadiaCall_eq_append, Host.append_files_of_ne (Ne.symm ht)]
        exact h.file
      · rw [gadiaCall_eq_append, Host.append_position, h.position]
      have htr : toInt t ≠ r := fun hc => ht (by rw [hc])
      simp [Channel.step, Step.sent?, htr]
  | receive id =>
    have hid : toInt id = r := hst (.receive id) (by simp)
    rcases h.receive hr hid with ⟨skip, m, rest, s', rfl, hskip, hm, hrecv, h'⟩ |
      ⟨hnone, o, hrecv, ho⟩
    · refine ⟨s', [(toInt id, .found m.c)], _, _, by rw [run_receive hrecv]; rfl, h', ?_, ?_⟩
      · simp [channelOf, Channel.step, Channel.poll, valuesFor_eq_nil hskip, valuesFor_cons_self hm]
      · simp [matched, valuesFor_eq_nil hskip, valuesFor_cons_self hm]
    · refine ⟨s, [(toInt id, o)], past, ahead, by rw [run_receive hrecv]; rfl, h, ?_, ?_⟩
      · simp [channelOf, Channel.step, Channel.poll, valuesFor_eq_nil hnone]
      · rcases ho with rfl | rfl <;> simp [matched]

/-- Every run with one receiver executes without undefined behaviour, and the mailbox
represents the channel after it. -/
lemma Holds.run (hr : 0 ≤ r ∧ r ≤ 9) (h : Holds r s past ahead)
    {steps : List Step} (hsteps : SingleReceiver r steps) :
    ∃ s' log past' ahead', run s steps = some (s', log) ∧ Holds r s' past' ahead' ∧
      channelOf r past' ahead' = (channelOf r past ahead).run r steps ∧
      valuesFor r past' = valuesFor r past ++ matched log := by
  induction steps generalizing s past ahead with
  | nil => exact ⟨s, [], past, ahead, rfl, h, rfl, by simp [matched]⟩
  | cons st steps ih =>
    have hst : SingleReceiver r [st] := fun x hx => hsteps x (by simp [mem_singleton.1 hx])
    obtain ⟨s1, log1, past1, ahead1, hrun1, h1, hch1, hval1⟩ := h.step hr hst
    obtain ⟨s2, log2, past2, ahead2, hrun2, h2, hch2, hval2⟩ :=
      ih h1 (fun x hx => hsteps x (by simp [hx]))
    refine ⟨s2, log1 ++ log2, past2, ahead2, ?_, h2, ?_, ?_⟩
    · have happ := run_append s [st] steps
      rw [hrun1] at happ
      simpa [hrun2] using happ
    · rw [hch2, hch1]
      rfl
    · rw [hval2, hval1]
      simp [matched]

/-- **The mailbox refines the channel.**  From fresh mailboxes, a run in which only `r`
receives returns to the successful receives exactly what the channel of `r` delivers. -/
lemma run_refines_channel (hr : 0 ≤ r ∧ r ≤ 9) (hs : Fresh s)
    {steps : List Step} (hsteps : SingleReceiver r steps) :
    ∃ s' log past ahead, run s steps = some (s', log) ∧ Holds r s' past ahead ∧
      channelOf r past ahead = Channel.empty.run r steps ∧
      matched log = (Channel.empty.run r steps).delivered := by
  obtain ⟨s', log, past, ahead, hrun, h, hch, hval⟩ := (hs.holds r).run hr hsteps
  refine ⟨s', log, past, ahead, hrun, h, hch, ?_⟩
  have hdel := congrArg Channel.delivered hch
  simp only [channelOf] at hdel
  rwa [hval] at hdel

/-! ### First in, first out, exactly once -/

/-- The receive found a line. -/
def Outcome.isFound : Outcome → Bool
  | .found _ => true
  | _ => false

/-- **A single receiver gets every message exactly once and in order.**  Whatever the
interleaving, no receive runs into undefined behaviour, the values of the successful receives
are a prefix of the values sent to `r`, and a receive comes back empty exactly when all
messages sent to `r` so far were returned before. -/
theorem receive_fifo_exactly_once {r : ℤ} (hr : 0 ≤ r ∧ r ≤ 9) {s : Host} (hs : Fresh s)
    {steps : List Step} (hsteps : SingleReceiver r steps) :
    (∃ s' log, run s steps = some (s', log) ∧ matched log <+: sentTo r steps) ∧
      ∀ pre id post, steps = pre ++ .receive id :: post →
        ∃ s₁ log₁ s₂ o, run s pre = some (s₁, log₁) ∧ gadiaReceive s₁ id = some (s₂, o) ∧
          (o.isFound = false ↔ matched log₁ = sentTo r pre) := by
  constructor
  · obtain ⟨s', log, past, ahead, hrun, -, -, hm⟩ := run_refines_channel hr hs hsteps
    refine ⟨s', log, hrun, ?_⟩
    have hist := Channel.history_run r Channel.empty steps
    refine ⟨(Channel.empty.run r steps).waiting, ?_⟩
    rw [hm]
    simpa [Channel.history, Channel.empty] using hist
  · rintro pre id post rfl
    have hpre : SingleReceiver r pre := fun st hst => hsteps st (by simp [hst])
    have hid : toInt id = r := hsteps (.receive id) (by simp)
    obtain ⟨s₁, log₁, past, ahead, hrun, h, hch, hm⟩ := run_refines_channel hr hs hpre
    -- all messages sent are delivered exactly when no message for `r` lies ahead
    have hiff : matched log₁ = sentTo r pre ↔ valuesFor r ahead = [] := by
      have hist := Channel.history_run r Channel.empty pre
      have hwait : (Channel.empty.run r pre).waiting = valuesFor r ahead := by
        rw [← hch]; rfl
      simp only [Channel.history, Channel.empty, nil_append] at hist
      rw [← Channel.empty, hwait, ← hm] at hist
      rw [← hist]
      simp
    rcases h.receive hr hid with ⟨skip, m, rest, s', rfl, hskip, hmb, hrecv, -⟩ |
      ⟨hnone, o, hrecv, ho⟩
    · refine ⟨s₁, log₁, s', _, hrun, hrecv, ?_⟩
      rw [hiff]
      simp [Outcome.isFound, valuesFor_cons_self hmb]
    · refine ⟨s₁, log₁, s₁, o, hrun, hrecv, ?_⟩
      rw [hiff]
      rcases ho with rfl | rfl <;> simp [Outcome.isFound, valuesFor_eq_nil hnone]

/-- Fresh mailboxes without any file. -/
def Host.fresh : Host := ⟨fun _ => none, 0⟩

lemma Host.fresh_isFresh : Fresh Host.fresh := ⟨fun _ => Or.inl rfl, rfl⟩

/-- Core 2 sends to core 3 and to core 259, which shares its file name, and core 3 polls. -/
def sharedNameRun : List Step :=
  [.call 5 2 259 8 0, .call 6 2 3 (BitVec.ofInt 64 (-7)) 0, .receive 3, .receive 3]

lemma sharedNameRun_singleReceiver : SingleReceiver 3 sharedNameRun := by
  simp only [SingleReceiver, sharedNameRun, forall_mem_cons, not_mem_nil,
    false_implies, implies_true, and_true]
  decide

theorem receive_fifo_sharedNameRun :
    (∃ s' log, run Host.fresh sharedNameRun = some (s', log) ∧
        matched log <+: sentTo 3 sharedNameRun) ∧
      ∀ pre id post, sharedNameRun = pre ++ .receive id :: post →
        ∃ s₁ log₁ s₂ o, run Host.fresh pre = some (s₁, log₁) ∧
          gadiaReceive s₁ id = some (s₂, o) ∧
          (o.isFound = false ↔ matched log₁ = sentTo 3 pre) :=
  receive_fifo_exactly_once (by decide) Host.fresh_isFresh sharedNameRun_singleReceiver

/-! ### What a polling client sees -/

/-- The results that report "no message". -/
def isStatus (v : BitVec 64) : Bool := v == BitVec.ofInt 64 (-1) || v == BitVec.ofInt 64 (-3)

/-- What a client observes that takes the two status results, and only these, for "no
message". -/
def clientView (log : List (ℤ × Outcome)) : List (BitVec 64) :=
  (log.map fun p => p.2.result).filter fun v => !isStatus v

lemma clientView_eq_filter_matched (log : List (ℤ × Outcome)) :
    clientView log = (matched log).filter fun v => !isStatus v := by
  induction log with
  | nil => rfl
  | cons p log ih =>
    obtain ⟨r, o⟩ := p
    rw [matched_cons, filter_append, ← ih]
    cases o with
    | noFile | noMatch => rfl
    | found c =>
      by_cases hc : isStatus (BitVec.ofInt 64 c)
      all_goals simp [clientView, matched, Outcome.result, hc]

/-- The client observes exactly the messages that were consumed. -/
def ClientSeesConsumed (s : Host) (steps : List Step) : Prop :=
  ∃ s' log, run s steps = some (s', log) ∧ clientView log = matched log

/-- **When the client view is right.**  A client that takes only the two status results for
"no message" observes exactly the consumed messages if and only if none of the messages that
the first-in first-out channel has delivered by then carries `-1` or `-3`. -/
theorem clientSeesConsumed_iff {r : ℤ} (hr : 0 ≤ r ∧ r ≤ 9) {s : Host} (hs : Fresh s)
    {steps : List Step} (hsteps : SingleReceiver r steps) :
    ClientSeesConsumed s steps ↔
      ∀ v ∈ (Channel.empty.run r steps).delivered,
        v ≠ BitVec.ofInt 64 (-1) ∧ v ≠ BitVec.ofInt 64 (-3) := by
  obtain ⟨s', log, past, ahead, hrun, -, -, hm⟩ := run_refines_channel hr hs hsteps
  have hview : ClientSeesConsumed s steps ↔ clientView log = matched log := by
    constructor
    · rintro ⟨s1, log1, hrun1, h⟩
      rw [hrun] at hrun1
      obtain ⟨-, rfl⟩ := Prod.mk.inj (Option.some.inj hrun1)
      exact h
    · intro h
      exact ⟨s', log, hrun, h⟩
  rw [hview, clientView_eq_filter_matched, hm, filter_eq_self]
  simp [isStatus]

theorem clientSeesConsumed_sharedNameRun :
    ClientSeesConsumed Host.fresh sharedNameRun ↔
      ∀ v ∈ (Channel.empty.run 3 sharedNameRun).delivered,
        v ≠ BitVec.ofInt 64 (-1) ∧ v ≠ BitVec.ofInt 64 (-3) :=
  clientSeesConsumed_iff (by decide) Host.fresh_isFresh sharedNameRun_singleReceiver

/-- Core 2 sends `-1` to core 3, which polls once: the message is consumed and not seen. -/
theorem clientView_loses_minus_one :
    ¬ ClientSeesConsumed Host.fresh
      [.call 5 2 3 (BitVec.ofInt 64 (-1)) 0, .receive 3] := by
  rintro ⟨s', log, hrun, hview⟩
  have hlog : (run Host.fresh [.call 5 2 3 (BitVec.ofInt 64 (-1)) 0, .receive 3]).map Prod.snd
      = some [(3, .found (-1))] := by decide
  rw [hrun] at hlog
  obtain rfl : log = [(3, .found (-1))] := by simpa using hlog
  exact absurd hview (by decide)

end ChipletGem5.Mailbox
