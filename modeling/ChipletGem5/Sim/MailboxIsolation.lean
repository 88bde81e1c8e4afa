import ChipletGem5.Sim.Mailbox

/-!
# Several receivers and broadcasts

The read position of `gadia_receive` is one variable of the whole process, while every
receiver has a file of its own.  A receive of another core that finds a message therefore
moves the position at which `r` reads its file.

A broadcast is a call with target `-1`.  Its file name ends in a slash, the file cannot be opened,
and the message is dropped.
-/

namespace ChipletGem5.Mailbox

open TextStream

/-! ### The other receivers -/

/-- Steps that stay when the receives of all other ids are removed from a run. -/
def keptFor (r : ℤ) : Step → Bool
  | .call _ _ _ _ _ => true
  | .receive srcCoreNumber => toInt srcCoreNumber == r

/-- The run returns the same values to `r` when the receives of all other ids are removed. -/
def IsolatedFor (r : ℤ) (s : Host) (steps : List Step) : Prop :=
  (run s steps).map (fun p => returnedTo r p.2)
    = (run s (steps.filter (keptFor r))).map fun p => returnedTo r p.2

instance (r : ℤ) (s : Host) (steps : List Step) : Decidable (IsolatedFor r s steps) :=
  inferInstanceAs (Decidable (_ = _))

/-- The mailbox of a core is absent, or none of its lines from the read position on passes
the acceptance test. -/
def NothingToRead (s : Host) (srcCore : ℤ) : Prop :=
  ∀ content, s.files (mailboxPath srcCore) = some content →
    ∀ l ∈ linesFrom s.gadiaLastPosition content,
      ∃ m, parseLine l.1 = some m ∧ accepts srcCore m = false

/-- At every receive of another id than `r` in the run, that id has nothing to read. -/
def ForeignReadsIdle (r : ℤ) : Host → List Step → Prop
  | _, [] => True
  | s, .call tick srcCore targetCoreNum data init :: steps =>
      ForeignReadsIdle r (gadiaCall s tick srcCore targetCoreNum data init) steps
  | s, .receive srcCoreNumber :: steps =>
      (toInt srcCoreNumber ≠ r → NothingToRead s (toInt srcCoreNumber)) ∧
        ∀ s' o, gadiaReceive s srcCoreNumber = some (s', o) → ForeignReadsIdle r s' steps

lemma receiveLoop_eq_none_of_forall {srcCore : ℤ} {ls : List (List Char × ℤ)}
    (h : ∀ l ∈ ls, ∃ m, parseLine l.1 = some m ∧ accepts srcCore m = false) :
    receiveLoop srcCore ls = some none := by
  induction ls with
  | nil => rfl
  | cons l ls ih =>
    obtain ⟨line, pos⟩ := l
    obtain ⟨m, hparse, hacc⟩ := h (line, pos) (by simp)
    rw [receiveLoop, hparse]
    simp only [hacc, Bool.false_eq_true, if_false]
    exact ih fun l hl => h l (by simp [hl])

lemma gadiaReceive_of_nothingToRead {s : Host} {srcCoreNumber : BitVec 64}
    (h : NothingToRead s (toInt srcCoreNumber)) :
    ∃ o, gadiaReceive s srcCoreNumber = some (s, o) := by
  rcases hfile : s.files (mailboxPath (toInt srcCoreNumber)) with _ | content
  · exact ⟨.noFile, by simp [gadiaReceive, hfile]⟩
  · refine ⟨.noMatch, ?_⟩
    have hloop := receiveLoop_eq_none_of_forall (h content hfile)
    simp [gadiaReceive, hfile, hloop]

/-- **Isolation of the receivers.**  In every run, from any state of the mailboxes, in which
the other cores receive only when there is nothing for them to read, the values returned to
`r` do not depend on the receives of the other cores. -/
theorem isolatedFor_of_foreignReadsIdle {r : ℤ} {s : Host} {steps : List Step}
    (h : ForeignReadsIdle r s steps) : IsolatedFor r s steps := by
  unfold IsolatedFor
  induction steps generalizing s with
  | nil => rfl
  | cons st steps ih =>
    cases st with
    | call tick srcCore targetCoreNum data init =>
      exact ih h
    | receive id =>
      by_cases hid : toInt id = r
      · -- a receive of `r` itself: both runs make the same step
        rw [List.filter_cons_of_pos (by simp [keptFor, hid])]
        rcases hrecv : gadiaReceive s id with _ | ⟨s', o⟩
        · simp only [run, hrecv]
        · have hrest := ih (h.2 s' o hrecv)
          rw [run_receive hrecv, run_receive hrecv, hid, Option.map_map, Option.map_map]
          simpa [Function.comp_def, returnedTo] using congrArg (Option.map (o.result :: ·)) hrest
      · -- a receive of another core: it leaves the mailboxes as they are
        rw [List.filter_cons_of_neg (by simp [keptFor, hid])]
        obtain ⟨o, hrecv⟩ := gadiaReceive_of_nothingToRead (h.1 hid)
        rw [run_receive hrecv, Option.map_map, ← ih (h.2 s o hrecv)]
        simp [Function.comp_def, returnedTo, hid]

/-- Core 0 polls its empty mailbox before core 1 reads a message. -/
def idlePollRun : List Step := [.call 4 5 1 9 0, .receive 0, .receive 1]

lemma idlePollRun_foreignReadsIdle : ForeignReadsIdle 1 ⟨fun _ => none, 0⟩ idlePollRun := by
  have hnone : (gadiaCall ⟨fun _ => none, 0⟩ 4 5 1 9 0).files (mailboxPath (toInt 0)) = none := by
    decide
  refine ⟨fun _ content hc => ?_, fun s' o hrecv => ?_⟩
  · rw [hnone] at hc
    simp at hc
  · exact ⟨absurd rfl, fun _ _ _ => trivial⟩

theorem isolatedFor_idlePollRun :
    ForeignReadsIdle 1 ⟨fun _ => none, 0⟩ idlePollRun ∧
      IsolatedFor 1 ⟨fun _ => none, 0⟩ idlePollRun :=
  ⟨idlePollRun_foreignReadsIdle, isolatedFor_of_foreignReadsIdle idlePollRun_foreignReadsIdle⟩

/-- Cores 0 and 1 each have one message.  When core 0 reads its message first, the read
position moves behind the message of core 1, which is lost. -/
theorem not_isolatedFor_two_receivers :
    ¬ IsolatedFor 1 ⟨fun _ => none, 0⟩
      [.call 4 5 0 7 0, .call 4 5 1 9 0, .receive 0, .receive 1] := by
  decide

/-! ### Broadcasts -/

lemma gadiaCall_broadcast (s : Host) {targetCoreNum : BitVec 64}
    (ht : toInt targetCoreNum = -1) (tick srcCore data init : BitVec 64) :
    gadiaCall s tick srcCore targetCoreNum data init = s := by
  have hslash : (mailboxPath (-1)).getLast? = some '/' := by decide
  unfold gadiaCall
  split
  · rw [ht, Host.append, if_pos hslash]
  · rfl

/-- If `r` polls in the run until it is told that there is no message, then `v` is among the
values returned to it. -/
def PolledValue (s : Host) (steps : List Step) (r : ℤ) (v : BitVec 64) : Prop :=
  ∀ s' log, run s steps = some (s', log) →
    (returnedTo r log).getLast? = some (BitVec.ofInt 64 (-1)) → v ∈ returnedTo r log

/-- How often a run returns `v` to `r`. -/
def timesReturned (s : Host) (steps : List Step) (r : ℤ) (v : BitVec 64) : ℕ :=
  ((run s steps).map fun p => (returnedTo r p.2).count v).getD 0

/-- **A broadcast is never delivered.**  Whatever happened before and whatever the cores do
afterwards, the value of the broadcast is not returned to any `r` once more than without it;
in particular `r` polls the value only if it polls it without the broadcast as well. -/
theorem broadcast_never_delivered {targetCoreNum : BitVec 64} (ht : toInt targetCoreNum = -1)
    (s : Host) (tick srcCore data : BitVec 64) (steps : List Step) (r : ℤ) :
    ¬ timesReturned s steps r (BitVec.ofInt 64 (toInt data))
        < timesReturned (gadiaCall s tick srcCore targetCoreNum data 0) steps r
            (BitVec.ofInt 64 (toInt data)) ∧
      (PolledValue (gadiaCall s tick srcCore targetCoreNum data 0) steps r
          (BitVec.ofInt 64 (toInt data)) ↔
        PolledValue s steps r (BitVec.ofInt 64 (toInt data))) := by
  rw [gadiaCall_broadcast s ht]
  exact ⟨lt_irrefl _, Iff.rfl⟩

/-- The mailboxes after core 5 sent the value 7 to core 1. -/
def oneMessage : Host := gadiaCall ⟨fun _ => none, 0⟩ 4 5 1 7 0

theorem broadcast_from_zero_never_delivered :
    toInt (BitVec.allOnes 64) = -1 ∧
      (¬ timesReturned oneMessage [.receive 1, .receive 1] 1 (BitVec.ofInt 64 (toInt 42))
          < timesReturned (gadiaCall oneMessage 6 0 (BitVec.allOnes 64) 42 0)
              [.receive 1, .receive 1] 1 (BitVec.ofInt 64 (toInt 42)) ∧
        (PolledValue (gadiaCall oneMessage 6 0 (BitVec.allOnes 64) 42 0)
            [.receive 1, .receive 1] 1 (BitVec.ofInt 64 (toInt 42)) ↔
          PolledValue oneMessage [.receive 1, .receive 1] 1 (BitVec.ofInt 64 (toInt 42)))) :=
  ⟨by decide, broadcast_never_delivered (by decide) _ _ _ _ _ _⟩

/-- Core 0 broadcasts 42; core 1 polls its mailbox, which has one other message, until it is
told that there is nothing left, and never sees 42. -/
theorem broadcast_value_not_polled :
    ¬ PolledValue (gadiaCall oneMessage 6 0 (BitVec.allOnes 64) 42 0)
        [.receive 1, .receive 1] 1 (BitVec.ofInt 64 (toInt 42)) := by
  intro h
  have hpolled := h _ [(1, .found 7), (1, .noMatch)] rfl (by decide)
  exact absurd hpolled (by decide)

/-! ### The polling thread of the tree search -/

/-- The results after which `checkThread` of `benchmark/treeSearching/test01.cpp` polls
again. -/
def ignored : List (BitVec 64) := [-2, -1, -4, -6].map (BitVec.ofInt 64)

/-- The index of `visited` that a round of `checkThread` marks. -/
def marked (o : Outcome) : Option ℤ := if o.result ∈ ignored then none else some (toInt o.result)

/-- The values that have been sent. -/
def sent (steps : List Step) : List ℤ :=
  steps.filterMap fun
    | .call _ _ _ data init => if init = 0 then some (toInt data) else none
    | .receive _ => none

/-- `checkThread`, which polls with the id -1, marks only values that were sent before. -/
def LearnsSent (s₀ : Host) (steps : List Step) : Prop :=
  ∀ pre post, steps = pre ++ .receive (BitVec.allOnes 64) :: post → ∀ s log s' o i,
    run s₀ pre = some (s, log) → gadiaReceive s (BitVec.allOnes 64) = some (s', o) →
      marked o = some i → i ∈ sent pre

/-- The mailbox of the id -1 can be opened, and from wherever it is read, the messages in it that
`checkThread` accepts have values from `vs`. -/
def Opens (s : Host) (vs : List ℤ) : Prop :=
  ∃ content, s.files (mailboxPath (-1)) = some content ∧
    ∀ pos, ∀ l ∈ linesFrom pos content, ∀ m ∈ parseLine l.1, accepts (-1) m →
      toInt (BitVec.ofInt 64 m.c) ∈ vs

lemma of_receiveLoop {srcCore c pos : ℤ} {ls : List (List Char × ℤ)}
    (h : receiveLoop srcCore ls = some (some (c, pos))) :
    ∃ l ∈ ls, ∃ m, parseLine l.1 = some m ∧ accepts srcCore m ∧ m.c = c := by
  fun_induction receiveLoop srcCore ls with
  | case1 | case2 => cases h
  | case3 line _ _ m hparse hacc => exact ⟨_, .head _, m, hparse, hacc, by cases h; rfl⟩
  | case4 _ _ _ _ _ _ ih =>
    obtain ⟨l, hl, hm⟩ := ih h
    exact ⟨l, .tail _ hl, hm⟩

/-- No call changes the file of the id -1: a path that ends in a slash is not written. -/
lemma files_gadiaCall (s : Host) (tick srcCore targetCoreNum data init : BitVec 64) :
    (gadiaCall s tick srcCore targetCoreNum data init).files (mailboxPath (-1)) =
      s.files (mailboxPath (-1)) := by
  have hslash : (mailboxPath (-1)).getLast? = some '/' := by decide
  unfold gadiaCall Host.append
  split_ifs with hinit hpath
  · rfl
  · refine Function.update_of_ne (fun heq => hpath ?_) _ _
    rw [← heq, hslash]
  · rfl

lemma files_gadiaReceive {s s' : Host} {id : BitVec 64} {o : Outcome}
    (h : gadiaReceive s id = some (s', o)) : s'.files = s.files := by
  unfold gadiaReceive at h
  dsimp only at h
  split at h
  · cases h
    rfl
  · split at h <;> cases h <;> rfl

/-- The file of the id -1 is the same after every run. -/
lemma files_run {s s' : Host} {steps : List Step} {log : List (ℤ × Outcome)}
    (h : run s steps = some (s', log)) :
    s'.files (mailboxPath (-1)) = s.files (mailboxPath (-1)) := by
  induction steps generalizing s log with
  | nil =>
    cases h
    rfl
  | cons st steps ih =>
    cases st with
    | call tick srcCore targetCoreNum data init =>
      exact (ih h).trans (files_gadiaCall s tick srcCore targetCoreNum data init)
    | receive id =>
      rcases hrecv : gadiaReceive s id with _ | ⟨s₁, o⟩
      · simp only [run, hrecv] at h
        cases h
      · rw [run_receive hrecv, Option.map_eq_some_iff] at h
        obtain ⟨⟨s₂, log'⟩, hrun, hpair⟩ := h
        cases hpair
        rw [ih hrun, files_gadiaReceive hrecv]

/-- If the mailbox of -1 can be opened at the start and has only messages with values that are sent
before the first poll, only sent values are learnt. -/
theorem learnsSent_of_opens {s₀ : Host} {steps : List Step}
    (h : ∀ pre post, steps = pre ++ .receive (BitVec.allOnes 64) :: post → Opens s₀ (sent pre)) :
    LearnsSent s₀ steps := by
  intro pre post hsteps s log s' o i hrun hrecv hmark
  obtain ⟨content, hfile, hall⟩ := h pre post hsteps
  have hid : toInt (BitVec.allOnes 64) = -1 := by decide
  rw [← files_run hrun] at hfile
  simp only [gadiaReceive, hid, hfile] at hrecv
  split at hrecv <;> cases hrecv
  · cases hmark
  · rename_i hloop
    obtain ⟨l, hl, m, hparse, hacc, rfl⟩ := of_receiveLoop hloop
    rw [marked] at hmark
    split_ifs at hmark
    exact Option.some.inj hmark ▸ hall _ l hl m hparse hacc

/-- A host whose mailbox of the id -1 has one message, of the value 5. -/
def fiveWaits : Host where
  files path := if path = mailboxPath (-1) then some "4 0 -1 5\n".toList else none
  gadiaLastPosition := 0

lemma opens_fiveWaits : Opens fiveWaits [5] := by
  refine ⟨"4 0 -1 5\n".toList, by decide, fun pos => ?_⟩
  rcases lt_or_ge pos 9 with hlt | hge
  · rcases lt_or_ge pos 0 with hneg | hpos
    · simp [linesFrom, hneg]
    · interval_cases pos <;> decide
  · have hdrop : "4 0 -1 5\n".toList.drop pos.toNat = [] := List.drop_eq_nil_of_le (by
      simpa using by omega)
    rw [linesFrom, hdrop]
    split_ifs <;> simp [getlines]

/-- Core 0 sends 5 to core 1, and `checkThread` marks 5. -/
theorem learnsSent_of_opens_fiveWaits :
    (run fiveWaits [.call 4 0 1 5 0, .receive (BitVec.allOnes 64)]).map
        (fun p => p.2.map fun q => marked q.2) = some [some 5] ∧
      LearnsSent fiveWaits [.call 4 0 1 5 0, .receive (BitVec.allOnes 64)] := by
  refine ⟨by decide, learnsSent_of_opens fun pre post hsteps => ?_⟩
  have hpre : pre = [.call 4 0 1 5 0] := by
    rcases pre with _ | ⟨x, _ | ⟨y, pre⟩⟩ <;> simp_all
  rw [hpre]
  exact opens_fiveWaits

/-- There is no file, and the index -3 is marked. -/
theorem not_learnsSent_noFile : ¬ LearnsSent ⟨fun _ => none, 0⟩
    [.call 4 0 1 5 0, .receive (BitVec.allOnes 64)] := fun h =>
  absurd (h [.call 4 0 1 5 0] [] rfl _ _ _ .noFile (-3) rfl rfl (by decide)) (by decide)

end ChipletGem5.Mailbox
