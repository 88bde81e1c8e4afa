import ChipletGem5.Mem.SnoopFilter

/-!
# Requests that are retried

`finishRequest` puts back the entry that `lookupRequest` has saved for a request that is to be
retried, and erases it if it has no bits.  So the entries are as before if none of them was without
bits, which is what all operations see to: `nonNull_of_reachable` says that only the line of a
request under way may have such an entry.
-/

namespace ChipletGem5.SnoopFilter

/-- The filters that the calls of a crossbar lead to from `f₀`.  The flag says that a request has
been looked up and not been finished; the crossbar finishes it before it looks up another one. -/
inductive Reachable (f₀ : SnoopFilter) : SnoopFilter → Bool → Prop
  | start : Reachable f₀ f₀ false
  | lookupRequest {f f' pkt port list} : Reachable f₀ f false →
      f.lookupRequest pkt port = .ok (f', list) → Reachable f₀ f' true
  | finishRequest {f f' willRetry addr isSecure} : Reachable f₀ f true →
      f.finishRequest willRetry addr isSecure = .ok f' → Reachable f₀ f' false
  | lookupSnoop {f f' b pkt list} : Reachable f₀ f b →
      f.lookupSnoop pkt = .ok (f', list) → Reachable f₀ f' b
  | updateSnoopResponse {f f' b pkt rspPort reqPort} : Reachable f₀ f b →
      f.updateSnoopResponse pkt rspPort reqPort = .ok f' → Reachable f₀ f' b
  | updateSnoopForward {f f' b pkt} : Reachable f₀ f b →
      f.updateSnoopForward pkt = .ok f' → Reachable f₀ f' b
  | updateResponse {f f' b pkt port} : Reachable f₀ f b →
      f.updateResponse pkt port = .ok f' → Reachable f₀ f' b

/-- No line has an entry without bits, but for that of a request under way. -/
def NonNull (f : SnoopFilter) (pending : Bool) : Prop :=
  ∀ line i, f.cachedLocations.lookup line = some i → i.requested ||| i.holder = 0 →
    pending ∧ f.it = some line

variable {f f' : SnoopFilter} {b : Bool} {i : SnoopItem}

lemma it_eraseIfNullEntry (line : Addr) : (f.eraseIfNullEntry line).it = f.it := by
  unfold eraseIfNullEntry
  split
  · rfl
  · split_ifs <;> rfl

/-! ### Reachable filters -/

lemma nonNull_eraseIfNullEntry {line : Addr}
    (h : ∀ l ≠ line, ∀ i, f.cachedLocations.lookup l = some i → i.requested ||| i.holder = 0 →
      b ∧ f.it = some l) : NonNull (f.eraseIfNullEntry line) b := by
  intro l i hi hnull
  rw [it_eraseIfNullEntry]
  rw [lookup_eraseIfNullEntry] at hi
  split_ifs at hi with hl
  · obtain ⟨-, hbits⟩ := Option.filter_eq_some_iff.1 hi
    simp [hnull] at hbits
  · exact h l hl i hi hnull

lemma NonNull.of_written {line : Addr} (h : NonNull f b) (hw : Written f f' line i) :
    NonNull f' b := by
  have hother : ∀ l ≠ line, ∀ j, (f.setItem line i).cachedLocations.lookup l = some j →
      j.requested ||| j.holder = 0 → b ∧ f.it = some l := by
    intro l hl j hj
    rw [lookup_setItem, if_neg hl] at hj
    exact h l j hj
  obtain rfl | ⟨rfl, hbits⟩ := hw
  · exact nonNull_eraseIfNullEntry hother
  · intro l j hj hnull
    by_cases hl : l = line
    · rw [lookup_setItem, if_pos hl] at hj
      cases hj
      exact absurd hnull hbits
    · exact hother l hl j hj hnull

lemma nonNull_of_reachable {ports : Ports} {linesize maxEntryCount : ℕ}
    (h : Reachable (new ports linesize maxEntryCount) f b) : NonNull f b := by
  induction h with
  | start =>
    intro line i hi
    simp [new] at hi
  | lookupRequest hf hstep ih =>
    obtain ⟨-, ⟨rfl, -⟩ | ⟨item, -, rfl⟩⟩ := lookupRequest_eq_ok hstep
    · exact fun l j hj hnull => absurd (ih l j hj hnull).1 (by simp)
    · -- only the line that is looked up may get an entry without bits
      intro l j hj hnull
      rw [lookup_setItem] at hj
      split_ifs at hj with hl
      · exact ⟨rfl, congrArg some hl.symm⟩
      · exact absurd (ih l j hj hnull).1 (by simp)
  | @finishRequest f f' willRetry addr isSecure hf hstep ih =>
    obtain ⟨hit, rfl⟩ | ⟨line, hit, rfl⟩ := finishRequest_eq_ok hstep
    · intro l j hj hnull
      exact absurd (hit.symm.trans (ih l j hj hnull).2) (by simp)
    · refine nonNull_eraseIfNullEntry fun l hl j hj hnull => ?_
      have hj' : f.cachedLocations.lookup l = some j := by
        split_ifs at hj
        · rwa [lookup_setItem, if_neg hl] at hj
        · exact hj
      exact absurd (Option.some.inj (hit.symm.trans (ih l j hj' hnull).2)).symm hl
  | lookupSnoop hf hstep ih =>
    obtain ⟨-, rfl | ⟨-, hw⟩⟩ := lookupSnoop_eq_ok hstep
    · exact ih
    · exact ih.of_written hw
  | updateSnoopResponse hf hstep ih =>
    obtain ⟨rfl, -⟩ | ⟨-, hw⟩ := updateSnoopResponse_eq_ok hstep
    · exact ih
    · exact ih.of_written hw
  | updateSnoopForward hf hstep ih =>
    obtain rfl | ⟨-, hw⟩ := updateSnoopForward_eq_ok hstep
    · exact ih
    · exact ih.of_written hw
  | updateResponse hf hstep ih =>
    obtain ⟨rfl, -⟩ | ⟨-, hw⟩ := updateResponse_eq_ok hstep
    · exact ih
    · exact ih.of_written hw

/-! ### Retries -/

/-- A request that is looked up and then to be retried leaves all entries as they were. -/
theorem lookup_finishRequest_retry {ports : Ports} {linesize maxEntryCount : ℕ}
    {pkt : SnoopPacket} {port : PortID} {list : List PortID}
    (hf : Reachable (new ports linesize maxEntryCount) f false)
    (h : f.lookupRequest pkt port = .ok (f', list)) :
    ∃ f'', f'.finishRequest true pkt.addr pkt.isSecure = .ok f'' ∧
      ∀ line, f''.cachedLocations.lookup line = f.cachedLocations.lookup line := by
  have hbits := nonNull_of_reachable hf
  obtain ⟨-, ⟨rfl, -⟩ | ⟨item, -, rfl⟩⟩ := lookupRequest_eq_ok h
  · exact ⟨_, rfl, fun _ => rfl⟩
  · refine ⟨_, bind_eq_ok.2 ⟨(), ?_, bind_eq_ok.2 ⟨(), require_eq_ok.2 (beq_self_eq_true _), rfl⟩⟩,
      fun l => ?_⟩
    · rw [lookup_setItem, if_pos rfl]
      rfl
    · rw [if_pos rfl, lookup_eraseIfNullEntry, lookup_setItem, lookup_setItem, lookup_setItem,
        if_pos rfl]
      split_ifs with hl
      · rw [hl]
        cases hline : f.cachedLocations.lookup (f.lineAddr pkt) with
        | none => simp [SnoopFilter.setItem, SnoopFilter.item, hline]
        | some i =>
          -- an entry that was there has bits, and stays
          rw [show retryItem _ = i from item_eq_of_lookup hline]
          refine (Option.filter_some ..).trans (if_pos ?_)
          rw [bne_iff_ne]
          exact fun hnull => absurd (hbits _ i hline hnull).1 (by simp)
      · rw [lookup_setItem, if_neg hl]

/-- A cache reads a line, and its eviction has to be sent again. -/
theorem lookup_finishRequest_retry_evict :
    ∃ f f' list f'', Reachable (new twoPorts 64 8) f false ∧
      f.cachedLocations.lookup 0x40 = some ⟨0, 1⟩ ∧
      f.lookupRequest (linePacket .cleanEvict) 0 = .ok (f', list) ∧
      f'.cachedLocations.lookup 0x40 = some ⟨0, 0⟩ ∧ f'.finishRequest true 0x40 false = .ok f'' ∧
      f''.cachedLocations.lookup 0x40 = some ⟨0, 1⟩ := by
  have hread := @Reachable.lookupRequest (new twoPorts 64 8) _ _ (linePacket .readSharedReq) 0 _
    .start rfl
  have hfinished := @Reachable.finishRequest _ _ _ false 0x40 false hread rfl
  have hf := @Reachable.updateResponse _ _ _ _ (linePacket .readResp) 0 hfinished rfl
  obtain ⟨f'', hretry, hlookup⟩ := lookup_finishRequest_retry hf
    (show lookupRequest _ (linePacket .cleanEvict) 0 = .ok (_, _) from rfl)
  exact ⟨_, _, _, f'', hf, rfl, rfl, rfl, hretry, (hlookup 0x40).trans rfl⟩

end ChipletGem5.SnoopFilter
