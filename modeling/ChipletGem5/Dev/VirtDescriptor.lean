import ChipletGem5.Lib.Result

/-!
# Descriptor chains of a virtqueue

`VirtDescriptor::updateChain` of `dev/virtio/base.cc` reads the descriptors of a chain from the
table in the memory of the guest.  It stops at a descriptor without a next one, and panics when
it comes back to the head; but the guest may lead it into a loop without the head.
-/

namespace ChipletGem5.Virtio

open Function

/-- The part of a `vring_desc` that leads through a chain. -/
structure Desc where
  flags : BitVec 16
  next : BitVec 16

/-- A `VirtQueue`: the address of the table in the guest, and the copies of its descriptors. -/
structure VirtQueue where
  address : BitVec 64
  size : BitVec 16
  descriptors : ℕ → Desc

/-- The index of the next descriptor, if `desc.flags & VRING_DESC_F_NEXT`. -/
def next (table : ℕ → Desc) (i : ℕ) : Option ℕ :=
  if (table i).flags &&& 1 = 0 then none else some (table i).next.toNat

namespace VirtQueue

/-- `VirtDescriptor::update` of the descriptor `i`.  Behind the table there is none; the assertion
of the source is about the index of one in the table. -/
def update (q : VirtQueue) (guest : ℕ → Desc) (i : ℕ) : Result VirtQueue :=
  if q.size.toNat ≤ i then .error (.undefined "descriptors[index]")
  else if q.address = 0 then .ok q
  else .ok { q with descriptors := Function.update q.descriptors i (guest i) }

/-- The loop of `VirtDescriptor::updateChain`, at the descriptor `i`; `none` if it takes more
than `fuel` rounds. -/
def updateChain (guest : ℕ → Desc) (head : ℕ) :
    ℕ → ℕ → VirtQueue → Option (Result VirtQueue)
  | 0, _, _ => none
  | fuel + 1, i, q =>
    match q.update guest i with
    | .error e => some (.error e)
    | .ok q' =>
      match next q'.descriptors i with
      | none => some (.ok q')
      | some j =>
        if j = head then some (.error (.panic "Loop in descriptor chain!\n"))
        else updateChain guest head fuel j q'

/-- The descriptor that is `k` links behind `i`. -/
def follow (guest : ℕ → Desc) (k i : ℕ) : Option ℕ := (·.bind (next guest))^[k] (some i)

/-- The walk from the head ends, and without a panic if and only if there is a last
descriptor. -/
def Walked (q : VirtQueue) (guest : ℕ → Desc) (head : ℕ) : Prop :=
  (∃ fuel r, updateChain guest head fuel head q = some r) ∧
    ((∃ fuel q', updateChain guest head fuel head q = some (.ok q')) ↔
      ∃ k, follow guest k head = none)

variable {q : VirtQueue} {guest : ℕ → Desc} {head i k : ℕ}

lemma follow_succ (k i : ℕ) : follow guest (k + 1) i = (next guest i).bind (follow guest k) := by
  rw [follow, iterate_succ_apply, Option.bind_some]
  cases next guest i with
  | none => exact iterate_fixed rfl k
  | some j => rfl

/-- A chain that comes back to its head has no end. -/
lemma follow_ne_none (hk : follow guest (k + 1) head = some head) (m : ℕ) :
    follow guest m head ≠ none := by
  intro hm
  have hback : follow guest (m * k + m) head = some head := IsPeriodicPt.const_mul hk m
  rw [follow, iterate_add_apply] at hback
  rw [follow] at hm
  rw [hm, iterate_fixed rfl] at hback
  cases hback

section

variable (hq : q.address ≠ 0) (hi : i < q.size.toNat)
  (hnext : ∀ i < q.size.toNat, (guest i).next < q.size)
include hq hi hnext

/-- A walk that ends follows the links to the end of the chain or back to its head, and one
that does not has met neither. -/
lemma updateChain_spec (head fuel : ℕ) : match updateChain guest head fuel i q with
    | some r => ∃ k, follow guest (k + 1) i = if r.isOk then none else some head
    | none => ∀ k < fuel, follow guest (k + 1) i ≠ none ∧ follow guest (k + 1) i ≠ some head := by
  -- the fuel is the number of rounds, and each round goes one link further
  induction fuel generalizing q i with
  | zero => exact fun k hk => absurd hk k.not_lt_zero
  | succ fuel ih =>
    have hupdate : q.update guest i = .ok _ :=
      (if_neg (Nat.not_le.2 hi)).trans (if_neg hq)
    have hsame : next (Function.update q.descriptors i (guest i)) i = next guest i := by
      rw [next, next, Function.update_self]
    rw [updateChain, hupdate]
    simp only [hsame]
    rcases hj : next guest i with _ | j
    · exact ⟨0, by rw [follow_succ, hj]; rfl⟩
    · by_cases hhead : j = head
      · simp only [if_pos hhead]
        exact ⟨0, by rw [follow_succ, hj, hhead]; rfl⟩
      · have hlt : j < q.size.toNat :=
          Option.some.inj (Option.ite_none_left_eq_some.1 hj).2 ▸ hnext i hi
        have hrest :=
          ih (q := { q with descriptors := Function.update q.descriptors i (guest i) }) hq hlt hnext
        simp only [if_neg hhead, follow_succ _ i, hj, Option.bind_some]
        split at hrest
        · obtain ⟨k, hk⟩ := hrest
          exact ⟨k + 1, hk⟩
        · rintro (_ | k) hk
          · simp [follow, hhead]
          · exact hrest k (by omega)

/-- **The walk over a chain ends** if and only if the chain has an end or comes back to its
head. -/
theorem walked_iff : q.Walked guest i ↔
    ∃ k, follow guest (k + 1) i = none ∨ follow guest (k + 1) i = some i := by
  have hspec := updateChain_spec hq hi hnext i
  constructor
  · rintro ⟨⟨fuel, r, hr⟩, -⟩
    obtain ⟨k, hk⟩ := hr ▸ hspec fuel
    refine ⟨k, ?_⟩
    split_ifs at hk
    · exact .inl hk
    · exact .inr hk
  · rintro ⟨k, hk⟩
    have hends := hspec (k + 1)
    split at hends
    · next r hr =>
      obtain ⟨m, hm⟩ := hends
      refine ⟨⟨_, r, hr⟩, ?_, ?_⟩
      · rintro ⟨fuel, q', h⟩
        obtain ⟨k, hk⟩ := h ▸ hspec fuel
        exact ⟨k + 1, hk⟩
      · rintro ⟨n, hn⟩
        cases r with
        | ok q' => exact ⟨_, q', hr⟩
        | error e => exact absurd hn (follow_ne_none hm n)
    · exact absurd hk (not_or.2 (hends k k.lt_succ_self))

end

/-- A chain of two descriptors. -/
theorem walked_iff_two :
    VirtQueue.Walked ⟨1, 2, fun _ => ⟨0, 0⟩⟩ (fun i => ⟨if i = 0 then 1 else 0, 1⟩) 0 := by
  refine (walked_iff (by decide) (by decide) fun _ _ => ?_).2 ⟨1, .inl rfl⟩
  exact (by decide : (1 : BitVec 16) < 2)

/-- The second descriptor is its own next one, and the walk never ends. -/
theorem not_walked_two : ¬ VirtQueue.Walked ⟨1, 2, fun _ => ⟨0, 0⟩⟩ (fun _ => ⟨1, 1⟩) 0 := by
  rintro ⟨⟨fuel, r, h⟩, -⟩
  have hspec := @updateChain_spec ⟨1, 2, fun _ => ⟨0, 0⟩⟩ (fun _ => ⟨1, 1⟩) 0 (by decide)
    (by decide) (fun _ _ => (by decide : (1 : BitVec 16) < 2)) 0 fuel
  obtain ⟨k, hk⟩ := h ▸ hspec
  have hone : follow (fun _ => ⟨1, 1⟩) (k + 1) 0 = some 1 := iterate_fixed rfl k
  rw [hone] at hk
  cases r <;> cases hk

end VirtQueue

end ChipletGem5.Virtio
