import ChipletGem5.Lib.Walks
import ChipletGem5.Ruby.Topology

/-!
# Shortest paths of topologies

`extend_shortest_path` replaces distances by shorter ones over an intermediate switch, in place,
until a round over all pairs changes nothing.  As long as no addition overflows, each replacement
(`Relax`) decreases the sum of all distances, so that there is a last round.  After it the triangle
inequality holds, and the distances are the least weights.
-/

namespace ChipletGem5.Topology

open List IntMatrix

variable {n : ℕ} {d d' w : IntMatrix n} {i j k : Fin n} {p : Paths n}

/-! ### One pair of switches -/

/-- What the innermost loop has found once it has passed the switches `ks`. -/
structure Scan.OK (d : IntMatrix n) (i j : Fin n) (ks : List (Fin n)) (x : Scan n) : Prop where
  previous : x.previousMinimum = x.minimum
  le : ∀ k ∈ ks, x.minimum ≤ intAdd (d i k) (d k j)
  attained : x.intermediateSwitch = none ∧ x.minimum = d i j ∨
    x.minimum < d i j ∧ ∃ k, x.intermediateSwitch = some k ∧
      x.minimum = intAdd (d i k) (d k j)

lemma Scan.OK.step {ks : List (Fin n)} {x : Scan n} (h : Scan.OK d i j ks x) (k : Fin n) :
    Scan.OK d i j (ks ++ [k]) (x.step d i j k) := by
  have hle : ∀ k' ∈ ks ++ [k], min x.minimum (intAdd (d i k) (d k j)) ≤
      intAdd (d i k') (d k' j) := by
    intro k' hk'
    rcases mem_append.1 hk' with hk' | hk'
    · exact (min_le_left _ _).trans (h.le k' hk')
    · cases mem_singleton.1 hk'
      exact min_le_right _ _
  rw [Scan.step, h.previous]
  split_ifs with hne
  · have hlt : intAdd (d i k) (d k j) < x.minimum := by
      by_contra hge
      exact hne (min_eq_left (not_lt.1 hge)).symm
    refine ⟨rfl, hle, .inr ⟨?_, k, rfl, min_eq_right hlt.le⟩⟩
    rcases h.attained with ⟨-, heq⟩ | ⟨hlt', -⟩
    · exact (min_le_right _ _).trans_lt (heq ▸ hlt)
    · exact (min_le_left _ _).trans_lt hlt'
  · have heq : min x.minimum (intAdd (d i k) (d k j)) = x.minimum := (not_not.1 hne).symm
    refine ⟨rfl, hle, ?_⟩
    rw [heq]
    exact h.attained

lemma scan_ok (p : Paths n) (i j : Fin n) :
    Scan.OK p.currentDist i j (List.finRange n) (p.scan i j) := by
  unfold Paths.scan
  induction List.finRange n using List.reverseRecOn with
  | nil => exact ⟨rfl, by simp, .inl ⟨rfl, rfl⟩⟩
  | append_singleton ks k ih =>
    rw [foldl_append]
    exact ih.step k

/-- A distance is replaced by that over an intermediate switch, which is less. -/
def Relax (d d' : IntMatrix n) : Prop :=
  ∃ i j k, intAdd (d i k) (d k j) < d i j ∧ d' = d.set i j (intAdd (d i k) (d k j))

/-- No intermediate switch makes the distance less. -/
def Settled (d : IntMatrix n) (i j : Fin n) : Prop := ∀ k, d i j ≤ intAdd (d i k) (d k j)

lemma extendPair_spec (p : Paths n) (i j : Fin n) : ∃ p', p.extendPair i j = .ok p' ∧
    (∀ k, p'.currentDist i j ≤ intAdd (p.currentDist i k) (p.currentDist k j)) ∧
    (p'.currentDist = p.currentDist ∧ p'.change = p.change ∨
      Relax p.currentDist p'.currentDist ∧ p'.change) := by
  have hscan := scan_ok p i j
  rcases hscan.attained with ⟨-, heq⟩ | ⟨hlt, k, hk, hmin⟩
  · refine ⟨_, if_neg (not_not.2 heq.symm), ?_, .inl ⟨rfl, rfl⟩⟩
    intro k
    rw [← heq]
    exact hscan.le k (mem_finRange k)
  · refine ⟨_, (if_pos hlt.ne').trans (by rw [hk]), ?_, .inr ⟨⟨i, j, k, hmin ▸ hlt, ?_⟩, rfl⟩⟩
    · intro k'
      dsimp only
      rw [set_self]
      exact hscan.le k' (mem_finRange k')
    · rw [← hmin]

/-! ### One round -/

/-- What a round has done once it has passed some pairs. -/
def Progress (d : IntMatrix n) (done : List (Fin n × Fin n)) (p : Paths n) : Prop :=
  p.change = false ∧ p.currentDist = d ∧ (∀ q ∈ done, Settled d q.1 q.2) ∨
    p.change ∧ Relation.TransGen Relax d p.currentDist

lemma Progress.extendPair {done : List (Fin n × Fin n)} (h : Progress d done p) (i j : Fin n) :
    ∃ p', p.extendPair i j = .ok p' ∧ Progress d (done ++ [(i, j)]) p' := by
  obtain ⟨p', hp', hle, hcases⟩ := extendPair_spec p i j
  refine ⟨p', hp', ?_⟩
  rcases h with ⟨hchange, rfl, hdone⟩ | ⟨hchange, hrun⟩
  · rcases hcases with ⟨hdist, hchange'⟩ | ⟨hrelax, hchange'⟩
    · refine .inl ⟨hchange'.trans hchange, hdist, fun q hq => ?_⟩
      rcases mem_append.1 hq with hq | hq
      · exact hdone q hq
      · cases mem_singleton.1 hq
        intro k
        simpa [hdist] using hle k
    · exact .inr ⟨hchange', .single hrelax⟩
  · rcases hcases with ⟨hdist, hchange'⟩ | ⟨hrelax, hchange'⟩
    · exact .inr ⟨hchange'.trans hchange, hdist ▸ hrun⟩
    · exact .inr ⟨hchange', hrun.tail hrelax⟩

/-- A round changes nothing and finds every pair settled, or it makes some distances less. -/
lemma sweep_spec (p : Paths n) : ∃ p', p.sweep = .ok p' ∧
    (p'.change = false ∧ p'.currentDist = p.currentDist ∧ (∀ i j, Settled p.currentDist i j) ∨
      p'.change ∧ Relation.TransGen Relax p.currentDist p'.currentDist) := by
  obtain ⟨p', hp', hprogress⟩ : ∃ p', p.sweep = .ok p' ∧
      Progress p.currentDist (List.finRange n ×ˢ List.finRange n) p' := by
    refine foldlM_ok (P := fun is => Progress p.currentDist (is ×ˢ List.finRange n)) _
      (.inl ⟨rfl, rfl, by simp⟩) ?_
    intro done q i _ hq
    obtain ⟨q', hq', hprogress⟩ := foldlM_ok (f := fun p j => p.extendPair i j) (b := q)
      (P := fun js => Progress p.currentDist (done ×ˢ List.finRange n ++ js.map (i, ·)))
      (List.finRange n) (by simpa using hq) fun {js q1 j} _ hq1 => by
        obtain ⟨q2, hq2, h2⟩ := hq1.extendPair i j
        exact ⟨q2, hq2, by simpa using h2⟩
    refine ⟨q', hq', ?_⟩
    convert hprogress using 1
    simp [SProd.sprod, List.product]
  refine ⟨p', hp', ?_⟩
  rcases hprogress with ⟨hchange, hdist, hall⟩ | hrun
  · exact .inl ⟨hchange, hdist, fun i j => hall (i, j) (by simp)⟩
  · exact .inr hrun

/-! ### Replacements without overflow -/

/-- The sum of any two weights of successive links is an `int`. -/
def Fits (w : IntMatrix n) : Prop := ∀ i k j, w i k + w k j ≤ intMax

/-- The distances are between zero and the weights. -/
def Bounded (w d : IntMatrix n) : Prop := ∀ i j, 0 ≤ d i j ∧ d i j ≤ w i j

lemma Bounded.intAdd_eq (hw : Fits w) (h : Bounded w d) (i k j : Fin n) :
    intAdd (d i k) (d k j) = d i k + d k j := by
  have h1 := h i k
  have h2 := h k j
  have := hw i k j
  exact Topology.intAdd_eq (by omega) (by omega)

lemma IntMatrix.set_le {x : ℤ} (h : x ≤ d i j) (i' j' : Fin n) : d.set i j x i' j' ≤ d i' j' := by
  by_cases hij : i' = i ∧ j' = j
  · rwa [hij.1, hij.2, set_self]
  · rw [set_of_ne _ _ hij]

lemma Relax.le (h : Relax d d') (i j : Fin n) : d' i j ≤ d i j := by
  obtain ⟨i', j', k, hlt, rfl⟩ := h
  exact set_le hlt.le i j

lemma Bounded.relax (hw : Fits w) (h : Bounded w d) (hr : Relax d d') : Bounded w d' := by
  intro i j
  refine ⟨?_, (hr.le i j).trans (h i j).2⟩
  obtain ⟨i', j', k, -, rfl⟩ := hr
  by_cases hij : i = i' ∧ j = j'
  · rw [hij.1, hij.2, set_self, h.intAdd_eq hw]
    exact add_nonneg (h i' k).1 (h k j').1
  · rw [set_of_ne _ _ hij]
    exact (h i j).1

/-- The sum of all distances. -/
def total (d : IntMatrix n) : ℤ := ∑ q : Fin n × Fin n, d q.1 q.2

lemma Bounded.total_nonneg (h : Bounded w d) : 0 ≤ total d :=
  Finset.sum_nonneg fun q _ => (h q.1 q.2).1

lemma Relax.total_lt (h : Relax d d') : total d' < total d := by
  refine Finset.sum_lt_sum (fun q _ => h.le q.1 q.2) ?_
  obtain ⟨i, j, k, hlt, rfl⟩ := h
  exact ⟨(i, j), Finset.mem_univ _, by rwa [set_self]⟩

lemma Bounded.relaxes (hw : Fits w) (h : Bounded w d) (hr : Relation.ReflTransGen Relax d d') :
    Bounded w d' := by
  induction hr with
  | refl => exact h
  | tail _ hstep ih => exact ih.relax hw hstep

lemma total_lt_of_transGen (h : Relation.TransGen Relax d d') : total d' < total d := by
  induction h with
  | single h => exact h.total_lt
  | tail _ h ih => exact h.total_lt.trans ih

/-! ### All rounds -/

variable {fuel : ℕ} {p' : Paths n}

/-- If nothing overflows, the loop ends with all pairs settled. -/
lemma extendShortestPath_spec (hw : Fits w) (h : Bounded w p.currentDist)
    (hfuel : total p.currentDist < fuel) : ∃ p', extendShortestPath fuel p = .ok p' ∧
      Relation.ReflTransGen Relax p.currentDist p'.currentDist ∧
      ∀ i j, Settled p'.currentDist i j := by
  induction fuel generalizing p with
  | zero =>
    have := h.total_nonneg
    omega
  | succ fuel ih =>
    obtain ⟨p1, hp1, hcases⟩ := sweep_spec p
    rw [extendShortestPath, hp1]
    rcases hcases with ⟨hchange, hdist, hall⟩ | ⟨hchange, hrun⟩
    · refine ⟨p1, ?_, hdist ▸ .refl, hdist ▸ hall⟩
      simp [hchange]
    · have hlt := total_lt_of_transGen hrun
      obtain ⟨p2, hp2, hrun2, hall⟩ := ih (h.relaxes hw hrun.to_reflTransGen) (by
        omega)
      refine ⟨p2, ?_, hrun.to_reflTransGen.trans hrun2, hall⟩
      simpa [hchange] using hp2

lemma extendShortestPath_mono {fuel' : ℕ} (hle : fuel ≤ fuel')
    (h : extendShortestPath fuel p = .ok p') : extendShortestPath fuel' p = .ok p' := by
  induction fuel generalizing p fuel' with
  | zero => cases h
  | succ fuel ih =>
    obtain ⟨fuel', rfl⟩ := Nat.exists_eq_add_of_le' (Nat.one_le_of_lt hle)
    obtain ⟨p1, hp1, h⟩ := bind_eq_ok.1 h
    refine bind_eq_ok.2 ⟨p1, hp1, ?_⟩
    split_ifs at h ⊢
    · exact ih (by omega) h
    · exact h

/-! ### The first pair -/

lemma extendPair_le (h : p.extendPair i j = .ok p') (i' j' : Fin n) :
    p'.currentDist i' j' ≤ p.currentDist i' j' := by
  obtain ⟨p1, hp1, -, hcases⟩ := extendPair_spec p i j
  rw [h] at hp1
  cases hp1
  rcases hcases with ⟨hdist, -⟩ | ⟨hrelax, -⟩
  · rw [hdist]
  · exact hrelax.le i' j'

lemma extendRow_le {js : List (Fin n)}
    (h : js.foldlM (fun p j => p.extendPair i j) p = .ok p') (i' j' : Fin n) :
    p'.currentDist i' j' ≤ p.currentDist i' j' :=
  foldlM_invariant (P := fun _ q => q.currentDist i' j' ≤ p.currentDist i' j') h le_rfl
    fun _ hq hstep => (extendPair_le hstep i' j').trans hq

lemma extendRows_le {is : List (Fin n)}
    (h : is.foldlM (fun p i => (List.finRange n).foldlM (fun p j => p.extendPair i j) p) p =
      .ok p') (i' j' : Fin n) : p'.currentDist i' j' ≤ p.currentDist i' j' :=
  foldlM_invariant (P := fun _ q => q.currentDist i' j' ≤ p.currentDist i' j') h le_rfl
    fun _ hq hstep => (extendRow_le hstep i' j').trans hq

lemma extendShortestPath_le (h : extendShortestPath fuel p = .ok p')
    (i j : Fin n) : p'.currentDist i j ≤ p.currentDist i j := by
  induction fuel generalizing p with
  | zero => cases h
  | succ fuel ih =>
    obtain ⟨p1, hp1, h⟩ := bind_eq_ok.1 h
    have hle : p1.currentDist i j ≤ p.currentDist i j := extendRows_le hp1 i j
    split_ifs at h
    · exact (ih h).trans hle
    · cases h
      exact hle

/-- The first pair of the first round is the first switch with itself, and no later step increases
its distance. -/
lemma extendShortestPath_first_le {p p' : Paths (n + 1)}
    (h : extendShortestPath fuel p = .ok p') (k : Fin (n + 1)) :
    p'.currentDist 0 0 ≤ intAdd (p.currentDist 0 k) (p.currentDist k 0) := by
  rcases fuel with _ | fuel
  · cases h
  obtain ⟨p1, hp1, h⟩ := bind_eq_ok.1 h
  have hle : p'.currentDist 0 0 ≤ p1.currentDist 0 0 := by
    split_ifs at h
    · exact extendShortestPath_le h 0 0
    · cases h
      exact le_rfl
  have hcons := finRange_succ (n := n)
  rw [Paths.sweep] at hp1
  nth_rewrite 2 [hcons] at hp1
  rw [foldlM_cons] at hp1
  obtain ⟨p2, hp2, hrows⟩ := bind_eq_ok.1 hp1
  rw [hcons, foldlM_cons] at hp2
  obtain ⟨p3, hp3, hrow⟩ := bind_eq_ok.1 hp2
  have hrows_le := extendRows_le hrows 0 0
  have hrow_le := extendRow_le hrow 0 0
  obtain ⟨p4, hp4, hfirst, -⟩ := extendPair_spec { p with change := false } (0 : Fin (n + 1)) 0
  rw [hp3] at hp4
  cases hp4
  exact hle.trans (hrows_le.trans (hrow_le.trans (hfirst k)))

end ChipletGem5.Topology
