import ChipletGem5.Ruby.TopologyPaths

/-!
# Routing entries of topologies

What `createLinks` computes for the links of a topology.  The distances are the least weights of
walks along the links, and a link has a node in its routing entry exactly if it is the first link
of a walk of least weight to the output of this node.  Following such links therefore leads to the
node, over a walk of least weight.
-/

namespace ChipletGem5.Topology

open List Nat

variable {t : Topology} {d : IntMatrix t.numSwitches} {i j k : Fin t.numSwitches}

/-- A link of the topology, with its weight. -/
def Edge (t : Topology) (i j : Fin t.numSwitches) (a : ℤ) : Prop :=
  ∃ e, t.link? i j = some e ∧ e.link.weight = a

/-- All weights are at least one. -/
def Positive (t : Topology) : Prop := ∀ src dest e, t.link? src dest = some e → 1 ≤ e.link.weight

variable {e : LinkEntry} {c : ℤ} {src dest node : ℕ} {final : Fin t.numSwitches}

lemma topologyWeights_of_link (h : t.link? i j = some e) :
    t.topologyWeights i j = e.link.weight := by
  rw [topologyWeights, h]

lemma topologyWeights_self (h : t.link? i i = none) : t.topologyWeights i i = 0 := by
  rw [topologyWeights, h]
  exact if_pos rfl

lemma topologyWeights_of_ne (h : t.link? i j = none) (hne : i ≠ j) :
    t.topologyWeights i j = infiniteLatency := by
  rw [topologyWeights, h]
  exact if_neg hne

/-! ### Distances -/

/-- A distance that is not infinite is the weight of a walk. -/
def Sound (t : Topology) (d : IntMatrix t.numSwitches) : Prop :=
  ∀ i j, infiniteLatency ≤ d i j ∨ Walk t.Edge i j (d i j)

lemma sound_topologyWeights : Sound t t.topologyWeights := by
  intro i j
  rcases hlink : t.link? i j with _ | e
  · by_cases hij : i = j
    · subst hij
      rw [topologyWeights_self hlink]
      exact .inr (.nil i)
    · rw [topologyWeights_of_ne hlink hij]
      exact .inl le_rfl
  · exact .inr (.single ⟨e, hlink, (topologyWeights_of_link hlink).symm⟩)

lemma Positive.bounded (h : t.Positive) : Bounded t.topologyWeights t.topologyWeights := by
  intro i j
  refine ⟨?_, le_rfl⟩
  rcases hlink : t.link? i j with _ | e
  · rw [topologyWeights, hlink]
    split_ifs
    · exact le_rfl
    · exact (by decide : (0 : ℤ) ≤ infiniteLatency)
  · rw [topologyWeights_of_link hlink]
    exact zero_le_one.trans (h _ _ _ hlink)

lemma Sound.relax {w d' : IntMatrix t.numSwitches} (hw : Fits w) (hb : Bounded w d)
    (h : t.Sound d) (hr : Relax d d') : t.Sound d' := by
  obtain ⟨i, j, k, -, rfl⟩ := hr
  intro i' j'
  by_cases hij : i' = i ∧ j' = j
  · rw [hij.1, hij.2, IntMatrix.set_self, hb.intAdd_eq hw]
    have h1 := (hb i k).1
    have h2 := (hb k j).1
    rcases h i k with hik | hik
    · exact .inl (by omega)
    · rcases h k j with hkj | hkj
      · exact .inl (by omega)
      · exact .inr (hik.trans hkj)
  · rw [IntMatrix.set_of_ne _ _ hij]
    exact h i' j'

lemma Sound.relaxes {w d' : IntMatrix t.numSwitches} (hw : Fits w) (hb : Bounded w d)
    (h : t.Sound d) (hr : Relation.ReflTransGen Relax d d') : t.Sound d' := by
  induction hr with
  | refl => exact h
  | tail hrun hstep ih => exact ih.relax hw (hb.relaxes hw hrun) hstep

/-- What is known about the distances when the loop has ended. -/
structure Final (t : Topology) (d : IntMatrix t.numSwitches) : Prop where
  bounded : Bounded t.topologyWeights d
  sound : t.Sound d
  triangle : ∀ i k j, d i j ≤ d i k + d k j

lemma dist_spec (hpos : t.Positive) (hfits : Fits t.topologyWeights) :
    ∃ N d, t.Final d ∧ ∀ fuel, N ≤ fuel → t.dist fuel = .ok d := by
  obtain ⟨fuel, hfuel⟩ : ∃ fuel : ℕ, total t.topologyWeights < fuel :=
    ⟨(total t.topologyWeights).toNat + 1, by push_cast; omega⟩
  have hb := hpos.bounded
  obtain ⟨p, hp, hrun, hsettled⟩ := extendShortestPath_spec
    (p := ⟨t.topologyWeights, t.componentLatencies, fun _ _ => 0, true⟩) hfits hb hfuel
  refine ⟨fuel, p.currentDist, ⟨hb.relaxes hfits hrun,
    sound_topologyWeights.relaxes hfits hb hrun, ?_⟩, ?_⟩
  · intro i k j
    rw [← (hb.relaxes hfits hrun).intAdd_eq hfits]
    exact hsettled i j k
  · intro fuel' hle
    exact bind_eq_ok.2 ⟨p, extendShortestPath_mono hle hp, rfl⟩

/-- Every least weight of a walk is less than `INFINITE_LATENCY`. -/
def Short (t : Topology) : Prop := ∀ i j c, Distance t.Edge i j c → c < infiniteLatency

lemma exists_distance (hpos : t.Positive) (h : Walk t.Edge i j c) : ∃ c, Distance t.Edge i j c := by
  have hnonneg : ∀ c, Walk t.Edge i j c → 0 ≤ c := by
    intro c hc
    refine hc.nonneg ?_
    rintro u v a ⟨e, he, rfl⟩
    exact zero_le_one.trans (hpos _ _ _ he)
  obtain ⟨m, hm, hleast⟩ := Int.exists_least_of_bdd (P := fun c => Walk t.Edge i j c)
    ⟨0, hnonneg⟩ ⟨c, h⟩
  exact ⟨m, hm, hleast⟩

lemma Final.self (h : t.Final d) (hi : t.link? i i = none) : d i i = 0 := by
  have := h.bounded i i
  rw [topologyWeights_self hi] at this
  omega

/-- The distance between switches that a walk joins is the least weight of such walks. -/
lemma Final.distance (h : t.Final d) (hpos : t.Positive) (hshort : t.Short)
    (hij : i ≠ j ∨ t.link? i i = none) (hwalk : Walk t.Edge i j c) :
    Distance t.Edge i j (d i j) := by
  obtain ⟨c, hc⟩ := exists_distance hpos hwalk
  have hlt := hshort i j c hc
  have hle : ∀ c', Walk t.Edge i j c' → d i j ≤ c' := by
    intro c' hc'
    have hedge : ∀ u v a, t.Edge u v a → d u v ≤ a := by
      rintro u v a ⟨e, he, rfl⟩
      rw [← topologyWeights_of_link he]
      exact (h.bounded u v).2
    rcases hc'.le_of_triangle hedge h.triangle with ⟨rfl, rfl⟩ | hle
    · rw [h.self (hij.resolve_left (not_not.2 rfl))]
    · exact hle
  have hsound := h.sound i j
  have := hle c hc.1
  exact ⟨hsound.resolve_left (by omega), hle⟩

lemma Final.infinite (h : t.Final d) (hno : ∀ c, ¬ Walk t.Edge i j c) :
    d i j = infiniteLatency := by
  have hne : i ≠ j := by
    rintro rfl
    exact hno 0 (.nil i)
  have hlink : t.link? i j = none := by
    rcases hlink : t.link? i j with _ | e
    · rfl
    · exact absurd (.single ⟨e, hlink, rfl⟩) (hno e.link.weight)
  have hle := (h.bounded i j).2
  rw [topologyWeights_of_ne hlink hne] at hle
  exact le_antisymm hle ((h.sound i j).resolve_right (hno _))

/-! ### Links -/

/-- A link leads from an input of a node to a router, or from a router to an output of a node or
a router. -/
def Placed (nodes src dest : ℕ) : Prop :=
  src < nodes ∧ 2 * nodes ≤ dest ∨ 2 * nodes ≤ src ∧ nodes ≤ dest

/-- Every link is between switches where it may be. -/
def WellPlaced (t : Topology) : Prop :=
  ∀ src dest e, t.link? src dest = some e → Placed t.nodes src dest

lemma mem_of_link? (h : t.link? src dest = some e) : ((src, dest), e) ∈ t.linkMap := by
  obtain ⟨l1, l2, heq, -⟩ := lookup_eq_some_iff.1 h
  simp [heq]

lemma le_maxSwitch {l : List ((ℕ × ℕ) × LinkEntry)} {m : ℕ} :
    m ≤ l.foldl (fun m e => max (max m e.1.1) e.1.2) m ∧
      ∀ q ∈ l, q.1.1 ≤ l.foldl (fun m e => max (max m e.1.1) e.1.2) m ∧
        q.1.2 ≤ l.foldl (fun m e => max (max m e.1.1) e.1.2) m := by
  induction l generalizing m with
  | nil => simp
  | cons q l ih =>
    obtain ⟨hm, hall⟩ := @ih (max (max m q.1.1) q.1.2)
    rw [foldl_cons]
    refine ⟨by omega, fun q' hq' => ?_⟩
    rcases mem_cons.1 hq' with rfl | hq'
    · omega
    · exact hall q' hq'

lemma lt_numSwitches_of_link? (h : t.link? src dest = some e) :
    src < t.numSwitches ∧ dest < t.numSwitches := by
  obtain ⟨h1, h2⟩ := le_maxSwitch.2 _ (mem_of_link? h)
  exact ⟨lt_succ_of_le h1, lt_succ_of_le h2⟩

lemma outputSwitch?_isSome (hplaced : t.WellPlaced)
    (h : t.link? src dest = some e) (hnode : node < t.nodes) :
    ∃ final, outputSwitch? t.numSwitches t.nodes node = some final := by
  have := hplaced src dest e h
  have := lt_numSwitches_of_link? h
  rw [Placed] at *
  exact ⟨_, dif_pos (by omega)⟩

/-- The switches at the ends of a link that is made. -/
def MadeLink.ends (nodes : ℕ) : MadeLink → ℕ × ℕ
  | .extIn src dest _ _ => (src, dest + 2 * nodes)
  | .extOut src dest _ _ => (src + 2 * nodes, dest + nodes)
  | .internal src dest _ _ _ _ => (src + 2 * nodes, dest + 2 * nodes)

/-- The routing entry of a link that is made. -/
def MadeLink.entry : MadeLink → NetDest
  | .extIn _ _ _ entry | .extOut _ _ _ entry | .internal _ _ _ entry _ _ => entry

/-- A link from `i` to `j` is made that lists the node. -/
def Lists (t : Topology) (made : List MadeLink) (node : ℕ) (i j : Fin t.numSwitches) : Prop :=
  ∃ l ∈ made, l.ends t.nodes = (↑i, ↑j) ∧ node ∈ l.entry

/-- The link from `i` to `j` is the first one on a shortest path to the node. -/
def OnPath (t : Topology) (d : IntMatrix t.numSwitches) (node : ℕ) (i j : Fin t.numSwitches) :
    Prop :=
  node < t.nodes ∧ 0 < t.topologyWeights i j ∧ t.topologyWeights i j ≠ infiniteLatency ∧
    ∃ final, outputSwitch? t.numSwitches t.nodes node = some final ∧
      linkIsShortestPathToNode i j final t.topologyWeights d

/-- `shortest_path_to_node` finds the nodes that the link is on a shortest path to. -/
lemma shortestPathToNode_spec {n nodes : ℕ} {i j : Fin n} {w d : IntMatrix n}
    (hout : ∀ node < nodes, ∃ final, outputSwitch? n nodes node = some final) :
    ∃ entry, shortestPathToNode nodes i j w d = .ok entry ∧ ∀ node, node ∈ entry ↔
      node < nodes ∧ ∃ final, outputSwitch? n nodes node = some final ∧
        linkIsShortestPathToNode i j final w d := by
  obtain ⟨entry, hentry, hspec⟩ : ∃ entry, shortestPathToNode nodes i j w d = .ok entry ∧
      ∀ node, node ∈ entry ↔ node ∈ List.range nodes ∧
        ∃ final, outputSwitch? n nodes node = some final ∧
          linkIsShortestPathToNode i j final w d := by
    refine foldlM_ok (P := fun done entry => ∀ node, node ∈ entry ↔ node ∈ done ∧
      ∃ final, outputSwitch? n nodes node = some final ∧
        linkIsShortestPathToNode i j final w d) _ (by simp) ?_
    intro done entry x hx hdone
    obtain ⟨final, hfinal⟩ := hout x (mem_range.1 (hx.subset (by simp)))
    refine ⟨_, bind_eq_ok.2 ⟨final, getOrError_eq_ok.2 hfinal, rfl⟩, fun node => ?_⟩
    rw [mem_append, mem_singleton, or_and_right, ← hdone]
    split_ifs with hpath
    · rw [Finset.mem_insert, or_comm]
      refine or_congr_right ⟨?_, And.left⟩
      rintro rfl
      exact ⟨rfl, final, hfinal, hpath⟩
    · refine ⟨Or.inl, ?_⟩
      rintro (hnode | ⟨rfl, final', hfinal', hpath'⟩)
      · exact hnode
      · rw [hfinal] at hfinal'
        cases hfinal'
        exact absurd hpath' hpath
  exact ⟨entry, hentry, by simpa using hspec⟩

lemma makeLink_spec (hplaced : t.WellPlaced) (h : t.link? src dest = some e) (entry : NetDest) :
    ∃ l, t.makeLink src dest entry = .ok l ∧ l.ends t.nodes = (src, dest) ∧ l.entry = entry := by
  have hends : (src ≥ 2 * t.nodes || dest ≥ 2 * t.nodes) := by
    rcases hplaced src dest e h with ⟨-, hdest⟩ | ⟨hsrc, -⟩
    · simp [hdest]
    · simp [hsrc]
  rw [makeLink, require, if_pos hends, h]
  simp only [getOrError, ok_bind]
  rcases hplaced src dest e h with ⟨hsrc, hdest⟩ | ⟨hsrc, hdest⟩
  · refine ⟨_, if_pos hsrc, ?_, rfl⟩
    rw [MadeLink.ends, Nat.sub_add_cancel hdest]
  · have hnot : ¬ src < t.nodes := by omega
    split_ifs with hout
    · refine ⟨_, bind_eq_ok.2 ⟨(), require_eq_ok.2 (decide_eq_true hdest), rfl⟩, ?_, rfl⟩
      rw [MadeLink.ends, Nat.sub_add_cancel hsrc, Nat.sub_add_cancel hdest]
    · have hdest' : 2 * t.nodes ≤ dest := not_lt.1 hout
      refine ⟨_, bind_eq_ok.2 ⟨(), require_eq_ok.2 (by simp [hsrc, hdest']), rfl⟩, ?_, rfl⟩
      rw [MadeLink.ends, Nat.sub_add_cancel hsrc, Nat.sub_add_cancel hdest']

lemma makeLink_cases {entry : NetDest} {l : MadeLink}
    (h : t.makeLink src dest entry = .ok l) : ∃ e, t.link? src dest = some e ∧
      (src < t.nodes ∧ l = .extIn src (dest - 2 * t.nodes) e.link entry ∨
        t.nodes ≤ src ∧ dest < 2 * t.nodes ∧
          l = .extOut (src - 2 * t.nodes) (dest - t.nodes) e.link entry ∨
        2 * t.nodes ≤ src ∧ 2 * t.nodes ≤ dest ∧
          l = .internal (src - 2 * t.nodes) (dest - 2 * t.nodes) e.link entry e.srcOutportDirn
            e.dstInportDirn) := by
  obtain ⟨-, -, h⟩ := bind_eq_ok.1 h
  obtain ⟨e, he, h⟩ := bind_eq_ok.1 h
  refine ⟨e, getOrError_eq_ok.1 he, ?_⟩
  split_ifs at h with hsrc hdest
  · exact .inl ⟨hsrc, (pure_eq_ok.1 h).symm⟩
  · obtain ⟨-, -, h⟩ := bind_eq_ok.1 h
    exact .inr (.inl ⟨not_lt.1 hsrc, hdest, (pure_eq_ok.1 h).symm⟩)
  · obtain ⟨_, hboth, h⟩ := bind_eq_ok.1 h
    rw [require_eq_ok, Bool.and_eq_true, decide_eq_true_eq, decide_eq_true_eq] at hboth
    exact .inr (.inr ⟨hboth.1, hboth.2, (pure_eq_ok.1 h).symm⟩)

lemma exists_link? (hpos : 0 < t.topologyWeights i j)
    (hne : t.topologyWeights i j ≠ infiniteLatency) : ∃ e, t.link? i j = some e := by
  rcases hlink : t.link? i j with _ | e
  · by_cases hij : i = j
    · subst hij
      exact absurd (topologyWeights_self hlink) hpos.ne'
    · exact absurd (topologyWeights_of_ne hlink hij) hne
  · exact ⟨e, rfl⟩

/-- A link is made between two switches, as its entry in the map has it; it lists the nodes that
it is on a shortest path to. -/
def MadeFor (t : Topology) (d : IntMatrix t.numSwitches) (l : MadeLink)
    (q : Fin t.numSwitches × Fin t.numSwitches) : Prop :=
  l.ends t.nodes = (↑q.1, ↑q.2) ∧ t.makeLink q.1 q.2 l.entry = .ok l ∧
    ∀ node, node ∈ l.entry ↔ t.OnPath d node q.1 q.2

lemma MadeFor.pair_eq {l : MadeLink} {q : Fin t.numSwitches × Fin t.numSwitches}
    (h : t.MadeFor d l q) (hends : l.ends t.nodes = (↑i, ↑j)) : q = (i, j) := by
  have := h.1.symm.trans hends
  simpa [Prod.ext_iff, Fin.val_inj] using this

/-- The weight is that of a link. -/
def hasLink (t : Topology) (q : Fin t.numSwitches × Fin t.numSwitches) : Bool :=
  t.topologyWeights q.1 q.2 > 0 ∧ t.topologyWeights q.1 q.2 ≠ infiniteLatency

/-- The links that are made once the loops of `createLinks` have passed some pairs. -/
structure MadeSpec (t : Topology) (d : IntMatrix t.numSwitches)
    (done : List (Fin t.numSwitches × Fin t.numSwitches)) (made : List MadeLink) : Prop where
  ends : made.map (·.ends t.nodes) = (done.filter t.hasLink).map fun q => (↑q.1, ↑q.2)
  madeFor : ∀ l ∈ made, ∃ q, t.MadeFor d l q

lemma MadeSpec.createLink (hplaced : t.WellPlaced) {made : List MadeLink}
    {done : List (Fin t.numSwitches × Fin t.numSwitches)} (h : t.MadeSpec d done made)
    (i j : Fin t.numSwitches) :
    ∃ made', t.createLink d made i j = .ok made' ∧ t.MadeSpec d (done ++ [(i, j)]) made' := by
  by_cases hweight : t.topologyWeights i j > 0 ∧ t.topologyWeights i j ≠ infiniteLatency
  · obtain ⟨e, he⟩ := exists_link? hweight.1 hweight.2
    obtain ⟨entry, hentry, hspec⟩ := shortestPathToNode_spec (i := i) (j := j)
      (w := t.topologyWeights) (d := d) fun node hnode => outputSwitch?_isSome hplaced he hnode
    obtain ⟨l, hl, hends, rfl⟩ := makeLink_spec hplaced he entry
    refine ⟨made ++ [l], ?_, ?_, ?_⟩
    · refine (if_pos hweight).trans ?_
      exact bind_eq_ok.2 ⟨l.entry, hentry, bind_eq_ok.2 ⟨l, hl, rfl⟩⟩
    · simp [h.ends, hends, hasLink, hweight]
    · intro l' hl'
      rcases mem_append.1 hl' with hl' | hl'
      · exact h.madeFor l' hl'
      · cases mem_singleton.1 hl'
        refine ⟨(i, j), hends, hl, fun node => ?_⟩
        rw [hspec, OnPath]
        exact and_congr_right fun _ =>
          ⟨fun hpath => ⟨hweight.1, hweight.2, hpath⟩, fun h => h.2.2⟩
  · refine ⟨made, if_neg hweight, ?_, h.madeFor⟩
    have hfilter : [(i, j)].filter t.hasLink = [] := by simpa [hasLink] using hweight
    rw [h.ends, filter_append, hfilter, append_nil]

lemma createLinks_spec (hplaced : t.WellPlaced) {fuel : ℕ} (hdist : t.dist fuel = .ok d) :
    ∃ made, t.createLinks fuel = .ok made ∧
      t.MadeSpec d (List.finRange t.numSwitches ×ˢ List.finRange t.numSwitches) made := by
  rw [createLinks, hdist]
  refine foldlM_ok (P := fun is => t.MadeSpec d (is ×ˢ List.finRange t.numSwitches)) _
    ⟨rfl, by simp⟩ ?_
  intro is made i _ hmade
  obtain ⟨made', hmade', hspec⟩ := foldlM_ok (f := fun made j => t.createLink d made i j)
    (b := made) (P := fun js => t.MadeSpec d (is ×ˢ List.finRange t.numSwitches ++ js.map (i, ·)))
    (List.finRange t.numSwitches) (by simpa using hmade) fun {js made1 j} _ h1 => by
      obtain ⟨made2, hmade2, h2⟩ := h1.createLink hplaced i j
      exact ⟨made2, hmade2, by simpa using h2⟩
  refine ⟨made', hmade', ?_⟩
  convert hspec using 1
  simp [SProd.sprod, List.product]

section Made

variable {made : List MadeLink}
  (h : t.MadeSpec d (List.finRange t.numSwitches ×ˢ List.finRange t.numSwitches) made)

include h in
lemma MadeSpec.nodup : (made.map (·.ends t.nodes)).Nodup := by
  rw [h.ends]
  refine List.Nodup.map ?_ (((nodup_finRange _).product (nodup_finRange _)).filter _)
  intro q q' heq
  simpa [Prod.ext_iff, Fin.val_inj] using heq

include h in
lemma MadeSpec.exists_link (hw : t.hasLink (i, j)) : ∃ l ∈ made, t.MadeFor d l (i, j) := by
  have hmem : ((i : ℕ), (j : ℕ)) ∈ made.map (·.ends t.nodes) := by
    rw [h.ends]
    exact mem_map.2 ⟨(i, j), mem_filter.2 ⟨by simp, hw⟩, rfl⟩
  obtain ⟨l, hl, hends⟩ := mem_map.1 hmem
  obtain ⟨q, hq⟩ := h.madeFor l hl
  exact ⟨l, hl, hq.pair_eq hends ▸ hq⟩

include h in
lemma MadeSpec.lists_iff (node : ℕ) : t.Lists made node i j ↔ t.OnPath d node i j := by
  constructor
  · rintro ⟨l, hl, hends, hnode⟩
    obtain ⟨q, hq⟩ := h.madeFor l hl
    rw [hq.pair_eq hends] at hq
    exact (hq.2.2 node).1 hnode
  · intro hpath
    obtain ⟨l, hl, hfor⟩ := h.exists_link (i := i) (j := j)
      (decide_eq_true ⟨hpath.2.1, hpath.2.2.1⟩)
    exact ⟨l, hl, hfor.1, (hfor.2.2 node).2 hpath⟩

end Made

/-! ### Routes -/

/-- The switch is the output of the node. -/
def IsOutput (t : Topology) (node : ℕ) (final : Fin t.numSwitches) : Prop :=
  node < t.nodes ∧ (final : ℕ) = node + t.nodes

/-- A link that lists the node, with its weight. -/
def ListedEdge (t : Topology) (made : List MadeLink) (node : ℕ) (i j : Fin t.numSwitches) (a : ℤ) :
    Prop :=
  t.Edge i j a ∧ t.Lists made node i j

lemma outputSwitch?_eq_some :
    node < t.nodes ∧ outputSwitch? t.numSwitches t.nodes node = some final ↔
      t.IsOutput node final := by
  rw [IsOutput, outputSwitch?]
  refine and_congr_right fun _ => ?_
  split_ifs with h
  · rw [Option.some.injEq, ← Fin.val_inj, eq_comm]
  · refine ⟨nofun, fun heq => absurd final.isLt ?_⟩
    rwa [heq]

lemma WellPlaced.link?_output (hplaced : t.WellPlaced)
    (hfinal : t.IsOutput node final) (j : ℕ) : t.link? final j = none := by
  rcases hlink : t.link? final j with _ | e
  · rfl
  · have hp := hplaced final j e hlink
    rw [Placed, hfinal.2] at hp
    have := hfinal.1
    omega

lemma WellPlaced.walk_output (hplaced : t.WellPlaced)
    (hfinal : t.IsOutput node final) (h : Walk t.Edge final j c) : final = j := by
  cases h with
  | nil => rfl
  | cons hedge _ =>
    obtain ⟨e, he, -⟩ := hedge
    rw [hplaced.link?_output hfinal] at he
    cases he

section Routes

variable (hplaced : t.WellPlaced) (hpos : t.Positive) (hfits : Fits t.topologyWeights)
  (hshort : t.Short) (hd : t.Final d) {node : ℕ} {final : Fin t.numSwitches}
  (hfinal : t.IsOutput node final)

include hplaced hd hfinal in
lemma Final.output : d final final = 0 := hd.self (hplaced.link?_output hfinal final)

include hfits hd in
lemma Final.onPath_iff (hfinal : t.IsOutput node final) : t.OnPath d node i j ↔
    0 < t.topologyWeights i j ∧ t.topologyWeights i j ≠ infiniteLatency ∧
      t.topologyWeights i j + d j final = d i final := by
  have hsum : intAdd (t.topologyWeights i j) (d j final) = t.topologyWeights i j + d j final := by
    have h1 := hd.bounded i j
    have h2 := hd.bounded j final
    have := hfits i j final
    exact intAdd_eq (by omega) (by omega)
  constructor
  · rintro ⟨hnode, hw, hne, final', hfinal', hpath⟩
    obtain rfl : final' = final := Fin.val_inj.1
      ((outputSwitch?_eq_some.1 ⟨hnode, hfinal'⟩).2.trans hfinal.2.symm)
    exact ⟨hw, hne, hsum ▸ of_decide_eq_true hpath⟩
  · rintro ⟨hw, hne, hpath⟩
    obtain ⟨hnode, hout⟩ := outputSwitch?_eq_some.2 hfinal
    exact ⟨hnode, hw, hne, final, hout, decide_eq_true (hsum.trans hpath)⟩

include hplaced hpos hfits hshort hd hfinal in
lemma Final.exists_onPath (hwalk : Walk t.Edge i final c) (hne : i ≠ final) :
    ∃ j, t.OnPath d node i j := by
  have hdist := hd.distance hpos hshort (.inl hne) hwalk
  obtain ⟨j, a, ⟨e, he, rfl⟩, hrest⟩ := hdist.first_edge hne
  have hself : j ≠ final ∨ t.link? j j = none := by
    by_cases hj : j = final
    · exact .inr (hj ▸ hplaced.link?_output hfinal _)
    · exact .inl hj
  have heq : d j final = d i final - e.link.weight :=
    (hd.distance hpos hshort hself hrest.1).unique hrest
  have hweight := topologyWeights_of_link he
  have hlt := hshort i final _ hdist
  have h1 := hpos _ _ _ he
  have h2 := (hd.bounded j final).1
  refine ⟨j, (hd.onPath_iff hfits hfinal).2 ⟨?_, ?_, ?_⟩⟩ <;> rw [hweight] <;> omega

end Routes

/-- The distances are least weights, and the links that are made lead to every node. -/
structure RoutesCorrectly (t : Topology) (d : IntMatrix t.numSwitches) (made : List MadeLink) :
    Prop where
  /-- A distance is the least weight of a walk.  A link from a switch to itself takes the place of
  the empty walk. -/
  distance : ∀ (i j : Fin t.numSwitches) c, i ≠ j ∨ t.link? i i = none → Walk t.Edge i j c →
    Distance t.Edge i j (d i j)
  infinite : ∀ i j, (∀ c, ¬ Walk t.Edge i j c) → d i j = infiniteLatency
  /-- A switch that reaches a node has a link that lists it. -/
  lists : ∀ i node final c, t.IsOutput node final → Walk t.Edge i final c → i ≠ final →
    ∃ j, t.Lists made node i j
  closer : ∀ i j node final, t.IsOutput node final → t.Lists made node i j → d j final < d i final
  /-- Following links that list a node makes up the distance to it. -/
  route : ∀ i j node final c, t.IsOutput node final → Walk (t.ListedEdge made node) i j c →
    c + d j final = d i final
  /-- Such a route does not end before it is at the node. -/
  reaches : ∀ i j node final c c', t.IsOutput node final → Walk t.Edge i final c →
    Walk (t.ListedEdge made node) i j c' → j = final ∨ ∃ k, t.Lists made node j k
  noLoop : ∀ i j node final a c, t.IsOutput node final → t.ListedEdge made node i j a →
    ¬ Walk (t.ListedEdge made node) j i c

section Routes

variable (hplaced : t.WellPlaced) (hpos : t.Positive) (hfits : Fits t.topologyWeights)
  (hshort : t.Short) (hd : t.Final d) {made : List MadeLink}
  (hmade : ∀ node i j, t.Lists made node i j ↔ t.OnPath d node i j)

include hfits hd hmade in
lemma Final.listedEdge (hfinal : t.IsOutput node final)
    {a : ℤ} (h : t.ListedEdge made node i j a) : 0 < a ∧ d i final = a + d j final := by
  obtain ⟨⟨e, he, rfl⟩, hlists⟩ := h
  obtain ⟨hw, -, heq⟩ := (hd.onPath_iff hfits hfinal).1 ((hmade _ _ _).1 hlists)
  rw [topologyWeights_of_link he] at hw heq
  exact ⟨hw, heq.symm⟩

include hplaced hpos hfits hshort hd hmade in
lemma Final.routesCorrectly : t.RoutesCorrectly d made := by
  have hroute : ∀ i j node final c, t.IsOutput node final →
      Walk (t.ListedEdge made node) i j c → c + d j final = d i final := by
    intro i j node final c hfinal hwalk
    exact (hwalk.potential_eq (f := fun u => d u final) fun u v a h =>
      (hd.listedEdge hfits hmade hfinal h).2).symm
  have hlists : ∀ i node final c, t.IsOutput node final → Walk t.Edge i final c → i ≠ final →
      ∃ j, t.Lists made node i j := by
    intro i node final c hfinal hwalk hne
    obtain ⟨j, hj⟩ := hd.exists_onPath hplaced hpos hfits hshort hfinal hwalk hne
    exact ⟨j, (hmade _ _ _).2 hj⟩
  constructor
  case distance => exact fun i j c hij hwalk => hd.distance hpos hshort hij hwalk
  case infinite => exact fun i j hno => hd.infinite hno
  case lists => exact hlists
  case closer =>
    intro i j node final hfinal h
    obtain ⟨hw, -, heq⟩ := (hd.onPath_iff hfits hfinal).1 ((hmade _ _ _).1 h)
    omega
  case route => exact hroute
  case reaches =>
    intro i j node final c c' hfinal hwalk hlisted
    by_cases hj : j = final
    · exact .inl hj
    · -- the distance left is not infinite, so that a walk leads to the node
      have hsum := hroute i j node final c' hfinal hlisted
      have hnonneg : 0 ≤ c' := hlisted.nonneg fun u v a h =>
        (hd.listedEdge hfits hmade hfinal h).1.le
      have hlt : d i final < infiniteLatency := by
        by_cases hi : i = final
        · rw [hi, hd.output hplaced hfinal]
          decide
        · exact hshort _ _ _ (hd.distance hpos hshort (.inl hi) hwalk)
      have hwalk' := (hd.sound j final).resolve_left (by omega)
      exact .inr (hlists j node final _ hfinal hwalk' hj)
  case noLoop =>
    intro i j node final a c hfinal hedge hwalk
    have hsum := hroute j i node final c hfinal hwalk
    have hnonneg : 0 ≤ c := hwalk.nonneg fun u v a h => (hd.listedEdge hfits hmade hfinal h).1.le
    obtain ⟨hpos, heq⟩ := hd.listedEdge hfits hmade hfinal hedge
    omega

end Routes

/-! ### Topologies that are constructed -/

section New

variable {nodes routers : ℕ} {extLinks : List (ExtLink nodes routers)}
  {intLinks : List (IntLink routers)}

/-- The entries of an external link in the map of links. -/
def ExtLink.entries (l : ExtLink nodes routers) : List ((ℕ × ℕ) × LinkEntry) :=
  [((↑l.extNode, l.intNode + 2 * nodes), ⟨l.toBasicLink, "", ""⟩),
    ((l.intNode + 2 * nodes, l.extNode + nodes), ⟨l.toBasicLink, "", ""⟩)]

/-- The entry of an internal link in the map of links. -/
def IntLink.mapEntry (nodes : ℕ) (l : IntLink routers) : (ℕ × ℕ) × LinkEntry :=
  ((l.srcNode + 2 * nodes, l.dstNode + 2 * nodes), ⟨l.toBasicLink, l.srcOutport, l.dstInport⟩)

lemma addLink_spec {t' : Topology} (h : t.addLink src dest e = .ok t') :
    t'.nodes = t.nodes ∧ t'.linkMap = ((src, dest), e) :: t.linkMap := by
  obtain ⟨-, -, h⟩ := bind_eq_ok.1 h
  obtain ⟨-, -, rfl⟩ := bind_pure_eq_ok.1 h
  exact ⟨rfl, rfl⟩

section

variable (h : new nodes routers extLinks intLinks = .ok t)
include h

lemma new_spec : t.nodes = nodes ∧ ∀ q, q ∈ t.linkMap ↔
      (∃ l ∈ extLinks, q ∈ l.entries) ∨ ∃ l ∈ intLinks, q = l.mapEntry nodes := by
  obtain ⟨-, -, h⟩ := bind_eq_ok.1 h
  obtain ⟨t1, ht1, h⟩ := bind_eq_ok.1 h
  have h1 : t1.nodes = nodes ∧ ∀ q, q ∈ t1.linkMap ↔ ∃ l ∈ extLinks, q ∈ l.entries := by
    apply foldlM_invariant ht1 ⟨rfl, by simp⟩
    intro done t l t' _ ht hadd
    obtain ⟨t2, hadd1, hadd2⟩ := bind_eq_ok.1 hadd
    obtain ⟨hnodes1, hmap1⟩ := addLink_spec hadd1
    obtain ⟨hnodes2, hmap2⟩ := addLink_spec hadd2
    refine ⟨(hnodes2.trans hnodes1).trans ht.1, fun q => ?_⟩
    have hl : q ∈ l.entries ↔ q ∈ [l].flatMap ExtLink.entries := by simp
    rw [hmap2, hmap1, mem_cons, mem_cons, ht.2, ← mem_flatMap, ← mem_flatMap,
      flatMap_append, mem_append, ← hl, ExtLink.entries, mem_pair, or_comm]
    tauto
  apply foldlM_invariant h (by simpa using h1)
  intro done t l t' _ ht hadd
  obtain ⟨hnodes, hmap⟩ := addLink_spec hadd
  refine ⟨hnodes.trans ht.1, fun q => ?_⟩
  rw [hmap, mem_cons, ht.2]
  simp only [mem_append, mem_singleton, or_and_right, exists_or, exists_eq_left]
  exact or_comm.trans or_assoc

lemma wellPlaced_of_new : t.WellPlaced := by
  obtain ⟨hnodes, hmap⟩ := new_spec h
  intro src dest e he
  rw [hnodes]
  rcases (hmap _).1 (mem_of_link? he) with ⟨l, -, hl⟩ | ⟨l, -, hl⟩
  · simp only [ExtLink.entries, mem_cons, not_mem_nil, or_false, Prod.mk.injEq] at hl
    rcases hl with ⟨⟨rfl, rfl⟩, -⟩ | ⟨⟨rfl, rfl⟩, -⟩
    · exact .inl ⟨l.extNode.isLt, by omega⟩
    · exact .inr ⟨by omega, by omega⟩
  · obtain ⟨⟨rfl, rfl⟩, -⟩ := hl
    exact .inr ⟨by omega, by omega⟩

lemma positive_of_new (hext : ∀ l ∈ extLinks, 1 ≤ l.weight) (hint : ∀ l ∈ intLinks, 1 ≤ l.weight) :
    t.Positive := by
  intro src dest e he
  rcases ((new_spec h).2 _).1 (mem_of_link? he) with ⟨l, hmem, hl⟩ | ⟨l, hmem, hl⟩
  · simp only [ExtLink.entries, mem_cons, not_mem_nil, or_false, Prod.mk.injEq] at hl
    rcases hl with ⟨-, rfl⟩ | ⟨-, rfl⟩ <;> exact hext l hmem
  · obtain ⟨-, rfl⟩ := hl
    exact hint l hmem

end

/-- The distances and the routing entries of every topology whose weights are at least one, if all
least weights of walks are less than `INFINITE_LATENCY` and no sum of two weights overflows. -/
theorem createLinks_routesCorrectly (h : new nodes routers extLinks intLinks = .ok t)
    (hext : ∀ l ∈ extLinks, 1 ≤ l.weight) (hint : ∀ l ∈ intLinks, 1 ≤ l.weight)
    (hshort : t.Short) (hfits : Fits t.topologyWeights) :
    ∃ N d made, t.RoutesCorrectly d made ∧
      ∀ fuel, N ≤ fuel → t.dist fuel = .ok d ∧ t.createLinks fuel = .ok made := by
  have hplaced := wellPlaced_of_new h
  have hpos := positive_of_new h hext hint
  obtain ⟨N, d, hd, hdist⟩ := dist_spec hpos hfits
  obtain ⟨made, hcreate, hmade⟩ := createLinks_spec hplaced (hdist N le_rfl)
  refine ⟨N, d, made, hd.routesCorrectly hplaced hpos hfits hshort
    fun node _ _ => hmade.lists_iff node, fun fuel hfuel => ?_⟩
  refine ⟨hdist fuel hfuel, ?_⟩
  rw [createLinks, hdist fuel hfuel]
  rwa [createLinks, hdist N le_rfl] at hcreate

end New

/-! ### Two topologies -/

/-- An entry of a table of weights is zero for the empty walk, or it has a first link. -/
def entryOK (t : Topology) (f : Fin t.numSwitches → Fin t.numSwitches → Option ℤ)
    (i j : Fin t.numSwitches) (x : ℤ) : Bool :=
  0 ≤ x ∧ x < infiniteLatency ∧ (i = j ∧ x = 0 ∨
    (List.finRange t.numSwitches).any (fun k => (f k j).any fun y => (t.link? i k).any fun e =>
      x = e.link.weight + y ∧ y < x))

/-- Least weights of walks are found in a table that has entries for all that a link leads to. -/
lemma short_of_table (f : Fin t.numSwitches → Fin t.numSwitches → Option ℤ)
    (hself : ∀ i, (f i i).isSome)
    (hclosed : ∀ i k j : Fin t.numSwitches, (t.link? i k).isSome → (f k j).isSome →
      (f i j).isSome) (hentry : ∀ i j, (f i j).all (t.entryOK f i j)) : t.Short := by
  have hstep : ∀ i j x, f i j = some x → 0 ≤ x ∧ x < infiniteLatency ∧ (i = j ∧ x = 0 ∨
      ∃ k y e, f k j = some y ∧ t.link? i k = some e ∧ x = e.link.weight + y ∧ y < x) := by
    intro i j x hx
    have h := hentry i j
    rw [hx, Option.all_some, entryOK, decide_eq_true_eq] at h
    refine ⟨h.1, h.2.1, h.2.2.imp_right fun h => ?_⟩
    obtain ⟨k, -, h⟩ := any_eq_true.1 h
    rcases hy : f k j with _ | y
    · simp [hy] at h
    rcases he : t.link? i k with _ | e
    · simp [hy, he] at h
    exact ⟨k, y, e, hy, he, by simpa [hy, he] using h⟩
  have hwalk : ∀ (m : ℕ) i j x, f i j = some x → x < m → Walk t.Edge i j x := by
    intro m
    induction m with
    | zero =>
      intro i j x hx hlt
      have := (hstep i j x hx).1
      omega
    | succ m ih =>
      intro i j x hx hlt
      obtain ⟨-, -, ⟨rfl, rfl⟩ | ⟨k, y, e, hy, he, rfl, hyx⟩⟩ := hstep i j x hx
      · exact .nil i
      · refine .cons ⟨e, he, rfl⟩ (ih k j y hy ?_)
        omega
  have hsome : ∀ i j c, Walk t.Edge i j c → (f i j).isSome := by
    intro i j c hc
    induction hc with
    | nil u => exact hself u
    | cons h _ ih =>
      obtain ⟨e, he, -⟩ := h
      exact hclosed _ _ _ (by rw [he]; rfl) ih
  rintro i j c ⟨hc, hleast⟩
  obtain ⟨x, hx⟩ := Option.isSome_iff_exists.1 (hsome i j c hc)
  obtain ⟨h0, hlt, -⟩ := hstep i j x hx
  exact (hleast (hwalk (x.toNat + 1) i j x hx (by omega))).trans_lt hlt

/-- Two nodes at one router. -/
def pair : Topology where
  nodes := 2
  numberOfSwitches := 1
  linkMap := [((4, 3), ⟨⟨1, 1⟩, "", ""⟩), ((1, 4), ⟨⟨1, 1⟩, "", ""⟩), ((4, 2), ⟨⟨1, 1⟩, "", ""⟩),
    ((0, 4), ⟨⟨1, 1⟩, "", ""⟩)]

theorem createLinks_routesCorrectly_pair :
    new 2 1 [⟨⟨1, 1⟩, 0, 0⟩, ⟨⟨1, 1⟩, 1, 0⟩] [] = .ok pair ∧
      ∃ N d made, pair.RoutesCorrectly d made ∧
        ∀ fuel, N ≤ fuel → pair.dist fuel = .ok d ∧ pair.createLinks fuel = .ok made := by
  have hnew : new 2 1 [⟨⟨1, 1⟩, 0, 0⟩, ⟨⟨1, 1⟩, 1, 0⟩] [] = .ok pair := rfl
  refine ⟨hnew, createLinks_routesCorrectly hnew (by simp) (by simp) ?_ ?_⟩
  · exact short_of_table (fun i j => ![![some 0, none, some 2, some 2, some 1],
      ![none, some 0, some 2, some 2, some 1], ![none, none, some 0, none, none],
      ![none, none, none, some 0, none], ![none, none, some 1, some 1, some 0]] i j)
      (by decide +kernel) (by decide +kernel) (by decide +kernel)
  · unfold Fits
    decide +kernel

/-- The same, with a link of the router to itself. -/
def looped : Topology := { pair with linkMap := ((4, 4), ⟨⟨1, 1⟩, "", ""⟩) :: pair.linkMap }

/-- The link of a switch to itself takes the place of the zero on the diagonal. -/
theorem not_distance_looped :
    new 2 1 [⟨⟨1, 1⟩, 0, 0⟩, ⟨⟨1, 1⟩, 1, 0⟩] [⟨⟨1, 1⟩, 0, 0, "", ""⟩] = .ok looped ∧
      ∃ i d, looped.dist 3 = .ok d ∧ ¬ Distance looped.Edge i i (d i i) := by
  refine ⟨rfl, ⟨4, by decide⟩, _, rfl, fun h => ?_⟩
  have hle := h.2 (.nil _)
  revert hle
  decide +kernel

/-- A node at two routers that are linked to each other, with a link that no shortest path
takes. -/
def heavy : Topology where
  nodes := 2
  numberOfSwitches := 2
  linkMap := [((5, 4), ⟨⟨1, 1⟩, "", ""⟩), ((4, 5), ⟨⟨1, 1⟩, "", ""⟩),
    ((5, 2), ⟨⟨1, 1⟩, "", ""⟩), ((0, 5), ⟨⟨1, 1⟩, "", ""⟩),
    ((4, 2), ⟨⟨1, intMax⟩, "", ""⟩), ((0, 4), ⟨⟨1, intMax⟩, "", ""⟩)]

/-- The sum of a large weight and `INFINITE_LATENCY` overflows, and a distance is negative. -/
theorem not_dist_distance : ¬ ∀ (nodes routers : ℕ) (extLinks : List (ExtLink nodes routers))
    (intLinks : List (IntLink routers)) (t : Topology),
      new nodes routers extLinks intLinks = .ok t → (∀ l ∈ extLinks, 1 ≤ l.weight) →
      (∀ l ∈ intLinks, 1 ≤ l.weight) → t.Short →
      ∃ fuel d, t.dist fuel = .ok d ∧ ∀ i j c, Walk t.Edge i j c →
        Distance t.Edge i j (d i j) := by
  intro hall
  have hnew : new 2 2 [⟨⟨1, intMax⟩, 0, 0⟩, ⟨⟨1, 1⟩, 0, 1⟩]
      [⟨⟨1, 1⟩, 0, 1, "", ""⟩, ⟨⟨1, 1⟩, 1, 0, "", ""⟩] = .ok heavy := rfl
  have hshort : heavy.Short := short_of_table
    (fun i j => ![![some 0, none, some 2, none, some 2, some 1],
      ![none, some 0, none, none, none, none], ![none, none, some 0, none, none, none],
      ![none, none, none, some 0, none, none], ![none, none, some 2, none, some 0, some 1],
      ![none, none, some 1, none, some 1, some 0]] i j)
    (by decide +kernel) (by decide +kernel) (by decide +kernel)
  obtain ⟨fuel, d, hd, hdist⟩ :=
    hall 2 2 _ _ heavy hnew (by simp [intMax]) (by simp) hshort
  obtain ⟨p, hp, hd⟩ := bind_eq_ok.1 hd
  cases hd
  have hneg : p.currentDist ⟨0, succ_pos _⟩ ⟨0, succ_pos _⟩ < 0 :=
    (extendShortestPath_first_le hp ⟨4, by decide⟩).trans_lt (by decide +kernel)
  have hnonneg : 0 ≤ p.currentDist ⟨0, succ_pos _⟩ ⟨0, succ_pos _⟩ := by
    refine (hdist _ _ 0 (.nil _)).1.nonneg ?_
    rintro u v a ⟨e, he, rfl⟩
    exact zero_le_one.trans (positive_of_new hnew (by simp [intMax]) (by simp) _ _ _ he)
  omega

end ChipletGem5.Topology
