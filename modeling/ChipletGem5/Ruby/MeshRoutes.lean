import ChipletGem5.Ruby.MeshXY

/-!
# Routes in a mesh

The routing tables of a mesh lead along the row first and then along the column, since the links
of a row are on shortest paths as long as the column is not right, and weigh less.  So the tables
choose the same ports as routing by directions does, and the order in which routes use the links
of the mesh has no cycle.
-/

namespace ChipletGem5.MeshXY

open ChipletGem5.Topology Garnet List Nat

variable {rows cols : ℕ} {c c' dest : ℕ × ℕ} {w : ℤ} {dirn dirn' : PortDirection}

/-! ### Steps towards a router -/

/-- A mesh link that goes on towards `dest`: along the row until the column is right. -/
inductive XYStep (rows cols : ℕ) (dest : ℕ × ℕ) :
    ℕ × ℕ → ℕ × ℕ → ℤ → PortDirection → PortDirection → Prop
  | east {row col : ℕ} (hrow : row < rows) (hcol : col + 1 < cols) (hlt : col < dest.1) :
      XYStep rows cols dest (col, row) (col + 1, row) 1 "East" "West"
  | west {row col : ℕ} (hrow : row < rows) (hcol : col + 1 < cols) (hle : dest.1 ≤ col) :
      XYStep rows cols dest (col + 1, row) (col, row) 1 "West" "East"
  | north {row col : ℕ} (hrow : row + 1 < rows) (hcol : col < cols) (heq : col = dest.1)
      (hlt : row < dest.2) : XYStep rows cols dest (col, row) (col, row + 1) 2 "North" "South"
  | south {row col : ℕ} (hrow : row + 1 < rows) (hcol : col < cols) (heq : col = dest.1)
      (hle : dest.2 ≤ row) : XYStep rows cols dest (col, row + 1) (col, row) 2 "South" "North"

/-- The number of mesh links between two places. -/
def hops (c dest : ℕ × ℕ) : ℕ := ((dest.1 : ℤ) - c.1).natAbs + ((dest.2 : ℤ) - c.2).natAbs

lemma hops_eq_zero : hops c dest = 0 ↔ c = dest := by
  constructor
  · intro h
    rw [hops] at h
    exact Prod.ext (by omega) (by omega)
  · rintro rfl
    simp [hops]

/-- The weight of the links from a router to a node that has its home at `dest`. -/
def cost (c dest : ℕ × ℕ) : ℤ :=
  ((dest.1 : ℤ) - c.1).natAbs + 2 * ((dest.2 : ℤ) - c.2).natAbs + 1

lemma exists_xyStep (hc : InMesh rows cols c) (hdest : InMesh rows cols dest) (hne : c ≠ dest) :
    ∃ c' w dirn dirn', XYStep rows cols dest c c' w dirn dirn' := by
  obtain ⟨col, row⟩ := c
  obtain ⟨hcol, hrow⟩ := hc
  obtain ⟨hcol', hrow'⟩ := hdest
  rcases lt_trichotomy col dest.1 with hlt | heq | hgt
  · exact ⟨_, _, _, _, .east hrow (by omega) hlt⟩
  · rcases lt_trichotomy row dest.2 with hlt | heq' | hgt
    · exact ⟨_, _, _, _, .north (by omega) hcol heq hlt⟩
    · exact absurd (Prod.ext heq heq') hne
    · obtain ⟨row, rfl⟩ := exists_eq_add_one_of_ne_zero (ne_zero_of_lt hgt)
      exact ⟨_, _, _, _, .south hrow hcol heq (by omega)⟩
  · obtain ⟨col, rfl⟩ := exists_eq_add_one_of_ne_zero (ne_zero_of_lt hgt)
    exact ⟨_, _, _, _, .west hrow hcol (by omega)⟩

lemma MeshLink.weight_pos (h : MeshLink rows cols c c' w dirn dirn') : 0 < w ∧ w ≤ 2 := by
  cases h <;> decide

namespace XYStep

section

variable (h : XYStep rows cols dest c c' w dirn dirn')
include h

lemma meshLink : MeshLink rows cols c c' w dirn dirn' := by
  cases h with
  | east hrow hcol => exact .east hrow hcol
  | west hrow hcol => exact .west hrow hcol
  | north hrow hcol => exact .north hrow hcol
  | south hrow hcol => exact .south hrow hcol

lemma hops_eq : hops c' dest + 1 = hops c dest := by
  cases h <;> simp only [hops] <;> omega

lemma cost_eq : w + cost c' dest = cost c dest := by
  cases h <;> simp only [cost] <;> omega

lemma weight_pos : 0 < w ∧ w ≤ 2 :=
  h.meshLink.weight_pos

lemma ne_local : "Local" ≠ dirn := by
  cases h <;> decide

lemma ne : c ≠ dest := by
  rintro rfl
  cases h <;> simp only at * <;> omega

end

end XYStep

lemma MeshLink.cost_le (h : MeshLink rows cols c c' w dirn dirn') (dest : ℕ × ℕ) :
    cost c dest ≤ w + cost c' dest := by
  cases h <;> simp only [cost] <;> omega

variable {dirn₁ dirn₁' : PortDirection} {w₁ : ℤ} {home : ℕ → ℕ × ℕ → Prop}

lemma MeshLink.unique
    (h : MeshLink rows cols c c' w dirn dirn') (h1 : MeshLink rows cols c c' w₁ dirn₁ dirn₁') :
    w = w₁ ∧ dirn = dirn₁ ∧ dirn' = dirn₁' := by
  cases h <;> cases h1 <;> simp_all

lemma XYStep.others {c1 : ℕ × ℕ}
    (h : XYStep rows cols dest c c' w dirn dirn') (h1 : MeshLink rows cols c c1 w₁ dirn₁ dirn₁')
    (hne : c1 ≠ c') : dirn₁ ≠ dirn ∧ (w₁ + cost c1 dest = cost c dest → w < w₁) := by
  cases h <;> cases h1 <;> first
    | exact absurd rfl hne
    | exact ⟨by decide, fun heq => by simp only [cost] at heq; omega⟩

/-! ### Distances -/

section Distances

variable {t : Topology} (hmesh : IsMesh rows cols home t) {node : ℕ} (hhome : home node dest)
  {i j final : Fin t.numSwitches} (hfinal : t.IsOutput node final)

/-- The switch is the router at a place. -/
def IsRouter (cols : ℕ) (t : Topology) (c : ℕ × ℕ) (i : Fin t.numSwitches) : Prop :=
  (i : ℕ) = place cols c + 2 * t.nodes

lemma IsRouter.unique (hi : IsRouter cols t c i) (hj : IsRouter cols t c j) : i = j :=
  Fin.val_inj.1 (hi.trans hj.symm)

lemma IsRouter.eq (hi : IsRouter cols t c i) (hc : c.1 < cols)
    (h : (i : ℕ) = place cols c' + 2 * t.nodes) (hc' : c'.1 < cols) : c = c' :=
  place_inj hc hc' (add_right_cancel (hi.symm.trans h))

section

variable {src dst : ℕ} {e : LinkEntry} (he : t.link? src dst = some e)
include hmesh he

lemma IsMesh.weight_pos : 0 < e.link.weight ∧ e.link.weight ≤ 2 := by
  rcases hmesh.link he with ⟨_, _, -, -, -, -, hw⟩ | ⟨_, _, -, -, -, -, hw⟩ | ⟨_, _, -, -, hlink⟩
  · omega
  · omega
  · exact hlink.weight_pos

lemma IsMesh.weight_eq_one (h : src < 2 * t.nodes ∨ dst < 2 * t.nodes) : e.link.weight = 1 := by
  rcases hmesh.link he with ⟨_, _, -, -, -, -, hw⟩ | ⟨_, _, -, -, -, -, hw⟩ | ⟨_, _, _, _, -⟩
  · exact hw
  · exact hw
  · omega

end

include hmesh in
lemma IsMesh.exists_edge (h : MeshLink rows cols c c' w dirn dirn') :
    ∃ i j e, IsRouter cols t c i ∧ IsRouter cols t c' j ∧ t.link? i j = some e ∧
      e.link.weight = w ∧ e.srcOutportDirn = dirn ∧ e.dstInportDirn = dirn' := by
  obtain ⟨e, he⟩ := hmesh.mesh_link h
  obtain ⟨hi, hj⟩ := lt_numSwitches_of_link? he
  refine ⟨⟨_, hi⟩, ⟨_, hj⟩, e, rfl, rfl, he, ?_⟩
  rcases hmesh.link he with ⟨node, c1, -, h1, -, hnode, -⟩ | ⟨node, c1, -, -, h1, hnode, -⟩ |
    ⟨c1, c1', h1, h1', hlink⟩
  · omega
  · omega
  · cases place_inj h.inMesh.1.1 hlink.inMesh.1.1 (add_right_cancel h1)
    cases place_inj h.inMesh.2.1 hlink.inMesh.2.1 (add_right_cancel h1')
    exact hlink.unique h

include hmesh hhome hfinal in
lemma IsMesh.walk {k : ℕ} (hc : InMesh rows cols c) (hk : hops c dest = k) :
    ∃ i, IsRouter cols t c i ∧ Walk t.Edge i final (cost c dest) := by
  induction k generalizing c with
  | zero =>
    obtain rfl := hops_eq_zero.1 hk
    obtain ⟨hnode, -, e, he⟩ := hmesh.home_link hhome
    obtain ⟨hi, -⟩ := lt_numSwitches_of_link? he
    refine ⟨⟨_, hi⟩, rfl, ?_⟩
    have hcost : cost c c = 1 := by simp [cost]
    rw [hcost]
    exact .single ⟨e, by rw [hfinal.2]; exact he, hmesh.weight_eq_one he (.inr (by omega))⟩
  | succ k ih =>
    have hne : c ≠ dest := fun h => by rw [hops_eq_zero.2 h] at hk; omega
    obtain ⟨c', w, dirn, dirn', hstep⟩ := exists_xyStep hc (hmesh.home_inMesh hhome) hne
    obtain ⟨j, hj, hwalk⟩ := ih hstep.meshLink.inMesh.2 (by have := hstep.hops_eq; omega)
    obtain ⟨i, j', e, hi, hj', he, hw, -⟩ := hmesh.exists_edge hstep.meshLink
    obtain rfl := hj.unique hj'
    refine ⟨i, hi, ?_⟩
    rw [← hstep.cost_eq]
    exact .cons ⟨e, he, hw⟩ hwalk

/-- A lower bound for the weight of walks to a node. -/
def potential (cols bound : ℕ) (t : Topology) (node : ℕ) (dest : ℕ × ℕ)
    (i : Fin t.numSwitches) : ℤ :=
  if (i : ℕ) < t.nodes then 0
  else if (i : ℕ) < 2 * t.nodes then if (i : ℕ) = node + t.nodes then 0 else bound
  else cost ((i - 2 * t.nodes) % cols, (i - 2 * t.nodes) / cols) dest

lemma IsRouter.sub_eq (hi : IsRouter cols t c i) :
    2 * t.nodes ≤ i ∧ (i : ℕ) - 2 * t.nodes = place cols c := by
  rw [hi]
  omega

lemma potential_router {bound : ℕ} (hi : IsRouter cols t c i)
    (hc : c.1 < cols) : potential cols bound t node dest i = cost c dest := by
  obtain ⟨hle, hsub⟩ := hi.sub_eq
  rw [potential, if_neg (by omega), if_neg (by omega), hsub, place_mod hc, place_div hc]

lemma cost_le_bound (hc : InMesh rows cols c) (hdest : InMesh rows cols dest) :
    cost c dest ≤ ((cols + 2 * rows + 1 : ℕ) : ℤ) := by
  obtain ⟨h1, h2⟩ := hc
  obtain ⟨h1', h2'⟩ := hdest
  simp only [cost]
  omega

include hmesh hhome in
lemma IsMesh.potential_le {a : ℤ} (h : t.Edge i j a) :
    potential cols (cols + 2 * rows + 1) t node dest i ≤
      a + potential cols (cols + 2 * rows + 1) t node dest j := by
  obtain ⟨e, he, rfl⟩ := h
  have hdest := hmesh.home_inMesh hhome
  rcases hmesh.link he with ⟨n, c, hn, hi, hj, hlt, hw⟩ | ⟨n, c, hn, hi, hj, hlt, hw⟩ |
    ⟨c, c', hi, hj, hlink⟩
  · have hc := hmesh.home_inMesh hn
    rw [potential_router hj hc.1, hw, potential, if_pos (by omega)]
    simp only [cost]
    omega
  · have hc := hmesh.home_inMesh hn
    have hbound := cost_le_bound hc hdest
    rw [potential_router hi hc.1, hw, potential, if_neg (by omega), if_pos (by omega)]
    split_ifs with hnode
    · -- the link to the node itself leaves its home
      obtain rfl : n = node := by omega
      rw [hmesh.home_unique hn hhome]
      simp [cost]
    · omega
  · rw [potential_router hi hlink.inMesh.1.1, potential_router hj hlink.inMesh.2.1]
    exact hlink.cost_le dest

variable {d : IntMatrix t.numSwitches} (hd : t.Final d) (hpos : t.Positive) (hshort : t.Short)

include hmesh hhome hfinal hd hpos hshort in
lemma IsMesh.dist_eq (hi : IsRouter cols t c i)
    (hc : InMesh rows cols c) : d i final = cost c dest ∧ d i final < infiniteLatency := by
  obtain ⟨i', hi', hwalk⟩ := hmesh.walk hhome hfinal hc rfl
  obtain rfl := hi.unique hi'
  have hne : i ≠ final := by
    rintro rfl
    have := hfinal.2
    rw [hi] at this
    have := hfinal.1
    omega
  have hdist := hd.distance hpos hshort (.inl hne) hwalk
  refine ⟨le_antisymm (hdist.2 hwalk) ?_, hshort _ _ _ hdist⟩
  have hle := hdist.1.potential_le fun u v a h => hmesh.potential_le hhome h
  have hzero : potential cols (cols + 2 * rows + 1) t node dest final = 0 := by
    have := hfinal.1
    have := hfinal.2
    rw [potential, if_neg (by omega), if_pos (by omega), if_pos (by omega)]
  rw [potential_router hi hc.1, hzero] at hle
  omega

/-! ### Ports -/

variable (hfits : Fits t.topologyWeights) {made : List MadeLink}
  (hmade : t.MadeSpec d (List.finRange t.numSwitches ×ˢ List.finRange t.numSwitches) made)

/-- What the tables of a mesh say about the ports of a router: that of the step towards the home of
a node is on a shortest path to it, every other port has another direction, and weighs more if it is
on a shortest path too. -/
def TableSteps (rows cols : ℕ) (home : ℕ → ℕ × ℕ → Prop) (g : Wiring) : Prop :=
  ∀ ⦃node dest c c' w dirn dirn'⦄, home node dest → XYStep rows cols dest c c' w dirn dirn' →
    ∃ l₁ p l₂, (g.routers (place cols c)).outports = l₁ ++ p :: l₂ ∧
      p.direction = dirn ∧ p.leadsTo {node} ∧ p.linkWeight = w ∧
      p.outLink = .router (place cols c') dirn' ∧
      ∀ q ∈ l₁ ++ l₂, q.direction ≠ dirn ∧ (q.leadsTo {node} → w < q.linkWeight)

lemma leadsTo_singleton {p : OutPort} : p.leadsTo {node} ↔ node ∈ p.routingTableEntry := by
  rw [OutPort.leadsTo, decide_eq_true_eq, ne_eq, ← Finset.disjoint_iff_inter_eq_empty,
    Finset.disjoint_singleton_left, not_not]

include hfinal hd hfits in
lemma outPort?_of_madeFor {l : MadeLink} (h : t.MadeFor d l (i, j))
    (hi : IsRouter cols t c i) : ∃ e p, t.link? i j = some e ∧
      Wiring.outPort? (place cols c) l = some p ∧ p.linkWeight = e.link.weight ∧
      (p.leadsTo {node} ↔ 0 < e.link.weight ∧ e.link.weight ≠ infiniteLatency ∧
        e.link.weight + d j final = d i final) ∧
      ((j : ℕ) < 2 * t.nodes ∧ p.direction = "Local" ∨ 2 * t.nodes ≤ (j : ℕ) ∧
        p.direction = e.srcOutportDirn ∧
        p.outLink = .router (j - 2 * t.nodes) e.dstInportDirn) := by
  obtain ⟨-, hmake, hentry⟩ := h
  obtain ⟨e, he, hcases⟩ := makeLink_cases hmake
  obtain ⟨hle, hsub⟩ := hi.sub_eq
  have hlead := hentry node
  rw [hd.onPath_iff hfits hfinal, topologyWeights_of_link he] at hlead
  rcases hcases with ⟨hlt, -⟩ | ⟨-, hj, hl⟩ | ⟨-, hj, hl⟩
  · exact absurd hlt (by dsimp only; omega)
  · exact ⟨e, _, he, by rw [hl]; exact if_pos hsub, rfl, leadsTo_singleton.trans hlead,
      .inl ⟨hj, rfl⟩⟩
  · exact ⟨e, _, he, by rw [hl]; exact if_pos hsub, rfl, leadsTo_singleton.trans hlead,
      .inr ⟨hj, rfl, rfl⟩⟩

lemma isRouter_of_outPort? {l : MadeLink} {p : OutPort}
    (hplaced : t.WellPlaced) (h : t.MadeFor d l (i, j))
    (hp : Wiring.outPort? (place cols c) l = some p) : IsRouter cols t c i := by
  obtain ⟨-, hmake, -⟩ := h
  obtain ⟨e, he, hcases⟩ := makeLink_cases hmake
  have hends := hplaced _ _ _ he
  rw [Placed] at hends
  rcases hcases with ⟨hlt, hl⟩ | ⟨hi, hj, hl⟩ | ⟨hi, hj, hl⟩
  · rw [hl] at hp
    cases hp
  all_goals
    rw [hl, Wiring.outPort?] at hp
    split_ifs at hp with hsrc
    dsimp only at hends hsrc hi hj
    rw [IsRouter]
    omega

include hmesh hd hpos hshort hfits hmade in
lemma IsMesh.tableSteps (hplaced : t.WellPlaced) :
    TableSteps rows cols home (Wiring.wire made) := by
  intro node dest c c' w dirn dirn' hhome hstep
  obtain ⟨hnode, -, _, hlink⟩ := hmesh.home_link hhome
  obtain ⟨final, hfinal⟩ : ∃ final, t.IsOutput node final :=
    ⟨⟨_, (lt_numSwitches_of_link? hlink).2⟩, hnode, rfl⟩
  obtain ⟨i, j, e, hi, hj, he, rfl, rfl, rfl⟩ := hmesh.exists_edge hstep.meshLink
  obtain ⟨hci, hcj⟩ := hstep.meshLink.inMesh
  obtain ⟨hdi, hlt⟩ := hmesh.dist_eq hhome hfinal hd hpos hshort hi hci
  obtain ⟨hdj, -⟩ := hmesh.dist_eq hhome hfinal hd hpos hshort hj hcj
  have hweight := topologyWeights_of_link he
  have hwpos := hstep.weight_pos
  have hinf : infiniteLatency = 10000 := rfl
  -- the link of the step
  obtain ⟨l, hl, hfor⟩ := hmade.exists_link (i := i) (j := j)
    (decide_eq_true ⟨by rw [hweight]; exact hwpos.1, by dsimp only; rw [hweight]; omega⟩)
  obtain ⟨e', p, he', hp, hpw, hlead, hpcases⟩ := outPort?_of_madeFor hfinal hd hfits hfor hi
  rw [he] at he'
  cases he'
  obtain ⟨m1, m2, rfl⟩ := append_of_mem hl
  have hjle : 2 * t.nodes ≤ (j : ℕ) := by
    rw [hj]
    omega
  obtain ⟨-, hdirn, hout⟩ := hpcases.resolve_left (by omega)
  rw [hdi, hdj, hstep.cost_eq] at hlead
  refine ⟨m1.filterMap (Wiring.outPort? (place cols c)), p,
    m2.filterMap (Wiring.outPort? (place cols c)), ?_, hdirn,
    hlead.2 ⟨hwpos.1, by omega, rfl⟩, hpw, ?_, ?_⟩
  · rw [Wiring.outports_wire, filterMap_append, filterMap_cons, hp]
  · rw [hout, hj, Nat.add_sub_cancel]
  · -- the other links have other ends
    intro q hq
    obtain ⟨l', hl', hq⟩ : ∃ l' ∈ m1 ++ m2, Wiring.outPort? (place cols c) l' = some q := by
      rw [← filterMap_append] at hq
      exact mem_filterMap.1 hq
    have hmem : l' ∈ m1 ++ l :: m2 := by
      rcases mem_append.1 hl' with h | h <;> simp [h]
    obtain ⟨⟨i', j'⟩, hfor'⟩ := hmade.madeFor l' hmem
    have hi' := isRouter_of_outPort? hplaced hfor' hq
    obtain rfl := hi.unique hi'
    have hjne : j' ≠ j := by
      rintro rfl
      have hnodup := hmade.nodup
      rw [map_append, map_cons, nodup_middle] at hnodup
      refine (nodup_cons.1 hnodup).1 ?_
      rw [hfor.1, ← hfor'.1, ← map_append]
      exact mem_map_of_mem hl'
    obtain ⟨e', q', he', hq', hqw, hlead', hqcases⟩ :=
      outPort?_of_madeFor hfinal hd hfits hfor' hi
    rw [hq] at hq'
    cases hq'
    rcases hmesh.link he' with ⟨n, c1, -, h1, -, hn, -⟩ | ⟨n, c1, hn, h1, h2, hlt', hw⟩ |
      ⟨c1, c2, h1, h2, hlink⟩
    · rw [hi] at h1
      omega
    · -- a link to a node
      cases hi.eq hci.1 h1 (hmesh.home_inMesh hn).1
      obtain ⟨-, hlocal⟩ := hqcases.resolve_right (by omega)
      refine ⟨hlocal ▸ hstep.ne_local, fun hq => ?_⟩
      exfalso
      rw [hlead', hw, hdi] at hq
      have hne : j' ≠ final := by
        rintro rfl
        obtain rfl : n = node := by
          have := hfinal.2
          omega
        exact hstep.ne (hmesh.home_unique hn hhome)
      have hout' : t.IsOutput n j' := ⟨hlt', h2⟩
      have := hd.infinite fun c hwalk => hne (hplaced.walk_output hout' hwalk)
      omega
    · -- a link of the mesh
      cases hi.eq hci.1 h1 hlink.inMesh.1.1
      obtain ⟨-, hdirn', -⟩ := hqcases.resolve_left (by omega)
      have hne : c2 ≠ c' := by
        rintro rfl
        exact hjne (IsRouter.unique h2 hj)
      obtain ⟨hdirn_ne, hlt'⟩ := hstep.others hlink hne
      refine ⟨hdirn' ▸ hdirn_ne, fun hq => ?_⟩
      obtain ⟨hdj', -⟩ := hmesh.dist_eq hhome hfinal hd hpos hshort h2 hlink.inMesh.2
      rw [hlead', hdi, hdj'] at hq
      rw [hqw]
      exact hlt' hq.2.2

end Distances

/-! ### Routes -/

/-- Where a packet may have come from on its way to `dest`, by the direction of its input port. -/
def Entered (dest c : ℕ × ℕ) (inportDirn : PortDirection) : Prop :=
  inportDirn = "Local" ∨ inportDirn = "West" ∧ c.1 ≤ dest.1 ∨ inportDirn = "East" ∧ dest.1 ≤ c.1 ∨
    inportDirn = "South" ∧ c.1 = dest.1 ∧ c.2 ≤ dest.2 ∨
    inportDirn = "North" ∧ c.1 = dest.1 ∧ dest.2 ≤ c.2

lemma XYStep.entered (h : XYStep rows cols dest c c' w dirn dirn') : Entered dest c' dirn' := by
  cases h with
  | east _ _ hlt => exact .inr (.inl ⟨rfl, hlt⟩)
  | west _ _ hle => exact .inr (.inr (.inl ⟨rfl, hle⟩))
  | north _ _ heq hlt => exact .inr (.inr (.inr (.inl ⟨rfl, heq, hlt⟩)))
  | south _ _ heq hle => exact .inr (.inr (.inr (.inr ⟨rfl, heq, hle⟩)))

lemma XYStep.dirn_cases (h : XYStep rows cols dest c c' w dirn dirn') :
    dirn = "East" ∧ c.1 < dest.1 ∨ dirn = "West" ∧ dest.1 < c.1 ∨
      dirn = "North" ∧ c.1 = dest.1 ∧ c.2 < dest.2 ∨
      dirn = "South" ∧ c.1 = dest.1 ∧ dest.2 < c.2 := by
  cases h with
  | east _ _ hlt => exact .inl ⟨rfl, hlt⟩
  | west _ _ hle => exact .inr (.inl ⟨rfl, lt_succ_of_le hle⟩)
  | north _ _ heq hlt => exact .inr (.inr (.inl ⟨rfl, heq, hlt⟩))
  | south _ _ heq hle => exact .inr (.inr (.inr ⟨rfl, heq, lt_succ_of_le hle⟩))

/-- Routing by directions takes the step towards the destination, and its assertions hold. -/
lemma outportComputeXY_eq (hstep : XYStep rows cols dest c c' w dirn dirn')
    (hdest : InMesh rows cols dest) {inportDirn : PortDirection}
    (hentered : Entered dest c inportDirn) (ports : List OutPort) :
    outportComputeXY rows cols ports (place cols c) (place cols dest) inportDirn =
      .ok (outportsDirn2idx ports dirn) := by
  have hc := hstep.meshLink.inMesh.1
  have hX : (place cols c : ℤ).tmod cols = c.1 := congrArg Nat.cast (place_mod hc.1)
  have hY : (place cols c : ℤ).tdiv cols = c.2 := congrArg Nat.cast (place_div hc.1)
  have hX' : (place cols dest : ℤ).tmod cols = dest.1 := congrArg Nat.cast (place_mod hdest.1)
  have hY' : (place cols dest : ℤ).tdiv cols = dest.2 := congrArg Nat.cast (place_div hdest.1)
  have hrows : 0 < rows := zero_lt_of_lt hc.2
  have hcols : 0 < cols := zero_lt_of_lt hc.1
  rw [outportComputeXY, hX, hY, hX', hY']
  rcases hstep.dirn_cases with ⟨rfl, hlt⟩ | ⟨rfl, hlt⟩ | ⟨rfl, heq, hlt⟩ | ⟨rfl, heq, hlt⟩
  · have hin : inportDirn = "Local" ∨ inportDirn = "West" := by
      rcases hentered with h | ⟨h, -⟩ | ⟨-, h⟩ | ⟨-, h, -⟩ | ⟨-, h, -⟩ <;> first | omega | simp [h]
    have hx : (dest.1 : ℤ) - c.1 ≠ 0 := by omega
    have hle : c.1 ≤ dest.1 := hlt.le
    simp [require, hrows, hcols, hx, hle, hin]
  · have hin : inportDirn = "Local" ∨ inportDirn = "East" := by
      rcases hentered with h | ⟨-, h⟩ | ⟨h, -⟩ | ⟨-, h, -⟩ | ⟨-, h, -⟩ <;> first | omega | simp [h]
    have hx : (dest.1 : ℤ) - c.1 ≠ 0 := by omega
    simp [require, hrows, hcols, hx, hlt.not_ge, hin]
  · have hin : inportDirn ≠ "North" := by
      rintro rfl
      rcases hentered with h | ⟨h, -⟩ | ⟨h, -⟩ | ⟨h, -⟩ | ⟨-, -, h⟩ <;> first | omega | simp at h
    have hy : (dest.2 : ℤ) - c.2 ≠ 0 := by omega
    have hle : c.2 ≤ dest.2 := hlt.le
    simp [require, hrows, hcols, heq, hy, hle, hin]
  · have hin : inportDirn ≠ "South" := by
      rintro rfl
      rcases hentered with h | ⟨h, -⟩ | ⟨h, -⟩ | ⟨-, -, h⟩ | ⟨h, -⟩ <;> first | omega | simp at h
    have hy : (dest.2 : ℤ) - c.2 ≠ 0 := by omega
    simp [require, hrows, hcols, heq, hy, hlt.not_ge, hin]

/-- The routing table at a router that is not yet `destRouter` sends a packet for a node on, from an
input port of the router, which is given with its direction, to one of the next router. -/
def Hop (g : Wiring) (node destRouter : ℕ) (a b : ℕ × PortDirection) : Prop :=
  a.1 ≠ destRouter ∧ ∃ isVNetOrdered rand outport p,
    lookupRoutingTable isVNetOrdered rand (g.routers a.1).outports {node} = .ok outport ∧
    (g.routers a.1).outports[outport]? = some p ∧ p.outLink = .router b.1 b.2

/-- The input ports on the routes of a packet that enters the network at a router, by the number of
hops. -/
inductive Route (g : Wiring) (node destRouter r : ℕ) : ℕ → ℕ × PortDirection → Prop
  | start : Route g node destRouter r 0 (r, "Local")
  | hop {k : ℕ} {a b : ℕ × PortDirection} (hroute : Route g node destRouter r k a)
      (hhop : Hop g node destRouter a b) : Route g node destRouter r (k + 1) b

/-- Some route uses the link between two routers immediately before another one. -/
def UsedBefore (g : Wiring) (routers : ℕ) (l l' : ℕ × ℕ) : Prop :=
  ∃ node destRouter r k, g.routerId node = some destRouter ∧ r < routers ∧
    ∃ a b c, Route g node destRouter r k a ∧ Hop g node destRouter a b ∧
      Hop g node destRouter b c ∧ l = (a.1, b.1) ∧ l' = (b.1, c.1)

/-- The column and the row of a router. -/
def coordinates (cols r : ℕ) : ℕ × ℕ := (r % cols, r / cols)

/-- Table routing is routing by directions. -/
structure RoutesXY (rows cols : ℕ) (g : Wiring) : Prop where
  /-- At every router of a route but the last, the table and the directions give the same output
  port, which leads to a router, and no assertion fails; so does `outportCompute` with either. -/
  sameOutport : ∀ {node q r k a}, g.routerId node = some q → r < cols * rows →
    Route g node q r k a → a.1 ≠ q → ∃ outport p, ∃ b : ℕ × PortDirection,
      (∀ isVNetOrdered rand,
        lookupRoutingTable isVNetOrdered rand (g.routers a.1).outports {node} = .ok outport) ∧
      outportComputeXY rows cols (g.routers a.1).outports a.1 q a.2 = .ok outport ∧
      (∀ alg isVNetOrdered rand, alg ≠ .CUSTOM → outportCompute alg rows cols rand
        (g.routers a.1).outports a.1 ⟨isVNetOrdered, {node}, q⟩ a.2 = .ok outport) ∧
      (g.routers a.1).outports[outport]? = some p ∧ p.outLink = .router b.1 b.2
  /-- A route gets to the destination router, after as many hops as there are columns and rows
  between the routers. -/
  arrives : ∀ {node q r}, g.routerId node = some q → r < cols * rows →
    ∃ inportDirn, Route g node q r (hops (coordinates cols r) (coordinates cols q)) (q, inportDirn)
  /-- No route gets there earlier or later. -/
  arrives_iff : ∀ {node q r k a}, g.routerId node = some q → r < cols * rows →
    Route g node q r k a → (a.1 = q ↔ k = hops (coordinates cols r) (coordinates cols q))
  acyclic : ∀ l, ¬ Relation.TransGen (UsedBefore g (cols * rows)) l l

lemma coordinates_place (hc : c.1 < cols) : coordinates cols (place cols c) = c :=
  Prod.ext (place_mod hc) (place_div hc)

/-- A number that increases along routes: first along the row, then along the column. -/
def linkRank (rows cols : ℕ) (c c' : ℕ × ℕ) : ℕ :=
  if c.1 < c'.1 then c.1
  else if c'.1 < c.1 then cols - c.1
  else if c.2 < c'.2 then cols + c.2
  else cols + (rows - c.2)

section Routes

variable {home : ℕ → ℕ × ℕ → Prop} {g : Wiring} (htable : TableSteps rows cols home g)
  {node : ℕ} (hhome : home node dest)

include htable hhome in
lemma TableSteps.lookup (hstep : XYStep rows cols dest c c' w dirn dirn') :
    ∃ outport p, (∀ isVNetOrdered rand, lookupRoutingTable isVNetOrdered rand
        (g.routers (place cols c)).outports {node} = .ok outport) ∧
      outportsDirn2idx (g.routers (place cols c)).outports dirn = outport ∧
      (g.routers (place cols c)).outports[outport]? = some p ∧
      p.outLink = .router (place cols c') dirn' := by
  obtain ⟨l1, p, l2, hports, rfl, hlead, rfl, hout, hothers⟩ := htable hhome hstep
  have hle : p.linkWeight ≤ infinite := hstep.weight_pos.2.trans (by decide)
  refine ⟨l1.length, p, fun isVNetOrdered rand => ?_, ?_, ?_, hout⟩
  · rw [hports]
    exact lookupRoutingTable_eq hlead hle (fun q hq => (hothers q hq).2) isVNetOrdered rand
  · rw [hports]
    exact outportsDirn2idx_eq fun q hq => (hothers q hq).1
  · rw [hports]
    simp

variable (hdest : InMesh rows cols dest)

include htable hhome hdest in
lemma TableSteps.hop_iff (hc : InMesh rows cols c) {b : ℕ × PortDirection}
    {inportDirn : PortDirection} : Hop g node (place cols dest) (place cols c, inportDirn) b ↔
      ∃ c' w dirn dirn', XYStep rows cols dest c c' w dirn dirn' ∧
        b = (place cols c', dirn') := by
  constructor
  · rintro ⟨hne, isVNetOrdered, rand, outport, p, hlookup, hp, hout⟩
    obtain ⟨c', w, dirn, dirn', hstep⟩ := exists_xyStep hc hdest (by rintro rfl; exact hne rfl)
    obtain ⟨outport', p', hlookup', -, hp', hout'⟩ := htable.lookup hhome hstep
    cases (hlookup' isVNetOrdered rand).symm.trans hlookup
    cases hp'.symm.trans hp
    obtain ⟨r, inportDirn'⟩ := b
    cases hout'.symm.trans hout
    exact ⟨c', w, dirn, _, hstep, rfl⟩
  · rintro ⟨c', w, dirn, dirn', hstep, rfl⟩
    obtain ⟨outport, p, hlookup, -, hp, hout⟩ := htable.lookup hhome hstep
    refine ⟨fun heq => hstep.ne (place_inj hc.1 hdest.1 heq), false, 0, outport, p,
      hlookup false 0, hp, hout⟩

include htable hhome hdest in
lemma TableSteps.route {c0 : ℕ × ℕ} (hc0 : InMesh rows cols c0) {k : ℕ} {a : ℕ × PortDirection}
    (h : Route g node (place cols dest) (place cols c0) k a) :
    ∃ c, InMesh rows cols c ∧ a.1 = place cols c ∧ Entered dest c a.2 ∧
      k + hops c dest = hops c0 dest := by
  induction h with
  | start => exact ⟨c0, hc0, rfl, .inl rfl, zero_add _⟩
  | @hop k a b hroute hhop ih =>
    obtain ⟨c, hc, ha, -, hk⟩ := ih
    obtain ⟨r, inportDirn⟩ := a
    obtain rfl : r = place cols c := ha
    obtain ⟨c', w, dirn, dirn', hstep, rfl⟩ := (htable.hop_iff hhome hdest hc).1 hhop
    have := hstep.hops_eq
    exact ⟨c', hstep.meshLink.inMesh.2, rfl, hstep.entered, by omega⟩

include htable hhome hdest in
lemma TableSteps.exists_route {c0 : ℕ × ℕ} (hc0 : InMesh rows cols c0) {k : ℕ}
    (hk : k ≤ hops c0 dest) :
    ∃ a, Route g node (place cols dest) (place cols c0) k a := by
  induction k with
  | zero => exact ⟨_, .start⟩
  | succ k ih =>
    obtain ⟨⟨r, inportDirn⟩, hroute⟩ := ih (le_of_succ_le hk)
    obtain ⟨c, hc, ha, -, hkc⟩ := htable.route hhome hdest hc0 hroute
    obtain rfl : r = place cols c := ha
    have hne : c ≠ dest := fun h => by rw [hops_eq_zero.2 h] at hkc; omega
    obtain ⟨c', w, dirn, dirn', hstep⟩ := exists_xyStep hc hdest hne
    exact ⟨_, .hop hroute ((htable.hop_iff hhome hdest hc).2 ⟨c', w, dirn, dirn', hstep, rfl⟩)⟩

end Routes

lemma TableSteps.routesXY {g : Wiring} (htable : TableSteps rows cols home g)
    (hhome : ∀ {node q}, g.routerId node = some q →
      ∃ dest, home node dest ∧ InMesh rows cols dest ∧ place cols dest = q) :
    RoutesXY rows cols g := by
  constructor
  case sameOutport =>
    rintro node q r k ⟨r', inportDirn⟩ hq hr hroute hne
    obtain ⟨dest, hdest, hmesh, rfl⟩ := hhome hq
    obtain ⟨c0, hc0, rfl⟩ := exists_place hr
    obtain ⟨c, hc, ha, hentered, -⟩ := htable.route hdest hmesh hc0 hroute
    obtain rfl : r' = place cols c := ha
    obtain ⟨c', w, dirn, dirn', hstep⟩ := exists_xyStep hc hmesh (by rintro rfl; exact hne rfl)
    obtain ⟨outport, p, hlookup, hidx, hp, hout⟩ := htable.lookup hdest hstep
    have hxy := outportComputeXY_eq hstep hmesh hentered (g.routers (place cols c)).outports
    rw [hidx] at hxy
    refine ⟨outport, p, (place cols c', dirn'), hlookup, hxy, fun alg ordered rand halg => ?_, hp,
      hout⟩
    refine (if_neg (Ne.symm hne)).trans ?_
    cases alg with
    | TABLE => exact hlookup ordered rand
    | XY => exact hxy
    | CUSTOM => exact absurd rfl halg
  case arrives =>
    intro node q r hq hr
    obtain ⟨dest, hdest, hmesh, rfl⟩ := hhome hq
    obtain ⟨c0, hc0, rfl⟩ := exists_place hr
    rw [coordinates_place hc0.1, coordinates_place hmesh.1]
    obtain ⟨⟨r', inportDirn⟩, hroute⟩ := htable.exists_route hdest hmesh hc0 le_rfl
    obtain ⟨c, hc, ha, -, hk⟩ := htable.route hdest hmesh hc0 hroute
    obtain rfl : r' = place cols c := ha
    obtain rfl : c = dest := hops_eq_zero.1 (by omega)
    exact ⟨inportDirn, hroute⟩
  case arrives_iff =>
    rintro node q r k ⟨r', inportDirn⟩ hq hr hroute
    obtain ⟨dest, hdest, hmesh, rfl⟩ := hhome hq
    obtain ⟨c0, hc0, rfl⟩ := exists_place hr
    rw [coordinates_place hc0.1, coordinates_place hmesh.1]
    obtain ⟨c, hc, ha, -, hk⟩ := htable.route hdest hmesh hc0 hroute
    obtain rfl : r' = place cols c := ha
    have hzero : place cols c = place cols dest ↔ hops c dest = 0 := by
      rw [hops_eq_zero]
      exact ⟨place_inj hc.1 hmesh.1, fun h => by rw [h]⟩
    omega
  case acyclic =>
    -- every use increases the rank of the link
    let rank (l : ℕ × ℕ) := linkRank rows cols (coordinates cols l.1) (coordinates cols l.2)
    have hlt : ∀ l l', UsedBefore g (cols * rows) l l' → rank l < rank l' := by
      rintro _ _ ⟨node, q, r, k, hq, hr, ⟨r', inportDirn⟩, b, b', hroute, hhop, hhop', rfl, rfl⟩
      obtain ⟨dest, hdest, hmesh, rfl⟩ := hhome hq
      obtain ⟨c0, hc0, rfl⟩ := exists_place hr
      obtain ⟨c, hc, ha, -, -⟩ := htable.route hdest hmesh hc0 hroute
      obtain rfl : r' = place cols c := ha
      obtain ⟨c', w, dirn, dirn', hstep, rfl⟩ := (htable.hop_iff hdest hmesh hc).1 hhop
      have hc' := hstep.meshLink.inMesh.2
      obtain ⟨c'', w', dirn₁, dirn₁', hstep', rfl⟩ := (htable.hop_iff hdest hmesh hc').1 hhop'
      have hc'' := hstep'.meshLink.inMesh.2
      simp only [rank, coordinates_place hc.1, coordinates_place hc'.1, coordinates_place hc''.1]
      cases hstep <;> cases hstep' <;> simp only [linkRank] <;> split_ifs <;> omega
    intro l hcycle
    have hrank := hcycle.lift rank hlt
    rw [Relation.transGen_eq_self] at hrank
    exact lt_irrefl _ hrank

section MakeTopology

variable {nodes : ℕ} {o : Options} {controllers : List (Controller nodes)}
  {extLinks : List (ExtLink nodes o.numCpus)} {meshLinks : List (IntLink o.numCpus)}
  {t : Topology}

lemma IsMesh.fits (hmesh : IsMesh rows cols home t) : Fits t.topologyWeights := by
  have hle : ∀ i j, t.topologyWeights i j ≤ infiniteLatency := by
    intro i j
    have hinf : infiniteLatency = 10000 := rfl
    rcases hlink : t.link? i j with _ | e
    · by_cases hij : i = j
      · subst hij
        rw [topologyWeights_self hlink]
        decide
      · rw [topologyWeights_of_ne hlink hij]
    · rw [topologyWeights_of_link hlink]
      have := hmesh.weight_pos hlink
      omega
  intro i k j
  have hmax : infiniteLatency + infiniteLatency ≤ intMax := by decide
  exact (add_le_add (hle i k) (hle k j)).trans hmax

lemma IsMesh.positive (hmesh : IsMesh rows cols home t) : t.Positive :=
  fun _ _ _ he => (hmesh.weight_pos he).1

section Made

variable {d : IntMatrix t.numSwitches} {made : List MadeLink} {node q : ℕ}
  (hmesh : IsMesh rows cols home t)
  (hmade : t.MadeSpec d (List.finRange t.numSwitches ×ˢ List.finRange t.numSwitches) made)
include hmesh hmade

/-- The router of a node is the one at the link that was made from the node, which is its home. -/
lemma IsMesh.home_of_routerId (hq : (Wiring.wire made).routerId node = some q) :
    ∃ dest, home node dest ∧ InMesh rows cols dest ∧ place cols dest = q := by
  obtain ⟨link, entry, hmem⟩ := Wiring.exists_extIn_of_routerId hq
  obtain ⟨⟨i, j⟩, -, hmake, -⟩ := hmade.madeFor _ hmem
  obtain ⟨e, he, ⟨hi, hl⟩ | ⟨-, -, hl⟩ | ⟨-, -, hl⟩⟩ := makeLink_cases hmake
  · cases hl
    dsimp only at hi
    rcases hmesh.link he with ⟨n, c, hhome, hn, hc, -, -⟩ | ⟨_, _, -, hn, -⟩ | ⟨_, _, hn, -⟩
    · refine ⟨c, ?_, hmesh.home_inMesh hhome, ?_⟩
      · rwa [hn]
      · rw [hc, Nat.add_sub_cancel]
    · dsimp only at hn
      omega
    · dsimp only at hn
      omega
  · cases hl
  · cases hl

/-- Every node with a home has it as its router. -/
lemma IsMesh.routerId_eq (hhome : home node c) :
    (Wiring.wire made).routerId node = some (place cols c) := by
  obtain ⟨hnode, ⟨e, he⟩, -⟩ := hmesh.home_link hhome
  obtain ⟨hi, hj⟩ := lt_numSwitches_of_link? he
  -- the link to the router has weight one, so that it is made
  have hweight := hmesh.weight_eq_one he (.inl (by omega))
  have hlink : t.hasLink (⟨_, hi⟩, ⟨_, hj⟩) := by
    have hw := topologyWeights_of_link (i := ⟨_, hi⟩) (j := ⟨_, hj⟩) he
    rw [hweight] at hw
    simp [hasLink, hw, infiniteLatency]
  obtain ⟨l, hl, -, hmake, -⟩ := hmade.exists_link hlink
  obtain ⟨e', -, ⟨-, hin⟩ | ⟨hn, -⟩ | ⟨hn, -⟩⟩ := makeLink_cases hmake
  · rw [hin] at hl
    obtain ⟨q, hq⟩ := Option.isSome_iff_exists.1 (Wiring.isSome_routerId hl)
    obtain ⟨dest, hdest, -, rfl⟩ := hmesh.home_of_routerId hmade hq
    rw [hq, hmesh.home_unique hhome hdest]
  · exact absurd hnode (not_lt.2 hn)
  · dsimp only at hn
    omega

end Made

/-- Table routing with the weights of `Mesh_XY` is routing by directions, in every mesh whose
longest least weight of a path is less than `INFINITE_LATENCY`; and every controller has the router
of its external link. -/
theorem createLinks_routesXY (h : makeTopology o controllers = .ok (extLinks, meshLinks))
    (hnodup : (controllers.map (·.node)).Nodup)
    (hnew : Topology.new nodes o.numCpus extLinks meshLinks = .ok t) (hshort : t.Short) :
    ∃ N made, (∀ fuel, N ≤ fuel → t.createLinks fuel = .ok made) ∧
      (∀ l ∈ extLinks, (Wiring.wire made).routerId l.extNode = some (l.intNode : ℕ)) ∧
      RoutesXY o.meshRows o.numColumns (Wiring.wire made) := by
  have hmesh := isMesh_of_new h hnodup hnew
  have hplaced := wellPlaced_of_new hnew
  obtain ⟨N, d, hd, hdist⟩ := dist_spec hmesh.positive hmesh.fits
  obtain ⟨made, hcreate, hmade⟩ := createLinks_spec hplaced (hdist N le_rfl)
  refine ⟨N, made, fun fuel hfuel => ?_, fun l hl => ?_, ?_⟩
  · rw [createLinks, hdist fuel hfuel]
    rwa [createLinks, hdist N le_rfl] at hcreate
  · obtain ⟨hrouters, -⟩ := makeTopology_spec h
    obtain ⟨c, hc, hplace⟩ := exists_place (l.intNode.isLt.trans_eq hrouters.symm)
    rw [← hplace]
    exact hmesh.routerId_eq hmade ⟨hc.1, l, hl, rfl, hplace.symm⟩
  have htable := hmesh.tableSteps hd hmesh.positive hshort hmesh.fits hmade hplaced
  exact htable.routesXY fun hq => hmesh.home_of_routerId hmade hq

/-- Four routers in two rows, with a controller at each. -/
def square : Topology where
  nodes := 4
  numberOfSwitches := 4
  linkMap := [((11, 9), ⟨⟨1, 2⟩, "South", "North"⟩), ((10, 8), ⟨⟨1, 2⟩, "South", "North"⟩),
    ((9, 11), ⟨⟨1, 2⟩, "North", "South"⟩), ((8, 10), ⟨⟨1, 2⟩, "North", "South"⟩),
    ((11, 10), ⟨⟨1, 1⟩, "West", "East"⟩), ((9, 8), ⟨⟨1, 1⟩, "West", "East"⟩),
    ((10, 11), ⟨⟨1, 1⟩, "East", "West"⟩), ((8, 9), ⟨⟨1, 1⟩, "East", "West"⟩),
    ((11, 7), ⟨⟨1, 1⟩, "", ""⟩), ((3, 11), ⟨⟨1, 1⟩, "", ""⟩), ((10, 6), ⟨⟨1, 1⟩, "", ""⟩),
    ((2, 10), ⟨⟨1, 1⟩, "", ""⟩), ((9, 5), ⟨⟨1, 1⟩, "", ""⟩), ((1, 9), ⟨⟨1, 1⟩, "", ""⟩),
    ((8, 4), ⟨⟨1, 1⟩, "", ""⟩), ((0, 8), ⟨⟨1, 1⟩, "", ""⟩)]

/-- The least weights of paths in `square`, from a node or a router to a router or a node. -/
def squareWeight (i j : Fin square.numSwitches) : Option ℤ :=
  if i = j then some 0
  else if (j : ℕ) < 4 ∨ 4 ≤ (i : ℕ) ∧ (i : ℕ) < 8 then none
  else
    some (cost (coordinates 2 (i % 4)) (coordinates 2 (j % 4)) - 1 +
      (if (i : ℕ) < 4 then 1 else 0) + if (j : ℕ) < 8 then 1 else 0)

/-- The controller of the last router is reached from the first one in two hops. -/
theorem createLinks_routesXY_square :
    ∃ extLinks meshLinks, makeTopology ⟨4, 2, 1⟩ [⟨0, false⟩, ⟨1, false⟩, ⟨2, false⟩, ⟨3, false⟩] =
        .ok (extLinks, meshLinks) ∧
      Topology.new 4 4 extLinks meshLinks = .ok square ∧
      ∃ N made, (∀ fuel, N ≤ fuel → square.createLinks fuel = .ok made) ∧
        RoutesXY 2 2 (Wiring.wire made) ∧ (Wiring.wire made).routerId 3 = some 3 ∧
        ∃ inportDirn, Route (Wiring.wire made) 3 3 0 2 (3, inportDirn) := by
  let extLinks : List (ExtLink 4 4) :=
    [⟨⟨1, 1⟩, 0, 0⟩, ⟨⟨1, 1⟩, 1, 1⟩, ⟨⟨1, 1⟩, 2, 2⟩, ⟨⟨1, 1⟩, 3, 3⟩]
  have hmake : makeTopology ⟨4, 2, 1⟩ [⟨0, false⟩, ⟨1, false⟩, ⟨2, false⟩, ⟨3, false⟩] =
    .ok (extLinks, intLinks (show 2 * 2 = 4 from rfl) 1) := rfl
  have hnew : Topology.new 4 4 extLinks (intLinks (show 2 * 2 = 4 from rfl) 1) = .ok square := rfl
  obtain ⟨N, made, hmade, hrouter, hroutes⟩ := createLinks_routesXY hmake (by decide) hnew
    (short_of_table squareWeight (by decide +kernel) (by decide +kernel) (by decide +kernel))
  have hthree := hrouter ⟨⟨1, 1⟩, 3, 3⟩ (by simp [extLinks])
  exact ⟨_, _, hmake, hnew, N, made, hmade, hroutes, hthree, hroutes.arrives hthree (by decide)⟩

end MakeTopology

end ChipletGem5.MeshXY
