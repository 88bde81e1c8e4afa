import ChipletGem5.Ruby.RoutingUnit
import ChipletGem5.Ruby.TopologyRoutes

/-!
# Meshes

`Mesh_XY` (configs/topologies/Mesh_XY.py) makes a mesh of routers, with links of weight one along
the rows and of weight two along the columns.  This file has the links of a mesh and the weights
of its topology; `MeshRoutes` has the routes.
-/

namespace ChipletGem5.MeshXY

open ChipletGem5.Topology List Nat

/-- A controller, which is a node of the network. -/
structure Controller (nodes : ℕ) where
  node : Fin nodes
  isDMA : Bool

/-- The options that `makeTopology` reads. -/
structure Options where
  numCpus : ℕ
  meshRows : ℕ
  linkLatency : ℤ

/-! ### Links -/

section Links

variable {nodes routers rows cols : ℕ} (hrouters : cols * rows = routers) (linkLatency : ℤ)

include hrouters in
lemma router_lt {row col : ℕ} (hrow : row < rows) (hcol : col < cols) :
    col + row * cols < routers := by
  have : (row + 1) * cols ≤ rows * cols := mul_le_mul_right _ hrow
  rw [add_mul, one_mul] at this
  rw [← hrouters, mul_comm cols rows]
  omega

/-- `routers[col + (row * num_columns)]`. -/
def router (row : Fin rows) (col : Fin cols) : Fin routers :=
  ⟨col + row * cols, router_lt hrouters row.isLt col.isLt⟩

/-- The loops over neighbours in a row. -/
def rowLinks (link : Fin routers → Fin routers → IntLink routers) : List (IntLink routers) :=
  (List.finRange rows).flatMap fun row => (List.finRange cols).flatMap fun col : Fin cols =>
    if h : (col : ℕ) + 1 < cols then
      [link (router hrouters row col) (router hrouters row ⟨col + 1, h⟩)]
    else []

/-- The loops over neighbours in a column. -/
def colLinks (link : Fin routers → Fin routers → IntLink routers) : List (IntLink routers) :=
  (List.finRange cols).flatMap fun col => (List.finRange rows).flatMap fun row : Fin rows =>
    if h : (row : ℕ) + 1 < rows then
      [link (router hrouters row col) (router hrouters ⟨row + 1, h⟩ col)]
    else []

/-- East output to West input links. -/
def eastLinks : List (IntLink routers) :=
  rowLinks hrouters fun eastOut westIn => ⟨⟨linkLatency, 1⟩, eastOut, westIn, "East", "West"⟩

/-- West output to East input links. -/
def westLinks : List (IntLink routers) :=
  rowLinks hrouters fun eastIn westOut => ⟨⟨linkLatency, 1⟩, westOut, eastIn, "West", "East"⟩

/-- North output to South input links. -/
def northLinks : List (IntLink routers) :=
  colLinks hrouters fun northOut southIn => ⟨⟨linkLatency, 2⟩, northOut, southIn, "North", "South"⟩

/-- South output to North input links. -/
def southLinks : List (IntLink routers) :=
  colLinks hrouters fun northIn southOut => ⟨⟨linkLatency, 2⟩, southOut, northIn, "South", "North"⟩

def intLinks : List (IntLink routers) :=
  eastLinks hrouters linkLatency ++ westLinks hrouters linkLatency ++
    northLinks hrouters linkLatency ++ southLinks hrouters linkLatency

variable (hpos : 0 < routers)

/-- Each node is connected to its router, in turn; an external link has the default weight. -/
def networkLinks (networkNodes : List (Controller nodes)) : List (ExtLink nodes routers) :=
  networkNodes.zipIdx.map fun (n, i) =>
    ⟨⟨linkLatency, 1⟩, n.node, ⟨i % routers, Nat.mod_lt _ hpos⟩⟩

/-- The remaining nodes are connected to router 0. -/
def remainderLinks (remainderNodes : List (Controller nodes)) : List (ExtLink nodes routers) :=
  remainderNodes.map fun n => ⟨⟨linkLatency, 1⟩, n.node, ⟨0, hpos⟩⟩

end Links

/-- `Mesh_XY.makeTopology`: the external and the internal links. -/
def makeTopology {nodes : ℕ} (o : Options) (controllers : List (Controller nodes)) :
    Result (List (ExtLink nodes o.numCpus) × List (IntLink o.numCpus)) :=
  if hpos : 0 < o.numCpus then do
    let cntrlsPerRouter := controllers.length / o.numCpus
    let remainder := controllers.length % o.numCpus
    require (o.meshRows > 0 && o.meshRows ≤ o.numCpus)
      (.assertion "num_rows > 0 and num_rows <= num_routers")
    if hrouters : o.numCpus / o.meshRows * o.meshRows = o.numCpus then do
      let networkNodes := controllers.take (controllers.length - remainder)
      let remainderNodes := controllers.drop (controllers.length - remainder)
      require ((List.range networkNodes.length).all fun i => i / o.numCpus < cntrlsPerRouter)
        (.assertion "cntrl_level < cntrls_per_router")
      require (remainderNodes.all (·.isDMA)) (.assertion "node.type == 'DMA_Controller'")
      require ((List.range remainderNodes.length).all (· < remainder))
        (.assertion "i < remainder")
      return (networkLinks o.linkLatency hpos networkNodes ++
        remainderLinks o.linkLatency hpos remainderNodes, intLinks hrouters o.linkLatency)
    else .error (.assertion "num_columns * num_rows == num_routers")
  else .error (.panic "integer division or modulo by zero")

/-! ### Neighbours -/

/-- The number of the router in a column and a row. -/
def place (cols : ℕ) (c : ℕ × ℕ) : ℕ := c.1 + c.2 * cols

/-- A column and a row of the mesh. -/
def InMesh (rows cols : ℕ) (c : ℕ × ℕ) : Prop := c.1 < cols ∧ c.2 < rows

variable {cols : ℕ} {c c' : ℕ × ℕ}

lemma place_mod (h : c.1 < cols) : place cols c % cols = c.1 := by
  rw [place, add_mul_mod_self_right, mod_eq_of_lt h]

lemma place_div (h : c.1 < cols) : place cols c / cols = c.2 := by
  rw [place, add_mul_div_right _ _ (by omega), div_eq_of_lt h, zero_add]

lemma place_inj (h : c.1 < cols) (h' : c'.1 < cols)
    (heq : place cols c = place cols c') : c = c' := by
  refine Prod.ext ?_ ?_
  · rw [← place_mod h, heq, place_mod h']
  · rw [← place_div h, heq, place_div h']

lemma exists_place {rows r : ℕ} (h : r < cols * rows) :
    ∃ c, InMesh rows cols c ∧ place cols c = r := by
  have hcols : 0 < cols := Nat.pos_of_mul_pos_right (Nat.zero_lt_of_lt h)
  exact ⟨(r % cols, r / cols), ⟨mod_lt _ hcols, Nat.div_lt_of_lt_mul h⟩,
    by rw [place, mul_comm, mod_add_div]⟩

/-- A mesh link from a router to a router, with its weight and the directions of its ports. -/
inductive MeshLink (rows cols : ℕ) : ℕ × ℕ → ℕ × ℕ → ℤ → PortDirection → PortDirection → Prop
  | east {row col : ℕ} (hrow : row < rows) (hcol : col + 1 < cols) :
      MeshLink rows cols (col, row) (col + 1, row) 1 "East" "West"
  | west {row col : ℕ} (hrow : row < rows) (hcol : col + 1 < cols) :
      MeshLink rows cols (col + 1, row) (col, row) 1 "West" "East"
  | north {row col : ℕ} (hrow : row + 1 < rows) (hcol : col < cols) :
      MeshLink rows cols (col, row) (col, row + 1) 2 "North" "South"
  | south {row col : ℕ} (hrow : row + 1 < rows) (hcol : col < cols) :
      MeshLink rows cols (col, row + 1) (col, row) 2 "South" "North"

lemma MeshLink.inMesh {rows : ℕ} {w : ℤ} {dirn dirn' : PortDirection}
    (h : MeshLink rows cols c c' w dirn dirn') : InMesh rows cols c ∧ InMesh rows cols c' := by
  cases h with
  | east hrow hcol => exact ⟨⟨lt_of_succ_lt hcol, hrow⟩, hcol, hrow⟩
  | west hrow hcol => exact ⟨⟨hcol, hrow⟩, lt_of_succ_lt hcol, hrow⟩
  | north hrow hcol => exact ⟨⟨hcol, lt_of_succ_lt hrow⟩, hcol, hrow⟩
  | south hrow hcol => exact ⟨⟨hcol, hrow⟩, hcol, lt_of_succ_lt hrow⟩

section Neighbours

variable {routers rows cols : ℕ} {hrouters : cols * rows = routers} {linkLatency : ℤ}
  {link : Fin routers → Fin routers → IntLink routers} {l : IntLink routers}

lemma mem_rowLinks : l ∈ rowLinks hrouters link ↔ ∃ (row : Fin rows) (col : ℕ)
    (h : col + 1 < cols), link (router hrouters row ⟨col, by omega⟩)
      (router hrouters row ⟨col + 1, h⟩) = l := by
  simp only [rowLinks, mem_flatMap, mem_finRange, true_and]
  constructor
  · rintro ⟨row, col, hl⟩
    split_ifs at hl with h
    · exact ⟨row, col, h, (mem_singleton.1 hl).symm⟩
    · cases hl
  · rintro ⟨row, col, h, rfl⟩
    exact ⟨row, ⟨col, by omega⟩, by rw [dif_pos h]; exact mem_singleton_self _⟩

lemma mem_colLinks : l ∈ colLinks hrouters link ↔ ∃ (col : Fin cols) (row : ℕ)
    (h : row + 1 < rows), link (router hrouters ⟨row, by omega⟩ col)
      (router hrouters ⟨row + 1, h⟩ col) = l := by
  simp only [colLinks, mem_flatMap, mem_finRange, true_and]
  constructor
  · rintro ⟨col, row, hl⟩
    split_ifs at hl with h
    · exact ⟨col, row, h, (mem_singleton.1 hl).symm⟩
    · cases hl
  · rintro ⟨col, row, h, rfl⟩
    exact ⟨col, ⟨row, by omega⟩, by rw [dif_pos h]; exact mem_singleton_self _⟩

lemma meshLink_of_mem (h : l ∈ intLinks hrouters linkLatency) :
    ∃ c c', MeshLink rows cols c c' l.weight l.srcOutport l.dstInport ∧
      (l.srcNode : ℕ) = place cols c ∧ (l.dstNode : ℕ) = place cols c' := by
  simp only [intLinks, mem_append, eastLinks, westLinks, northLinks, southLinks,
    mem_rowLinks, mem_colLinks] at h
  rcases h with ((⟨row, col, h, rfl⟩ | ⟨row, col, h, rfl⟩) | ⟨col, row, h, rfl⟩) |
    ⟨col, row, h, rfl⟩
  · exact ⟨_, _, .east row.isLt h, rfl, rfl⟩
  · exact ⟨_, _, .west row.isLt h, rfl, rfl⟩
  · exact ⟨_, _, .north h col.isLt, rfl, rfl⟩
  · exact ⟨_, _, .south h col.isLt, rfl, rfl⟩

lemma exists_mem_of_meshLink (hrouters : cols * rows = routers) (linkLatency : ℤ)
    {w : ℤ} {dirn dirn' : PortDirection}
    (h : MeshLink rows cols c c' w dirn dirn') : ∃ l ∈ intLinks hrouters linkLatency,
      (l.srcNode : ℕ) = place cols c ∧ (l.dstNode : ℕ) = place cols c' := by
  simp only [intLinks, mem_append, eastLinks, westLinks, northLinks, southLinks,
    mem_rowLinks, mem_colLinks]
  cases h with
  | @east row col hrow hcol =>
    exact ⟨_, .inl (.inl (.inl ⟨⟨row, hrow⟩, col, hcol, rfl⟩)), rfl, rfl⟩
  | @west row col hrow hcol =>
    exact ⟨_, .inl (.inl (.inr ⟨⟨row, hrow⟩, col, hcol, rfl⟩)), rfl, rfl⟩
  | @north row col hrow hcol =>
    exact ⟨_, .inl (.inr ⟨⟨col, hcol⟩, row, hrow, rfl⟩), rfl, rfl⟩
  | @south row col hrow hcol =>
    exact ⟨_, .inr ⟨⟨col, hcol⟩, row, hrow, rfl⟩, rfl, rfl⟩

end Neighbours

/-! ### The topology of a mesh -/

/-- The links of the topology of a mesh, in which a node has a router as its home. -/
structure IsMesh (rows cols : ℕ) (home : ℕ → ℕ × ℕ → Prop) (t : Topology) : Prop where
  home_inMesh : ∀ {node c}, home node c → InMesh rows cols c
  home_unique : ∀ {node c c'}, home node c → home node c' → c = c'
  /-- Every link is an external link of weight one, in one of its directions, or a mesh link. -/
  link : ∀ {src dest e}, t.link? src dest = some e →
    (∃ node c, home node c ∧ src = node ∧ dest = place cols c + 2 * t.nodes ∧ node < t.nodes ∧
      e.link.weight = 1) ∨
    (∃ node c, home node c ∧ src = place cols c + 2 * t.nodes ∧ dest = node + t.nodes ∧
      node < t.nodes ∧ e.link.weight = 1) ∨
    ∃ c c', src = place cols c + 2 * t.nodes ∧ dest = place cols c' + 2 * t.nodes ∧
      MeshLink rows cols c c' e.link.weight e.srcOutportDirn e.dstInportDirn
  home_link : ∀ {node c}, home node c → node < t.nodes ∧
    (∃ e, t.link? node (place cols c + 2 * t.nodes) = some e) ∧
    ∃ e, t.link? (place cols c + 2 * t.nodes) (node + t.nodes) = some e
  mesh_link : ∀ {c c' w dirn dirn'}, MeshLink rows cols c c' w dirn dirn' →
    ∃ e, t.link? (place cols c + 2 * t.nodes) (place cols c' + 2 * t.nodes) = some e

/-- A controller has its external link at a router. -/
def Home {nodes routers : ℕ} (cols : ℕ) (extLinks : List (ExtLink nodes routers)) (node : ℕ)
    (c : ℕ × ℕ) : Prop :=
  c.1 < cols ∧ ∃ l ∈ extLinks, (l.extNode : ℕ) = node ∧ (l.intNode : ℕ) = place cols c

lemma exists_link?_of_mem {t : Topology} {src dest : ℕ} {e : LinkEntry}
    (h : ((src, dest), e) ∈ t.linkMap) : ∃ e, t.link? src dest = some e := by
  rcases hlink : t.link? src dest with _ | e'
  · have := lookup_eq_none_iff.1 hlink _ h
    simp at this
  · exact ⟨e', rfl⟩

section MakeTopology

variable {nodes : ℕ} {o : Options} {controllers : List (Controller nodes)}
  {extLinks : List (ExtLink nodes o.numCpus)} {meshLinks : List (IntLink o.numCpus)}
  {t : Topology}

def Options.numColumns (o : Options) : ℕ := o.numCpus / o.meshRows

lemma makeTopology_spec (h : makeTopology o controllers = .ok (extLinks, meshLinks)) :
    ∃ hrouters : o.numColumns * o.meshRows = o.numCpus,
      meshLinks = intLinks hrouters o.linkLatency ∧
      extLinks.map (·.extNode) = controllers.map (·.node) ∧ ∀ l ∈ extLinks, l.weight = 1 := by
  rw [makeTopology] at h
  split_ifs at h with hpos hrouters
  swap
  · obtain ⟨-, -, h⟩ := bind_eq_ok.1 h
    cases h
  obtain ⟨-, -, h⟩ := bind_eq_ok.1 h
  obtain ⟨-, -, h⟩ := bind_eq_ok.1 h
  obtain ⟨-, -, h⟩ := bind_eq_ok.1 h
  obtain ⟨-, -, ⟨⟩⟩ := bind_pure_eq_ok.1 h
  refine ⟨hrouters, rfl, ?_, ?_⟩
  · have hnetwork : ∀ l : List (Controller nodes),
        (networkLinks o.linkLatency hpos l).map (·.extNode) = l.map (·.node) := by
      intro l
      rw [networkLinks, map_map]
      conv_rhs => rw [← zipIdx_map_fst 0 l, map_map]
      rfl
    have hremainder : ∀ l : List (Controller nodes),
        (remainderLinks o.linkLatency hpos l).map (·.extNode) = l.map (·.node) := by
      intro l
      rw [remainderLinks, map_map]
      rfl
    rw [map_append, hnetwork, hremainder, ← map_append, take_append_drop]
  · intro l hl
    rcases mem_append.1 hl with hl | hl
    all_goals
      obtain ⟨q, -, rfl⟩ := mem_map.1 hl
      rfl

lemma isMesh_of_new (h : makeTopology o controllers = .ok (extLinks, meshLinks))
    (hnodup : (controllers.map (·.node)).Nodup)
    (hnew : Topology.new nodes o.numCpus extLinks meshLinks = .ok t) :
    IsMesh o.meshRows o.numColumns (Home o.numColumns extLinks) t := by
  obtain ⟨hrouters, rfl, hmap, hweight⟩ := makeTopology_spec h
  obtain ⟨hnodes, hlinkMap⟩ := new_spec hnew
  have hplace : ∀ l ∈ extLinks, ∃ c, InMesh o.meshRows o.numColumns c ∧
      place o.numColumns c = l.intNode := by
    intro l _
    refine exists_place ?_
    rw [hrouters]
    exact l.intNode.isLt
  constructor
  case home_inMesh =>
    rintro node c ⟨hc, l, hl, -, hr⟩
    obtain ⟨c', hc', heq⟩ := hplace l hl
    rwa [place_inj hc hc'.1 (hr.symm.trans heq.symm)]
  case home_unique =>
    rintro node c c' ⟨hc, l, hl, hnode, hr⟩ ⟨hc', l', hl', hnode', hr'⟩
    have heq : l = l' := inj_on_of_nodup_map (hmap ▸ hnodup) hl hl'
      (Fin.val_inj.1 (hnode.trans hnode'.symm))
    subst heq
    exact place_inj hc hc' (hr.symm.trans hr')
  case link =>
    intro src dest e he
    rcases (hlinkMap _).1 (mem_of_link? he) with ⟨l, hl, hentry⟩ | ⟨l, hl, hentry⟩
    · obtain ⟨c, hc, hr⟩ := hplace l hl
      have hhome : Home o.numColumns extLinks l.extNode c := ⟨hc.1, l, hl, rfl, hr.symm⟩
      simp only [ExtLink.entries, mem_cons, not_mem_nil, or_false, Prod.mk.injEq] at hentry
      rcases hentry with ⟨⟨rfl, rfl⟩, rfl⟩ | ⟨⟨rfl, rfl⟩, rfl⟩
      · exact .inl ⟨_, c, hhome, rfl, by rw [hr, hnodes], hnodes ▸ l.extNode.isLt, hweight l hl⟩
      · exact .inr (.inl ⟨_, c, hhome, by rw [hr, hnodes], by rw [hnodes],
          hnodes ▸ l.extNode.isLt, hweight l hl⟩)
    · obtain ⟨c, c', hlink, hsrc, hdst⟩ := meshLink_of_mem hl
      obtain ⟨⟨rfl, rfl⟩, rfl⟩ := hentry
      exact .inr (.inr ⟨c, c', by rw [hsrc, hnodes], by rw [hdst, hnodes], hlink⟩)
  case home_link =>
    rintro node c ⟨hc, l, hl, rfl, hr⟩
    have hentry {src dest : ℕ} (h : ((src, dest), ⟨l.toBasicLink, "", ""⟩) ∈ l.entries) :=
      exists_link?_of_mem ((hlinkMap _).2 (.inl ⟨l, hl, h⟩))
    refine ⟨hnodes ▸ l.extNode.isLt, hentry ?_, hentry ?_⟩ <;>
      simp [ExtLink.entries, hr, hnodes]
  case mesh_link =>
    intro c c' w dirn dirn' hlink
    obtain ⟨l, hl, hsrc, hdst⟩ := exists_mem_of_meshLink hrouters o.linkLatency hlink
    refine exists_link?_of_mem (e := ⟨l.toBasicLink, l.srcOutport, l.dstInport⟩)
      ((hlinkMap _).2 (.inr ⟨l, hl, ?_⟩))
    rw [IntLink.mapEntry, hsrc, hdst, hnodes]

end MakeTopology

end ChipletGem5.MeshXY
