import ChipletGem5.Lib.Result

/-!
# Topologies

`Topology` (network/Topology.cc) takes the external and the internal links of a network and
makes the routing entries of all links: an entry has the destination nodes that the link is on a
shortest path to.

The switches of a topology are numbered.  The first `nodes` numbers are the inputs of the nodes,
the next `nodes` numbers their outputs, and the routers come after these.
-/

namespace ChipletGem5.Topology

/-- Directions of ports are names. -/
abbrev PortDirection := String

/-- `BasicLink`, as far as a topology reads it. -/
structure BasicLink where
  latency : ℤ
  weight : ℤ
deriving DecidableEq

/-- A link with the names of its ports. -/
structure LinkEntry where
  link : BasicLink
  srcOutportDirn : PortDirection
  dstInportDirn : PortDirection
deriving DecidableEq

/-- `BasicExtLink`, in both directions between a node and a router. -/
structure ExtLink (nodes routers : ℕ) extends BasicLink where
  extNode : Fin nodes
  intNode : Fin routers

/-- `BasicIntLink`, from a router to a router. -/
structure IntLink (routers : ℕ) extends BasicLink where
  srcNode : Fin routers
  dstNode : Fin routers
  srcOutport : PortDirection
  dstInport : PortDirection

def infiniteLatency : ℤ := 10000

/-- Addition of `int`, in two's complement. -/
def intAdd (a b : ℤ) : ℤ := (a + b).bmod (2 ^ 32)

def intMax : ℤ := 2147483647

lemma intAdd_eq {a b : ℤ} (h : 0 ≤ a + b) (h' : a + b ≤ intMax) : intAdd a b = a + b := by
  unfold intMax at h'
  exact Int.bmod_eq_of_le (by omega) (by omega)

/-- `Matrix`. -/
abbrev IntMatrix (n : ℕ) := Fin n → Fin n → ℤ

/-- Assignment to an entry of a matrix. -/
def IntMatrix.set {n : ℕ} (m : IntMatrix n) (i j : Fin n) (x : ℤ) : IntMatrix n :=
  fun i' j' => if i' = i ∧ j' = j then x else m i' j'

lemma IntMatrix.set_self {n : ℕ} (m : IntMatrix n) (i j : Fin n) (x : ℤ) : m.set i j x i j = x :=
  if_pos ⟨rfl, rfl⟩

lemma IntMatrix.set_of_ne {n : ℕ} (m : IntMatrix n) {i j i' j' : Fin n} (x : ℤ)
    (h : ¬ (i' = i ∧ j' = j)) : m.set i j x i' j' = m i' j' :=
  if_neg h

/-! ### Shortest paths -/

/-- The variables of `extend_shortest_path`. -/
structure Paths (n : ℕ) where
  currentDist : IntMatrix n
  latencies : IntMatrix n
  interSwitches : IntMatrix n
  change : Bool

/-- The variables of the innermost loop of `extend_shortest_path`; there is no intermediate switch
while the variable for it is `-1`. -/
structure Scan (n : ℕ) where
  minimum : ℤ
  previousMinimum : ℤ
  intermediateSwitch : Option (Fin n)
  interSwitches : IntMatrix n

variable {n : ℕ}

/-- The body of the innermost loop. -/
def Scan.step (dist : IntMatrix n) (i j : Fin n) (x : Scan n) (k : Fin n) : Scan n :=
  let minimum := min x.minimum (intAdd (dist i k) (dist k j))
  if x.previousMinimum ≠ minimum then
    { minimum
      previousMinimum := minimum
      intermediateSwitch := some k
      interSwitches := x.interSwitches.set i j
        (intAdd (intAdd (x.interSwitches i k) (x.interSwitches k j)) 1) }
  else { x with minimum, previousMinimum := minimum }

/-- The innermost loop. -/
def Paths.scan (p : Paths n) (i j : Fin n) : Scan n :=
  (List.finRange n).foldl (Scan.step p.currentDist i j)
    ⟨p.currentDist i j, p.currentDist i j, none, p.interSwitches⟩

/-- The body of the loops over pairs of switches. -/
def Paths.extendPair (p : Paths n) (i j : Fin n) : Result (Paths n) :=
  let x := p.scan i j
  if p.currentDist i j ≠ x.minimum then
    match x.intermediateSwitch with
    | none => .error (.assertion "intermediate_switch >= 0")
    | some k => .ok
        { currentDist := p.currentDist.set i j x.minimum
          latencies := p.latencies.set i j (intAdd (p.latencies i k) (p.latencies k j))
          interSwitches := x.interSwitches
          change := true }
  else .ok { p with interSwitches := x.interSwitches }

/-- The body of the outermost loop. -/
def Paths.sweep (p : Paths n) : Result (Paths n) :=
  (List.finRange n).foldlM (fun p i => (List.finRange n).foldlM (fun p j => p.extendPair i j) p)
    { p with change := false }

/-- `Topology::extend_shortest_path`; the loop takes at most `fuel` rounds. -/
def extendShortestPath : ℕ → Paths n → Result (Paths n)
  | 0, _ => .error (.undefined "while (change)")
  | fuel + 1, p => do
      let p ← p.sweep
      if p.change then extendShortestPath fuel p else return p

def shortestPath (fuel : ℕ) (weights latencies interSwitches : IntMatrix n) :
    Result (IntMatrix n) := do
  let p ← extendShortestPath fuel ⟨weights, latencies, interSwitches, true⟩
  return p.currentDist

/-- `Topology::link_is_shortest_path_to_node`. -/
def linkIsShortestPathToNode (src next final : Fin n) (weights dist : IntMatrix n) : Bool :=
  intAdd (weights src next) (dist next final) = dist src final

/-- Sets of nodes. -/
abbrev NetDest := Finset ℕ

/-- The switch of an output of a node, if there is one. -/
def outputSwitch? (n nodes d : ℕ) : Option (Fin n) :=
  if h : d + nodes < n then some ⟨d + nodes, h⟩ else none

/-- `Topology::shortest_path_to_node`.  The two loops, over the types of machines and the machines
of a type, count the nodes. -/
def shortestPathToNode (nodes : ℕ) (src next : Fin n) (weights dist : IntMatrix n) :
    Result NetDest :=
  (List.range nodes).foldlM (fun result d => do
    let final ← getOrError (outputSwitch? n nodes d) (.undefined "dist[next][final]")
    return if linkIsShortestPathToNode src next final weights dist then insert d result
      else result) ∅

/-! ### Links -/

end Topology

/-- The links are an association list, in which the first entry of a pair of switches counts. -/
structure Topology where
  nodes : ℕ
  numberOfSwitches : ℕ
  linkMap : List ((ℕ × ℕ) × Topology.LinkEntry)

namespace Topology

def link? (t : Topology) (src dest : ℕ) : Option LinkEntry := t.linkMap.lookup (src, dest)

def addLink (t : Topology) (src dest : ℕ) (entry : LinkEntry) : Result Topology := do
  require (src ≤ t.numberOfSwitches + t.nodes + t.nodes)
    (.assertion "src <= m_number_of_switches+m_nodes+m_nodes")
  require (dest ≤ t.numberOfSwitches + t.nodes + t.nodes)
    (.assertion "dest <= m_number_of_switches+m_nodes+m_nodes")
  return { t with linkMap := ((src, dest), entry) :: t.linkMap }

/-- The links of an external link. -/
def addExtLink {nodes routers : ℕ} (t : Topology) (l : ExtLink nodes routers) :
    Result Topology := do
  let t ← t.addLink l.extNode (l.intNode + 2 * nodes) ⟨l.toBasicLink, "", ""⟩
  t.addLink (l.intNode + 2 * nodes) (l.extNode + nodes) ⟨l.toBasicLink, "", ""⟩

/-- The link of an internal link. -/
def addIntLink {routers : ℕ} (nodes : ℕ) (t : Topology) (l : IntLink routers) : Result Topology :=
  t.addLink (l.srcNode + 2 * nodes) (l.dstNode + 2 * nodes)
    ⟨l.toBasicLink, l.srcOutport, l.dstInport⟩

def new (nodes routers : ℕ) (extLinks : List (ExtLink nodes routers))
    (intLinks : List (IntLink routers)) : Result Topology := do
  require (nodes > 1) (.assertion "m_nodes > 1")
  let t ← extLinks.foldlM addExtLink ⟨nodes, routers, []⟩
  intLinks.foldlM (addIntLink nodes) t

variable (t : Topology)

/-- The number of switches that `createLinks` finds. -/
def numSwitches : ℕ :=
  t.linkMap.foldl (fun m e => max (max m e.1.1) e.1.2) 0 + 1

/-- `topology_weights`, once it is filled in. -/
def topologyWeights : IntMatrix t.numSwitches := fun i j =>
  match t.link? i j with
  | some e => e.link.weight
  | none => if i = j then 0 else infiniteLatency

/-- `component_latencies`, once it is filled in. -/
def componentLatencies : IntMatrix t.numSwitches := fun i j =>
  match t.link? i j with
  | some e => e.link.latency
  | none => -1

/-- The calls that `Topology::makeLink` makes to the network. -/
inductive MadeLink where
  /-- `makeExtInLink`, from a node to a router. -/
  | extIn (src dest : ℕ) (link : BasicLink) (entry : NetDest)
  /-- `makeExtOutLink`, from a router to a node. -/
  | extOut (src dest : ℕ) (link : BasicLink) (entry : NetDest)
  /-- `makeInternalLink`, from a router to a router. -/
  | internal (src dest : ℕ) (link : BasicLink) (entry : NetDest)
      (srcOutportDirn dstInportDirn : PortDirection)

def makeLink (src dest : ℕ) (entry : NetDest) : Result MadeLink := do
  require (src ≥ 2 * t.nodes || dest ≥ 2 * t.nodes)
    (.assertion "src >= 2 * m_nodes || dest >= 2 * m_nodes")
  let e ← getOrError (t.link? src dest) (.undefined "m_link_map[src_dest].link")
  if src < t.nodes then return .extIn src (dest - 2 * t.nodes) e.link entry
  else if dest < 2 * t.nodes then
    require (dest ≥ t.nodes) (.assertion "dest >= m_nodes")
    return .extOut (src - 2 * t.nodes) (dest - t.nodes) e.link entry
  else
    require (src ≥ 2 * t.nodes && dest ≥ 2 * t.nodes)
      (.assertion "(src >= 2 * m_nodes) && (dest >= 2 * m_nodes)")
    return .internal (src - 2 * t.nodes) (dest - 2 * t.nodes) e.link entry e.srcOutportDirn
      e.dstInportDirn

/-- The distances that `createLinks` computes. -/
def dist (fuel : ℕ) : Result (IntMatrix t.numSwitches) :=
  shortestPath fuel t.topologyWeights t.componentLatencies fun _ _ => 0

/-- The body of the loops of `createLinks`. -/
def createLink (dist : IntMatrix t.numSwitches) (made : List MadeLink) (i j : Fin t.numSwitches) :
    Result (List MadeLink) :=
  let weight := t.topologyWeights i j
  if weight > 0 ∧ weight ≠ infiniteLatency then do
    let destinationSet ← shortestPathToNode t.nodes i j t.topologyWeights dist
    let l ← t.makeLink i j destinationSet
    return made ++ [l]
  else return made

/-- `Topology::createLinks`, with the links in the order in which they are made. -/
def createLinks (fuel : ℕ) : Result (List MadeLink) := do
  let dist ← t.dist fuel
  (List.finRange t.numSwitches).foldlM (fun made i =>
    (List.finRange t.numSwitches).foldlM (fun made j => t.createLink dist made i j) made) []

end ChipletGem5.Topology
