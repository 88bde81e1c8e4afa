import ChipletGem5.Ruby.Topology

/-!
# Routing units of Garnet

The ports that `GarnetNetwork` gives to its routers for the links of a topology, and the choice of
an output port by `RoutingUnit` (garnet2.0/RoutingUnit.cc): from the routing table, or by the
directions of the ports of a mesh.
-/

namespace ChipletGem5.Garnet

open List Function

open ChipletGem5.Topology (PortDirection NetDest MadeLink BasicLink)

/-! ### Ports -/

/-- What a link leads to: an input port of a router, with its direction, or the interface of a
node. -/
inductive LinkEnd where
  | router (id : ℕ) (inportDirn : PortDirection)
  | ni (id : ℕ)
deriving DecidableEq

/-- An output port, with its entries in the tables of the routing unit and the end of its link. -/
structure OutPort where
  direction : PortDirection
  routingTableEntry : NetDest
  linkWeight : ℤ
  outLink : LinkEnd

/-- The ports of a router, by their numbers; an input port has a direction. -/
structure RouterPorts where
  inports : List PortDirection
  outports : List OutPort

/-- The ports of all routers, and the router of each node. -/
structure Wiring where
  routers : ℕ → RouterPorts
  routerId : ℕ → Option ℕ

namespace Wiring

variable (g : Wiring)

def addInPort (r : ℕ) (inportDirn : PortDirection) : Wiring :=
  let ports := { g.routers r with inports := (g.routers r).inports ++ [inportDirn] }
  { g with routers := update g.routers r ports }

def addOutPort (r : ℕ) (p : OutPort) : Wiring :=
  let ports := { g.routers r with outports := (g.routers r).outports ++ [p] }
  { g with routers := update g.routers r ports }

/-- `GarnetNetwork::makeExtInLink`, `makeExtOutLink` and `makeInternalLink`. -/
def makeLink : MadeLink → Wiring
  | .extIn src dest _ _ =>
      { g.addInPort dest "Local" with routerId := update g.routerId src (some dest) }
  | .extOut src dest link entry => g.addOutPort src ⟨"Local", entry, link.weight, .ni dest⟩
  | .internal src dest link entry srcOutportDirn dstInportDirn =>
      (g.addInPort dest dstInportDirn).addOutPort src
        ⟨srcOutportDirn, entry, link.weight, .router dest dstInportDirn⟩

/-- The network before any link is made. -/
def empty : Wiring := ⟨fun _ => ⟨[], []⟩, fun _ => none⟩

/-- The network with the links that a topology makes. -/
def wire (made : List MadeLink) : Wiring := made.foldl makeLink empty

/-- The output port that a link has at a router. -/
def outPort? (r : ℕ) : MadeLink → Option OutPort
  | .extIn _ _ _ _ => none
  | .extOut src dest link entry =>
      if src = r then some ⟨"Local", entry, link.weight, .ni dest⟩ else none
  | .internal src dest link entry srcOutportDirn dstInportDirn =>
      if src = r then
        some ⟨srcOutportDirn, entry, link.weight, .router dest dstInportDirn⟩
      else none

lemma outports_addInPort (dest r : ℕ) (dirn : PortDirection) :
    ((g.addInPort dest dirn).routers r).outports = (g.routers r).outports := by
  by_cases hr : r = dest <;> simp [addInPort, hr]

lemma outports_addOutPort (src r : ℕ) (p : OutPort) :
    ((g.addOutPort src p).routers r).outports =
      (g.routers r).outports ++ if src = r then [p] else [] := by
  by_cases hr : r = src
  · simp [addOutPort, hr]
  · simp [addOutPort, hr, Ne.symm hr]

lemma outports_makeLink (l : MadeLink) (r : ℕ) : ((g.makeLink l).routers r).outports =
    (g.routers r).outports ++ (outPort? r l).toList := by
  cases l with
  | extIn src dest link entry =>
    rw [outPort?, Option.toList_none, append_nil]
    exact g.outports_addInPort dest r "Local"
  | extOut src dest link entry =>
    rw [makeLink, outports_addOutPort, outPort?]
    split_ifs <;> rfl
  | internal src dest link entry dirn dirn' =>
    rw [makeLink, outports_addOutPort, outports_addInPort, outPort?]
    split_ifs <;> rfl

lemma wire_append (made : List MadeLink) (l : MadeLink) :
    wire (made ++ [l]) = (wire made).makeLink l := by
  rw [wire, foldl_append]
  rfl

lemma outports_wire (made : List MadeLink) (r : ℕ) :
    ((wire made).routers r).outports = made.filterMap (outPort? r) := by
  induction made using List.reverseRecOn with
  | nil => rfl
  | append_singleton made l ih =>
    rw [wire_append, outports_makeLink, ih, filterMap_append]
    cases h : outPort? r l <;> simp [h]

/-- A node has a router if a link was made from it. -/
lemma isSome_routerId {made : List MadeLink} {node r : ℕ} {link : BasicLink} {entry : NetDest}
    (h : .extIn node r link entry ∈ made) : ((wire made).routerId node).isSome := by
  induction made using List.reverseRecOn with
  | nil => cases h
  | append_singleton made l ih =>
    rw [wire_append]
    rcases mem_append.1 h with hmem | hmem
    · cases l with
      | extIn src dest link' entry' =>
        by_cases hsrc : node = src
        · simp [makeLink, hsrc]
        · simpa [makeLink, hsrc] using ih hmem
      | extOut _ _ _ _ | internal _ _ _ _ _ _ => exact ih hmem
    · cases mem_singleton.1 hmem
      simp [makeLink]

lemma exists_extIn_of_routerId {made : List MadeLink} {node r : ℕ}
    (h : (wire made).routerId node = some r) : ∃ link entry, .extIn node r link entry ∈ made := by
  induction made using List.reverseRecOn with
  | nil => cases h
  | append_singleton made l ih =>
    rw [wire_append] at h
    have hbefore (h : (wire made).routerId node = some r) :
        ∃ link entry, .extIn node r link entry ∈ made ++ [l] := by
      obtain ⟨link, entry, hmem⟩ := ih h
      exact ⟨link, entry, mem_append_left _ hmem⟩
    cases l with
    | extIn src dest link entry =>
      by_cases hsrc : node = src
      · subst hsrc
        have heq : some dest = some r := by simpa [makeLink] using h
        cases heq
        exact ⟨link, entry, by simp⟩
      · refine hbefore ?_
        simpa [makeLink, hsrc] using h
    | extOut _ _ _ _ | internal _ _ _ _ _ _ => exact hbefore h

end Wiring

/-! ### The routing table -/

def infinite : ℤ := 10000

/-- The routing table has the destination for the port. -/
def OutPort.leadsTo (p : OutPort) (dest : NetDest) : Bool := dest ∩ p.routingTableEntry ≠ ∅

/-- The body of the loop for the least weight. -/
def minWeightStep (dest : NetDest) (minWeight : ℤ) (p : OutPort) : ℤ :=
  if p.leadsTo dest then if p.linkWeight ≤ minWeight then p.linkWeight else minWeight
  else minWeight

/-- The least weight of the ports for the destination. -/
def minWeight (ports : List OutPort) (dest : NetDest) : ℤ :=
  ports.foldl (minWeightStep dest) infinite

/-- The numbers of the ports for the destination that have the least weight. -/
def outputLinkCandidates (ports : List OutPort) (dest : NetDest) : List ℕ :=
  ports.findIdxs fun p => p.leadsTo dest && p.linkWeight == minWeight ports dest

/-- `RoutingUnit::lookupRoutingTable`, with the next random number. -/
def lookupRoutingTable (isVNetOrdered : Bool) (rand : ℕ) (ports : List OutPort) (dest : NetDest) :
    Result ℕ :=
  let candidates := outputLinkCandidates ports dest
  if candidates.length = 0 then
    .error (.fatal "Fatal Error:: No Route exists from this Router.")
  else
    let candidate := if isVNetOrdered then 0 else rand % candidates.length
    getOrError candidates[candidate]? (.undefined "output_link_candidates.at(candidate)")

/-! ### Routing by directions -/

/-- `m_outports_dirn2idx`, in which the latest port of a direction counts. -/
def outportsDirn2idx (ports : List OutPort) (dirn : PortDirection) : ℕ :=
  (ports.findIdxs fun p => p.direction == dirn).getLastD 0

def outportComputeXY (numRows numCols : ℤ) (ports : List OutPort) (myId destId : ℤ)
    (inportDirn : PortDirection) : Result ℕ := do
  require (numRows > 0 && numCols > 0) (.assertion "num_rows > 0 && num_cols > 0")
  let myX := myId.tmod numCols
  let myY := myId.tdiv numCols
  let destX := destId.tmod numCols
  let destY := destId.tdiv numCols
  let xHops := |destX - myX|
  let yHops := |destY - myY|
  require (!(xHops == 0 && yHops == 0)) (.assertion "!(x_hops == 0 && y_hops == 0)")
  if xHops > 0 then
    if destX ≥ myX then
      require (inportDirn == "Local" || inportDirn == "West")
        (.assertion "inport_dirn == \"Local\" || inport_dirn == \"West\"")
      return outportsDirn2idx ports "East"
    else
      require (inportDirn == "Local" || inportDirn == "East")
        (.assertion "inport_dirn == \"Local\" || inport_dirn == \"East\"")
      return outportsDirn2idx ports "West"
  else if yHops > 0 then
    if destY ≥ myY then
      require (inportDirn != "North") (.assertion "inport_dirn != \"North\"")
      return outportsDirn2idx ports "North"
    else
      require (inportDirn != "South") (.assertion "inport_dirn != \"South\"")
      return outportsDirn2idx ports "South"
  else .error (.panic "x_hops == y_hops == 0")

inductive RoutingAlgorithm where
  | TABLE | XY | CUSTOM
deriving DecidableEq

/-- The part of `RouteInfo` that routing reads, with the order of its virtual network. -/
structure RouteInfo where
  isVNetOrdered : Bool
  netDest : NetDest
  destRouter : ℕ

/-- `RoutingUnit::outportCompute`, at router `myId`. -/
def outportCompute (alg : RoutingAlgorithm) (numRows numCols : ℤ) (rand : ℕ)
    (ports : List OutPort) (myId : ℕ) (route : RouteInfo) (inportDirn : PortDirection) :
    Result ℕ :=
  if route.destRouter = myId then
    lookupRoutingTable route.isVNetOrdered rand ports route.netDest
  else
    match alg with
    | .TABLE => lookupRoutingTable route.isVNetOrdered rand ports route.netDest
    | .XY => outportComputeXY numRows numCols ports myId route.destRouter inportDirn
    | .CUSTOM => .error (.panic "%s placeholder executed")

/-! ### One port -/

section Split

variable {dest : NetDest} {p : OutPort} {l₁ l₂ : List OutPort}

lemma findIdxs_split {f : OutPort → Bool} (hp : f p)
    (h1 : ∀ q ∈ l₁, f q = false) (h2 : ∀ q ∈ l₂, f q = false) :
    (l₁ ++ p :: l₂).findIdxs f = [l₁.length] := by
  rw [findIdxs_append, findIdxs_eq_nil_iff.2 h1, findIdxs_cons, if_pos hp, findIdxs_eq_nil_iff.2 h2]
  simp

lemma le_foldl_minWeightStep {m w : ℤ} {l : List OutPort} (hm : w ≤ m)
    (h : ∀ q ∈ l, q.leadsTo dest → w ≤ q.linkWeight) :
    w ≤ l.foldl (minWeightStep dest) m := by
  induction l generalizing m with
  | nil => exact hm
  | cons q l ih =>
    refine ih ?_ fun q' hq' => h q' (mem_cons_of_mem _ hq')
    have hq := h q mem_cons_self
    rw [minWeightStep]
    split_ifs with hto hle
    · exact hq hto
    · exact hm
    · exact hm

lemma foldl_minWeightStep_le {m : ℤ} {l : List OutPort} : l.foldl (minWeightStep dest) m ≤ m := by
  induction l generalizing m with
  | nil => exact le_rfl
  | cons q l ih =>
    refine ih.trans ?_
    rw [minWeightStep]
    split_ifs with hto hle
    · exact hle
    · exact le_rfl
    · exact le_rfl

section

variable (hp : p.leadsTo dest) (hle : p.linkWeight ≤ infinite)
  (h : ∀ q ∈ l₁ ++ l₂, q.leadsTo dest → p.linkWeight < q.linkWeight)
include hp hle h

lemma minWeight_eq : minWeight (l₁ ++ p :: l₂) dest = p.linkWeight := by
  have hbefore : p.linkWeight ≤ l₁.foldl (minWeightStep dest) infinite :=
    le_foldl_minWeightStep hle fun q hq hto => (h q (by simp [hq]) hto).le
  have hstep : minWeightStep dest (l₁.foldl (minWeightStep dest) infinite) p = p.linkWeight := by
    rw [minWeightStep, if_pos hp, if_pos hbefore]
  rw [minWeight, foldl_append, foldl_cons, hstep]
  exact le_antisymm foldl_minWeightStep_le
    (le_foldl_minWeightStep le_rfl fun q hq hto => (h q (by simp [hq]) hto).le)

lemma lookupRoutingTable_eq (isVNetOrdered : Bool) (rand : ℕ) :
    lookupRoutingTable isVNetOrdered rand (l₁ ++ p :: l₂) dest = .ok l₁.length := by
  have hcandidates : outputLinkCandidates (l₁ ++ p :: l₂) dest = [l₁.length] := by
    have hnot : ∀ q ∈ l₁ ++ l₂, (q.leadsTo dest && q.linkWeight == p.linkWeight) = false := by
      intro q hq
      by_cases hto : q.leadsTo dest
      · simp [(h q hq hto).ne']
      · simp [hto]
    rw [outputLinkCandidates, minWeight_eq hp hle h]
    exact findIdxs_split (by simp [hp]) (fun q hq => hnot q (by simp [hq]))
      fun q hq => hnot q (by simp [hq])
  rw [lookupRoutingTable, hcandidates]
  cases isVNetOrdered <;> simp [getOrError, Nat.mod_one]

end

lemma outportsDirn2idx_eq (h : ∀ q ∈ l₁ ++ l₂, q.direction ≠ p.direction) :
    outportsDirn2idx (l₁ ++ p :: l₂) p.direction = l₁.length := by
  rw [outportsDirn2idx, findIdxs_split (by simp) (fun q hq => by simpa using h q (by simp [hq]))
    fun q hq => by simpa using h q (by simp [hq])]
  rfl

end Split

end ChipletGem5.Garnet
