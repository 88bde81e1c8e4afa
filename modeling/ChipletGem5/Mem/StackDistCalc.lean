import ChipletGem5.Base.AddrRange
import ChipletGem5.Base.IntMath
import ChipletGem5.Lib.Dyadic
import ChipletGem5.Lib.Result

/-!
# The stack distance calculator

`StackDistCalc` (mem/stack_dist_calc.cc) finds the number of other addresses used since the last use
of an address, in a binary tree.  Each use adds a leaf at the right end, and takes away the leaf of
the last use.  An inner node has the number of leaves on its two sides, so the distance is the sum
of what lies to the right of the path from the leaf to the root.  Inner nodes whose leaves have all
been taken away are deleted.

A node is found by its layer and its index there.  Sums and indices are natural numbers; in the
source they have 64 bits, and only the shift `1 << i`, which is done in 32 bits, can go wrong before
that.
-/

namespace ChipletGem5.StackDist

open Function

/-! ### The tree -/

structure Node where
  sumLeft : ℕ := 0
  sumRight : ℕ := 0
  discardLeft : Bool := false
  discardRight : Bool := false
  nodeIndex : ℕ := 0
  /-- The index of the parent in the layer above. -/
  parent : Option ℕ := none
  isLeftNode : Bool := true
  isMarked : Bool := false
deriving DecidableEq

/-- The nodes, by layers and indices in them. -/
abbrev Tree := ℕ → ℕ → Option Node

/-- Put a node into the tree or, with `none`, take one away. -/
def Tree.set (t : Tree) (level i : ℕ) (n : Option Node) : Tree :=
  update t level (update (t level) i n)

@[simp] lemma Tree.set_self (t : Tree) (level i : ℕ) (n : Option Node) :
    t.set level i n level i = n := by
  simp [Tree.set]

lemma Tree.set_of_level_ne (t : Tree) {level i : ℕ} (n : Option Node) {l : ℕ} (h : l ≠ level) :
    t.set level i n l = t l :=
  update_of_ne h _ _

lemma Tree.set_of_ne (t : Tree) {level i : ℕ} (n : Option Node) {l j : ℕ}
    (h : ¬ (l = level ∧ j = i)) : t.set level i n l j = t l j := by
  by_cases hl : l = level
  · subst hl
    simp only [Tree.set, update_self]
    exact update_of_ne (fun hj => h ⟨rfl, hj⟩) _ _
  · rw [t.set_of_level_ne n hl]

lemma Tree.set_set (t : Tree) (level i : ℕ) (n n' : Option Node) :
    (t.set level i n).set level i n' = t.set level i n' := by
  simp only [Tree.set, update_self, update_idem]

/-- `Infinity`, the distance of an address that has not been used. -/
def Infinity : ℕ := 2 ^ 64 - 1

/-- What a node becomes when `updateSum` gets to it from one side with a new sum. -/
def Node.receive (n : Node) (fromLeft : Bool) (sumFromBelow : ℕ) (discardNode : Bool) : Node :=
  { n with
    sumLeft := if fromLeft then sumFromBelow else n.sumLeft
    sumRight := if fromLeft then n.sumRight else sumFromBelow
    discardLeft := n.discardLeft || (discardNode && sumFromBelow == 0 && fromLeft)
    discardRight := n.discardRight || (discardNode && sumFromBelow == 0 && !fromLeft) }

/-- Is the node deleted? -/
def Node.exhausted (n : Node) (sumFromBelow : ℕ) (discardNode : Bool) : Bool :=
  n.discardLeft && n.discardRight && discardNode && n.parent.isSome && sumFromBelow == 0

/-- `updateSum`, for the node `node` of the layer above `level`; at most `fuel` calls deep. -/
def updateSum : ℕ → Tree → ℕ → Bool → ℕ → ℕ → ℕ → Bool → Result (ℕ × Tree)
  | 0, _, _, _, _, _, _, _ => .error (.undefined "updateSum")
  | fuel + 1, t, node, fromLeft, sumFromBelow, level, stackDist, discardNode => do
      let n ← getOrError (t (level + 1) node) (.undefined "node->sumLeft")
      let n' := n.receive fromLeft sumFromBelow discardNode
      let stackDist := if fromLeft then stackDist + n.sumRight else stackDist
      let discard := n'.exhausted sumFromBelow discardNode
      let t := if discard then t.set (level + 1) n.nodeIndex none
        else t.set (level + 1) node (some n')
      match n.parent with
      | none => return (stackDist, t)
      | some parent =>
          updateSum fuel t parent n.isLeftNode (n'.sumLeft + n'.sumRight) (level + 1) stackDist
            discard

def getSum : ℕ → Tree → ℕ → Bool → ℕ → ℕ → Result ℕ
  | 0, _, _, _, _, _ => .error (.undefined "getSum")
  | fuel + 1, t, node, fromLeft, stackDist, level => do
      let n ← getOrError (t (level + 1) node) (.undefined "node->sumRight")
      let stackDist := if fromLeft then stackDist + n.sumRight else stackDist
      match n.parent with
      | none => return stackDist
      | some parent => getSum fuel t parent n.isLeftNode stackDist (level + 1)

/-! ### The calculator -/

/-- `StackDistCalc`, without verification.  The tree has layers from 0, with the leaves, up to
`depth`, with the root; `nextIndex` has the number of nodes made in each layer. -/
structure StackDistCalc where
  index : ℕ
  tree : Tree
  depth : ℕ
  nextIndex : ℕ → ℕ
  aiMap : Addr → Option ℕ

namespace StackDistCalc

variable (c : StackDistCalc)

def new : StackDistCalc where
  index := 0
  tree := Tree.set (fun _ _ => none) 1 0 (some {})
  depth := 1
  nextIndex := fun i => if i = 1 then 1 else 0
  aiMap := fun _ => none

/-- `updateSumsLeavesToRoot`, for the leaf with an index. -/
def updateSumsLeavesToRoot (r : ℕ) (isNewLeaf : Bool) : Result (ℕ × StackDistCalc) := do
  let leaf ← getOrError (c.tree 0 r) (.undefined "node->sumLeft")
  let parent ← getOrError leaf.parent (.undefined "node->parent")
  if isNewLeaf then
    let t := c.tree.set 0 r (some { leaf with sumLeft := 1 })
    let (_, t) ← updateSum c.depth t parent leaf.isLeftNode 1 0 0 false
    return (Infinity, { c with tree := t })
  else
    let t := c.tree.set 0 r (some { leaf with sumLeft := 0 })
    let (stackDist, t) ← updateSum c.depth t parent leaf.isLeftNode 0 0 0 true
    return (stackDist, { c with tree := t })

def getSumsLeavesToRoot (r : ℕ) : Result ℕ := do
  let leaf ← getOrError (c.tree 0 r) (.undefined "node->parent")
  let parent ← getOrError leaf.parent (.undefined "node->parent")
  getSum c.depth c.tree parent leaf.isLeftNode 0 0

/-- The pointer `tree[level][i]`. -/
def pointer (level i : ℕ) : Option ℕ := (c.tree level i).map fun _ => i

/-- Add an inner node to a layer, below the last node of the layer above. -/
def newINode (i : ℕ) : StackDistCalc :=
  { c with
    tree := c.tree.set i (c.nextIndex i) (some
      { isLeftNode := c.nextIndex i % 2 == 0
        parent := c.pointer (i + 1) (c.nextIndex (i + 1) - 1)
        nodeIndex := c.nextIndex i })
    nextIndex := update c.nextIndex i (c.nextIndex i + 1) }

/-- The loop of `updateTree` after the root has moved. -/
def chainNodes : ℕ → StackDistCalc → StackDistCalc
  | 0, c => c
  | i + 1, c => chainNodes i (c.newINode (i + 1))

/-- The loop of `updateTree` where the root stays. -/
def fillNodes : ℕ → StackDistCalc → Result StackDistCalc
  | 0, c => .ok c
  | i + 1, c => do
      -- the constant 1 is an `int`
      require (i + 1 < 31) (.undefined "1 << i")
      fillNodes i (if c.index % 2 ^ (i + 1) = 0 then c.newINode (i + 1) else c)

/-- A new root above the root. -/
def raiseRoot : Result StackDistCalc := do
  let root ← getOrError (c.tree c.depth 0) (.undefined "tree[getTreeDepth()][0]->sumRight")
  let newRoot : Node :=
    { sumLeft := root.sumRight + root.sumLeft
      discardLeft := root.discardLeft && root.discardRight }
  return { c with
    tree := (c.tree.set (c.depth + 1) 0 (some newRoot)).set c.depth 0
      (some { root with parent := some 0 })
    depth := c.depth + 1
    nextIndex := update c.nextIndex (c.depth + 1) 1 }

def updateTree : Result StackDistCalc :=
  if isPowerOf2 c.index then do
    let c ← c.raiseRoot
    return chainNodes (c.depth - 1) c
  else fillNodes (c.depth - 1) c

/-- Take the leaf of an address away, if there is one. -/
def takeLeaf (a : Addr) : Result ((ℕ × Bool) × StackDistCalc) :=
  match c.aiMap a with
  | some r => do
      let (stackDist, c) ← c.updateSumsLeavesToRoot r false
      let leaf ← getOrError (c.tree 0 r) (.undefined "newLeafNode->isMarked")
      return ((stackDist, leaf.isMarked), { c with tree := c.tree.set 0 r none })
  | none => .ok ((Infinity, false), c)

/-- The nodes for a new leaf: a right leaf has its parent already. -/
def makeRoom : Result StackDistCalc :=
  if c.index % 2 = 0 then c.updateTree else .ok c

def addLeaf : Result StackDistCalc := do
  let c ← c.makeRoom
  let leaf : Node :=
    { nodeIndex := c.index, isLeftNode := c.index % 2 == 0
      parent := c.pointer 1 (c.nextIndex 1 - 1) }
  let c := { c with
    nextIndex := update c.nextIndex 0 (c.nextIndex 0 + 1)
    tree := c.tree.set 0 c.index (some leaf) }
  let (_, c) ← c.updateSumsLeavesToRoot c.index true
  return { c with index := c.index + 1 }

/-- `calcStackDistAndUpdate`: the distance and the mark of an address. -/
def calcStackDistAndUpdate (a : Addr) (addNewNode : Bool) :
    Result ((ℕ × Bool) × StackDistCalc) := do
  let (result, c') ← c.takeLeaf a
  let c' := { c' with
    aiMap := update c.aiMap a (if addNewNode then some c.index else none) }
  if addNewNode then
    let c' ← c'.addLeaf
    return (result, c')
  else return (result, c')

def calcStackDist (a : Addr) (mark : Bool) : Result ((ℕ × Bool) × StackDistCalc) :=
  match c.aiMap a with
  | some r => do
      let leaf ← getOrError (c.tree 0 r) (.undefined "tree[0][r_index]->isMarked")
      let c := { c with tree := c.tree.set 0 r (some { leaf with isMarked := mark }) }
      let stackDist ← c.getSumsLeavesToRoot r
      return ((stackDist, leaf.isMarked), c)
  | none => .ok ((Infinity, false), c)

end StackDistCalc

end ChipletGem5.StackDist
