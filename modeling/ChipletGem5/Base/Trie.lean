import ChipletGem5.Lib.Result
import Mathlib.Logic.Function.Basic

/-!
# Tries

`Trie` of `base/trie.hh`, a binary tree that maps prefixes of keys to values.  A node has the bits
that are common to all keys below it, and the mask of these bits.  The nodes without a value are
where prefixes part.

Nodes are numbered in the order in which they are allocated, and the head has number 0.  Keys have
`w` bits, which is `MaxBits`.  Loops and recursive calls take their number of steps as an argument.
-/

namespace ChipletGem5

open Function

/-- A node; its neighbours are handles. -/
structure Trie.Node (w : ℕ) (α : Type) where
  key : BitVec w
  mask : BitVec w
  value : Option α
  parent : Option ℕ
  kids : Fin 2 → Option ℕ

/-- `Trie`, with the nodes that are allocated. -/
structure Trie (w : ℕ) (α : Type) where
  node : ℕ → Option (Trie.Node w α)
  /-- The number of the node that is allocated next. -/
  fresh : ℕ

namespace Trie

variable {w : ℕ} {α : Type}

namespace Node

def new (key mask : BitVec w) (val : Option α) : Node w α :=
  ⟨key &&& mask, mask, val, none, fun _ => none⟩

def matchesKey (n : Node w α) (test : BitVec w) : Bool := test &&& n.mask == n.key

end Node

def new : Trie w α := ⟨fun p => if p = 0 then some (.new 0 0 none) else none, 1⟩

/-! ### Pointers -/

variable (t : Trie w α)

/-- The node that a pointer points to. -/
def deref (p : ℕ) : Result (Node w α) :=
  getOrError (t.node p) (.undefined "*node")

def set (p : ℕ) (n : Node w α) : Trie w α := { t with node := update t.node p (some n) }

def setParent (p parent : ℕ) : Result (Trie w α) := do
  let n ← t.deref p
  return t.set p { n with parent := some parent }

def setKid (p : ℕ) (i : Fin 2) (kid : Option ℕ) : Result (Trie w α) := do
  let n ← t.deref p
  return t.set p { n with kids := update n.kids i kid }

/-- `new Node`, where the new node gets the number `fresh`. -/
def alloc (n : Node w α) : Trie w α :=
  ⟨update t.node t.fresh (some n), t.fresh + 1⟩

/-- `delete node`. -/
def free (p : ℕ) : Trie w α := { t with node := update t.node p none }

/-! ### Looking up keys -/

/-- Whether a kid is there and matches a key. -/
def kidMatches (kid : Option ℕ) (key : BitVec w) : Result Bool :=
  match kid with
  | none => return false
  | some k => do
      let m ← t.deref k
      return m.matchesKey key

/-- The loop of `Trie::lookupHandle` from a node on. -/
def lookupFrom (t : Trie w α) (key : BitVec w) : ℕ → Option ℕ → Result (Option ℕ)
  | _, none => return none
  | 0, some _ => throw .outOfFuel
  | fuel + 1, some node => do
      let n ← t.deref node
      if n.value.isSome then return some node
      else if ← t.kidMatches (n.kids 0) key then t.lookupFrom key fuel (n.kids 0)
      else if ← t.kidMatches (n.kids 1) key then t.lookupFrom key fuel (n.kids 1)
      else t.lookupFrom key fuel none

def lookupHandle (fuel : ℕ) (key : BitVec w) : Result (Option ℕ) :=
  t.lookupFrom key fuel (some 0)

def lookup (fuel : ℕ) (key : BitVec w) : Result (Option α) := do
  match ← t.lookupHandle fuel key with
  | some node => do
      let n ← t.deref node
      return n.value
  | none => return none

/-! ### Insertion -/

/-- `Trie::goesAfter`, with the node that is advanced to. -/
def goesAfter (kid : Option ℕ) (key newMask : BitVec w) : Result (Option ℕ) :=
  match kid with
  | none => return none
  | some k => do
      let m ← t.deref k
      return if m.matchesKey key && m.mask &&& newMask == m.mask then some k else none

/-- The loop that walks past the nodes that the new node is inserted after. -/
def walkPast (t : Trie w α) (key newMask : BitVec w) : ℕ → ℕ → Result ℕ
  | 0, _ => throw .outOfFuel
  | fuel + 1, node => do
      let n ← t.deref node
      match ← t.goesAfter (n.kids 0) key newMask with
      | some k => t.walkPast key newMask fuel k
      | none =>
          match ← t.goesAfter (n.kids 1) key newMask with
          | some k => t.walkPast key newMask fuel k
          | none => return node

def extendMask (orig : BitVec w) : BitVec w :=
  let msb := BitVec.ofNat w (1 <<< (w - 1))
  orig ||| orig >>> 1 ||| msb

/-- The loop that walks down the leg to a kid, until something does not match or there are no bits
left. -/
def walkDown (key kidKey newMask : BitVec w) : ℕ → BitVec w → Result (BitVec w)
  | 0, _ => throw .outOfFuel
  | fuel + 1, curMask =>
      let lastMask := curMask
      let curMask := extendMask curMask
      if key &&& curMask ≠ kidKey &&& curMask ∨ lastMask = newMask then return lastMask
      else walkDown key kidKey newMask fuel curMask

/-- Add a new node with the value as a kid. -/
def addLeaf (node : ℕ) (i : Fin 2) (key newMask : BitVec w) (val : Option α) :
    Result (Trie w α × ℕ) := do
  let newNode := t.fresh
  let t := t.alloc { Node.new key newMask val with parent := some node }
  let t ← t.setKid node i (some newNode)
  return (t, newNode)

/-- Add a new node at the point on the leg to a kid that was walked to. -/
def splitLeg (node : ℕ) (i : Fin 2) (kid : ℕ) (key curMask : BitVec w) : Result (Trie w α × ℕ) := do
  let newNode := t.fresh
  let t := t.alloc { Node.new key curMask none with parent := some node }
  let t ← t.setParent kid newNode
  let t ← t.setKid newNode 0 (some kid)
  let t ← t.setKid node i (some newNode)
  return (t, newNode)

/-- The loop over the kids of the node that the new node is inserted after. -/
def insertBelow (t : Trie w α) (fuel node : ℕ) (key newMask : BitVec w) (val : Option α) :
    List (Fin 2) → BitVec w → Result (Trie w α × ℕ)
  | [], _ => throw (.panic "Reached the end of the Trie insert function!\n")
  | i :: is, curMask => do
      let n ← t.deref node
      match n.kids i with
      | none => t.addLeaf node i key newMask val
      | some kid => do
          let m ← t.deref kid
          let curMask ← walkDown key m.key newMask fuel curMask
          if curMask = n.mask then t.insertBelow fuel node key newMask val is curMask
          else do
            let r ← t.splitLeg node i kid key curMask
            if curMask = newMask then do
              let m ← r.1.deref r.2
              return (r.1.set r.2 { m with value := val }, r.2)
            else r.1.addLeaf r.2 1 key newMask val

def insert (fuel : ℕ) (key : BitVec w) (width : ℕ) (val : Option α) : Result (Trie w α × ℕ) := do
  require val.isSome (.assertion "val")
  let newMask := if width < w then BitVec.allOnes w <<< (w - width) else BitVec.allOnes w
  let key := key &&& newMask
  let node ← t.walkPast key newMask fuel 0
  let n ← t.deref node
  let curMask := n.mask
  if curMask = newMask then do
    require n.value.isNone (.assertion "!node->value")
    return (t.set node { n with value := val }, node)
  else t.insertBelow fuel node key newMask val [0, 1] curMask

/-! ### Removal -/

/-- Replace a node by its kid in the parent. -/
def replaceKid (parent node : ℕ) (kid : Option ℕ) : Result (Trie w α) := do
  let p ← t.deref parent
  if p.kids 0 = some node then t.setKid parent 0 kid
  else if p.kids 1 = some node then t.setKid parent 1 kid
  else throw (.panic "Trie: Inconsistent parent/kid relationship.\n")

/-- Make sure that if a node only has one kid, it is `kids[0]`. -/
def shiftKid (parent : ℕ) : Result (Trie w α) := do
  let p ← t.deref parent
  if p.kids 1 ≠ none ∧ p.kids 0 = none then do
    let t ← t.setKid parent 0 (p.kids 1)
    t.setKid parent 1 none
  else return t

/-- `Trie::remove` for a handle. -/
def remove (t : Trie w α) : ℕ → ℕ → Result (Trie w α × Option α)
  | 0, _ => throw .outOfFuel
  | fuel + 1, node => do
      let n ← t.deref node
      let val := n.value
      if n.kids 1 ≠ none then do
        require n.value.isSome (.assertion "node->value")
        return (t.set node { n with value := none }, val)
      else do
        let parent ← getOrError n.parent (.panic "Trie: Can't remove root node.\n")
        let t ← (match n.kids 0 with
          | some kid => t.setParent kid parent
          | none => pure t)
        let t ← t.replaceKid parent node (n.kids 0)
        let t ← t.shiftKid parent
        let p ← t.deref parent
        let t ← (if p.kids 1 = none ∧ p.value.isNone ∧ p.parent.isSome then do
            let r ← t.remove fuel parent
            pure r.1
          else pure t)
        return (t.free node, val)

/-- `Trie::remove` for a key. -/
def removeKey (fuel : ℕ) (key : BitVec w) : Result (Trie w α × Option α) := do
  match ← t.lookupHandle fuel key with
  | none => return (t, none)
  | some handle => t.remove fuel handle

/-- The node without a kid; the other one becomes the first. -/
def Node.dropKid (n : Node w α) (i : Fin 2) : Node w α :=
  { n with kids := fun j => if j = 0 then n.kids (1 - i) else none }

end Trie

end ChipletGem5
