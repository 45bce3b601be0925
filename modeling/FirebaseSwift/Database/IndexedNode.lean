import FirebaseSwift.Database.Node

/-! Nodes together with an index. An index orders the children of a node: by their keys, by their
values, by their priorities, or by the values at a path below them. An indexed node keeps a node and
the index it is ordered by, and a sorted set of its children where the order of the index can differ
from the one of the keys. The set is built from the node when it is asked for and not there yet. -/

namespace FirebaseSwift.Database

variable {K V : Type}

/-! ### Equality of nodes -/

namespace NodeData

variable [DecidableEq K] [DecidableEq V]

mutual

def beq : NodeData K V → NodeData K V → Bool
  | .empty, .empty => true
  | .leaf value priority, .leaf value' priority' => decide (value = value') && beq priority priority'
  | .children dict priority, .children dict' priority' =>
      beqChildren dict dict' && beq priority priority'
  | _, _ => false

def beqChildren : List (K × NodeData K V) → List (K × NodeData K V) → Bool
  | [], [] => true
  | (key, child) :: rest, (key', child') :: rest' =>
      decide (key = key') && beq child child' && beqChildren rest rest'
  | _, _ => false

end

mutual

theorem beq_iff : ∀ node node' : NodeData K V, beq node node' = true ↔ node = node'
  | .empty, .empty | .empty, .leaf _ _ | .empty, .children _ _ => by simp [beq]
  | .leaf _ _, .empty | .leaf _ _, .children _ _ => by simp [beq]
  | .children _ _, .empty | .children _ _, .leaf _ _ => by simp [beq]
  | .leaf value priority, .leaf value' priority' => by simp [beq, beq_iff priority priority']
  | .children dict priority, .children dict' priority' => by
      simp [beq, beq_iff priority priority', beqChildren_iff dict dict']

theorem beqChildren_iff : ∀ dict dict' : List (K × NodeData K V), beqChildren dict dict' = true ↔ dict = dict'
  | [], [] | [], _ :: _ | _ :: _, [] => by simp [beqChildren]
  | (key, child) :: rest, (key', child') :: rest' => by
      simp [beqChildren, beq_iff child child', beqChildren_iff rest rest', and_assoc]

end

end NodeData

instance [DatabaseKey K] [DecidableEq V] : DecidableEq (FNode K V) := fun node node' =>
  decidable_of_iff (NodeData.beq node.data node'.data = true)
    ((NodeData.beq_iff _ _).trans FNode.ext_iff.symm)

/-! ### Order -/

/-- Values of leaves with `compareLeafNodeValue`. -/
class DatabaseValue (V : Type) where
  decidableEq : DecidableEq V
  compareLeafNodeValue : V → V → Ordering

attribute [reducible, instance] DatabaseValue.decidableEq

instance : DatabaseValue Int where
  decidableEq := inferInstance
  compareLeafNodeValue := compare

/-- `FUtilities.compareKey` -/
def compareKeys [DatabaseKey K] (key key' : K) : Ordering :=
  if DatabaseKey.compareKey key key' then .lt
  else if DatabaseKey.compareKey key' key then .gt
  else .eq

/-- All nodes with children are equal in this order. -/
def FNode.compare [DatabaseKey K] [DatabaseValue V] (node other : FNode K V) : Ordering :=
  match node.leafValue, other.leafValue with
  | some value, some value' => DatabaseValue.compareLeafNodeValue value value'
  | some _, none => if other.isEmpty then .gt else .lt
  | none, some _ => if node.isEmpty then .lt else .gt
  | none, none =>
      if node.isEmpty then (if other.isEmpty then .eq else .lt)
      else if other.isEmpty then .gt
      else .eq

structure FNamedNode (K V : Type) [DatabaseKey K] where
  name : K
  node : FNode K V

inductive FIndex (K : Type) where
  | key
  | priority
  | value
  | path (path : FPath K)
  deriving DecidableEq

variable [DatabaseKey K]

namespace FIndex

variable [DatabaseValue V]

def compare (index : FIndex K) (lhs rhs : FNamedNode K V) : Ordering :=
  let indexCmp :=
    match index with
    | .key => .eq
    | .value => lhs.node.compare rhs.node
    | .priority => lhs.node.getPriority.compare rhs.node.getPriority
    | .path childPath => (lhs.node.getChild childPath).compare (rhs.node.getChild childPath)
  if indexCmp = .eq then compareKeys lhs.name rhs.name else indexCmp

/-- `compare(lhs:rhs:reversed:)` -/
def compareReversed (index : FIndex K) (lhs rhs : FNamedNode K V) (reversed : Bool) : Ordering :=
  if reversed then index.compare rhs lhs else index.compare lhs rhs

def isDefined (index : FIndex K) (node : FNode K V) : Bool :=
  match index with
  | .key => true
  | .value => true
  | .priority => !node.getPriority.isEmpty
  | .path childPath => !(node.getChild childPath).isEmpty

/-- Insertion into a sorted set. A member with the same order stays. -/
def insert (index : FIndex K) (entry : FNamedNode K V) : List (FNamedNode K V) → List (FNamedNode K V)
  | [] => [entry]
  | member :: rest =>
      match index.compare entry member with
      | .lt => entry :: member :: rest
      | .eq => member :: rest
      | .gt => member :: insert index entry rest

/-- Removal from a sorted set. -/
def remove (index : FIndex K) (entry : FNamedNode K V) (set : List (FNamedNode K V)) :
    List (FNamedNode K V) :=
  set.filter fun member => index.compare entry member ≠ .eq

end FIndex

/-- The children in the order of the index, or `fallback` where it is the one of the keys. -/
inductive IndexWrapper (K V : Type) [DatabaseKey K] where
  | fallback
  | indexed (set : List (FNamedNode K V))

structure FIndexedNode (K V : Type) [DatabaseKey K] where
  node : FNode K V
  index : FIndex K
  initialIndexed : Option (IndexWrapper K V)

namespace FIndexedNode

/-- `FIndexedNode(node:index:)` -/
def ofNode (node : FNode K V) (index : FIndex K) : FIndexedNode K V := ⟨node, index, none⟩

/-- `FIndexedNode(node:)` -/
def ofNodeByPriority (node : FNode K V) : FIndexedNode K V := ofNode node .priority

@[simp] theorem node_ofNode (node : FNode K V) (index : FIndex K) : (ofNode node index).node = node :=
  rfl

variable [DatabaseValue V]

def indexed (self : FIndexedNode K V) : IndexWrapper K V :=
  match self.initialIndexed with
  | some initial => initial
  | none =>
      if self.index = .key then .fallback
      else if self.node.enumerateChildren.any fun child => self.index.isDefined child.2 then
        .indexed (self.node.enumerateChildren.foldl
          (fun set child => self.index.insert ⟨child.1, child.2⟩ set) [])
      else .fallback

def updateChild (self : FIndexedNode K V) (key : K) (newChildNode : FNode K V) : FIndexedNode K V :=
  let newNode := self.node.updateImmediateChild key newChildNode
  match self.indexed with
  | .fallback =>
      if !self.index.isDefined newChildNode then ⟨newNode, self.index, some .fallback⟩
      else ofNode newNode self.index
  | .indexed set =>
      let removed := self.index.remove ⟨key, self.node.getImmediateChild key⟩ set
      ⟨newNode, self.index, some (.indexed (if newChildNode.isEmpty then removed
        else self.index.insert ⟨key, newChildNode⟩ removed))⟩

def updatePriority (self : FIndexedNode K V) (priority : FNode K V) : FIndexedNode K V :=
  ⟨self.node.updatePriority priority, self.index, some self.indexed⟩

@[simp] theorem node_updateChild (self : FIndexedNode K V) (key : K) (newChildNode : FNode K V) :
    (self.updateChild key newChildNode).node = self.node.updateImmediateChild key newChildNode := by
  unfold updateChild
  cases self.indexed with
  | fallback => by_cases h : self.index.isDefined newChildNode <;> simp [h, ofNode]
  | indexed set => rfl

end FIndexedNode

end FirebaseSwift.Database
