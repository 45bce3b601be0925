import FirebaseSwift.Database.NodeEquality
import FirebaseSwift.Database.SnapshotUtilities
import FirebaseSwift.Database.SyncTree

/-! Deferred values, `FServerValues`. A deferred value of a leaf or of a priority is replaced by the time of the
server, or by a number added to the one that is at the same path. What is there comes from a provider that is
asked for each path: a node, or a sync tree. -/

namespace FirebaseSwift.Database

open SortedDictionary FSnapshotUtilities

/-- What is used of the arithmetic of doubles -/
class DoubleArithmetic (D : Type) extends DoubleType D where
  ofInt64 : Int64 → D
  add : D → D → D

variable {K D : Type} [StringKey K]

/-- The arithmetic of doubles as rational numbers. What is too large for a double is not left out. -/
@[reducible] def rationalArithmetic : DoubleArithmetic ℚ where
  toDoubleType := rationalDoubleType
  ofInt64 value := Doubles.round value.toInt
  add x y := Doubles.round (x + y)

/-! ### Server values -/

structure ServerValues where
  timestamp : Int64

/-- The sum without what is above 64 bits, and whether there is something above. -/
def addingReportingOverflow (x y : Int64) : Int64 × Bool :=
  (x + y, decide (x.toInt + y.toInt < -2 ^ 63 ∨ 2 ^ 63 ≤ x.toInt + y.toInt))

section Values

variable [DoubleArithmetic D]

def LeafNumber.doubleValue : LeafNumber D → D
  | .int64 value => DoubleArithmetic.ofInt64 value
  | .double value => value

/-- Where there is no number, the increment itself is set. -/
def ServerValues.resolveIncrement (delta : LeafNumber D) (existing : Option (FNode K (LeafValue D))) :
    LeafValue D :=
  match existing.bind FNode.leafValue with
  | some (.number existingValue) =>
      match delta, existingValue with
      | .int64 x, .int64 y =>
          if !(addingReportingOverflow x y).2 then .number (.int64 (addingReportingOverflow x y).1)
          else .number (.double (DoubleArithmetic.add delta.doubleValue existingValue.doubleValue))
      | _, _ => .number (.double (DoubleArithmetic.add delta.doubleValue existingValue.doubleValue))
  | _ => .number delta

def ServerValues.resolve (serverValues : ServerValues) (existing : Option (FNode K (LeafValue D))) :
    ServerValueOp D → LeafValue D
  | .timestamp => .number (.int64 serverValues.timestamp)
  | .increment delta => resolveIncrement delta existing

def resolveDeferredValue (serverValues : ServerValues) (existing : Option (FNode K (LeafValue D))) :
    LeafValue D → LeafValue D
  | .deferredValue op => serverValues.resolve existing op
  | val => val

end Values

/-! ### Providers -/

/-- What exists at the paths below where the provider is. -/
def ValueProvider (K D : Type) [StringKey K] := FPath K → Option (FNode K (LeafValue D))

namespace ValueProvider

def value (existing : ValueProvider K D) : Option (FNode K (LeafValue D)) := existing []

def getChild (existing : ValueProvider K D) (pathSegment : K) : ValueProvider K D := fun path =>
  existing (pathSegment :: path)

/-- The provider at a path below -/
def below (existing : ValueProvider K D) (subPath : FPath K) : ValueProvider K D := fun path =>
  existing (subPath ++ path)

end ValueProvider

def existingValueProvider (snapshot : Option (FNode K (LeafValue D))) : ValueProvider K D := fun path =>
  path.foldl (fun snapshot pathSegment => snapshot.map fun node => node.getImmediateChild pathSegment) snapshot

def deferredValueProvider [DatabaseValue (LeafValue D)] (tree : FSyncTree K (LeafValue D)) (path : FPath K) :
    ValueProvider K D := fun below => tree.calcCompleteEventCacheAtPath (path ++ below) []

/-! ### Nodes -/

namespace NodeData

variable {children : List (K × NodeData K (LeafValue D))}

theorem wellFormedChildren_of_node {priority : NodeData K (LeafValue D)}
    (h : (NodeData.children children priority).wellFormed = true) : wellFormedChildren children = true :=
  wellFormedChildren_iff.mpr (wellFormed_children_iff.mp h).2.2.1

theorem wellFormed_first {childKey : K} {child : NodeData K (LeafValue D)}
    (h : wellFormedChildren ((childKey, child) :: children) = true) : child.wellFormed = true :=
  (wellFormedChildren_iff.mp h _ List.mem_cons_self).2.2

theorem wellFormedChildren_rest {first : K × NodeData K (LeafValue D)}
    (h : wellFormedChildren (first :: children) = true) : wellFormedChildren children = true :=
  wellFormedChildren_iff.mpr fun e he => wellFormedChildren_iff.mp h e (List.mem_cons_of_mem _ he)

end NodeData

variable [DoubleArithmetic D] [DecidableEq D] (serverValues : ServerValues)

/-- A priority that is a leaf is made anew. There is no result where the program stops. -/
def resolvePriority (priority : FNode K (LeafValue D)) (existing : ValueProvider K D) :
    Option (FNode K (LeafValue D)) :=
  match priority.leafValue with
  | some priorityLeaf =>
      nodeFrom 0 (resolveDeferredValue serverValues (existing.getChild DatabaseKey.priority).value
        priorityLeaf).foundationValue
  | none => some priority

mutual

/-- `resolveDeferredValueSnapshot(_:withValueProvider:serverValues:)` -/
def resolveDeferredValueNode : (node : NodeData K (LeafValue D)) → node.wellFormed = true → ValueProvider K D →
    Option (FNode K (LeafValue D))
  | .empty, _, _ => some .empty
  | .leaf leafValue oldPriority, h, existing => do
      let node : FNode K (LeafValue D) := ⟨.leaf leafValue oldPriority, h⟩
      let priority ← resolvePriority serverValues node.getPriority existing
      let resolvedValue := resolveDeferredValue serverValues existing.value leafValue
      if resolvedValue.Same leafValue ∧ priority.Same node.getPriority then some node
      else some (.leaf resolvedValue priority)
  | .children children oldPriority, h, existing => do
      let node : FNode K (LeafValue D) := ⟨.children children oldPriority, h⟩
      let priority ← resolvePriority serverValues node.getPriority existing
      resolveDeferredValueChildren children (NodeData.wellFormedChildren_of_node h) existing
        (if ¬priority.Same node.getPriority then node.updatePriority priority else node)

def resolveDeferredValueChildren : (children : List (K × NodeData K (LeafValue D))) →
    NodeData.wellFormedChildren children = true → ValueProvider K D → FNode K (LeafValue D) →
    Option (FNode K (LeafValue D))
  | [], _, _, newNode => some newNode
  | (childKey, child) :: rest, h, existing, newNode => do
      let childNode : FNode K (LeafValue D) := ⟨child, NodeData.wellFormed_first h⟩
      let newChildNode ← resolveDeferredValueNode child (NodeData.wellFormed_first h) (existing.getChild childKey)
      resolveDeferredValueChildren rest (NodeData.wellFormedChildren_rest h) existing
        (if ¬newChildNode.Same childNode then newNode.updateImmediateChild childKey newChildNode else newNode)

end

def resolveDeferredValueSnapshot (node : FNode K (LeafValue D)) (existing : ValueProvider K D) :
    Option (FNode K (LeafValue D)) :=
  resolveDeferredValueNode serverValues node.data node.wellFormed existing

/-- `resolveDeferredValueCompoundWrite`, with the provider at the path of the write -/
def resolveDeferredValueCompoundWrite (write : FCompoundWrite K (LeafValue D)) (existing : ValueProvider K D) :
    Option (FCompoundWrite K (LeafValue D)) :=
  write.enumerateWrites.foldlM (fun resolved (entry : FPath K × FNode K (LeafValue D)) => do
    let resolvedNode ← resolveDeferredValueSnapshot serverValues entry.2 (existing.below entry.1)
    some (if ¬resolvedNode.Same entry.2 then resolved.addWrite resolvedNode entry.1 else resolved)) write

end FirebaseSwift.Database
