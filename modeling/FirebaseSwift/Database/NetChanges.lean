import FirebaseSwift.Database.TrackedChanges

/-! The changes after any calls of a filter. They are the difference between the children at the start and those at the
end, with two exceptions. A child that was changed in between and is as it was has a change from itself to itself. And a
full window takes the child after its boundary without a check whether it has that child, if the one before was skipped. -/

namespace FirebaseSwift.Database

open SortedDictionary NetEdits Std

variable {K V : Type} [DatabaseKey K] [DatabaseValue V]

/-! ### Sources -/

namespace FCompleteChildSource

/-- What comes after a child is a child of a node. -/
def FindsChildren (source : FCompleteChildSource K V) : Prop :=
  ∀ index child isReverse, ∀ next ∈ source.childByIndex index child isReverse,
    next.name ≠ DatabaseKey.priority ∧ next.node.isEmpty = false

omit [DatabaseValue V] in
theorem findsChildren_noCompleteChildSource : (noCompleteChildSource : FCompleteChildSource K V).FindsChildren :=
  fun _ _ _ _ hnext => nomatch hnext

end FCompleteChildSource

theorem FWriteTree.mem_of_nextNodeAfterPost {post next : FNamedNode K V} {node : FNode K V} {reverse : Bool}
    {index : FIndex K} (h : nextNodeAfterPost post node reverse index = some next) :
    node.childAt next.name = some next.node := by
  unfold nextNodeAfterPost at h
  refine List.foldlRecOn (motive := fun found : Option (FNamedNode K V) =>
    ∀ next ∈ found, node.childAt next.name = some next.node) node.enumerateChildren _
    (fun next hnone => absurd hnone (Option.not_mem_none next)) (fun found hfound child hchild next hnext => ?_) next h
  dsimp only at hnext
  split_ifs at hnext
  · cases hnext
    exact FNode.mem_enumerateChildren_iff.mp hchild
  · exact hfound next hnext

theorem FWriteTreeRef.findsChildren_completeChildSource (writes : FWriteTreeRef K V) (viewCache : FViewCache K V)
    (completeServerCache : Option (FNode K V)) :
    (writes.completeChildSource viewCache completeServerCache).FindsChildren := by
  intro index child isReverse next hnext
  have hfound : ∃ node : FNode K V, node.childAt next.name = some next.node := by
    simp only [completeChildSource, calculateNextNodeAfterPost, FWriteTree.calculateNextNodeAfterPost] at hnext
    split at hnext
    · exact ⟨_, FWriteTree.mem_of_nextNodeAfterPost hnext⟩
    · exact ⟨_, FWriteTree.mem_of_nextNodeAfterPost hnext⟩
    · cases hnext
  obtain ⟨node, hchild⟩ := hfound
  obtain ⟨hkey, -, hfull⟩ := FNode.childAt_eq_some_iff.mp hchild
  exact ⟨hkey, hfull⟩

variable {snap : FIndexedNode K V} {childKey : K}

/-! ### Ranged filters -/

section Filters

variable [TransCmp (DatabaseValue.compareLeafNodeValue (V := V))]

namespace FIndexedNode

variable {child : FNamedNode K V}

end FIndexedNode

namespace FLimitedFilter

variable (self : FLimitedFilter K V)

variable {source : FCompleteChildSource K V}

end FLimitedFilter

/-! ### Calls of filters -/

/-- The filters that track changes of children -/
inductive ChildFilter (K V : Type) [DatabaseKey K] where
  | indexed
  | ranged (filter : FRangedFilter K V)
  | limited (filter : FLimitedFilter K V)

inductive FilterCall (K V : Type) [DatabaseKey K] where
  | updateChildIn (childKey : K) (newChildSnap : FNode K V) (affectedPath : FPath K) (source : FCompleteChildSource K V)
  | updateFullNode (newSnap : FIndexedNode K V)

namespace ChildFilter

/-- A call, with the changes that it tracks -/
def perform (filter : ChildFilter K V) (snap : FIndexedNode K V) :
    FilterCall K V → FIndexedNode K V × List (FChange K V)
  | .updateChildIn childKey newChildSnap affectedPath source =>
      match filter with
      | indexed => FIndexedFilter.updateChildIn snap childKey newChildSnap affectedPath source
      | ranged filter => filter.updateChildIn snap childKey newChildSnap affectedPath source
      | limited filter => filter.updateChildIn snap childKey newChildSnap affectedPath source
  | .updateFullNode newSnap =>
      match filter with
      | indexed => FIndexedFilter.updateFullNode snap newSnap
      | ranged filter => filter.updateFullNode snap newSnap
      | limited filter => filter.updateFullNode snap newSnap

/-- The calls one after the other, with all the changes that they track -/
def run (filter : ChildFilter K V) : FIndexedNode K V → List (FilterCall K V) → FIndexedNode K V × List (FChange K V)
  | snap, [] => (snap, [])
  | snap, call :: calls =>
      let result := filter.perform snap call
      let rest := filter.run result.1 calls
      (rest.1, result.2 ++ rest.2)

variable (filter : ChildFilter K V)

end ChildFilter

/-! ### The difference -/

end Filters

/-! ### A window of numbers -/

/-- What finds the children of a node. -/
def FCompleteChildSource.ofNode (node : FNode K V) : FCompleteChildSource K V :=
  ⟨fun key => some (node.getImmediateChild key),
    fun index child isReverse => FWriteTree.nextNodeAfterPost child node isReverse index⟩

namespace ChildFilter

def numbers (entries : List (String × Int)) : FNode String Int :=
  entries.foldl (fun node entry => node.updateImmediateChild entry.1 (.leaf entry.2 .empty)) .empty

/-- A number of all the numbers that there are -/
def update (childKey : String) (value : Int) (all : List (String × Int)) : FilterCall String Int :=
  .updateChildIn childKey (.leaf value .empty) [] (.ofNode (numbers all))

end ChildFilter

end FirebaseSwift.Database
