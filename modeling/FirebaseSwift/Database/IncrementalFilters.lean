import FirebaseSwift.Database.FilteredWindows

/-! Updates of one child in a filtered node. The filter updates what it had left of the node, and a full window asks the
source for the child beyond it. What is left is what the filter leaves of the updated node. -/

namespace FirebaseSwift.Database

open Std Windows

variable {K V : Type} [DatabaseKey K] [DatabaseValue V]

namespace FLimitedFilter

variable [TransCmp (DatabaseValue.compareLeafNodeValue (V := V))] (self : FLimitedFilter K V)

/-! ### Full windows -/

namespace IsFull

variable {self} {snap : FIndexedNode K V} {node others : FNode K V} {key : K}
variable {windowBoundary entry next : FNamedNode K V} {child oldChild : FNode K V}

variable {new : List (FNamedNode K V)}

end IsFull

end FLimitedFilter

/-! ### The next child -/

namespace FLimitedFilter

variable [TransCmp (DatabaseValue.compareLeafNodeValue (V := V))] {self : FLimitedFilter K V}
variable {snap : FIndexedNode K V} {node node' others : FNode K V} {key : K} {windowBoundary : FNamedNode K V}
variable {newChild : FNode K V} {source : FCompleteChildSource K V}

end FLimitedFilter

/-! ### Updates of one child -/

/-- A child that changes, changes at the affected path. -/
def AffectedAt (affectedPath : FPath K) (oldChild newChild : FNode K V) : Prop :=
  oldChild.getChild affectedPath = newChild.getChild affectedPath → oldChild.isEmpty = newChild.isEmpty →
    oldChild = newChild

section OneChild

variable {affectedPath : FPath K} {key : K} {snap : FIndexedNode K V} {node node' : FNode K V}
variable {oldChild newChild : FNode K V} {source : FCompleteChildSource K V}

omit [DatabaseValue V] in
/-- A filter leaves a child as it is, or nothing. -/
theorem AffectedAt.filtered {oldChild' newChild' : FNode K V} (h : AffectedAt affectedPath oldChild newChild)
    (hold : oldChild'.isEmpty = false → oldChild' = oldChild) (hnew : newChild'.isEmpty = false → newChild' = newChild) :
    AffectedAt affectedPath oldChild' newChild' := by
  intro hpath hempty
  cases hfull : newChild'.isEmpty with
  | true =>
      rw [hfull] at hempty
      exact (FNode.isEmpty_iff.mp hempty).trans (FNode.isEmpty_iff.mp hfull).symm
  | false =>
      rw [hfull] at hempty
      have hold := hold hempty
      have hnew := hnew hfull
      subst hold
      subst hnew
      exact h hpath (hempty.trans hfull.symm)

variable [TransCmp (DatabaseValue.compareLeafNodeValue (V := V))]

end OneChild

end FirebaseSwift.Database
