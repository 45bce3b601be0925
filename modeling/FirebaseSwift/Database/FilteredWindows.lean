import FirebaseSwift.Database.IndexPosts
import FirebaseSwift.Database.NetChanges
import FirebaseSwift.Library.Windows
import Mathlib.Data.List.Nodup

/-! Filters over a whole node. The children between the posts are one piece of the order of the index, and a limit
leaves a window of them. The window of a node follows from the children but one and that child. -/

namespace FirebaseSwift.Database

open Std Windows

variable {K V : Type} [DatabaseKey K]

/-! ### Children by name -/

namespace FNode

variable {node : FNode K V} {entry : FNamedNode K V} {key : K}

/-- The child of a key, which is none if it is empty -/
def named (child : FNode K V) (key : K) : List (FNamedNode K V) := if child.isEmpty then [] else [⟨key, child⟩]

end FNode

/-! ### Posts in order -/

instance : TransCmp (PostName.compareKey (K := K)) where
  eq_swap {name name'} := by
    cases name <;> cases name' <;> first | rfl | exact @OrientedCmp.eq_swap _ compareKeys _ _ _
  isLE_trans {name name' name''} h h' := by
    cases name <;> cases name' <;> cases name'' <;>
      first
        | rfl
        | exact absurd h Bool.false_ne_true
        | exact absurd h' Bool.false_ne_true
        | exact @TransCmp.isLE_trans _ compareKeys _ _ _ _ h h'

variable [DatabaseValue V]

section Orders

variable [TransCmp (DatabaseValue.compareLeafNodeValue (V := V))]

instance : TransCmp (PostValue.compareNode (K := K) (V := V)) where
  eq_swap {value value'} := by
    cases value <;> cases value' <;> first | rfl | exact @OrientedCmp.eq_swap _ FNode.compare _ _ _
  isLE_trans {value value' value''} h h' := by
    cases value <;> cases value' <;> cases value'' <;>
      first
        | rfl
        | exact absurd h Bool.false_ne_true
        | exact absurd h' Bool.false_ne_true
        | exact @TransCmp.isLE_trans _ FNode.compare _ _ _ _ h h'

instance (index : FIndex K) : TransCmp (index.compareNamedNode (V := V)) := by
  have hname : TransCmp fun lhs rhs : FPost K V => lhs.name.compareKey rhs.name :=
    transCmp_comap PostName.compareKey FPost.name
  have hthen : ∀ o o' : Ordering, (if o = .eq then o' else o) = o.then o' := by decide
  by_cases hkey : index = .key
  · have hcompare : index.compareNamedNode = fun lhs rhs : FPost K V => lhs.name.compareKey rhs.name := by
      funext lhs rhs
      rw [FIndex.compareNamedNode, if_pos hkey]
      exact if_pos rfl
    rw [hcompare]
    exact hname
  · have hvalue : TransCmp fun lhs rhs : FPost K V => lhs.value.compareNode rhs.value :=
      transCmp_comap PostValue.compareNode FPost.value
    have hcompare : index.compareNamedNode = compareLex (fun lhs rhs : FPost K V => lhs.value.compareNode rhs.value)
        fun lhs rhs => lhs.name.compareKey rhs.name := by
      funext lhs rhs
      rw [FIndex.compareNamedNode, if_neg hkey]
      exact hthen _ _
    rw [hcompare]
    infer_instance

end Orders

namespace FIndex

variable {index : FIndex K} {reverse : Bool} {a b : FNamedNode K V}

/-- In the direction of a view a child comes before another. -/
def Precedes (index : FIndex K) (reverse : Bool) (a b : FNamedNode K V) : Prop :=
  index.compareReversed a b reverse = .lt

instance : DecidableRel (index.Precedes (V := V) reverse) := fun a b =>
  inferInstanceAs (Decidable (index.compareReversed a b reverse = .lt))

variable [TransCmp (DatabaseValue.compareLeafNodeValue (V := V))]

instance : IsStrictOrder (FNamedNode K V) (index.Precedes reverse) where
  irrefl a h := by
    have hself : index.compare a a = .eq := @ReflCmp.compare_self _ index.compare _ a
    unfold Precedes compareReversed at h
    rw [hself, ite_self] at h
    cases h
  trans a b c h h' := by
    unfold Precedes compareReversed at *
    cases reverse with
    | false => exact @TransCmp.lt_trans _ index.compare _ _ _ _ h h'
    | true => exact @TransCmp.lt_trans _ index.compare _ _ _ _ h' h

end FIndex

namespace FRangedFilter

variable [TransCmp (DatabaseValue.compareLeafNodeValue (V := V))] (self : FRangedFilter K V)
variable {a b c : FNamedNode K V} {reverse : Bool}

end FRangedFilter

/-! ### Children in the direction of a view -/

namespace FNode

variable {node node' : FNode K V} {index : FIndex K} {reverse : Bool} {entry : FNamedNode K V} {key : K}

variable [TransCmp (DatabaseValue.compareLeafNodeValue (V := V))]

end FNode

/-! ### Filters over the whole node -/

namespace FLimitedFilter

variable [TransCmp (DatabaseValue.compareLeafNodeValue (V := V))] (self : FLimitedFilter K V)

abbrev Precedes : FNamedNode K V → FNamedNode K V → Prop := self.index.Precedes self.reverse

/-- A child is in the range. -/
def inRange (child : FNamedNode K V) : Bool := self.rangedFilter.matchesKey child.name child.node

section Others

variable {node others : FNode K V} {key : K} {entry : FNamedNode K V}

end Others

namespace HasWindow

variable {self} {snap : FIndexedNode K V} {node : FNode K V}

end HasWindow

end FLimitedFilter

end FirebaseSwift.Database
