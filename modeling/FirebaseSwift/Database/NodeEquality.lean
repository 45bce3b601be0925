import FirebaseSwift.Database.PlainValues
import FirebaseSwift.Library.Doubles

/-! The equality of nodes. Numbers are compared by value, so an integer equals a double of the same value. -/

namespace FirebaseSwift.Database

variable {K D : Type} [DoubleType D]

/-- Numbers are compared by value, so 1 equals 1.0. -/
def LeafNumber.Same : LeafNumber D → LeafNumber D → Prop
  | .int64 value, .int64 value' => value = value'
  | .double value, .double value' => value = value'
  | .int64 value, .double value' => DoubleType.exactly value' = some value
  | .double value, .int64 value' => DoubleType.exactly value = some value'

def LeafValue.Same : LeafValue D → LeafValue D → Prop
  | .bool value, .bool value' => value = value'
  | .number value, .number value' => value.Same value'
  | .string value, .string value' => value = value'
  | .deferredValue .timestamp, .deferredValue .timestamp => True
  | .deferredValue (.increment delta), .deferredValue (.increment delta') => delta.Same delta'
  | _, _ => False

mutual

/-- `==` -/
def NodeData.Same : NodeData K (LeafValue D) → NodeData K (LeafValue D) → Prop
  | .empty, .empty => True
  | .leaf value priority, .leaf value' priority' => priority.Same priority' ∧ value.Same value'
  | .children dict priority, .children dict' priority' => priority.Same priority' ∧ SameChildren dict dict'
  | _, _ => False

def SameChildren :
    List (K × NodeData K (LeafValue D)) → List (K × NodeData K (LeafValue D)) → Prop
  | [], [] => True
  | (key, child) :: rest, (key', child') :: rest' => key = key' ∧ child.Same child' ∧ SameChildren rest rest'
  | _, _ => False

end

def FNode.Same [StringKey K] (node node' : FNode K (LeafValue D)) : Prop := node.data.Same node'.data

/-! ### Nodes equal themselves -/

theorem LeafNumber.Same.refl : ∀ number : LeafNumber D, number.Same number
  | .int64 _ => rfl
  | .double _ => rfl

theorem LeafValue.same_refl : ∀ value : LeafValue D, value.Same value
  | .bool _ => rfl
  | .number delta => LeafNumber.Same.refl delta
  | .string _ => rfl
  | .deferredValue .timestamp => trivial
  | .deferredValue (.increment delta) => LeafNumber.Same.refl delta

mutual

theorem NodeData.same_refl : ∀ node : NodeData K (LeafValue D), node.Same node
  | .empty => trivial
  | .leaf value priority => ⟨priority.same_refl, value.same_refl⟩
  | .children dict priority => ⟨priority.same_refl, sameChildren_refl dict⟩

theorem sameChildren_refl : ∀ dict : List (K × NodeData K (LeafValue D)), SameChildren dict dict
  | [] => trivial
  | (_, child) :: rest => ⟨rfl, child.same_refl, sameChildren_refl rest⟩

end

/-! ### Deciding equality -/

section Decidable

variable [DecidableEq D]

instance LeafNumber.decidableSame : ∀ number number' : LeafNumber D, Decidable (number.Same number')
  | .int64 value, .int64 value' => inferInstanceAs (Decidable (value = value'))
  | .double value, .double value' => inferInstanceAs (Decidable (value = value'))
  | .int64 value, .double value' => inferInstanceAs (Decidable (DoubleType.exactly value' = some value))
  | .double value, .int64 value' => inferInstanceAs (Decidable (DoubleType.exactly value = some value'))

instance LeafValue.decidableSame : ∀ value value' : LeafValue D, Decidable (value.Same value')
  | .bool value, .bool value' => inferInstanceAs (Decidable (value = value'))
  | .number value, .number value' => inferInstanceAs (Decidable (value.Same value'))
  | .string value, .string value' => inferInstanceAs (Decidable (value = value'))
  | .deferredValue .timestamp, .deferredValue .timestamp => isTrue trivial
  | .deferredValue (.increment delta), .deferredValue (.increment delta') =>
      inferInstanceAs (Decidable (delta.Same delta'))
  | .deferredValue .timestamp, .deferredValue (.increment _)
  | .deferredValue (.increment _), .deferredValue .timestamp => isFalse id
  | .bool _, .number _ | .bool _, .string _ | .bool _, .deferredValue _ => isFalse id
  | .number _, .bool _ | .number _, .string _ | .number _, .deferredValue _ => isFalse id
  | .string _, .bool _ | .string _, .number _ | .string _, .deferredValue _ => isFalse id
  | .deferredValue op, .bool _ | .deferredValue op, .number _ | .deferredValue op, .string _ =>
      isFalse (by cases op <;> exact id)

variable [DecidableEq K]

mutual

def NodeData.decidableSame : ∀ node node' : NodeData K (LeafValue D), Decidable (node.Same node')
  | .empty, .empty => isTrue trivial
  | .leaf value priority, .leaf value' priority' =>
      haveI := NodeData.decidableSame priority priority'
      inferInstanceAs (Decidable (priority.Same priority' ∧ value.Same value'))
  | .children dict priority, .children dict' priority' =>
      haveI := NodeData.decidableSame priority priority'
      haveI := decidableSameChildren dict dict'
      inferInstanceAs (Decidable (priority.Same priority' ∧ SameChildren dict dict'))
  | .empty, .leaf _ _ | .empty, .children _ _ | .leaf _ _, .empty => isFalse id
  | .leaf _ _, .children _ _ | .children _ _, .empty | .children _ _, .leaf _ _ => isFalse id

def decidableSameChildren :
    ∀ dict dict' : List (K × NodeData K (LeafValue D)), Decidable (SameChildren dict dict')
  | [], [] => isTrue trivial
  | (key, child) :: rest, (key', child') :: rest' =>
      haveI := NodeData.decidableSame child child'
      haveI := decidableSameChildren rest rest'
      inferInstanceAs (Decidable (key = key' ∧ child.Same child' ∧ SameChildren rest rest'))
  | [], _ :: _ | _ :: _, [] => isFalse id

end

instance [StringKey K] (node node' : FNode K (LeafValue D)) : Decidable (node.Same node') :=
  NodeData.decidableSame node.data node'.data

end Decidable

/-- Doubles as rational numbers -/
@[reducible] def rationalDoubleType : DoubleType ℚ where
  ofUInt64 value := Doubles.round value.toNat
  exactly value :=
    if Doubles.round value = value ∧ value.den = 1 ∧ -2 ^ 63 ≤ value.num ∧ value.num < 2 ^ 63 then
      some (Int64.ofInt value.num)
    else none

end FirebaseSwift.Database
