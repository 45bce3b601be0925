import Mathlib.Logic.Basic
import Mathlib.Tactic.TypeStar

/-! JSON merge patches. A JSON value is described by what is found under its keys, where nothing is found the value
is `absent`. A patch that is absent changes nothing, `null` removes, and an object is merged key by key. -/

inductive Json (K P : Type) where
  | absent
  | null
  | plain (value : P)
  | object (entries : K → Json K P)

namespace Json

variable {K P : Type}

/-- What is under a key. Only objects have keys. -/
def get : Json K P → K → Json K P
  | .object entries, key => entries key
  | _, _ => .absent

/-- What is at a path of keys -/
def valueAt (json : Json K P) : List K → Json K P
  | [] => json
  | key :: path => (json.get key).valueAt path

def mergePatch : Json K P → Json K P → Json K P
  | target, .absent => target
  | _, .null => .absent
  | _, .plain value => .plain value
  | target, .object entries => .object fun key => mergePatch (target.get key) (entries key)

/-- Nothing in it is `null`. -/
def NullFree : Json K P → Prop
  | .null => False
  | .object entries => ∀ key, (entries key).NullFree
  | _ => True

variable (target : Json K P)

@[simp] theorem mergePatch_absent : target.mergePatch .absent = target := by
  cases target <;> rfl

theorem mergePatch_null : target.mergePatch .null = .absent := by
  cases target <;> rfl

theorem mergePatch_plain (value : P) : target.mergePatch (.plain value) = .plain value := by
  cases target <;> rfl

theorem mergePatch_object (entries : K → Json K P) :
    target.mergePatch (.object entries) = .object fun key => (target.get key).mergePatch (entries key) := by
  cases target <;> rfl

/-- Where nothing was, all that is sent stays. -/
theorem absent_mergePatch {json : Json K P} (h : json.NullFree) : absent.mergePatch json = json := by
  induction json with
  | absent => rfl
  | null => exact absurd h id
  | plain value => rfl
  | object entries ih =>
      rw [mergePatch_object]
      congr 1
      funext key
      exact ih key (h key)

/-- What is no object is replaced. -/
theorem mergePatch_of_get {target json : Json K P} (htarget : ∀ key, target.get key = .absent) (h : json.NullFree)
    (hne : json ≠ .absent) : target.mergePatch json = json := by
  cases json with
  | absent => exact absurd rfl hne
  | null => exact absurd h id
  | plain value => exact mergePatch_plain target value
  | object entries =>
      rw [mergePatch_object]
      congr 1
      funext key
      rw [htarget]
      exact absent_mergePatch (h key)

theorem absent_valueAt (path : List K) : (absent : Json K P).valueAt path = .absent := by
  induction path with
  | nil => rfl
  | cons key path ih => exact ih

end Json
