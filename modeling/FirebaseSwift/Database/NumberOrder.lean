import FirebaseSwift.Database.NodeEquality
import FirebaseSwift.Library.FiniteDoubles
import Mathlib.Data.Prod.Lex

/-! The order of the values of leaves. Integers and doubles are one type, and are compared by their exact values,
although the integer is rounded to a double first. -/

namespace FirebaseSwift.Database

open UnicodeStrings
open Std (OrientedCmp TransCmp)

/-! ### Numbers -/

/-- `compare` in `compareNumbers` -/
def comparing {α : Type} [LT α] [DecidableLT α] (l r : α) : Ordering :=
  if l < r then .lt else if r < l then .gt else .eq

namespace LeafValue

def doubleValue : LeafValue FiniteDouble → Option FiniteDouble
  | .number (.int64 v) => some (FiniteDouble.ofInt64 v)
  | .number (.double v) => some v
  | _ => none

/-- What compares equal as a double is compared exactly. A double that is none of the integers is larger. -/
def compareWithDouble (i : Int64) (d : FiniteDouble) : Ordering :=
  match comparing (FiniteDouble.ofInt64 i) d with
  | .eq => (d.exactInt64.map (comparing i)).getD .lt
  | result => result

/-- Values that are no numbers count as 0. -/
def compareNumbers : LeafValue FiniteDouble → LeafValue FiniteDouble → Ordering
  | .number (.int64 l), .number (.int64 r) => comparing l r
  | .number (.int64 i), .number (.double d) => compareWithDouble i d
  | .number (.double d), .number (.int64 i) =>
      match compareWithDouble i d with
      | .lt => .gt
      | .gt => .lt
      | .eq => .eq
  | lhs, rhs => comparing (lhs.doubleValue.getD (FiniteDouble.ofInt64 0)) (rhs.doubleValue.getD (FiniteDouble.ofInt64 0))

end LeafValue

namespace LeafNumber

/-- `==`. Doubles are equal by value, so both zeros are, and 1 equals 1.0. -/
def equals : LeafNumber FiniteDouble → LeafNumber FiniteDouble → Bool
  | .int64 l, .int64 r => l == r
  | .double l, .double r => l.value == r.value
  | .int64 i, .double d => d.exactInt64 == some i
  | .double d, .int64 i => d.exactInt64 == some i

/-- The mathematical value -/
def exactValue : LeafNumber FiniteDouble → ℚ
  | .int64 i => i.toInt
  | .double d => d.value

/-- The number with a double for its value -/
def valued : LeafNumber FiniteDouble → LeafNumber ℚ
  | .int64 i => .int64 i
  | .double d => .double d.value

theorem equals_iff {l r : LeafNumber FiniteDouble} : l.equals r = true ↔ l.exactValue = r.exactValue := by
  cases l with
  | int64 l =>
      cases r with
      | int64 r => rw [equals, beq_iff_eq, exactValue, exactValue, Int.cast_inj, Int64.toInt_inj]
      | double d => rw [equals, beq_iff_eq, FiniteDouble.exactInt64_eq_some_iff, eq_comm]; rfl
  | double d =>
      cases r with
      | int64 r => rw [equals, beq_iff_eq, FiniteDouble.exactInt64_eq_some_iff]; rfl
      | double r => rw [equals, beq_iff_eq]; rfl

end LeafNumber

theorem comparing_eq {α β : Type} [LT α] [DecidableLT α] [LinearOrder β] {l r : α} {x y : β} (hlt : l < r ↔ x < y)
    (hgt : r < l ↔ y < x) : comparing l r = compare x y := by
  unfold comparing
  split_ifs with hl hr
  · exact (compare_lt_iff_lt.mpr (hlt.mp hl)).symm
  · exact (compare_gt_iff_gt.mpr (hgt.mp hr)).symm
  · exact (compare_eq_iff_eq.mpr (le_antisymm (not_lt.mp (mt hgt.mpr hr)) (not_lt.mp (mt hlt.mpr hl)))).symm

theorem comparing_instance {α : Type} [LT α] (decidable decidable' : DecidableLT α) (l r : α) :
    @comparing α _ decidable l r = @comparing α _ decidable' l r := by
  rw [Subsingleton.elim decidable decidable']

theorem comparing_int64 (l r : Int64) : comparing l r = compare (l.toInt : ℚ) r.toInt :=
  comparing_eq (by rw [Int64.lt_iff_toInt_lt]; exact_mod_cast Iff.rfl)
    (by rw [Int64.lt_iff_toInt_lt]; exact_mod_cast Iff.rfl)

theorem comparing_finiteDouble (l r : FiniteDouble) : comparing l r = compare l.value r.value :=
  comparing_eq Iff.rfl Iff.rfl

namespace LeafValue

/-- Rounding keeps the order to the double, and where it makes both equal the exact comparison decides. -/
theorem compareWithDouble_eq (i : Int64) (d : FiniteDouble) :
    compareWithDouble i d = compare (i.toInt : ℚ) d.value := by
  unfold compareWithDouble
  rw [comparing_finiteDouble, FiniteDouble.value_ofInt64]
  cases hround : compare (Doubles.round i.toInt) d.value with
  | lt =>
      have hlt : (i.toInt : ℚ) < d.value := by
        by_contra hle
        exact absurd (compare_lt_iff_lt.mp hround) (Doubles.le_round d.isDouble_value (not_lt.mp hle)).not_gt
      exact (compare_lt_iff_lt.mpr hlt).symm
  | gt =>
      have hgt : d.value < i.toInt := by
        by_contra hle
        exact absurd (compare_gt_iff_gt.mp hround) (Doubles.round_le d.isDouble_value (not_lt.mp hle)).not_gt
      exact (compare_gt_iff_gt.mpr hgt).symm
  | eq =>
      dsimp only
      cases hexact : d.exactInt64 with
      | none =>
          have hlt := FiniteDouble.lt_value_of_exactInt64_eq_none (compare_eq_iff_eq.mp hround) hexact
          exact (compare_lt_iff_lt.mpr hlt).symm
      | some j =>
          rw [FiniteDouble.exactInt64_eq_some_iff.mp hexact]
          exact comparing_int64 i j

theorem compareNumbers_eq (l r : LeafNumber FiniteDouble) :
    compareNumbers (.number l) (.number r) = compare l.exactValue r.exactValue := by
  cases l with
  | int64 l =>
      cases r with
      | int64 r => exact comparing_int64 l r
      | double d => exact compareWithDouble_eq l d
  | double d =>
      cases r with
      | int64 r =>
          have hswap : compareNumbers (.number (.double d)) (.number (.int64 r)) = (compareWithDouble r d).swap := by
            show (match compareWithDouble r d with | .lt => Ordering.gt | .gt => .lt | .eq => .eq) = _
            cases compareWithDouble r d <;> rfl
          rw [hswap, compareWithDouble_eq]
          exact (OrientedCmp.eq_swap).symm
      | double r => exact comparing_finiteDouble d r

/-- The order of numbers is that of their exact values: it is total and transitive, also over integers and doubles,
and two numbers are the same in it exactly if they are equal. -/
theorem compareNumbers_exact :
    (∀ l r : LeafNumber FiniteDouble,
      compareNumbers (.number l) (.number r) = compare l.exactValue r.exactValue) ∧
    (∀ l r : LeafNumber FiniteDouble,
      compareNumbers (.number l) (.number r) = (compareNumbers (.number r) (.number l)).swap) ∧
    (∀ l m r : LeafNumber FiniteDouble, (compareNumbers (.number l) (.number m)).isLE = true →
      (compareNumbers (.number m) (.number r)).isLE = true → (compareNumbers (.number l) (.number r)).isLE = true) ∧
    ∀ l r : LeafNumber FiniteDouble, compareNumbers (.number l) (.number r) = .eq ↔ l.equals r = true := by
  refine ⟨compareNumbers_eq, fun l r => ?_, fun l m r hlm hmr => ?_, fun l r => ?_⟩
  · rw [compareNumbers_eq, compareNumbers_eq]
    exact OrientedCmp.eq_swap
  · rw [compareNumbers_eq] at hlm hmr ⊢
    exact TransCmp.isLE_trans hlm hmr
  · rw [compareNumbers_eq, compare_eq_iff_eq, LeafNumber.equals_iff]

/-! ### Values of leaves -/

def typeOrder : LeafValue FiniteDouble → ℕ
  | .deferredValue _ => 0
  | .bool _ => 1
  | .number _ => 2
  | .string _ => 3

/-- `FNode.compareLeafNodeValue`. Strings are compared by their UTF-16 units, and deferred values are all equal. -/
def compareLeafNodeValue : LeafValue FiniteDouble → LeafValue FiniteDouble → Ordering
  | .bool l, .bool r => if l = r then .eq else if l then .gt else .lt
  | .number l, .number r => compareNumbers (.number l) (.number r)
  | .string l, .string r => comparing (utf16 l) (utf16 r)
  | .deferredValue _, .deferredValue _ => .eq
  | lhs, rhs => if lhs.typeOrder < rhs.typeOrder then .lt else .gt

/-- What values of one type are compared by -/
def content : LeafValue FiniteDouble → ℚ ×ₗ List ℕ
  | .deferredValue _ => toLex (0, [])
  | .bool value => toLex (if value then 1 else 0, [])
  | .number value => toLex (value.exactValue, [])
  | .string value => toLex (0, utf16 value)

def rank (value : LeafValue FiniteDouble) : ℕ ×ₗ ℚ ×ₗ List ℕ := toLex (value.typeOrder, value.content)

section Lexicographic

variable {α β : Type} [LinearOrder α] [LinearOrder β]

theorem comparing_toLex_of_eq (a : α) (b b' : β) : comparing (toLex (a, b)) (toLex (a, b')) = comparing b b' := by
  simp only [comparing, Prod.Lex.toLex_lt_toLex, lt_irrefl, false_or, true_and]

theorem comparing_toLex_fst (a a' : α) (b : β) : comparing (toLex (a, b)) (toLex (a', b)) = comparing a a' := by
  simp only [comparing, Prod.Lex.toLex_lt_toLex, lt_irrefl, and_false, or_false]

theorem comparing_toLex_of_ne {a a' : α} (h : a ≠ a') (b b' : β) :
    comparing (toLex (a, b)) (toLex (a', b')) = if a < a' then .lt else .gt := by
  simp only [comparing, Prod.Lex.toLex_lt_toLex, h, h.symm, false_and, or_false]
  split_ifs with hlt hgt
  · rfl
  · rfl
  · exact absurd (lt_of_le_of_ne (not_lt.mp hlt) h.symm) hgt

/-- An order by a rank -/
theorem transCmp_of_rank {α : Type} {cmp : α → α → Ordering} (rank : α → β) (h : ∀ l r, cmp l r = comparing (rank l) (rank r)) :
    TransCmp cmp := by
  have heq : cmp = compareOn rank := funext fun l => funext fun r => (h l r).trans (comparing_eq Iff.rfl Iff.rfl)
  rw [heq]
  infer_instance

end Lexicographic

theorem compareLeafNodeValue_eq (lhs rhs : LeafValue FiniteDouble) :
    compareLeafNodeValue lhs rhs = comparing lhs.rank rhs.rank := by
  by_cases htype : lhs.typeOrder = rhs.typeOrder
  · rw [rank, rank, htype, comparing_toLex_of_eq]
    cases lhs with
    | bool l =>
        cases rhs with
        | bool r => exact ((comparing_toLex_fst _ _ _).trans (by cases l <;> cases r <;> decide)).symm
        | _ => cases htype
    | number l =>
        cases rhs with
        | number r =>
            refine (compareNumbers_eq l r).trans ?_
            rw [content, content, comparing_toLex_fst]
            exact (comparing_eq Iff.rfl Iff.rfl).symm
        | _ => cases htype
    | string l =>
        cases rhs with
        | string r =>
            rw [content, content, comparing_toLex_of_eq]
            exact comparing_instance _ _ _ _
        | _ => cases htype
    | deferredValue l =>
        cases rhs with
        | deferredValue r => rw [content, content, comparing_toLex_fst]; rfl
        | _ => cases htype
  · have htypes : compareLeafNodeValue lhs rhs = if lhs.typeOrder < rhs.typeOrder then .lt else .gt := by
      cases lhs <;> cases rhs <;> first | rfl | exact absurd rfl htype
    rw [htypes, rank, rank, comparing_toLex_of_ne htype]

/-- The values of leaves are totally preordered. -/
theorem transCmp_compareLeafNodeValue : TransCmp compareLeafNodeValue :=
  transCmp_of_rank rank compareLeafNodeValue_eq

end LeafValue

end FirebaseSwift.Database
