import FirebaseSwift.Database.SortedTree
import Mathlib.Data.Set.Finite.Basic
import Mathlib.Logic.Function.Basic

/-! A tree as a finite map from paths to values. A tree that is built from the empty one stands for the
map that the same changes make of the empty map: what it answers on a path, and what it enumerates, is
read off that map. -/

namespace FirebaseSwift.Database

namespace FImmutableTree

open SortedDictionary

variable {K α : Type} [LinearOrder K]

/-- `rootMostValue(onPath:matching:)` -/
def rootMostValue (predicate : α → Bool) : FPath K → FImmutableTree K α → Option α
  | [], tree => tree.value.filter predicate
  | front :: rest, tree =>
      match tree.value.filter predicate with
      | some value => some value
      | none =>
          match get front tree.children with
          | none => none
          | some child => rootMostValue predicate rest child

/-- Both searches from the root down find the same value. -/
theorem rootMostValue_eq (predicate : α → Bool) (path : FPath K) (tree : FImmutableTree K α) :
    rootMostValue predicate path tree = (findRootMost predicate path tree).map Prod.snd := by
  induction path generalizing tree with
  | nil => cases hvalue : tree.value.filter predicate <;> simp [rootMostValue, findRootMost, hvalue]
  | cons front rest ih =>
      rw [rootMostValue, findRootMost]
      cases tree.value.filter predicate with
      | some value => rfl
      | none =>
          cases get front tree.children with
          | none => rfl
          | some child =>
              dsimp only
              rw [ih, Option.map_map]
              rfl

/-- The map with another one in place of everything at and below the path. -/
def graft (map newMap : FPath K → Option α) (path : FPath K) : FPath K → Option α :=
  fun other => if path <+: other then newMap (other.drop path.length) else map other

/-- The trees that are built from the empty one, with the maps that they stand for. -/
inductive Built : FImmutableTree K α → (FPath K → Option α) → Prop
  | empty : Built empty fun _ => none
  | setValue {tree : FImmutableTree K α} {map : FPath K → Option α} (newValue : Option α) (path : FPath K)
      (htree : Built tree map) : Built (setValue newValue path tree) (Function.update map path newValue)
  | removeValue {tree : FImmutableTree K α} {map : FPath K → Option α} (path : FPath K)
      (htree : Built tree map) : Built (removeValue path tree) (Function.update map path none)
  | setTree {tree newTree : FImmutableTree K α} {map newMap : FPath K → Option α} (path : FPath K)
      (htree : Built tree map) (hnewTree : Built newTree newMap) :
      Built (setTree newTree path tree) (graft map newMap path)

namespace Built

variable {tree : FImmutableTree K α} {map : FPath K → Option α}

theorem isSorted (h : Built tree map) : tree.IsSorted := by
  induction h with
  | empty => exact .empty
  | setValue newValue path _ ih => exact ih.setValue newValue path
  | removeValue path _ ih => exact ih.removeValue path
  | setTree path _ _ ih ihnew => exact ih.setTree ihnew path

theorem valueAt_eq (h : Built tree map) (path : FPath K) : valueAt path tree = map path := by
  induction h generalizing path with
  | empty => exact valueAt_empty path
  | setValue newValue changed _ ih => rw [valueAt_setValue, ih, Function.update_apply]
  | removeValue changed _ ih => rw [valueAt_removeValue, ih, Function.update_apply]
  | setTree changed _ _ ih ihnew => rw [valueAt_setTree, ih, ihnew, graft]

theorem finite (h : Built tree map) : {path | map path ≠ none}.Finite := by
  refine ((forEach tree).map Prod.fst).finite_toSet.subset fun path hpath => ?_
  obtain ⟨v, hv⟩ := Option.ne_none_iff_exists'.mp hpath
  rw [← h.valueAt_eq] at hv
  exact List.mem_map.mpr ⟨(path, v), h.isSorted.mem_forEach.mpr hv, rfl⟩

end Built

/-- The value at a path, in a map, that passes the predicate while none above it does. -/
def IsRootMost (map : FPath K → Option α) (predicate : α → Bool) (path found : FPath K) (v : α) : Prop :=
  found <+: path ∧ map found = some v ∧ predicate v = true ∧
    ∀ above w, above <+: found → above ≠ found → map above = some w → predicate w = false

/-- The value at a path, in a map, with none below it on the way to another path. -/
def IsLeafMost (map : FPath K → Option α) (path found : FPath K) (v : α) : Prop :=
  found <+: path ∧ map found = some v ∧
    ∀ below, found <+: below → below <+: path → below ≠ found → map below = none

theorem findRootMost_iff {predicate : α → Bool} {path found : FPath K} {v : α} {tree : FImmutableTree K α} :
    findRootMost predicate path tree = some (found, v) ↔
      IsRootMost (fun path => valueAt path tree) predicate path found v := by
  rw [findRootMost_eq_some, Option.filter_eq_some_iff, IsRootMost, and_assoc]
  simp only [Option.filter_eq_none_iff, Bool.not_eq_true]
  refine and_congr_right fun _ => and_congr_right fun _ => and_congr_right fun _ => ?_
  exact ⟨fun h above w habove hne => h above habove hne w, fun h above habove hne w => h above w habove hne⟩

theorem leafMostValue_iff {path : FPath K} {v : α} {tree : FImmutableTree K α} : leafMostValue path tree = some v ↔
      ∃ found, IsLeafMost (fun path => valueAt path tree) path found v := by
  rw [leafMostValue_eq_some]
  refine exists_congr fun found => and_congr_right fun hle => and_congr_right fun hv => ?_
  constructor
  · intro h below hfound hbelow hne
    by_contra hvalue
    obtain ⟨w, hw⟩ := Option.ne_none_iff_exists'.mp hvalue
    exact hne ((h below w hbelow hw).eq_of_length_le hfound.length_le)
  · intro h above w habove hw
    -- two prefixes of one path, and the longer one holds no value
    rcases List.prefix_or_prefix_of_prefix habove hle with hprefix | hprefix
    · exact hprefix
    · by_cases heq : above = found
      · rw [heq]
      · have hnone := h above hprefix habove heq
        exact absurd (hw.symm.trans hnone) nofun

/-- What a tree answers that stands for the map, and what it holds after a change. -/
structure IsFiniteMap (tree : FImmutableTree K α) (map : FPath K → Option α) : Prop where
  finite : {path | map path ≠ none}.Finite
  valueAt_eq : ∀ path, valueAt path tree = map path
  setValue : ∀ newValue path other, valueAt other (setValue newValue path tree) =
    if other = path then newValue else valueAt other tree
  removeValue : ∀ path other, valueAt other (removeValue path tree) =
    if other = path then none else valueAt other tree
  setTree : ∀ newTree path other, valueAt other (setTree newTree path tree) =
    if path <+: other then valueAt (other.drop path.length) newTree else valueAt other tree
  findRootMost : ∀ predicate path found v,
    findRootMost predicate path tree = some (found, v) ↔ IsRootMost map predicate path found v
  findRootMost_none : ∀ predicate path, FImmutableTree.findRootMost predicate path tree = none ↔
    ∀ above w, above <+: path → map above = some w → predicate w = false
  rootMostValue : ∀ predicate path,
    rootMostValue predicate path tree = (FImmutableTree.findRootMost predicate path tree).map Prod.snd
  leafMostValue : ∀ path v, leafMostValue path tree = some v ↔ ∃ found, IsLeafMost map path found v
  leafMostValue_none : ∀ path, FImmutableTree.leafMostValue path tree = none ↔
    ∀ above, above <+: path → map above = none
  mem_forEach : ∀ path v, (path, v) ∈ forEach tree ↔ map path = some v
  forEach_once : (forEach tree).Pairwise fun e e' => e.1 ≠ e'.1

/-- Every tree that is built from the empty one is a finite map. -/
theorem isFiniteMap_of_built {tree : FImmutableTree K α} {map : FPath K → Option α} (h : Built tree map) :
    IsFiniteMap tree map := by
  have hmap : (fun path => valueAt path tree) = map := funext h.valueAt_eq
  refine
    { finite := h.finite
      valueAt_eq := h.valueAt_eq
      setValue := fun newValue path other => valueAt_setValue newValue path other tree
      removeValue := fun path other => valueAt_removeValue path other tree
      setTree := fun newTree path other => valueAt_setTree newTree path other tree
      findRootMost := fun predicate path found v => ?_
      findRootMost_none := fun predicate path => ?_
      rootMostValue := fun predicate path => rootMostValue_eq predicate path tree
      leafMostValue := fun path v => ?_
      leafMostValue_none := fun path => ?_
      mem_forEach := fun path v => ?_
      forEach_once := h.isSorted.pairwise_forEach }
  · rw [findRootMost_iff, hmap]
  · rw [findRootMost_eq_none]
    simp only [Option.filter_eq_none_iff, Bool.not_eq_true, h.valueAt_eq]
    exact ⟨fun h above w habove => h above habove w, fun h above habove w => h above w habove⟩
  · rw [leafMostValue_iff, hmap]
  · simp only [leafMostValue_eq_none, h.valueAt_eq]
  · rw [h.isSorted.mem_forEach, h.valueAt_eq]

/-- A tree of two values, after one was set below the other and a third was removed. -/
theorem isFiniteMap_two : IsFiniteMap
    (removeValue ["c"] (setTree (ofValue (some 2)) ["a", "b"] (setValue (some 1) ["a"]
      (setValue (some 3) ["c"] (empty : FImmutableTree String Nat)))))
    (Function.update (graft (Function.update (Function.update (fun _ => none) ["c"] (some 3)) ["a"] (some 1))
      (Function.update (fun _ => none) [] (some 2)) ["a", "b"]) ["c"] none) :=
  isFiniteMap_of_built (.removeValue _ (.setTree _ (.setValue _ _ (.setValue _ _ .empty))
    (.setValue (some 2) [] .empty)))

end FImmutableTree

end FirebaseSwift.Database
