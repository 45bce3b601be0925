import FirebaseSwift.Database.ImmutableTree

/-! Trees whose children are sorted, as every update keeps them. Enumerating such a tree visits exactly
its values, each path once. -/

namespace FirebaseSwift.Database

namespace FImmutableTree

open SortedDictionary

variable {K α : Type} [LinearOrder K]

/-- The children of every node are sorted. -/
inductive IsSorted : FImmutableTree K α → Prop
  | intro (value : Option α) (children : List (K × FImmutableTree K α))
      (hsorted : Sorted (· < ·) children) (hchildren : ∀ e ∈ children, IsSorted e.2) :
      IsSorted (node value children)

namespace IsSorted

variable {tree : FImmutableTree K α}

theorem empty : IsSorted (empty : FImmutableTree K α) :=
  .intro none [] (sorted_nil _) fun _ h => (nomatch h)

theorem ofValue (value : Option α) : IsSorted (ofValue value : FImmutableTree K α) :=
  .intro value [] (sorted_nil _) fun _ h => (nomatch h)

theorem child (h : IsSorted tree) {key : K} {childTree : FImmutableTree K α}
    (hget : get key tree.children = some childTree) : IsSorted childTree := by
  cases h with | intro _ _ _ hchildren => exact hchildren _ (mem_of_get hget)

theorem childOrEmpty (h : IsSorted tree) (key : K) :
    IsSorted ((get key tree.children).getD FImmutableTree.empty) := by
  cases hget : get key tree.children with
  | none => exact empty
  | some childTree => exact h.child hget

theorem withChild (h : IsSorted tree) (value : Option α) (front : K) {newChild : FImmutableTree K α}
    (hnew : IsSorted newChild) : IsSorted (node value (set (· < ·) front newChild tree.children)) := by
  cases h with
  | intro _ children hsorted hchildren =>
      refine .intro _ _ (hsorted.set _ front newChild) fun e he => ?_
      rcases mem_set (· < ·) he with rfl | he
      · exact hnew
      · exact hchildren e he

theorem setValue (h : IsSorted tree) (newValue : Option α) (path : FPath K) :
    IsSorted (setValue newValue path tree) := by
  induction path generalizing tree with
  | nil => cases h with | intro _ _ hsorted hchildren => exact .intro _ _ hsorted hchildren
  | cons front rest ih => exact h.withChild _ front (ih (h.childOrEmpty front))

theorem removeValue (h : IsSorted tree) (path : FPath K) : IsSorted (removeValue path tree) := by
  induction path generalizing tree with
  | nil =>
      rw [FImmutableTree.removeValue]
      split_ifs
      · exact empty
      · cases h with | intro _ _ hsorted hchildren => exact .intro _ _ hsorted hchildren
  | cons front rest ih =>
      rw [FImmutableTree.removeValue]
      cases hget : get front tree.children with
      | none => exact h
      | some child =>
          dsimp only
          split_ifs
          · exact empty
          · unfold replaceChild
            split_ifs
            · cases h with
              | intro _ children hsorted hchildren =>
                  exact .intro _ _ (hsorted.remove front) fun e he => hchildren e (mem_remove.mp he).1
            · exact h.withChild _ front (ih (h.child hget))

theorem setTree (h : IsSorted tree) {newTree : FImmutableTree K α} (hnew : IsSorted newTree) (path : FPath K) :
    IsSorted (setTree newTree path tree) := by
  induction path generalizing tree with
  | nil => exact hnew
  | cons front rest ih =>
      have hchild := ih (h.childOrEmpty front)
      rw [FImmutableTree.setTree]
      unfold replaceChild
      split_ifs
      · cases h with
        | intro _ children hsorted hchildren =>
            exact .intro _ _ (hsorted.remove front) fun e he => hchildren e (mem_remove.mp he).1
      · exact h.withChild _ front hchild

theorem subtree (h : IsSorted tree) (path : FPath K) : IsSorted (subtree path tree) := by
  induction path generalizing tree with
  | nil => exact h
  | cons front rest ih =>
      rw [FImmutableTree.subtree]
      cases hget : get front tree.children with
      | none => exact empty
      | some child => exact ih (h.child hget)

/-- Enumerating a sorted tree visits exactly its values. -/
theorem mem_forEachPathSoFar (h : IsSorted tree) {pathSoFar path : FPath K} {v : α} :
    (path, v) ∈ forEachPathSoFar pathSoFar tree ↔
      ∃ rest, path = pathSoFar ++ rest ∧ valueAt rest tree = some v := by
  induction h generalizing pathSoFar with
  | intro value children hsorted _ ih =>
      rw [forEachPathSoFar_node, List.mem_append, List.mem_flatMap]
      constructor
      · rintro (⟨⟨key, childTree⟩, hmem, hin⟩ | hroot)
        · obtain ⟨rest, rfl, hv⟩ := (ih _ hmem).mp hin
          refine ⟨key :: rest, by simp, ?_⟩
          rw [valueAt_cons, children_node, hsorted.get_of_mem hmem]
          exact hv
        · simp only [List.mem_map, Option.mem_toList, Prod.mk.injEq] at hroot
          obtain ⟨w, hw, rfl, rfl⟩ := hroot
          exact ⟨[], by simp, hw⟩
      · rintro ⟨rest, rfl, hv⟩
        cases rest with
        | nil =>
            right
            rw [valueAt_nil, value_node] at hv
            simp [hv]
        | cons key rest =>
            left
            rw [valueAt_cons, children_node] at hv
            obtain ⟨childTree, hget, hv⟩ := Option.bind_eq_some_iff.mp hv
            exact ⟨(key, childTree), mem_of_get hget, (ih _ (mem_of_get hget)).mpr ⟨rest, by simp, hv⟩⟩

theorem mem_forEach (h : IsSorted tree) {path : FPath K} {v : α} :
    (path, v) ∈ forEach tree ↔ valueAt path tree = some v := by
  simp [forEach, h.mem_forEachPathSoFar]

/-- Every path is visited once. -/
theorem pairwise_forEachPathSoFar (h : IsSorted tree) (pathSoFar : FPath K) :
    (forEachPathSoFar pathSoFar tree).Pairwise fun e e' => e.1 ≠ e'.1 := by
  induction h generalizing pathSoFar with
  | intro value children hsorted hchildren ih =>
      rw [forEachPathSoFar_node, List.pairwise_append]
      refine ⟨?_, ?_, ?_⟩
      · rw [List.pairwise_flatMap]
        refine ⟨fun e he => ih e he (pathSoFar ++ [e.1]), hsorted.imp_of_mem ?_⟩
        rintro e e' he he' hlt ⟨xpath, xv⟩ hx ⟨ypath, yv⟩ hy
        obtain ⟨xrest, rfl, _⟩ := (hchildren e he).mem_forEachPathSoFar.mp hx
        obtain ⟨yrest, rfl, _⟩ := (hchildren e' he').mem_forEachPathSoFar.mp hy
        simp [hlt.ne]
      · cases value <;> simp
      · rintro ⟨xpath, xv⟩ hx ⟨ypath, yv⟩ hy
        obtain ⟨e, he, hx⟩ := List.mem_flatMap.mp hx
        obtain ⟨xrest, rfl, _⟩ := (hchildren e he).mem_forEachPathSoFar.mp hx
        simp only [List.mem_map, Prod.mk.injEq] at hy
        obtain ⟨_, _, rfl, _⟩ := hy
        simp

theorem pairwise_forEach (h : IsSorted tree) : (forEach tree).Pairwise fun e e' => e.1 ≠ e'.1 :=
  h.pairwise_forEachPathSoFar []

end IsSorted

end FImmutableTree

end FirebaseSwift.Database
