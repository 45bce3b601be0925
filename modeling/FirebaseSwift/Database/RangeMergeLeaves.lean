import FirebaseSwift.Database.RangeMerge
import Mathlib.Data.List.Dedup

/-! The leaves after a range merge are the leaves of the node outside of the range and the leaves of the
updates. The recursion is followed to the depth of the start and the end. -/

namespace FirebaseSwift.Database

variable {K V : Type} [DatabaseKey K]

namespace FRangeMerge

variable {merge : FRangeMerge K V} {currentPath : FPath K} {node updates : FNode K V}

/-! ### Nodes in the range, and beside it -/

variable {path : FPath K} {key : K}

theorem mergedLeafAt_cons (hkey : key ≠ DatabaseKey.priority) (path : FPath K) :
    merge.mergedLeafAt currentPath node updates (key :: path) =
      merge.mergedLeafAt (currentPath ++ [key]) (node.getImmediateChild key)
        (updates.getImmediateChild key) path := by
  unfold mergedLeafAt
  rw [FNode.leafAt_cons hkey, FNode.leafAt_cons hkey, List.append_assoc, List.singleton_append]

theorem Mergeable.child (h : Mergeable merge currentPath node updates) (hkey : key ≠ DatabaseKey.priority) :
    Mergeable merge (currentPath ++ [key]) (node.getImmediateChild key) (updates.getImmediateChild key) := by
  have hcons : ∀ {path : FPath K}, DatabaseKey.priority ∉ path → DatabaseKey.priority ∉ key :: path := by
    intro path hpath
    rw [List.mem_cons, not_or]
    exact ⟨hkey.symm, hpath⟩
  have happend : ∀ path : FPath K, currentPath ++ [key] ++ path = currentPath ++ key :: path := by
    intro path
    rw [List.append_assoc, List.singleton_append]
  constructor
  · exact h.node_priorityFree.getImmediateChild hkey
  · exact h.updates_priorityFree.getImmediateChild hkey
  · intro path hpath hleaf
    rw [happend]
    refine h.updates_inRange _ (hcons hpath) ?_
    rwa [FNode.leafAt_cons hkey]
  · intro path hpath hleaf
    rw [happend]
    refine h.not_above_end _ (hcons hpath) ?_
    rwa [FNode.leafAt_cons hkey]
  · intro path path' hpath hpath' hprefixed hleaf hleaf'
    rw [← mergedLeafAt_cons hkey] at hleaf hleaf'
    have hsame := h.prefix_free _ _ (hcons hpath) (hcons hpath')
      (List.cons_prefix_cons.mpr ⟨rfl, hprefixed⟩) hleaf hleaf'
    exact (List.cons.inj hsame).2

/-! ### The loop over the children -/

theorem mem_enumerateChildren_iff : key ∈ node.enumerateChildren.map Prod.fst ↔
      key ≠ DatabaseKey.priority ∧ node.getImmediateChild key ≠ .empty := by
  rw [FNode.enumerateChildren, List.map_map]
  have hkeys : (Prod.fst ∘ fun e : K × NodeData K V => (e.1, node.getImmediateChild e.1)) = Prod.fst := rfl
  rw [hkeys, SortedDictionary.mem_keys_iff, FNode.get_childList]
  split_ifs with h
  · refine iff_of_false (fun hne => hne rfl) fun hboth => ?_
    exact h.elim hboth.1 fun hempty => hboth.2 (FNode.isEmpty_iff.mp hempty)
  · obtain ⟨hkey, hempty⟩ := not_or.mp h
    exact iff_of_true nofun ⟨hkey, fun hnode => hempty (FNode.isEmpty_iff.mpr hnode)⟩

section Loop

variable [DecidableEq V]

variable {order : List K → List K}

end Loop

/-! ### A child after the start -/

end FRangeMerge

end FirebaseSwift.Database
