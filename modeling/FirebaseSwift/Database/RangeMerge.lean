import FirebaseSwift.Database.IndexedNode
import FirebaseSwift.Database.NodeLeaves

/-! Range merges, `FRangeMerge`. The leaves of a node that are after an exclusive start and not after an
inclusive end are replaced by those of the updates. The recursion goes on only where a node contains the
start or the end: all other nodes are in the range with all leaves, or with none. -/

namespace FirebaseSwift.Database

variable {K V : Type} [DatabaseKey K]

/-! ### Paths in order -/

theorem compareKeys_eq_iff {key key' : K} : compareKeys key key' = .eq ↔ key = key' := by
  unfold compareKeys
  split_ifs with hlt hgt
  · exact iff_of_false nofun fun h => irrefl_of DatabaseKey.compareKey key (h ▸ hlt)
  · exact iff_of_false nofun fun h => irrefl_of DatabaseKey.compareKey key (h ▸ hgt)
  · exact iff_of_true rfl (Std.Trichotomous.trichotomous key key' hlt hgt)

theorem compareKeys_swap (key key' : K) : (compareKeys key key').swap = compareKeys key' key := by
  unfold compareKeys
  split_ifs with hlt hgt hgt
  · exact absurd hgt (asymm_of DatabaseKey.compareKey hlt)
  · rfl
  · rfl
  · rfl

namespace FPath

def compare : FPath K → FPath K → Ordering
  | [], [] => .eq
  | [], _ :: _ => .lt
  | _ :: _, [] => .gt
  | front :: path, otherFront :: other =>
      match compareKeys front otherFront with
      | .eq => compare path other
      | ordering => ordering

end FPath

/-! ### The merge -/

structure FRangeMerge (K V : Type) [DatabaseKey K] where
  optExclusiveStart : Option (FPath K)
  optInclusiveEnd : Option (FPath K)
  updates : FNode K V

namespace FRangeMerge

section

variable (merge : FRangeMerge K V)

def startComparison (currentPath : FPath K) : Ordering :=
  merge.optExclusiveStart.elim .gt fun start => currentPath.compare start

def endComparison (currentPath : FPath K) : Ordering :=
  merge.optInclusiveEnd.elim .lt fun last => currentPath.compare last

def startInNode (currentPath : FPath K) : Bool :=
  merge.optExclusiveStart.elim false fun start => currentPath.contains start

def endInNode (currentPath : FPath K) : Bool :=
  merge.optInclusiveEnd.elim false fun last => currentPath.contains last

/-- The recursion does not go below the start and the end. -/
def depth : Nat :=
  max (merge.optExclusiveStart.elim 0 List.length) (merge.optInclusiveEnd.elim 0 List.length) + 1

variable {merge}

theorem length_lt_depth {currentPath : FPath K}
    (h : merge.startInNode currentPath = true ∨ merge.endInNode currentPath = true) :
    currentPath.length < merge.depth := by
  have hcontained : ∀ {bound : Option (FPath K)},
      (bound.elim false fun path => currentPath.contains path) = true →
        currentPath.length ≤ bound.elim 0 List.length := by
    intro bound hbound
    cases bound with
    | none => cases hbound
    | some path => exact (FPath.contains_iff.mp hbound).length_le
  rcases h with hstart | hend
  · exact Nat.lt_succ_of_le ((hcontained hstart).trans (le_max_left _ _))
  · exact Nat.lt_succ_of_le ((hcontained hend).trans (le_max_right _ _))

end

/-- The keys of a set, in the order of its iteration. -/
def allChildren (order : List K → List K) (node updates : FNode K V) : List K :=
  order ((node.enumerateChildren ++ updates.enumerateChildren).map Prod.fst).dedup

section

variable [DecidableEq V]

def updateRangeInNode (merge : FRangeMerge K V) (order : List K → List K) (currentPath : FPath K)
    (node updates : FNode K V) : FNode K V :=
  if merge.startComparison currentPath = .gt ∧ merge.endComparison currentPath = .lt ∧
      merge.endInNode currentPath = false then updates
  else if merge.startComparison currentPath = .gt ∧ merge.endInNode currentPath = true ∧
      updates.isLeafNode = true then updates
  else if merge.startComparison currentPath = .gt ∧ merge.endComparison currentPath = .eq then
    if node.isLeafNode then .empty else node
  else if _hcontains : merge.startInNode currentPath = true ∨ merge.endInNode currentPath = true then
    let action (newNode : FNode K V) (key : K) :=
      let currentChild := node.getImmediateChild key
      let updatedChild := updateRangeInNode merge order (currentPath.childFromString key) currentChild
        (updates.getImmediateChild key)
      -- only if the child has changed
      if updatedChild ≠ currentChild then newNode.updateImmediateChild key updatedChild else newNode
    let newNode := (allChildren order node updates).foldl action node
    if updates.getPriority.isEmpty = false ∨ node.getPriority.isEmpty = false then
      action newNode DatabaseKey.priority
    else newNode
  else node
termination_by merge.depth - currentPath.length
decreasing_by
  have hlt := length_lt_depth _hcontains
  rw [FPath.childFromString, List.length_append, List.length_singleton]
  omega

def applyToNode (merge : FRangeMerge K V) (order : List K → List K) (node : FNode K V) : FNode K V :=
  merge.updateRangeInNode order [] node merge.updates

end

/-! ### What a merge does to the leaves -/

/-- The path is after the start and not after the end. -/
def InRange (merge : FRangeMerge K V) (path : FPath K) : Prop :=
  merge.startComparison path = .gt ∧ merge.endComparison path ≠ .gt

instance decidableInRange (merge : FRangeMerge K V) (path : FPath K) : Decidable (merge.InRange path) :=
  inferInstanceAs (Decidable (_ ∧ _))

/-- The leaves that should be there afterwards. -/
def mergedLeafAt (merge : FRangeMerge K V) (currentPath : FPath K) (node updates : FNode K V)
    (path : FPath K) : Option V :=
  if (updates.leafAt path).isSome = true then updates.leafAt path
  else if merge.InRange (currentPath ++ path) then none
  else node.leafAt path

/-- What is asked of a node and its updates at a path: the leaves of the updates are in the range, no leaf
of the node in the range is strictly above the end, and no merged leaf is above another. -/
structure Mergeable (merge : FRangeMerge K V) (currentPath : FPath K) (node updates : FNode K V) : Prop where
  node_priorityFree : node.PriorityFree
  updates_priorityFree : updates.PriorityFree
  updates_inRange : ∀ path, DatabaseKey.priority ∉ path → updates.leafAt path ≠ none →
    merge.InRange (currentPath ++ path)
  not_above_end : ∀ path, DatabaseKey.priority ∉ path → node.leafAt path ≠ none →
    merge.InRange (currentPath ++ path) → ∀ last ∈ merge.optInclusiveEnd, currentPath ++ path <+: last →
      currentPath ++ path = last
  prefix_free : ∀ path path', DatabaseKey.priority ∉ path → DatabaseKey.priority ∉ path' → path <+: path' →
    merge.mergedLeafAt currentPath node updates path ≠ none →
      merge.mergedLeafAt currentPath node updates path' ≠ none → path = path'

section Bounds

variable {merge : FRangeMerge K V} {currentPath : FPath K}

end Bounds

end FRangeMerge

end FirebaseSwift.Database
