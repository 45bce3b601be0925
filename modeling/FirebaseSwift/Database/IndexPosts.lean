import FirebaseSwift.Database.NodeFilters

/-! The least and the greatest post of an index. A query without a start begins at the least post of its
index and one without an end ends at the greatest, so no child should lie beyond them. The greatest post
of the values is an empty node, and all children with a value lie beyond it. -/

namespace FirebaseSwift.Database

variable {K V : Type} [DatabaseKey K]

/-- `FUtilities.compareKey` of two names -/
def PostName.compareKey : PostName K → PostName K → Ordering
  | .min, .min => .eq
  | .max, .max => .eq
  | .min, _ => .lt
  | _, .max => .lt
  | .max, _ => .gt
  | _, .min => .gt
  | .key name, .key name' => compareKeys name name'

variable [DatabaseValue V]

instance : DecidableEq (PostValue K V)
  | .max, .max => isTrue rfl
  | .max, .node _ => isFalse nofun
  | .node _, .max => isFalse nofun
  | .node lhs, .node rhs => decidable_of_iff (lhs = rhs) (by rw [PostValue.node.injEq])

/-- `FNode.compare` with `FNode.max` -/
def PostValue.compareNode : PostValue K V → PostValue K V → Ordering
  | .max, .max => .eq
  | .max, .node _ => .gt
  | .node _, .max => .lt
  | .node lhs, .node rhs => lhs.compare rhs

namespace FIndex

/-- What the index compares of a node. `FNode.max` has no priority and no children. -/
def valueOf (index : FIndex K) : PostValue K V → PostValue K V
  | .node node => .node (index.indexValue node)
  | .max => if index = .value then .max else .node .empty

def postOf (index : FIndex K) (name : PostName K) (node : PostValue K V) : FPost K V :=
  ⟨name, index.valueOf node⟩

/-- `compareNamedNode(lhs:rhs:)` of named nodes given by what the index compares -/
def compareNamedNode (index : FIndex K) (lhs rhs : FPost K V) : Ordering :=
  let indexCmp := if index = .key then .eq else lhs.value.compareNode rhs.value
  if indexCmp = .eq then lhs.name.compareKey rhs.name else indexCmp

variable {index : FIndex K} {post : FPost K V} {child : FNamedNode K V}

theorem compareNamedNode_post_child :
    index.compareNamedNode post (index.postOf (.key child.name) (.node child.node)) =
      index.comparePost post child := by
  obtain ⟨name, value⟩ := post
  unfold compareNamedNode comparePost postOf valueOf
  cases name <;> cases value <;> rfl

theorem compareNamedNode_child_post :
    index.compareNamedNode (index.postOf (.key child.name) (.node child.node)) post =
      index.compareToPost child post := by
  obtain ⟨name, value⟩ := post
  unfold compareNamedNode compareToPost postOf valueOf
  cases name <;> cases value <;> rfl

/-! ### Empty nodes in the order -/

variable (node : FNode K V) (value : PostValue K V) (name : PostName K)

theorem empty_compare : FNode.empty.compare node = if node = .empty then .eq else .lt := by
  by_cases hnode : node = .empty
  · subst hnode
    rfl
  · rw [if_neg hnode, FNode.compare, FNode.leafValue_empty]
    rw [← ne_eq, ← FNode.isEmpty_eq_false_iff] at hnode
    cases hleaf : node.leafValue with
    | some value => rfl
    | none =>
        dsimp only
        rw [hnode]
        rfl

theorem compare_empty : node.compare .empty = if node = .empty then .eq else .gt := by
  by_cases hnode : node = .empty
  · subst hnode
    rfl
  · rw [if_neg hnode, FNode.compare, FNode.leafValue_empty]
    rw [← ne_eq, ← FNode.isEmpty_eq_false_iff] at hnode
    cases hleaf : node.leafValue with
    | some value => rfl
    | none =>
        dsimp only
        rw [hnode]
        rfl

theorem empty_compareNode :
    PostValue.compareNode (.node .empty) value = if value = .node .empty then .eq else .lt := by
  cases value with
  | max => rfl
  | node node => simp only [PostValue.compareNode, empty_compare, PostValue.node.injEq]

theorem compareNode_empty :
    PostValue.compareNode value (.node .empty) = if value = .node .empty then .eq else .gt := by
  cases value with
  | max => rfl
  | node node => simp only [PostValue.compareNode, compare_empty, PostValue.node.injEq]

theorem compareKey_min : PostName.compareKey .min name ≠ .gt ∧ name.compareKey .min ≠ .lt := by
  cases name <;> exact ⟨nofun, nofun⟩

theorem compareKey_max : PostName.compareKey .max name ≠ .lt ∧ name.compareKey .max ≠ .gt := by
  cases name <;> exact ⟨nofun, nofun⟩

/-! ### The least post -/

theorem compareNamedNode_minPost (index : FIndex K) (post : FPost K V) :
    index.compareNamedNode index.minPost post ≠ .gt ∧ index.compareNamedNode post index.minPost ≠ .lt := by
  obtain ⟨hname, hname'⟩ := compareKey_min post.name
  unfold compareNamedNode minPost
  simp only [empty_compareNode, compareNode_empty]
  constructor
  · split_ifs <;> first | exact hname | nofun
  · split_ifs <;> first | exact hname' | nofun

/-! ### The greatest post -/

/-- The greatest post of the index is not before the node. -/
def MaxPostCovers (index : FIndex K) (node : PostValue K V) : Prop :=
  match index with
  | .key => True
  | .priority => True
  | .value => node = .node .empty
  | .path childPath => DatabaseKey.priority ∈ childPath → index.valueOf node = .node .empty

theorem compareNamedNode_max (index : FIndex K) (post : FPost K V) :
    index.compareNamedNode ⟨.max, .max⟩ post ≠ .lt ∧ index.compareNamedNode post ⟨.max, .max⟩ ≠ .gt := by
  obtain ⟨name, value⟩ := post
  obtain ⟨hname, hname'⟩ := compareKey_max name
  unfold compareNamedNode
  by_cases hkey : index = .key
  · simp only [if_pos hkey]
    exact ⟨hname, hname'⟩
  · simp only [if_neg hkey]
    cases value with
    | max => exact ⟨hname, hname'⟩
    | node node => exact ⟨nofun, nofun⟩

/-- A greatest post with an empty node covers only the empty node. -/
theorem compareNamedNode_max_empty {index : FIndex K} (hindex : index ≠ .key) (post : FPost K V) :
    (index.compareNamedNode ⟨.max, .node .empty⟩ post ≠ .lt ↔ post.value = .node .empty) ∧
      (index.compareNamedNode post ⟨.max, .node .empty⟩ ≠ .gt ↔ post.value = .node .empty) := by
  obtain ⟨hname, hname'⟩ := compareKey_max post.name
  unfold compareNamedNode
  simp only [if_neg hindex, empty_compareNode, compareNode_empty]
  by_cases hvalue : post.value = .node .empty
  · simp only [if_pos hvalue]
    exact ⟨iff_of_true hname hvalue, iff_of_true hname' hvalue⟩
  · simp only [if_neg hvalue]
    exact ⟨iff_of_false (fun h => h rfl) hvalue, iff_of_false (fun h => h rfl) hvalue⟩

theorem compareNamedNode_maxPost (index : FIndex K) (name : PostName K) (node : PostValue K V) :
    (index.compareNamedNode index.maxPost (index.postOf name node) ≠ .lt ↔ index.MaxPostCovers node) ∧
      (index.compareNamedNode (index.postOf name node) index.maxPost ≠ .gt ↔ index.MaxPostCovers node) := by
  cases index with
  | key =>
      obtain ⟨hname, hname'⟩ := compareKey_max name
      exact ⟨iff_of_true hname trivial, iff_of_true hname' trivial⟩
  | priority =>
      obtain ⟨hleft, hright⟩ := FIndex.priority.compareNamedNode_max (FIndex.priority.postOf name node)
      exact ⟨iff_of_true hleft trivial, iff_of_true hright trivial⟩
  | value =>
      have hmax := @compareNamedNode_max_empty K V _ _ .value nofun (FIndex.value.postOf name node)
      have hvalue : (FIndex.value.postOf name node).value = node := by
        cases node <;> rfl
      rwa [hvalue] at hmax
  | path childPath =>
      unfold MaxPostCovers maxPost valueUnder
      dsimp only
      split_ifs with hpriority
      · obtain ⟨hleft, hright⟩ :=
          @compareNamedNode_max_empty K V _ _ (.path childPath) nofun
            ((FIndex.path childPath).postOf name node)
        exact ⟨hleft.trans ⟨fun hempty _ => hempty, fun hcovers => hcovers hpriority⟩,
          hright.trans ⟨fun hempty _ => hempty, fun hcovers => hcovers hpriority⟩⟩
      · obtain ⟨hleft, hright⟩ :=
          (FIndex.path childPath).compareNamedNode_max ((FIndex.path childPath).postOf name node)
        exact ⟨iff_of_true hleft fun hmem => absurd hmem hpriority,
          iff_of_true hright fun hmem => absurd hmem hpriority⟩

end FIndex

/-! ### Queries without a start or an end -/

/-- The least post of an index is not after any node, and the greatest is not before it exactly where it
covers the node. So a query without a start excludes no child at the low end, and one without an end
excludes at the high end the children that the greatest post does not cover. -/
theorem minPost_and_maxPost_bound_iff [QueryValue K V] (index : FIndex K) (name : PostName K)
    (node : PostValue K V) :
    (index.compareNamedNode index.minPost (index.postOf name node) ≠ .gt ∧
        index.compareNamedNode (index.postOf name node) index.minPost ≠ .lt) ∧
    ((index.compareNamedNode index.maxPost (index.postOf name node) ≠ .lt ↔ index.MaxPostCovers node) ∧
      (index.compareNamedNode (index.postOf name node) index.maxPost ≠ .gt ↔ index.MaxPostCovers node)) ∧
    ∀ (params : FQueryParams K V) (child : FNamedNode K V),
      (params.indexStart = none →
        params.index.comparePost params.rangedFilter.startPost child ≠ .gt) ∧
      (params.indexEnd = none →
        (params.index.compareToPost child params.rangedFilter.endPost ≠ .gt ↔
          params.index.MaxPostCovers (.node child.node))) := by
  refine ⟨index.compareNamedNode_minPost _, index.compareNamedNode_maxPost name node,
    fun params child => ⟨fun hstart => ?_, fun hend => ?_⟩⟩
  · rw [← FIndex.compareNamedNode_post_child, FQueryParams.rangedFilter, FQueryParams.startPost, hstart]
    exact (params.index.compareNamedNode_minPost _).1
  · rw [← FIndex.compareNamedNode_child_post, FQueryParams.rangedFilter, FQueryParams.endPost, hend]
    exact (params.index.compareNamedNode_maxPost (.key child.name) (.node child.node)).2

/-- Children ordered by a priority, without a start and an end. -/
theorem minPost_and_maxPost_bound_priority :
    (FIndex.priority.comparePost (FQueryParams.defaultInstance : FQueryParams String String).rangedFilter.startPost
        ⟨"key", .leaf "b" .empty⟩ ≠ .gt) ∧
      FIndex.priority.compareToPost ⟨"key", .leaf "b" .empty⟩
        (FQueryParams.defaultInstance : FQueryParams String String).rangedFilter.endPost ≠ .gt := by
  have hbound := (minPost_and_maxPost_bound_iff (K := String) (V := String) .priority .min .max).2.2
    .defaultInstance ⟨"key", .leaf "b" .empty⟩
  exact ⟨hbound.1 rfl, (hbound.2 rfl).mpr trivial⟩

/-- The greatest post of the values is before a leaf, and a query for all values from one on has none. -/
theorem maxPost_bound_fails :
    ¬∀ (params : FQueryParams String String) (child : FNamedNode String String),
      params.index.compareNamedNode params.index.maxPost
          (params.index.postOf (.key child.name) (.node child.node)) ≠ .lt ∧
        (params.indexEnd = none → params.index.compareToPost child params.rangedFilter.endPost ≠ .gt) := by
  intro hall
  have hbound := hall ⟨.value, none, some (.leaf "a" .empty, none), none⟩ ⟨"key", .leaf "b" .empty⟩
  exact absurd hbound.1 (by decide)

end FirebaseSwift.Database
