import FirebaseSwift.Database.NodeAgreement

/-! The leaves of a node. A node without priorities is determined by the values of its leaves at all
paths. An update at a path replaces the leaves below it; if it puts anything there, then no leaf is left
on the way to the path. -/

namespace FirebaseSwift.Database

variable {K V : Type} [DatabaseKey K]

namespace FNode

/-- The value of the leaf at the path. -/
def leafAt (node : FNode K V) (path : FPath K) : Option V := (node.getChild path).leafValue

/-- No node at the path or below has a priority. -/
def PriorityFree (node : FNode K V) : Prop :=
  ∀ path, DatabaseKey.priority ∉ path → (node.getChild path).getPriority = empty

variable {node newChildNode : FNode K V} {path other : FPath K}

/-! ### Induction over the children -/

theorem sizeOf_getImmediateChild_lt {childKey : K} (hkey : childKey ≠ DatabaseKey.priority)
    (hchild : node.getImmediateChild childKey ≠ empty) :
    sizeOf (node.getImmediateChild childKey).data < sizeOf node.data := by
  obtain ⟨data, hwf⟩ := node
  have hdata : data.getImmediateChild childKey ≠ .empty := fun h => hchild (FNode.ext h)
  show sizeOf (data.getImmediateChild childKey) < sizeOf data
  rw [NodeData.getImmediateChild_eq hkey] at hdata ⊢
  cases data with
  | empty => exact absurd rfl hdata
  | leaf value priority => exact absurd rfl hdata
  | children dict priority =>
      rw [NodeData.childList_children] at hdata ⊢
      cases hget : SortedDictionary.get childKey dict with
      | none =>
          rw [hget] at hdata
          exact absurd rfl hdata
      | some child =>
          have hmem := List.sizeOf_lt_of_mem (SortedDictionary.mem_of_get hget)
          simp only [Option.getD_some, NodeData.children.sizeOf_spec, Prod.mk.sizeOf_spec] at hmem ⊢
          omega

theorem sizeOf_getPriority_lt (hpriority : node.getPriority ≠ empty) :
    sizeOf node.getPriority.data < sizeOf node.data := by
  obtain ⟨data, hwf⟩ := node
  cases data with
  | empty => exact absurd rfl hpriority
  | leaf value priority =>
      show sizeOf priority < sizeOf (NodeData.leaf value priority)
      simp only [NodeData.leaf.sizeOf_spec]
      omega
  | children dict priority =>
      show sizeOf priority < sizeOf (NodeData.children dict priority)
      simp only [NodeData.children.sizeOf_spec]
      omega

/-- Only the empty node is found below itself. -/
theorem eq_empty_of_getChild_self (hne : path ≠ []) (hself : node.getChild path = node) : node = empty := by
  have hsize : ∀ (path : FPath K) (node : FNode K V), node.getChild path ≠ empty →
      sizeOf (node.getChild path).data ≤ sizeOf node.data ∧
        (path ≠ [] → sizeOf (node.getChild path).data < sizeOf node.data) := by
    intro path
    induction path with
    | nil =>
        intro node _
        rw [getChild_nil]
        exact ⟨le_rfl, fun hnil => absurd rfl hnil⟩
    | cons front rest ih =>
        intro node hchild
        suffices hlt : sizeOf (node.getChild (front :: rest)).data < sizeOf node.data from
          ⟨hlt.le, fun _ => hlt⟩
        by_cases hfront : front = DatabaseKey.priority
        · subst hfront
          rw [getChild_priority_cons] at hchild ⊢
          exact sizeOf_getPriority_lt hchild
        · rw [getChild_cons hfront] at hchild ⊢
          have himmediate : node.getImmediateChild front ≠ empty := by
            intro hempty
            rw [hempty, getChild_empty] at hchild
            exact hchild rfl
          exact (ih _ hchild).1.trans_lt (sizeOf_getImmediateChild_lt hfront himmediate)
  by_contra hnode
  have hlt := (hsize path node (hself.symm ▸ hnode)).2 hne
  rw [hself] at hlt
  exact lt_irrefl _ hlt

/-- What holds for a node when it holds for its children holds for all nodes. -/
theorem child_induction {motive : FNode K V → Prop} (hstep : ∀ node, (∀ childKey, childKey ≠ DatabaseKey.priority →
      node.getImmediateChild childKey ≠ empty → motive (node.getImmediateChild childKey)) → motive node)
    (node : FNode K V) : motive node := by
  induction hsize : sizeOf node.data using Nat.strong_induction_on generalizing node with
  | _ size ih =>
      refine hstep node fun childKey hkey hchild => ih _ ?_ _ rfl
      rw [← hsize]
      exact sizeOf_getImmediateChild_lt hkey hchild

/-! ### Leaves determine a node -/

@[simp] theorem leafAt_nil (node : FNode K V) : node.leafAt [] = node.leafValue := by
  rw [leafAt, getChild_nil]

theorem leafAt_cons {front : K} (hfront : front ≠ DatabaseKey.priority) (rest : FPath K)
    (node : FNode K V) : node.leafAt (front :: rest) = (node.getImmediateChild front).leafAt rest := by
  rw [leafAt, getChild_cons hfront, leafAt]

@[simp] theorem leafAt_empty (path : FPath K) : (empty : FNode K V).leafAt path = none := by
  rw [leafAt, getChild_empty, leafValue_empty]

theorem leafAt_append (hpath : DatabaseKey.priority ∉ path) (rest : FPath K) (node : FNode K V) :
    node.leafAt (path ++ rest) = (node.getChild path).leafAt rest := by
  rw [leafAt, getChild_append hpath, leafAt]

theorem priorityFree_empty : (empty : FNode K V).PriorityFree := by
  intro path _
  rw [getChild_empty, getPriority_empty]

theorem leafAt_leaf_cons {front : K} {rest : FPath K} (hpath : DatabaseKey.priority ∉ front :: rest)
    (value : V) : (leaf value empty : FNode K V).leafAt (front :: rest) = none := by
  have hfront : front ≠ DatabaseKey.priority := fun heq => hpath (heq ▸ List.mem_cons_self)
  rw [leafAt_cons hfront, getImmediateChild_of_leafValue (leafValue_leaf value empty) hfront, leafAt_empty]

theorem priorityFree_leaf (value : V) : (leaf value empty : FNode K V).PriorityFree := by
  intro path hpath
  cases path with
  | nil =>
      rw [getChild_nil]
      rfl
  | cons front rest =>
      have hfront : front ≠ DatabaseKey.priority := fun heq => hpath (heq ▸ List.mem_cons_self)
      rw [getChild_cons hfront, getImmediateChild_of_leafValue (leafValue_leaf value empty) hfront,
        getChild_empty, getPriority_empty]

theorem PriorityFree.getChild (h : node.PriorityFree) (hpath : DatabaseKey.priority ∉ path) :
    (node.getChild path).PriorityFree := by
  intro rest hrest
  rw [← getChild_append hpath]
  exact h _ fun hmem => (List.mem_append.mp hmem).elim hpath hrest

theorem PriorityFree.getImmediateChild (h : node.PriorityFree) {childKey : K}
    (hkey : childKey ≠ DatabaseKey.priority) : (node.getImmediateChild childKey).PriorityFree := by
  have hchild := h.getChild (show DatabaseKey.priority ∉ [childKey] by simpa using hkey.symm)
  rwa [getChild_cons hkey, getChild_nil] at hchild

theorem PriorityFree.getPriority_eq (h : node.PriorityFree) : node.getPriority = empty := by
  have hroot := h [] (by simp)
  rwa [getChild_nil] at hroot

/-- A node that is not empty has a leaf. -/
theorem exists_leafAt (hnode : node ≠ empty) :
    ∃ path value, DatabaseKey.priority ∉ path ∧ node.leafAt path = some value := by
  induction node using child_induction with
  | hstep node ih =>
      cases hleaf : node.leafValue with
      | some value => exact ⟨[], value, by simp, by rw [leafAt_nil, hleaf]⟩
      | none =>
          have hchild : ∃ key, key ≠ DatabaseKey.priority ∧ node.getImmediateChild key ≠ empty := by
            by_contra hnone
            push Not at hnone
            exact hnode (eq_empty_of_observations hleaf hnone)
          obtain ⟨key, hkey, hne⟩ := hchild
          obtain ⟨path, value, hpath, hvalue⟩ := ih key hkey hne hne
          refine ⟨key :: path, value, ?_, by rw [leafAt_cons hkey, hvalue]⟩
          rw [List.mem_cons, not_or]
          exact ⟨hkey.symm, hpath⟩

theorem eq_empty_iff_leafAt : node = empty ↔ ∀ path, DatabaseKey.priority ∉ path → node.leafAt path = none := by
  constructor
  · rintro rfl path _
    exact leafAt_empty path
  · intro hnone
    by_contra hnode
    obtain ⟨path, value, hpath, hvalue⟩ := exists_leafAt hnode
    rw [hnone path hpath] at hvalue
    cases hvalue

/-- Nodes without priorities are equal when they have the same leaves. -/
theorem PriorityFree.ext {node' : FNode K V} (h : node.PriorityFree) (h' : node'.PriorityFree)
    (hleaves : ∀ path, DatabaseKey.priority ∉ path → node.leafAt path = node'.leafAt path) : node = node' := by
  induction node using child_induction generalizing node' with
  | hstep node ih =>
      refine eq_of_observations ?_ (h.getPriority_eq.trans h'.getPriority_eq.symm) fun key hkey => ?_
      · simpa using hleaves [] (by simp)
      have hchild : ∀ rest, DatabaseKey.priority ∉ rest →
          (node.getImmediateChild key).leafAt rest = (node'.getImmediateChild key).leafAt rest := by
        intro rest hrest
        rw [← leafAt_cons hkey, ← leafAt_cons hkey]
        refine hleaves _ ?_
        rw [List.mem_cons, not_or]
        exact ⟨hkey.symm, hrest⟩
      by_cases hempty : node.getImmediateChild key = empty
      · rw [hempty] at hchild ⊢
        refine (eq_empty_iff_leafAt.mpr fun rest hrest => ?_).symm
        rw [← hchild rest hrest, leafAt_empty]
      · exact ih key hkey hempty (h.getImmediateChild hkey) (h'.getImmediateChild hkey) hchild

/-! ### Updates -/

theorem leafValue_updateChild (hpath : DatabaseKey.priority ∉ path) (hne : path ≠ [])
    (node newChildNode : FNode K V) : (node.updateChild path newChildNode).leafValue =
      if newChildNode.isEmpty then node.leafValue else none := by
  cases path with
  | nil => exact absurd rfl hne
  | cons front rest =>
      have hfront : front ≠ DatabaseKey.priority := fun heq => hpath (heq ▸ List.mem_cons_self)
      have hrest : DatabaseKey.priority ∉ rest := fun hmem => hpath (List.mem_cons_of_mem _ hmem)
      rw [updateChild_cons hfront, leafValue_updateImmediateChild hfront]
      by_cases hempty : newChildNode.isEmpty = true
      · rw [if_pos hempty, isEmpty_iff.mp hempty, ite_eq_left_iff]
        intro hchild
        -- only a node with children has a child that is not empty after the removal
        cases hleaf : node.leafValue with
        | none => rfl
        | some value =>
            rw [getImmediateChild_of_leafValue hleaf hfront, updateChild_empty_empty] at hchild
            exact absurd rfl hchild
      · rw [if_neg hempty, if_neg]
        rw [Bool.not_eq_true, isEmpty_eq_false_iff] at hempty ⊢
        exact updateChild_ne_empty hrest hempty _

theorem getPriority_updateChild (hpath : DatabaseKey.priority ∉ path) (hne : path ≠ [])
    (node newChildNode : FNode K V) (hnode : node.getPriority = empty) :
    (node.updateChild path newChildNode).getPriority = empty := by
  cases path with
  | nil => exact absurd rfl hne
  | cons front rest =>
      have hfront : front ≠ DatabaseKey.priority := fun heq => hpath (heq ▸ List.mem_cons_self)
      rw [updateChild_cons hfront, getPriority_updateImmediateChild hfront, hnode, ite_self]

theorem leafAt_updateChild (hpath : DatabaseKey.priority ∉ path) (hother : DatabaseKey.priority ∉ other)
    (node newChildNode : FNode K V) : (node.updateChild path newChildNode).leafAt other =
      if path <+: other then newChildNode.leafAt (FPath.relativePath path other)
      else if other <+: path ∧ newChildNode.isEmpty = false then none
      else node.leafAt other := by
  by_cases habove : path <+: other
  · obtain ⟨rest, rfl⟩ := habove
    rw [if_pos (List.prefix_append path rest), FPath.relativePath_append, leafAt,
      getChild_updateChild_above hpath, leafAt]
  rw [if_neg habove]
  by_cases hbelow : other <+: path
  · obtain ⟨rest, rfl⟩ := hbelow
    have hrest : rest ≠ [] := by
      rintro rfl
      exact habove (by simp)
    have hfree : DatabaseKey.priority ∉ rest := fun hmem => hpath (List.mem_append_right _ hmem)
    rw [leafAt, getChild_updateChild_append hother, leafValue_updateChild hfree hrest]
    cases newChildNode.isEmpty with
    | true => simp [leafAt]
    | false => simp
  · rw [if_neg fun h => hbelow h.1, leafAt, getChild_updateChild_beside hother habove hbelow, leafAt]

theorem PriorityFree.updateChild (h : node.PriorityFree) (hnew : newChildNode.PriorityFree)
    (hpath : DatabaseKey.priority ∉ path) : (node.updateChild path newChildNode).PriorityFree := by
  intro other hother
  by_cases habove : path <+: other
  · obtain ⟨rest, rfl⟩ := habove
    rw [getChild_updateChild_above hpath]
    exact hnew rest fun hmem => hother (List.mem_append_right _ hmem)
  by_cases hbelow : other <+: path
  · obtain ⟨rest, rfl⟩ := hbelow
    have hrest : rest ≠ [] := by
      rintro rfl
      exact habove (by simp)
    have hfree : DatabaseKey.priority ∉ rest := fun hmem => hpath (List.mem_append_right _ hmem)
    rw [getChild_updateChild_append hother]
    exact getPriority_updateChild hfree hrest _ _ (h other hother)
  · rw [getChild_updateChild_beside hother habove hbelow]
    exact h other hother

end FNode

end FirebaseSwift.Database
