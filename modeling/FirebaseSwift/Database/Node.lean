import FirebaseSwift.Database.Path

/-! Nodes, the immutable snapshots of database data. A node is empty, a leaf with a value, or has
children; leaves and nodes with children may have a priority, which is again a node. `NodeData` is
the tree that the client builds. `FNode` keeps with it that the tree is canonical: children are
sorted and not empty, and a node without children is the empty node. Equal data then is the same
node, and a node is determined by its leaf value, its priority and its immediate children. Every
operation is described by what it does to these three. -/

namespace FirebaseSwift.Database

open SortedDictionary

inductive NodeData (K V : Type) where
  | empty
  | leaf (value : V) (priority : NodeData K V)
  | children (children : List (K × NodeData K V)) (priority : NodeData K V)

namespace NodeData

variable {K V : Type}

def isEmpty : NodeData K V → Bool
  | empty => true
  | leaf _ _ => false
  | .children dict _ => dict.isEmpty

def isLeafNode : NodeData K V → Bool
  | leaf _ _ => true
  | _ => false

def leafValue : NodeData K V → Option V
  | leaf value _ => some value
  | _ => none

def childList : NodeData K V → List (K × NodeData K V)
  | .children dict _ => dict
  | _ => []

/-- The empty node stands for a missing priority. -/
def getPriority : NodeData K V → NodeData K V
  | empty => empty
  | leaf _ priority => priority
  | .children _ priority => priority

def updatePriority (node priority : NodeData K V) : NodeData K V :=
  match node with
  | .empty => .empty
  | .leaf value _ => .leaf value priority
  | .children dict _ => .children dict priority

@[simp] theorem leafValue_empty : (empty : NodeData K V).leafValue = none := rfl

variable (dict : List (K × NodeData K V))

@[simp] theorem leafValue_children (priority : NodeData K V) : (children dict priority).leafValue = none := rfl

@[simp] theorem childList_empty : (empty : NodeData K V).childList = [] := rfl

@[simp] theorem childList_leaf (value : V) (priority : NodeData K V) : (leaf value priority).childList = [] := rfl

@[simp] theorem childList_children (priority : NodeData K V) : (children dict priority).childList = dict := rfl

@[simp] theorem leafValue_updatePriority (node priority : NodeData K V) :
    (node.updatePriority priority).leafValue = node.leafValue := by
  cases node <;> rfl

@[simp] theorem childList_updatePriority (node priority : NodeData K V) :
    (node.updatePriority priority).childList = node.childList := by
  cases node <;> rfl

variable [DatabaseKey K]

def getImmediateChild (node : NodeData K V) (childKey : K) : NodeData K V :=
  if childKey = DatabaseKey.priority then node.getPriority
  else
    match node with
    | .empty => .empty
    | .leaf _ _ => .empty
    | .children dict _ => (get childKey dict).getD .empty

def getChild (node : NodeData K V) : FPath K → NodeData K V
  | [] => node
  | front :: rest =>
      if front = DatabaseKey.priority then node.getPriority
      else
        match node with
        | .empty => .empty
        | .leaf _ _ => .empty
        | .children dict priority => getChild ((children dict priority).getImmediateChild front) rest

/-- The private overload of `updateImmediateChild` that is given the children. -/
def updateChildren (childKey : K) (newChildNode : NodeData K V) (dict : List (K × NodeData K V))
    (priority : NodeData K V) : NodeData K V :=
  let newChildren :=
    if newChildNode.isEmpty then remove childKey dict
    else set DatabaseKey.compareKey childKey newChildNode dict
  if newChildren.isEmpty then .empty else .children newChildren priority

def updateImmediateChild (node : NodeData K V) (childKey : K) (newChildNode : NodeData K V) :
    NodeData K V :=
  if childKey = DatabaseKey.priority then node.updatePriority newChildNode
  else
    match node with
    | .empty => updateChildren childKey newChildNode [] .empty
    | .children dict priority => updateChildren childKey newChildNode dict priority
    | .leaf value priority =>
        if newChildNode.isEmpty then .leaf value priority
        else (updateChildren childKey newChildNode [] .empty).updatePriority priority

def updateChild (node : NodeData K V) : FPath K → NodeData K V → NodeData K V
  | [], newChildNode => newChildNode
  | front :: rest, newChildNode =>
      match node with
      | .leaf value priority =>
          if newChildNode.isEmpty && front ≠ DatabaseKey.priority then .leaf value priority
          else
            (leaf value priority).updateImmediateChild front (empty.updateChild rest newChildNode)
      | .children dict priority =>
          (children dict priority).updateImmediateChild front
            (((children dict priority).getImmediateChild front).updateChild rest newChildNode)
      | .empty =>
          empty.updateImmediateChild front
            ((empty.getImmediateChild front).updateChild rest newChildNode)

mutual

def wellFormed : NodeData K V → Bool
  | empty => true
  | leaf _ priority => wellFormed priority
  | .children dict priority =>
      !dict.isEmpty && decide (Sorted DatabaseKey.compareKey dict) && wellFormedChildren dict &&
        wellFormed priority

def wellFormedChildren : List (K × NodeData K V) → Bool
  | [] => true
  | (key, child) :: rest =>
      decide (key ≠ DatabaseKey.priority) && !child.isEmpty && wellFormed child &&
        wellFormedChildren rest

end

variable {children : List (K × NodeData K V)} {priority node : NodeData K V} {childKey : K}

theorem wellFormedChildren_iff : wellFormedChildren children = true ↔
      ∀ e ∈ children, e.1 ≠ DatabaseKey.priority ∧ e.2.isEmpty = false ∧ wellFormed e.2 = true := by
  induction children with
  | nil => simp [wellFormedChildren]
  | cons e rest ih =>
      obtain ⟨key, child⟩ := e
      simp only [wellFormedChildren, Bool.and_eq_true, ih, List.forall_mem_cons, decide_eq_true_eq,
        Bool.not_eq_true']
      tauto

theorem wellFormed_children_iff : wellFormed (NodeData.children children priority) = true ↔
      children ≠ [] ∧ Sorted DatabaseKey.compareKey children ∧
        (∀ e ∈ children, e.1 ≠ DatabaseKey.priority ∧ e.2.isEmpty = false ∧ wellFormed e.2 = true) ∧
          wellFormed priority = true := by
  simp only [wellFormed, Bool.and_eq_true, wellFormedChildren_iff, decide_eq_true_eq,
    Bool.not_eq_true', List.isEmpty_eq_false_iff, and_assoc]

theorem getImmediateChild_eq (hkey : childKey ≠ DatabaseKey.priority) (node : NodeData K V) :
    node.getImmediateChild childKey = (get childKey node.childList).getD .empty := by
  cases node <;> simp [getImmediateChild, hkey, childList]

@[simp] theorem leafValue_updateChildren (childKey : K) (newChildNode : NodeData K V)
    (dict : List (K × NodeData K V)) (priority : NodeData K V) :
    (updateChildren childKey newChildNode dict priority).leafValue = none := by
  simp only [updateChildren]
  split_ifs <;> rfl

theorem childList_updateChildren (childKey : K) (newChildNode : NodeData K V)
    (dict : List (K × NodeData K V)) (priority : NodeData K V) :
    (updateChildren childKey newChildNode dict priority).childList =
      if newChildNode.isEmpty then remove childKey dict
      else set DatabaseKey.compareKey childKey newChildNode dict := by
  simp only [updateChildren]
  split_ifs with hempty hnil hnil <;> simp_all [childList]

theorem getPriority_updateChildren (childKey : K) (newChildNode : NodeData K V)
    (dict : List (K × NodeData K V)) (priority : NodeData K V) :
    (updateChildren childKey newChildNode dict priority).getPriority =
      if (updateChildren childKey newChildNode dict priority).isEmpty then .empty else priority := by
  simp only [updateChildren]
  split_ifs <;> simp_all [getPriority, isEmpty]

theorem leafValue_updateImmediateChild (hkey : childKey ≠ DatabaseKey.priority) (node newChildNode : NodeData K V) :
    (node.updateImmediateChild childKey newChildNode).leafValue =
      if newChildNode.isEmpty then node.leafValue else none := by
  cases node with
  | empty => simp [updateImmediateChild, hkey]
  | leaf value priority =>
      simp only [updateImmediateChild, if_neg hkey]
      split_ifs
      · rfl
      · simp
  | children dict priority => simp [updateImmediateChild, hkey]

theorem childList_updateImmediateChild (hkey : childKey ≠ DatabaseKey.priority) (node newChildNode : NodeData K V) :
    (node.updateImmediateChild childKey newChildNode).childList =
      if newChildNode.isEmpty then remove childKey node.childList
      else set DatabaseKey.compareKey childKey newChildNode node.childList := by
  cases node with
  | empty => simp [updateImmediateChild, hkey, childList_updateChildren]
  | leaf value priority =>
      simp only [updateImmediateChild, if_neg hkey]
      split_ifs with hempty
      · rfl
      · simp [childList_updateChildren, hempty]
  | children dict priority => simp [updateImmediateChild, hkey, childList_updateChildren]

theorem getPriority_updateImmediateChild (hkey : childKey ≠ DatabaseKey.priority)
    (node newChildNode : NodeData K V) : (node.updateImmediateChild childKey newChildNode).getPriority =
      if (node.updateImmediateChild childKey newChildNode).isEmpty then .empty
      else node.getPriority := by
  cases node with
  | empty =>
      simp only [updateImmediateChild, if_neg hkey]
      rw [getPriority_updateChildren]
      rfl
  | leaf value priority =>
      simp only [updateImmediateChild, if_neg hkey]
      by_cases hempty : newChildNode.isEmpty = true
      · rw [if_pos hempty]
        rfl
      · have hchildren : updateChildren childKey newChildNode [] empty =
            children (set DatabaseKey.compareKey childKey newChildNode []) empty := by
          rw [updateChildren, if_neg hempty]
          simp only [List.isEmpty_iff, set_ne_nil, if_false]
        rw [if_neg hempty, hchildren]
        rfl
  | children dict priority =>
      simp only [updateImmediateChild, if_neg hkey]
      rw [getPriority_updateChildren]
      rfl

theorem wellFormed_getPriority (hwf : node.wellFormed = true) : node.getPriority.wellFormed = true := by
  cases node with
  | empty => exact hwf
  | leaf value priority => simpa [wellFormed, getPriority] using hwf
  | children dict priority => exact (wellFormed_children_iff.mp hwf).2.2.2

theorem wellFormed_updatePriority (hwf : node.wellFormed = true) (hpriority : priority.wellFormed = true) :
    (node.updatePriority priority).wellFormed = true := by
  cases node with
  | empty => exact hwf
  | leaf value _ => simpa [updatePriority, wellFormed] using hpriority
  | children dict _ =>
      obtain ⟨hne, hsorted, hall, _⟩ := wellFormed_children_iff.mp hwf
      exact wellFormed_children_iff.mpr ⟨hne, hsorted, hall, hpriority⟩

theorem wellFormed_getImmediateChild (hwf : node.wellFormed = true) (childKey : K) :
    (node.getImmediateChild childKey).wellFormed = true := by
  unfold getImmediateChild
  split_ifs
  · exact wellFormed_getPriority hwf
  · cases node with
    | empty => exact hwf
    | leaf value priority => simp [wellFormed]
    | children dict priority =>
        cases hget : get childKey dict with
        | none => simp [hget, wellFormed]
        | some child =>
            simpa [hget] using ((wellFormed_children_iff.mp hwf).2.2.1 _ (mem_of_get hget)).2.2

theorem wellFormed_getChild (path : FPath K) (hwf : node.wellFormed = true) :
    (node.getChild path).wellFormed = true := by
  induction path generalizing node with
  | nil => exact hwf
  | cons front rest ih =>
      unfold getChild
      split_ifs
      · exact wellFormed_getPriority hwf
      · cases node with
        | empty => exact hwf
        | leaf value priority => simp [wellFormed]
        | children dict priority => exact ih (wellFormed_getImmediateChild hwf front)

variable {newChildNode : NodeData K V}

theorem wellFormed_updateChildren {dict : List (K × NodeData K V)} (hkey : childKey ≠ DatabaseKey.priority)
    (hnew : newChildNode.wellFormed = true) (hpriority : priority.wellFormed = true)
    (hsorted : Sorted DatabaseKey.compareKey dict)
    (hall : ∀ e ∈ dict, e.1 ≠ DatabaseKey.priority ∧ e.2.isEmpty = false ∧ wellFormed e.2 = true) :
    (updateChildren childKey newChildNode dict priority).wellFormed = true := by
  rw [updateChildren]
  by_cases hempty : newChildNode.isEmpty = true
  · simp only [if_pos hempty]
    split_ifs with hnil
    · simp [wellFormed]
    · exact wellFormed_children_iff.mpr ⟨by simpa using hnil, hsorted.remove childKey,
        fun e he => hall e (mem_remove.mp he).1, hpriority⟩
  · simp only [if_neg hempty, List.isEmpty_iff, set_ne_nil, if_false]
    refine wellFormed_children_iff.mpr ⟨set_ne_nil _ _ _ _, hsorted.set _ childKey newChildNode,
      fun e he => ?_, hpriority⟩
    rcases mem_set _ he with rfl | he
    · exact ⟨hkey, by simpa using hempty, hnew⟩
    · exact hall e he

theorem wellFormed_updateImmediateChild (hwf : node.wellFormed = true) (childKey : K)
    (hnew : newChildNode.wellFormed = true) :
    (node.updateImmediateChild childKey newChildNode).wellFormed = true := by
  have hempty : (empty : NodeData K V).wellFormed = true := by simp [wellFormed]
  unfold updateImmediateChild
  by_cases hkey : childKey = DatabaseKey.priority
  · rw [if_pos hkey]
    exact wellFormed_updatePriority hwf hnew
  · rw [if_neg hkey]
    cases node with
    | empty => exact wellFormed_updateChildren hkey hnew hempty (sorted_nil _) (by simp)
    | leaf value priority =>
        simp only
        split_ifs
        · exact hwf
        · exact wellFormed_updatePriority
            (wellFormed_updateChildren hkey hnew hempty (sorted_nil _) (by simp))
            (wellFormed_getPriority hwf)
    | children dict priority =>
        obtain ⟨_, hsorted, hall, hpriority⟩ := wellFormed_children_iff.mp hwf
        exact wellFormed_updateChildren hkey hnew hpriority hsorted hall

theorem wellFormed_updateChild (hwf : node.wellFormed = true) (path : FPath K)
    (hnew : newChildNode.wellFormed = true) : (node.updateChild path newChildNode).wellFormed = true := by
  induction path generalizing node with
  | nil => simpa [updateChild] using hnew
  | cons front rest ih =>
      cases node with
      | empty =>
          exact wellFormed_updateImmediateChild hwf front (ih (wellFormed_getImmediateChild hwf front))
      | leaf value priority =>
          simp only [updateChild]
          split_ifs
          · exact hwf
          · exact wellFormed_updateImmediateChild hwf front (ih (by simp [wellFormed]))
      | children dict priority =>
          exact wellFormed_updateImmediateChild hwf front (ih (wellFormed_getImmediateChild hwf front))

end NodeData

/-- A canonical node. -/
@[ext]
structure FNode (K V : Type) [DatabaseKey K] where
  data : NodeData K V
  wellFormed : data.wellFormed = true

namespace FNode

variable {K V : Type} [DatabaseKey K]

def empty : FNode K V := ⟨.empty, by simp [NodeData.wellFormed]⟩

def leaf (value : V) (priority : FNode K V) : FNode K V :=
  ⟨.leaf value priority.data, by simpa [NodeData.wellFormed] using priority.wellFormed⟩

def isEmpty (node : FNode K V) : Bool := node.data.isEmpty

def isLeafNode (node : FNode K V) : Bool := node.data.isLeafNode

def leafValue (node : FNode K V) : Option V := node.data.leafValue

def getPriority (node : FNode K V) : FNode K V :=
  ⟨node.data.getPriority, NodeData.wellFormed_getPriority node.wellFormed⟩

def updatePriority (node priority : FNode K V) : FNode K V :=
  ⟨node.data.updatePriority priority.data,
    NodeData.wellFormed_updatePriority node.wellFormed priority.wellFormed⟩

def getImmediateChild (node : FNode K V) (childKey : K) : FNode K V :=
  ⟨node.data.getImmediateChild childKey,
    NodeData.wellFormed_getImmediateChild node.wellFormed childKey⟩

def getChild (node : FNode K V) (path : FPath K) : FNode K V :=
  ⟨node.data.getChild path, NodeData.wellFormed_getChild path node.wellFormed⟩

def updateImmediateChild (node : FNode K V) (childKey : K) (newChildNode : FNode K V) : FNode K V :=
  ⟨node.data.updateImmediateChild childKey newChildNode.data,
    NodeData.wellFormed_updateImmediateChild node.wellFormed childKey newChildNode.wellFormed⟩

def updateChild (node : FNode K V) (path : FPath K) (newChildNode : FNode K V) : FNode K V :=
  ⟨node.data.updateChild path newChildNode.data,
    NodeData.wellFormed_updateChild node.wellFormed path newChildNode.wellFormed⟩

def hasChild (node : FNode K V) (childKey : K) : Bool := !(node.getImmediateChild childKey).isEmpty

/-- The children with their keys in the order of the node, without the priority. -/
def enumerateChildren (node : FNode K V) : List (K × FNode K V) :=
  node.data.childList.map fun e => (e.1, node.getImmediateChild e.1)

/-! ### What a node is determined by -/

theorem isEmpty_iff {node : FNode K V} : node.isEmpty = true ↔ node = empty := by
  obtain ⟨data, hwf⟩ := node
  cases data with
  | empty => simp [isEmpty, NodeData.isEmpty, empty]
  | leaf value priority => simp [isEmpty, NodeData.isEmpty, empty, FNode.ext_iff]
  | children dict priority =>
      have hne := (NodeData.wellFormed_children_iff.mp hwf).1
      simp [isEmpty, NodeData.isEmpty, empty, hne, FNode.ext_iff]

theorem isEmpty_eq_false_iff {node : FNode K V} : node.isEmpty = false ↔ node ≠ empty := by
  rw [Ne, ← isEmpty_iff, Bool.not_eq_true]

@[simp] theorem isEmpty_empty : (empty : FNode K V).isEmpty = true := rfl

@[simp] theorem leafValue_empty : (empty : FNode K V).leafValue = none := rfl

@[simp] theorem getPriority_empty : (empty : FNode K V).getPriority = empty := rfl

variable (node : FNode K V) {childKey : K}

@[simp] theorem getImmediateChild_priority : node.getImmediateChild DatabaseKey.priority = node.getPriority := by
  simp [getImmediateChild, getPriority, NodeData.getImmediateChild]

@[simp] theorem getImmediateChild_empty (childKey : K) : (empty : FNode K V).getImmediateChild childKey = empty := by
  simp [getImmediateChild, empty, NodeData.getImmediateChild, NodeData.getPriority]

/-- A leaf has no children. -/
theorem getImmediateChild_of_leafValue {node : FNode K V} {value : V} (hleaf : node.leafValue = some value)
    (hkey : childKey ≠ DatabaseKey.priority) : node.getImmediateChild childKey = empty := by
  obtain ⟨data, hwf⟩ := node
  cases data with
  | empty => cases hleaf
  | leaf value priority => simp [getImmediateChild, empty, NodeData.getImmediateChild, hkey]
  | children dict priority => cases hleaf

/-- In a canonical node a key has a child exactly when the child there is not empty. -/
theorem get_childList (childKey : K) : get childKey node.data.childList =
      if childKey = DatabaseKey.priority ∨ (node.getImmediateChild childKey).isEmpty = true then none
      else some (node.getImmediateChild childKey).data := by
  obtain ⟨data, hwf⟩ := node
  have hall : ∀ e ∈ data.childList, e.1 ≠ DatabaseKey.priority ∧ e.2.isEmpty = false := by
    cases data with
    | empty => simp [NodeData.childList]
    | leaf value priority => simp [NodeData.childList]
    | children dict priority =>
        intro e he
        have := (NodeData.wellFormed_children_iff.mp hwf).2.2.1 e he
        exact ⟨this.1, this.2.1⟩
  by_cases hkey : childKey = DatabaseKey.priority
  · rw [if_pos (Or.inl hkey), get_eq_none_iff]
    exact fun e he => hkey ▸ (hall e he).1
  · simp only [getImmediateChild, isEmpty, NodeData.getImmediateChild_eq hkey, hkey, false_or]
    cases hget : get childKey data.childList with
    | none => simp [NodeData.isEmpty]
    | some child => simp [show child.isEmpty = false from (hall _ (mem_of_get hget)).2]

theorem eq_empty_of_observations {node : FNode K V} (hleaf : node.leafValue = none)
    (hchildren : ∀ key, key ≠ DatabaseKey.priority → node.getImmediateChild key = empty) : node = empty := by
  obtain ⟨data, hwf⟩ := node
  cases data with
  | empty => rfl
  | leaf value priority => cases hleaf
  | children dict priority =>
      exfalso
      obtain ⟨hne, hsorted, hall, _⟩ := NodeData.wellFormed_children_iff.mp hwf
      cases dict with
      | nil => exact hne rfl
      | cons e rest =>
          obtain ⟨key, child⟩ := e
          obtain ⟨hkey, hchild, _⟩ := hall (key, child) List.mem_cons_self
          have := congrArg FNode.data (hchildren key hkey)
          simp only [getImmediateChild, NodeData.getImmediateChild_eq hkey, NodeData.childList,
            get_cons, if_pos, Option.getD_some, empty] at this
          rw [this] at hchild
          cases hchild

theorem eq_of_observations {node node' : FNode K V} (hleaf : node.leafValue = node'.leafValue)
    (hpriority : node.getPriority = node'.getPriority) (hchildren : ∀ key, key ≠ DatabaseKey.priority →
      node.getImmediateChild key = node'.getImmediateChild key) : node = node' := by
  by_cases hempty : node = empty
  · subst hempty
    refine (eq_empty_of_observations hleaf.symm fun key hkey => ?_).symm
    rw [← hchildren key hkey, getImmediateChild_empty]
  by_cases hempty' : node' = empty
  · subst hempty'
    refine eq_empty_of_observations hleaf fun key hkey => ?_
    rw [hchildren key hkey, getImmediateChild_empty]
  obtain ⟨data, hwf⟩ := node
  obtain ⟨data', hwf'⟩ := node'
  cases data with
  | empty => exact absurd rfl hempty
  | leaf value priority =>
      cases data' with
      | empty => exact absurd rfl hempty'
      | leaf value' priority' =>
          simp only [leafValue, NodeData.leafValue, Option.some.injEq, getPriority,
            NodeData.getPriority, FNode.mk.injEq] at hleaf hpriority
          simp only [hleaf, hpriority]
      | children dict' priority' => cases hleaf
  | children dict priority =>
      cases data' with
      | empty => exact absurd rfl hempty'
      | leaf value' priority' => cases hleaf
      | children dict' priority' =>
          have hdict : dict = dict' := by
            refine (NodeData.wellFormed_children_iff.mp hwf).2.1.ext
              (NodeData.wellFormed_children_iff.mp hwf').2.1 fun key => ?_
            have hget := get_childList ⟨.children dict priority, hwf⟩ key
            have hget' := get_childList ⟨.children dict' priority', hwf'⟩ key
            simp only [NodeData.childList] at hget hget'
            rw [hget, hget']
            by_cases hkey : key = DatabaseKey.priority
            · simp [hkey]
            · rw [hchildren key hkey]
          simp only [getPriority, NodeData.getPriority, FNode.mk.injEq] at hpriority
          simp only [hdict, hpriority]

/-! ### What the operations do -/

@[simp] theorem leafValue_leaf (value : V) (priority : FNode K V) :
    (leaf value priority).leafValue = some value := rfl

@[simp] theorem getPriority_leaf (value : V) (priority : FNode K V) :
    (leaf value priority).getPriority = priority := rfl

@[simp] theorem leafValue_updatePriority (priority : FNode K V) :
    (node.updatePriority priority).leafValue = node.leafValue :=
  NodeData.leafValue_updatePriority node.data priority.data

theorem getPriority_updatePriority (priority : FNode K V) :
    (node.updatePriority priority).getPriority = if node.isEmpty then empty else priority := by
  obtain ⟨data, hwf⟩ := node
  cases data with
  | empty => rfl
  | leaf value _ => rfl
  | children dict _ =>
      have hne := (NodeData.wellFormed_children_iff.mp hwf).1
      simp [isEmpty, NodeData.isEmpty, hne, getPriority, updatePriority, NodeData.updatePriority,
        NodeData.getPriority]

theorem getImmediateChild_updatePriority (hkey : childKey ≠ DatabaseKey.priority) (node priority : FNode K V) :
    (node.updatePriority priority).getImmediateChild childKey = node.getImmediateChild childKey := by
  obtain ⟨data, hwf⟩ := node
  cases data <;>
    simp [getImmediateChild, updatePriority, NodeData.updatePriority, NodeData.getImmediateChild, hkey]

theorem leafValue_updateImmediateChild (hkey : childKey ≠ DatabaseKey.priority) (node newChildNode : FNode K V) :
    (node.updateImmediateChild childKey newChildNode).leafValue =
      if newChildNode.isEmpty then node.leafValue else none :=
  NodeData.leafValue_updateImmediateChild hkey node.data newChildNode.data

theorem getImmediateChild_updateImmediateChild {key : K} (hkey : childKey ≠ DatabaseKey.priority)
    (hkey' : key ≠ DatabaseKey.priority) (node newChildNode : FNode K V) :
    (node.updateImmediateChild childKey newChildNode).getImmediateChild key =
      if key = childKey then newChildNode else node.getImmediateChild key := by
  ext1
  simp only [getImmediateChild, updateImmediateChild, NodeData.getImmediateChild_eq hkey',
    NodeData.childList_updateImmediateChild hkey]
  by_cases hempty : newChildNode.isEmpty = true
  · have hdata : newChildNode.data.isEmpty = true := hempty
    rw [if_pos hdata, get_remove, isEmpty_iff.mp hempty]
    split_ifs <;> rfl
  · have hdata : ¬newChildNode.data.isEmpty = true := hempty
    rw [if_neg hdata, get_set]
    split_ifs <;> rfl

theorem getPriority_updateImmediateChild (hkey : childKey ≠ DatabaseKey.priority) (node newChildNode : FNode K V) :
    (node.updateImmediateChild childKey newChildNode).getPriority =
      if (node.updateImmediateChild childKey newChildNode).isEmpty then empty
      else node.getPriority := by
  ext1
  have hdata := NodeData.getPriority_updateImmediateChild hkey node.data newChildNode.data
  rw [apply_ite FNode.data]
  exact hdata

variable (newChildNode : FNode K V)

@[simp] theorem updateImmediateChild_priority : node.updateImmediateChild DatabaseKey.priority newChildNode =
      node.updatePriority newChildNode := by
  simp [updateImmediateChild, updatePriority, NodeData.updateImmediateChild]

@[simp] theorem updatePriority_empty (priority : FNode K V) :
    (empty : FNode K V).updatePriority priority = empty := rfl

@[simp] theorem getChild_nil : node.getChild [] = node := by
  simp [getChild, NodeData.getChild]

@[simp] theorem updateChild_nil : node.updateChild [] newChildNode = newChildNode := by
  simp [updateChild, NodeData.updateChild]

theorem getChild_priority_cons (rest : FPath K) :
    node.getChild (DatabaseKey.priority :: rest) = node.getPriority := by
  simp [getChild, getPriority, NodeData.getChild]

@[simp] theorem getChild_empty (path : FPath K) : (empty : FNode K V).getChild path = empty := by
  cases path with
  | nil => simp
  | cons front rest => simp [getChild, empty, NodeData.getChild, NodeData.getPriority]

theorem getChild_cons {front : K} (hfront : front ≠ DatabaseKey.priority) (rest : FPath K) (node : FNode K V) :
    node.getChild (front :: rest) = (node.getImmediateChild front).getChild rest := by
  obtain ⟨data, hwf⟩ := node
  have hempty : (NodeData.empty : NodeData K V).getChild rest = .empty :=
    congrArg FNode.data (getChild_empty (K := K) (V := V) rest)
  ext1
  cases data <;> simp [getChild, getImmediateChild, NodeData.getChild, NodeData.getImmediateChild, hfront, hempty]

theorem updateImmediateChild_self (hkey : childKey ≠ DatabaseKey.priority) (node : FNode K V) :
    node.updateImmediateChild childKey (node.getImmediateChild childKey) = node := by
  have hleaf : (node.updateImmediateChild childKey (node.getImmediateChild childKey)).leafValue =
      node.leafValue := by
    rw [leafValue_updateImmediateChild hkey]
    split_ifs with hempty
    · rfl
    · cases hvalue : node.leafValue with
      | none => rfl
      | some value =>
          rw [getImmediateChild_of_leafValue hvalue hkey] at hempty
          exact absurd isEmpty_empty hempty
  have hchildren : ∀ key, key ≠ DatabaseKey.priority →
      (node.updateImmediateChild childKey (node.getImmediateChild childKey)).getImmediateChild key =
        node.getImmediateChild key := by
    intro key hkey'
    rw [getImmediateChild_updateImmediateChild hkey hkey']
    split_ifs with heq
    · rw [heq]
    · rfl
  refine eq_of_observations hleaf ?_ hchildren
  rw [getPriority_updateImmediateChild hkey]
  split_ifs with hempty
  · rw [isEmpty_iff] at hempty
    have : node = empty := by
      refine eq_empty_of_observations ?_ fun key hkey' => ?_
      · rw [← hleaf, hempty, leafValue_empty]
      · rw [← hchildren key hkey', hempty, getImmediateChild_empty]
    rw [this, getPriority_empty]
  · rfl

@[simp] theorem updateChild_empty_empty (path : FPath K) : (empty : FNode K V).updateChild path empty = empty := by
  induction path with
  | nil => simp
  | cons front rest ih =>
      have hcons : (empty : FNode K V).updateChild (front :: rest) empty =
          (empty : FNode K V).updateImmediateChild front
            (((empty : FNode K V).getImmediateChild front).updateChild rest empty) := rfl
      rw [hcons, getImmediateChild_empty, ih]
      by_cases hfront : front = DatabaseKey.priority
      · rw [hfront, updateImmediateChild_priority, updatePriority_empty]
      · simpa using updateImmediateChild_self hfront (empty : FNode K V)

/-- Below a leaf nothing is removed, so on every node the child at the first key is updated. -/
theorem updateChild_cons {front : K} (hfront : front ≠ DatabaseKey.priority) (rest : FPath K)
    (node newChildNode : FNode K V) : node.updateChild (front :: rest) newChildNode =
      node.updateImmediateChild front ((node.getImmediateChild front).updateChild rest newChildNode) := by
  obtain ⟨data, hwf⟩ := node
  cases data with
  | empty => rfl
  | children dict priority => rfl
  | leaf value priority =>
      have hchild : (⟨.leaf value priority, hwf⟩ : FNode K V).getImmediateChild front = empty :=
        getImmediateChild_of_leafValue rfl hfront
      have hself := updateImmediateChild_self hfront (⟨.leaf value priority, hwf⟩ : FNode K V)
      rw [hchild] at hself ⊢
      by_cases hempty : newChildNode.isEmpty = true
      · rw [isEmpty_iff.mp hempty, updateChild_empty_empty, hself]
        ext1
        simp [updateChild, NodeData.updateChild, hfront, empty, NodeData.isEmpty]
      · have hdata : newChildNode.data.isEmpty = false := by simpa [isEmpty] using hempty
        ext1
        simp [updateChild, NodeData.updateChild, hdata, updateImmediateChild, empty]

/-- A path ends with the key of the priority. -/
theorem updateChild_priority :
    node.updateChild [DatabaseKey.priority] newChildNode = node.updatePriority newChildNode := by
  obtain ⟨data, hwf⟩ := node
  ext1
  cases data <;>
    simp [updateChild, updatePriority, NodeData.updateChild, NodeData.updateImmediateChild]

/-- Below the key of the priority a path addresses the priority of the node. -/
theorem updateChild_priority_cons (rest : FPath K) : node.updateChild (DatabaseKey.priority :: rest) newChildNode =
      node.updatePriority ((if node.leafValue.isSome then empty else node.getPriority).updateChild
        rest newChildNode) := by
  obtain ⟨data, hwf⟩ := node
  ext1
  cases data <;> simp [updateChild, updatePriority, NodeData.updateChild,
    NodeData.updateImmediateChild, NodeData.updatePriority, NodeData.getImmediateChild, leafValue,
    NodeData.leafValue, getPriority, empty]

/-! ### Paths without a priority -/

variable {path : FPath K}

theorem getChild_append (hpath : DatabaseKey.priority ∉ path) (rest : FPath K) (node : FNode K V) :
    node.getChild (path ++ rest) = (node.getChild path).getChild rest := by
  induction path generalizing node with
  | nil => simp
  | cons front path ih =>
      obtain ⟨hfront, hpath⟩ := not_or.mp (mt List.mem_cons.mpr hpath)
      rw [List.cons_append, getChild_cons (Ne.symm hfront), getChild_cons (Ne.symm hfront), ih hpath]

/-- A write at the path or below, as seen from the path. -/
theorem getChild_updateChild_append (hpath : DatabaseKey.priority ∉ path) (rest : FPath K)
    (node newChildNode : FNode K V) : (node.updateChild (path ++ rest) newChildNode).getChild path =
      (node.getChild path).updateChild rest newChildNode := by
  induction path generalizing node with
  | nil => simp
  | cons front path ih =>
      obtain ⟨hfront, hpath⟩ := not_or.mp (mt List.mem_cons.mpr hpath)
      rw [List.cons_append, updateChild_cons (Ne.symm hfront), getChild_cons (Ne.symm hfront),
        getChild_cons (Ne.symm hfront),
        getImmediateChild_updateImmediateChild (Ne.symm hfront) (Ne.symm hfront), if_pos rfl, ih hpath]

/-- A write above the path, as seen from the path. -/
theorem getChild_updateChild_above (hpath : DatabaseKey.priority ∉ path) (rest : FPath K)
    (node newChildNode : FNode K V) :
    (node.updateChild path newChildNode).getChild (path ++ rest) = newChildNode.getChild rest := by
  have hwrite := getChild_updateChild_append hpath [] node newChildNode
  rw [List.append_nil, updateChild_nil] at hwrite
  rw [getChild_append hpath, hwrite]

/-- A write beside the path does not change what is there. -/
theorem getChild_updateChild_beside {other : FPath K} (hpath : DatabaseKey.priority ∉ path)
    (habove : ¬other <+: path) (hbelow : ¬path <+: other) (node newChildNode : FNode K V) :
    (node.updateChild other newChildNode).getChild path = node.getChild path := by
  induction path generalizing node other with
  | nil => exact absurd List.nil_prefix hbelow
  | cons front path ih =>
      obtain ⟨hfront, hpath⟩ := not_or.mp (mt List.mem_cons.mpr hpath)
      cases other with
      | nil => exact absurd List.nil_prefix habove
      | cons key other =>
          rw [getChild_cons (Ne.symm hfront), getChild_cons (Ne.symm hfront)]
          by_cases hkey : key = DatabaseKey.priority
          · rw [hkey, updateChild_priority_cons, getImmediateChild_updatePriority (Ne.symm hfront)]
          · rw [updateChild_cons hkey, getImmediateChild_updateImmediateChild hkey (Ne.symm hfront)]
            split_ifs with heq
            · subst heq
              exact ih hpath (fun hle => habove (List.cons_prefix_cons.mpr ⟨rfl, hle⟩))
                (fun hle => hbelow (List.cons_prefix_cons.mpr ⟨rfl, hle⟩)) _
            · rfl

end FNode

end FirebaseSwift.Database
