import FirebaseSwift.Database.Path

/-! The tree of the transaction queues. A handle to a node of the tree holds a copy of the node and of
every node above it, up to the root. What is written to the handle is copied back up the chain, but a
node takes over a child only when the child appears or disappears: the new contents of a child that is
there already are dropped. This file says exactly when a value that is set arrives in the root. -/

namespace FirebaseSwift.Database

open SortedDictionary

/-- `FTreeNode`. Its children are a dictionary, kept in key order here. -/
inductive FTreeNode (K α : Type) where
  | node (children : List (K × FTreeNode K α)) (childCount : Int) (value : Option α)

namespace FTreeNode

variable {K α : Type}

def children : FTreeNode K α → List (K × FTreeNode K α)
  | node children _ _ => children

def childCount : FTreeNode K α → Int
  | node _ childCount _ => childCount

def value : FTreeNode K α → Option α
  | node _ _ value => value

variable (children : List (K × FTreeNode K α))
variable (childCount : Int)

@[simp] theorem children_node (value : Option α) : (node children childCount value).children = children := rfl

@[simp] theorem childCount_node (value : Option α) : (node children childCount value).childCount = childCount := rfl

@[simp] theorem value_node (value : Option α) : (node children childCount value).value = value := rfl

/-- `FTreeNode()` -/
def empty : FTreeNode K α := node [] 0 none

def hasChildren (node : FTreeNode K α) : Bool := 0 < node.childCount

def isEmpty (node : FTreeNode K α) : Bool := !node.hasChildren && node.value.isNone

def setValue (value : Option α) (self : FTreeNode K α) : FTreeNode K α :=
  node self.children self.childCount value

end FTreeNode

/-- A handle: its node, and for every node above it the key below that node and the node. -/
structure FTree (K α : Type) where
  node : FTreeNode K α
  parents : List (K × FTreeNode K α)

namespace FTree

variable {K α : Type} [LinearOrder K]

/-- The handle of a root. -/
def ofRoot (node : FTreeNode K α) : FTree K α := ⟨node, []⟩

/-- The node of the root that the handle was taken from. -/
def root (self : FTree K α) : FTreeNode K α := ((self.parents.getLast?).map Prod.snd).getD self.node

def child (self : FTree K α) (name : K) : FTree K α :=
  ⟨(get name self.node.children).getD .empty, (name, self.node) :: self.parents⟩

def subTree (self : FTree K α) : FPath K → FTree K α
  | [] => self
  | next :: rest => (self.child next).subTree rest

def getValue (self : FTree K α) : Option α := self.node.value

def isEmpty (self : FTree K α) : Bool := self.node.isEmpty

/-- `updateChild(_:withNode:)` on the node of one parent. There is no result when it changes
nothing. -/
def updateChild (parent : FTreeNode K α) (childName : K) (child : FTreeNode K α) :
    Option (FTreeNode K α) :=
  let childExists := (get childName parent.children).isSome
  if child.isEmpty && childExists then
    some (.node (remove childName parent.children) (parent.childCount - 1) parent.value)
  else if !child.isEmpty && !childExists then
    some (.node (set (· < ·) childName child parent.children) (parent.childCount + 1) parent.value)
  else none

variable {parent child : FTreeNode K α} {childName : K}

theorem updateChild_of_isEmpty {old : FTreeNode K α} (hempty : child.isEmpty = true)
    (hget : get childName parent.children = some old) : updateChild parent childName child =
      some (.node (remove childName parent.children) (parent.childCount - 1) parent.value) := by
  simp [updateChild, hempty, hget]

theorem updateChild_of_new (hne : child.isEmpty = false) (hget : get childName parent.children = none) :
    updateChild parent childName child =
      some (.node (set (· < ·) childName child parent.children) (parent.childCount + 1)
        parent.value) := by
  simp [updateChild, hne, hget]

/-- A child that is there and not empty is not updated. -/
theorem updateChild_of_known (hsame : child.isEmpty = !(get childName parent.children).isSome) :
    updateChild parent childName child = none := by
  cases hexists : (get childName parent.children).isSome <;> simp [updateChild, hsame, hexists]

theorem updateChild_eq_some {newParent : FTreeNode K α} (h : updateChild parent childName child = some newParent) :
    (∃ old, child.isEmpty = true ∧ get childName parent.children = some old ∧
      newParent = .node (remove childName parent.children) (parent.childCount - 1) parent.value) ∨
    (child.isEmpty = false ∧ get childName parent.children = none ∧
      newParent =
        .node (set (· < ·) childName child parent.children) (parent.childCount + 1) parent.value) := by
  cases hempty : child.isEmpty with
  | true =>
      cases hget : get childName parent.children with
      | none => rw [updateChild_of_known (by simp [hempty, hget])] at h; cases h
      | some old =>
          rw [updateChild_of_isEmpty hempty hget] at h
          exact Or.inl ⟨old, rfl, rfl, (Option.some.inj h).symm⟩
  | false =>
      cases hget : get childName parent.children with
      | none =>
          rw [updateChild_of_new hempty hget] at h
          exact Or.inr ⟨rfl, rfl, (Option.some.inj h).symm⟩
      | some old => rw [updateChild_of_known (by simp [hempty, hget])] at h; cases h

/-- `updateParents()`. It goes on as long as parents change. -/
def updateParents (node : FTreeNode K α) : List (K × FTreeNode K α) → List (K × FTreeNode K α)
  | [] => []
  | (name, parent) :: rest =>
      match updateChild parent name node with
      | some newParent => (name, newParent) :: updateParents newParent rest
      | none => (name, parent) :: rest

def setValue (self : FTree K α) (value : Option α) : FTree K α :=
  ⟨self.node.setValue value, updateParents (self.node.setValue value) self.parents⟩

def clear (self : FTree K α) : FTree K α := ⟨.empty, updateParents .empty self.parents⟩

end FTree

namespace FTreeNode

variable {K α : Type} [LinearOrder K]

/-- `root.subTree(path).getValue()` -/
def getValueAt (root : FTreeNode K α) (path : FPath K) : Option α :=
  ((FTree.ofRoot root).subTree path).getValue

/-- The root after `root.subTree(path).setValue(value)`. -/
def setValueAt (root : FTreeNode K α) (path : FPath K) (value : Option α) : FTreeNode K α :=
  (((FTree.ofRoot root).subTree path).setValue value).root

/-- The root after `root.subTree(path).clear()`. -/
def clearAt (root : FTreeNode K α) (path : FPath K) : FTreeNode K α :=
  (((FTree.ofRoot root).subTree path).clear).root

/-- `root.subTree(path).isEmpty` -/
def isEmptyAt (root : FTreeNode K α) (path : FPath K) : Bool :=
  ((FTree.ofRoot root).subTree path).isEmpty

/-- The roots of all runs. -/
inductive Reachable : FTreeNode K α → Prop
  | empty : Reachable empty
  | setValue {root : FTreeNode K α} (path : FPath K) (value : Option α) (hroot : Reachable root) :
      Reachable (root.setValueAt path value)
  | clear {root : FTreeNode K α} (path : FPath K) (hroot : Reachable root) :
      Reachable (root.clearAt path)

/-! ### Copying back up -/

/-- The child at a key, or a new node. -/
def childAt (self : FTreeNode K α) (name : K) : FTreeNode K α :=
  (get name self.children).getD .empty

/-- The node below a root whose handle is at a path. -/
def nodeAt (self : FTreeNode K α) : FPath K → FTreeNode K α
  | [] => self
  | next :: rest => (self.childAt next).nodeAt rest

/-- What a new node at the path makes of the nodes above it. There is no result when the change does
not arrive. -/
def copyUp (self : FTreeNode K α) (newNode : FTreeNode K α) : FPath K → Option (FTreeNode K α)
  | [] => some newNode
  | next :: rest => ((self.childAt next).copyUp newNode rest).bind (FTree.updateChild self next)

theorem node_subTree (self : FTree K α) (path : FPath K) : (self.subTree path).node = self.node.nodeAt path := by
  induction path generalizing self with
  | nil => rfl
  | cons next rest ih => exact ih (self.child next)

variable (root : FTreeNode K α)
variable (path : FPath K)

theorem getValueAt_eq : root.getValueAt path = (root.nodeAt path).value := by
  rw [getValueAt, FTree.getValue, node_subTree]
  rfl

theorem isEmptyAt_eq : root.isEmptyAt path = (root.nodeAt path).isEmpty := by
  rw [isEmptyAt, FTree.isEmpty, node_subTree]
  rfl

/-- The chain of a handle below another one goes over into the chain of that one, which changes if
the new node arrives there. -/
theorem updateParents_subTree (self : FTree K α) (newNode : FTreeNode K α) (path : FPath K) :
    ∃ chain : List (K × FTreeNode K α),
      FTree.updateParents newNode (self.subTree path).parents =
        chain ++ ((self.node.copyUp newNode path).elim self.parents
          fun newSelf => FTree.updateParents newSelf self.parents) ∧
      (path ≠ [] → (chain.getLast?.map Prod.snd) =
        some ((self.node.copyUp newNode path).getD self.node)) := by
  induction path generalizing self with
  | nil => exact ⟨[], rfl, fun h => absurd rfl h⟩
  | cons next rest ih =>
      obtain ⟨chain, hchain, _⟩ := ih (self.child next)
      have hnode : (self.child next).node = self.node.childAt next := rfl
      rw [hnode] at hchain
      refine ⟨chain ++ [(next, (self.node.copyUp newNode (next :: rest)).getD self.node)], ?_, by simp⟩
      rw [FTree.subTree, hchain, copyUp, List.append_assoc]
      cases hchild : (self.node.childAt next).copyUp newNode rest with
      | none => rfl
      | some newChild =>
          rw [Option.elim_some, Option.bind_some, FTree.child, FTree.updateParents]
          cases FTree.updateChild self.node next newChild <;> rfl

theorem root_updateParents (newNode : FTreeNode K α) (path : FPath K) :
    (FTree.mk newNode (FTree.updateParents newNode ((FTree.ofRoot root).subTree path).parents)).root =
      (root.copyUp newNode path).getD root := by
  cases path with
  | nil => rfl
  | cons next rest =>
      obtain ⟨chain, hchain, hlast⟩ := updateParents_subTree (FTree.ofRoot root) newNode (next :: rest)
      have hend : ((root.copyUp newNode (next :: rest)).elim (FTree.ofRoot root).parents
          fun newSelf => FTree.updateParents newSelf (FTree.ofRoot root).parents) = [] := by
        cases root.copyUp newNode (next :: rest) <;> rfl
      rw [FTree.root, hchain]
      change ((List.getLast? (chain ++ _)).map Prod.snd).getD newNode = _
      rw [show (FTree.ofRoot root).node = root from rfl] at hlast ⊢
      rw [hend, List.append_nil, hlast (by simp), Option.getD_some]

theorem setValueAt_eq (value : Option α) : root.setValueAt path value =
      (root.copyUp ((root.nodeAt path).setValue value) path).getD root := by
  rw [setValueAt, FTree.setValue, root_updateParents, node_subTree]
  rfl

theorem clearAt_eq : root.clearAt path = (root.copyUp .empty path).getD root :=
  root_updateParents root .empty path

/-! ### Well-formed roots -/

/-- The number of children is right, and no child is empty. -/
inductive WellFormed : FTreeNode K α → Prop
  | intro (children : List (K × FTreeNode K α)) (value : Option α)
      (hsorted : Sorted (· < ·) children) (hchildren : ∀ e ∈ children, WellFormed e.2)
      (hne : ∀ e ∈ children, e.2.isEmpty = false) : WellFormed (node children children.length value)

theorem WellFormed.empty : WellFormed (empty : FTreeNode K α) :=
  .intro [] none (sorted_nil _) (by simp) (by simp)

section WellFormedNodes

variable {self : FTreeNode K α}

theorem WellFormed.isEmpty_iff (h : self.WellFormed) :
    self.isEmpty = true ↔ self.children = [] ∧ self.value = none := by
  cases h with
  | intro children value _ _ _ =>
      rw [isEmpty, hasChildren, childCount_node, value_node, children_node, Bool.and_eq_true,
        Option.isNone_iff_eq_none, ← List.length_eq_zero_iff]
      refine and_congr_left fun _ => ?_
      simp

theorem WellFormed.get_eq_none_or (h : self.WellFormed) (key : K) : get key self.children = none ∨
      ∃ child, get key self.children = some child ∧ child.WellFormed ∧ child.isEmpty = false := by
  cases h with
  | intro children value _ hchildren hne =>
      cases hget : get key children with
      | none => exact Or.inl hget
      | some child =>
          exact Or.inr ⟨child, hget, hchildren _ (mem_of_get hget), hne _ (mem_of_get hget)⟩

theorem WellFormed.childAt (h : self.WellFormed) (key : K) : (self.childAt key).WellFormed := by
  rw [FTreeNode.childAt]
  rcases h.get_eq_none_or key with hget | ⟨child, hget, hchild, _⟩
  · rw [hget]
    exact .empty
  · rw [hget]
    exact hchild

/-- A child is there exactly when it is not empty. -/
theorem WellFormed.isSome_get (h : self.WellFormed) (key : K) :
    (get key self.children).isSome = !(self.childAt key).isEmpty := by
  rw [FTreeNode.childAt]
  rcases h.get_eq_none_or key with hget | ⟨child, hget, _, hne⟩
  · rw [hget]
    rfl
  · rw [hget, Option.getD_some, hne]
    rfl

theorem WellFormed.setValue (h : self.WellFormed) (value : Option α) : (self.setValue value).WellFormed := by
  cases h with
  | intro children _ hsorted hchildren hne => exact .intro children value hsorted hchildren hne

theorem WellFormed.nodeAt (h : self.WellFormed) (path : FPath K) : (self.nodeAt path).WellFormed := by
  induction path generalizing self with
  | nil => exact h
  | cons next rest ih => exact ih (h.childAt next)

theorem WellFormed.updateChild (h : self.WellFormed) {name : K} {child newSelf : FTreeNode K α}
    (hchild : child.WellFormed) (hnew : FTree.updateChild self name child = some newSelf) : newSelf.WellFormed := by
  cases h with
  | intro children value hsorted hchildren hne =>
      rcases FTree.updateChild_eq_some hnew with ⟨old, _, hget, rfl⟩ | ⟨hnonempty, hget, rfl⟩
      · rw [children_node] at hget
        rw [children_node, childCount_node, value_node,
          show (children.length : Int) - 1 = (remove name children).length by
            rw [← hsorted.length_remove hget]; simp]
        exact .intro _ value (hsorted.remove name) (fun e he => hchildren e (mem_remove.mp he).1)
          fun e he => hne e (mem_remove.mp he).1
      · rw [children_node] at hget
        rw [children_node, childCount_node, value_node,
          show (children.length : Int) + 1 = (set (· < ·) name child children).length by
            rw [length_set_of_none (· < ·) hget]; simp]
        refine .intro _ value (hsorted.set _ name child) (fun e he => ?_) fun e he => ?_
        · rcases mem_set _ he with rfl | he
          · exact hchild
          · exact hchildren e he
        · rcases mem_set _ he with rfl | he
          · exact hnonempty
          · exact hne e he

theorem WellFormed.copyUp (h : self.WellFormed) {newNode newSelf : FTreeNode K α}
    (hnode : newNode.WellFormed) {path : FPath K} (hnew : self.copyUp newNode path = some newSelf) :
    newSelf.WellFormed := by
  induction path generalizing self newSelf with
  | nil =>
      cases hnew
      exact hnode
  | cons next rest ih =>
      obtain ⟨newChild, hcopy, hupdate⟩ := Option.bind_eq_some_iff.mp hnew
      exact h.updateChild (ih (h.childAt next) hcopy) hupdate

theorem WellFormed.copyUp_getD (h : self.WellFormed) {newNode : FTreeNode K α}
    (hnode : newNode.WellFormed) (path : FPath K) : ((self.copyUp newNode path).getD self).WellFormed := by
  cases hcopy : self.copyUp newNode path with
  | none => exact h
  | some newSelf => exact h.copyUp hnode hcopy

theorem Reachable.wellFormed {root : FTreeNode K α} (h : Reachable root) : root.WellFormed := by
  induction h with
  | empty => exact .empty
  | setValue path value _ ih =>
      rw [setValueAt_eq]
      exact ih.copyUp_getD ((ih.nodeAt path).setValue value) path
  | clear path _ ih =>
      rw [clearAt_eq]
      exact ih.copyUp_getD .empty path

/-! ### The stored values -/

variable (root : FTreeNode K α) {next : K}

theorem getValueAt_cons (next : K) (rest : FPath K) :
    root.getValueAt (next :: rest) = (root.childAt next).getValueAt rest := by
  rw [getValueAt_eq, getValueAt_eq]
  rfl

theorem getValueAt_nil : root.getValueAt [] = root.value := rfl

theorem getValueAt_empty (path : FPath K) : (FTreeNode.empty : FTreeNode K α).getValueAt path = none := by
  induction path with
  | nil => rfl
  | cons next rest ih =>
      rw [getValueAt_cons]
      exact ih

theorem WellFormed.eq_empty (h : self.WellFormed) (hempty : self.isEmpty = true) : self = FTreeNode.empty := by
  obtain ⟨hchildren, hvalue⟩ := h.isEmpty_iff.mp hempty
  cases h with
  | intro children value _ _ _ =>
      simp only [children_node, value_node] at hchildren hvalue
      subst hchildren hvalue
      rfl

/-- A node is empty exactly when it stores no value. -/
theorem WellFormed.isEmpty_iff_getValueAt (h : self.WellFormed) :
    self.isEmpty = true ↔ ∀ path, self.getValueAt path = none := by
  constructor
  · intro hempty path
    rw [h.eq_empty hempty, getValueAt_empty]
  · intro hnone
    induction h with
    | intro children value hsorted hchildren hne ih =>
        have hwf := WellFormed.intro children value hsorted hchildren hne
        refine hwf.isEmpty_iff.mpr ⟨?_, hnone []⟩
        cases children with
        | nil => rfl
        | cons e rest =>
            obtain ⟨key, child⟩ := e
            have hmem : (key, child) ∈ (key, child) :: rest := List.mem_cons_self
            have hchild := hne _ hmem
            rw [ih _ hmem fun path => ?_] at hchild
            · cases hchild
            · have := hnone (key :: path)
              rw [getValueAt_cons] at this
              simpa [FTreeNode.childAt, get_cons] using this

theorem WellFormed.exists_getValueAt (h : self.WellFormed) (hne : self.isEmpty = false) :
    ∃ path, self.getValueAt path ≠ none := by
  by_contra hnone
  rw [not_exists] at hnone
  rw [h.isEmpty_iff_getValueAt.mpr fun path => not_not.mp (hnone path)] at hne
  cases hne

theorem getValueAt_setValue (value : Option α) (path : FPath K) :
    (self.setValue value).getValueAt path = if path = [] then value else self.getValueAt path := by
  cases path with
  | nil => rfl
  | cons next rest =>
      rw [getValueAt_cons, if_neg (by simp), getValueAt_cons]
      rfl

theorem getValueAt_remove (name : K) (childCount : Int) (path : FPath K) :
    (node (remove name self.children) childCount self.value).getValueAt path =
      if [name] <+: path then none else self.getValueAt path := by
  cases path with
  | nil => simp [getValueAt_nil]
  | cons next rest =>
      rw [getValueAt_cons, getValueAt_cons, FTreeNode.childAt, FTreeNode.childAt, children_node, get_remove]
      by_cases hnext : next = name
      · simp [hnext, getValueAt_empty]
      · simp [hnext, Ne.symm hnext]

theorem getValueAt_insert (name : K) (child : FTreeNode K α) (childCount : Int) (path : FPath K) :
    (node (set (· < ·) name child self.children) childCount self.value).getValueAt path =
      if [name] <+: path then child.getValueAt path.tail else self.getValueAt path := by
  cases path with
  | nil => simp [getValueAt_nil]
  | cons next rest =>
      rw [getValueAt_cons, getValueAt_cons, FTreeNode.childAt, FTreeNode.childAt, children_node, get_set]
      by_cases hnext : next = name
      · simp [hnext]
      · simp [hnext, Ne.symm hnext]

/-! ### Setting a value -/

/-- Below a new node no value is taken away. -/
theorem copyUp_empty_none {path : FPath K} (hne : path ≠ []) :
    (FTreeNode.empty : FTreeNode K α).copyUp (FTreeNode.empty.setValue none) path = none := by
  induction path with
  | nil => exact absurd rfl hne
  | cons next rest ih =>
      have hchild : (FTreeNode.empty : FTreeNode K α).childAt next = .empty := rfl
      rw [copyUp, hchild]
      by_cases hrest : rest = []
      · rw [hrest]
        rfl
      · rw [ih hrest]
        rfl

/-- Below a new node a value makes a new branch. -/
theorem copyUp_empty_some (v : α) (path : FPath K) : ∃ newNode : FTreeNode K α,
      (FTreeNode.empty : FTreeNode K α).copyUp (FTreeNode.empty.setValue (some v)) path = some newNode ∧
        newNode.isEmpty = false ∧
        ∀ q, newNode.getValueAt q = if q = path then some v else none := by
  induction path with
  | nil =>
      refine ⟨_, rfl, rfl, fun q => ?_⟩
      rw [getValueAt_setValue, getValueAt_empty]
  | cons next rest ih =>
      obtain ⟨newChild, hcopy, hne, hvalues⟩ := ih
      have hchild : (FTreeNode.empty : FTreeNode K α).childAt next = .empty := rfl
      refine ⟨_, by rw [copyUp, hchild, hcopy, Option.bind_some, FTree.updateChild_of_new hne rfl], ?_,
        fun q => ?_⟩
      · simp [isEmpty, hasChildren, FTreeNode.empty]
      · rw [getValueAt_insert]
        cases q with
        | nil => simp [getValueAt_empty]
        | cons key q =>
            rw [List.tail_cons, hvalues, getValueAt_empty]
            by_cases hkey : next = key
            · simp [hkey]
            · simp [hkey, Ne.symm hkey]

/-- A branch disappears exactly when its only value is taken away. -/
theorem WellFormed.copyUp_isEmpty_iff (h : self.WellFormed) (hne : self.isEmpty = false)
    (value : Option α) (path : FPath K) :
    (∃ newSelf, self.copyUp ((self.nodeAt path).setValue value) path = some newSelf ∧
        newSelf.isEmpty = true) ↔
      value = none ∧ ∀ q, q ≠ path → self.getValueAt q = none := by
  induction path generalizing self with
  | nil =>
      have hset := (h.setValue value).isEmpty_iff_getValueAt
      constructor
      · rintro ⟨newSelf, hcopy, hempty⟩
        cases hcopy
        refine ⟨hset.mp hempty [], fun q hq => ?_⟩
        have := hset.mp hempty q
        rwa [getValueAt_setValue, if_neg hq] at this
      · rintro ⟨rfl, hnone⟩
        refine ⟨_, rfl, hset.mpr fun q => ?_⟩
        rw [getValueAt_setValue]
        split_ifs with hq
        · rfl
        · exact hnone q hq
  | cons next rest ih =>
      have hnode : self.nodeAt (next :: rest) = (self.childAt next).nodeAt rest := rfl
      rw [hnode]
      constructor
      · rintro ⟨newSelf, hcopy, hempty⟩
        have hnew := h.copyUp (((h.childAt next).nodeAt rest).setValue value) hcopy
        have hvalues := hnew.isEmpty_iff_getValueAt.mp hempty
        obtain ⟨newChild, hchild, hupdate⟩ := Option.bind_eq_some_iff.mp hcopy
        rcases FTree.updateChild_eq_some hupdate with ⟨old, hgone, hget, rfl⟩ | ⟨hstays, _, rfl⟩
        · have hchildne : (self.childAt next).isEmpty = false := by
            have := h.isSome_get next
            rw [hget] at this
            simpa using this.symm
          obtain ⟨hvalue, hbelow⟩ := (ih (h.childAt next) hchildne).mp ⟨newChild, hchild, hgone⟩
          refine ⟨hvalue, fun q hq => ?_⟩
          by_cases hpre : [next] <+: q
          · obtain ⟨q, rfl⟩ := hpre
            rw [List.singleton_append, getValueAt_cons]
            exact hbelow q fun heq => hq (by rw [heq]; rfl)
          · have := hvalues q
            rwa [getValueAt_remove, if_neg hpre] at this
        · obtain ⟨q, hq⟩ := ((h.childAt next).copyUp
            (((h.childAt next).nodeAt rest).setValue value) hchild).exists_getValueAt hstays
          have := hvalues (next :: q)
          rw [getValueAt_insert, if_pos (by simp)] at this
          exact absurd this hq
      · rintro ⟨rfl, hnone⟩
        obtain ⟨q, hq⟩ := h.exists_getValueAt hne
        have hpath : q = next :: rest := by
          by_contra hqne
          exact hq (hnone q hqne)
        subst hpath
        rw [getValueAt_cons] at hq
        have hchildne : (self.childAt next).isEmpty = false := by
          by_contra hempty
          rw [Bool.not_eq_false] at hempty
          exact hq ((h.childAt next).isEmpty_iff_getValueAt.mp hempty rest)
        obtain ⟨newChild, hchild, hgone⟩ := (ih (h.childAt next) hchildne).mpr
          ⟨rfl, fun q hq => by
            have := hnone (next :: q) fun heq => hq (List.cons.inj heq).2
            rwa [getValueAt_cons] at this⟩
        have hexists : (get next self.children).isSome = true := by
          rw [h.isSome_get, hchildne]
          rfl
        obtain ⟨old, hget⟩ := Option.isSome_iff_exists.mp hexists
        have hupdate := FTree.updateChild_of_isEmpty hgone hget
        have hcopy : self.copyUp (((self.childAt next).nodeAt rest).setValue none) (next :: rest) =
            some (node (remove next self.children) (self.childCount - 1) self.value) := by
          rw [FTreeNode.copyUp, hchild, Option.bind_some, hupdate]
        refine ⟨_, hcopy, (h.copyUp (((h.childAt next).nodeAt rest).setValue none)
          hcopy).isEmpty_iff_getValueAt.mpr fun q => ?_⟩
        rw [getValueAt_remove]
        split_ifs with hpre
        · rfl
        · exact hnone q fun heq => hpre (by simp [heq])

/-- The node that a set value arrives in. -/
theorem setValueAt_cons (next : K) (rest : FPath K) (value : Option α) : self.setValueAt (next :: rest) value =
      ((((self.childAt next).copyUp (((self.childAt next).nodeAt rest).setValue value) rest).bind
        (FTree.updateChild self next)).getD self) := by
  rw [setValueAt_eq]
  rfl

/-- A value below a key without a child makes a new branch, and taking one away changes nothing. -/
theorem getValueAt_setValueAt_new (h : self.WellFormed) (hempty : (self.childAt next).isEmpty = true)
    (rest : FPath K) (value : Option α) (q : FPath K) : (self.setValueAt (next :: rest) value).getValueAt q =
      if q = next :: rest then value else self.getValueAt q := by
  have hchild : self.childAt next = .empty := (h.childAt next).eq_empty hempty
  have hget : get next self.children = none := by
    simpa [hempty] using h.isSome_get next
  have hnode : ∀ path : FPath K, (FTreeNode.empty : FTreeNode K α).nodeAt path = .empty := by
    intro path
    induction path with
    | nil => rfl
    | cons key path ih => exact ih
  have hbelow : ∀ q, self.getValueAt (next :: q) = none := by
    intro q
    rw [getValueAt_cons, hchild, getValueAt_empty]
  rw [setValueAt_cons, hchild, hnode]
  cases value with
  | some v =>
      obtain ⟨newChild, hcopy, hne, hvalues⟩ := copyUp_empty_some (K := K) v rest
      rw [hcopy, Option.bind_some, FTree.updateChild_of_new hne hget, Option.getD_some, getValueAt_insert]
      cases q with
      | nil => simp
      | cons key q =>
          by_cases hkey : next = key
          · subst hkey
            simp [hvalues, hbelow]
          · simp [hkey, Ne.symm hkey]
  | none =>
      have hnone : ((((FTreeNode.empty : FTreeNode K α).copyUp (FTreeNode.empty.setValue none) rest).bind
          (FTree.updateChild self next)).getD self) = self := by
        by_cases hrest : rest = []
        · subst hrest
          change ((FTree.updateChild self next FTreeNode.empty).getD self) = self
          rw [FTree.updateChild_of_known (by rw [hget]; rfl), Option.getD_none]
        · rw [copyUp_empty_none hrest, Option.bind_none, Option.getD_none]
      rw [hnone]
      split_ifs with hq
      · rw [hq, hbelow]
      · rfl

/-- Taking away the last value below a key removes its branch. -/
theorem getValueAt_setValueAt_last (h : self.WellFormed) (hne : (self.childAt next).isEmpty = false)
    {rest : FPath K} (hlast : ∀ below, below ≠ rest → (self.childAt next).getValueAt below = none) (q : FPath K) :
    (self.setValueAt (next :: rest) none).getValueAt q =
      if [next] <+: q then none else self.getValueAt q := by
  have hexists : (get next self.children).isSome = true := by
    rw [h.isSome_get, hne]
    rfl
  obtain ⟨old, hget⟩ := Option.isSome_iff_exists.mp hexists
  obtain ⟨newChild, hcopy, hgone⟩ :=
    ((h.childAt next).copyUp_isEmpty_iff hne none rest).mpr ⟨rfl, hlast⟩
  rw [setValueAt_cons, hcopy, Option.bind_some, FTree.updateChild_of_isEmpty hgone hget,
    Option.getD_some, getValueAt_remove]

/-- No other change below a key with a child arrives. -/
theorem setValueAt_known (h : self.WellFormed) (hne : (self.childAt next).isEmpty = false) {rest : FPath K}
    {value : Option α}
    (hmore : ¬(value = none ∧ ∀ below, below ≠ rest → (self.childAt next).getValueAt below = none)) :
    self.setValueAt (next :: rest) value = self := by
  have hexists : (get next self.children).isSome = true := by
    rw [h.isSome_get, hne]
    rfl
  rw [setValueAt_cons]
  cases hcopy : (self.childAt next).copyUp (((self.childAt next).nodeAt rest).setValue value) rest with
  | none => rfl
  | some newChild =>
      have hstays : newChild.isEmpty = false := by
        by_contra hempty
        exact hmore (((h.childAt next).copyUp_isEmpty_iff hne value rest).mp
          ⟨newChild, hcopy, by simpa using hempty⟩)
      rw [Option.bind_some, FTree.updateChild_of_known (by rw [hstays, hexists]; rfl)]
      rfl

end WellFormedNodes

/-- Setting the value acts on the root as on a finite map, and a node of the new root is empty exactly
when no value is stored there or below. -/
def StoresValue (root : FTreeNode K α) (path : FPath K) (value : Option α) : Prop :=
  (root.setValueAt path value).getValueAt path = value ∧
    (∀ q, q ≠ path → (root.setValueAt path value).getValueAt q = root.getValueAt q) ∧
    ∀ q, (root.setValueAt path value).isEmptyAt q = true ↔
      ∀ below, (root.setValueAt path value).getValueAt (q ++ below) = none

/-- The value is set at the root, or is there already, or is the first one below a child of the root,
or is the last one there and taken away. -/
def Arrives (root : FTreeNode K α) (path : FPath K) (value : Option α) : Prop :=
  path = [] ∨ root.getValueAt path = value ∨
    ∃ front rest, path = front :: rest ∧
      if value = none then ∀ q, [front] <+: q → q ≠ path → root.getValueAt q = none
      else root.isEmptyAt [front] = true

theorem nodeAt_append (self : FTreeNode K α) (path below : FPath K) :
    self.nodeAt (path ++ below) = (self.nodeAt path).nodeAt below := by
  induction path generalizing self with
  | nil => rfl
  | cons next rest ih => exact ih (self.childAt next)

theorem WellFormed.isEmptyAt_iff {root : FTreeNode K α} (h : root.WellFormed) (path : FPath K) :
    root.isEmptyAt path = true ↔ ∀ below, root.getValueAt (path ++ below) = none := by
  rw [isEmptyAt_eq, (h.nodeAt path).isEmpty_iff_getValueAt]
  simp only [getValueAt_eq, nodeAt_append]

/-- Setting a value has the effect of a finite map exactly when the value arrives in the root. -/
theorem storesValue_iff_arrives {root : FTreeNode K α} (h : Reachable root) (path : FPath K)
    (value : Option α) : root.StoresValue path value ↔ root.Arrives path value := by
  have hwf := h.wellFormed
  have hempty := (Reachable.setValue path value h).wellFormed.isEmptyAt_iff
  cases path with
  | nil =>
      refine iff_of_true ⟨rfl, fun q hq => ?_, hempty⟩ (Or.inl rfl)
      have hroot : root.setValueAt [] value = root.setValue value := rfl
      rw [hroot, getValueAt_setValue, if_neg hq]
  | cons front rest =>
      have hchild : root.isEmptyAt [front] = (root.childAt front).isEmpty := by
        rw [isEmptyAt_eq]
        rfl
      cases hknown : (root.childAt front).isEmpty with
      | true =>
          have hvalues := getValueAt_setValueAt_new hwf hknown rest value
          refine iff_of_true ⟨by rw [hvalues, if_pos rfl], fun q hq => by rw [hvalues, if_neg hq],
            hempty⟩ (Or.inr (Or.inr ⟨front, rest, rfl, ?_⟩))
          split_ifs with hvalue
          · rintro q ⟨q, rfl⟩ _
            rw [List.singleton_append, getValueAt_cons]
            exact (hwf.childAt front).isEmpty_iff_getValueAt.mp hknown q
          · rw [hchild, hknown]
      | false =>
          by_cases hlast : value = none ∧
              ∀ below, below ≠ rest → (root.childAt front).getValueAt below = none
          · -- the whole branch goes away, and it held at most the value at the path
            obtain ⟨rfl, hnone⟩ := hlast
            have hvalues := getValueAt_setValueAt_last hwf hknown hnone
            have hbelow : ∀ q, [front] <+: q → q ≠ front :: rest → root.getValueAt q = none := by
              rintro q ⟨q, rfl⟩ hq
              rw [List.singleton_append, getValueAt_cons]
              exact hnone q fun heq => hq (by rw [heq]; rfl)
            refine iff_of_true ⟨?_, fun q hq => ?_, hempty⟩
              (Or.inr (Or.inr ⟨front, rest, rfl, by rwa [if_pos rfl]⟩))
            · rw [hvalues, if_pos (by simp)]
            · rw [hvalues]
              split_ifs with hpre
              · exact (hbelow q hpre hq).symm
              · rfl
          · have hsame := setValueAt_known hwf hknown hlast
            constructor
            · intro hstores
              have hvalue := hstores.1
              rw [hsame] at hvalue
              exact Or.inr (Or.inl hvalue)
            · rintro (hnil | hvalue | ⟨front', rest', heq, hcase⟩)
              · cases hnil
              · exact ⟨by rw [hsame, hvalue], fun q _ => by rw [hsame], hempty⟩
              · cases heq
                exfalso
                split_ifs at hcase with hvalue
                · refine hlast ⟨hvalue, fun below hbelow => ?_⟩
                  rw [← getValueAt_cons]
                  exact hcase (front :: below) (by simp) fun heq => hbelow (List.cons.inj heq).2
                · rw [hchild, hknown] at hcase
                  cases hcase

/-- The second value below one child of the root is dropped. -/
theorem storesValue_fails_for_second :
    ¬∀ root : FTreeNode String Nat, Reachable root → ∀ path value, root.StoresValue path value := by
  intro hall
  have hreachable : Reachable (FTreeNode.empty.setValueAt ["a", "b"] (some 1) : FTreeNode String Nat) :=
    .setValue ["a", "b"] (some 1) .empty
  have hstored := (hall _ hreachable ["a", "c"] (some 2)).1
  revert hstored
  decide

/-- The first value below a child of the root is stored. -/
theorem storesValue_iff_arrives_first :
    (FTreeNode.empty : FTreeNode String Nat).StoresValue ["a", "b"] (some 1) ↔
      (FTreeNode.empty : FTreeNode String Nat).Arrives ["a", "b"] (some 1) :=
  storesValue_iff_arrives .empty ["a", "b"] (some 1)

end FTreeNode

end FirebaseSwift.Database
