import FirebaseSwift.Database.SortedTree
import FirebaseSwift.Database.Node

/-! Compound writes, collections of writes that are applied to a node in unison. A compound write is
an immutable tree with nodes as values in which no value lies below another one: a write below an
existing one modifies it, a write above existing ones replaces them. Such a tree without empty
branches is determined by its values, so two compound writes are equal when they hold the same
writes. -/

namespace FirebaseSwift.Database

open SortedDictionary

namespace FImmutableTree

variable {K α : Type} [LinearOrder K]

/-- Children are sorted and not empty, and a node with a value has no children. -/
inductive IsWriteTree : FImmutableTree K α → Prop
  | intro (value : Option α) (children : List (K × FImmutableTree K α))
      (hsorted : Sorted (· < ·) children) (hchildren : ∀ e ∈ children, IsWriteTree e.2)
      (hne : ∀ e ∈ children, e.2 ≠ empty) (hvalue : value ≠ none → children = []) :
      IsWriteTree (node value children)

namespace IsWriteTree

theorem empty : IsWriteTree (empty : FImmutableTree K α) :=
  ⟨none, [], sorted_nil _, by simp, by simp, by simp⟩

theorem ofValue (value : Option α) : IsWriteTree (ofValue value : FImmutableTree K α) :=
  ⟨value, [], sorted_nil _, by simp, by simp, by simp⟩

variable {tree : FImmutableTree K α}

theorem sorted (h : IsWriteTree tree) : Sorted (· < ·) tree.children := by
  cases h with | intro _ _ hsorted _ _ _ => exact hsorted

variable {childTree : FImmutableTree K α} {path : FPath K}

theorem child (h : IsWriteTree tree) {key : K} (hget : get key tree.children = some childTree) :
    IsWriteTree childTree := by
  cases h with | intro _ _ _ hchildren _ _ => exact hchildren _ (mem_of_get hget)

theorem childOrEmpty (h : IsWriteTree tree) (key : K) :
    IsWriteTree ((get key tree.children).getD FImmutableTree.empty) := by
  cases hget : get key tree.children with
  | none => exact empty
  | some childTree => exact h.child hget

theorem child_ne_empty (h : IsWriteTree tree) {key : K} (hget : get key tree.children = some childTree) :
    childTree ≠ FImmutableTree.empty := by
  cases h with | intro _ _ _ _ hne _ => exact hne _ (mem_of_get hget)

theorem children_eq_nil (h : IsWriteTree tree) (hvalue : tree.value ≠ none) : tree.children = [] := by
  cases h with | intro _ _ _ _ _ hleaf => exact hleaf hvalue

theorem valueAt_below (h : IsWriteTree tree) (hvalue : tree.value ≠ none) (front : K)
    (rest : FPath K) : valueAt (front :: rest) tree = none := by
  rw [valueAt_cons, h.children_eq_nil hvalue]
  rfl

theorem subtree (h : IsWriteTree tree) (path : FPath K) : IsWriteTree (FImmutableTree.subtree path tree) := by
  induction path generalizing tree with
  | nil => exact h
  | cons front rest ih =>
      rw [FImmutableTree.subtree]
      cases hget : get front tree.children with
      | none => exact empty
      | some childTree => exact ih (h.child hget)

/-- A tree that is not empty holds a value. -/
theorem exists_valueAt (h : IsWriteTree tree) (hne : tree ≠ FImmutableTree.empty) :
    ∃ path value, valueAt path tree = some value := by
  induction h with
  | intro value children _ _ hchildne _ ih =>
      cases value with
      | some v => exact ⟨[], v, rfl⟩
      | none =>
          cases children with
          | nil => exact absurd rfl hne
          | cons e rest =>
              obtain ⟨key, childTree⟩ := e
              obtain ⟨path, v, hv⟩ :=
                ih (key, childTree) List.mem_cons_self (hchildne _ List.mem_cons_self)
              refine ⟨key :: path, v, ?_⟩
              rw [valueAt_cons, children_node, get_cons, if_pos rfl]
              exact hv

/-- No value lies below another one. -/
theorem eq_of_prefixed (h : IsWriteTree tree) {path' : FPath K} (hvalue : valueAt path tree ≠ none)
    (hvalue' : valueAt path' tree ≠ none) (hpre : path <+: path') : path = path' := by
  induction path generalizing tree path' with
  | nil =>
      cases path' with
      | nil => rfl
      | cons front rest => exact absurd (h.valueAt_below hvalue front rest) hvalue'
  | cons front rest ih =>
      obtain ⟨rest', rfl, hrest⟩ : ∃ rest', path' = front :: rest' ∧ rest <+: rest' := by
        cases path' with
        | nil => cases List.prefix_nil.mp hpre
        | cons front' rest' =>
            obtain ⟨rfl, hrest⟩ := List.cons_prefix_cons.mp hpre
            exact ⟨rest', rfl, hrest⟩
      rw [valueAt_cons] at hvalue hvalue'
      cases hget : get front tree.children with
      | none =>
          rw [hget] at hvalue
          exact absurd rfl hvalue
      | some childTree =>
          rw [hget] at hvalue hvalue'
          rw [ih (h.child hget) hvalue hvalue' hrest]

/-- Write trees are determined by their values. -/
theorem ext {tree tree' : FImmutableTree K α} (h : IsWriteTree tree) (h' : IsWriteTree tree')
    (hvalues : ∀ path, valueAt path tree = valueAt path tree') : tree = tree' := by
  induction h generalizing tree' with
  | intro value children hsorted hchildren hne hvalue ih =>
      obtain ⟨value', children'⟩ := tree'
      have hroot : value = value' := hvalues []
      subst hroot
      have hget : ∀ key, get key children = get key children' := by
        intro key
        have hbelow : ∀ rest, (get key children).bind (valueAt rest) =
            (get key children').bind (valueAt rest) := by
          intro rest
          have := hvalues (key :: rest)
          rwa [valueAt_cons, valueAt_cons] at this
        cases hchild : get key children with
        | none =>
            cases hchild' : get key children' with
            | none => rfl
            | some childTree' =>
                obtain ⟨path, v, hv⟩ := (h'.child hchild').exists_valueAt (h'.child_ne_empty hchild')
                have := hbelow path
                rw [hchild, hchild', Option.bind_some, hv] at this
                cases this
        | some childTree =>
            have hmem := mem_of_get hchild
            cases hchild' : get key children' with
            | none =>
                obtain ⟨path, v, hv⟩ := (hchildren _ hmem).exists_valueAt (hne _ hmem)
                have := hbelow path
                rw [hchild, hchild', Option.bind_some, hv] at this
                cases this
            | some childTree' =>
                rw [hchild, hchild'] at hbelow
                exact congrArg some (ih _ hmem (h'.child hchild') hbelow)
      exact congrArg (node value) (hsorted.ext h'.sorted hget)

theorem replaceChild {children : List (K × FImmutableTree K α)} {front : K}
    {newChild : FImmutableTree K α} (hnode : IsWriteTree (node none children))
    (hnew : IsWriteTree newChild) : IsWriteTree (node none (replaceChild front newChild children)) := by
  have hsorted := hnode.sorted
  cases hnode with
  | intro _ _ _ hchildren hne _ =>
      unfold FImmutableTree.replaceChild
      split_ifs with hempty
      · exact ⟨none, _, hsorted.remove front, fun e he => hchildren e (mem_remove.mp he).1,
          fun e he => hne e (mem_remove.mp he).1, by simp⟩
      · refine ⟨none, _, hsorted.set _ front newChild, fun e he => ?_, fun e he => ?_, by simp⟩
        · rcases mem_set _ he with rfl | he
          · exact hnew
          · exact hchildren e he
        · rcases mem_set _ he with rfl | he
          · exact fun heq => hempty (isEmpty_iff.mpr heq)
          · exact hne e he

/-- A tree may be put where no value lies above it. -/
theorem setTree {newTree : FImmutableTree K α} (h : IsWriteTree tree) (hnew : IsWriteTree newTree) (path : FPath K)
    (habove : ∀ above, above <+: path → above ≠ path → valueAt above tree = none) :
    IsWriteTree (setTree newTree path tree) := by
  induction path generalizing tree with
  | nil => exact hnew
  | cons front rest ih =>
      obtain ⟨value, children⟩ := tree
      have hroot : value = none := habove [] List.nil_prefix (by simp)
      subst hroot
      refine h.replaceChild (ih (h.childOrEmpty front) fun above hpre hne => ?_)
      rw [valueAt_getD]
      exact habove (front :: above) (List.cons_prefix_cons.mpr ⟨rfl, hpre⟩)
        fun heq => hne (List.cons.inj heq).2

/-- Removing a branch leaves a write tree, also below a value, where nothing is removed. -/
theorem setTree_empty (h : IsWriteTree tree) (path : FPath K) :
    IsWriteTree (FImmutableTree.setTree FImmutableTree.empty path tree) := by
  induction path generalizing tree with
  | nil => exact empty
  | cons front rest ih =>
      obtain ⟨value, children⟩ := tree
      cases value with
      | none => exact h.replaceChild (ih (h.childOrEmpty front))
      | some v =>
          have hnil : children = [] := h.children_eq_nil (by simp)
          subst hnil
          have hempty : FImmutableTree.setTree FImmutableTree.empty rest
              (FImmutableTree.empty : FImmutableTree K α) = FImmutableTree.empty :=
            (ih empty).ext empty fun path => by rw [valueAt_setTree]; split_ifs <;> simp
          rw [FImmutableTree.setTree, children_node, get_nil, Option.getD_none, hempty]
          exact ofValue (some v)

/-- A value may be replaced. -/
theorem setValue (h : IsWriteTree tree) (hvalue : valueAt path tree ≠ none) (newValue : α) :
    IsWriteTree (setValue (some newValue) path tree) := by
  induction path generalizing tree with
  | nil =>
      rw [FImmutableTree.setValue, h.children_eq_nil hvalue]
      exact ofValue (some newValue)
  | cons front rest ih =>
      obtain ⟨value, children⟩ := tree
      rw [valueAt_cons, children_node] at hvalue
      cases hget : get front children with
      | none =>
          rw [hget] at hvalue
          exact absurd rfl hvalue
      | some childTree =>
          rw [hget] at hvalue
          have hnew := ih (h.child hget) hvalue
          have hne : FImmutableTree.setValue (some newValue) rest childTree ≠ FImmutableTree.empty := by
            intro heq
            have := valueAt_setValue (some newValue) rest rest childTree
            rw [heq, if_pos rfl, valueAt_empty] at this
            cases this
          have hroot : value = none := by
            by_contra hroot
            have hnil : children = [] := h.children_eq_nil hroot
            rw [hnil] at hget
            cases hget
          subst hroot
          have hreplaced : IsWriteTree (node none (FImmutableTree.replaceChild front _ children)) :=
            h.replaceChild hnew
          rw [FImmutableTree.replaceChild, if_neg (mt isEmpty_iff.mp hne)] at hreplaced
          simp only [FImmutableTree.setValue, children_node, value_node, hget, Option.getD_some]
          exact hreplaced

theorem findRootMostValueAndPath_eq_some (h : IsWriteTree tree) {found : FPath K} {v : α} :
    findRootMostValueAndPath path tree = some (found, v) ↔
      found <+: path ∧ valueAt found tree = some v := by
  rw [findRootMostValueAndPath, findRootMost_eq_some]
  simp only [filter_const_true]
  refine ⟨fun hfound => ⟨hfound.1, hfound.2.1⟩, fun hvalue => ⟨hvalue.1, hvalue.2, ?_⟩⟩
  intro above habove hne
  by_contra hsome
  exact hne (h.eq_of_prefixed hsome (by simp [hvalue.2]) habove)

theorem isSorted (h : IsWriteTree tree) : IsSorted tree := by
  induction h with
  | intro value children hsorted _ _ _ ih => exact .intro value children hsorted ih

theorem mem_forEachPathSoFar (h : IsWriteTree tree) {pathSoFar : FPath K} {v : α} :
    (path, v) ∈ forEachPathSoFar pathSoFar tree ↔
      ∃ rest, path = pathSoFar ++ rest ∧ valueAt rest tree = some v :=
  h.isSorted.mem_forEachPathSoFar

theorem mem_forEach (h : IsWriteTree tree) {v : α} : (path, v) ∈ forEach tree ↔ valueAt path tree = some v :=
  h.isSorted.mem_forEach

/-- The enumerated paths are not comparable to each other. -/
theorem pairwise_forEachPathSoFar (h : IsWriteTree tree) (pathSoFar : FPath K) :
    (forEachPathSoFar pathSoFar tree).Pairwise fun e e' => ¬e.1 <+: e'.1 ∧ ¬e'.1 <+: e.1 := by
  induction h generalizing pathSoFar with
  | intro value children hsorted hchildren _ hvalue ih =>
      rw [forEachPathSoFar_node]
      cases value with
      | some v =>
          rw [hvalue (by simp)]
          simp
      | none =>
          rw [Option.toList_none, List.map_nil, List.append_nil, List.pairwise_flatMap]
          refine ⟨fun e he => ih e he (pathSoFar ++ [e.1]), hsorted.imp_of_mem ?_⟩
          intro e e' he he' hlt x hx y hy
          obtain ⟨xpath, xv⟩ := x
          obtain ⟨ypath, yv⟩ := y
          obtain ⟨xrest, rfl, _⟩ := (hchildren e he).mem_forEachPathSoFar.mp hx
          obtain ⟨yrest, rfl, _⟩ := (hchildren e' he').mem_forEachPathSoFar.mp hy
          simp [List.append_assoc, List.prefix_append_right_inj, List.cons_prefix_cons, hlt.ne, hlt.ne']

end IsWriteTree

end FImmutableTree

open FImmutableTree

variable {K V : Type} [DatabaseKey K]

/-- The tree of `addWrite(_:atPath:)`. -/
def addWriteToTree (tree : FImmutableTree K (FNode K V)) (newNode : FNode K V) (path : FPath K) :
    FImmutableTree K (FNode K V) :=
  if path.isEmpty then ofValue (some newNode)
  else
    match findRootMostValueAndPath path tree with
    | some (rootMostPath, rootMostValue) =>
        let relativePath := FPath.relativePath rootMostPath path
        setValue (some (rootMostValue.updateChild relativePath newNode)) rootMostPath tree
    | none => setTree (ofValue (some newNode)) path tree

theorem FImmutableTree.IsWriteTree.addWriteToTree {tree : FImmutableTree K (FNode K V)}
    (h : IsWriteTree tree) (newNode : FNode K V) (path : FPath K) :
    IsWriteTree (addWriteToTree tree newNode path) := by
  unfold Database.addWriteToTree
  split_ifs
  · exact .ofValue _
  · cases hroot : findRootMostValueAndPath path tree with
    | none =>
        exact h.setTree (.ofValue _) path
          fun above habove _ => findRootMostValueAndPath_eq_none.mp hroot above habove
    | some found => exact h.setValue (by simp [(h.findRootMostValueAndPath_eq_some.mp hroot).2]) _

structure FCompoundWrite (K V : Type) [DatabaseKey K] where
  writeTree : FImmutableTree K (FNode K V)
  isWriteTree : IsWriteTree writeTree

namespace FCompoundWrite

def emptyWrite : FCompoundWrite K V := ⟨FImmutableTree.empty, .empty⟩

def addWrite (self : FCompoundWrite K V) (newNode : FNode K V) (path : FPath K) :
    FCompoundWrite K V :=
  ⟨addWriteToTree self.writeTree newNode path, self.isWriteTree.addWriteToTree newNode path⟩

/-- The writes with their paths in the order of `enumerateWrites`. -/
def enumerateWrites (self : FCompoundWrite K V) : List (FPath K × FNode K V) := self.writeTree.forEach

def addCompoundWrite (self compoundWrite : FCompoundWrite K V) (path : FPath K) :
    FCompoundWrite K V :=
  compoundWrite.enumerateWrites.foldl
    (fun newWrite write => newWrite.addWrite write.2 (path.child write.1)) self

def removeWriteAtPath (self : FCompoundWrite K V) (path : FPath K) : FCompoundWrite K V :=
  if path.isEmpty then emptyWrite
  else ⟨setTree FImmutableTree.empty path self.writeTree, self.isWriteTree.setTree_empty path⟩

def rootWrite (self : FCompoundWrite K V) : Option (FNode K V) := self.writeTree.value

def completeNodeAtPath (self : FCompoundWrite K V) (path : FPath K) : Option (FNode K V) :=
  match findRootMostValueAndPath path self.writeTree with
  | none => none
  | some (rootMostPath, rootMostValue) =>
      some (rootMostValue.getChild (FPath.relativePath rootMostPath path))

def hasCompleteWriteAtPath (self : FCompoundWrite K V) (path : FPath K) : Bool :=
  (self.completeNodeAtPath path).isSome

def completeChildren (self : FCompoundWrite K V) : List (K × FNode K V) :=
  match self.writeTree.value with
  | some topNode => topNode.enumerateChildren
  | none => self.writeTree.children.filterMap fun e => e.2.value.map fun value => (e.1, value)

def childCompoundWriteAtPath (self : FCompoundWrite K V) (path : FPath K) : FCompoundWrite K V :=
  if path.isEmpty then self
  else
    match self.completeNodeAtPath path with
    | some shadowingNode => ⟨ofValue (some shadowingNode), .ofValue _⟩
    | none => ⟨subtree path self.writeTree, self.isWriteTree.subtree path⟩

def isEmpty (self : FCompoundWrite K V) : Bool := self.writeTree.isEmpty

mutual

/-- `applySubtreeWrite(_:atPath:toNode:)`. A priority is written after the children, and only to a
node that is not empty then. -/
def applySubtreeWrite (relativePath : FPath K) (toNode : FNode K V) :
    FImmutableTree K (FNode K V) → FNode K V
  | node (some value) _ => toNode.updateChild relativePath value
  | node none children =>
      let blockNode := applyChildWrites relativePath toNode children
      match (get DatabaseKey.priority children).bind FImmutableTree.value with
      | some priorityWrite =>
          if (blockNode.getChild relativePath).isEmpty then blockNode
          else blockNode.updateChild (relativePath.childFromString DatabaseKey.priority) priorityWrite
      | none => blockNode

def applyChildWrites (relativePath : FPath K) (blockNode : FNode K V) :
    List (K × FImmutableTree K (FNode K V)) → FNode K V
  | [] => blockNode
  | (childKey, childTree) :: rest =>
      if childKey = DatabaseKey.priority then applyChildWrites relativePath blockNode rest
      else
        applyChildWrites relativePath
          (applySubtreeWrite (relativePath.childFromString childKey) blockNode childTree) rest

end

def applyToNode (self : FCompoundWrite K V) (node : FNode K V) : FNode K V :=
  applySubtreeWrite [] node self.writeTree

/-! ### The writes that the operations leave -/

/-- The node written at exactly this path. -/
def valueAt (self : FCompoundWrite K V) (path : FPath K) : Option (FNode K V) :=
  self.writeTree.valueAt path

variable {self : FCompoundWrite K V} {path : FPath K} {v : FNode K V} (newNode : FNode K V)

@[ext]
theorem ext {other : FCompoundWrite K V} (h : ∀ path, self.valueAt path = other.valueAt path) : self = other := by
  obtain ⟨tree, hwf⟩ := self
  obtain ⟨tree', hwf'⟩ := other
  simp only [mk.injEq]
  exact hwf.ext hwf' h

theorem eq_of_prefixed (self : FCompoundWrite K V) {path' : FPath K} {v' : FNode K V}
    (hv : self.valueAt path = some v) (hv' : self.valueAt path' = some v') (hpre : path <+: path') : path = path' :=
  self.isWriteTree.eq_of_prefixed (by rw [← valueAt, hv]; simp) (by rw [← valueAt, hv']; simp) hpre

theorem mem_enumerateWrites : (path, v) ∈ self.enumerateWrites ↔ self.valueAt path = some v :=
  self.isWriteTree.mem_forEach

theorem pairwise_enumerateWrites (self : FCompoundWrite K V) :
    self.enumerateWrites.Pairwise fun e e' => ¬e.1 <+: e'.1 ∧ ¬e'.1 <+: e.1 :=
  self.isWriteTree.pairwise_forEachPathSoFar []

variable {found : FPath K}

theorem rootMost_eq_some : findRootMostValueAndPath path self.writeTree = some (found, v) ↔
      found <+: path ∧ self.valueAt found = some v :=
  self.isWriteTree.findRootMostValueAndPath_eq_some

theorem rootMost_eq_none : findRootMostValueAndPath path self.writeTree = none ↔
      ∀ above, above <+: path → self.valueAt above = none :=
  findRootMostValueAndPath_eq_none

/-- Either a write lies at the path or above it, or none does. -/
theorem covered_or_free (self : FCompoundWrite K V) (path : FPath K) :
    (∃ found v, found <+: path ∧ self.valueAt found = some v) ∨
      ∀ above, above <+: path → self.valueAt above = none := by
  cases h : findRootMostValueAndPath path self.writeTree with
  | none => exact Or.inr (rootMost_eq_none.mp h)
  | some found => exact Or.inl ⟨found.1, found.2, rootMost_eq_some.mp h⟩

theorem completeNodeAtPath_of_covered (hpre : found <+: path) (hv : self.valueAt found = some v) :
    self.completeNodeAtPath path = some (v.getChild (FPath.relativePath found path)) := by
  rw [completeNodeAtPath, rootMost_eq_some.mpr ⟨hpre, hv⟩]

theorem completeNodeAtPath_of_free (hfree : ∀ above, above <+: path → self.valueAt above = none) :
    self.completeNodeAtPath path = none := by
  rw [completeNodeAtPath, rootMost_eq_none.mpr hfree]

/-- Below a write there is only the part of its node. -/
theorem valueAt_childCompoundWriteAtPath_of_covered (hpre : found <+: path) (hv : self.valueAt found = some v)
    (rest : FPath K) : (self.childCompoundWriteAtPath path).valueAt rest =
      if rest = [] then some (v.getChild (FPath.relativePath found path)) else none := by
  rw [childCompoundWriteAtPath]
  split_ifs with hnil hrest hrest
  · have hfound : found = [] := List.prefix_nil.mp (List.isEmpty_iff.mp hnil ▸ hpre)
    rw [hrest, List.isEmpty_iff.mp hnil, hfound, FPath.relativePath_self, FNode.getChild_nil, ← hfound]
    exact hv
  · have hfound : found = [] := List.prefix_nil.mp (List.isEmpty_iff.mp hnil ▸ hpre)
    cases hvalue : self.valueAt rest with
    | none => rfl
    | some w => exact absurd (self.eq_of_prefixed (hfound ▸ hv) hvalue List.nil_prefix).symm hrest
  · rw [completeNodeAtPath_of_covered hpre hv, hrest]
    rfl
  · rw [completeNodeAtPath_of_covered hpre hv]
    cases rest with
    | nil => exact absurd rfl hrest
    | cons front rest => rfl

theorem valueAt_childCompoundWriteAtPath_of_free (hfree : ∀ above, above <+: path → self.valueAt above = none)
    (rest : FPath K) : (self.childCompoundWriteAtPath path).valueAt rest = self.valueAt (path ++ rest) := by
  rw [childCompoundWriteAtPath]
  split_ifs with hnil
  · rw [List.isEmpty_iff.mp hnil, List.nil_append]
  · rw [completeNodeAtPath_of_free hfree]
    exact FImmutableTree.valueAt_subtree path rest self.writeTree

@[simp] theorem valueAt_emptyWrite (path : FPath K) : (emptyWrite : FCompoundWrite K V).valueAt path = none :=
  FImmutableTree.valueAt_empty path

/-- A write below an existing one changes it. -/
theorem valueAt_addWrite_covered (hpre : found <+: path) (hv : self.valueAt found = some v) (other : FPath K) :
    (self.addWrite newNode path).valueAt other =
      if other = found then some (v.updateChild (FPath.relativePath found path) newNode)
      else self.valueAt other := by
  simp only [valueAt, addWrite, addWriteToTree]
  by_cases hnil : path.isEmpty = true
  · have hpath : path = [] := List.isEmpty_iff.mp hnil
    subst hpath
    have hfound : found = [] := List.prefix_nil.mp hpre
    subst hfound
    rw [if_pos hnil]
    cases other with
    | nil => simp [ofValue]
    | cons front rest =>
        have := self.isWriteTree.valueAt_below (by rw [← FImmutableTree.valueAt_nil, ← valueAt, hv]; simp)
          front rest
        rw [this]
        rfl
  · rw [if_neg hnil, rootMost_eq_some.mpr ⟨hpre, hv⟩]
    exact valueAt_setValue _ _ _ _

/-- A write that is not below an existing one replaces the writes below it. -/
theorem valueAt_addWrite_free (hfree : ∀ above, above <+: path → self.valueAt above = none) (other : FPath K) :
    (self.addWrite newNode path).valueAt other =
      if path <+: other then if other = path then some newNode else none else self.valueAt other := by
  simp only [valueAt, addWrite, addWriteToTree]
  by_cases hnil : path.isEmpty = true
  · have hpath : path = [] := List.isEmpty_iff.mp hnil
    subst hpath
    rw [if_pos hnil, if_pos List.nil_prefix]
    cases other with
    | nil => rfl
    | cons front rest => rfl
  · rw [if_neg hnil, rootMost_eq_none.mpr hfree]
    simp only [valueAt_setTree]
    by_cases hpre : path <+: other
    · obtain ⟨rest, rfl⟩ := hpre
      cases rest with
      | nil => simp [ofValue]
      | cons front rest => simp [ofValue, valueAt_cons]
    · simp [hpre]

end FCompoundWrite

end FirebaseSwift.Database
