import FirebaseSwift.Database.NodeLeaves
import FirebaseSwift.Database.CompoundWrite

/-! The writes that the server performs when the client disconnects. They are remembered in a sparse
tree: a write below a remembered one modifies its value, a write above replaces it. To forget a path
below a remembered value the value is split into its children first. Remembering a write is adding it to
a compound write, and forgetting keeps the form of such a tree. -/

namespace FirebaseSwift.Database

open SortedDictionary FImmutableTree

/-- The tree has the shape of the immutable trees: a value and children by key. -/
abbrev FSparseSnapshotTree (K V : Type) [DatabaseKey K] := FImmutableTree K (FNode K V)

namespace FSparseSnapshotTree

variable {K V : Type} [DatabaseKey K]

def findPath : FPath K → FSparseSnapshotTree K V → Option (FNode K V)
  | path, node (some value) _ => some (value.getChild path)
  | [], node none _ => none
  | childKey :: rest, node none children => (get childKey children).bind fun childTree => findPath rest childTree

def rememberData (data : FNode K V) : FPath K → FSparseSnapshotTree K V → FSparseSnapshotTree K V
  | [], _ => ofValue (some data)
  | childKey :: rest, node (some value) children =>
      node (some (value.updateChild (childKey :: rest) data)) children
  | childKey :: rest, node none children =>
      let child := (get childKey children).getD FImmutableTree.empty
      node none (set (· < ·) childKey (rememberData data rest child) children)

/-- The value is cleared and its children are remembered, without its priority. -/
def splitValue (value : FNode K V) (children : List (K × FSparseSnapshotTree K V)) :
    FSparseSnapshotTree K V :=
  value.enumerateChildren.foldl (fun tree child => rememberData child.2 [child.1] tree) (node none children)

/-- The last cases of `forgetPath`, where there is no value. -/
def forgetBelow (childKey : K) (forgetChild : FSparseSnapshotTree K V → Bool × FSparseSnapshotTree K V)
    (tree : FSparseSnapshotTree K V) : Bool × FSparseSnapshotTree K V :=
  if tree.children.isEmpty then (true, tree)
  else
    let children :=
      match get childKey tree.children with
      | some child =>
          let (safeToRemove, child) := forgetChild child
          if safeToRemove then remove childKey tree.children
          else set (· < ·) childKey child tree.children
      | none => tree.children
    (children.isEmpty, node tree.value children)

/-- Whether nothing is left, and the tree that is. -/
def forgetPath : FPath K → FSparseSnapshotTree K V → Bool × FSparseSnapshotTree K V
  | [], _ => (true, FImmutableTree.empty)
  | childKey :: rest, node (some value) children =>
      -- A path below a leaf leads to nowhere.
      if value.isLeafNode then (false, node (some value) children)
      else forgetBelow childKey (fun child => forgetPath rest child) (splitValue value children)
  | childKey :: rest, node none children =>
      forgetBelow childKey (fun child => forgetPath rest child) (node none children)

mutual

/-- The remembered writes with their paths, below the path of the tree. -/
def forEachTreeAtPath (prefixPath : FPath K) : FSparseSnapshotTree K V → List (FPath K × FNode K V)
  | node (some value) _ => [(prefixPath, value)]
  | node none children => forEachChildTree prefixPath children

def forEachChildTree (prefixPath : FPath K) :
    List (K × FSparseSnapshotTree K V) → List (FPath K × FNode K V)
  | [] => []
  | (key, tree) :: rest =>
      forEachTreeAtPath (prefixPath ++ [key]) tree ++ forEachChildTree prefixPath rest

end

variable {tree : FSparseSnapshotTree K V} {children : List (K × FSparseSnapshotTree K V)}

/-! ### Remembering -/

theorem addWriteToTree_below (hnode : IsWriteTree (node none children)) (data : FNode K V) (childKey : K)
    (rest : FPath K) : addWriteToTree (node none children) data (childKey :: rest) =
      node none (set (· < ·) childKey
        (addWriteToTree ((get childKey children).getD FImmutableTree.empty) data rest) children) := by
  have hchild := hnode.childOrEmpty childKey
  rw [children_node] at hchild
  have hroot : findRootMostValueAndPath (childKey :: rest) (node none children) =
      (findRootMostValueAndPath rest ((get childKey children).getD FImmutableTree.empty)).map
        fun found => (childKey :: found.1, found.2) := by
    rw [findRootMostValueAndPath, findRootMost]
    simp only [value_node, children_node, Option.filter_none]
    cases get childKey children with
    | some child => rfl
    | none => cases rest <;> rfl
  rw [addWriteToTree, if_neg (by simp), hroot]
  cases hfound : findRootMostValueAndPath rest ((get childKey children).getD FImmutableTree.empty) with
  | none =>
      have hadd : addWriteToTree ((get childKey children).getD FImmutableTree.empty) data rest =
          setTree (ofValue (some data)) rest ((get childKey children).getD FImmutableTree.empty) := by
        rw [addWriteToTree, hfound]
        cases rest <;> rfl
      have hne : ¬(setTree (ofValue (some data)) rest
          ((get childKey children).getD FImmutableTree.empty)).isEmpty = true := by
        intro hempty
        have hvalue := valueAt_setTree (ofValue (some data)) rest rest
          ((get childKey children).getD FImmutableTree.empty)
        rw [isEmpty_iff.mp hempty, valueAt_empty] at hvalue
        simp [ofValue] at hvalue
      simp only [Option.map_none, setTree, children_node, value_node, hadd]
      rw [replaceChild, if_neg hne]
  | some found =>
      obtain ⟨found, value⟩ := found
      obtain ⟨hpre, hvalue⟩ := hchild.findRootMostValueAndPath_eq_some.mp hfound
      simp only [Option.map_some, FPath.relativePath, if_true, setValue, value_node, children_node]
      cases rest with
      | nil =>
          cases List.prefix_nil.mp hpre
          have hnil := hchild.children_eq_nil (Option.ne_none_iff_exists'.mpr ⟨value, hvalue⟩)
          rw [setValue, hnil]
          simp [addWriteToTree, ofValue, FPath.relativePath]
      | cons front rest => rw [addWriteToTree, if_neg (by simp), hfound]

/-- A write is remembered as it is added to a compound write. -/
theorem rememberData_eq (htree : IsWriteTree tree) (data : FNode K V) (path : FPath K) :
    rememberData data path tree = addWriteToTree tree data path := by
  induction path generalizing tree with
  | nil => rfl
  | cons childKey rest ih =>
      obtain ⟨value, children⟩ := tree
      cases value with
      | some value =>
          have hroot : findRootMostValueAndPath (childKey :: rest) (node (some value) children) =
              some ([], value) :=
            htree.findRootMostValueAndPath_eq_some.mpr ⟨List.nil_prefix, rfl⟩
          rw [rememberData, addWriteToTree, if_neg (by simp), hroot]
          rfl
      | none =>
          have hchild := htree.childOrEmpty childKey
          rw [children_node] at hchild
          rw [rememberData, ih hchild, addWriteToTree_below htree]

theorem isWriteTree_rememberData (htree : IsWriteTree tree) (data : FNode K V) (path : FPath K) :
    IsWriteTree (rememberData data path tree) := by
  rw [rememberData_eq htree]
  exact htree.addWriteToTree data path

/-! ### Splitting a value -/

/-- The children of a value as they are remembered when it is split. -/
def childTrees (value : FNode K V) : List (K × FSparseSnapshotTree K V) :=
  value.enumerateChildren.foldl (fun trees child => set (· < ·) child.1 (ofValue (some child.2)) trees) []

variable (value : FNode K V)

theorem splitValue_eq : splitValue value [] = node none (childTrees value) := by
  have hloop : ∀ (entries : List (K × FNode K V)) (trees : List (K × FSparseSnapshotTree K V)),
      entries.foldl (fun tree child => rememberData child.2 [child.1] tree) (node none trees) =
        node none (entries.foldl (fun trees child => set (· < ·) child.1 (ofValue (some child.2)) trees) trees) := by
    intro entries
    induction entries with
    | nil => exact fun _ => rfl
    | cons child rest ih => exact fun trees => ih _
  exact hloop _ _

theorem get_enumerateChildren (key : K) : get key value.enumerateChildren =
      if key = DatabaseKey.priority ∨ (value.getImmediateChild key).isEmpty = true then none
      else some (value.getImmediateChild key) := by
  have hmap : ∀ entries : List (K × NodeData K V),
      get key (entries.map fun entry => (entry.1, value.getImmediateChild entry.1)) =
        (get key entries).map fun _ => value.getImmediateChild key := by
    intro entries
    induction entries with
    | nil => rfl
    | cons entry rest ih =>
        rw [List.map_cons, get_cons, ih, get_cons]
        split_ifs with heq
        · rw [heq]
          rfl
        · rfl
  rw [FNode.enumerateChildren, hmap, FNode.get_childList]
  split_ifs <;> rfl

theorem nodup_keys_enumerateChildren : (value.enumerateChildren.map Prod.fst).Nodup := by
  rw [FNode.enumerateChildren, List.map_map]
  obtain ⟨data, hwf⟩ := value
  cases data with
  | empty => exact List.nodup_nil
  | leaf value priority => exact List.nodup_nil
  | children dict priority => exact (NodeData.wellFormed_children_iff.mp hwf).2.1.nodup_keys

theorem get_childTrees (key : K) : get key (childTrees value) =
      if key = DatabaseKey.priority ∨ (value.getImmediateChild key).isEmpty = true then none
      else some (ofValue (some (value.getImmediateChild key))) := by
  have hloop : ∀ entries : List (K × FNode K V), (entries.map Prod.fst).Nodup →
      ∀ trees : List (K × FSparseSnapshotTree K V),
        get key (entries.foldl (fun trees child => set (· < ·) child.1 (ofValue (some child.2)) trees) trees) =
          ((get key entries).map fun child => ofValue (some child)).or (get key trees) := by
    intro entries
    induction entries with
    | nil => exact fun _ _ => rfl
    | cons entry rest ih =>
        intro hnodup trees
        obtain ⟨hnotmem, hnodup⟩ := List.nodup_cons.mp hnodup
        rw [List.foldl_cons, ih hnodup, get_set, get_cons]
        by_cases hkey : entry.1 = key
        · have hrest : get key rest = none := not_not.mp (mt mem_keys_iff.mpr (hkey ▸ hnotmem))
          simp [hkey, hrest]
        · simp [hkey, Ne.symm hkey]
  rw [childTrees, hloop _ (nodup_keys_enumerateChildren value), get_enumerateChildren]
  split_ifs <;> rfl

theorem isWriteTree_childTrees : IsWriteTree (node none (childTrees value)) := by
  rw [← splitValue_eq]
  have hloop : ∀ (entries : List (K × FNode K V)) (tree : FSparseSnapshotTree K V), IsWriteTree tree →
      IsWriteTree (entries.foldl (fun tree child => rememberData child.2 [child.1] tree) tree) := by
    intro entries
    induction entries with
    | nil => exact fun _ htree => htree
    | cons child rest ih => exact fun tree htree => ih _ (isWriteTree_rememberData htree child.2 [child.1])
  exact hloop _ _ .empty

/-! ### Forgetting -/

@[simp] theorem forgetPath_empty (path : FPath K) :
    forgetPath path (FImmutableTree.empty : FSparseSnapshotTree K V) = (true, FImmutableTree.empty) := by
  cases path <;> rfl

/-- After the value is split, the path is forgotten among its children. -/
theorem forgetPath_value {value : FNode K V} (hleaf : value.isLeafNode = false) (childKey : K) (rest : FPath K) :
    forgetPath (childKey :: rest) (ofValue (some value)) =
      forgetPath (childKey :: rest) (node none (childTrees value)) := by
  rw [ofValue, forgetPath, hleaf, if_neg Bool.false_ne_true, splitValue_eq, forgetPath]

theorem forgetPath_leaf {value : FNode K V} (hleaf : value.isLeafNode = true) (childKey : K) (rest : FPath K) :
    forgetPath (childKey :: rest) (ofValue (some value)) = (false, ofValue (some value)) := by
  rw [ofValue, forgetPath, if_pos hleaf]

/-- Where there is no value, only the child on the path changes. It is removed when nothing of it is left. -/
theorem forgetPath_none {childKey : K} {rest : FPath K} (hsafe : ∀ child, get childKey children = some child →
      (forgetPath rest child).1 = (forgetPath rest child).2.isEmpty) :
    forgetPath (childKey :: rest) (node none children) =
      let left := replaceChild childKey
        (forgetPath rest ((get childKey children).getD FImmutableTree.empty)).2 children
      (left.isEmpty, node none left) := by
  rw [forgetPath, forgetBelow, children_node, value_node]
  cases hget : get childKey children with
  | none =>
      have hsame : remove childKey children = children :=
        List.filter_eq_self.mpr fun e he => decide_eq_true (get_eq_none_iff.mp hget e he)
      simp only [Option.getD_none, forgetPath_empty, replaceChild, isEmpty_empty, if_true, hsame]
      split_ifs with hempty
      · rw [hempty]
      · rfl
  | some child =>
      have hne : ¬children.isEmpty = true := by
        rw [List.isEmpty_iff]
        rintro rfl
        cases hget
      simp only [if_neg hne, Option.getD_some, replaceChild, hsafe child hget]

/-- What is left is again a tree of writes, and the answer is whether it is empty. -/
theorem isWriteTree_forgetPath (htree : IsWriteTree tree) (path : FPath K) :
    IsWriteTree (forgetPath path tree).2 ∧ (forgetPath path tree).1 = (forgetPath path tree).2.isEmpty := by
  induction path generalizing tree with
  | nil => exact ⟨.empty, rfl⟩
  | cons childKey rest ih =>
      have hnone : ∀ {children : List (K × FSparseSnapshotTree K V)}, IsWriteTree (node none children) →
          IsWriteTree (forgetPath (childKey :: rest) (node none children)).2 ∧
            (forgetPath (childKey :: rest) (node none children)).1 =
              (forgetPath (childKey :: rest) (node none children)).2.isEmpty := by
        intro children hnode
        have hleft : forgetPath (childKey :: rest) (node none children) = _ :=
          forgetPath_none fun child hget => (ih (hnode.child hget)).2
        rw [hleft]
        exact ⟨hnode.replaceChild (ih (hnode.childOrEmpty childKey)).1, rfl⟩
      obtain ⟨value, children⟩ := tree
      cases value with
      | none => exact hnone htree
      | some value =>
          have hnil : children = [] := htree.children_eq_nil (by simp)
          subst hnil
          rw [← ofValue]
          cases hleaf : value.isLeafNode with
          | true =>
              rw [forgetPath_leaf hleaf]
              exact ⟨htree, rfl⟩
          | false =>
              rw [forgetPath_value hleaf]
              exact hnone (isWriteTree_childTrees value)

end FSparseSnapshotTree

end FirebaseSwift.Database
