import FirebaseSwift.Database.Path

/-! The immutable tree of the client: every node may hold a value, and its children are a sorted
dictionary. All operations follow a path, or enumerate the tree with the children first. A tree is a
finite map from paths to values; `valueAt` after every operation says which. -/

namespace FirebaseSwift.Database

inductive FImmutableTree (K α : Type) where
  | node (value : Option α) (children : List (K × FImmutableTree K α))

namespace FImmutableTree

open SortedDictionary

variable {K α β σ : Type}

def value : FImmutableTree K α → Option α
  | node value _ => value

def children : FImmutableTree K α → List (K × FImmutableTree K α)
  | node _ children => children

/-- `FImmutableTree(value:)` -/
def ofValue (value : Option α) : FImmutableTree K α := node value []

def empty : FImmutableTree K α := ofValue none

def isEmpty (tree : FImmutableTree K α) : Bool := tree.value.isNone && tree.children.isEmpty

@[simp] theorem value_node (v : Option α) (c : List (K × FImmutableTree K α)) : (node v c).value = v := rfl

@[simp] theorem children_node (v : Option α) (c : List (K × FImmutableTree K α)) : (node v c).children = c := rfl

theorem isEmpty_iff {tree : FImmutableTree K α} : tree.isEmpty = true ↔ tree = empty := by
  obtain ⟨v, c⟩ := tree
  cases v <;> cases c <;> simp [isEmpty, empty, ofValue]

@[simp] theorem isEmpty_empty : (empty : FImmutableTree K α).isEmpty = true := rfl

section Paths

variable [LinearOrder K]

/-- `value(atPath:)` -/
def valueAt : FPath K → FImmutableTree K α → Option α
  | [], tree => tree.value
  | front :: rest, tree =>
      match get front tree.children with
      | none => none
      | some child => valueAt rest child

def subtree : FPath K → FImmutableTree K α → FImmutableTree K α
  | [], tree => tree
  | front :: rest, tree =>
      match get front tree.children with
      | none => empty
      | some childTree => subtree rest childTree

/-- The value nearest to the root, on the given path, that satisfies the predicate. -/
def findRootMost (predicate : α → Bool) : FPath K → FImmutableTree K α → Option (FPath K × α)
  | [], tree => (tree.value.filter predicate).map fun value => ([], value)
  | front :: rest, tree =>
      match tree.value.filter predicate with
      | some value => some ([], value)
      | none =>
          match get front tree.children with
          | none => none
          | some child =>
              (findRootMost predicate rest child).map fun found => (front :: found.1, found.2)

def findRootMostValueAndPath (relativePath : FPath K) (tree : FImmutableTree K α) :
    Option (FPath K × α) :=
  findRootMost (fun _ => true) relativePath tree

/-- The loop of `leafMostValue(onPath:)` -/
def leafMostValueFrom (currentValue : Option α) : FPath K → FImmutableTree K α → Option α
  | [], _ => currentValue
  | key :: rest, currentTree =>
      match get key currentTree.children with
      | none => currentValue
      | some child => leafMostValueFrom (if child.value.isSome then child.value else currentValue) rest child

def leafMostValue (relativePath : FPath K) (tree : FImmutableTree K α) : Option α :=
  leafMostValueFrom tree.value relativePath tree

def setValue (newValue : Option α) : FPath K → FImmutableTree K α → FImmutableTree K α
  | [], tree => node newValue tree.children
  | front :: rest, tree =>
      let child := (get front tree.children).getD empty
      node tree.value (set (· < ·) front (setValue newValue rest child) tree.children)

/-- The children after replacing one of them, which is removed when the new one is empty. -/
def replaceChild (front : K) (newChild : FImmutableTree K α)
    (children : List (K × FImmutableTree K α)) : List (K × FImmutableTree K α) :=
  if newChild.isEmpty then remove front children else set (· < ·) front newChild children

def removeValue : FPath K → FImmutableTree K α → FImmutableTree K α
  | [], tree => if tree.children.isEmpty then empty else node none tree.children
  | front :: rest, tree =>
      match get front tree.children with
      | none => tree
      | some child =>
          let newChildren := replaceChild front (removeValue rest child) tree.children
          if tree.value.isNone && newChildren.isEmpty then empty else node tree.value newChildren

def setTree (newTree : FImmutableTree K α) : FPath K → FImmutableTree K α → FImmutableTree K α
  | [], _ => newTree
  | front :: rest, tree =>
      let child := (get front tree.children).getD empty
      node tree.value (replaceChild front (setTree newTree rest child) tree.children)

/-- `find(onPath:pathSoFar:andApplyBlock:)`. The block's answer is wrapped once more by `map`, so the
first value on the path decides, also when the block answers `nil` there. -/
def find (block : FPath K → α → Option β) :
    FPath K → FPath K → FImmutableTree K α → Option β
  | [], pathSoFar, tree =>
      match tree.value with
      | some value => block pathSoFar value
      | none => none
  | front :: rest, pathSoFar, tree =>
      match tree.value with
      | some value => block pathSoFar value
      | none =>
          match get front tree.children with
          | none => none
          | some nextChild => find block rest (pathSoFar ++ [front]) nextChild

/-- `forEachOn(path:whileBlock:)`, with the variables that the block assigns as a state. -/
def forEachOn (whileBlock : FPath K → α → σ → σ × Bool) :
    FPath K → FPath K → FImmutableTree K α → σ → σ
  | [], pathSoFar, tree, state =>
      match tree.value with
      | some value => (whileBlock pathSoFar value state).1
      | none => state
  | front :: rest, pathSoFar, tree, state =>
      let visited := match tree.value with
        | some value => whileBlock pathSoFar value state
        | none => (state, true)
      if visited.2 then
        match get front tree.children with
        | none => visited.1
        | some nextChild => forEachOn whileBlock rest (pathSoFar ++ [front]) nextChild visited.1
      else visited.1

end Paths

section Enumeration

mutual

/-- The values with their paths in the order in which `forEachPathSoFar` visits them. -/
def forEachPathSoFar (pathSoFar : FPath K) : FImmutableTree K α → List (FPath K × α)
  | node value children =>
      forEachPathOfChildren pathSoFar children ++ (value.toList.map fun v => (pathSoFar, v))

def forEachPathOfChildren (pathSoFar : FPath K) :
    List (K × FImmutableTree K α) → List (FPath K × α)
  | [] => []
  | (childKey, childTree) :: rest =>
      forEachPathSoFar (pathSoFar ++ [childKey]) childTree ++ forEachPathOfChildren pathSoFar rest

end

def forEach (tree : FImmutableTree K α) : List (FPath K × α) := forEachPathSoFar [] tree

mutual

/-- `fold(withBlock:)` -/
def fold (block : FPath K → Option α → List (K × β) → β) (pathSoFar : FPath K) :
    FImmutableTree K α → β
  | node value children => block pathSoFar value (foldChildren block pathSoFar children)

def foldChildren (block : FPath K → Option α → List (K × β) → β) (pathSoFar : FPath K) :
    List (K × FImmutableTree K α) → List (K × β)
  | [] => []
  | (childKey, childTree) :: rest =>
      (childKey, fold block (pathSoFar ++ [childKey]) childTree) ::
        foldChildren block pathSoFar rest

end

end Enumeration

/-! ### What the operations store -/

section Values

variable [LinearOrder K]

@[simp] theorem valueAt_nil (tree : FImmutableTree K α) : valueAt [] tree = tree.value := rfl

variable (front : K) (newValue : Option α) {path : FPath K} {predicate : α → Bool} {v : α}
variable {tree : FImmutableTree K α} (whileBlock : FPath K → α → σ → σ × Bool)

theorem valueAt_cons (rest : FPath K) (tree : FImmutableTree K α) :
    valueAt (front :: rest) tree = (get front tree.children).bind (valueAt rest) := by
  rw [valueAt]
  cases get front tree.children <;> rfl

@[simp] theorem valueAt_empty (path : FPath K) : valueAt path (empty : FImmutableTree K α) = none := by
  cases path <;> rfl

theorem valueAt_getD (rest : FPath K) (tree : FImmutableTree K α) :
    valueAt rest ((get front tree.children).getD empty) = valueAt (front :: rest) tree := by
  rw [valueAt_cons]
  cases get front tree.children with
  | none => exact valueAt_empty rest
  | some child => rfl

theorem bind_get_replaceChild (key : K) (rest : FPath K) (newChild : FImmutableTree K α)
    (children : List (K × FImmutableTree K α)) :
    (get key (replaceChild front newChild children)).bind (valueAt rest) =
      if key = front then valueAt rest newChild else (get key children).bind (valueAt rest) := by
  unfold replaceChild
  by_cases hempty : newChild.isEmpty = true
  · rw [if_pos hempty, get_remove, isEmpty_iff.mp hempty, valueAt_empty]
    split_ifs <;> rfl
  · rw [if_neg hempty, get_set]
    split_ifs <;> rfl

theorem valueAt_setValue (path other : FPath K) (tree : FImmutableTree K α) :
    valueAt other (setValue newValue path tree) =
      if other = path then newValue else valueAt other tree := by
  induction path generalizing other tree with
  | nil => cases other <;> simp [setValue, valueAt_cons]
  | cons front rest ih =>
      cases other with
      | nil => simp [setValue]
      | cons key other =>
          rw [setValue, valueAt_cons, children_node, get_set]
          by_cases hkey : key = front
          · subst hkey
            simp only [if_pos, Option.bind_some, ih, valueAt_getD, List.cons.injEq, true_and]
          · simp [hkey, valueAt_cons]

theorem valueAt_setTree (newTree : FImmutableTree K α) (path other : FPath K) (tree : FImmutableTree K α) :
    valueAt other (setTree newTree path tree) =
      if path <+: other then valueAt (other.drop path.length) newTree else valueAt other tree := by
  induction path generalizing other tree with
  | nil => simp [setTree]
  | cons front rest ih =>
      cases other with
      | nil => simp [setTree]
      | cons key other =>
          rw [setTree, valueAt_cons, children_node, bind_get_replaceChild, ih, valueAt_getD]
          by_cases hkey : key = front
          · subst hkey
            simp [List.cons_prefix_cons]
          · simp [List.cons_prefix_cons, hkey, Ne.symm hkey, valueAt_cons]

theorem valueAt_subtree (path other : FPath K) (tree : FImmutableTree K α) :
    valueAt other (subtree path tree) = valueAt (path ++ other) tree := by
  induction path generalizing tree with
  | nil => rfl
  | cons front rest ih =>
      rw [subtree, List.cons_append, valueAt_cons]
      cases get front tree.children with
      | none => simp
      | some child => simp [ih]

theorem subtree_setValue_self (path : FPath K) (tree : FImmutableTree K α) :
    subtree path (setValue newValue path tree) = node newValue (subtree path tree).children := by
  induction path generalizing tree with
  | nil => rfl
  | cons front rest ih =>
      rw [setValue, subtree, subtree, children_node, get_set_self]
      dsimp only
      rw [ih]
      cases get front tree.children with
      | none =>
          have hempty : subtree rest (empty : FImmutableTree K α) = empty := by
            cases rest <;> rfl
          rw [Option.getD_none, hempty]
      | some childTree => rfl

theorem valueAt_removeValue (path other : FPath K) (tree : FImmutableTree K α) :
    valueAt other (removeValue path tree) = if other = path then none else valueAt other tree := by
  induction path generalizing other tree with
  | nil =>
      rw [removeValue]
      cases hchildren : tree.children with
      | nil => cases other <;> simp [valueAt_cons, hchildren]
      | cons e l => cases other <;> simp [valueAt_cons, hchildren]
  | cons front rest ih =>
      rw [removeValue]
      cases hchild : get front tree.children with
      | none =>
          by_cases h : other = front :: rest
          · simp [h, valueAt_cons, hchild]
          · simp [h]
      | some child =>
          have hnode : valueAt other
              (node tree.value (replaceChild front (removeValue rest child) tree.children)) =
                if other = front :: rest then none else valueAt other tree := by
            cases other with
            | nil => simp
            | cons key other =>
                rw [valueAt_cons, children_node, bind_get_replaceChild, ih]
                by_cases hkey : key = front
                · subst hkey
                  simp [valueAt_cons, hchild]
                · simp [hkey, valueAt_cons]
          simp only
          split_ifs with hnone hpath hpath
          · exact valueAt_empty other
          · rw [if_neg hpath] at hnode
            rw [valueAt_empty, ← hnode]
            simp only [Bool.and_eq_true, Option.isNone_iff_eq_none, List.isEmpty_iff] at hnone
            cases other <;> simp [valueAt_cons, hnone.1, hnone.2]
          · rw [hnode, if_pos hpath]
          · rw [hnode, if_neg hpath]

/-- The root-most value lies on the path, and nothing above it satisfies the predicate. -/
theorem findRootMost_eq_some {found : FPath K} : findRootMost predicate path tree = some (found, v) ↔
      found <+: path ∧ (valueAt found tree).filter predicate = some v ∧
        ∀ above, above <+: found → above ≠ found → (valueAt above tree).filter predicate = none := by
  induction path generalizing found tree with
  | nil =>
      rw [findRootMost, List.prefix_nil]
      constructor
      · intro h
        obtain ⟨w, hw, heq⟩ := Option.map_eq_some_iff.mp h
        cases heq
        exact ⟨rfl, hw, fun above habove hne => absurd (List.prefix_nil.mp habove) hne⟩
      · rintro ⟨rfl, hv, _⟩
        rw [valueAt_nil] at hv
        rw [hv]
        rfl
  | cons front rest ih =>
      rw [findRootMost]
      cases hroot : tree.value.filter predicate with
      | some w =>
          constructor
          · intro h
            cases h
            exact ⟨List.nil_prefix, hroot, fun above habove hne => absurd (List.prefix_nil.mp habove) hne⟩
          · rintro ⟨_, hv, habove⟩
            by_cases hfound : found = []
            · subst hfound
              rw [valueAt_nil, hroot] at hv
              cases hv
              rfl
            · have := habove [] List.nil_prefix (Ne.symm hfound)
              rw [valueAt_nil, hroot] at this
              cases this
      | none =>
          cases hchild : get front tree.children with
          | none =>
              constructor
              · intro h
                cases h
              · rintro ⟨hpre, hv, _⟩
                rcases List.prefix_cons_iff.mp hpre with rfl | ⟨found, rfl, _⟩
                · rw [valueAt_nil, hroot] at hv
                  cases hv
                · rw [valueAt_cons, hchild] at hv
                  cases hv
          | some child =>
              constructor
              · intro h
                obtain ⟨⟨found', w⟩, hfound, heq⟩ := Option.map_eq_some_iff.mp h
                cases heq
                obtain ⟨hpre, hv, habove⟩ := ih.mp hfound
                refine ⟨List.cons_prefix_cons.mpr ⟨rfl, hpre⟩, ?_, fun above h hne => ?_⟩
                · rw [valueAt_cons, hchild]
                  exact hv
                · rcases List.prefix_cons_iff.mp h with rfl | ⟨above, rfl, habove'⟩
                  · exact hroot
                  · rw [valueAt_cons, hchild]
                    exact habove above (List.cons_prefix_cons.mp h).2 fun heq => hne (by rw [heq])
              · rintro ⟨hpre, hv, habove⟩
                rcases List.prefix_cons_iff.mp hpre with rfl | ⟨found, rfl, hfound⟩
                · rw [valueAt_nil, hroot] at hv
                  cases hv
                · rw [valueAt_cons, hchild] at hv
                  have hfound : findRootMost predicate rest child = some (found, v) := by
                    refine ih.mpr ⟨hfound, hv, fun above h hne => ?_⟩
                    have := habove (front :: above) (List.cons_prefix_cons.mpr ⟨rfl, h⟩)
                      fun heq => hne (List.cons.inj heq).2
                    rwa [valueAt_cons, hchild] at this
                  simp only [hfound, Option.map_some]

theorem findRootMost_eq_none : findRootMost predicate path tree = none ↔
      ∀ above, above <+: path → (valueAt above tree).filter predicate = none := by
  induction path generalizing tree with
  | nil => simp [findRootMost]
  | cons front rest ih =>
      rw [findRootMost]
      cases hroot : tree.value.filter predicate with
      | some w =>
          refine ⟨fun h => (nomatch h), fun h => ?_⟩
          have := h [] List.nil_prefix
          rw [valueAt_nil, hroot] at this
          cases this
      | none =>
          constructor
          · intro h above habove
            rcases List.prefix_cons_iff.mp habove with rfl | ⟨above, rfl, hbelow⟩
            · exact hroot
            · rw [valueAt_cons]
              cases hchild : get front tree.children with
              | none => rfl
              | some child =>
                  rw [hchild] at h
                  exact ih.mp (Option.map_eq_none_iff.mp h) above hbelow
          · intro h
            cases hchild : get front tree.children with
            | none => rfl
            | some child =>
                refine Option.map_eq_none_iff.mpr (ih.mpr fun above habove => ?_)
                have := h (front :: above) (List.cons_prefix_cons.mpr ⟨rfl, habove⟩)
                rwa [valueAt_cons, hchild] at this

omit [LinearOrder K] in
theorem filter_const_true (o : Option α) : (o.filter fun _ => true) = o := by
  cases o <;> rfl

theorem findRootMostValueAndPath_eq_none : findRootMostValueAndPath path tree = none ↔
      ∀ above, above <+: path → valueAt above tree = none := by
  rw [findRootMostValueAndPath, findRootMost_eq_none]
  simp only [filter_const_true]

/-! ### The values on a path -/

/-- The values at the path and above it, from the root down. -/
def valuesOnPath : FPath K → FImmutableTree K α → List (FPath K × α)
  | [], tree => tree.value.toList.map fun value => ([], value)
  | front :: rest, tree =>
      (tree.value.toList.map fun value => ([], value)) ++
        match get front tree.children with
        | none => []
        | some child => (valuesOnPath rest child).map fun found => (front :: found.1, found.2)

theorem mem_valuesOnPath {above : FPath K} :
    (above, v) ∈ valuesOnPath path tree ↔ above <+: path ∧ valueAt above tree = some v := by
  induction path generalizing above tree with
  | nil =>
      cases above with
      | nil => simp [valuesOnPath]
      | cons front rest => simp [valuesOnPath]
  | cons front rest ih =>
      cases above with
      | nil => cases hchild : get front tree.children <;> simp [valuesOnPath, hchild]
      | cons key above =>
          rw [valueAt_cons, List.cons_prefix_cons]
          cases hchild : get front tree.children with
          | none =>
              simp only [valuesOnPath, hchild, List.append_nil, List.mem_map, Option.mem_toList,
                Prod.mk.injEq, List.nil_eq, reduceCtorEq, false_and, and_false,
                exists_false, false_iff, not_and]
              rintro ⟨rfl, _⟩
              simp [hchild]
          | some child =>
              by_cases hkey : key = front
              · subst hkey
                simp [valuesOnPath, hchild, ih]
              · simp [valuesOnPath, hchild, hkey, Ne.symm hkey]

theorem head?_valuesOnPath (path : FPath K) (tree : FImmutableTree K α) :
    (valuesOnPath path tree).head? = findRootMostValueAndPath path tree := by
  unfold findRootMostValueAndPath
  induction path generalizing tree with
  | nil => cases hvalue : tree.value <;> simp [valuesOnPath, findRootMost, hvalue, filter_const_true]
  | cons front rest ih =>
      cases hvalue : tree.value with
      | some value => simp [valuesOnPath, findRootMost, hvalue, filter_const_true]
      | none =>
          cases hchild : get front tree.children with
          | none => simp [valuesOnPath, findRootMost, hvalue, hchild]
          | some child => simp [valuesOnPath, findRootMost, hvalue, hchild, ih]

/-- The last value on the path -/
theorem leafMostValue_eq (path : FPath K) (tree : FImmutableTree K α) :
    leafMostValue path tree = ((valuesOnPath path tree).map Prod.snd).getLast? := by
  have hfrom : ∀ (path : FPath K) (tree : FImmutableTree K α) (currentValue : Option α),
      leafMostValueFrom (if tree.value.isSome then tree.value else currentValue) path tree =
        (currentValue.toList ++ (valuesOnPath path tree).map Prod.snd).getLast? := by
    intro path
    induction path with
    | nil =>
        intro tree currentValue
        cases hvalue : tree.value <;> cases currentValue <;> simp [leafMostValueFrom, valuesOnPath, hvalue]
    | cons front rest ih =>
        intro tree currentValue
        rw [leafMostValueFrom]
        cases hchild : get front tree.children with
        | none =>
            cases hvalue : tree.value <;> cases currentValue <;> simp [valuesOnPath, hvalue, hchild]
        | some child =>
            dsimp only
            rw [ih]
            cases hvalue : tree.value <;> cases currentValue <;>
              simp [valuesOnPath, hvalue, hchild, Function.comp_def]
  have hroot := hfrom path tree none
  rw [Option.toList_none, List.nil_append] at hroot
  rw [← hroot, leafMostValue]
  cases tree.value <;> rfl

/-- The values on a path stand in the order of their paths. -/
theorem valuesOnPath_pairwise (path : FPath K) (tree : FImmutableTree K α) :
    (valuesOnPath path tree).Pairwise fun above below => above.1 <+: below.1 := by
  induction path generalizing tree with
  | nil =>
      rw [valuesOnPath]
      cases tree.value <;> simp
  | cons front rest ih =>
      rw [valuesOnPath, List.pairwise_append]
      refine ⟨by cases tree.value <;> simp, ?_, ?_⟩
      · cases get front tree.children with
        | none => exact List.Pairwise.nil
        | some child =>
            refine List.Pairwise.map _ (fun above below hle => ?_) (ih child)
            exact List.cons_prefix_cons.mpr ⟨rfl, hle⟩
      · intro above habove below _
        obtain ⟨value, _, rfl⟩ := List.mem_map.mp habove
        exact List.nil_prefix

theorem valuesOnPath_eq_nil : valuesOnPath path tree = [] ↔ ∀ above, above <+: path → valueAt above tree = none := by
  rw [← List.head?_eq_none_iff, head?_valuesOnPath, findRootMostValueAndPath_eq_none]

/-- The leaf-most value lies on the path, and every value on the path is at or above it. -/
theorem leafMostValue_eq_some : leafMostValue path tree = some v ↔
      ∃ lowest, lowest <+: path ∧ valueAt lowest tree = some v ∧
        ∀ above w, above <+: path → valueAt above tree = some w → above <+: lowest := by
  rw [leafMostValue_eq]
  have hpairwise := valuesOnPath_pairwise path tree
  cases hvalues : valuesOnPath path tree using List.reverseRecOn with
  | nil =>
      refine iff_of_false nofun ?_
      rintro ⟨lowest, hle, hvalue, -⟩
      rw [valuesOnPath_eq_nil.mp hvalues lowest hle] at hvalue
      cases hvalue
  | append_singleton values last _ =>
      obtain ⟨last, value⟩ := last
      rw [hvalues] at hpairwise
      have hmem : (last, value) ∈ valuesOnPath path tree := by
        rw [hvalues]
        exact List.mem_append_right _ (List.mem_singleton_self _)
      obtain ⟨hle, hvalue⟩ := mem_valuesOnPath.mp hmem
      have hbelow : ∀ above w, above <+: path → valueAt above tree = some w → above <+: last := by
        intro above w habove hw
        have hfound := mem_valuesOnPath.mpr ⟨habove, hw⟩
        rw [hvalues] at hfound
        rcases List.mem_append.mp hfound with hfound | hfound
        · exact (List.pairwise_append.mp hpairwise).2.2 _ hfound _ (List.mem_singleton_self _)
        · cases List.mem_singleton.mp hfound
          exact List.prefix_rfl
      rw [List.map_append, List.map_singleton, List.getLast?_concat]
      constructor
      · intro h
        cases h
        exact ⟨last, hle, hvalue, hbelow⟩
      · rintro ⟨lowest, hlowest, hv, hlast⟩
        have hlength := (hbelow lowest v hlowest hv).length_le
        have heq := (hlast last value hle hvalue).eq_of_length_le hlength
        rw [← heq, hvalue] at hv
        exact hv

theorem leafMostValue_eq_none :
    leafMostValue path tree = none ↔ ∀ above, above <+: path → valueAt above tree = none := by
  rw [leafMostValue_eq, List.getLast?_eq_none_iff, List.map_eq_nil_iff, valuesOnPath_eq_nil]

/-- The value of the path itself is the last one on it. -/
theorem leafMostValue_of_valueAt (h : valueAt path tree = some v) : leafMostValue path tree = some v :=
  leafMostValue_eq_some.mpr ⟨path, List.prefix_rfl, h, fun _ _ habove _ => habove⟩

/-- The first value on a path, where nothing lies above it. -/
theorem head?_valuesOnPath_of_first {found : FPath K} (hle : found <+: path) (hv : valueAt found tree = some v)
    (habove : ∀ above, above <+: found → above ≠ found → valueAt above tree = none) :
    (valuesOnPath path tree).head? = some (found, v) := by
  rw [head?_valuesOnPath, findRootMostValueAndPath, findRootMost_eq_some]
  exact ⟨hle, by rw [hv]; rfl, fun above hle' hne => by rw [habove above hle' hne]; rfl⟩

/-- `find` asks the first value on the path, and no other. -/
theorem find_eq (block : FPath K → α → Option β) (path pathSoFar : FPath K) (tree : FImmutableTree K α) :
    find block path pathSoFar tree =
      (valuesOnPath path tree).head?.bind fun found => block (pathSoFar ++ found.1) found.2 := by
  induction path generalizing pathSoFar tree with
  | nil => cases hvalue : tree.value <;> simp [find, valuesOnPath, hvalue]
  | cons front rest ih =>
      cases hvalue : tree.value with
      | some value => simp [find, valuesOnPath, hvalue]
      | none =>
          cases hchild : get front tree.children with
          | none => simp [find, valuesOnPath, hvalue, hchild]
          | some child =>
              simp only [find, valuesOnPath, hvalue, hchild, ih, Option.toList_none, List.map_nil,
                List.nil_append, List.head?_map]
              cases (valuesOnPath rest child).head? <;> simp

/-- The block for one value after the other, as long as it says so. -/
def visitWhile (whileBlock : FPath K → α → σ → σ × Bool) : List (FPath K × α) → σ → σ
  | [], state => state
  | found :: rest, state =>
      let visited := whileBlock found.1 found.2 state
      if visited.2 then visitWhile whileBlock rest visited.1 else visited.1

omit [LinearOrder K] in
/-- A search that stops at the first value that passes a test. -/
theorem visitWhile_any (test : α → Bool) (found : List (FPath K × α)) :
    visitWhile (fun _ value found => (found || test value, !(found || test value))) found false =
      found.any fun entry => test entry.2 := by
  induction found with
  | nil => rfl
  | cons entry rest ih =>
      rw [visitWhile, List.any_cons, ← ih]
      cases test entry.2 <;> simp

omit [LinearOrder K] in
theorem visitWhile_map (front : K) (found : List (FPath K × α)) (state : σ) :
    visitWhile whileBlock (found.map fun e => (front :: e.1, e.2)) state =
      visitWhile (fun path => whileBlock (front :: path)) found state := by
  induction found generalizing state with
  | nil => rfl
  | cons e rest ih => simp only [List.map_cons, visitWhile, ih]

theorem forEachOn_eq (path pathSoFar : FPath K) (tree : FImmutableTree K α) (state : σ) :
    forEachOn whileBlock path pathSoFar tree state =
      visitWhile (fun path => whileBlock (pathSoFar ++ path)) (valuesOnPath path tree) state := by
  induction path generalizing pathSoFar tree state with
  | nil => cases hvalue : tree.value <;> simp [forEachOn, valuesOnPath, visitWhile, hvalue]
  | cons front rest ih =>
      have hrest : ∀ s, (match get front tree.children with
          | none => s
          | some nextChild => forEachOn whileBlock rest (pathSoFar ++ [front]) nextChild s) =
          visitWhile (fun path => whileBlock (pathSoFar ++ path))
            (match get front tree.children with
              | none => []
              | some child => (valuesOnPath rest child).map fun found => (front :: found.1, found.2))
            s := by
        intro s
        cases get front tree.children with
        | none => rfl
        | some child => simp only [ih, visitWhile_map, List.append_assoc, List.singleton_append]
      cases hvalue : tree.value with
      | none => simp only [forEachOn, valuesOnPath, hvalue, hrest, if_true]; rfl
      | some value => simp only [forEachOn, valuesOnPath, hvalue, hrest]; simp [visitWhile]

end Values

/-! ### Enumerating the values -/

variable (pathSoFar : FPath K)

theorem forEachPathOfChildren_eq (children : List (K × FImmutableTree K α)) :
    forEachPathOfChildren pathSoFar children =
      children.flatMap fun e => forEachPathSoFar (pathSoFar ++ [e.1]) e.2 := by
  induction children with
  | nil => rfl
  | cons e rest ih => rw [forEachPathOfChildren, ih, List.flatMap_cons]

theorem forEachPathSoFar_node (value : Option α) (children : List (K × FImmutableTree K α)) :
    forEachPathSoFar pathSoFar (node value children) =
      (children.flatMap fun e => forEachPathSoFar (pathSoFar ++ [e.1]) e.2) ++
        (value.toList.map fun v => (pathSoFar, v)) := by
  rw [forEachPathSoFar, forEachPathOfChildren_eq]

end FImmutableTree

end FirebaseSwift.Database
