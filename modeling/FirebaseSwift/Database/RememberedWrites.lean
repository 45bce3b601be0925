import FirebaseSwift.Database.SparseSnapshotTree
import FirebaseSwift.Library.StepRuns

/-! Forgetting a part of the remembered writes. What is remembered at a path is the leaf that a write
puts there, or the null that it writes there. A forgotten path takes what is remembered at it and below it
out of the tree. Where it lies below a write, the value of the write is split on the way down, and the
children that are remembered in its place carry neither its priority nor its null. -/

namespace FirebaseSwift.Database

open SortedDictionary FImmutableTree

namespace FSparseSnapshotTree

variable {K V : Type} [DatabaseKey K]

/-- The value of the leaf at the path. The priority of a node lies under its own key. -/
def leafUnder : FPath K → FNode K V → Option V
  | [], value => value.leafValue
  | key :: rest, value => leafUnder rest (value.getImmediateChild key)

/-- What a written value says at a path: a leaf, or `some none` for a written null. -/
def factIn (path : FPath K) (value : FNode K V) : Option (Option V) :=
  if path.isEmpty && value.isEmpty then some none else (leafUnder path value).map some

/-- The fact is remembered for the path by one of the enumerated writes. -/
def Remembers (tree : FSparseSnapshotTree K V) (path : FPath K) (fact : Option V) : Prop :=
  ∃ write ∈ forEachTreeAtPath [] tree, ∃ rest, path = write.1 ++ rest ∧ factIn rest write.2 = some fact

/-- Exactly the facts at the path and below are gone, and a write beside the path is untouched. -/
structure Forgets (path : FPath K) (tree left : FSparseSnapshotTree K V) : Prop where
  remembers_iff : ∀ other fact, Remembers left other fact ↔ Remembers tree other fact ∧ ¬path <+: other
  beside : ∀ write ∈ forEachTreeAtPath [] tree, ¬write.1 <+: path → ¬path <+: write.1 →
    write ∈ forEachTreeAtPath [] left

/-- The write changes the value of the one that covers it, or else takes the place of those below it. -/
structure Records (data : FNode K V) (path : FPath K) (tree recorded : FSparseSnapshotTree K V) : Prop where
  covered : ∀ found ∈ forEachTreeAtPath [] tree, found.1 <+: path → ∀ write,
    write ∈ forEachTreeAtPath [] recorded ↔
      write = (found.1, found.2.updateChild (FPath.relativePath found.1 path) data) ∨
        (write ∈ forEachTreeAtPath [] tree ∧ write.1 ≠ found.1)
  free : (∀ found ∈ forEachTreeAtPath [] tree, ¬found.1 <+: path) → ∀ write,
    write ∈ forEachTreeAtPath [] recorded ↔
      write = (path, data) ∨ (write ∈ forEachTreeAtPath [] tree ∧ ¬path <+: write.1)

/-- No node that is split on the way down has a priority of which something has to stay, and the path does
not end in the priority of a leaf, where it would be left alone. -/
def SplitsCleanly : FPath K → FNode K V → Prop
  | [], _ => True
  | key :: rest, value =>
      if value.isLeafNode then
        key = DatabaseKey.priority → ∀ other, rest <+: other → leafUnder other value.getPriority = none
      else if key = DatabaseKey.priority then
        ∀ other, ¬rest <+: other → leafUnder other value.getPriority = none
      else value.getPriority = FNode.empty ∧ SplitsCleanly rest (value.getImmediateChild key)

/-- No written null lies above the path, and a written value above it splits cleanly. -/
def CanForget (path : FPath K) (tree : FSparseSnapshotTree K V) : Prop :=
  ∀ write ∈ forEachTreeAtPath [] tree, ∀ key rest, path = write.1 ++ key :: rest →
    write.2 ≠ FNode.empty ∧ SplitsCleanly (key :: rest) write.2

variable {tree : FSparseSnapshotTree K V} {children : List (K × FSparseSnapshotTree K V)}

/-! ### Facts -/

variable (path : FPath K) {value : FNode K V}

theorem leafUnder_empty : leafUnder path (FNode.empty : FNode K V) = none := by
  induction path with
  | nil => rfl
  | cons key rest ih => rw [leafUnder, FNode.getImmediateChild_empty, ih]

/-- A node without any leaf is empty. -/
theorem leafUnder_eq_none_iff : (∀ path, leafUnder path value = none) ↔ value = FNode.empty := by
  constructor
  · intro hnone
    induction hsize : sizeOf value.data using Nat.strong_induction_on generalizing value with
    | _ size ih =>
        refine FNode.eq_empty_of_observations (hnone []) fun key hkey => ?_
        by_contra hchild
        exact hchild (ih _ (hsize ▸ FNode.sizeOf_getImmediateChild_lt hkey hchild)
          (fun path => hnone (key :: path)) rfl)
  · rintro rfl path
    exact leafUnder_empty path

theorem factIn_cons (key : K) (rest : FPath K) (value : FNode K V) :
    factIn (key :: rest) value = (leafUnder rest (value.getImmediateChild key)).map some := rfl

theorem factIn_of_ne_empty (hvalue : value.isEmpty = false) (path : FPath K) :
    factIn path value = (leafUnder path value).map some := by
  rw [factIn, hvalue, Bool.and_false, if_neg Bool.false_ne_true]

/-- The fact that is found on the way down. -/
def factAt : FPath K → FSparseSnapshotTree K V → Option (Option V)
  | path, node (some value) _ => factIn path value
  | [], node none _ => none
  | key :: rest, node none children => (get key children).bind fun child => factAt rest child

theorem forEachTreeAtPath_eq (htree : IsWriteTree tree) (prefixPath : FPath K) :
    forEachTreeAtPath prefixPath tree = forEachPathSoFar prefixPath tree := by
  induction htree generalizing prefixPath with
  | intro value children _ _ _ hvalue ih =>
      rw [forEachPathSoFar_node]
      cases value with
      | some value =>
          rw [hvalue (Option.some_ne_none value)]
          rfl
      | none =>
          have hloop : ∀ entries : List (K × FSparseSnapshotTree K V), entries ⊆ children →
              forEachChildTree prefixPath entries =
                entries.flatMap fun entry => forEachPathSoFar (prefixPath ++ [entry.1]) entry.2 := by
            intro entries hsubset
            induction entries with
            | nil => rfl
            | cons entry rest ihRest =>
                obtain ⟨hentry, hrest⟩ := List.cons_subset.mp hsubset
                rw [forEachChildTree, List.flatMap_cons, ih entry hentry, ihRest hrest]
          rw [forEachTreeAtPath, Option.toList_none, List.map_nil, List.append_nil]
          exact hloop children (List.Subset.refl children)

theorem mem_forEachTreeAtPath (htree : IsWriteTree tree) {write : FPath K × FNode K V} :
    write ∈ forEachTreeAtPath [] tree ↔ valueAt write.1 tree = some write.2 := by
  rw [forEachTreeAtPath_eq htree]
  exact htree.mem_forEach

theorem remembers_iff (htree : IsWriteTree tree) {path : FPath K} {fact : Option V} :
    Remembers tree path fact ↔ factAt path tree = some fact := by
  have hvalues : Remembers tree path fact ↔ ∃ above value rest, valueAt above tree = some value ∧
      path = above ++ rest ∧ factIn rest value = some fact := by
    constructor
    · rintro ⟨write, hwrite, rest, hpath, hfact⟩
      exact ⟨write.1, write.2, rest, (mem_forEachTreeAtPath htree).mp hwrite, hpath, hfact⟩
    · rintro ⟨above, value, rest, hvalue, hpath, hfact⟩
      exact ⟨(above, value), (mem_forEachTreeAtPath htree).mpr hvalue, rest, hpath, hfact⟩
  rw [hvalues]
  clear hvalues
  induction path generalizing tree with
  | nil =>
      obtain ⟨value, children⟩ := tree
      constructor
      · rintro ⟨above, w, rest, hvalue, hpath, hfact⟩
        obtain ⟨rfl, rfl⟩ := List.append_eq_nil_iff.mp hpath.symm
        cases hvalue
        exact hfact
      · intro hfact
        cases value with
        | none => cases hfact
        | some value => exact ⟨[], value, [], rfl, rfl, hfact⟩
  | cons key path ih =>
      obtain ⟨value, children⟩ := tree
      cases value with
      | some value =>
          constructor
          · rintro ⟨above, w, rest, hvalue, hpath, hfact⟩
            cases above with
            | nil =>
                cases hvalue
                subst hpath
                exact hfact
            | cons front above =>
                rw [htree.valueAt_below (Option.some_ne_none value)] at hvalue
                cases hvalue
          · exact fun hfact => ⟨[], value, key :: path, rfl, rfl, hfact⟩
      | none =>
          rw [factAt, Option.bind_eq_some_iff]
          constructor
          · rintro ⟨above, w, rest, hvalue, hpath, hfact⟩
            cases above with
            | nil => cases hvalue
            | cons front above =>
                obtain ⟨rfl, rfl⟩ := List.cons.inj hpath
                rw [valueAt_cons, children_node, Option.bind_eq_some_iff] at hvalue
                obtain ⟨child, hget, hvalue⟩ := hvalue
                exact ⟨child, hget, (ih (htree.child hget)).mp ⟨above, w, rest, hvalue, rfl, hfact⟩⟩
          · rintro ⟨child, hget, hfact⟩
            obtain ⟨above, w, rest, hvalue, hpath, hfact⟩ := (ih (htree.child hget)).mpr hfact
            refine ⟨key :: above, w, rest, ?_, by rw [hpath, List.cons_append], hfact⟩
            rw [valueAt_cons, children_node, hget]
            exact hvalue

/-! ### Forgetting -/

theorem factAt_none_cons (key : K) (rest : FPath K) : factAt (key :: rest) (node none children) =
      factAt rest ((get key children).getD FImmutableTree.empty) := by
  rw [factAt]
  cases get key children with
  | some child => rfl
  | none => cases rest <;> rfl

theorem get_replaceChild_getD (front key : K) (newChild : FSparseSnapshotTree K V) :
    (get key (replaceChild front newChild children)).getD FImmutableTree.empty =
      if key = front then newChild else (get key children).getD FImmutableTree.empty := by
  rw [replaceChild]
  by_cases hempty : newChild.isEmpty = true
  · rw [if_pos hempty, get_remove]
    split_ifs
    · exact (isEmpty_iff.mp hempty).symm
    · rfl
  · rw [if_neg hempty, get_set]
    split_ifs <;> rfl

/-- What a value without a null at its root says below its children, which is what they say. -/
theorem factAt_childTrees (value : FNode K V) {key : K} (hkey : key ≠ DatabaseKey.priority) (rest : FPath K) :
    factAt (key :: rest) (node none (childTrees value)) = factIn (key :: rest) value := by
  rw [factAt, get_childTrees, factIn_cons]
  by_cases hempty : (value.getImmediateChild key).isEmpty = true
  · rw [if_pos (Or.inr hempty), FNode.isEmpty_iff.mp hempty, leafUnder_empty]
    rfl
  · rw [if_neg (not_or.mpr ⟨hkey, hempty⟩)]
    rw [Option.bind_some, ofValue, factAt]
    exact factIn_of_ne_empty (Bool.not_eq_true _ ▸ hempty) rest

theorem factAt_childTrees_priority (value : FNode K V) (rest : FPath K) :
    factAt (DatabaseKey.priority :: rest) (node none (childTrees value)) = none := by
  rw [factAt, get_childTrees, if_pos (Or.inl rfl)]
  rfl

/-- What is left at a path after forgetting another one. -/
def ForgetsAt (path : FPath K) (tree left : FSparseSnapshotTree K V) : Prop :=
  ∀ other, factAt other left = if path <+: other then none else factAt other tree

/-- Where there is no value, a path is forgotten as the rest of it is in the child. -/
theorem forgetsAt_none (hnode : IsWriteTree (node none children)) (key : K) (rest : FPath K) :
    ForgetsAt (key :: rest) (node none children) (forgetPath (key :: rest) (node none children)).2 ↔
      ForgetsAt rest ((get key children).getD FImmutableTree.empty)
        (forgetPath rest ((get key children).getD FImmutableTree.empty)).2 := by
  have hleft : forgetPath (key :: rest) (node none children) = _ :=
    forgetPath_none fun child hget => (isWriteTree_forgetPath (hnode.child hget) rest).2
  rw [hleft]
  constructor
  · intro hforgets other
    have hother := hforgets (key :: other)
    rw [factAt_none_cons, factAt_none_cons, get_replaceChild_getD, if_pos rfl] at hother
    rw [hother]
    simp only [List.cons_prefix_cons, true_and]
  · intro hforgets other
    cases other with
    | nil =>
        rw [if_neg (by simp)]
        rfl
    | cons front other =>
        rw [factAt_none_cons, factAt_none_cons, get_replaceChild_getD]
        by_cases hfront : front = key
        · subst hfront
          rw [if_pos rfl, hforgets other]
          simp only [List.cons_prefix_cons, true_and]
        · rw [if_neg hfront, if_neg fun hpre => hfront (List.cons_prefix_cons.mp hpre).1.symm]

/-- After the split nothing is remembered for the value itself, nor for its priority. -/
theorem factAt_forgetPath_value (value : FNode K V) (key : K) (rest : FPath K) :
    factAt [] (forgetPath (key :: rest) (node none (childTrees value))).2 = none ∧
      ∀ other, factAt (DatabaseKey.priority :: other)
        (forgetPath (key :: rest) (node none (childTrees value))).2 = none := by
  have hleft : forgetPath (key :: rest) (node none (childTrees value)) = _ :=
    forgetPath_none fun child hget =>
      (isWriteTree_forgetPath ((isWriteTree_childTrees value).child hget) rest).2
  rw [hleft]
  refine ⟨rfl, fun other => ?_⟩
  have hchild : get DatabaseKey.priority (childTrees value) = none := by
    rw [get_childTrees, if_pos (Or.inl rfl)]
  rw [factAt_none_cons, get_replaceChild_getD, hchild, Option.getD_none]
  have hnone : factAt other (FImmutableTree.empty : FSparseSnapshotTree K V) = none := by
    cases other <;> rfl
  split_ifs with heq
  · rw [← heq, hchild, Option.getD_none, forgetPath_empty]
    exact hnone
  · exact hnone

theorem forgetsAt_value (hleaf : value.isLeafNode = false) (key : K) (rest : FPath K) :
    ForgetsAt (key :: rest) (ofValue (some value)) (forgetPath (key :: rest) (ofValue (some value))).2 ↔
      (value ≠ FNode.empty ∧ ∀ other, ¬key :: rest <+: DatabaseKey.priority :: other →
        leafUnder other value.getPriority = none) ∧
        ForgetsAt (key :: rest) (node none (childTrees value))
          (forgetPath (key :: rest) (node none (childTrees value))).2 := by
  rw [forgetPath_value hleaf]
  obtain ⟨hroot, hpriority⟩ := factAt_forgetPath_value value key rest
  have hnotleaf : value.leafValue = none := by
    obtain ⟨data, hwf⟩ := value
    cases data with
    | leaf value priority => cases hleaf
    | empty => rfl
    | children dict priority => rfl
  have hnil : ¬key :: rest <+: [] := by simp
  constructor
  · intro hforgets
    have hne : value ≠ FNode.empty := by
      rintro rfl
      have hnull := hforgets []
      rw [hroot, if_neg hnil] at hnull
      cases hnull
    refine ⟨⟨hne, fun other hother => ?_⟩, fun other => ?_⟩
    · have hfact := hforgets (DatabaseKey.priority :: other)
      rw [hpriority, if_neg hother, ofValue, factAt, factIn_cons, FNode.getImmediateChild_priority] at hfact
      exact Option.map_eq_none_iff.mp hfact.symm
    · cases other with
      | nil =>
          rw [hroot, if_neg hnil]
          rfl
      | cons front other =>
          by_cases hfront : front = DatabaseKey.priority
          · rw [hfront, hpriority, factAt_childTrees_priority]
            split_ifs <;> rfl
          · rw [hforgets, factAt_childTrees value hfront, ofValue, factAt]
  · rintro ⟨⟨hne, hnone⟩, hforgets⟩ other
    cases other with
    | nil =>
        rw [hroot, if_neg hnil, ofValue, factAt, factIn_of_ne_empty (FNode.isEmpty_eq_false_iff.mpr hne),
          leafUnder, hnotleaf]
        rfl
    | cons front other =>
        by_cases hfront : front = DatabaseKey.priority
        · rw [hfront, hpriority, ofValue, factAt, factIn_cons, FNode.getImmediateChild_priority]
          split_ifs with hpre
          · rfl
          · rw [hnone other hpre]
            rfl
        · rw [hforgets, factAt_childTrees value hfront, ofValue, factAt]

theorem canForget_iff (htree : IsWriteTree tree) (path : FPath K) :
    CanForget path tree ↔ ∀ above value key rest, valueAt above tree = some value →
      path = above ++ key :: rest → value ≠ FNode.empty ∧ SplitsCleanly (key :: rest) value := by
  constructor
  · intro hcan above value key rest hvalue hpath
    exact hcan (above, value) ((mem_forEachTreeAtPath htree).mpr hvalue) key rest hpath
  · intro hcan write hwrite key rest hpath
    exact hcan write.1 write.2 key rest ((mem_forEachTreeAtPath htree).mp hwrite) hpath

theorem canForget_value (value : FNode K V) (key : K) (rest : FPath K) :
    CanForget (key :: rest) (ofValue (some value)) ↔
      value ≠ FNode.empty ∧ SplitsCleanly (key :: rest) value := by
  rw [CanForget, ofValue, forEachTreeAtPath, List.forall_mem_singleton]
  constructor
  · exact fun hcan => hcan key rest rfl
  · rintro hclean key' rest' hpath
    obtain ⟨rfl, rfl⟩ := List.cons.inj hpath
    exact hclean

theorem canForget_none (hnode : IsWriteTree (node none children)) (key : K) (rest : FPath K) :
    CanForget (key :: rest) (node none children) ↔
      CanForget rest ((get key children).getD FImmutableTree.empty) := by
  have hvalueAt : ∀ above, valueAt (key :: above) (node none children) =
      valueAt above ((get key children).getD FImmutableTree.empty) :=
    fun above => (valueAt_getD key above (node none children)).symm
  have hchild : IsWriteTree ((get key children).getD FImmutableTree.empty) := hnode.childOrEmpty key
  rw [canForget_iff hnode, canForget_iff hchild]
  constructor
  · intro hcan above value front below hvalue hpath
    refine hcan (key :: above) value front below ?_ (by rw [hpath, List.cons_append])
    rw [hvalueAt]
    exact hvalue
  · intro hcan above value front below hvalue hpath
    cases above with
    | nil => cases hvalue
    | cons first above =>
        obtain ⟨rfl, hrest⟩ := List.cons.inj hpath
        rw [hvalueAt] at hvalue
        exact hcan above value front below hvalue hrest

theorem canForget_empty : CanForget path (FImmutableTree.empty : FSparseSnapshotTree K V) := by
  intro write hwrite
  cases hwrite

theorem splitsCleanly_empty : SplitsCleanly path (FNode.empty : FNode K V) := by
  induction path with
  | nil => trivial
  | cons key rest ih =>
      rw [SplitsCleanly, show (FNode.empty : FNode K V).isLeafNode = false from rfl, if_neg Bool.false_ne_true]
      split_ifs
      · exact fun other _ => leafUnder_empty other
      · rw [FNode.getImmediateChild_empty]
        exact ⟨rfl, ih⟩

/-- A child that was split off is forgotten like the child of the value. -/
theorem canForget_childTree (value : FNode K V) {key : K} (hkey : key ≠ DatabaseKey.priority) (rest : FPath K) :
    CanForget rest ((get key (childTrees value)).getD FImmutableTree.empty) ↔
      SplitsCleanly rest (value.getImmediateChild key) := by
  rw [get_childTrees]
  by_cases hempty : (value.getImmediateChild key).isEmpty = true
  · rw [if_pos (Or.inr hempty), Option.getD_none, FNode.isEmpty_iff.mp hempty]
    exact iff_of_true (canForget_empty rest) (splitsCleanly_empty rest)
  · rw [if_neg (not_or.mpr ⟨hkey, hempty⟩), Option.getD_some]
    cases rest with
    | nil => exact iff_of_true (fun write _ key rest hpath => by simp at hpath) trivial
    | cons front rest =>
        rw [canForget_value]
        exact and_iff_right (mt FNode.isEmpty_iff.mpr hempty)

theorem forgetsAt_leaf (hleaf : value.isLeafNode = true) (key : K) (rest : FPath K) :
    ForgetsAt (key :: rest) (ofValue (some value)) (forgetPath (key :: rest) (ofValue (some value))).2 ↔
      value ≠ FNode.empty ∧ SplitsCleanly (key :: rest) value := by
  rw [forgetPath_leaf hleaf, SplitsCleanly, if_pos hleaf]
  constructor
  · intro hforgets
    refine ⟨?_, ?_⟩
    · rintro rfl
      cases hleaf
    · rintro rfl other hpre
      have hfact := hforgets (DatabaseKey.priority :: other)
      rw [if_pos (List.cons_prefix_cons.mpr ⟨rfl, hpre⟩), ofValue, factAt, factIn_cons,
        FNode.getImmediateChild_priority] at hfact
      exact Option.map_eq_none_iff.mp hfact
  · rintro ⟨_, hclean⟩ other
    split_ifs with hpre
    · obtain ⟨more, rfl⟩ := hpre
      rw [ofValue, factAt, List.cons_append, factIn_cons]
      by_cases hkey : key = DatabaseKey.priority
      · rw [hkey, FNode.getImmediateChild_priority, hclean hkey _ (List.prefix_append rest more)]
        rfl
      · obtain ⟨data, hwf⟩ := value
        cases data with
        | empty => cases hleaf
        | children dict priority => cases hleaf
        | leaf leafValue priority =>
            rw [FNode.getImmediateChild_of_leafValue rfl hkey, leafUnder_empty]
            rfl
    · rfl

/-- Forgetting the path takes away exactly what is remembered there, if and only if it splits no value with
a priority and lies below no written null. -/
theorem forgetsAt_iff (htree : IsWriteTree tree) (path : FPath K) :
    ForgetsAt path tree (forgetPath path tree).2 ↔ CanForget path tree := by
  induction path generalizing tree with
  | nil =>
      refine iff_of_true (fun other => ?_) fun write _ key rest hpath => ?_
      · rw [if_pos List.nil_prefix]
        cases other <;> rfl
      · simp at hpath
  | cons key rest ih =>
      have hnone : ∀ {children : List (K × FSparseSnapshotTree K V)}, IsWriteTree (node none children) →
          (ForgetsAt (key :: rest) (node none children) (forgetPath (key :: rest) (node none children)).2 ↔
            CanForget (key :: rest) (node none children)) := by
        intro children hnode
        rw [forgetsAt_none hnode, canForget_none hnode]
        exact ih (hnode.childOrEmpty key)
      obtain ⟨value, children⟩ := tree
      cases value with
      | none => exact hnone htree
      | some value =>
          have hnil : children = [] := htree.children_eq_nil (by simp)
          subst hnil
          rw [← ofValue, canForget_value]
          cases hleaf : value.isLeafNode with
          | true => exact forgetsAt_leaf hleaf key rest
          | false =>
              rw [forgetsAt_value hleaf, hnone (isWriteTree_childTrees value),
                canForget_none (isWriteTree_childTrees value), SplitsCleanly, hleaf,
                if_neg Bool.false_ne_true, and_assoc]
              refine and_congr_right fun _ => ?_
              by_cases hkey : key = DatabaseKey.priority
              · subst hkey
                rw [get_childTrees, if_pos (Or.inl rfl), Option.getD_none, if_pos rfl]
                simp only [List.cons_prefix_cons, true_and]
                exact and_iff_left (canForget_empty rest)
              · rw [if_neg hkey, canForget_childTree value hkey, ← leafUnder_eq_none_iff]
                refine and_congr_left fun _ => forall_congr' fun other => ?_
                exact imp_iff_right fun hpre => hkey (List.cons_prefix_cons.mp hpre).1

/-- A write beside the path stays as it is. -/
theorem valueAt_forgetPath_beside (htree : IsWriteTree tree) {path other : FPath K}
    (hvalue : valueAt other tree = some value) (habove : ¬other <+: path) (hbelow : ¬path <+: other) :
    valueAt other (forgetPath path tree).2 = some value := by
  induction path generalizing tree other with
  | nil => exact absurd List.nil_prefix hbelow
  | cons key rest ih =>
      obtain ⟨rootValue, children⟩ := tree
      cases other with
      | nil => exact absurd List.nil_prefix habove
      | cons front other =>
          cases rootValue with
          | some rootValue =>
              rw [htree.valueAt_below (Option.some_ne_none rootValue)] at hvalue
              cases hvalue
          | none =>
              have hleft : forgetPath (key :: rest) (node none children) = _ :=
                forgetPath_none fun child hget => (isWriteTree_forgetPath (htree.child hget) rest).2
              rw [hleft, valueAt_cons, children_node, bind_get_replaceChild]
              by_cases hfront : front = key
              · subst hfront
                rw [if_pos rfl]
                refine ih (htree.childOrEmpty front) ?_ (fun hpre => habove ?_) fun hpre => hbelow ?_
                · rw [valueAt_getD]
                  exact hvalue
                · exact List.cons_prefix_cons.mpr ⟨rfl, hpre⟩
                · exact List.cons_prefix_cons.mpr ⟨rfl, hpre⟩
              · rw [valueAt_cons, children_node] at hvalue
                rw [if_neg hfront]
                exact hvalue

theorem forgets_iff (htree : IsWriteTree tree) (path : FPath K) :
    Forgets path tree (forgetPath path tree).2 ↔ CanForget path tree := by
  have hleft := (isWriteTree_forgetPath htree path).1
  rw [← forgetsAt_iff htree]
  constructor
  · intro hforgets other
    ext fact
    rw [← remembers_iff hleft, hforgets.remembers_iff, remembers_iff htree]
    split_ifs with hpre
    · exact iff_of_false (fun hboth => hboth.2 hpre) (by simp)
    · exact and_iff_left hpre
  · intro hforgets
    refine ⟨fun other fact => ?_, fun write hwrite habove hbelow => ?_⟩
    · rw [remembers_iff hleft, remembers_iff htree, hforgets other]
      split_ifs with hpre
      · exact iff_of_false (by simp) fun hboth => hboth.2 hpre
      · exact (and_iff_left hpre).symm
    · rw [mem_forEachTreeAtPath hleft]
      exact valueAt_forgetPath_beside htree ((mem_forEachTreeAtPath htree).mp hwrite) habove hbelow

/-! ### Runs -/

theorem records_rememberData (htree : IsWriteTree tree) (data : FNode K V) (path : FPath K) :
    Records data path tree (rememberData data path tree) := by
  have hrecorded := isWriteTree_rememberData htree data path
  let self : FCompoundWrite K V := ⟨tree, htree⟩
  have hadd : ∀ other, valueAt other (rememberData data path tree) = (self.addWrite data path).valueAt other := by
    intro other
    rw [rememberData_eq htree]
    rfl
  refine ⟨fun found hfound hpre write => ?_, fun hfree write => ?_⟩
  · have hvalue : self.valueAt found.1 = some found.2 := (mem_forEachTreeAtPath htree).mp hfound
    rw [mem_forEachTreeAtPath hrecorded, mem_forEachTreeAtPath htree, hadd,
      FCompoundWrite.valueAt_addWrite_covered data hpre hvalue]
    split_ifs with hother
    · rw [Prod.ext_iff, Option.some_inj]
      simp [hother, eq_comm]
    · rw [Prod.ext_iff]
      simp only [hother, false_and, false_or, ne_eq, not_false_eq_true, and_true]
      rfl
  · have hnone : ∀ above, above <+: path → self.valueAt above = none := by
      intro above hpre
      by_contra hvalue
      obtain ⟨value, hvalue⟩ := Option.ne_none_iff_exists'.mp hvalue
      exact hfree (above, value) ((mem_forEachTreeAtPath htree).mpr hvalue) hpre
    rw [mem_forEachTreeAtPath hrecorded, mem_forEachTreeAtPath htree, hadd,
      FCompoundWrite.valueAt_addWrite_free data hnone, Prod.ext_iff]
    split_ifs with hpre hother
    · simp [hother, eq_comm]
    · simp [hother, hpre]
    · have hother : write.1 ≠ path := fun heq => hpre (heq ▸ List.prefix_rfl)
      simp only [hother, false_and, false_or, hpre, not_false_eq_true, and_true]
      rfl

/-- The calls on the tree -/
inductive Call (K V : Type) [DatabaseKey K] where
  | rememberData (data : FNode K V) (path : FPath K)
  | forgetPath (path : FPath K)

def perform (tree : FSparseSnapshotTree K V) : Call K V → FSparseSnapshotTree K V
  | .rememberData data path => rememberData data path tree
  | .forgetPath path => (forgetPath path tree).2

/-- A call never fails. -/
def step (tree : FSparseSnapshotTree K V) (call : Call K V) : Option (FSparseSnapshotTree K V) :=
  some (perform tree call)

/-- The call changes what is remembered as it says. -/
def Fulfils (tree : FSparseSnapshotTree K V) : Call K V → Prop
  | .rememberData data path => Records data path tree (rememberData data path tree)
  | .forgetPath path => Forgets path tree (forgetPath path tree).2

/-- A path that is forgotten can be taken out of the tree. -/
def ForgetsCleanly (tree : FSparseSnapshotTree K V) : Call K V → Prop
  | .rememberData _ _ => True
  | .forgetPath path => CanForget path tree

theorem isWriteTree_perform (htree : IsWriteTree tree) (call : Call K V) : IsWriteTree (perform tree call) := by
  cases call with
  | rememberData data path => exact isWriteTree_rememberData htree data path
  | forgetPath path => exact (isWriteTree_forgetPath htree path).1

theorem fulfils_iff (htree : IsWriteTree tree) (call : Call K V) : Fulfils tree call ↔ ForgetsCleanly tree call := by
  cases call with
  | rememberData data path => exact iff_of_true (records_rememberData htree data path) trivial
  | forgetPath path => exact forgets_iff htree path

theorem isSome_run (tree : FSparseSnapshotTree K V) (calls : List (Call K V)) :
    (StepRuns.run step tree calls).isSome = true := by
  induction calls generalizing tree with
  | nil => rfl
  | cons call rest ih => exact ih (perform tree call)

/-- In a run every call changes what is remembered as it says, exactly if every path that is forgotten can
be taken out of the tree. -/
theorem fulfils_run_iff (calls : List (Call K V)) :
    StepRuns.AllSteps step Fulfils (FImmutableTree.empty : FSparseSnapshotTree K V) calls ↔
      StepRuns.AllSteps step ForgetsCleanly (FImmutableTree.empty : FSparseSnapshotTree K V) calls := by
  have hstep : ∀ (tree : FSparseSnapshotTree K V) (call : Call K V), IsWriteTree tree →
      ∀ next ∈ step tree call, IsWriteTree next := by
    rintro tree call htree next hnext
    cases hnext
    exact isWriteTree_perform htree call
  constructor
  · exact fun hall => hall.imp (fun tree call htree _ => hstep tree call htree)
      (fun tree call htree hfulfils _ => (fulfils_iff htree call).mp hfulfils) .empty (isSome_run _ calls)
  · exact fun hall => hall.imp (fun tree call htree _ => hstep tree call htree)
      (fun tree call htree hcan _ => (fulfils_iff htree call).mpr hcan) .empty (isSome_run _ calls)

/-- A node with two children and a priority -/
def prioritizedNode : FNode String Int :=
  ((FNode.empty.updateImmediateChild "x" (FNode.leaf 1 FNode.empty)).updateImmediateChild "y"
    (FNode.leaf 2 FNode.empty)).updatePriority (FNode.leaf 5 FNode.empty)

/-- Where one child of the remembered node is forgotten, the priority of the node is gone as well. -/
theorem fulfils_fails_priority :
    ¬StepRuns.AllSteps step Fulfils FImmutableTree.empty
      [.rememberData prioritizedNode ["a"], .forgetPath ["a", "x"]] := by
  intro hall
  have hremembered : IsWriteTree (rememberData prioritizedNode ["a"] FImmutableTree.empty) :=
    isWriteTree_rememberData .empty _ _
  have hcan := (forgets_iff hremembered ["a", "x"]).mp (hall.2 _ rfl).1
  have hclean := (hcan (["a"], prioritizedNode) ((mem_forEachTreeAtPath hremembered).mpr rfl) "x" [] rfl).2
  rw [SplitsCleanly, if_neg (by decide), if_neg (by decide)] at hclean
  exact absurd (congrArg FNode.isEmpty hclean.1) (by decide)

end FSparseSnapshotTree

end FirebaseSwift.Database
