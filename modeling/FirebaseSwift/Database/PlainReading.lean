import FirebaseSwift.Database.SnapshotUtilities
import Mathlib.Data.List.Nodup

/-! What a plain value is read as. A leaf is read from its value, a node with children from the entries of a
dictionary or from the positions of an array. It is the given node if each entry is read as the child of its
key and no child is missing. -/

namespace FirebaseSwift.Database

open SortedDictionary FValidation FSnapshotUtilities

variable {K D : Type} [StringKey K]

/-! ### Building the node -/

theorem childrenNode_observations (children : List (K × FNode K (LeafValue D)))
    (hnodup : (children.map Prod.fst).Nodup) (hpriority : DatabaseKey.priority ∉ children.map Prod.fst)
    (priority : FNode K (LeafValue D)) : (childrenNode children priority).leafValue = none ∧
      (∀ key, key ≠ DatabaseKey.priority →
        (childrenNode children priority).getImmediateChild key = (get key children).getD .empty) ∧
      (childrenNode children priority).getPriority =
        if (childrenNode children priority).isEmpty then .empty else priority := by
  have hloop : ∀ (children : List (K × FNode K (LeafValue D))) (node : FNode K (LeafValue D)),
      (children.map Prod.fst).Nodup → DatabaseKey.priority ∉ children.map Prod.fst → node.leafValue = none →
        let built := children.foldl (fun (node : FNode K (LeafValue D)) child =>
          node.updateImmediateChild child.1 child.2) node
        built.leafValue = none ∧ ∀ key, key ≠ DatabaseKey.priority →
          built.getImmediateChild key = (get key children).getD (node.getImmediateChild key) := by
    intro children
    induction children with
    | nil => exact fun node _ _ hleaf => ⟨hleaf, fun _ _ => rfl⟩
    | cons child rest ih =>
        intro node hnodup hpriority hleaf
        obtain ⟨hchild, hnodup⟩ := List.nodup_cons.mp hnodup
        obtain ⟨hkey, hpriority⟩ := not_or.mp (mt List.mem_cons.mpr hpriority)
        have hleafNext : (node.updateImmediateChild child.1 child.2).leafValue = none := by
          rw [FNode.leafValue_updateImmediateChild (Ne.symm hkey), hleaf]
          split_ifs <;> rfl
        obtain ⟨hbuilt, hget⟩ := ih (node.updateImmediateChild child.1 child.2) hnodup hpriority hleafNext
        refine ⟨hbuilt, fun key hne => ?_⟩
        rw [List.foldl_cons, hget key hne,
          FNode.getImmediateChild_updateImmediateChild (Ne.symm hkey) hne, get_cons]
        by_cases heq : child.1 = key
        · have hnone : get key rest = none := not_not.mp (mt mem_keys_iff.mpr (heq ▸ hchild))
          rw [if_pos heq, if_pos heq.symm, hnone]
          rfl
        · rw [if_neg heq, if_neg (Ne.symm heq)]
  obtain ⟨hleaf, hget⟩ := hloop children .empty hnodup hpriority rfl
  have hempty : ∀ node priority : FNode K (LeafValue D), (node.updatePriority priority).isEmpty = node.isEmpty := by
    rintro ⟨data, hwf⟩ priority
    cases data <;> rfl
  refine ⟨?_, fun key hkey => ?_, ?_⟩
  · rw [childrenNode, FNode.leafValue_updatePriority]
    exact hleaf
  · rw [childrenNode, FNode.getImmediateChild_updatePriority hkey, hget key hkey, FNode.getImmediateChild_empty]
  · rw [childrenNode, FNode.getPriority_updatePriority, hempty]

variable {children : List (K × FNode K (LeafValue D))} (value : LeafValue D)

/-- The node is built from its children and its priority. -/
theorem childrenNode_eq_iff (hnodup : (children.map Prod.fst).Nodup)
    (hpriority : DatabaseKey.priority ∉ children.map Prod.fst) {node : FNode K (LeafValue D)}
    (hleaf : node.leafValue = none) (hne : node ≠ .empty) (priority : FNode K (LeafValue D)) :
    childrenNode children priority = node ↔ priority = node.getPriority ∧
      ∀ key, key ≠ DatabaseKey.priority → (get key children).getD .empty = node.getImmediateChild key := by
  obtain ⟨hbuiltLeaf, hget, hbuiltPriority⟩ := childrenNode_observations children hnodup hpriority priority
  constructor
  · rintro rfl
    rw [FNode.isEmpty_eq_false_iff.mpr hne, if_neg Bool.false_ne_true] at hbuiltPriority
    exact ⟨hbuiltPriority.symm, fun key hkey => (hget key hkey).symm⟩
  · rintro ⟨rfl, hchildren⟩
    have hbuilt : childrenNode children node.getPriority ≠ .empty := by
      intro hempty
      refine hne (FNode.eq_empty_of_observations hleaf fun key hkey => ?_)
      rw [← hchildren key hkey, ← hget key hkey, hempty, FNode.getImmediateChild_empty]
    rw [FNode.isEmpty_eq_false_iff.mpr hbuilt, if_neg Bool.false_ne_true] at hbuiltPriority
    refine FNode.eq_of_observations (hbuiltLeaf.trans hleaf.symm) hbuiltPriority fun key hkey => ?_
    rw [hget key hkey, hchildren key hkey]

/-! ### The children of a node -/

/-- The data of a node with children are the children that it has under its keys. -/
structure HasChildren (node : FNode K (LeafValue D)) (dict : List (K × NodeData K (LeafValue D))) : Prop where
  leafValue : node.leafValue = none
  ne_empty : node ≠ .empty
  nodup : (dict.map Prod.fst).Nodup
  priority : DatabaseKey.priority ∉ dict.map Prod.fst
  child : ∀ child ∈ dict, (node.getImmediateChild child.1).data = child.2
  child_ne_empty : ∀ child ∈ dict, node.getImmediateChild child.1 ≠ .empty
  exists_child : ∀ key, key ≠ DatabaseKey.priority → node.getImmediateChild key ≠ .empty → key ∈ dict.map Prod.fst

theorem hasChildren {dict : List (K × NodeData K (LeafValue D))} {priority : NodeData K (LeafValue D)}
    (hwf : (NodeData.children dict priority).wellFormed = true) :
    HasChildren (⟨.children dict priority, hwf⟩ : FNode K (LeafValue D)) dict := by
  obtain ⟨hne, hsorted, hall, -⟩ := NodeData.wellFormed_children_iff.mp hwf
  have hget : ∀ child ∈ dict, get child.1 dict = some child.2 := fun child hchild =>
    hsorted.get_of_mem hchild
  have himmediate : ∀ key, key ≠ DatabaseKey.priority →
      ((⟨.children dict priority, hwf⟩ : FNode K (LeafValue D)).getImmediateChild key).data =
        (get key dict).getD .empty := fun key hkey =>
    NodeData.getImmediateChild_eq hkey (.children dict priority)
  have hdata : ∀ child ∈ dict,
      ((⟨.children dict priority, hwf⟩ : FNode K (LeafValue D)).getImmediateChild child.1).data = child.2 := by
    intro child hchild
    rw [himmediate _ (hall child hchild).1, hget child hchild]
    rfl
  refine ⟨rfl, ?_, hsorted.nodup_keys, ?_, hdata, fun child hchild hempty => ?_, fun key hkey hchild => ?_⟩
  · intro hempty
    cases congrArg FNode.data hempty
  · intro hmem
    obtain ⟨child, hchild, hkey⟩ := List.mem_map.mp hmem
    exact (hall child hchild).1 hkey
  · have hfull := (hall child hchild).2.1
    rw [← hdata child hchild, hempty] at hfull
    cases hfull
  · refine mem_keys_iff.mpr fun hnone => hchild (FNode.ext ?_)
    rw [himmediate key hkey, hnone]
    rfl

/-! ### Reading leaves and priorities -/

/-- The string of a leaf is not too long. -/
def LeafValue.Fits : LeafValue D → Prop
  | .string s => lengthOfBytes s ≤ kFirebaseMaxLeafSize
  | _ => True

theorem exists_foundationValue_deferred (op : ServerValueOp D) :
    ∃ placeholder, ((LeafValue.deferredValue op).foundationValue : PlainValue K D) =
      .dictionary [(serverValueSubKey, placeholder)] := by
  cases op <;> exact ⟨_, rfl⟩

/-- A priority that can be written beside a value: it has no priority itself. -/
def IsPlainPriority : NodeData K (LeafValue D) → Prop
  | .empty => True
  | .leaf value priority => value.Fits ∧ priority = .empty
  | .children _ _ => False

theorem get_singleton (key : K) (value : PlainValue K D) : get key [(key, value)] = some value := if_pos rfl

theorem get_singleton_of_ne {key other : K} (hne : key ≠ other) (value : PlainValue K D) :
    get other [(key, value)] = none := if_neg hne

theorem payload_ne_priority : (payloadValue : K) ≠ DatabaseKey.priority := by
  intro h
  have htext := congrArg text h
  rw [StringKey.text_payloadValue, StringKey.text_priority] at htext
  exact absurd htext (by decide)

theorem serverValue_ne_priority : (serverValueSubKey : K) ≠ DatabaseKey.priority := by
  intro h
  have htext := congrArg text h
  rw [StringKey.text_serverValueSubKey, StringKey.text_priority] at htext
  exact absurd htext (by decide)

theorem serverValue_ne_payload : (serverValueSubKey : K) ≠ payloadValue := by
  intro h
  have htext := congrArg text h
  rw [StringKey.text_serverValueSubKey, StringKey.text_payloadValue] at htext
  exact absurd htext (by decide)

theorem isValidLeafValue_foundationValue :
    (value.Fits → isValidLeafValue (value.foundationValue : PlainValue K D) = some true) ∧
      (¬value.Fits → isValidLeafValue (value.foundationValue : PlainValue K D) = none) := by
  cases value with
  | bool value => exact ⟨fun _ => rfl, fun h => absurd trivial h⟩
  | number value => exact ⟨fun _ => rfl, fun h => absurd trivial h⟩
  | string s => exact ⟨fun h => if_neg (Nat.not_lt.mpr h), fun h => if_pos (Nat.not_le.mp h)⟩
  | deferredValue op =>
      refine ⟨fun _ => ?_, fun h => absurd trivial h⟩
      cases op <;> simp [LeafValue.foundationValue, isValidLeafValue, get_singleton]

variable [DoubleType D]

theorem leafValueFrom_foundationValue : leafValueFrom (value.foundationValue : PlainValue K D) = some value := by
  have hnumber : ∀ number : LeafNumber D, LeafNumber.ofNumber number.foundationValue = number := by
    intro number
    cases number <;> rfl
  cases value with
  | bool value => rfl
  | number value => rw [LeafValue.foundationValue, leafValueFrom, hnumber]
  | string s => rfl
  | deferredValue op =>
      cases op with
      | timestamp =>
          rw [LeafValue.foundationValue, leafValueFrom, get_singleton, Option.bind_some, serverValueOp, if_pos rfl]
          rfl
      | increment delta =>
          rw [LeafValue.foundationValue, leafValueFrom, get_singleton, Option.bind_some, serverValueOp,
            get_cons, if_pos rfl]
          dsimp only
          rw [hnumber]
          rfl

variable {depth : Nat} {entries : List (K × PlainValue K D)}

theorem le_of_nodeFrom {value : PlainValue K D} {node : FNode K (LeafValue D)}
    (h : nodeFrom depth value = some node) : depth ≤ kFirebaseMaxObjectDepth := by
  by_contra hdepth
  have hexceeded : kFirebaseMaxObjectDepth < depth := Nat.not_le.mp hdepth
  cases value <;> rw [nodeFrom, if_pos hexceeded] at h <;> first | cases h | exact nofun

theorem nodeFrom_leaf (hdepth : depth ≤ kFirebaseMaxObjectDepth) (value : LeafValue D) :
    nodeFrom depth (value.foundationValue : PlainValue K D) =
      (isValidLeafValue (value.foundationValue : PlainValue K D)).bind fun _ => some (FNode.leaf value .empty) := by
  have hleaf := leafValueFrom_foundationValue (K := K) value
  have hlimit : ¬kFirebaseMaxObjectDepth < depth := Nat.not_lt.mpr hdepth
  cases value with
  | bool value =>
      rw [LeafValue.foundationValue] at hleaf ⊢
      rw [nodeFrom, if_neg hlimit, hleaf]
      rfl
      all_goals nofun
  | number value =>
      rw [LeafValue.foundationValue] at hleaf ⊢
      rw [nodeFrom, if_neg hlimit, hleaf]
      rfl
      all_goals nofun
  | string s =>
      rw [LeafValue.foundationValue] at hleaf ⊢
      rw [nodeFrom, if_neg hlimit, hleaf]
      rfl
      all_goals nofun
  | deferredValue op =>
      have hvalid := (isValidLeafValue_foundationValue (K := K) (.deferredValue op)).1 trivial
      obtain ⟨placeholder, hplaceholder⟩ := exists_foundationValue_deferred (K := K) op
      rw [hplaceholder] at hleaf hvalid ⊢
      rw [nodeFrom, if_neg hlimit, dictionaryPriority, get_singleton_of_ne serverValue_ne_priority,
        get_singleton_of_ne serverValue_ne_payload, hvalid, hleaf]
      rfl

theorem nodeFrom_foundationValue (depth : Nat) (value : LeafValue D) (node : FNode K (LeafValue D)) :
    nodeFrom depth (value.foundationValue : PlainValue K D) = some node ↔
      depth ≤ kFirebaseMaxObjectDepth ∧ value.Fits ∧ node = .leaf value .empty := by
  constructor
  · intro h
    have hdepth := le_of_nodeFrom h
    rw [nodeFrom_leaf hdepth] at h
    by_cases hfits : value.Fits
    · rw [(isValidLeafValue_foundationValue value).1 hfits] at h
      exact ⟨hdepth, hfits, (Option.some.inj h).symm⟩
    · rw [(isValidLeafValue_foundationValue value).2 hfits] at h
      cases h
  · rintro ⟨hdepth, hfits, rfl⟩
    rw [nodeFrom_leaf hdepth, (isValidLeafValue_foundationValue value).1 hfits]
    rfl

theorem priorityFrom_foundationValue (node : FNode K (LeafValue D)) :
    priorityFrom (value.foundationValue : PlainValue K D) = some node ↔
      value.Fits ∧ node = .leaf value .empty := by
  have hpriority : priorityFrom (value.foundationValue : PlainValue K D) =
      (isValidLeafValue (value.foundationValue : PlainValue K D)).bind fun _ => some (FNode.leaf value .empty) := by
    have hleaf := leafValueFrom_foundationValue (K := K) value
    cases value with
    | bool value => rfl
    | number value =>
        rw [LeafValue.foundationValue] at hleaf ⊢
        simp only [priorityFrom, isValidPriorityValue, Bool.not_true, Bool.false_eq_true, if_false, hleaf]
        rfl
    | string s => rfl
    | deferredValue op =>
        obtain ⟨placeholder, hplaceholder⟩ := exists_foundationValue_deferred (K := K) op
        rw [hplaceholder] at hleaf ⊢
        have hvalid : isValidPriorityValue (.dictionary [((serverValueSubKey : K), placeholder)]) = true := by
          rw [isValidPriorityValue, get_singleton]
          rfl
        simp only [priorityFrom, hvalid, Bool.not_true, Bool.false_eq_true, if_false, hleaf]
        rfl
  by_cases hfits : value.Fits
  · rw [hpriority, (isValidLeafValue_foundationValue value).1 hfits]
    constructor
    · exact fun h => ⟨hfits, (Option.some.inj h).symm⟩
    · rintro ⟨-, rfl⟩
      rfl
  · rw [hpriority, (isValidLeafValue_foundationValue value).2 hfits]
    exact iff_of_false nofun fun h => hfits h.1

theorem leafValue_of_priorityFrom {value : PlainValue K D} {node : FNode K (LeafValue D)}
    (h : priorityFrom value = some node) : node = .empty ∨ ∃ leafValue, node = .leaf leafValue .empty := by
  by_cases hnull : value = .null
  · subst hnull
    exact Or.inl (Option.some.inj h).symm
  · rw [priorityFrom] at h
    · split_ifs at h
      obtain ⟨_, -, h⟩ := Option.bind_eq_some_iff.mp h
      obtain ⟨leafValue, -, h⟩ := Option.bind_eq_some_iff.mp h
      exact Or.inr ⟨leafValue, (Option.some.inj h).symm⟩
    · exact hnull

/-- The value of a leaf with its priority beside it -/
theorem nodeFrom_payload_iff (priorityValue : PlainValue K D) (node : FNode K (LeafValue D)) :
    nodeFrom depth (.dictionary
        [(payloadValue, value.foundationValue), (DatabaseKey.priority, priorityValue)]) = some node ↔
      depth ≤ kFirebaseMaxObjectDepth ∧ value.Fits ∧
        ∃ priority, priorityFrom priorityValue = some priority ∧ node = .leaf value priority := by
  have hpriority : dictionaryPriority
      [((payloadValue : K), value.foundationValue), (DatabaseKey.priority, priorityValue)] =
        priorityFrom priorityValue := by
    rw [dictionaryPriority, get_cons, if_neg payload_ne_priority, get_singleton]
  have hpayload : get payloadValue
      [((payloadValue : K), value.foundationValue), (DatabaseKey.priority, priorityValue)] =
        some value.foundationValue := if_pos rfl
  by_cases hdepth : kFirebaseMaxObjectDepth < depth
  · rw [nodeFrom, if_pos hdepth]
    exact iff_of_false nofun fun h => absurd h.1 (Nat.not_le.mpr hdepth)
  rw [nodeFrom, if_neg hdepth, hpriority, hpayload]
  cases hread : priorityFrom priorityValue with
  | none => exact iff_of_false nofun fun ⟨_, _, _, h, _⟩ => nomatch h
  | some priority =>
      by_cases hfits : value.Fits
      · simp only [(isValidLeafValue_foundationValue value).1 hfits, leafValueFrom_foundationValue,
          Option.bind_eq_bind, Option.bind_some, if_true]
        constructor
        · exact fun h => ⟨Nat.not_lt.mp hdepth, hfits, priority, rfl, (Option.some.inj h).symm⟩
        · rintro ⟨-, -, read, hsame, rfl⟩
          rw [Option.some.inj hsame]
      · simp only [(isValidLeafValue_foundationValue value).2 hfits, Option.bind_eq_bind, Option.bind_some,
          Option.bind_none]
        exact iff_of_false nofun fun h => hfits h.2.1

/-! ### Reading children -/

/-- The children of entries whose keys are fine. -/
def childrenFrom (depth : Nat) :
    List (K × PlainValue K D) → Option (List (K × FNode K (LeafValue D)))
  | [] => some []
  | (key, value) :: rest =>
      (nodeFrom (depth + 1) value).bind fun childNode =>
        (childrenFrom depth rest).map fun children =>
          if childNode.isEmpty then children else (key, childNode) :: children

theorem childrenFromDictionary_eq (hkeys : ∀ entry ∈ entries, isValidKey (text entry.1) = true)
    (extra : List (K × PlainValue K D)) (hextra : childrenFromDictionary depth extra = some []) :
    childrenFromDictionary depth (entries ++ extra) = childrenFrom depth entries := by
  induction entries with
  | nil => exact hextra
  | cons entry rest ih =>
      obtain ⟨key, value⟩ := entry
      obtain ⟨hkey, hrest⟩ := List.forall_mem_cons.mp hkeys
      have hvalid : isValidDictionaryKey key = true := by
        rw [isValidDictionaryKey, hkey, Bool.or_true]
      have hdot : (text key).head? ≠ some '.' := by
        intro hhead
        rw [isValidKey, Bool.and_eq_true, List.all_eq_true] at hkey
        exact absurd (hkey.2 '.' (List.mem_of_head? hhead)) (by decide)
      rw [List.cons_append, childrenFromDictionary, childrenFrom, ih hrest, hvalid, if_neg (by decide), if_neg hdot]
      cases nodeFrom (depth + 1) value with
      | none => rfl
      | some childNode => cases childrenFrom depth rest <;> rfl

theorem childrenFromArray_eq (depth i : Nat) (values : List (PlainValue K D)) : childrenFromArray depth i values =
      childrenFrom depth ((values.zipIdx i).map fun entry => (position entry.2, entry.1)) := by
  induction values generalizing i with
  | nil => rfl
  | cons value rest ih =>
      rw [childrenFromArray, ih, List.zipIdx_cons, List.map_cons, childrenFrom]
      cases nodeFrom (depth + 1) value with
      | none => rfl
      | some childNode =>
          cases childrenFrom depth ((rest.zipIdx (i + 1)).map fun entry => (position entry.2, entry.1)) <;> rfl

/-- Each entry is read as the child of its key, where nothing stands for an empty one. -/
theorem get_childrenFrom (hnodup : (entries.map Prod.fst).Nodup) (h : childrenFrom depth entries = some children) :
    (children.map Prod.fst).Sublist (entries.map Prod.fst) ∧
      ∀ entry ∈ entries, nodeFrom (depth + 1) entry.2 = some ((get entry.1 children).getD .empty) := by
  induction entries generalizing children with
  | nil =>
      cases h
      exact ⟨List.Sublist.slnil, nofun⟩
  | cons entry rest ih =>
      obtain ⟨key, value⟩ := entry
      obtain ⟨hkey, hnodup⟩ := List.nodup_cons.mp hnodup
      rw [childrenFrom, Option.bind_eq_some_iff] at h
      obtain ⟨childNode, hchild, h⟩ := h
      obtain ⟨others, hothers, hchildren⟩ := Option.map_eq_some_iff.mp h
      obtain ⟨hsublist, hall⟩ := ih hnodup hothers
      have hnone : get key others = none := not_not.mp (mt mem_keys_iff.mpr fun hmem => hkey (hsublist.subset hmem))
      split_ifs at hchildren with hempty
      · subst hchildren
        refine ⟨hsublist.cons key, List.forall_mem_cons.mpr ⟨?_, hall⟩⟩
        dsimp only
        rw [hnone, hchild, FNode.isEmpty_iff.mp hempty]
        rfl
      · subst hchildren
        refine ⟨hsublist.cons_cons key, List.forall_mem_cons.mpr ⟨?_, fun entry hentry => ?_⟩⟩
        · dsimp only
          rw [get_cons, if_pos rfl]
          exact hchild
        · have hne : key ≠ entry.1 := fun heq => hkey (List.mem_map.mpr ⟨entry, hentry, heq.symm⟩)
          rw [get_cons, if_neg hne]
          exact hall entry hentry

theorem isSome_childrenFrom (h : ∀ entry ∈ entries, (nodeFrom (depth + 1) entry.2).isSome = true) :
    (childrenFrom depth entries).isSome = true := by
  induction entries with
  | nil => rfl
  | cons entry rest ih =>
      obtain ⟨key, value⟩ := entry
      obtain ⟨hentry, hrest⟩ := List.forall_mem_cons.mp h
      obtain ⟨childNode, hchild⟩ := Option.isSome_iff_exists.mp hentry
      dsimp only at hchild
      rw [childrenFrom, hchild, Option.bind_some, Option.isSome_map]
      exact ih hrest

/-- Entries are read as the node if each is read as its child, and no child is missing. -/
theorem childrenFrom_eq_iff (hnodup : (entries.map Prod.fst).Nodup)
    (hpriority : DatabaseKey.priority ∉ entries.map Prod.fst) {node : FNode K (LeafValue D)}
    (hleaf : node.leafValue = none) (hne : node ≠ .empty) (priority : FNode K (LeafValue D)) :
    (∃ children, childrenFrom depth entries = some children ∧ childrenNode children priority = node) ↔
      priority = node.getPriority ∧
        (∀ entry ∈ entries, nodeFrom (depth + 1) entry.2 = some (node.getImmediateChild entry.1)) ∧
        ∀ key, key ≠ DatabaseKey.priority → node.getImmediateChild key ≠ .empty → key ∈ entries.map Prod.fst := by
  constructor
  · rintro ⟨children, hchildren, hnode⟩
    obtain ⟨hsublist, hall⟩ := get_childrenFrom hnodup hchildren
    obtain ⟨hpriorityEq, hget⟩ := (childrenNode_eq_iff (hsublist.nodup hnodup)
      (fun hmem => hpriority (hsublist.subset hmem)) hleaf hne priority).mp hnode
    refine ⟨hpriorityEq, fun entry hentry => ?_, fun key hkey hchild => ?_⟩
    · rw [hall entry hentry, hget]
      rintro heq
      exact hpriority (heq ▸ List.mem_map_of_mem hentry)
    · rw [← hget key hkey] at hchild
      refine hsublist.subset (mem_keys_iff.mpr fun hnone => hchild ?_)
      rw [hnone]
      rfl
  · rintro ⟨rfl, hall, hmissing⟩
    obtain ⟨children, hchildren⟩ := Option.isSome_iff_exists.mp (isSome_childrenFrom fun entry hentry =>
      Option.isSome_iff_exists.mpr ⟨_, hall entry hentry⟩)
    obtain ⟨hsublist, hread⟩ := get_childrenFrom hnodup hchildren
    refine ⟨children, hchildren, (childrenNode_eq_iff (hsublist.nodup hnodup)
      (fun hmem => hpriority (hsublist.subset hmem)) hleaf hne _).mpr ⟨rfl, fun key hkey => ?_⟩⟩
    by_cases hmem : key ∈ entries.map Prod.fst
    · obtain ⟨entry, hentry, rfl⟩ := List.mem_map.mp hmem
      have hsame := (hread entry hentry).symm.trans (hall entry hentry)
      exact Option.some.inj hsame
    · have hnone : get key children = none :=
        not_not.mp (mt mem_keys_iff.mpr fun hkeys => hmem (hsublist.subset hkeys))
      rw [hnone]
      by_contra hchild
      exact hmem (hmissing key hkey fun hempty => hchild hempty.symm)

/-! ### Reading a dictionary and an array -/

theorem isValid_of_childrenFromDictionary (h : (childrenFromDictionary depth entries).isSome = true) :
    ∀ entry ∈ entries, isValidDictionaryKey entry.1 = true := by
  induction entries with
  | nil => exact nofun
  | cons entry rest ih =>
      obtain ⟨key, value⟩ := entry
      rw [childrenFromDictionary] at h
      by_cases hkey : isValidDictionaryKey key = true
      · refine List.forall_mem_cons.mpr ⟨hkey, ih ?_⟩
        rw [hkey, if_neg (by decide)] at h
        by_cases hdot : (text key).head? = some '.'
        · rw [if_pos hdot] at h
          exact h
        · rw [if_neg hdot] at h
          cases hchild : nodeFrom (depth + 1) value with
          | none =>
              rw [hchild] at h
              cases h
          | some childNode =>
              cases hrest : childrenFromDictionary depth rest with
              | some children => rfl
              | none =>
                  rw [hchild, hrest] at h
                  cases h
      · rw [Bool.not_eq_true] at hkey
        rw [hkey, if_pos (by decide)] at h
        cases h

/-- A dictionary is read as a node with children if it is no payload and no placeholder. -/
theorem nodeFrom_dictionary_iff {dict : List (K × PlainValue K D)} {node : FNode K (LeafValue D)}
    (hleaf : node.leafValue = none) :
    nodeFrom depth (.dictionary dict) = some node ↔ depth ≤ kFirebaseMaxObjectDepth ∧
      get payloadValue dict = none ∧ get serverValueSubKey dict = none ∧
        ∃ priority children, dictionaryPriority dict = some priority ∧
          childrenFromDictionary depth dict = some children ∧ childrenNode children priority = node := by
  have hnotLeaf : ∀ (value : LeafValue D) (priority : FNode K (LeafValue D)),
      (some (FNode.leaf value priority) : Option (FNode K (LeafValue D))) ≠ some node := by
    rintro value priority h
    cases Option.some.inj h
    cases hleaf
  by_cases hdepth : kFirebaseMaxObjectDepth < depth
  · rw [nodeFrom, if_pos hdepth]
    exact iff_of_false nofun fun h => absurd h.1 (Nat.not_le.mpr hdepth)
  rw [nodeFrom, if_neg hdepth]
  cases hpriority : dictionaryPriority dict with
  | none => exact iff_of_false nofun fun ⟨_, _, _, _, _, h, _⟩ => nomatch h
  | some priority =>
      cases hpayload : get payloadValue dict with
      | some payload =>
          refine iff_of_false (fun h => ?_) fun h => nomatch h.2.1
          cases hvalid : isValidLeafValue payload with
          | none =>
              simp [hvalid] at h
          | some valid =>
              cases valid with
              | false => simp [hvalid] at h
              | true =>
                  cases hvalue : leafValueFrom payload with
                  | none => simp [hvalid, hvalue] at h
                  | some value =>
                      simp only [hvalid, hvalue, Option.bind_eq_bind, Option.bind_some, if_true] at h
                      exact hnotLeaf value priority h
      | none =>
          cases hserver : get serverValueSubKey dict with
          | some placeholder =>
              refine iff_of_false (fun h => ?_) fun h => nomatch h.2.2.1
              by_cases hlength : dict.length ≤ 1
              · have hvalid : isValidLeafValue (.dictionary dict) = some true := by
                  rw [isValidLeafValue, hserver, if_pos Option.isSome_some, if_pos hlength]
                cases hvalue : leafValueFrom (.dictionary dict) with
                | none => simp [hvalid, hvalue] at h
                | some value =>
                    simp only [hvalid, hvalue, Option.bind_eq_bind, Option.bind_some, if_true] at h
                    exact hnotLeaf value priority h
              · have hvalid : isValidLeafValue (.dictionary dict) = none := by
                  rw [isValidLeafValue, hserver, if_pos Option.isSome_some, if_neg hlength]
                simp [hvalid] at h
          | none =>
              have hvalid : isValidLeafValue (.dictionary dict) = some false := by
                rw [isValidLeafValue, hserver, Option.isSome_none, if_neg Bool.false_ne_true]
              simp only [hvalid, Option.bind_eq_bind, Option.bind_some, Bool.false_eq_true, if_false,
                Option.bind_eq_some_iff, Option.some_inj, true_and]
              constructor
              · rintro ⟨children, hchildren, hnode⟩
                exact ⟨Nat.not_lt.mp hdepth, priority, children, rfl, hchildren, hnode⟩
              · rintro ⟨_, _, children, rfl, hchildren, hnode⟩
                exact ⟨children, hchildren, hnode⟩

/-- The children and the priority of a dictionary, whose keys have to be valid. -/
theorem nodeFrom_entries_iff {extra : List (K × PlainValue K D)} {node : FNode K (LeafValue D)}
    (hleaf : node.leafValue = none) (hne : node ≠ .empty) (hnodup : (entries.map Prod.fst).Nodup)
    (hpriority : DatabaseKey.priority ∉ entries.map Prod.fst)
    (hextra : extra = [] ∨ ∃ value, extra = [(DatabaseKey.priority, value)]) :
    nodeFrom depth (.dictionary (entries ++ extra)) = some node ↔ depth ≤ kFirebaseMaxObjectDepth ∧
      (∀ entry ∈ entries, isValidKey (text entry.1) = true) ∧ dictionaryPriority extra = some node.getPriority ∧
        (∀ entry ∈ entries, nodeFrom (depth + 1) entry.2 = some (node.getImmediateChild entry.1)) ∧
          ∀ key, key ≠ DatabaseKey.priority → node.getImmediateChild key ≠ .empty → key ∈ entries.map Prod.fst := by
  have hget : ∀ key, get key (entries ++ extra) = (get key entries).or (get key extra) := by
    intro key
    clear hnodup hpriority
    induction entries with
    | nil => rfl
    | cons entry rest ih =>
        rw [List.cons_append, get_cons, get_cons, ih]
        split_ifs <;> rfl
  have hpriorityGet : dictionaryPriority (entries ++ extra) = dictionaryPriority extra := by
    have hnone : get DatabaseKey.priority entries = none := not_not.mp (mt mem_keys_iff.mpr hpriority)
    rw [dictionaryPriority, dictionaryPriority, hget, hnone, Option.none_or]
  have hextraNone : ∀ key, key ≠ DatabaseKey.priority → get key extra = none := by
    rintro key hkey
    rcases hextra with rfl | ⟨value, rfl⟩
    · rfl
    · exact get_singleton_of_ne hkey.symm value
  have hextraChildren : childrenFromDictionary depth extra = some [] := by
    rcases hextra with rfl | ⟨value, rfl⟩
    · rfl
    · have hvalid : isValidDictionaryKey (DatabaseKey.priority : K) = true := by
        rw [isValidDictionaryKey, decide_eq_true rfl]
        rfl
      have hdot : (text (DatabaseKey.priority : K)).head? = some '.' := by
        rw [StringKey.text_priority]
        rfl
      rw [childrenFromDictionary, hvalid, if_neg (by decide), if_pos hdot]
      rfl
  rw [nodeFrom_dictionary_iff hleaf, hpriorityGet]
  refine and_congr_right fun _ => ?_
  constructor
  · rintro ⟨hpayload, hserver, priority, children, hpriorityEq, hchildren, hnode⟩
    have hvalid : ∀ entry ∈ entries, isValidKey (text entry.1) = true := by
      intro entry hentry
      have hkey := isValid_of_childrenFromDictionary (Option.isSome_iff_exists.mpr ⟨_, hchildren⟩) entry
        (List.mem_append_left _ hentry)
      have hne : ∀ key, get key (entries ++ extra) = none → entry.1 ≠ key := fun key hnone =>
        get_eq_none_iff.mp hnone entry (List.mem_append_left _ hentry)
      have hnotPriority : entry.1 ≠ DatabaseKey.priority :=
        fun heq => hpriority (heq ▸ List.mem_map_of_mem hentry)
      simpa [isValidDictionaryKey, hnotPriority, hne _ hpayload, hne _ hserver] using hkey
    rw [childrenFromDictionary_eq hvalid extra hextraChildren] at hchildren
    obtain ⟨rfl, hall, hmissing⟩ :=
      (childrenFrom_eq_iff hnodup hpriority hleaf hne priority).mp ⟨children, hchildren, hnode⟩
    exact ⟨hvalid, hpriorityEq, hall, hmissing⟩
  · rintro ⟨hvalid, hpriorityEq, hall, hmissing⟩
    have hspecial : ∀ key : K, key ≠ DatabaseKey.priority → isValidKey (text key) = false →
        get key (entries ++ extra) = none := by
      intro key hkey hinvalid
      have hnone : get key entries = none := by
        rw [get_eq_none_iff]
        rintro entry hentry rfl
        rw [hvalid entry hentry] at hinvalid
        cases hinvalid
      rw [hget, hnone, hextraNone key hkey]
      rfl
    obtain ⟨children, hchildren, hnode⟩ :=
      (childrenFrom_eq_iff hnodup hpriority hleaf hne node.getPriority).mpr ⟨rfl, hall, hmissing⟩
    refine ⟨hspecial _ payload_ne_priority ?_, hspecial _ serverValue_ne_priority ?_, node.getPriority, children,
      hpriorityEq, ?_, hnode⟩
    · rw [StringKey.text_payloadValue]
      decide
    · rw [StringKey.text_serverValueSubKey]
      decide
    · rw [childrenFromDictionary_eq hvalid extra hextraChildren]
      exact hchildren

theorem position_injective : Function.Injective (position : Nat → K) := by
  intro i j h
  have htext := congrArg text h
  rw [StringKey.text_position, StringKey.text_position] at htext
  calc i = Nat.ofDigitChars 10 (Nat.toDigits 10 i) 0 := Nat.ofDigitChars_ten_toDigits.symm
    _ = Nat.ofDigitChars 10 (Nat.toDigits 10 j) 0 := by rw [htext]
    _ = j := Nat.ofDigitChars_ten_toDigits

theorem position_ne_priority (i : Nat) : (position i : K) ≠ DatabaseKey.priority := by
  intro h
  have htext := congrArg text h
  rw [StringKey.text_position, StringKey.text_priority] at htext
  have hdot : '.' ∈ Nat.toDigits 10 i := by
    rw [htext]
    decide
  exact absurd (Nat.isDigit_of_mem_toDigits (by decide) (by decide) hdot) (by decide)

/-- An array is read as the node if there is the right child at each position, and none elsewhere. -/
theorem nodeFrom_array_iff {count : Nat} {values : Nat → PlainValue K D} {node : FNode K (LeafValue D)}
    (hleaf : node.leafValue = none) (hne : node ≠ .empty) :
    nodeFrom depth (.array ((List.range count).map values)) = some node ↔ depth ≤ kFirebaseMaxObjectDepth ∧
      node.getPriority = .empty ∧
        (∀ i < count, nodeFrom (depth + 1) (values i) = some (node.getImmediateChild (position i))) ∧
          ∀ key, key ≠ DatabaseKey.priority → node.getImmediateChild key ≠ .empty → ∃ i < count, position i = key := by
  by_cases hdepth : kFirebaseMaxObjectDepth < depth
  · rw [nodeFrom, if_pos hdepth]
    exact iff_of_false nofun fun h => absurd h.1 (Nat.not_le.mpr hdepth)
  have hentries : (((List.range count).map values).zipIdx 0).map (fun entry => ((position entry.2 : K), entry.1)) =
      (List.range count).map fun i => (position i, values i) := by
    apply List.ext_getElem
    · simp
    · intro i hi hi'
      simp
  have hkeys : ((List.range count).map fun i => ((position i : K), values i)).map Prod.fst =
      (List.range count).map position := by
    rw [List.map_map]
    rfl
  have hnodup : (((List.range count).map fun i => ((position i : K), values i)).map Prod.fst).Nodup := by
    rw [hkeys]
    exact List.Nodup.map position_injective List.nodup_range
  have hpriority : DatabaseKey.priority ∉ ((List.range count).map fun i => ((position i : K), values i)).map Prod.fst := by
    rw [hkeys, List.mem_map]
    rintro ⟨i, -, hi⟩
    exact position_ne_priority i hi
  have hiff := @childrenFrom_eq_iff K D _ _ depth _ hnodup hpriority node hleaf hne .empty
  rw [nodeFrom, if_neg hdepth, childrenFromArray_eq, hentries]
  simp only [Option.bind_eq_bind, Option.bind_eq_some_iff, Option.some_inj]
  rw [hiff, hkeys, eq_comm, List.forall_mem_map]
  simp only [List.mem_range, List.mem_map]
  exact (and_iff_right (Nat.not_lt.mp hdepth)).symm

end FirebaseSwift.Database
