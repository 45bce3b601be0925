import FirebaseSwift.Database.IndexedViews
import FirebaseSwift.Database.RangeMerge

/-! The children of an indexed node. However the order of the index is kept, as a set that was built from the
node, as a set that was updated with it, or not at all where no child has a value for the index, the children
are those of the node, sorted by their values for the index and then by their keys. -/

namespace FirebaseSwift.Database

open SortedDictionary Std

variable {K V : Type} [DatabaseKey K] [DatabaseValue V]

/-! ### The order of an index -/

omit [DatabaseValue V] in
theorem compareKeys_eq_lt_iff {key key' : K} : compareKeys key key' = .lt ↔ DatabaseKey.compareKey key key' := by
  unfold compareKeys
  split_ifs with hlt hgt
  · exact iff_of_true rfl hlt
  · exact iff_of_false nofun hlt
  · exact iff_of_false nofun hlt

section Orders

instance : OrientedCmp (compareKeys (K := K)) where
  eq_swap {key key'} := (compareKeys_swap key' key).symm

instance : TransCmp (compareKeys (K := K)) where
  isLE_trans {key key' key''} h h' := by
    rw [Ordering.isLE_iff_eq_lt_or_eq_eq, compareKeys_eq_lt_iff, compareKeys_eq_iff] at *
    rcases h with hlt | rfl
    · rcases h' with hlt' | rfl
      · exact Or.inl (trans_of DatabaseKey.compareKey hlt hlt')
      · exact Or.inl hlt
    · exact h'

variable [TransCmp (DatabaseValue.compareLeafNodeValue (V := V))]

instance : TransCmp (FNode.compare (K := K) (V := V)) where
  eq_swap {node node'} := by
    unfold FNode.compare
    cases node.leafValue <;> cases node'.leafValue <;> dsimp only
    · cases node.isEmpty <;> cases node'.isEmpty <;> rfl
    · cases node.isEmpty <;> rfl
    · cases node'.isEmpty <;> rfl
    · exact OrientedCmp.eq_swap
  isLE_trans {node node' node''} h h' := by
    unfold FNode.compare at h h' ⊢
    revert h h'
    cases node.leafValue <;> cases node'.leafValue <;> cases node''.leafValue <;> dsimp only
    case some.some.some => exact TransCmp.isLE_trans
    all_goals cases node.isEmpty <;> cases node'.isEmpty <;> cases node''.isEmpty <;> simp

omit [DatabaseKey K] [DatabaseValue V] in
/-- Comparing what a function gives is as transitive as the comparison. -/
theorem transCmp_comap {α β : Type} (cmp : β → β → Ordering) [TransCmp cmp] (f : α → β) :
    TransCmp fun a b => cmp (f a) (f b) where
  eq_swap := OrientedCmp.eq_swap
  isLE_trans := TransCmp.isLE_trans

/-- The order of two children by their values for the index -/
def FIndex.compareValues (index : FIndex K) (lhs rhs : FNamedNode K V) : Ordering :=
  match index with
  | .key => .eq
  | .value => lhs.node.compare rhs.node
  | .priority => lhs.node.getPriority.compare rhs.node.getPriority
  | .path childPath => (lhs.node.getChild childPath).compare (rhs.node.getChild childPath)

omit [TransCmp (DatabaseValue.compareLeafNodeValue (V := V))] in
theorem FIndex.compare_eq_then (index : FIndex K) (lhs rhs : FNamedNode K V) :
    index.compare lhs rhs = (index.compareValues lhs rhs).then (compareKeys lhs.name rhs.name) := by
  have hthen : ∀ o o' : Ordering, (if o = .eq then o' else o) = o.then o' := by decide
  exact hthen _ _

instance (index : FIndex K) : TransCmp (index.compareValues (V := V)) := by
  cases index with
  | key =>
      exact { eq_swap := rfl, isLE_trans := fun _ _ => rfl }
  | value => exact transCmp_comap FNode.compare FNamedNode.node
  | priority => exact transCmp_comap FNode.compare fun child : FNamedNode K V => child.node.getPriority
  | path childPath => exact transCmp_comap FNode.compare fun child : FNamedNode K V => child.node.getChild childPath

instance (index : FIndex K) : TransCmp (index.compare (V := V)) := by
  have hname : TransCmp fun lhs rhs : FNamedNode K V => compareKeys lhs.name rhs.name :=
    transCmp_comap compareKeys FNamedNode.name
  have hlex : index.compare =
      compareLex index.compareValues fun lhs rhs : FNamedNode K V => compareKeys lhs.name rhs.name :=
    funext₂ (index.compare_eq_then · ·)
  rw [hlex]
  infer_instance

end Orders

/-! ### Sorted sets -/

namespace FIndex

variable {index : FIndex K} {entry member : FNamedNode K V} {set : List (FNamedNode K V)}

/-- Members of the same order have the same key. -/
theorem name_eq_of_compare_eq (h : index.compare entry member = .eq) : entry.name = member.name := by
  rw [compare_eq_then, Ordering.then_eq_eq] at h
  exact compareKeys_eq_iff.mp h.2

theorem mem_insert (hfresh : ∀ member ∈ set, index.compare entry member ≠ .eq) :
    member ∈ index.insert entry set ↔ member = entry ∨ member ∈ set := by
  induction set with
  | nil => rw [insert, List.mem_cons]
  | cons first rest ih =>
      obtain ⟨hfirst, hrest⟩ := List.forall_mem_cons.mp hfresh
      rw [insert]
      cases horder : index.compare entry first with
      | lt => exact List.mem_cons
      | eq => exact absurd horder hfirst
      | gt =>
          dsimp only
          rw [List.mem_cons, ih hrest, List.mem_cons, or_left_comm]

theorem mem_remove : member ∈ index.remove entry set ↔ member ∈ set ∧ index.compare entry member ≠ .eq := by
  rw [remove, List.mem_filter, decide_eq_true_iff]

variable [TransCmp (DatabaseValue.compareLeafNodeValue (V := V))]

theorem pairwise_insert (hsorted : set.Pairwise fun a b => index.compare a b = .lt)
    (hfresh : ∀ member ∈ set, index.compare entry member ≠ .eq) :
    (index.insert entry set).Pairwise fun a b => index.compare a b = .lt := by
  induction set with
  | nil => exact List.pairwise_singleton _ _
  | cons first rest ih =>
      obtain ⟨hfirst, hrest⟩ := List.forall_mem_cons.mp hfresh
      obtain ⟨hbefore, hsortedRest⟩ := List.pairwise_cons.mp hsorted
      rw [insert]
      cases horder : index.compare entry first with
      | lt =>
          refine List.pairwise_cons.mpr ⟨fun member hmem => ?_, hsorted⟩
          rcases List.mem_cons.mp hmem with rfl | hmem
          · exact horder
          · exact TransCmp.lt_trans horder (hbefore member hmem)
      | eq => exact absurd horder hfirst
      | gt =>
          refine List.pairwise_cons.mpr ⟨fun member hmem => ?_, ih hsortedRest hrest⟩
          rcases (mem_insert hrest).mp hmem with rfl | hmem
          · exact OrientedCmp.gt_iff_lt.mp horder
          · exact hbefore member hmem

end FIndex

/-! ### The children of a node in order -/

/-- The children of the node, sorted by their values for the index and then by their keys -/
def FNode.sortedChildren (node : FNode K V) (index : FIndex K) : List (FNamedNode K V) :=
  (node.enumerateChildren.map fun child => ⟨child.1, child.2⟩).mergeSort
    fun lhs rhs => index.compare lhs rhs ≠ .gt

/-- The children of the node, in the order of the index -/
structure FNode.IsOrdered (node : FNode K V) (index : FIndex K) (set : List (FNamedNode K V)) : Prop where
  sorted : set.Pairwise fun a b => index.compare a b = .lt
  mem_iff : ∀ entry, entry ∈ set ↔
    entry.name ≠ DatabaseKey.priority ∧ entry.node = node.getImmediateChild entry.name ∧
      entry.node.isEmpty = false

namespace FNode

variable {node : FNode K V} {index : FIndex K} {set : List (FNamedNode K V)}

omit [DatabaseValue V] in
theorem mem_enumerateChildren {entry : FNamedNode K V} :
    entry ∈ node.enumerateChildren.map (fun child => (⟨child.1, child.2⟩ : FNamedNode K V)) ↔
      entry.name ≠ DatabaseKey.priority ∧ entry.node = node.getImmediateChild entry.name ∧
        entry.node.isEmpty = false := by
  obtain ⟨key, child⟩ := entry
  have hkeys : key ∈ node.data.childList.map Prod.fst ↔
      key ≠ DatabaseKey.priority ∧ (node.getImmediateChild key).isEmpty = false := by
    rw [mem_keys_iff, get_childList]
    split_ifs with h
    · refine iff_of_false (fun hne => hne rfl) fun hboth => ?_
      rcases h with hkey | hempty
      · exact hboth.1 hkey
      · exact Bool.noConfusion (hempty.symm.trans hboth.2)
    · obtain ⟨hkey, hempty⟩ := not_or.mp h
      exact iff_of_true nofun ⟨hkey, Bool.not_eq_true _ ▸ hempty⟩
  rw [List.mem_map] at hkeys
  rw [enumerateChildren, List.map_map, List.mem_map]
  constructor
  · rintro ⟨e, hmem, he⟩
    cases he
    obtain ⟨hkey, hfull⟩ := hkeys.mp ⟨e, hmem, rfl⟩
    exact ⟨hkey, rfl, hfull⟩
  · rintro ⟨hkey, hchild, hfull⟩
    dsimp only at hkey hchild hfull
    obtain ⟨e, hmem, rfl⟩ := hkeys.mpr ⟨hkey, hchild ▸ hfull⟩
    refine ⟨e, hmem, ?_⟩
    rw [hchild]
    rfl

omit [DatabaseValue V] in
theorem pairwise_enumerateChildren (node : FNode K V) :
    (node.enumerateChildren.map fun child => (⟨child.1, child.2⟩ : FNamedNode K V)).Pairwise
      fun a b => DatabaseKey.compareKey a.name b.name := by
  rw [enumerateChildren, List.map_map, List.pairwise_map]
  obtain ⟨data, hwf⟩ := node
  cases data with
  | empty => exact List.Pairwise.nil
  | leaf value priority => exact List.Pairwise.nil
  | children dict priority => exact (NodeData.wellFormed_children_iff.mp hwf).2.1

omit [DatabaseValue V] in
theorem nodup_enumerateChildren (node : FNode K V) : (node.enumerateChildren.map Prod.fst).Nodup := by
  have hpairwise := node.pairwise_enumerateChildren
  rw [List.pairwise_map] at hpairwise
  rw [List.nodup_iff_pairwise_ne, List.pairwise_map]
  refine hpairwise.imp fun hlt heq => ?_
  dsimp only at hlt
  rw [heq] at hlt
  exact irrefl_of DatabaseKey.compareKey _ hlt

variable [TransCmp (DatabaseValue.compareLeafNodeValue (V := V))]

theorem IsOrdered.eq_sortedChildren (h : node.IsOrdered index set) : set = node.sortedChildren index := by
  have hswap : ∀ a b : FNamedNode K V, index.compare b a = (index.compare a b).swap :=
    fun _ _ => OrientedCmp.eq_swap
  have hle : ∀ o : Ordering, o ≠ .gt ↔ o.isLE = true := by decide
  have hnodup : set.Nodup := by
    refine h.sorted.imp fun hlt heq => ?_
    rw [heq, @ReflCmp.compare_self _ index.compare _ _] at hlt
    cases hlt
  have hnodup' : (node.enumerateChildren.map fun child => (⟨child.1, child.2⟩ : FNamedNode K V)).Nodup := by
    refine node.pairwise_enumerateChildren.imp fun hlt heq => ?_
    rw [heq] at hlt
    exact irrefl_of DatabaseKey.compareKey _ hlt
  have hperm : set.Perm (node.sortedChildren index) := by
    refine List.Perm.trans ?_ (List.mergeSort_perm _ _).symm
    refine (List.perm_ext_iff_of_nodup hnodup hnodup').mpr fun entry => ?_
    rw [h.mem_iff, mem_enumerateChildren]
  have hsorted : (node.sortedChildren index).Pairwise fun lhs rhs => index.compare lhs rhs ≠ .gt := by
    refine (List.pairwise_mergeSort (fun a b c hab hbc => ?_) (fun a b => ?_) _).imp of_decide_eq_true
    · rw [decide_eq_true_iff] at hab hbc ⊢
      rw [hle] at hab hbc ⊢
      exact TransCmp.isLE_trans hab hbc
    · rw [Bool.or_eq_true, decide_eq_true_iff, decide_eq_true_iff, hswap a b]
      cases index.compare a b <;> decide
  refine List.Perm.eq_of_pairwise (fun a b ha hb hab hba => ?_) (h.sorted.imp fun hlt hgt => ?_) hsorted hperm
  · rw [hswap a b] at hba
    have hsame : index.compare a b = .eq := by
      revert hab hba
      cases index.compare a b <;> decide
    obtain ⟨_, hnode, _⟩ := (h.mem_iff a).mp ha
    obtain ⟨_, hnode', _⟩ := (h.mem_iff b).mp (hperm.mem_iff.mpr hb)
    have hname := FIndex.name_eq_of_compare_eq hsame
    obtain ⟨name, node⟩ := a
    obtain ⟨name', node'⟩ := b
    dsimp only at hname hnode hnode'
    rw [hname, hnode, hnode', hname]
  · rw [hlt] at hgt
    cases hgt

omit [TransCmp (DatabaseValue.compareLeafNodeValue (V := V))] in
/-- Children without a value for the index are in the order of the keys. -/
theorem compareValues_of_not_isDefined {lhs rhs : FNamedNode K V} (hlhs : index.isDefined lhs.node = false)
    (hrhs : index.isDefined rhs.node = false) : index.compareValues lhs rhs = .eq := by
  cases index with
  | key | value => cases hlhs
  | priority =>
      have hempty := isEmpty_iff.mp (Bool.not_eq_false' .. ▸ hlhs)
      have hempty' := isEmpty_iff.mp (Bool.not_eq_false' .. ▸ hrhs)
      rw [FIndex.compareValues, hempty, hempty']
      rfl
  | path childPath =>
      have hempty := isEmpty_iff.mp (Bool.not_eq_false' .. ▸ hlhs)
      have hempty' := isEmpty_iff.mp (Bool.not_eq_false' .. ▸ hrhs)
      rw [FIndex.compareValues, hempty, hempty']
      rfl

omit [TransCmp (DatabaseValue.compareLeafNodeValue (V := V))] in
theorem isOrdered_enumerateChildren
    (h : index = .key ∨ ∀ child ∈ node.enumerateChildren, index.isDefined child.2 = false) :
    node.IsOrdered index (node.enumerateChildren.map fun child => ⟨child.1, child.2⟩) := by
  refine ⟨?_, fun entry => mem_enumerateChildren⟩
  refine List.Pairwise.imp_of_mem (fun {lhs rhs} hlhs hrhs hkeys => ?_) node.pairwise_enumerateChildren
  have hvalues : index.compareValues lhs rhs = .eq := by
    rcases h with rfl | hnone
    · rfl
    · obtain ⟨child, hchild, rfl⟩ := List.mem_map.mp hlhs
      obtain ⟨child', hchild', rfl⟩ := List.mem_map.mp hrhs
      exact compareValues_of_not_isDefined (hnone child hchild) (hnone child' hchild')
  rw [FIndex.compare_eq_then, hvalues]
  exact compareKeys_eq_lt_iff.mpr hkeys

/-- A set that is built from children has them in order. -/
theorem pairwise_foldl_insert {children : List (K × FNode K V)} {set : List (FNamedNode K V)}
    (hsorted : set.Pairwise fun a b => index.compare a b = .lt)
    (hnodup : (children.map Prod.fst).Nodup) (hfresh : ∀ member ∈ set, member.name ∉ children.map Prod.fst) :
    (children.foldl (fun set child => index.insert ⟨child.1, child.2⟩ set) set).Pairwise
        (fun a b => index.compare a b = .lt) ∧
      ∀ entry, entry ∈ children.foldl (fun set child => index.insert ⟨child.1, child.2⟩ set) set ↔
        entry ∈ set ∨ entry ∈ children.map fun child => ⟨child.1, child.2⟩ := by
  induction children generalizing set with
  | nil => exact ⟨hsorted, fun entry => by simp⟩
  | cons first rest ih =>
      obtain ⟨hfirst, hrest⟩ := List.nodup_cons.mp hnodup
      have hnew : ∀ member ∈ set, index.compare ⟨first.1, first.2⟩ member ≠ .eq := by
        intro member hmem hsame
        have hname := FIndex.name_eq_of_compare_eq hsame
        dsimp only at hname
        exact hfresh member hmem (hname ▸ List.mem_cons_self)
      have hstep := ih (FIndex.pairwise_insert hsorted hnew) hrest fun member hmem => ?_
      · rw [List.foldl_cons]
        refine ⟨hstep.1, fun entry => ?_⟩
        rw [hstep.2, FIndex.mem_insert hnew, List.map_cons, List.mem_cons, or_assoc, or_left_comm]
      · rcases (FIndex.mem_insert hnew).mp hmem with rfl | hmem
        · exact hfirst
        · exact fun hin => hfresh member hmem (List.mem_cons_of_mem _ hin)

/-- An update of a child removes its entry and inserts the new one. -/
theorem IsOrdered.updateImmediateChild (h : node.IsOrdered index set) {key : K} (hkey : key ≠ DatabaseKey.priority)
    (newChildNode : FNode K V) : (node.updateImmediateChild key newChildNode).IsOrdered index
      (if newChildNode.isEmpty then index.remove ⟨key, node.getImmediateChild key⟩ set
      else index.insert ⟨key, newChildNode⟩ (index.remove ⟨key, node.getImmediateChild key⟩ set)) := by
  have hremoved : ∀ entry, entry ∈ index.remove ⟨key, node.getImmediateChild key⟩ set ↔
      entry ∈ set ∧ entry.name ≠ key := by
    intro entry
    rw [FIndex.mem_remove]
    refine and_congr_right fun hmem => not_congr ⟨fun hsame => ?_, fun hname => ?_⟩
    · exact (FIndex.name_eq_of_compare_eq hsame).symm
    · obtain ⟨_, hchild, _⟩ := (h.mem_iff entry).mp hmem
      obtain ⟨name, child⟩ := entry
      dsimp only at hname hchild
      rw [hchild, hname]
      exact @ReflCmp.compare_self _ index.compare _ _
  have hsorted := h.sorted.filter fun member => index.compare ⟨key, node.getImmediateChild key⟩ member ≠ .eq
  by_cases hempty : newChildNode.isEmpty = true
  · rw [if_pos hempty]
    refine ⟨hsorted, fun entry => ?_⟩
    rw [hremoved, h.mem_iff]
    by_cases hname : entry.name = key
    · refine iff_of_false (fun hmem => hmem.2 hname) fun hchild => ?_
      rw [hname, getImmediateChild_updateImmediateChild hkey hkey, if_pos rfl] at hchild
      rw [hchild.2.1, hempty] at hchild
      cases hchild.2.2
    · rw [and_iff_left hname]
      refine and_congr_right fun hpriority => ?_
      rw [getImmediateChild_updateImmediateChild hkey hpriority, if_neg hname]
  · rw [if_neg hempty]
    have hnew : ∀ member ∈ index.remove ⟨key, node.getImmediateChild key⟩ set,
        index.compare ⟨key, newChildNode⟩ member ≠ .eq :=
      fun member hmem hsame => ((hremoved member).mp hmem).2 (FIndex.name_eq_of_compare_eq hsame).symm
    refine ⟨FIndex.pairwise_insert hsorted hnew, fun entry => ?_⟩
    rw [FIndex.mem_insert hnew, hremoved, h.mem_iff]
    by_cases hname : entry.name = key
    · have hsame : entry = ⟨key, newChildNode⟩ ↔ entry.node = newChildNode := by
        obtain ⟨name, child⟩ := entry
        cases hname
        rw [FNamedNode.mk.injEq, and_iff_right rfl]
      rw [or_iff_left fun hmem => hmem.2 hname, hname, hsame,
        getImmediateChild_updateImmediateChild hkey hkey, if_pos rfl, and_iff_right hkey]
      refine ⟨fun hchild => ⟨hchild, ?_⟩, fun hchild => hchild.1⟩
      rw [hchild]
      exact Bool.not_eq_true _ ▸ hempty
    · have hother : entry ≠ ⟨key, newChildNode⟩ := fun heq => hname (heq ▸ rfl)
      rw [or_iff_right hother, and_iff_left hname]
      refine and_congr_right fun hpriority => ?_
      rw [getImmediateChild_updateImmediateChild hkey hpriority, if_neg hname]

end FNode

/-! ### Indexed nodes -/

namespace FIndexedNode

variable {self : FIndexedNode K V}

/-- What is kept of the order of the index -/
def Keeps (self : FIndexedNode K V) : Prop :=
  match self.initialIndexed with
  | none => True
  | some .fallback => self.index = .key ∨
      ∀ child ∈ self.node.enumerateChildren, self.index.isDefined child.2 = false
  | some (.indexed members) => self.node.IsOrdered self.index members

variable [TransCmp (DatabaseValue.compareLeafNodeValue (V := V))]

theorem Keeps.indexed (h : self.Keeps) : (self.indexed = .fallback ∧ (self.index = .key ∨
      ∀ child ∈ self.node.enumerateChildren, self.index.isDefined child.2 = false)) ∨
      ∃ members, self.indexed = .indexed members ∧ self.node.IsOrdered self.index members := by
  obtain ⟨node, index, initialIndexed⟩ := self
  unfold Keeps at h
  unfold FIndexedNode.indexed
  cases initialIndexed with
  | some wrapper =>
      cases wrapper with
      | fallback => exact Or.inl ⟨rfl, h⟩
      | indexed members => exact Or.inr ⟨members, rfl, h⟩
  | none =>
      dsimp only
      split_ifs with hindex hany
      · exact Or.inl ⟨rfl, Or.inl hindex⟩
      · refine Or.inr ⟨_, rfl, ?_⟩
        have hbuilt := @FNode.pairwise_foldl_insert _ _ _ _ index _ node.enumerateChildren [] List.Pairwise.nil
          node.nodup_enumerateChildren (List.forall_mem_nil _)
        refine ⟨hbuilt.1, fun entry => ?_⟩
        rw [hbuilt.2, or_iff_right List.not_mem_nil, FNode.mem_enumerateChildren]
      · refine Or.inl ⟨rfl, Or.inr fun child hchild => ?_⟩
        rw [Bool.not_eq_true, List.any_eq_false] at hany
        exact Bool.not_eq_true _ ▸ hany child hchild

theorem Keeps.isOrdered_children (h : self.Keeps) : self.node.IsOrdered self.index self.children := by
  unfold children
  rcases h.indexed with ⟨hindexed, hnone⟩ | ⟨members, hindexed, hmembers⟩
  · rw [hindexed]
    exact FNode.isOrdered_enumerateChildren hnone
  · rw [hindexed]
    exact hmembers

theorem Keeps.updateChild (h : self.Keeps) {key : K} (hkey : key ≠ DatabaseKey.priority) (newChildNode : FNode K V) :
    (self.updateChild key newChildNode).Keeps := by
  unfold FIndexedNode.updateChild
  rcases h.indexed with ⟨hindexed, hnone⟩ | ⟨members, hindexed, hmembers⟩
  · rw [hindexed]
    dsimp only
    split_ifs with hdefined
    · refine Or.inr fun child hchild => ?_
      have hnotDefined : self.index.isDefined newChildNode = false := Bool.not_eq_true' _ ▸ hdefined
      have hentry : (⟨child.1, child.2⟩ : FNamedNode K V) ∈
          (self.node.updateImmediateChild key newChildNode).enumerateChildren.map
            fun child => ⟨child.1, child.2⟩ := List.mem_map_of_mem hchild
      obtain ⟨hpriority, hnode, hfull⟩ := FNode.mem_enumerateChildren.mp hentry
      dsimp only at hpriority hnode hfull
      rw [FNode.getImmediateChild_updateImmediateChild hkey hpriority] at hnode
      split_ifs at hnode
      · rw [hnode]
        exact hnotDefined
      · have hold : (⟨child.1, child.2⟩ : FNamedNode K V) ∈
            self.node.enumerateChildren.map fun child => ⟨child.1, child.2⟩ :=
          FNode.mem_enumerateChildren.mpr ⟨hpriority, hnode, hfull⟩
        obtain ⟨found, hfound, heq⟩ := List.mem_map.mp hold
        rcases hnone with hindex | hnone
        · rw [hindex] at hnotDefined
          cases hnotDefined
        · rw [← (FNamedNode.mk.inj heq).2]
          exact hnone found hfound
    · trivial
  · rw [hindexed]
    exact hmembers.updateImmediateChild hkey newChildNode

theorem Keeps.updatePriority (h : self.Keeps) (priority : FNode K V) : (self.updatePriority priority).Keeps := by
  have hchild : ∀ key, key ≠ DatabaseKey.priority →
      (self.node.updatePriority priority).getImmediateChild key = self.node.getImmediateChild key :=
    fun key hkey => FNode.getImmediateChild_updatePriority hkey self.node priority
  unfold FIndexedNode.updatePriority
  rcases h.indexed with ⟨hindexed, hnone⟩ | ⟨members, hindexed, hmembers⟩
  · rw [hindexed]
    refine hnone.imp id fun hnone child hmem => ?_
    have hentry : (⟨child.1, child.2⟩ : FNamedNode K V) ∈
        (self.node.updatePriority priority).enumerateChildren.map fun child => ⟨child.1, child.2⟩ :=
      List.mem_map_of_mem hmem
    obtain ⟨hkey, hnode, hfull⟩ := FNode.mem_enumerateChildren.mp hentry
    rw [hchild _ hkey] at hnode
    obtain ⟨found, hfound, heq⟩ := List.mem_map.mp (FNode.mem_enumerateChildren.mpr ⟨hkey, hnode, hfull⟩)
    rw [← (FNamedNode.mk.inj heq).2]
    exact hnone found hfound
  · rw [hindexed]
    refine ⟨hmembers.sorted, fun entry => (hmembers.mem_iff entry).trans ?_⟩
    refine and_congr_right fun hkey => ?_
    rw [hchild _ hkey]

/-! ### Predecessors -/

omit [TransCmp (DatabaseValue.compareLeafNodeValue (V := V))] in
theorem memberBefore_eq {index : FIndex K} {entry : FNamedNode K V} {members : List (FNamedNode K V)}
    (h : ∀ member ∈ members, index.compare entry member = .eq ↔ member.name = entry.name) :
    index.memberBefore entry members = keyBefore entry.name (members.map FNamedNode.name) := by
  induction members with
  | nil => rfl
  | cons first rest ih =>
      cases rest with
      | nil => rfl
      | cons second rest =>
          have hsecond := h second (List.mem_cons_of_mem _ List.mem_cons_self)
          have hrest := ih fun member hmem => h member (List.mem_cons_of_mem _ hmem)
          rw [FIndex.memberBefore, List.map_cons, List.map_cons, keyBefore, if_congr hsecond rfl rfl, hrest,
            List.map_cons]

theorem Keeps.predecessorInIndex (h : self.Keeps) (key : K) :
    self.predecessorInIndex key (self.node.getImmediateChild key) =
      keyBefore key (self.children.map FNamedNode.name) := by
  unfold FIndexedNode.predecessorInIndex children
  rcases h.indexed with ⟨hindexed, _⟩ | ⟨members, hindexed, hmembers⟩
  · rw [hindexed]
    dsimp only
    rw [FNode.predecessorChildKey, List.map_map]
    rfl
  · rw [hindexed]
    refine memberBefore_eq fun member hmem => ⟨fun hsame => ?_, fun hname => ?_⟩
    · exact (FIndex.name_eq_of_compare_eq hsame).symm
    · obtain ⟨_, hchild, _⟩ := (hmembers.mem_iff member).mp hmem
      obtain ⟨name, child⟩ := member
      dsimp only at hname hchild
      rw [hchild, hname]
      exact @ReflCmp.compare_self _ self.index.compare _ _

end FIndexedNode

/-! ### Runs -/

/-- The calls that update an indexed node -/
inductive IndexedNodeUpdate (K V : Type) [DatabaseKey K] where
  | updateChild (key : K) (newChildNode : FNode K V)
  | updatePriority (priority : FNode K V)

namespace IndexedNodeUpdate

/-- The key is not the one of the priority. -/
def Regular : IndexedNodeUpdate K V → Prop
  | .updateChild key _ => key ≠ DatabaseKey.priority
  | .updatePriority _ => True

def perform (indexedNode : FIndexedNode K V) : IndexedNodeUpdate K V → FIndexedNode K V
  | .updateChild key newChildNode => indexedNode.updateChild key newChildNode
  | .updatePriority priority => indexedNode.updatePriority priority

end IndexedNodeUpdate

namespace FIndexedNode

/-- The enumeration, the first and the last child and the predecessors are those of the children of the node,
sorted by the index. -/
structure Agrees (self : FIndexedNode K V) (node : FNode K V) (index : FIndex K) : Prop where
  node_eq : self.node = node
  index_eq : self.index = index
  children : self.children = node.sortedChildren index
  enumerates : ∀ reverse, self.enumerateChildrenReverse reverse =
    if reverse then (node.sortedChildren index).reverse else node.sortedChildren index
  firstChild : self.firstChild = (node.sortedChildren index).head?
  lastChild : self.lastChild = (node.sortedChildren index).getLast?
  predecessor : ∀ key, self.predecessorForChildKey key (node.getImmediateChild key) index =
    .ok (keyBefore key ((node.sortedChildren index).map FNamedNode.name))

variable [TransCmp (DatabaseValue.compareLeafNodeValue (V := V))]

theorem Keeps.agrees {self : FIndexedNode K V} (h : self.Keeps) : self.Agrees self.node self.index := by
  have hordered := h.isOrdered_children
  have hsorted := hordered.eq_sortedChildren
  have hnil : (self.node.isLeafNode || self.node.isEmpty) = true → self.node.sortedChildren self.index = [] := by
    intro hnone
    rw [← hsorted, List.eq_nil_iff_forall_not_mem]
    intro entry hmem
    obtain ⟨hkey, hchild, hfull⟩ := (hordered.mem_iff entry).mp hmem
    rcases Bool.or_eq_true_iff.mp hnone with hleaf | hempty
    · rw [hchild, FNode.getImmediateChild_of_isLeafNode hleaf hkey] at hfull
      cases hfull
    · rw [hchild, FNode.isEmpty_iff.mp hempty, FNode.getImmediateChild_empty] at hfull
      cases hfull
  refine ⟨rfl, rfl, hsorted, fun reverse => ?_, ?_, ?_, fun key => ?_⟩
  · rw [enumerateChildrenReverse, hsorted]
  · rw [FIndexedNode.firstChild, hsorted]
    split_ifs with hnone
    · rw [hnil hnone]
      rfl
    · rfl
  · rw [FIndexedNode.lastChild, hsorted]
    split_ifs with hnone
    · rw [hnil hnone]
      rfl
    · rfl
  · rw [predecessorForChildKey, if_neg (not_not_intro rfl), h.predecessorInIndex, hsorted]

theorem Keeps.perform {self : FIndexedNode K V} (h : self.Keeps) {update : IndexedNodeUpdate K V}
    (hupdate : update.Regular) : (update.perform self).Keeps := by
  cases update with
  | updateChild key newChildNode => exact h.updateChild hupdate newChildNode
  | updatePriority priority => exact h.updatePriority priority

end FIndexedNode

end FirebaseSwift.Database
