import FirebaseSwift.Database.DeferredValues
import FirebaseSwift.Database.PlainReading

/-! What resolving deferred values gives. If no priority of a node has a priority itself or children, then the
loop over the children replaces each leaf and each priority, and nothing else, so no deferred value is left. -/

namespace FirebaseSwift.Database

open SortedDictionary FSnapshotUtilities

variable {K D : Type} [StringKey K]

/-! ### Nodes with deferred values -/

def LeafValue.IsDeferred : LeafValue D → Prop
  | .deferredValue _ => True
  | _ => False

namespace NodeData

mutual

/-- There is no deferred value in the node and in its priorities. -/
def DeferredFree : NodeData K (LeafValue D) → Prop
  | .empty => True
  | .leaf value priority => ¬value.IsDeferred ∧ priority.DeferredFree
  | .children dict priority => priority.DeferredFree ∧ DeferredFreeChildren dict

def DeferredFreeChildren : List (K × NodeData K (LeafValue D)) → Prop
  | [] => True
  | (_, child) :: rest => child.DeferredFree ∧ DeferredFreeChildren rest

end

mutual

/-- The priorities are leaves without priorities. -/
def PlainPriorities : NodeData K (LeafValue D) → Prop
  | .empty => True
  | .leaf _ priority => IsPlainPriority priority
  | .children dict priority => IsPlainPriority priority ∧ PlainPrioritiesChildren dict

def PlainPrioritiesChildren : List (K × NodeData K (LeafValue D)) → Prop
  | [] => True
  | (_, child) :: rest => child.PlainPriorities ∧ PlainPrioritiesChildren rest

end

omit [StringKey K] in
theorem plainPrioritiesChildren_iff {dict : List (K × NodeData K (LeafValue D))} :
    PlainPrioritiesChildren dict ↔ ∀ child ∈ dict, child.2.PlainPriorities := by
  induction dict with
  | nil => exact iff_of_true trivial nofun
  | cons child rest ih => rw [PlainPrioritiesChildren, ih, List.forall_mem_cons]

end NodeData

/-! ### One value -/

section Values

variable [DoubleArithmetic D] {serverValues : ServerValues} {existing : Option (FNode K (LeafValue D))}
  {value : LeafValue D}

theorem not_isDeferred_resolveIncrement (delta : LeafNumber D) :
    ¬(ServerValues.resolveIncrement delta existing).IsDeferred := by
  rw [ServerValues.resolveIncrement]
  split
  · split
    · split <;> exact id
    · exact id
  · exact id

theorem not_isDeferred_resolveDeferredValue : ¬(resolveDeferredValue serverValues existing value).IsDeferred := by
  cases value with
  | bool value => exact id
  | number value => exact id
  | string s => exact id
  | deferredValue op =>
      cases op with
      | timestamp => exact id
      | increment delta => exact not_isDeferred_resolveIncrement delta

theorem resolveDeferredValue_eq (h : ¬value.IsDeferred) : resolveDeferredValue serverValues existing value = value := by
  cases value with
  | bool value => rfl
  | number value => rfl
  | string s => rfl
  | deferredValue op => exact absurd trivial h

/-- A value that equals the one it resolves to is not deferred. -/
theorem not_isDeferred_of_same (h : (resolveDeferredValue serverValues existing value).Same value) :
    ¬value.IsDeferred := by
  intro hdeferred
  have hresolved : ¬(resolveDeferredValue serverValues existing value).IsDeferred :=
    not_isDeferred_resolveDeferredValue
  generalize resolveDeferredValue serverValues existing value = resolved at h hresolved
  cases value with
  | deferredValue op =>
      cases resolved with
      | deferredValue op' => exact hresolved trivial
      | bool value => cases op <;> exact h
      | number value => cases op <;> exact h
      | string s => cases op <;> exact h
  | bool value => exact hdeferred
  | number value => exact hdeferred
  | string s => exact hdeferred

theorem fits_resolveDeferredValue (h : value.Fits) : (resolveDeferredValue serverValues existing value).Fits := by
  have hfits : ∀ resolved : LeafValue D, (∀ s, resolved ≠ .string s) → resolved.Fits := by
    intro resolved hne
    cases resolved with
    | bool value => trivial
    | number value => trivial
    | string s => exact absurd rfl (hne s)
    | deferredValue op => trivial
  cases value with
  | bool value => trivial
  | number value => trivial
  | string s => exact h
  | deferredValue op =>
      refine hfits _ fun s => ?_
      cases op with
      | timestamp => exact nofun
      | increment delta =>
          rw [resolveDeferredValue, ServerValues.resolve, ServerValues.resolveIncrement]
          split
          · split
            · split <;> exact nofun
            · exact nofun
          · exact nofun

/-- An integer is the exact sum if that has 64 bits, and otherwise the sum of the doubles. -/
theorem ServerValues.resolveIncrement_int64 (x y : Int64) (priority : FNode K (LeafValue D)) :
    (-2 ^ 63 ≤ x.toInt + y.toInt ∧ x.toInt + y.toInt < 2 ^ 63 →
      ∃ sum : Int64, resolveIncrement (D := D) (.int64 x) (some (FNode.leaf (.number (.int64 y)) priority)) =
        .number (.int64 sum) ∧ sum.toInt = x.toInt + y.toInt) ∧
    (¬(-2 ^ 63 ≤ x.toInt + y.toInt ∧ x.toInt + y.toInt < 2 ^ 63) →
      resolveIncrement (D := D) (.int64 x) (some (FNode.leaf (.number (.int64 y)) priority)) =
        .number (.double (DoubleArithmetic.add (DoubleArithmetic.ofInt64 x) (DoubleArithmetic.ofInt64 y)))) := by
  have hresolve : resolveIncrement (D := D) (.int64 x) (some (FNode.leaf (.number (.int64 y)) priority)) =
      if !(addingReportingOverflow x y).2 then .number (.int64 (x + y))
      else .number (.double (DoubleArithmetic.add (DoubleArithmetic.ofInt64 x) (DoubleArithmetic.ofInt64 y))) := rfl
  rw [hresolve, addingReportingOverflow]
  constructor
  · rintro ⟨hlow, hhigh⟩
    refine ⟨x + y, if_pos ?_, ?_⟩
    · simp only [Bool.not_eq_true', decide_eq_false_iff_not]
      omega
    · rw [Int64.toInt_add]
      exact Int.bmod_eq_of_le (by omega) (by omega)
  · intro hfits
    refine if_neg ?_
    simp only [Bool.not_eq_true', decide_eq_false_iff_not, not_not]
    omega

end Values

/-! ### The resolved node -/

section Nodes

variable [DoubleArithmetic D] (serverValues : ServerValues)

def resolvedPriority (existing : ValueProvider K D) : NodeData K (LeafValue D) → NodeData K (LeafValue D)
  | .leaf value _ =>
      .leaf (resolveDeferredValue serverValues (existing.getChild DatabaseKey.priority).value value) .empty
  | priority => priority

mutual

/-- The node with each leaf and each priority replaced -/
def resolvedData : NodeData K (LeafValue D) → ValueProvider K D → NodeData K (LeafValue D)
  | .empty, _ => .empty
  | .leaf value priority, existing =>
      .leaf (resolveDeferredValue serverValues existing.value value) (resolvedPriority serverValues existing priority)
  | .children dict priority, existing =>
      .children (resolvedChildren dict existing) (resolvedPriority serverValues existing priority)

def resolvedChildren :
    List (K × NodeData K (LeafValue D)) → ValueProvider K D → List (K × NodeData K (LeafValue D))
  | [], _ => []
  | (key, child) :: rest, existing =>
      (key, resolvedData child (existing.getChild key)) :: resolvedChildren rest existing

end

variable {serverValues} {existing : ValueProvider K D}

theorem isEmpty_resolvedChildren (dict : List (K × NodeData K (LeafValue D))) :
    (resolvedChildren serverValues dict existing).isEmpty = dict.isEmpty := by
  cases dict with
  | nil => rfl
  | cons child rest => rfl

theorem isEmpty_resolvedData (node : NodeData K (LeafValue D)) :
    (resolvedData serverValues node existing).isEmpty = node.isEmpty := by
  cases node with
  | empty => rfl
  | leaf value priority => rfl
  | children dict priority => exact isEmpty_resolvedChildren dict

/-! ### Parts without deferred values -/

theorem resolvedPriority_eq_of_same {priority : NodeData K (LeafValue D)}
    (h : (resolvedPriority serverValues existing priority).Same priority) :
    resolvedPriority serverValues existing priority = priority := by
  cases priority with
  | empty => rfl
  | leaf value beyond =>
      obtain ⟨hbeyond, hvalue⟩ := h
      rw [resolvedPriority, resolveDeferredValue_eq (not_isDeferred_of_same hvalue)]
      cases beyond with
      | empty => rfl
      | leaf value priority => exact hbeyond.elim
      | children dict priority => exact hbeyond.elim
  | children dict beyond => rfl

mutual

/-- A node that equals the resolved one is the resolved one. -/
theorem resolvedData_eq_of_same : ∀ {node : NodeData K (LeafValue D)} {existing : ValueProvider K D},
    (resolvedData serverValues node existing).Same node → resolvedData serverValues node existing = node
  | .empty, _, _ => rfl
  | .leaf value priority, existing, h => by
      obtain ⟨hpriority, hvalue⟩ := h
      rw [resolvedData, resolvedPriority_eq_of_same hpriority, resolveDeferredValue_eq (not_isDeferred_of_same hvalue)]
  | .children dict priority, existing, h => by
      obtain ⟨hpriority, hchildren⟩ := h
      rw [resolvedData, resolvedPriority_eq_of_same hpriority, resolvedChildren_eq_of_same hchildren]

theorem resolvedChildren_eq_of_same : ∀ {dict : List (K × NodeData K (LeafValue D))} {existing : ValueProvider K D},
      SameChildren (resolvedChildren serverValues dict existing) dict →
        resolvedChildren serverValues dict existing = dict
  | [], _, _ => rfl
  | (key, child) :: rest, existing, h => by
      obtain ⟨-, hchild, hrest⟩ := h
      rw [resolvedChildren, resolvedData_eq_of_same hchild, resolvedChildren_eq_of_same hrest]

end

variable {priority : NodeData K (LeafValue D)}

theorem resolvedPriority_eq (hplain : IsPlainPriority priority) (hfree : priority.DeferredFree) :
    resolvedPriority serverValues existing priority = priority := by
  cases priority with
  | empty => rfl
  | leaf value beyond =>
      obtain ⟨-, rfl⟩ := hplain
      rw [resolvedPriority, resolveDeferredValue_eq hfree.1]
  | children dict beyond => exact hplain.elim

theorem deferredFree_resolvedPriority (hplain : IsPlainPriority priority) :
    (resolvedPriority serverValues existing priority).DeferredFree := by
  cases priority with
  | empty => trivial
  | leaf value beyond => exact ⟨not_isDeferred_resolveDeferredValue, trivial⟩
  | children dict beyond => exact hplain.elim

mutual

/-- A node without deferred values is left as it is. -/
theorem resolvedData_eq : ∀ {node : NodeData K (LeafValue D)} {existing : ValueProvider K D},
    node.PlainPriorities → node.DeferredFree → resolvedData serverValues node existing = node
  | .empty, _, _, _ => rfl
  | .leaf value priority, existing, hplain, hfree => by
      rw [resolvedData, resolvedPriority_eq hplain hfree.2, resolveDeferredValue_eq hfree.1]
  | .children dict priority, existing, hplain, hfree => by
      rw [resolvedData, resolvedPriority_eq hplain.1 hfree.1, resolvedChildren_eq hplain.2 hfree.2]

theorem resolvedChildren_eq : ∀ {dict : List (K × NodeData K (LeafValue D))} {existing : ValueProvider K D},
    NodeData.PlainPrioritiesChildren dict → NodeData.DeferredFreeChildren dict →
      resolvedChildren serverValues dict existing = dict
  | [], _, _, _ => rfl
  | (key, child) :: rest, existing, hplain, hfree => by
      rw [resolvedChildren, resolvedData_eq hplain.1 hfree.1, resolvedChildren_eq hplain.2 hfree.2]

end

mutual

/-- No deferred value is left. -/
theorem deferredFree_resolvedData : ∀ {node : NodeData K (LeafValue D)} {existing : ValueProvider K D},
    node.PlainPriorities → (resolvedData serverValues node existing).DeferredFree
  | .empty, _, _ => trivial
  | .leaf _ _, _, hplain => ⟨not_isDeferred_resolveDeferredValue, deferredFree_resolvedPriority hplain⟩
  | .children _ _, _, hplain => ⟨deferredFree_resolvedPriority hplain.1, deferredFree_resolvedChildren hplain.2⟩

theorem deferredFree_resolvedChildren :
    ∀ {dict : List (K × NodeData K (LeafValue D))} {existing : ValueProvider K D},
      NodeData.PlainPrioritiesChildren dict →
        NodeData.DeferredFreeChildren (resolvedChildren serverValues dict existing)
  | [], _, _ => trivial
  | _ :: _, _, hplain => ⟨deferredFree_resolvedData hplain.1, deferredFree_resolvedChildren hplain.2⟩

end

/-! ### The loops -/

theorem exists_resolvePriority {priority : FNode K (LeafValue D)} (hplain : IsPlainPriority priority.data) :
    ∃ resolved, resolvePriority serverValues priority existing = some resolved ∧
      resolved.data = resolvedPriority serverValues existing priority.data := by
  obtain ⟨data, hwf⟩ := priority
  cases data with
  | empty => exact ⟨_, rfl, rfl⟩
  | leaf value beyond =>
      have hread := (nodeFrom_foundationValue (K := K) 0
        (resolveDeferredValue serverValues (existing.getChild DatabaseKey.priority).value value) _).mpr
          ⟨Nat.zero_le _, fits_resolveDeferredValue hplain.1, rfl⟩
      exact ⟨_, hread, rfl⟩
  | children dict beyond => exact hplain.elim

omit [DoubleArithmetic D] in
/-- Setting a child of a sorted dictionary replaces it in its place. -/
theorem set_append_cons {before rest : List (K × NodeData K (LeafValue D))} {key : K}
    {child newChild : NodeData K (LeafValue D)}
    (hsorted : Sorted DatabaseKey.compareKey (before ++ (key, child) :: rest)) :
    set DatabaseKey.compareKey key newChild (before ++ (key, child) :: rest) = before ++ (key, newChild) :: rest := by
  induction before with
  | nil => exact if_pos rfl
  | cons first before ih =>
      obtain ⟨hfirst, htail⟩ := List.pairwise_cons.mp hsorted
      have hlt := hfirst (key, child) (List.mem_append_right _ List.mem_cons_self)
      have hne : first.1 ≠ key := fun heq => irrefl_of DatabaseKey.compareKey key (heq ▸ hlt)
      have hnot : ¬DatabaseKey.compareKey key first.1 := fun hgt =>
        irrefl_of DatabaseKey.compareKey key (trans_of DatabaseKey.compareKey hgt hlt)
      rw [List.cons_append, SortedDictionary.set, if_neg hne, if_neg hnot, ih htail, List.cons_append]

omit [DoubleArithmetic D] in
/-- The node after a child was set -/
theorem data_updateImmediateChild {newNode newChildNode : FNode K (LeafValue D)}
    {before rest : List (K × NodeData K (LeafValue D))} {key : K} {child priority : NodeData K (LeafValue D)}
    (hdata : newNode.data = .children (before ++ (key, child) :: rest) priority)
    (hne : newChildNode.data.isEmpty = false) : (newNode.updateImmediateChild key newChildNode).data =
      .children (before ++ (key, newChildNode.data) :: rest) priority := by
  have hwf := newNode.wellFormed
  rw [hdata] at hwf
  obtain ⟨-, hsorted, hall, -⟩ := NodeData.wellFormed_children_iff.mp hwf
  have hkey := (hall _ (List.mem_append_right _ List.mem_cons_self)).1
  have hcons : (before ++ (key, newChildNode.data) :: rest).isEmpty = false := by simp
  show newNode.data.updateImmediateChild key newChildNode.data = _
  rw [hdata, NodeData.updateImmediateChild, if_neg hkey, NodeData.updateChildren, hne,
    if_neg Bool.false_ne_true, set_append_cons hsorted]
  simp only [Bool.false_eq_true, if_false, hcons]

variable [DecidableEq D]

mutual

theorem exists_resolveDeferredValueNode :
    ∀ (node : NodeData K (LeafValue D)) (h : node.wellFormed = true) (existing : ValueProvider K D),
      node.PlainPriorities → ∃ resolved, resolveDeferredValueNode serverValues node h existing = some resolved ∧
        resolved.data = resolvedData serverValues node existing
  | .empty, _, _, _ => ⟨_, rfl, rfl⟩
  | .leaf value oldPriority, h, existing, hplain => by
      obtain ⟨priority, hpriority, hdata⟩ : ∃ resolved, resolvePriority serverValues
          (⟨.leaf value oldPriority, h⟩ : FNode K (LeafValue D)).getPriority existing = some resolved ∧
          resolved.data = resolvedPriority serverValues existing oldPriority := exists_resolvePriority hplain
      rw [resolveDeferredValueNode]
      dsimp only
      rw [hpriority, Option.bind_eq_bind, Option.bind_some]
      split_ifs with hsame
      · refine ⟨_, rfl, ?_⟩
        have hsamePriority : priority.data.Same oldPriority := hsame.2
        rw [hdata] at hsamePriority
        rw [resolvedData, resolvedPriority_eq_of_same hsamePriority,
          resolveDeferredValue_eq (not_isDeferred_of_same hsame.1)]
      · refine ⟨_, rfl, ?_⟩
        show NodeData.leaf _ priority.data = _
        rw [hdata, resolvedData]
  | .children dict oldPriority, h, existing, hplain => by
      obtain ⟨priority, hpriority, hdata⟩ : ∃ resolved, resolvePriority serverValues
          (⟨.children dict oldPriority, h⟩ : FNode K (LeafValue D)).getPriority existing = some resolved ∧
          resolved.data = resolvedPriority serverValues existing oldPriority := exists_resolvePriority hplain.1
      rw [resolveDeferredValueNode, hpriority, Option.bind_eq_bind, Option.bind_some, resolvedData]
      refine exists_resolveDeferredValueChildren dict _ existing hplain.2 [] _ _ ?_
      split_ifs with hsame
      · have hsamePriority : priority.data.Same oldPriority := hsame
        rw [hdata] at hsamePriority
        rw [resolvedPriority_eq_of_same hsamePriority, List.nil_append]
      · show NodeData.children dict priority.data = _
        rw [hdata, List.nil_append]

theorem exists_resolveDeferredValueChildren :
    ∀ (rest : List (K × NodeData K (LeafValue D))) (h : NodeData.wellFormedChildren rest = true)
      (existing : ValueProvider K D), NodeData.PlainPrioritiesChildren rest →
      ∀ (before : List (K × NodeData K (LeafValue D))) (priority : NodeData K (LeafValue D))
        (newNode : FNode K (LeafValue D)), newNode.data = .children (before ++ rest) priority →
        ∃ resolved, resolveDeferredValueChildren serverValues rest h existing newNode = some resolved ∧
          resolved.data = .children (before ++ resolvedChildren serverValues rest existing) priority
  | [], _, _, _, _, _, newNode, hdata => ⟨newNode, rfl, hdata⟩
  | (key, child) :: rest, h, existing, hplain, before, priority, newNode, hdata => by
      obtain ⟨newChildNode, hchild, hchildData⟩ :=
        exists_resolveDeferredValueNode child (NodeData.wellFormed_first h) (existing.getChild key) hplain.1
      have hne : newChildNode.data.isEmpty = false := by
        rw [hchildData, isEmpty_resolvedData]
        exact (NodeData.wellFormedChildren_iff.mp h _ List.mem_cons_self).2.1
      rw [resolveDeferredValueChildren, hchild, Option.bind_eq_bind, Option.bind_some, resolvedChildren, ← hchildData,
        List.append_cons]
      refine exists_resolveDeferredValueChildren rest _ existing hplain.2 _ priority _ ?_
      rw [← List.append_cons]
      split_ifs with hsame
      · rw [FNode.Same, hchildData] at hsame
        rw [hdata, hchildData, resolvedData_eq_of_same hsame]
      · exact data_updateImmediateChild hdata hne

end

variable {node : FNode K (LeafValue D)}

theorem exists_resolveDeferredValueSnapshot (serverValues : ServerValues) (hplain : node.data.PlainPriorities)
    (existing : ValueProvider K D) :
    ∃ resolved, resolveDeferredValueSnapshot serverValues node existing = some resolved ∧
      resolved.data = resolvedData serverValues node.data existing :=
  exists_resolveDeferredValueNode node.data node.wellFormed existing hplain

omit [DecidableEq D]

/-! ### The resolved node at a path -/

theorem get_resolvedChildren (dict : List (K × NodeData K (LeafValue D))) (key : K) :
    get key (resolvedChildren serverValues dict existing) =
      (get key dict).map fun child => resolvedData serverValues child (existing.getChild key) := by
  induction dict with
  | nil => rfl
  | cons first rest ih =>
      obtain ⟨firstKey, child⟩ := first
      rw [resolvedChildren, get_cons, get_cons]
      by_cases heq : firstKey = key
      · subst heq
        rw [if_pos rfl, if_pos rfl, Option.map_some]
      · rw [if_neg heq, if_neg heq, ih]

theorem resolvedData_getImmediateChild {key : K} (hkey : key ≠ DatabaseKey.priority)
    (node : NodeData K (LeafValue D)) : (resolvedData serverValues node existing).getImmediateChild key =
      resolvedData serverValues (node.getImmediateChild key) (existing.getChild key) := by
  cases node with
  | empty =>
      rw [resolvedData, NodeData.getImmediateChild, if_neg hkey]
      rfl
  | leaf value priority =>
      rw [resolvedData, NodeData.getImmediateChild, if_neg hkey, NodeData.getImmediateChild, if_neg hkey]
      rfl
  | children dict priority =>
      rw [resolvedData, NodeData.getImmediateChild, if_neg hkey, NodeData.getImmediateChild, if_neg hkey]
      rw [get_resolvedChildren]
      cases get key dict with
      | none => rfl
      | some child => rfl

theorem data_getChild {resolved : FNode K (LeafValue D)}
    (hdata : resolved.data = resolvedData serverValues node.data existing) {path : FPath K}
    (hpath : DatabaseKey.priority ∉ path) :
    (resolved.getChild path).data = resolvedData serverValues (node.getChild path).data (existing.below path) := by
  induction path generalizing resolved node existing with
  | nil =>
      rw [FNode.getChild_nil, FNode.getChild_nil, hdata]
      rfl
  | cons front rest ih =>
      obtain ⟨hfront, hrest⟩ := not_or.mp (mt List.mem_cons.mpr hpath)
      have hchild : (resolved.getImmediateChild front).data =
          resolvedData serverValues (node.getImmediateChild front).data (existing.getChild front) :=
        (congrArg (NodeData.getImmediateChild · front) hdata).trans
          (resolvedData_getImmediateChild (Ne.symm hfront) node.data)
      rw [FNode.getChild_cons (Ne.symm hfront), FNode.getChild_cons (Ne.symm hfront), ih hchild hrest]
      rfl

omit [DoubleArithmetic D] in
theorem plainPriorities_getChild (h : node.data.PlainPriorities) {path : FPath K}
    (hpath : DatabaseKey.priority ∉ path) : (node.getChild path).data.PlainPriorities := by
  induction path generalizing node with
  | nil => rwa [FNode.getChild_nil]
  | cons front rest ih =>
      obtain ⟨hfront, hrest⟩ := not_or.mp (mt List.mem_cons.mpr hpath)
      rw [FNode.getChild_cons (Ne.symm hfront)]
      refine ih ?_ hrest
      obtain ⟨data, hwf⟩ := node
      show (data.getImmediateChild front).PlainPriorities
      cases data with
      | empty =>
          rw [NodeData.getImmediateChild, if_neg (Ne.symm hfront)]
          trivial
      | leaf value priority =>
          rw [NodeData.getImmediateChild, if_neg (Ne.symm hfront)]
          trivial
      | children dict priority =>
          rw [NodeData.getImmediateChild, if_neg (Ne.symm hfront)]
          cases hget : get front dict with
          | none => trivial
          | some child => exact NodeData.plainPrioritiesChildren_iff.mp h.2 _ (mem_of_get hget)

omit [StringKey K] [DoubleArithmetic D] in
theorem NodeData.PlainPriorities.getPriority {node : NodeData K (LeafValue D)} (h : node.PlainPriorities) :
    IsPlainPriority node.getPriority := by
  cases node with
  | empty => trivial
  | leaf value priority => exact h
  | children dict priority => exact h.1

theorem leafValue_resolvedData (node : NodeData K (LeafValue D)) :
    (resolvedData serverValues node existing).leafValue =
      node.leafValue.map (resolveDeferredValue serverValues existing.value) := by
  cases node with
  | empty => rfl
  | leaf value priority => rfl
  | children dict priority => rfl

theorem getPriority_resolvedData (node : NodeData K (LeafValue D)) :
    (resolvedData serverValues node existing).getPriority =
      resolvedPriority serverValues existing node.getPriority := by
  cases node with
  | empty => rfl
  | leaf value priority => rfl
  | children dict priority => rfl

theorem leafValue_resolvedPriority (priority : NodeData K (LeafValue D)) :
    (resolvedPriority serverValues existing priority).leafValue =
      priority.leafValue.map (resolveDeferredValue serverValues (existing.getChild DatabaseKey.priority).value) := by
  cases priority with
  | empty => rfl
  | leaf value beyond => rfl
  | children dict beyond => rfl

/-! ### Resolving -/

variable [DecidableEq D]

/-- The parts of the node after its deferred values were resolved -/
structure IsResolved (serverValues : ServerValues) (node : FNode K (LeafValue D)) (existing : ValueProvider K D)
    (resolved : FNode K (LeafValue D)) : Prop where
  deferredFree : resolved.data.DeferredFree
  unchanged : ∀ path, DatabaseKey.priority ∉ path → (node.getChild path).data.DeferredFree →
    resolved.getChild path = node.getChild path
  unchangedPriority : ∀ path, DatabaseKey.priority ∉ path → (node.getChild path).getPriority.data.DeferredFree →
    (resolved.getChild path).getPriority = (node.getChild path).getPriority
  leafValue : ∀ path, DatabaseKey.priority ∉ path → (resolved.getChild path).leafValue =
    (node.getChild path).leafValue.map (resolveDeferredValue serverValues (existing path))
  priorityValue : ∀ path, DatabaseKey.priority ∉ path → (resolved.getChild path).getPriority.leafValue =
    (node.getChild path).getPriority.leafValue.map
      (resolveDeferredValue serverValues (existing (path ++ [DatabaseKey.priority])))

omit [DecidableEq D] in
theorem isResolved_of_data {resolved : FNode K (LeafValue D)} (hplain : node.data.PlainPriorities)
    (hdata : resolved.data = resolvedData serverValues node.data existing) :
    IsResolved serverValues node existing resolved := by
  have hbelow : ∀ path, (existing.below path).value = existing path := fun path =>
    congrArg existing (List.append_nil path)
  refine ⟨hdata ▸ deferredFree_resolvedData hplain, fun path hpath hfree => ?_, fun path hpath hfree => ?_,
    fun path hpath => ?_, fun path hpath => ?_⟩
  · exact FNode.ext ((data_getChild hdata hpath).trans (resolvedData_eq (plainPriorities_getChild hplain hpath) hfree))
  · refine FNode.ext ?_
    show (resolved.getChild path).data.getPriority = _
    rw [data_getChild hdata hpath, getPriority_resolvedData]
    exact resolvedPriority_eq (plainPriorities_getChild hplain hpath).getPriority hfree
  · show (resolved.getChild path).data.leafValue = _
    rw [data_getChild hdata hpath, leafValue_resolvedData, hbelow]
    rfl
  · show (resolved.getChild path).data.getPriority.leafValue = _
    rw [data_getChild hdata hpath, getPriority_resolvedData, leafValue_resolvedPriority]
    rfl

/-- The loop over the writes of a compound write -/
theorem exists_foldlM_addWrite (serverValues : ServerValues) (existing : ValueProvider K D)
    {entries : List (FPath K × FNode K (LeafValue D))}
    (hpaths : (entries.map Prod.fst).Nodup) (hplain : ∀ entry ∈ entries, entry.2.data.PlainPriorities)
    (write : FCompoundWrite K (LeafValue D)) (hwrite : ∀ entry ∈ entries, write.valueAt entry.1 = some entry.2) :
    ∃ resolved, entries.foldlM (fun (resolved : FCompoundWrite K (LeafValue D)) entry => do
        let resolvedNode ← resolveDeferredValueSnapshot serverValues entry.2 (existing.below entry.1)
        some (if ¬resolvedNode.Same entry.2 then resolved.addWrite resolvedNode entry.1 else resolved)) write =
          some resolved ∧
      (∀ path, path ∉ entries.map Prod.fst → resolved.valueAt path = write.valueAt path) ∧
      ∀ entry ∈ entries, ∃ node, resolveDeferredValueSnapshot serverValues entry.2 (existing.below entry.1) = some node ∧
        resolved.valueAt entry.1 = some node := by
  induction entries generalizing write with
  | nil => exact ⟨write, rfl, fun _ _ => rfl, nofun⟩
  | cons entry rest ih =>
      obtain ⟨hpath, hpaths⟩ := List.nodup_cons.mp hpaths
      obtain ⟨hplainEntry, hplainRest⟩ := List.forall_mem_cons.mp hplain
      obtain ⟨hentry, hrest⟩ := List.forall_mem_cons.mp hwrite
      obtain ⟨node, hnode, hdata⟩ := exists_resolveDeferredValueSnapshot serverValues hplainEntry (existing.below entry.1)
      -- Where nothing changes the write already has the resolved node.
      have hnext : ∀ path, (if ¬node.Same entry.2 then write.addWrite node entry.1 else write).valueAt path =
          if path = entry.1 then some node else write.valueAt path := by
        intro path
        split_ifs with hsame hpath hpath
        · rw [FNode.Same, hdata] at hsame
          rw [hpath, hentry]
          exact congrArg some (FNode.ext ((resolvedData_eq_of_same hsame).symm.trans hdata.symm))
        · rfl
        · rw [FCompoundWrite.valueAt_addWrite_covered node List.prefix_rfl hentry, if_pos hpath]
          simp
        · rw [FCompoundWrite.valueAt_addWrite_covered node List.prefix_rfl hentry, if_neg hpath]
      obtain ⟨resolved, hresolved, hothers, hentries⟩ := ih hpaths hplainRest
        (if ¬node.Same entry.2 then write.addWrite node entry.1 else write) fun other hother => by
          have hne : other.1 ≠ entry.1 := fun heq => hpath (heq ▸ List.mem_map_of_mem hother)
          rw [hnext, if_neg hne, hrest other hother]
      refine ⟨resolved, ?_, fun path hnot => ?_, List.forall_mem_cons.mpr ⟨⟨node, hnode, ?_⟩, hentries⟩⟩
      · rw [List.foldlM_cons, hnode]
        exact hresolved
      · obtain ⟨hne, hnot⟩ := not_or.mp (mt List.mem_cons.mpr hnot)
        rw [hothers path hnot, hnext, if_neg hne]
      · rw [hothers entry.1 hpath, hnext, if_pos rfl]

/-- Each write of a compound write is resolved with what exists at its path. -/
theorem exists_resolveDeferredValueCompoundWrite {write : FCompoundWrite K (LeafValue D)}
    (hplain : ∀ path node, write.valueAt path = some node → node.data.PlainPriorities) :
    ∃ resolved, resolveDeferredValueCompoundWrite serverValues write existing = some resolved ∧
      ∀ path, Option.Rel (fun node' node => IsResolved serverValues node (existing.below path) node')
        (resolved.valueAt path) (write.valueAt path) := by
  have hpaths : (write.enumerateWrites.map Prod.fst).Nodup := by
    refine List.pairwise_map.mpr (write.pairwise_enumerateWrites.imp ?_)
    intro entry entry' h heq
    exact h.1 (heq ▸ List.prefix_rfl)
  obtain ⟨resolved, hresolved, hothers, hentries⟩ := exists_foldlM_addWrite serverValues existing hpaths
    (fun entry hentry => hplain _ _ (FCompoundWrite.mem_enumerateWrites.mp hentry)) write
    fun entry hentry => FCompoundWrite.mem_enumerateWrites.mp hentry
  refine ⟨resolved, hresolved, fun path => ?_⟩
  cases hvalue : write.valueAt path with
  | none =>
      have hnot : path ∉ write.enumerateWrites.map Prod.fst := by
        intro hmem
        obtain ⟨entry, hentry, rfl⟩ := List.mem_map.mp hmem
        cases hvalue.symm.trans (FCompoundWrite.mem_enumerateWrites.mp hentry)
      rw [hothers path hnot, hvalue]
      exact .none
  | some node =>
      obtain ⟨node', hnode, hvalue'⟩ := hentries (path, node) (FCompoundWrite.mem_enumerateWrites.mpr hvalue)
      obtain ⟨resolvedNode, hresolvedNode, hdata⟩ :=
        exists_resolveDeferredValueSnapshot serverValues (hplain path node hvalue) (existing.below path)
      cases hnode.symm.trans hresolvedNode
      rw [hvalue']
      exact .some (isResolved_of_data (hplain path node hvalue) hdata)

/-- Resolving gives a node without deferred values, in which only deferred values differ. -/
theorem resolves_deferred_values (serverValues : ServerValues) (node : FNode K (LeafValue D))
    (existing : ValueProvider K D) (hplain : node.data.PlainPriorities) :
    (∃ resolved, resolveDeferredValueSnapshot serverValues node existing = some resolved ∧
      IsResolved serverValues node existing resolved) ∧
    (∀ write : FCompoundWrite K (LeafValue D),
      (∀ path node, write.valueAt path = some node → node.data.PlainPriorities) →
      ∃ resolved, resolveDeferredValueCompoundWrite serverValues write existing = some resolved ∧
        ∀ path, Option.Rel (fun node' node => IsResolved serverValues node (existing.below path) node')
          (resolved.valueAt path) (write.valueAt path)) ∧
    ∀ (x y : Int64) (priority : FNode K (LeafValue D)),
      (-2 ^ 63 ≤ x.toInt + y.toInt ∧ x.toInt + y.toInt < 2 ^ 63 →
        ∃ sum : Int64, ServerValues.resolveIncrement (D := D) (.int64 x)
          (some (FNode.leaf (.number (.int64 y)) priority)) = .number (.int64 sum) ∧
            sum.toInt = x.toInt + y.toInt) ∧
      (¬(-2 ^ 63 ≤ x.toInt + y.toInt ∧ x.toInt + y.toInt < 2 ^ 63) →
        ServerValues.resolveIncrement (D := D) (.int64 x) (some (FNode.leaf (.number (.int64 y)) priority)) =
          .number (.double (DoubleArithmetic.add (DoubleArithmetic.ofInt64 x) (DoubleArithmetic.ofInt64 y)))) := by
  obtain ⟨resolved, hresolved, hdata⟩ := exists_resolveDeferredValueSnapshot serverValues hplain existing
  exact ⟨⟨resolved, hresolved, isResolved_of_data hplain hdata⟩,
    fun write hwrites => exists_resolveDeferredValueCompoundWrite hwrites, ServerValues.resolveIncrement_int64⟩

end Nodes

/-! ### A node with increments -/

section Examples

attribute [local instance] rationalArithmetic

/-- A counter that counts up, with the time as its priority -/
def counter : FNode String (LeafValue ℚ) :=
  .leaf (.deferredValue (.increment (.int64 1))) (.leaf (.deferredValue .timestamp) .empty)

theorem resolves_deferred_values_counter :
    ∃ resolved, resolveDeferredValueSnapshot ⟨1000⟩ counter
        (existingValueProvider (some (.leaf (.number (.int64 41)) .empty))) = some resolved ∧
      IsResolved ⟨1000⟩ counter (existingValueProvider (some (.leaf (.number (.int64 41)) .empty))) resolved :=
  (resolves_deferred_values ⟨1000⟩ counter _ ⟨trivial, rfl⟩).1

/-- A leaf whose priority has a priority -/
def nestedPriority : FNode String (LeafValue ℚ) := .leaf (.bool true) (.leaf (.bool true) (.leaf (.bool true) .empty))

/-- The priority of a priority is lost, though nothing is deferred. -/
theorem nestedPriority_changed : nestedPriority.data.DeferredFree ∧
    resolveDeferredValueSnapshot ⟨1000⟩ nestedPriority (existingValueProvider none) ≠ some nestedPriority := by
  refine ⟨⟨id, id, id, trivial⟩, ?_⟩
  have hresolved : resolveDeferredValueSnapshot ⟨1000⟩ nestedPriority (existingValueProvider none) =
      some (.leaf (.bool true) (.leaf (.bool true) .empty)) := by rfl
  rw [hresolved]
  intro h
  have hpriority := congrArg (fun node => node.getPriority.getPriority.isEmpty) (Option.some.inj h)
  cases hpriority

end Examples

end FirebaseSwift.Database
