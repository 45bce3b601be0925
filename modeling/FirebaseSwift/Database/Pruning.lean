import FirebaseSwift.Database.OneShotGets

/-! What pruning leaves alone. A prune forest never prunes below a path that it keeps, so the cache has
what it had at the path of every query that is still tracked. -/

namespace FirebaseSwift.Database

open SortedDictionary FImmutableTree

variable {K V : Type} [DatabaseKey K]

/-! ### Prune forests -/

namespace FPruneForest

variable {forest forest' : FPruneForest K} {path : FPath K}

/-- Nothing is pruned at or below a path that is kept. -/
def NeverBelow (forest : FPruneForest K) : Prop :=
  ∀ above path, above <+: path → forest.pruneForest.valueAt above = some false →
    forest.pruneForest.valueAt path ≠ some true

/-- The path or one above is kept. -/
def Keeps (forest : FPruneForest K) (path : FPath K) : Prop :=
  ∃ above, above <+: path ∧ forest.pruneForest.valueAt above = some false

variable {α : Type} (pathOf : α → FPath K)

theorem valueAt_ofValue (value : Option α) (path : FPath K) :
    valueAt path (ofValue value : FImmutableTree K α) = if path = [] then value else none := by
  cases path with
  | nil => rfl
  | cons front rest => rfl

theorem keeps_of_findRootMost (h : (forest.pruneForest.findRootMost (fun value => !value) path).isSome = true) :
    forest.Keeps path := by
  obtain ⟨⟨above, value⟩, hfound⟩ := Option.isSome_iff_exists.mp h
  obtain ⟨hle, hvalue, _⟩ := findRootMost_eq_some.mp hfound
  obtain ⟨hvalue, hkept⟩ := Option.filter_eq_some_iff.mp hvalue
  cases value with
  | false => exact ⟨above, hle, hvalue⟩
  | true => cases hkept

theorem NeverBelow.keepPath (h : forest.NeverBelow) (path : FPath K) : (forest.keepPath path).NeverBelow := by
  rw [FPruneForest.keepPath]
  split_ifs
  · exact h
  · intro above below hle habove hbelow
    rw [valueAt_setTree] at habove hbelow
    split_ifs at hbelow with hunder
    · rw [kKeepTree, valueAt_ofValue] at hbelow
      split_ifs at hbelow
      cases hbelow
    · rw [if_neg fun hprefixed => hunder (hprefixed.trans hle)] at habove
      exact h above below hle habove hbelow

theorem Keeps.keepPath (h : forest.Keeps path) (other : FPath K) : (forest.keepPath other).Keeps path := by
  obtain ⟨above, hle, hvalue⟩ := h
  rw [FPruneForest.keepPath]
  split_ifs
  · exact ⟨above, hle, hvalue⟩
  · by_cases hother : other <+: above
    · refine ⟨other, hother.trans hle, ?_⟩
      rw [valueAt_setTree, if_pos List.prefix_rfl, List.drop_length]
      rfl
    · refine ⟨above, hle, ?_⟩
      rw [valueAt_setTree, if_neg hother]
      exact hvalue

theorem keeps_keepPath (forest : FPruneForest K) (path : FPath K) : (forest.keepPath path).Keeps path := by
  rw [FPruneForest.keepPath]
  split_ifs with hkept
  · exact keeps_of_findRootMost hkept
  · refine ⟨path, List.prefix_rfl, ?_⟩
    rw [valueAt_setTree, if_pos List.prefix_rfl, List.drop_length]
    rfl

/-- The paths that are kept after a list of them. -/
theorem keeps_foldl_keepPath {kept : List α} {query : α} (hmem : query ∈ kept) (forest : FPruneForest K) :
    (kept.foldl (fun forest query => forest.keepPath (pathOf query)) forest).Keeps (pathOf query) := by
  have hkeeps : ∀ (kept : List α) (forest : FPruneForest K), forest.Keeps (pathOf query) →
      (kept.foldl (fun forest query => forest.keepPath (pathOf query)) forest).Keeps (pathOf query) := by
    intro kept
    induction kept with
    | nil => exact fun _ h => h
    | cons first rest ih => exact fun forest h => ih _ (h.keepPath (pathOf first))
  induction kept generalizing forest with
  | nil => cases hmem
  | cons first rest ih =>
      rcases List.mem_cons.mp hmem with rfl | hmem
      · exact hkeeps rest _ (forest.keeps_keepPath (pathOf query))
      · exact ih hmem _

theorem NeverBelow.foldl_keepPath (h : forest.NeverBelow) (kept : List α) :
    (kept.foldl (fun forest query => forest.keepPath (pathOf query)) forest).NeverBelow := by
  induction kept generalizing forest with
  | nil => exact h
  | cons first rest ih => exact ih (h.keepPath (pathOf first))

/-- A forest that only prunes keeps no path. -/
def OnlyPrunes (forest : FPruneForest K) : Prop :=
  ∀ path, forest.pruneForest.valueAt path ≠ some false

theorem OnlyPrunes.neverBelow (h : forest.OnlyPrunes) : forest.NeverBelow :=
  fun above _ _ habove => absurd habove (h above)

theorem OnlyPrunes.prunePath (h : forest.OnlyPrunes) {path : FPath K}
    (hprune : forest.prunePath path = some forest') : forest'.OnlyPrunes := by
  rw [FPruneForest.prunePath] at hprune
  split_ifs at hprune
  · cases hprune
    exact h
  · cases hprune
    intro other
    rw [valueAt_setTree]
    split_ifs
    · rw [kPruneTree, valueAt_ofValue]
      split_ifs <;> simp
    · exact h other

theorem OnlyPrunes.foldlM_prunePath (h : forest.OnlyPrunes) {pruned : List α}
    (hprune : pruned.foldlM (fun forest query => forest.prunePath (pathOf query)) forest = some forest') :
    forest'.OnlyPrunes := by
  induction pruned generalizing forest with
  | nil =>
      cases hprune
      exact h
  | cons first rest ih =>
      obtain ⟨next, hfirst, hrest⟩ := Option.bind_eq_some_iff.mp hprune
      exact ih (h.prunePath hfirst) hrest

end FPruneForest

/-! ### Pruned nodes -/

namespace NodeData

mutual

/-- A forest that prunes nothing leaves a node as it is. -/
theorem prune_eq_self (forest : FImmutableTree K Bool) (pruned : Bool)
    (hpruned : forest.value.getD pruned = false) (hnever : ∀ path, valueAt path forest ≠ some true) :
    ∀ node : NodeData K V, node.wellFormed = true → prune forest pruned node = node
  | .empty, _ => by rw [prune]
  | .leaf value priority, _ => by rw [prune, hpruned, if_neg Bool.false_ne_true]
  | .children dict priority, hwf => by
      obtain ⟨hnil, _, hall, _⟩ := wellFormed_children_iff.mp hwf
      rw [prune, hpruned, pruneChildren_eq_self forest hnever dict hall, if_neg Bool.false_ne_true,
        if_neg (by simpa using hnil)]

theorem pruneChildren_eq_self (forest : FImmutableTree K Bool) (hnever : ∀ path, valueAt path forest ≠ some true) :
    ∀ dict : List (K × NodeData K V),
      (∀ e ∈ dict, e.1 ≠ DatabaseKey.priority ∧ e.2.isEmpty = false ∧ wellFormed e.2 = true) →
        pruneChildren forest false dict = dict
  | [], _ => by rw [pruneChildren]
  | (key, child) :: rest, hall => by
      obtain ⟨⟨_, hempty, hchild⟩, hrest⟩ := List.forall_mem_cons.mp hall
      have hbelow : ∀ path, valueAt path ((get key forest.children).getD .empty) ≠ some true := by
        intro path
        rw [valueAt_getD]
        exact hnever (key :: path)
      have hvalue : ((get key forest.children).getD .empty).value.getD false = false := by
        cases hfound : ((get key forest.children).getD .empty).value with
        | none => rfl
        | some value =>
            cases value with
            | false => rfl
            | true => exact absurd hfound (hbelow [])
      rw [pruneChildren_cons, prune_eq_self _ false hvalue hbelow child hchild, if_neg (by simp [hempty]),
        pruneChildren_eq_self forest hnever rest hrest]

end

theorem getImmediateChild_prune (forest : FImmutableTree K Bool) (pruned : Bool) {node : NodeData K V}
    (hwf : node.wellFormed = true) {key : K} (hkey : key ≠ DatabaseKey.priority) :
    (prune forest pruned node).getImmediateChild key =
      prune ((get key forest.children).getD .empty) (forest.value.getD pruned)
        (node.getImmediateChild key) := by
  have hempty : ∀ forest pruned, prune forest pruned (.empty : NodeData K V) = .empty := by
    intro forest pruned
    rw [prune]
  rw [getImmediateChild_eq hkey, getImmediateChild_eq hkey]
  cases node with
  | empty => rw [hempty, childList_empty, get_nil, Option.getD_none, hempty]
  | leaf value priority =>
      rw [childList_leaf, get_nil, Option.getD_none, hempty, prune]
      split_ifs <;> rfl
  | children dict priority =>
      obtain ⟨_, hsorted, hall, _⟩ := wellFormed_children_iff.mp hwf
      have hnodup := SortedDictionary.Sorted.nodup_keys hsorted
      have hchildren : (prune forest pruned (.children dict priority)).childList =
          pruneChildren forest (forest.value.getD pruned) dict := by
        rw [prune]
        split_ifs with hnil
        · exact (List.isEmpty_iff.mp hnil).symm
        · rfl
        · rfl
      rw [hchildren, get_pruneChildren _ _ hnodup, childList_children]
      cases hget : get key dict with
      | none => rw [Option.map_none, Option.filter_none, Option.getD_none, hempty]
      | some child =>
          rw [Option.map_some, Option.filter_some, Option.getD_some]
          split_ifs with hkept
          · rfl
          · have hgone : (prune ((get key forest.children).getD .empty) (forest.value.getD pruned)
                child).isEmpty = true := by simpa using hkept
            have hchild := (hall (key, child) (mem_of_get hget)).2.2
            exact (congrArg FNode.data (FNode.isEmpty_iff.mp
              (show (⟨_, wellFormed_prune _ _ child hchild⟩ : FNode K V).isEmpty = true from hgone))).symm

end NodeData

theorem FNode.getChild_prune {path : FPath K} (hpath : DatabaseKey.priority ∉ path)
    {forest : FImmutableTree K Bool} {pruned : Bool} {node : FNode K V} {above : FPath K}
    (hle : above <+: path) (hkept : valueAt above forest = some false)
    (hnever : ∀ below, above <+: below → valueAt below forest ≠ some true) :
    (⟨node.data.prune forest pruned, NodeData.wellFormed_prune _ _ _ node.wellFormed⟩ : FNode K V).getChild
      path = node.getChild path := by
  induction above generalizing forest pruned node path with
  | nil =>
      have hvalue : forest.value.getD pruned = false := by
        rw [← valueAt_nil, hkept]
        rfl
      have hself := NodeData.prune_eq_self forest pruned hvalue (fun below => hnever below List.nil_prefix)
        node.data node.wellFormed
      exact congrArg (FNode.getChild · path) (FNode.ext hself)
  | cons front above ih =>
      obtain ⟨rest, rfl⟩ := hle
      rw [List.cons_append] at hpath ⊢
      obtain ⟨hfront, hrest⟩ := not_or.mp (mt List.mem_cons.mpr hpath)
      have hchild : (⟨node.data.prune forest pruned,
          NodeData.wellFormed_prune _ _ _ node.wellFormed⟩ : FNode K V).getImmediateChild front =
          ⟨(node.getImmediateChild front).data.prune ((get front forest.children).getD .empty)
            (forest.value.getD pruned),
            NodeData.wellFormed_prune _ _ _ (node.getImmediateChild front).wellFormed⟩ :=
        FNode.ext (NodeData.getImmediateChild_prune forest pruned node.wellFormed (Ne.symm hfront))
      rw [FNode.getChild_cons (Ne.symm hfront), FNode.getChild_cons (Ne.symm hfront), hchild]
      refine ih hrest ⟨rest, rfl⟩ ?_ ?_
      · rw [valueAt_getD]
        exact hkept
      · intro below hbelow
        rw [valueAt_getD]
        exact hnever _ (List.cons_prefix_cons.mpr ⟨rfl, hbelow⟩)

theorem FNode.getChild_prune_of_keeps {forest : FPruneForest K} (hnever : forest.NeverBelow)
    {path : FPath K} (hpath : DatabaseKey.priority ∉ path) (hkeeps : forest.Keeps path)
    (node : FNode K V) : (node.prune forest).getChild path = node.getChild path := by
  obtain ⟨above, hle, hkept⟩ := hkeeps
  exact FNode.getChild_prune hpath hle hkept fun below hbelow => hnever above below hbelow hkept

/-! ### What stays tracked -/

variable [DatabaseValue V]

namespace FTrackedQueryManager

variable {manager : FTrackedQueryManager K V}

theorem not_mem_lookup_foldl_removeTrackedQuery {trackedQueries : List (FTrackedQuery K V)}
    {trackedQuery : FTrackedQuery K V} (hmem : trackedQuery ∈ trackedQueries) :
    (trackedQueries.foldl (fun manager trackedQuery => manager.removeTrackedQuery trackedQuery.query)
      manager).lookup (normalizeQuery trackedQuery.query) = none := by
  have hstays : ∀ (rest : List (FTrackedQuery K V)) (manager : FTrackedQueryManager K V),
      manager.lookup (normalizeQuery trackedQuery.query) = none →
        (rest.foldl (fun manager trackedQuery => manager.removeTrackedQuery trackedQuery.query)
          manager).lookup (normalizeQuery trackedQuery.query) = none := by
    intro rest manager hnone
    by_contra hsome
    obtain ⟨found, hfound⟩ := Option.ne_none_iff_exists'.mp hsome
    have hold := mem_lookup_foldl_removeTrackedQuery hfound
    rw [hnone] at hold
    cases hold
  induction trackedQueries generalizing manager with
  | nil => cases hmem
  | cons first rest ih =>
      rcases List.mem_cons.mp hmem with rfl | hmem
      · exact hstays rest _ (by rw [lookup_removeTrackedQuery, if_pos rfl])
      · exact ih hmem

/-- The forest of a pruning keeps the paths of the default queries that stay tracked. -/
theorem Formed.keeps_pruneOldQueries (h : manager.Formed) {cachePolicy : FCachePolicy}
    {manager' : FTrackedQueryManager K V} {forest : FPruneForest K}
    (hprune : manager.pruneOldQueries cachePolicy = some (manager', forest)) :
    forest.NeverBelow ∧ ∀ path, ∀ found ∈ manager'.lookup (.defaultQueryAtPath path),
      forest.Keeps path := by
  obtain ⟨numToPrune, pruned, _, hforest, hresult⟩ := pruneOldQueries_eq_some hprune
  obtain ⟨rfl, rfl⟩ := Prod.mk.inj hresult
  have hempty : (FPruneForest.empty : FPruneForest K).OnlyPrunes := by
    intro path
    rw [FPruneForest.empty, valueAt_empty]
    simp
  have honly := hempty.foldlM_prunePath (fun query : FTrackedQuery K V => query.query.path) hforest
  refine ⟨honly.neverBelow.foldl_keepPath (fun query : FTrackedQuery K V => query.query.path) _, fun path found hfound => ?_⟩
  have hold : found ∈ manager.lookup (.defaultQueryAtPath path) := mem_lookup_foldl_removeTrackedQuery hfound
  have hquery := h.named _ found hold
  have htracked : found ∈ manager.trackedQueries := by
    rw [h.mem_trackedQueries, hquery]
    exact hold
  suffices hkept : found ∈ manager.prunableQueries.drop numToPrune.toNat ++
        manager.trackedQueries.filter fun trackedQuery => trackedQuery.isActive by
    have hkeeps := FPruneForest.keeps_foldl_keepPath (fun query : FTrackedQuery K V => query.query.path)
      hkept pruned
    rw [hquery] at hkeeps
    exact hkeeps
  rw [List.mem_append, List.mem_filter]
  cases hactive : found.isActive with
  | true => exact Or.inr ⟨htracked, rfl⟩
  | false =>
      have hprunable : found ∈ manager.prunableQueries := by
        rw [prunableQueries, List.mem_mergeSort, List.mem_filter]
        exact ⟨htracked, by rw [hactive]; rfl⟩
      rw [← List.take_append_drop numToPrune.toNat manager.prunableQueries, List.mem_append] at hprunable
      rcases hprunable with hpruned | hkept
      · have hnone := @not_mem_lookup_foldl_removeTrackedQuery _ _ _ _ manager _ _ hpruned
        rw [hquery] at hnone
        rw [Option.mem_def] at hfound
        exact absurd (hnone.symm.trans hfound) (by simp)
      · exact Or.inl hkept

end FTrackedQueryManager

namespace FPersistenceManager

variable {manager manager' : FPersistenceManager K V}

/-- After pruning, what is tracked was tracked, and at the paths of the default queries that are tracked
the cache has what it had. -/
structure KeepsTracked (manager manager' : FPersistenceManager K V) : Prop where
  lookup : ∀ spec, ∀ found ∈ manager'.trackedQueryManager.lookup spec,
    found ∈ manager.trackedQueryManager.lookup spec
  getChild : ∀ path, DatabaseKey.priority ∉ path →
    (manager'.trackedQueryManager.lookup (.defaultQueryAtPath path)).isSome = true →
      manager'.serverCache.getChild path = manager.serverCache.getChild path

theorem KeepsTracked.trans {manager'' : FPersistenceManager K V} (h : manager.KeepsTracked manager')
    (h' : manager'.KeepsTracked manager'') : manager.KeepsTracked manager'' := by
  refine ⟨fun spec found hfound => h.lookup spec found (h'.lookup spec found hfound), ?_⟩
  intro path hpath hsome
  obtain ⟨found, hfound⟩ := Option.isSome_iff_exists.mp hsome
  rw [h'.getChild path hpath hsome]
  exact h.getChild path hpath (Option.isSome_of_mem (h'.lookup _ found hfound))

variable {sizes : List Int}

theorem pruneWhile_keepsTracked (hformed : manager.trackedQueryManager.Formed)
    (h : manager.pruneWhile sizes = some manager') : manager.KeepsTracked manager' := by
  induction sizes generalizing manager with
  | nil => cases h
  | cons cacheSize sizes ih =>
      rw [pruneWhile] at h
      split_ifs at h
      · obtain ⟨⟨pruned, forest⟩, hprune, h⟩ := Option.bind_eq_some_iff.mp h
        obtain ⟨hnever, hkeeps⟩ := hformed.keeps_pruneOldQueries hprune
        obtain ⟨hpruned, _⟩ := hformed.pruneOldQueries hprune
        obtain ⟨removed, hremoved⟩ := FTrackedQueryManager.pruneOldQueries_eq hprune
        dsimp only at hpruned hremoved
        have hlookup : ∀ spec, ∀ found ∈ pruned.lookup spec,
            found ∈ manager.trackedQueryManager.lookup spec := by
          intro spec found hfound
          rw [hremoved] at hfound
          exact FTrackedQueryManager.mem_lookup_foldl_removeTrackedQuery hfound
        dsimp only at h
        split_ifs at h
        · refine KeepsTracked.trans ⟨hlookup, fun path hpath hsome => ?_⟩ (ih hpruned h)
          obtain ⟨found, hfound⟩ := Option.isSome_iff_exists.mp hsome
          exact FNode.getChild_prune_of_keeps hnever hpath (hkeeps path found hfound) _
        · cases h
          exact ⟨hlookup, fun _ _ _ => rfl⟩
      · cases h
        exact ⟨fun _ _ hfound => hfound, fun _ _ _ => rfl⟩

theorem doPruneCheckAfterServerUpdate_keepsTracked (hformed : manager.trackedQueryManager.Formed)
    (h : manager.doPruneCheckAfterServerUpdate sizes = some manager') : manager.KeepsTracked manager' := by
  rw [doPruneCheckAfterServerUpdate] at h
  split_ifs at h
  · cases h
    exact ⟨fun _ _ hfound => hfound, fun _ _ _ => rfl⟩
  · have hchecked : ({ manager with
        serverCacheUpdatesSinceLastPruneCheck := 0 } : FPersistenceManager K V).KeepsTracked manager' :=
      pruneWhile_keepsTracked hformed h
    exact ⟨hchecked.lookup, hchecked.getChild⟩

end FPersistenceManager

end FirebaseSwift.Database
