import FirebaseSwift.Database.NodeFilters
import FirebaseSwift.Database.ReachableTrees

/-! What an overwrite from the server does to the server caches of the views. A cache at or below the
path of the overwrite is complete afterwards, with what the overwrite has there. A complete cache above
stays complete, and the overwrite is written to it. -/

namespace FirebaseSwift.Database

variable {K V Q : Type} [DatabaseKey K]

/-! ### Nodes -/

theorem FNode.updateChild_getChild_self {path : FPath K} (hpath : DatabaseKey.priority ∉ path)
    (node : FNode K V) : node.updateChild path (node.getChild path) = node := by
  induction path generalizing node with
  | nil => rw [getChild_nil, updateChild_nil]
  | cons front rest ih =>
      obtain ⟨hfront, hrest⟩ := not_or.mp (mt List.mem_cons.mpr hpath)
      rw [updateChild_cons (Ne.symm hfront), getChild_cons (Ne.symm hfront), ih hrest,
        updateImmediateChild_self (Ne.symm hfront)]

/-- At a path two nodes are the same after a write, where they were the same or the write is above. -/
theorem FNode.getChild_updateChild_congr {path other : FPath K} (hpath : DatabaseKey.priority ∉ path)
    (hother : DatabaseKey.priority ∉ other) {node node' : FNode K V} (newChildNode : FNode K V)
    (h : ¬path <+: other → node.getChild other = node'.getChild other) :
    (node.updateChild path newChildNode).getChild other =
      (node'.updateChild path newChildNode).getChild other := by
  by_cases hbelow : path <+: other
  · obtain ⟨rest, rfl⟩ := hbelow
    rw [getChild_updateChild_above hpath, getChild_updateChild_above hpath]
  by_cases habove : other <+: path
  · obtain ⟨rest, rfl⟩ := habove
    rw [getChild_updateChild_append hother, getChild_updateChild_append hother, h hbelow]
  · rw [getChild_updateChild_beside hother hbelow habove, getChild_updateChild_beside hother hbelow habove,
      h hbelow]

/-! ### The operation at a path -/

namespace FOperation

theorem operationAt_overwrite {path : FPath K} (hpath : DatabaseKey.priority ∉ path)
    (source : FOperationSource Q) (snap : FNode K V) :
    (overwrite source [] snap).operationAt path = some (overwrite source [] (snap.getChild path)) := by
  induction path generalizing snap with
  | nil => rw [operationAt, FNode.getChild_nil]
  | cons front rest ih =>
      obtain ⟨hfront, hrest⟩ := not_or.mp (mt List.mem_cons.mpr hpath)
      have hchild : (overwrite source [] snap).operationForChild front =
          some (overwrite source [] (snap.getImmediateChild front)) := rfl
      rw [operationAt, hchild, Option.bind_some, ih hrest, FNode.getChild_cons (Ne.symm hfront)]

variable (source : FOperationSource Q)

theorem operationForChild_overwrite (snap : FNode K V) (front : K) (rest : FPath K) (key : K) :
    (overwrite source (front :: rest) snap).operationForChild key = some (overwrite source rest snap) := rfl

theorem operationAlong_overwrite_below {rest : FPath K} (hrest : DatabaseKey.priority ∉ rest)
    (source : FOperationSource Q) (path : FPath K) (snap : FNode K V) :
    operationAlong path (overwrite source path snap) (path ++ rest) =
      some (overwrite source [] (snap.getChild rest)) := by
  induction path with
  | nil => exact operationAt_overwrite hrest source snap
  | cons front path ih =>
      rw [List.cons_append, operationAlong, if_pos rfl, operationForChild_overwrite, Option.bind_some]
      exact ih

theorem operationAlong_overwrite_above (path : FPath K) (front : K) (rest : FPath K) (snap : FNode K V) :
    operationAlong (path ++ front :: rest) (overwrite source (path ++ front :: rest) snap) path =
      some (overwrite source (front :: rest) snap) := by
  induction path with
  | nil => rfl
  | cons first path ih =>
      rw [List.cons_append, operationAlong, if_pos rfl, operationForChild_overwrite, Option.bind_some]
      exact ih

theorem operationAlong_overwrite_beside {path other : FPath K} (habove : ¬other <+: path)
    (hbelow : ¬path <+: other) (source : FOperationSource Q) (snap : FNode K V) :
    operationAlong path (overwrite source path snap) other = none := by
  induction path generalizing other with
  | nil => exact absurd List.nil_prefix hbelow
  | cons front path ih =>
      cases other with
      | nil => exact absurd List.nil_prefix habove
      | cons key other =>
          rw [operationAlong]
          split_ifs with hkey
          · subst hkey
            rw [operationForChild_overwrite, Option.bind_some]
            exact ih (fun hle => habove (List.cons_prefix_cons.mpr ⟨rfl, hle⟩))
              fun hle => hbelow (List.cons_prefix_cons.mpr ⟨rfl, hle⟩)
          · rfl

end FOperation

/-! ### Server caches -/

/-- The cache has all of the server at its path. -/
def FCacheNode.isComplete (self : FCacheNode K V) : Bool := self.isCompleteForPath []

theorem FCacheNode.isComplete_eq (self : FCacheNode K V) :
    self.isComplete = (self.isFullyInitialized && !self.isFiltered) := rfl

variable [DatabaseValue V]

theorem FIndexedFilter.node_updateChildIn {indexedNode : FIndexedNode K V} {childKey : K}
    (hkey : childKey ≠ DatabaseKey.priority) {affectedPath : FPath K}
    (hpath : DatabaseKey.priority ∉ affectedPath) (changedSnap : FNode K V) (source : FCompleteChildSource K V) :
    (updateChildIn indexedNode childKey ((indexedNode.node.getImmediateChild childKey).updateChild
        affectedPath changedSnap) affectedPath source).1.node =
      indexedNode.node.updateChild (childKey :: affectedPath) changedSnap := by
  have hseen := FNode.getChild_updateChild_above hpath []
    (indexedNode.node.getImmediateChild childKey) changedSnap
  rw [List.append_nil, FNode.getChild_nil] at hseen
  unfold updateChildIn
  dsimp only
  by_cases hsame : (indexedNode.node.getImmediateChild childKey).getChild affectedPath =
      ((indexedNode.node.getImmediateChild childKey).updateChild affectedPath changedSnap).getChild
        affectedPath ∧ (indexedNode.node.getImmediateChild childKey).isEmpty =
      ((indexedNode.node.getImmediateChild childKey).updateChild affectedPath changedSnap).isEmpty
  · have hwritten := hsame.1.trans hseen
    rw [if_pos hsame, FNode.updateChild_cons hkey, ← hwritten, FNode.updateChild_getChild_self hpath,
      FNode.updateImmediateChild_self hkey]
  rw [if_neg hsame]
  by_cases hleaf : (indexedNode.node.isLeafNode &&
      ((indexedNode.node.getImmediateChild childKey).updateChild affectedPath changedSnap).isEmpty) = true
  · rw [if_pos hleaf]
    obtain ⟨hleaf, hempty⟩ := Bool.and_eq_true_iff.mp hleaf
    have hchild : indexedNode.node.getImmediateChild childKey = .empty := by
      obtain ⟨value, hvalue⟩ : ∃ value, indexedNode.node.leafValue = some value := by
        have hdata : indexedNode.node.data.isLeafNode = true := hleaf
        cases hnode : indexedNode.node.data with
        | leaf value priority => exact ⟨value, by rw [FNode.leafValue, hnode]; rfl⟩
        | empty => rw [hnode] at hdata; cases hdata
        | children dict priority => rw [hnode] at hdata; cases hdata
      exact FNode.getImmediateChild_of_leafValue hvalue hkey
    rw [FNode.updateChild_cons hkey, FNode.isEmpty_iff.mp hempty, ← hchild, FNode.updateImmediateChild_self hkey]
  · rw [if_neg hleaf, FIndexedNode.node_updateChild, FNode.updateChild_cons hkey]

namespace FViewProcessor

variable {self : FViewProcessor K V} {writesCache : FWriteTreeRef K V}
variable (viewCache : FViewCache K V) {completeCache : Option (FNode K V)} {filterServerNode : Bool}
variable {accumulator : FChildChangeAccumulator K V}

omit [DatabaseValue V] in
theorem cachedServerSnap_generateEventCacheAfterServerEvent [DatabaseValue V] (changePath : FPath K)
    (source : FCompleteChildSource K V) (accumulator : FChildChangeAccumulator K V) :
    (self.generateEventCacheAfterServerEvent writesCache viewCache changePath source
      accumulator).1.cachedServerSnap = viewCache.cachedServerSnap := by
  unfold generateEventCacheAfterServerEvent
  split_ifs <;> rfl

theorem cachedServerSnap_applyServerOverwriteTo (changePath : FPath K) (changedSnap : FNode K V)
    (completeCache : Option (FNode K V)) (filterServerNode : Bool) (accumulator : FChildChangeAccumulator K V) :
    (self.applyServerOverwriteTo writesCache viewCache changePath changedSnap completeCache
        filterServerNode accumulator).1.cachedServerSnap =
      match serverCacheAfterOverwrite viewCache.cachedServerSnap changePath changedSnap
        (if filterServerNode then self.filter else self.filter.indexedFilter) with
      | none => viewCache.cachedServerSnap
      | some newServerCache =>
          ⟨viewCache.cachedServerSnap.isFullyInitialized || changePath.isEmpty,
            (if filterServerNode then self.filter else self.filter.indexedFilter).filtersNodes,
            newServerCache⟩ := by
  rw [applyServerOverwriteTo]
  cases serverCacheAfterOverwrite viewCache.cachedServerSnap changePath changedSnap
      (if filterServerNode then self.filter else self.filter.indexedFilter) with
  | none => rfl
  | some newServerCache => exact cachedServerSnap_generateEventCacheAfterServerEvent _ _ _ _

/-- A cache that was not filtered is filtered only by a filter that filters nodes. -/
theorem isFiltered_applyServerOverwriteTo {viewCache : FViewCache K V} {changePath : FPath K}
    {changedSnap : FNode K V}
    (h : (self.applyServerOverwriteTo writesCache viewCache changePath changedSnap completeCache
      filterServerNode accumulator).1.cachedServerSnap.isFiltered = true) :
    viewCache.cachedServerSnap.isFiltered = true ∨ self.filter.filtersNodes = true := by
  rw [cachedServerSnap_applyServerOverwriteTo] at h
  split at h
  · exact Or.inl h
  · cases filterServerNode with
    | false => cases h
    | true => exact Or.inr h

omit [DatabaseValue V] in
theorem isFiltered_foldl {ι : Type} {apply : FViewCache K V × FChildChangeAccumulator K V → ι →
      FViewCache K V × FChildChangeAccumulator K V}
    (hstep : ∀ state input, (apply state input).1.cachedServerSnap.isFiltered = true →
      state.1.cachedServerSnap.isFiltered = true ∨ self.filter.filtersNodes = true)
    {inputs : List ι} {state : FViewCache K V × FChildChangeAccumulator K V}
    (h : (inputs.foldl apply state).1.cachedServerSnap.isFiltered = true) :
    state.1.cachedServerSnap.isFiltered = true ∨ self.filter.filtersNodes = true := by
  induction inputs generalizing state with
  | nil => exact Or.inl h
  | cons input rest ih =>
      rcases ih h with hfiltered | hfilter
      · exact hstep state input hfiltered
      · exact Or.inr hfilter

theorem isFiltered_applyServerMergeTo {viewCache : FViewCache K V} {path : FPath K}
    {changedChildren : FCompoundWrite K V}
    (h : (self.applyServerMergeTo writesCache viewCache path changedChildren completeCache filterServerNode
      accumulator).1.cachedServerSnap.isFiltered = true) :
    viewCache.cachedServerSnap.isFiltered = true ∨ self.filter.filtersNodes = true := by
  have hloop : ∀ {inCache childCompoundWrites state},
      (self.serverMergeLoop writesCache viewCache inCache completeCache filterServerNode
        childCompoundWrites state).1.cachedServerSnap.isFiltered = true →
      state.1.cachedServerSnap.isFiltered = true ∨ self.filter.filtersNodes = true := by
    intro inCache childCompoundWrites state h
    refine isFiltered_foldl (fun state childWrite h => ?_) h
    dsimp only at h
    split_ifs at h
    · exact isFiltered_applyServerOverwriteTo h
    · exact Or.inl h
  rw [applyServerMergeTo] at h
  split_ifs at h
  · exact Or.inl h
  · rcases hloop h with hfirst | hfilter
    · exact hloop hfirst
    · exact Or.inr hfilter

theorem cachedServerSnap_applyUserOverwriteTo (changePath : FPath K) (changedSnap : FNode K V)
    (completeCache : Option (FNode K V)) (accumulator : FChildChangeAccumulator K V) :
    (self.applyUserOverwriteTo writesCache viewCache changePath changedSnap completeCache
      accumulator).1.cachedServerSnap = viewCache.cachedServerSnap := by
  unfold applyUserOverwriteTo
  cases changePath with
  | nil => rfl
  | cons childKey childChangePath =>
      dsimp only
      split_ifs <;> rfl

theorem isFiltered_processOperation {oldViewCache : FViewCache K V} {operation : FOperation K V Q}
    (h : (self.processOperation writesCache oldViewCache operation
      completeCache).1.cachedServerSnap.isFiltered = true) :
    oldViewCache.cachedServerSnap.isFiltered = true ∨ self.filter.filtersNodes = true := by
  have hmerge : ∀ {viewCache path inCache writes state},
      (self.userMergeLoop writesCache viewCache path inCache completeCache writes
        state).1.cachedServerSnap.isFiltered = true →
      state.1.cachedServerSnap.isFiltered = true ∨ self.filter.filtersNodes = true := by
    intro viewCache path inCache writes state h
    refine isFiltered_foldl (fun state write h => Or.inl ?_) h
    dsimp only at h
    split at h
    · exact h
    · split_ifs at h
      · rwa [cachedServerSnap_applyUserOverwriteTo] at h
      · exact h
  unfold processOperation at h
  match htype : operation.type with
  | .overwrite snap =>
      rw [htype] at h
      dsimp only at h
      split_ifs at h
      · rw [cachedServerSnap_applyUserOverwriteTo] at h
        exact Or.inl h
      · exact isFiltered_applyServerOverwriteTo h
  | .merge children =>
      rw [htype] at h
      dsimp only at h
      split_ifs at h
      · rcases hmerge h with hfirst | hfilter
        · exact hmerge hfirst
        · exact Or.inr hfilter
      · exact isFiltered_applyServerMergeTo h
  | .ackUserWrite affectedTree revert =>
      rw [htype] at h
      dsimp only at h
      cases revert with
      | true =>
          rw [Bool.not_true, if_neg Bool.false_ne_true, revertUserWriteOn] at h
          split_ifs at h <;> exact Or.inl h
      | false =>
          rw [Bool.not_false, if_pos rfl, ackUserWriteOn] at h
          dsimp only at h
          split_ifs at h
          · exact Or.inl h
          · exact isFiltered_applyServerOverwriteTo h
          · exact isFiltered_applyServerMergeTo h
          · exact Or.inl h
          · exact isFiltered_applyServerMergeTo h
  | .listenComplete =>
      rw [htype] at h
      rw [listenComplete, cachedServerSnap_generateEventCacheAfterServerEvent] at h
      exact Or.inl h

end FViewProcessor

/-! ### Views -/

namespace FView

variable [QueryValue K V] {view view' : FView K V} {writesCache : FWriteTreeRef K V}
  {serverCache : Option (FNode K V)}

/-- A server cache is filtered for filtered queries only. -/
def FilteredForQuery (view : FView K V) : Prop :=
  view.viewCache.cachedServerSnap.isFiltered = true → view.query.loadsAllData = false

theorem viewCache_applyOperation {operation : FOperation K V (FQueryParams K V)}
    (h : view.applyOperation operation writesCache serverCache = some view') :
    view'.viewCache = ((FViewProcessor.mk view.query.params.nodeFilter).processOperation writesCache
      view.viewCache operation serverCache).1 := by
  obtain ⟨result, happly, rfl⟩ := Option.map_eq_some_iff.mp h
  rw [FViewProcessor.applyOperationOn] at happly
  dsimp only at happly
  split_ifs at happly
  cases happly
  rfl

theorem stable_filteredForQuery : FSyncTree.Stable (FilteredForQuery (K := K) (V := V)) where
  ofQuery _ _ h := nomatch h
  registrations _ _ h := h
  applyOperation view view' operation writesCache serverCache h happly := by
    intro hfiltered
    rw [FSyncPoint.query_of_applyOperation happly]
    rw [viewCache_applyOperation happly] at hfiltered
    rcases FViewProcessor.isFiltered_processOperation hfiltered with hold | hfilter
    · exact h hold
    · have hloads := FQueryParams.filtersNodes_nodeFilter view.query.params
      rw [hfilter] at hloads
      exact (Bool.not_eq_true' _).mp hloads.symm

/-- At or below the path of an overwrite a cache has what the overwrite has there. -/
theorem cachedServerSnap_of_overwrite_here {snap : FNode K V}
    (h : view.applyOperation (.overwrite (.server none) [] snap) writesCache serverCache = some view') :
    view'.viewCache.cachedServerSnap.isComplete = true ∧ view'.viewCache.cachedServerSnap.node = snap := by
  have hprocess : view'.viewCache.cachedServerSnap =
      ⟨true, false, .ofNode snap view.query.params.nodeFilter.index⟩ := by
    rw [viewCache_applyOperation h]
    change ((FViewProcessor.mk view.query.params.nodeFilter).applyServerOverwriteTo writesCache
      view.viewCache [] snap serverCache (false || (_ && false)) .initial).1.cachedServerSnap = _
    rw [FViewProcessor.cachedServerSnap_applyServerOverwriteTo, Bool.and_false, Bool.or_false]
    simp only [Bool.false_eq_true, if_false, FViewProcessor.serverCacheAfterOverwrite, List.isEmpty_nil,
      Bool.or_true]
    rfl
  rw [hprocess]
  exact ⟨rfl, rfl⟩

/-- Above the path of an overwrite a complete cache takes it over. -/
theorem cachedServerSnap_of_overwrite_below (hfiltered : view.FilteredForQuery) {front : K}
    {rest : FPath K} {snap : FNode K V} (hfront : front ≠ DatabaseKey.priority) (hrest : DatabaseKey.priority ∉ rest)
    (h : view.applyOperation (.overwrite (.server none) (front :: rest) snap) writesCache serverCache =
      some view') : view'.viewCache.cachedServerSnap.isComplete = view.viewCache.cachedServerSnap.isComplete ∧
      (view.viewCache.cachedServerSnap.isComplete = true → view'.viewCache.cachedServerSnap.node =
        view.viewCache.cachedServerSnap.node.updateChild (front :: rest) snap) := by
  have hprocess : view'.viewCache.cachedServerSnap =
      match FViewProcessor.serverCacheAfterOverwrite view.viewCache.cachedServerSnap (front :: rest) snap
        (if view.viewCache.cachedServerSnap.isFiltered then view.query.params.nodeFilter
          else view.query.params.nodeFilter.indexedFilter) with
      | none => view.viewCache.cachedServerSnap
      | some newServerCache =>
          ⟨view.viewCache.cachedServerSnap.isFullyInitialized || false,
            (if view.viewCache.cachedServerSnap.isFiltered then view.query.params.nodeFilter
              else view.query.params.nodeFilter.indexedFilter).filtersNodes, newServerCache⟩ := by
    rw [viewCache_applyOperation h]
    change ((FViewProcessor.mk view.query.params.nodeFilter).applyServerOverwriteTo writesCache
      view.viewCache (front :: rest) snap serverCache
        (false || (view.viewCache.cachedServerSnap.isFiltered && true)) .initial).1.cachedServerSnap = _
    rw [FViewProcessor.cachedServerSnap_applyServerOverwriteTo, Bool.and_true, Bool.false_or]
    rfl
  rw [hprocess]
  cases hwas : view.viewCache.cachedServerSnap.isFiltered with
  | true =>
      have hfilters : view.query.params.nodeFilter.filtersNodes = true := by
        rw [FQueryParams.filtersNodes_nodeFilter]
        exact (Bool.not_eq_true' _).mpr (hfiltered hwas)
      rw [if_pos rfl, FCacheNode.isComplete_eq view.viewCache.cachedServerSnap, hwas]
      split
      · rw [FCacheNode.isComplete_eq, hwas]
        simp
      · rw [FCacheNode.isComplete_eq, hfilters]
        simp
  | false =>
      rw [if_neg Bool.false_ne_true, FViewProcessor.serverCacheAfterOverwrite]
      have hindexed : view.query.params.nodeFilter.indexedFilter.filtersNodes = false := rfl
      rw [hindexed, Bool.false_and, if_neg Bool.false_ne_true, if_neg hfront]
      split_ifs with hunknown
      · refine ⟨rfl, fun hcomplete => ?_⟩
        have hknown : view.viewCache.cachedServerSnap.isCompleteForPath (front :: rest) = true := by
          change view.viewCache.cachedServerSnap.isCompleteForChild front = true
          rw [FCacheNode.isCompleteForChild, ← FCacheNode.isComplete_eq, hcomplete, Bool.true_or]
        rw [hknown] at hunknown
        cases hunknown
      · refine ⟨?_, fun _ => ?_⟩
        · rw [FCacheNode.isComplete_eq, FCacheNode.isComplete_eq, hwas, Bool.or_false]
        · exact FIndexedFilter.node_updateChildIn hfront hrest snap _

end FView

/-! ### The sync tree -/

namespace FSyncPoint

variable [QueryFilters K V] {syncPoint syncPoint' : FSyncPoint K V}

/-- An operation of the server that is not tagged reaches every view. -/
theorem viewFor_applyOperation_untagged {operation : FOperation K V (FQueryParams K V)}
    {writesCache : FWriteTreeRef K V} {serverCache : Option (FNode K V)} (hsource : operation.source = .server none)
    (h : syncPoint.applyOperation operation writesCache serverCache = some syncPoint') (params : FQueryParams K V) :
    (syncPoint.viewFor params = none ∧ syncPoint'.viewFor params = none) ∨
      ∃ view view', syncPoint.viewFor params = some view ∧ syncPoint'.viewFor params = some view' ∧
        view.applyOperation operation writesCache serverCache = some view' := by
  unfold applyOperation at h
  rw [hsource] at h
  obtain ⟨views', hviews, rfl⟩ := Option.map_eq_some_iff.mp h
  have hafter := @viewFor_of_mapM _ _ _ _
    (fun view => view.applyOperation operation writesCache serverCache) _ _ hviews params
  cases hview : syncPoint.viewFor params with
  | none =>
      refine Or.inl ⟨rfl, hafter.trans ?_⟩
      exact (congrArg (Option.bind · _) hview).trans (Option.bind_none _)
  | some view =>
      have hsome := isSome_of_mapM
        (fun view : FView K V => view.applyOperation operation writesCache serverCache) hviews
        (mem_of_viewFor hview)
      obtain ⟨view', happly⟩ := Option.isSome_iff_exists.mp hsome
      refine Or.inr ⟨view, view', rfl, hafter.trans ?_, happly⟩
      exact (congrArg (Option.bind · _) hview).trans happly

end FSyncPoint

namespace FSyncTree

variable [QueryValue K V] {tree tree' : FSyncTree K V} {path : FPath K} {snap : FNode K V}

def viewAt (tree : FSyncTree K V) (query : FQuerySpec K V) : Option (FView K V) :=
  (tree.syncPointTree.valueAt query.path).bind fun syncPoint => syncPoint.viewForQuery query

omit [QueryValue K V] in
/-- What becomes of a view: it takes over the operation that arrives at its path. -/
def ViewUpdated (operation : Option (FOperation K V (FQueryParams K V))) (writesCache : FWriteTreeRef K V)
    (view view' : FView K V) : Prop :=
  match operation with
  | some operation => ∃ serverCache, view.applyOperation operation writesCache serverCache = some view'
  | none => view' = view

variable {query : FQuerySpec K V}

theorem viewAt_of_updated {operation : Option (FOperation K V (FQueryParams K V))}
    {writesCache : FWriteTreeRef K V} (hsource : ∀ operation' ∈ operation, operation'.source = .server none)
    (h : Updated operation writesCache (tree.syncPointTree.valueAt query.path)
      (tree'.syncPointTree.valueAt query.path)) : (tree.viewAt query = none ∧ tree'.viewAt query = none) ∨
      ∃ view view', tree.viewAt query = some view ∧ tree'.viewAt query = some view' ∧
        ViewUpdated operation writesCache view view' := by
  unfold viewAt
  cases hvalue : tree.syncPointTree.valueAt query.path with
  | none =>
      cases hvalue' : tree'.syncPointTree.valueAt query.path with
      | none => exact Or.inl ⟨rfl, rfl⟩
      | some syncPoint' =>
          rw [hvalue, hvalue'] at h
          cases h
  | some syncPoint =>
      cases hvalue' : tree'.syncPointTree.valueAt query.path with
      | none =>
          rw [hvalue, hvalue'] at h
          cases h
      | some syncPoint' =>
          rw [hvalue, hvalue'] at h
          rw [Option.bind_some, Option.bind_some, FSyncPoint.viewForQuery, FSyncPoint.viewForQuery]
          cases operation with
          | none =>
              cases h
              cases hview : syncPoint.viewFor query.params with
              | none => exact Or.inl ⟨rfl, rfl⟩
              | some view => exact Or.inr ⟨view, view, rfl, rfl, rfl⟩
          | some operation =>
              obtain ⟨serverCache, happly⟩ := h
              rcases FSyncPoint.viewFor_applyOperation_untagged (hsource operation rfl) happly query.params
                with hnone | ⟨view, view', hview, hview', hupdated⟩
              · exact Or.inl hnone
              · exact Or.inr ⟨view, view', hview, hview', serverCache, hupdated⟩

/-- The server cache of a query after an overwrite from the server. Where the caches were what a node
has, they are what the node has with the overwrite. -/
theorem cachedServerSnap_applyServerOverwriteAtPath
    (h : tree.applyServerOverwriteAtPath path snap = some tree') (hpath : DatabaseKey.priority ∉ path)
    (hquery : DatabaseKey.priority ∉ query.path) (hfiltered : ∀ view ∈ tree.viewAt query, view.FilteredForQuery) :
    (tree.viewAt query = none ∧ tree'.viewAt query = none) ∨
      ∃ view view', tree.viewAt query = some view ∧ tree'.viewAt query = some view' ∧
        (view'.viewCache.cachedServerSnap.isComplete = true ↔
          view.viewCache.cachedServerSnap.isComplete = true ∨ path <+: query.path) ∧
        ∀ serverTree : FNode K V,
          (view.viewCache.cachedServerSnap.isComplete = true →
            view.viewCache.cachedServerSnap.node = serverTree.getChild query.path) →
          view'.viewCache.cachedServerSnap.isComplete = true →
            view'.viewCache.cachedServerSnap.node =
              (serverTree.updateChild path snap).getChild query.path := by
  obtain ⟨syncPointTree', happly, htree'⟩ := Option.map_eq_some_iff.mp h
  have hupdated : Updated (FOperation.operationAlong path (.overwrite (.server none) path snap) query.path)
      ((tree.pendingWriteTree.childWritesForPath []).writesAt query.path)
      (tree.syncPointTree.valueAt query.path) (tree'.syncPointTree.valueAt query.path) := by
    rw [← htree']
    exact valueAt_applyOperationHelper happly query.path
  have hsource : ∀ (rest : FPath K) (snap : FNode K V), ∀ operation ∈ some (FOperation.overwrite
      (.server none) rest snap : FOperation K V (FQueryParams K V)), operation.source = .server none := by
    intro rest snap operation hoperation
    cases hoperation
    rfl
  by_cases hbelow : path <+: query.path
  · -- at the path or below
    obtain ⟨rest, hrest⟩ := hbelow
    have hfree : DatabaseKey.priority ∉ rest := fun hmem => hquery (hrest ▸ List.mem_append_right _ hmem)
    rw [← hrest, FOperation.operationAlong_overwrite_below hfree, hrest] at hupdated
    rcases viewAt_of_updated (hsource _ _) hupdated with
      hnone | ⟨view, view', hview, hview', serverCache, happly⟩
    · exact Or.inl hnone
    · obtain ⟨hcomplete, hnode⟩ := FView.cachedServerSnap_of_overwrite_here happly
      refine Or.inr ⟨view, view', hview, hview', iff_of_true hcomplete (Or.inr ⟨rest, hrest⟩), ?_⟩
      intro serverTree _ _
      rw [hnode, ← hrest, FNode.getChild_updateChild_above hpath]
  by_cases habove : query.path <+: path
  · -- above the path
    obtain ⟨rest, hrest⟩ := habove
    cases rest with
    | nil => exact absurd ⟨[], by rw [← hrest, List.append_nil, List.append_nil]⟩ hbelow
    | cons front rest =>
        have hfree : DatabaseKey.priority ∉ front :: rest :=
          fun hmem => hpath (hrest ▸ List.mem_append_right _ hmem)
        obtain ⟨hfront, hfree⟩ := not_or.mp (mt List.mem_cons.mpr hfree)
        rw [← hrest, FOperation.operationAlong_overwrite_above] at hupdated
        rcases viewAt_of_updated (hsource _ _) hupdated with
          hnone | ⟨view, view', hview, hview', serverCache, happly⟩
        · exact Or.inl hnone
        · obtain ⟨hcomplete, hnode⟩ := FView.cachedServerSnap_of_overwrite_below (hfiltered view hview)
            (Ne.symm hfront) hfree happly
          refine Or.inr ⟨view, view', hview, hview', ?_, ?_⟩
          · rw [hcomplete]
            simp [hbelow]
          · intro serverTree hserver hcomplete'
            have hwas : view.viewCache.cachedServerSnap.isComplete = true := hcomplete ▸ hcomplete'
            rw [hnode hwas, hserver hwas, ← hrest, FNode.getChild_updateChild_append hquery]
  · -- beside the path
    rw [FOperation.operationAlong_overwrite_beside habove hbelow] at hupdated
    rcases viewAt_of_updated (by rintro _ ⟨⟩) hupdated with hnone | ⟨view, view', hview, hview', hsame⟩
    · exact Or.inl hnone
    · cases hsame
      refine Or.inr ⟨view, view, hview, hview', by simp [hbelow], ?_⟩
      intro serverTree hserver hcomplete
      rw [hserver hcomplete, FNode.getChild_updateChild_beside hquery hbelow habove]

end FSyncTree

end FirebaseSwift.Database
