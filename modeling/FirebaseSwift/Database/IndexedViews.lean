import FirebaseSwift.Database.EventGenerator
import FirebaseSwift.Library.StepRuns

/-! The index of the caches. Both caches of a view are ordered by the index of its query; with another
index no child before a child can be looked up in the event cache. Filters keep the index of the node
that they update. A revert builds one node without an index of its own: the leaf that shows again when
the event cache has no child left. -/

namespace FirebaseSwift.Database

variable {K V : Type} [DatabaseKey K] [DatabaseValue V]

/-! ### The index of a node -/

namespace FIndexedNode

variable (node : FNode K V)

omit [DatabaseValue V] in
@[simp] theorem index_ofNode (index : FIndex K) : (ofNode node index).index = index :=
  rfl

omit [DatabaseValue V] in
@[simp] theorem index_ofNodeByPriority : (ofNodeByPriority node).index = .priority :=
  rfl

@[simp] theorem index_updateChild (self : FIndexedNode K V) (key : K) (newChildNode : FNode K V) :
    (self.updateChild key newChildNode).index = self.index := by
  unfold updateChild
  cases self.indexed with
  | fallback => by_cases h : self.index.isDefined newChildNode <;> simp [h]
  | indexed set => rfl

@[simp] theorem index_updatePriority (self : FIndexedNode K V) (priority : FNode K V) :
    (self.updatePriority priority).index = self.index := rfl

end FIndexedNode

/-! ### Filters -/

/-- The filter has the index and keeps it in the nodes that it updates. -/
structure FNodeFilter.KeepsIndex (filter : FNodeFilter K V) (index : FIndex K) : Prop where
  index_eq : filter.index = index
  updateChildIn_eq : ∀ indexedNode childKey newChildSnap affectedPath source,
    (filter.updateChildIn indexedNode childKey newChildSnap affectedPath source).1.index =
      indexedNode.index
  updateFullNode_eq : ∀ oldSnap newSnap, newSnap.index = index →
    (filter.updateFullNode oldSnap newSnap).1.index = index
  updatePriority_eq : ∀ priority oldSnap, (filter.updatePriority priority oldSnap).index = oldSnap.index

namespace FIndexedFilter

theorem index_updateChildIn (indexedNode : FIndexedNode K V) (childKey : K) (newChildSnap : FNode K V)
    (affectedPath : FPath K) (source : FCompleteChildSource K V) :
    (updateChildIn indexedNode childKey newChildSnap affectedPath source).1.index = indexedNode.index := by
  simp only [updateChildIn]
  split_ifs <;> simp

theorem keepsIndex (index : FIndex K) : (ofIndex index : FNodeFilter K V).KeepsIndex index where
  index_eq := rfl
  updateChildIn_eq := index_updateChildIn
  updateFullNode_eq _ _ hindex := hindex
  updatePriority_eq priority oldSnap := by
    show (updatePriority priority oldSnap).index = oldSnap.index
    unfold updatePriority
    split_ifs <;> rfl

end FIndexedFilter

namespace FRangedFilter

variable (self : FRangedFilter K V)

theorem index_updateFullNode (oldSnap newSnap : FIndexedNode K V) (hindex : newSnap.index = self.index) :
    (self.updateFullNode oldSnap newSnap).1.index = self.index := by
  simp only [updateFullNode, FIndexedFilter.updateFullNode]
  split_ifs
  · rfl
  · apply List.foldlRecOn (motive := fun filtered : FIndexedNode K V => filtered.index = self.index)
    · exact hindex
    · intro filtered hfiltered child _
      split_ifs
      · exact (filtered.index_updateChild child.1 .empty).trans hfiltered
      · exact hfiltered

theorem keepsIndex : self.toNodeFilter.KeepsIndex self.index where
  index_eq := rfl
  updateChildIn_eq indexedNode childKey _ affectedPath source :=
    FIndexedFilter.index_updateChildIn indexedNode childKey _ affectedPath source
  updateFullNode_eq := self.index_updateFullNode
  updatePriority_eq _ _ := rfl

end FRangedFilter

namespace FLimitedFilter

variable (self : FLimitedFilter K V)

theorem index_filterChildren (children : List (FNamedNode K V)) (foundStartPost : Bool) (count : Int)
    (filtered : FIndexedNode K V) :
    (self.filterChildren children foundStartPost count filtered).index = filtered.index := by
  induction children generalizing foundStartPost count filtered with
  | nil => rfl
  | cons child rest ih =>
      simp only [filterChildren]
      split_ifs
      · rw [ih]
      · rw [ih, FIndexedNode.index_updateChild]

theorem index_fullLimitUpdateNode (oldIndexed : FIndexedNode K V) (childKey : K)
    (newChildSnap : FNode K V) (source : FCompleteChildSource K V) :
    (self.fullLimitUpdateNode oldIndexed childKey newChildSnap source).1.index = oldIndexed.index := by
  unfold fullLimitUpdateNode
  cases if self.reverse then oldIndexed.firstChild else oldIndexed.lastChild with
  | none => rfl
  | some windowBoundary =>
      dsimp only
      cases self.nextChild oldIndexed childKey source windowBoundary with
      | none => split_ifs <;> simp
      | some next => dsimp only; split_ifs <;> simp

theorem keepsIndex : self.toNodeFilter.KeepsIndex self.index where
  index_eq := rfl
  updateChildIn_eq indexedNode childKey newChildSnap affectedPath source := by
    show (self.updateChildIn indexedNode childKey newChildSnap affectedPath source).1.index = _
    simp only [updateChildIn]
    split_ifs
    all_goals
      first
        | rfl
        | exact FIndexedFilter.index_updateChildIn indexedNode childKey _ affectedPath source
        | exact self.index_fullLimitUpdateNode indexedNode childKey _ source
  updateFullNode_eq oldSnap newSnap hindex := by
    show (self.updateFullNode oldSnap newSnap).1.index = self.index
    simp only [updateFullNode, FIndexedFilter.updateFullNode]
    split_ifs
    · rfl
    · rw [index_filterChildren, FIndexedNode.index_updatePriority, hindex]
  updatePriority_eq _ _ := rfl

end FLimitedFilter

theorem FQueryParams.keepsIndex [QueryValue K V] (params : FQueryParams K V) :
    params.nodeFilter.KeepsIndex params.index := by
  unfold nodeFilter
  split_ifs
  · exact FIndexedFilter.keepsIndex params.index
  · show (filterOf params).KeepsIndex params.index
    unfold filterOf
    split
    · exact FLimitedFilter.keepsIndex _
    · exact FRangedFilter.keepsIndex _

/-! ### Handlers -/

def FViewCache.HasIndex (viewCache : FViewCache K V) (index : FIndex K) : Prop :=
  viewCache.cachedEventSnap.indexedNode.index = index ∧
    viewCache.cachedServerSnap.indexedNode.index = index

namespace FViewProcessor

variable {self : FViewProcessor K V} {index : FIndex K} {viewCache : FViewCache K V}

omit [DatabaseValue V] in
theorem hasIndex_generateEventCacheAfterServerEvent (hfilter : self.filter.KeepsIndex index)
    (writesCache : FWriteTreeRef K V) (hcache : viewCache.HasIndex index) (changePath : FPath K)
    (source : FCompleteChildSource K V) (accumulator : FChildChangeAccumulator K V) :
    (self.generateEventCacheAfterServerEvent writesCache viewCache changePath source
      accumulator).1.HasIndex index := by
  simp only [generateEventCacheAfterServerEvent]
  split_ifs
  · exact hcache
  refine ⟨?_, hcache.2⟩
  cases changePath with
  | nil => exact hfilter.updateFullNode_eq _ _ hfilter.index_eq
  | cons childKey childChangePath =>
      show (self.eventCacheAfterServerEventAtChild writesCache viewCache childKey childChangePath
        source).1.index = index
      simp only [eventCacheAfterServerEventAtChild]
      split_ifs
      · split
        · exact (hfilter.updatePriority_eq _ _).trans hcache.1
        · exact hcache.1
      all_goals
        split
        · exact (hfilter.updateChildIn_eq _ _ _ _ _).trans hcache.1
        · exact hcache.1

theorem index_serverCacheAfterOverwrite {serverFilter : FNodeFilter K V}
    (hfilter : serverFilter.KeepsIndex index) {oldServerSnap : FCacheNode K V}
    (hserver : oldServerSnap.indexedNode.index = index) (changePath : FPath K) (changedSnap : FNode K V) :
    ∀ newServerCache ∈ serverCacheAfterOverwrite oldServerSnap changePath changedSnap serverFilter,
      newServerCache.index = index := by
  intro newServerCache hnew
  cases changePath with
  | nil =>
      cases hnew
      exact hfilter.updateFullNode_eq _ _ hfilter.index_eq
  | cons childKey childChangePath =>
      simp only [serverCacheAfterOverwrite] at hnew
      split_ifs at hnew
      · cases hnew
        exact hfilter.updateFullNode_eq _ _ ((FIndexedNode.index_updateChild _ _ _).trans hserver)
      · cases hnew
      · cases hnew
        exact (hfilter.updatePriority_eq _ _).trans hserver
      · cases hnew
        exact (hfilter.updateChildIn_eq _ _ _ _ _).trans hserver

variable (writesCache : FWriteTreeRef K V)

theorem hasIndex_applyServerOverwriteTo (hfilter : self.filter.KeepsIndex index)
    (hcache : viewCache.HasIndex index) (changePath : FPath K) (changedSnap : FNode K V)
    (completeCache : Option (FNode K V)) (filterServerNode : Bool) (accumulator : FChildChangeAccumulator K V) :
    (self.applyServerOverwriteTo writesCache viewCache changePath changedSnap completeCache
      filterServerNode accumulator).1.HasIndex index := by
  have hserverFilter : (if filterServerNode then self.filter
      else self.filter.indexedFilter).KeepsIndex index := by
    split_ifs
    · exact hfilter
    · rw [FNodeFilter.indexedFilter, hfilter.index_eq]
      exact FIndexedFilter.keepsIndex index
  have hnew := index_serverCacheAfterOverwrite hserverFilter hcache.2 changePath changedSnap
  simp only [applyServerOverwriteTo]
  split
  · exact hcache
  · rename_i newServerCache hserver
    have hupdated : (viewCache.updateServerSnap newServerCache
        (viewCache.cachedServerSnap.isFullyInitialized || changePath.isEmpty)
        (if filterServerNode then self.filter else self.filter.indexedFilter).filtersNodes).HasIndex
          index := ⟨hcache.1, hnew newServerCache hserver⟩
    exact hasIndex_generateEventCacheAfterServerEvent hfilter writesCache hupdated changePath _
      accumulator

theorem hasIndex_applyUserOverwriteTo (hfilter : self.filter.KeepsIndex index)
    (hcache : viewCache.HasIndex index) (changePath : FPath K) (changedSnap : FNode K V)
    (completeCache : Option (FNode K V)) (accumulator : FChildChangeAccumulator K V) :
    (self.applyUserOverwriteTo writesCache viewCache changePath changedSnap completeCache
      accumulator).1.HasIndex index := by
  cases changePath with
  | nil => exact ⟨hfilter.updateFullNode_eq _ _ hfilter.index_eq, hcache.2⟩
  | cons childKey childChangePath =>
      simp only [applyUserOverwriteTo]
      split_ifs
      · exact ⟨(hfilter.updatePriority_eq _ _).trans hcache.1, hcache.2⟩
      · exact ⟨(hfilter.updateChildIn_eq _ _ _ _ _).trans hcache.1, hcache.2⟩
      · exact hcache

theorem hasIndex_applyUserMergeTo (hfilter : self.filter.KeepsIndex index)
    (hcache : viewCache.HasIndex index) (path : FPath K) (changedChildren : FCompoundWrite K V)
    (completeCache : Option (FNode K V)) (accumulator : FChildChangeAccumulator K V) :
    (self.applyUserMergeTo writesCache viewCache path changedChildren completeCache
      accumulator).1.HasIndex index := by
  have hloop : ∀ (inCache : Bool) (state : FViewCache K V × FChildChangeAccumulator K V),
      state.1.HasIndex index → (self.userMergeLoop writesCache viewCache path inCache completeCache
        changedChildren.enumerateWrites state).1.HasIndex index := by
    intro inCache state hstate
    unfold userMergeLoop
    apply List.foldlRecOn (motive := fun state : FViewCache K V × FChildChangeAccumulator K V =>
      state.1.HasIndex index)
    · exact hstate
    · intro state hstate write _
      dsimp only
      split
      · exact hstate
      · split_ifs
        · exact hasIndex_applyUserOverwriteTo writesCache hfilter hstate _ _ _ _
        · exact hstate
  exact hloop false _ (hloop true _ hcache)

theorem hasIndex_applyServerMergeTo (hfilter : self.filter.KeepsIndex index)
    (hcache : viewCache.HasIndex index) (path : FPath K) (changedChildren : FCompoundWrite K V)
    (completeCache : Option (FNode K V)) (filterServerNode : Bool) (accumulator : FChildChangeAccumulator K V) :
    (self.applyServerMergeTo writesCache viewCache path changedChildren completeCache filterServerNode
      accumulator).1.HasIndex index := by
  have hloop : ∀ (inCache : Bool) (state : FViewCache K V × FChildChangeAccumulator K V),
      state.1.HasIndex index → (self.serverMergeLoop writesCache viewCache inCache completeCache
        filterServerNode (actualMerge path changedChildren).childCompoundWrites
        state).1.HasIndex index := by
    intro inCache state hstate
    unfold serverMergeLoop
    apply List.foldlRecOn (motive := fun state : FViewCache K V × FChildChangeAccumulator K V =>
      state.1.HasIndex index)
    · exact hstate
    · intro state hstate childWrite _
      dsimp only
      split_ifs
      · exact hasIndex_applyServerOverwriteTo writesCache hfilter hstate _ _ _ _ _
      · exact hstate
  simp only [applyServerMergeTo]
  split_ifs
  · exact hcache
  · exact hloop false _ (hloop true _ hcache)

theorem hasIndex_ackUserWriteOn (hfilter : self.filter.KeepsIndex index)
    (hcache : viewCache.HasIndex index) (ackPath : FPath K) (affectedTree : FImmutableTree K Bool)
    (completeCache : Option (FNode K V)) (accumulator : FChildChangeAccumulator K V) :
    (self.ackUserWriteOn writesCache viewCache ackPath affectedTree completeCache
      accumulator).1.HasIndex index := by
  simp only [ackUserWriteOn]
  split_ifs
  · exact hcache
  · exact hasIndex_applyServerOverwriteTo writesCache hfilter hcache _ _ _ _ _
  · exact hasIndex_applyServerMergeTo writesCache hfilter hcache _ _ _ _ _
  · exact hcache
  · exact hasIndex_applyServerMergeTo writesCache hfilter hcache _ _ _ _ _

end FViewProcessor

/-! ### Reverts -/

omit [DatabaseValue V] in
theorem FNode.getImmediateChild_of_isLeafNode {node : FNode K V} {childKey : K}
    (hleaf : node.isLeafNode = true) (hkey : childKey ≠ DatabaseKey.priority) :
    node.getImmediateChild childKey = .empty := by
  obtain ⟨data, hwf⟩ := node
  cases data with
  | empty => cases hleaf
  | leaf value priority => exact getImmediateChild_of_leafValue rfl hkey
  | children dict priority => cases hleaf

omit [DatabaseValue V] in
theorem FNode.updateImmediateChild_of_isEmpty {childKey : K} (hkey : childKey ≠ DatabaseKey.priority)
    {node newChildNode : FNode K V} (hchild : (node.getImmediateChild childKey).isEmpty = true)
    (hnew : newChildNode.isEmpty = true) : node.updateImmediateChild childKey newChildNode = node := by
  have hself := node.updateImmediateChild_self hkey
  rwa [FNode.isEmpty_iff.mp hchild, ← FNode.isEmpty_iff.mp hnew] at hself

variable (indexedNode : FIndexedNode K V)

theorem FIndexedFilter.updateChildIn_node {childKey : K} (hkey : childKey ≠ DatabaseKey.priority)
    (newChildSnap : FNode K V) (affectedPath : FPath K) (source : FCompleteChildSource K V) :
    (updateChildIn indexedNode childKey newChildSnap affectedPath source).1.node =
      if (indexedNode.node.getImmediateChild childKey).getChild affectedPath =
            newChildSnap.getChild affectedPath ∧
          (indexedNode.node.getImmediateChild childKey).isEmpty = newChildSnap.isEmpty then
        indexedNode.node
      else indexedNode.node.updateImmediateChild childKey newChildSnap := by
  by_cases hsame : (indexedNode.node.getImmediateChild childKey).getChild affectedPath =
        newChildSnap.getChild affectedPath ∧
      (indexedNode.node.getImmediateChild childKey).isEmpty = newChildSnap.isEmpty
  · simp only [updateChildIn, if_pos hsame]
  simp only [updateChildIn, if_neg hsame]
  by_cases hleaf : (indexedNode.node.isLeafNode && newChildSnap.isEmpty) = true
  · -- a leaf has no child to remove
    simp only [if_pos hleaf]
    rw [Bool.and_eq_true] at hleaf
    refine (FNode.updateImmediateChild_of_isEmpty hkey ?_ hleaf.2).symm
    rw [FNode.getImmediateChild_of_isLeafNode hleaf.1 hkey]
    rfl
  · simp only [if_neg hleaf, FIndexedNode.node_updateChild]

theorem FIndexedFilter.isEmpty_updateChildIn {childKey : K} (hkey : childKey ≠ DatabaseKey.priority)
    (newChildSnap : FNode K V) (affectedPath : FPath K) (source : FCompleteChildSource K V) :
    (updateChildIn indexedNode childKey newChildSnap affectedPath source).1.node.isEmpty = true ↔
      newChildSnap.isEmpty = true ∧
        (indexedNode.node.updateImmediateChild childKey .empty).isEmpty = true := by
  rw [updateChildIn_node indexedNode hkey]
  generalize indexedNode.node = node
  have hchild : ∀ node : FNode K V, node.isEmpty = true → (node.getImmediateChild childKey).isEmpty = true := by
    intro node hempty
    rw [FNode.isEmpty_iff.mp hempty, FNode.getImmediateChild_empty]
    rfl
  split_ifs with hsame
  · rw [← hsame.2]
    constructor
    · intro hempty
      rw [FNode.updateImmediateChild_of_isEmpty hkey (hchild node hempty) rfl]
      exact ⟨hchild node hempty, hempty⟩
    · rintro ⟨hempty, hrest⟩
      rwa [FNode.updateImmediateChild_of_isEmpty hkey hempty rfl] at hrest
  · by_cases hnew : newChildSnap.isEmpty = true
    · rw [FNode.isEmpty_iff.mp hnew]
      exact (and_iff_right rfl).symm
    · refine iff_of_false (fun hempty => hnew ?_) fun h => hnew h.1
      have hupdated := hchild _ hempty
      rwa [FNode.getImmediateChild_updateImmediateChild hkey hkey, if_pos rfl] at hupdated

/-- The filter puts an empty node with its own index in the place of a leaf. -/
def FNodeFilter.DropsLeaf (filter : FNodeFilter K V) (index : FIndex K) : Prop :=
  ∀ oldSnap newSnap : FIndexedNode K V, newSnap.node.isLeafNode = true →
    (filter.updateFullNode oldSnap newSnap).1.index = index

theorem FQueryParams.dropsLeaf [QueryValue K V] {params : FQueryParams K V}
    (hparams : params.loadsAllData = false) : params.nodeFilter.DropsLeaf params.index := by
  intro oldSnap newSnap hleaf
  rw [nodeFilter, hparams, if_neg Bool.false_ne_true]
  show ((filterOf params).updateFullNode oldSnap newSnap).1.index = params.index
  unfold filterOf
  split
  · simp only [FLimitedFilter.toNodeFilter, FLimitedFilter.updateFullNode, hleaf, Bool.true_or, if_true]
    rfl
  · simp only [FRangedFilter.toNodeFilter, FRangedFilter.updateFullNode, hleaf, if_true]
    rfl

namespace FViewProcessor

/-- The event cache after a revert before a leaf shows again. -/
def eventCacheWithoutWrite (self : FViewProcessor K V) (writesCache : FWriteTreeRef K V)
    (viewCache : FViewCache K V) (childKey : K) (affectedPath : FPath K)
    (source : FCompleteChildSource K V) : FIndexedNode K V × List (FChange K V) :=
  let oldEventCache := viewCache.cachedEventSnap.indexedNode
  let newChild :=
    match writesCache.calculateCompleteChild childKey viewCache.cachedServerSnap with
    | some newChild => some newChild
    | none =>
        if viewCache.cachedServerSnap.isCompleteForChild childKey then
          some (oldEventCache.node.getImmediateChild childKey)
        else none
  match newChild with
  | some newChild => self.filter.updateChildIn oldEventCache childKey newChild affectedPath source
  | none =>
      if viewCache.cachedEventSnap.node.hasChild childKey then
        self.filter.updateChildIn oldEventCache childKey .empty affectedPath source
      else (oldEventCache, [])

/-- The leaf of the server and of the pending writes, where the cache of the server is complete. -/
def shownLeaf (writesCache : FWriteTreeRef K V) (viewCache : FViewCache K V) : Option (FNode K V) :=
  if viewCache.cachedServerSnap.isFullyInitialized then
    (writesCache.calculateCompleteEventCache viewCache.completeServerSnap).filter FNode.isLeafNode
  else none

variable {self : FViewProcessor K V} {index : FIndex K} {viewCache : FViewCache K V}
  {writesCache : FWriteTreeRef K V} {childKey : K} {affectedPath : FPath K}
  {source : FCompleteChildSource K V}

omit [DatabaseValue V] in
theorem eventCacheAfterRevertAtChild_eq :
    (self.eventCacheAfterRevertAtChild writesCache viewCache childKey affectedPath source).1 =
      let newEventCache := (self.eventCacheWithoutWrite writesCache viewCache childKey affectedPath source).1
      match shownLeaf writesCache viewCache with
      | some complete =>
          if newEventCache.node.isEmpty then
            (self.filter.updateFullNode newEventCache (.ofNodeByPriority complete)).1
          else newEventCache
      | none => newEventCache := by
  have hdef : self.eventCacheAfterRevertAtChild writesCache viewCache childKey affectedPath source =
      let newEventCache := self.eventCacheWithoutWrite writesCache viewCache childKey affectedPath source
      if newEventCache.1.node.isEmpty && viewCache.cachedServerSnap.isFullyInitialized then
        match writesCache.calculateCompleteEventCache viewCache.completeServerSnap with
        | some complete =>
            if complete.isLeafNode then
              let reverted := self.filter.updateFullNode newEventCache.1 (.ofNodeByPriority complete)
              (reverted.1, newEventCache.2 ++ reverted.2)
            else newEventCache
        | none => newEventCache
      else newEventCache := rfl
  rw [hdef]
  generalize self.eventCacheWithoutWrite writesCache viewCache childKey affectedPath source =
    newEventCache
  dsimp only [shownLeaf]
  cases viewCache.cachedServerSnap.isFullyInitialized with
  | false => rw [Bool.and_false, if_neg Bool.false_ne_true, if_neg Bool.false_ne_true]
  | true =>
      rw [Bool.and_true, if_pos rfl]
      cases writesCache.calculateCompleteEventCache viewCache.completeServerSnap with
      | none => exact congrArg Prod.fst (ite_self newEventCache)
      | some complete =>
          by_cases hempty : newEventCache.1.node.isEmpty = true
          · by_cases hleaf : complete.isLeafNode = true <;> simp [Option.filter, hempty, hleaf]
          · by_cases hleaf : complete.isLeafNode = true <;> simp [Option.filter, hempty, hleaf]

omit [DatabaseValue V] in
theorem index_eventCacheWithoutWrite (hfilter : self.filter.KeepsIndex index) (hcache : viewCache.HasIndex index) :
    (self.eventCacheWithoutWrite writesCache viewCache childKey affectedPath source).1.index = index := by
  unfold eventCacheWithoutWrite
  dsimp only
  split
  · exact (hfilter.updateChildIn_eq _ _ _ _ _).trans hcache.1
  · split_ifs
    · exact (hfilter.updateChildIn_eq _ _ _ _ _).trans hcache.1
    · exact hcache.1

/-- With the filter of an index the event cache is empty exactly when no other child is left in it and
the child itself is shown as empty or not at all. -/
theorem isEmpty_eventCacheWithoutWrite (hfilter : self.filter = FIndexedFilter.ofIndex index)
    (hkey : childKey ≠ DatabaseKey.priority) :
    (self.eventCacheWithoutWrite writesCache viewCache childKey affectedPath source).1.node.isEmpty = true ↔
      (writesCache.calculateCompleteChild childKey viewCache.cachedServerSnap).all FNode.isEmpty = true ∧
        (viewCache.cachedEventSnap.node.updateImmediateChild childKey .empty).isEmpty = true := by
  have hupdate : ∀ newChild : FNode K V,
      (self.filter.updateChildIn viewCache.cachedEventSnap.indexedNode childKey newChild affectedPath
        source).1.node.isEmpty = true ↔ newChild.isEmpty = true ∧
          (viewCache.cachedEventSnap.node.updateImmediateChild childKey .empty).isEmpty = true := by
    intro newChild
    rw [hfilter]
    exact FIndexedFilter.isEmpty_updateChildIn _ hkey newChild affectedPath source
  unfold eventCacheWithoutWrite
  cases hchild : writesCache.calculateCompleteChild childKey viewCache.cachedServerSnap with
  | some newChild => exact hupdate newChild
  | none =>
      have hincomplete : viewCache.cachedServerSnap.isCompleteForChild childKey = false := by
        simp only [FWriteTreeRef.calculateCompleteChild, FWriteTree.calculateCompleteChildAtPath] at hchild
        split at hchild
        · cases hchild
        · split_ifs at hchild with hcomplete
          exact Bool.eq_false_iff.mpr hcomplete
      simp only [hincomplete, Bool.false_eq_true, if_false, Option.all_none, true_and]
      split_ifs with hhas
      · exact (hupdate .empty).trans (and_iff_right rfl)
      · rw [FNode.hasChild, Bool.not_eq_true', Bool.not_eq_false] at hhas
        rw [FNode.updateImmediateChild_of_isEmpty hkey hhas rfl]
        rfl

/-- The revert of a write below a child leaves an empty event cache, and a leaf shows again. -/
def ShowsLeaf (writesCache : FWriteTreeRef K V) (viewCache : FViewCache K V) : FPath K → Prop
  | [] => False
  | childKey :: affectedPath =>
      childKey ≠ DatabaseKey.priority ∧
        (writesCache.shadowingWriteAtPath (childKey :: affectedPath)).isSome = false ∧
        (shownLeaf writesCache viewCache).isSome = true ∧
        (writesCache.calculateCompleteChild childKey viewCache.cachedServerSnap).all FNode.isEmpty = true ∧
        (viewCache.cachedEventSnap.node.updateImmediateChild childKey .empty).isEmpty = true

instance decidableShowsLeaf (writesCache : FWriteTreeRef K V) (viewCache : FViewCache K V) :
    ∀ path, Decidable (ShowsLeaf writesCache viewCache path)
  | [] => inferInstanceAs (Decidable False)
  | _ :: _ => inferInstanceAs (Decidable (_ ∧ _ ∧ _ ∧ _ ∧ _))

variable [QueryValue K V] {params : FQueryParams K V}

theorem index_eventCacheAfterRevertAtChild_iff (hfilter : self.filter = params.nodeFilter)
    (hcache : viewCache.HasIndex params.index) (hkey : childKey ≠ DatabaseKey.priority)
    (hshadow : (writesCache.shadowingWriteAtPath (childKey :: affectedPath)).isSome = false) :
    (self.eventCacheAfterRevertAtChild writesCache viewCache childKey affectedPath source).1.index =
        params.index ↔
      params.index = .priority ∨ params.loadsAllData = false ∨
        ¬ShowsLeaf writesCache viewCache (childKey :: affectedPath) := by
  have hkeeps : self.filter.KeepsIndex params.index := hfilter ▸ params.keepsIndex
  have hwithout : (self.eventCacheWithoutWrite writesCache viewCache childKey affectedPath
      source).1.index = params.index := index_eventCacheWithoutWrite hkeeps hcache
  rw [eventCacheAfterRevertAtChild_eq]
  cases hleaf : shownLeaf writesCache viewCache with
  | none =>
      refine iff_of_true hwithout (Or.inr (Or.inr fun hshows => ?_))
      have := hshows.2.2.1
      rw [hleaf] at this
      cases this
  | some complete =>
      have hcomplete : complete.isLeafNode = true := by
        rw [shownLeaf] at hleaf
        split_ifs at hleaf
        exact (Option.filter_eq_some_iff.mp hleaf).2
      by_cases hloads : params.loadsAllData = true
      · have hindexed : self.filter = FIndexedFilter.ofIndex params.index := by
          rw [hfilter, FQueryParams.nodeFilter, if_pos hloads]
        have hempty := @isEmpty_eventCacheWithoutWrite _ _ _ _ self params.index viewCache writesCache
          childKey affectedPath source hindexed hkey
        dsimp only
        split_ifs with hshows
        · -- the leaf has the index of the priorities
          have hshowsLeaf : ShowsLeaf writesCache viewCache (childKey :: affectedPath) :=
            ⟨hkey, hshadow, by rw [hleaf]; rfl, hempty.mp hshows⟩
          rw [hindexed]
          constructor
          · intro hpriority
            exact Or.inl hpriority.symm
          · rintro (hpriority | hfalse | hnot)
            · exact hpriority.symm
            · rw [hloads] at hfalse
              cases hfalse
            · exact absurd hshowsLeaf hnot
        · refine iff_of_true hwithout (Or.inr (Or.inr fun hshowsLeaf => hshows ?_))
          exact hempty.mpr hshowsLeaf.2.2.2
      · rw [Bool.not_eq_true] at hloads
        refine iff_of_true ?_ (Or.inr (Or.inl hloads))
        dsimp only
        split_ifs
        · rw [hfilter]
          exact FQueryParams.dropsLeaf hloads _ _ hcomplete
        · exact hwithout

/-- A revert keeps the index of the caches exactly where no leaf shows again, or the query orders by
priority or does not load all data. -/
theorem hasIndex_revertUserWriteOn_iff (hfilter : self.filter = params.nodeFilter)
    (hcache : viewCache.HasIndex params.index) (path : FPath K) (completeCache : Option (FNode K V))
    (accumulator : FChildChangeAccumulator K V) :
    (self.revertUserWriteOn writesCache viewCache path completeCache accumulator).1.HasIndex
        params.index ↔
      params.index = .priority ∨ params.loadsAllData = false ∨ ¬ShowsLeaf writesCache viewCache path := by
  have hkeeps : self.filter.KeepsIndex params.index := hfilter ▸ params.keepsIndex
  have hroot : (self.eventCacheAfterRevertAtRoot writesCache viewCache).1.index = params.index :=
    hkeeps.updateFullNode_eq _ _ hkeeps.index_eq
  simp only [revertUserWriteOn]
  split_ifs with hshadow
  · refine iff_of_true hcache (Or.inr (Or.inr fun hshows => ?_))
    cases path with
    | nil => exact hshows
    | cons childKey affectedPath => exact Bool.false_ne_true (hshows.2.1.symm.trans hshadow)
  rw [Bool.not_eq_true] at hshadow
  refine (and_iff_left hcache.2).trans ?_
  cases path with
  | nil => exact iff_of_true hroot (Or.inr (Or.inr id))
  | cons childKey affectedPath =>
      by_cases hkey : childKey = DatabaseKey.priority
      · simp only [FViewCache.updateEventSnap, if_pos hkey]
        exact iff_of_true hroot (Or.inr (Or.inr fun hshows => hshows.1 hkey))
      · simp only [FViewCache.updateEventSnap, if_neg hkey]
        exact index_eventCacheAfterRevertAtChild_iff hfilter hcache hkey hshadow

/-- Every other operation keeps the index. -/
theorem hasIndex_processOperation_iff (hfilter : self.filter = params.nodeFilter)
    (hcache : viewCache.HasIndex params.index) (operation : FOperation K V (FQueryParams K V))
    (completeCache : Option (FNode K V)) :
    (self.processOperation writesCache viewCache operation completeCache).1.HasIndex params.index ↔
      ∀ affectedTree, operation.type = .ackUserWrite affectedTree true →
        params.index = .priority ∨ params.loadsAllData = false ∨
          ¬ShowsLeaf writesCache viewCache operation.path := by
  have hkeeps : self.filter.KeepsIndex params.index := hfilter ▸ params.keepsIndex
  obtain ⟨operationSource, path, type⟩ := operation
  cases type with
  | overwrite snap =>
      refine iff_of_true ?_ nofun
      simp only [processOperation]
      split_ifs
      · exact hasIndex_applyUserOverwriteTo writesCache hkeeps hcache _ _ _ _
      · exact hasIndex_applyServerOverwriteTo writesCache hkeeps hcache _ _ _ _ _
  | merge children =>
      refine iff_of_true ?_ nofun
      simp only [processOperation]
      split_ifs
      · exact hasIndex_applyUserMergeTo writesCache hkeeps hcache _ _ _ _
      · exact hasIndex_applyServerMergeTo writesCache hkeeps hcache _ _ _ _ _
  | ackUserWrite affectedTree revert =>
      cases revert with
      | false =>
          refine iff_of_true ?_ nofun
          exact hasIndex_ackUserWriteOn writesCache hkeeps hcache _ _ _ _
      | true =>
          refine (hasIndex_revertUserWriteOn_iff hfilter hcache path completeCache .initial).trans ?_
          constructor
          · rintro h _ _
            exact h
          · intro h
            exact h affectedTree rfl
  | listenComplete =>
      refine iff_of_true ?_ nofun
      have hupdated : (viewCache.updateServerSnap viewCache.cachedServerSnap.indexedNode
          (viewCache.cachedServerSnap.isFullyInitialized || path.isEmpty)
          viewCache.cachedServerSnap.isFiltered).HasIndex params.index := hcache
      exact hasIndex_generateEventCacheAfterServerEvent hkeeps writesCache hupdated path _ _

end FViewProcessor

end FirebaseSwift.Database
