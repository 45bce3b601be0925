import FirebaseSwift.Database.PersistenceManager
import FirebaseSwift.Database.ReachableTrees
import FirebaseSwift.Library.StepRuns

/-! One-shot gets between registrations and removals. A get that has no value at once makes its query
active, waits for the server, and in the end makes the query inactive again, also where views of the
query have come meanwhile. What persistence has for a registered query is a parameter, as are the times
of the clock. -/

namespace FirebaseSwift.Database

open StepRuns FTrackedQueryManager

variable {K V : Type} [DatabaseKey K] [DatabaseValue V]

/-! ### Activity of tracked queries -/

namespace FTrackedQueryManager

variable {manager manager' : FTrackedQueryManager K V}

theorem Changes.formed (h : manager.Changes manager') (hformed : manager.Formed) : manager'.Formed := by
  induction h with
  | refl => exact hformed
  | put _ trackedQuery _ ih => exact ih.put trackedQuery
  | remove _ query ih => exact ih.removeTrackedQuery query

/-- What is tracked was tracked before, as active as it is. -/
def KeepsActivity (manager manager' : FTrackedQueryManager K V) : Prop :=
  ∀ spec, ∀ found' ∈ manager'.lookup spec, ∃ found ∈ manager.lookup spec, found.isActive = found'.isActive

theorem KeepsActivity.trans {manager'' : FTrackedQueryManager K V} (h : manager.KeepsActivity manager')
    (h' : manager'.KeepsActivity manager'') : manager.KeepsActivity manager'' := by
  intro spec found'' hfound''
  obtain ⟨found', hfound', hactive'⟩ := h' spec found'' hfound''
  obtain ⟨found, hfound, hactive⟩ := h spec found' hfound'
  exact ⟨found, hfound, hactive.trans hactive'⟩

theorem Formed.setQueriesCompleteAtPath (h : manager.Formed) (path : FPath K) :
    (manager.setQueriesCompleteAtPath path).Formed :=
  (Changes.foldl_completeTrackedQuery .refl fun _ hmem => .of_lookup (h.mem_subtree.mp hmem).2 rfl).formed h

theorem Formed.keepsActivity_setQueriesCompleteAtPath (h : manager.Formed) (path : FPath K) :
    manager.KeepsActivity (manager.setQueriesCompleteAtPath path) := by
  intro spec found' hfound'
  rcases mem_lookup_foldl_completeTrackedQuery hfound' with hfound | ⟨found, hfound, rfl, rfl⟩
  · exact ⟨found', hfound, rfl⟩
  · exact ⟨found, (h.mem_subtree.mp hfound).2, rfl⟩

theorem Formed.pruneOldQueries (h : manager.Formed) {cachePolicy : FCachePolicy}
    {result : FTrackedQueryManager K V × FPruneForest K}
    (hprune : manager.pruneOldQueries cachePolicy = some result) :
    result.1.Formed ∧ manager.KeepsActivity result.1 := by
  obtain ⟨pruned, hpruned⟩ := pruneOldQueries_eq hprune
  rw [hpruned]
  refine ⟨(Changes.foldl_removeTrackedQuery .refl pruned).formed h, fun spec found' hfound' => ?_⟩
  exact ⟨found', mem_lookup_foldl_removeTrackedQuery hfound', rfl⟩

theorem Formed.setQueryActiveState (h : manager.Formed) (query : FQuerySpec K V) (isActive : Bool)
    (lastUse : Int) : (manager.setQueryActiveState query isActive lastUse).Formed := by
  rw [FTrackedQueryManager.setQueryActiveState]
  cases manager.findTrackedQuery query with
  | none =>
      have hnext : Formed { manager with currentQueryId := manager.currentQueryId + 1 } :=
        ⟨h.sorted, h.nodup, h.named⟩
      exact hnext.put _
  | some found => exact h.put _

/-- A query is tracked as active as it was made, the other queries stay as they are. -/
theorem Formed.isActive_setQueryActiveState (h : manager.Formed) {query spec : FQuerySpec K V}
    {isActive : Bool} {lastUse : Int} {found : FTrackedQuery K V}
    (hfound : found ∈ (manager.setQueryActiveState query isActive lastUse).lookup spec) :
    (spec = normalizeQuery query ∧ found.isActive = isActive) ∨
      (spec ≠ normalizeQuery query ∧ found ∈ manager.lookup spec) := by
  rw [lookup_setQueryActiveState _ _ _ _ h] at hfound
  split_ifs at hfound with hspec
  · refine Or.inl ⟨hspec, ?_⟩
    rw [← Option.some.inj hfound]
    cases manager.findTrackedQuery query <;> rfl
  · exact Or.inr ⟨hspec, hfound⟩

theorem Formed.exists_setQueryActiveState (h : manager.Formed) (query : FQuerySpec K V) (isActive : Bool)
    (lastUse : Int) : ∃ found ∈ (manager.setQueryActiveState query isActive lastUse).lookup (normalizeQuery query),
      found.isActive = isActive := by
  have hsome : ((manager.setQueryActiveState query isActive lastUse).lookup
      (normalizeQuery query)).isSome = true := by
    rw [lookup_setQueryActiveState _ _ _ _ h, if_pos rfl]
    rfl
  obtain ⟨found, hfound⟩ := Option.isSome_iff_exists.mp hsome
  rcases h.isActive_setQueryActiveState hfound with ⟨_, hactive⟩ | ⟨hne, _⟩
  · exact ⟨found, hfound, hactive⟩
  · exact absurd rfl hne

end FTrackedQueryManager

namespace FPersistenceManager

variable {manager manager' : FPersistenceManager K V}
variable {sizes : List Int}

theorem pruneWhile_keepsActivity (hformed : manager.trackedQueryManager.Formed)
    (h : manager.pruneWhile sizes = some manager') : manager'.trackedQueryManager.Formed ∧
      manager.trackedQueryManager.KeepsActivity manager'.trackedQueryManager := by
  have hrefl : manager.trackedQueryManager.KeepsActivity manager.trackedQueryManager :=
    fun spec found hfound => ⟨found, hfound, rfl⟩
  induction sizes generalizing manager with
  | nil => cases h
  | cons cacheSize sizes ih =>
      rw [pruneWhile] at h
      split_ifs at h
      · obtain ⟨⟨pruned, forest⟩, hprune, h⟩ := Option.bind_eq_some_iff.mp h
        obtain ⟨hpruned, hkeeps⟩ := hformed.pruneOldQueries hprune
        dsimp only at h
        split_ifs at h
        · obtain ⟨hformed', hkeeps'⟩ := ih hpruned h fun spec found hfound => ⟨found, hfound, rfl⟩
          exact ⟨hformed', hkeeps.trans hkeeps'⟩
        · cases h
          exact ⟨hpruned, hkeeps⟩
      · cases h
        exact ⟨hformed, hrefl⟩

/-- An update of the server cache changes no activity. -/
theorem updateServerCache_keepsActivity {node : FNode K V} {path : FPath K}
    (hformed : manager.trackedQueryManager.Formed)
    (h : manager.updateServerCache node (.defaultQueryAtPath path) sizes = some manager') :
    manager'.trackedQueryManager.Formed ∧
      manager.trackedQueryManager.KeepsActivity manager'.trackedQueryManager := by
  have hcomplete := hformed.setQueriesCompleteAtPath path
  have hkeeps := hformed.keepsActivity_setQueriesCompleteAtPath path
  rw [updateServerCache, doPruneCheckAfterServerUpdate] at h
  split_ifs at h
  · cases h
    exact ⟨hcomplete, hkeeps⟩
  · obtain ⟨hformed', hkeeps'⟩ := pruneWhile_keepsActivity hcomplete h
    exact ⟨hformed', hkeeps.trans hkeeps'⟩

end FPersistenceManager

/-! ### Gets and listeners -/

variable [QueryFilters K V]

/-- `outstanding` are the queries of the gets that wait for the server. -/
structure GetState (K V : Type) [DatabaseKey K] where
  serverSyncTree : FSyncTree K V
  persistenceManager : FPersistenceManager K V
  outstanding : List (FQuerySpec K V)

/-- A get is two steps, before and after it waits. A response without data has not the status ok. -/
inductive GetOperation (K V : Type) [DatabaseKey K] where
  | getData (query : FQuerySpec K V) (lastUse : Int)
  | getResponse (query : FQuerySpec K V) (data : Option (FNode K V)) (sizes : List Int) (lastUse : Int)
  | addEventRegistration (eventRegistration : FEventRegistration) (query : FQuerySpec K V)
      (persistenceServerCache : Option (FCacheNode K V)) (lastUse : Int)
  | removeEventRegistration (matcher : FEventRegistrationMatcher) (query : FQuerySpec K V)
      (cancelError : Bool) (lastUse : FQuerySpec K V → Int)

namespace GetState

def ofPersistence (persistenceManager : FPersistenceManager K V) : GetState K V :=
  ⟨.initial, persistenceManager, []⟩

def getData (self : GetState K V) (query : FQuerySpec K V) (lastUse : Int) : GetState K V :=
  let (serverSyncTree, node) := self.serverSyncTree.getServerValue query
  if node.isSome then { self with serverSyncTree := serverSyncTree }
  else ⟨serverSyncTree, self.persistenceManager.setQueryActive query lastUse, query :: self.outstanding⟩

/-- `applyServerOverwriteAtPath(_:newData:)` with persistence -/
def applyServerOverwriteAtPath (self : GetState K V) (path : FPath K) (newData : FNode K V)
    (sizes : List Int) : Option (GetState K V) := do
  let persistenceManager ←
    self.persistenceManager.updateServerCache newData (.defaultQueryAtPath path) sizes
  let serverSyncTree ← self.serverSyncTree.applyServerOverwriteAtPath path newData
  return { self with serverSyncTree := serverSyncTree, persistenceManager := persistenceManager }

def processResponse (self : GetState K V) (query : FQuerySpec K V) (sizes : List Int) :
    Option (FNode K V) → Option (GetState K V)
  | none => some self
  | some node => self.applyServerOverwriteAtPath query.path node sizes

/-- The rest of `getData` for a get that waits. The query becomes inactive in the end. -/
def getResponse (self : GetState K V) (query : FQuerySpec K V) (data : Option (FNode K V))
    (sizes : List Int) (lastUse : Int) : Option (GetState K V) :=
  if query ∈ self.outstanding then
    (self.processResponse query sizes data).map fun self =>
      { self with
        persistenceManager := self.persistenceManager.setQueryInactive query lastUse
        outstanding := self.outstanding.erase query }
  else none

def addEventRegistration (self : GetState K V) (eventRegistration : FEventRegistration)
    (query : FQuerySpec K V) (persistenceServerCache : Option (FCacheNode K V)) (lastUse : Int) :
    GetState K V :=
  { self with
    persistenceManager := self.persistenceManager.setQueryActive query lastUse
    serverSyncTree :=
      self.serverSyncTree.addEventRegistration eventRegistration query persistenceServerCache }

/-- The queries whose views a removal takes away. -/
def removedQueries (self : GetState K V) (matcher : FEventRegistrationMatcher) (query : FQuerySpec K V) :
    List (FQuerySpec K V) :=
  match (self.serverSyncTree.syncPointTree.valueAt query.path).filter
      fun syncPoint => query.isDefault || syncPoint.viewExistsForQuery query with
  | none => []
  | some syncPoint => syncPoint.removedQueries matcher query

def removeEventRegistration (self : GetState K V) (matcher : FEventRegistrationMatcher)
    (query : FQuerySpec K V) (cancelError : Bool) (lastUse : FQuerySpec K V → Int) :
    Option (GetState K V) :=
  (self.serverSyncTree.removeEventRegistration matcher query cancelError).map fun serverSyncTree =>
    { self with
      serverSyncTree := serverSyncTree
      persistenceManager := (self.removedQueries matcher query).foldl
        (fun persistenceManager query => persistenceManager.setQueryInactive query (lastUse query))
        self.persistenceManager }

/-- There is no result where the program stops, or for a response to no get. -/
def step (self : GetState K V) : GetOperation K V → Option (GetState K V)
  | .getData query lastUse => some (self.getData query lastUse)
  | .getResponse query data sizes lastUse => self.getResponse query data sizes lastUse
  | .addEventRegistration eventRegistration query persistenceServerCache lastUse =>
      some (self.addEventRegistration eventRegistration query persistenceServerCache lastUse)
  | .removeEventRegistration matcher query cancelError lastUse =>
      self.removeEventRegistration matcher query cancelError lastUse

/-- No tracked query that is inactive has a view. -/
def ActiveListened (self : GetState K V) : Prop :=
  ∀ spec, ∀ found ∈ self.persistenceManager.trackedQueryManager.lookup spec, found.isActive = false →
    ∀ query ∈ self.serverSyncTree.views, normalizeQuery query ≠ spec

/-- A get that ends makes no query inactive that has a view. -/
def LeavesListened (self : GetState K V) : GetOperation K V → Prop
  | .getResponse query _ _ _ =>
      ∀ syncPoint ∈ self.serverSyncTree.syncPointTree.valueAt query.path, ∀ entry ∈ syncPoint.views,
        normalizeQuery ⟨query.path, entry.1⟩ ≠ normalizeQuery query
  | _ => True

instance (self : GetState K V) (operation : GetOperation K V) :
    Decidable (self.LeavesListened operation) := by
  cases operation <;> unfold LeavesListened <;> infer_instance

/-! ### One step -/

structure Formed (state : GetState K V) : Prop where
  serverSyncTree : state.serverSyncTree.Formed
  trackedQueryManager : state.persistenceManager.trackedQueryManager.Formed

variable {state state' : GetState K V}

/-- A get with a value at once changes at most the sync tree; otherwise its query becomes active. -/
theorem getData_cases (state : GetState K V) (query : FQuerySpec K V) (lastUse : Int) :
    (state.getData query lastUse).serverSyncTree = (state.serverSyncTree.getServerValue query).1 ∧
      ((state.getData query lastUse).persistenceManager = state.persistenceManager ∨
        (state.getData query lastUse).persistenceManager =
          state.persistenceManager.setQueryActive query lastUse) := by
  rw [getData]
  cases state.serverSyncTree.getServerValue query with
  | mk tree node => cases node <;> simp

variable {query : FQuerySpec K V} {data : Option (FNode K V)} {sizes : List Int}
variable {operation : GetOperation K V}

theorem Formed.processResponse (h : state.Formed) (hprocess : state.processResponse query sizes data = some state') :
    state'.Formed ∧ state'.serverSyncTree.views = state.serverSyncTree.views ∧
      state.persistenceManager.trackedQueryManager.KeepsActivity
        state'.persistenceManager.trackedQueryManager := by
  cases data with
  | none =>
      cases hprocess
      exact ⟨h, rfl, fun spec found hfound => ⟨found, hfound, rfl⟩⟩
  | some node =>
      obtain ⟨manager', hupdate, hprocess⟩ := Option.bind_eq_some_iff.mp hprocess
      obtain ⟨tree', happly, hprocess⟩ := Option.bind_eq_some_iff.mp hprocess
      cases hprocess
      obtain ⟨hmanager, hkeeps⟩ :=
        FPersistenceManager.updateServerCache_keepsActivity h.trackedQueryManager hupdate
      have hperform : state.serverSyncTree.perform (.applyServerOverwrite query.path node) = some tree' :=
        happly
      refine ⟨⟨h.serverSyncTree.perform hperform, hmanager⟩, ?_, hkeeps⟩
      exact (FSyncTree.takes_applyOperationToSyncPoints happly).views_eq

omit [QueryFilters K V] in
theorem Formed.foldl_setQueryInactive {manager : FPersistenceManager K V}
    (h : manager.trackedQueryManager.Formed) (queries : List (FQuerySpec K V)) (lastUse : FQuerySpec K V → Int) :
    (queries.foldl (fun manager query => manager.setQueryInactive query (lastUse query))
      manager).trackedQueryManager.Formed := by
  induction queries generalizing manager with
  | nil => exact h
  | cons query rest ih => exact ih (h.setQueryActiveState query false (lastUse query))

omit [QueryFilters K V] in
/-- What is inactive is one of the queries, or was inactive. -/
theorem mem_lookup_foldl_setQueryInactive {manager : FPersistenceManager K V}
    (h : manager.trackedQueryManager.Formed) {queries : List (FQuerySpec K V)}
    {lastUse : FQuerySpec K V → Int} {spec : FQuerySpec K V} {found : FTrackedQuery K V}
    (hfound : found ∈ (queries.foldl (fun manager query => manager.setQueryInactive query (lastUse query))
      manager).trackedQueryManager.lookup spec) :
    (∃ query ∈ queries, spec = normalizeQuery query) ∨ found ∈ manager.trackedQueryManager.lookup spec := by
  induction queries generalizing manager with
  | nil => exact Or.inr hfound
  | cons query rest ih =>
      rcases ih (h.setQueryActiveState query false (lastUse query)) hfound with
        ⟨other, hmem, hspec⟩ | hfound
      · exact Or.inl ⟨other, List.mem_cons_of_mem query hmem, hspec⟩
      · rcases h.isActive_setQueryActiveState hfound with ⟨hspec, _⟩ | ⟨_, hold⟩
        · exact Or.inl ⟨query, List.mem_cons_self, hspec⟩
        · exact Or.inr hold

theorem Formed.step (h : state.Formed) (hstep : state.step operation = some state') : state'.Formed := by
  cases operation with
  | getData query lastUse =>
      cases hstep
      obtain ⟨htree, hmanager⟩ := state.getData_cases query lastUse
      refine ⟨htree ▸ h.serverSyncTree.getServerValue query, ?_⟩
      rcases hmanager with hmanager | hmanager
      · exact hmanager ▸ h.trackedQueryManager
      · exact hmanager ▸ h.trackedQueryManager.setQueryActiveState query true lastUse
  | getResponse query data sizes lastUse =>
      simp only [GetState.step, getResponse] at hstep
      split_ifs at hstep
      obtain ⟨next, hprocess, rfl⟩ := Option.map_eq_some_iff.mp hstep
      obtain ⟨hnext, _, _⟩ := h.processResponse hprocess
      exact ⟨hnext.serverSyncTree, hnext.trackedQueryManager.setQueryActiveState query false lastUse⟩
  | addEventRegistration eventRegistration query persistenceServerCache lastUse =>
      cases hstep
      exact ⟨h.serverSyncTree.addEventRegistration eventRegistration query persistenceServerCache,
        h.trackedQueryManager.setQueryActiveState query true lastUse⟩
  | removeEventRegistration matcher query cancelError lastUse =>
      obtain ⟨tree', hremove, rfl⟩ := Option.map_eq_some_iff.mp hstep
      exact ⟨h.serverSyncTree.removeEventRegistration hremove,
        Formed.foldl_setQueryInactive h.trackedQueryManager _ lastUse⟩

/-- What happens to the sync tree are operations on it. -/
theorem reachable_step (h : state.serverSyncTree.Reachable) (hstep : state.step operation = some state') :
    state'.serverSyncTree.Reachable := by
  cases operation with
  | getData query lastUse =>
      cases hstep
      rw [(state.getData_cases query lastUse).1]
      exact h.step (.getServerValue query) trivial rfl
  | getResponse query data sizes lastUse =>
      simp only [GetState.step, getResponse] at hstep
      split_ifs at hstep
      obtain ⟨next, hprocess, rfl⟩ := Option.map_eq_some_iff.mp hstep
      cases data with
      | none =>
          cases hprocess
          exact h
      | some node =>
          obtain ⟨manager', _, hprocess⟩ := Option.bind_eq_some_iff.mp hprocess
          obtain ⟨tree', happly, hprocess⟩ := Option.bind_eq_some_iff.mp hprocess
          cases hprocess
          exact h.step (.applyServerOverwrite query.path node) trivial happly
  | addEventRegistration eventRegistration query persistenceServerCache lastUse =>
      cases hstep
      exact h.step (.addEventRegistration eventRegistration query persistenceServerCache) trivial rfl
  | removeEventRegistration matcher query cancelError lastUse =>
      obtain ⟨tree', hremove, rfl⟩ := Option.map_eq_some_iff.mp hstep
      exact h.step (.removeEventRegistration matcher query cancelError) trivial hremove

omit [DatabaseValue V] [QueryFilters K V] in
theorem normalizeQuery_eq_iff {other : FQuerySpec K V} : normalizeQuery query = normalizeQuery other ↔
      query = other ∨ query.loadsAllData = true ∧ other.loadsAllData = true ∧ query.path = other.path := by
  have hdefault : ∀ path, (FQuerySpec.defaultQueryAtPath path : FQuerySpec K V).loadsAllData = true :=
    fun _ => rfl
  unfold normalizeQuery
  constructor
  · intro h
    split_ifs at h with hquery hother hother
    · exact Or.inr ⟨hquery, hother, (FQuerySpec.ext_iff.mp h).1⟩
    · rw [← h, hdefault] at hother
      exact absurd rfl hother
    · rw [h, hdefault] at hquery
      exact absurd rfl hquery
    · exact Or.inl h
  · rintro (rfl | ⟨hquery, hother, hpath⟩)
    · rfl
    · rw [if_pos hquery, if_pos hother, hpath]

omit [DatabaseValue V] [QueryFilters K V] in
/-- A view that stays has not the tracked query of one that goes. -/
theorem normalizeQuery_ne_of_viewsRemoved {path : FPath K} {views views' : Set (FQuerySpec K V)}
    {removed : List (FQuerySpec K V)} (h : ListenSets.ViewsRemoved path views views' removed)
    {gone : FQuerySpec K V} (hgone : gone ∈ removed) (hquery : query ∈ views') :
    normalizeQuery query ≠ normalizeQuery gone := by
  intro heq
  rw [normalizeQuery_eq_iff] at heq
  rcases (h.mem_iff gone).mp hgone with ⟨hfilters, _, hnot⟩ | ⟨rfl, _, hnot⟩
  · rcases heq with rfl | ⟨_, hloads, _⟩
    · exact hnot hquery
    · rw [hloads] at hfilters
      cases hfilters
  · rcases heq with rfl | ⟨hloads, _, hpath⟩
    · exact hnot ⟨_, hquery, rfl, rfl⟩
    · exact hnot ⟨query, hquery, hpath, hloads⟩

omit [QueryFilters K V] in
/-- A removal takes away the views of the removed queries. -/
theorem Formed.removed_not_view (h : state.Formed) {matcher : FEventRegistrationMatcher} {cancelError : Bool}
    {tree' : FSyncTree K V}
    (hremove : state.serverSyncTree.removeEventRegistration matcher query cancelError = some tree') :
    tree'.views ⊆ state.serverSyncTree.views ∧
      ∀ gone ∈ state.removedQueries matcher query, ∀ other ∈ tree'.views,
        normalizeQuery other ≠ normalizeQuery gone := by
  rw [removedQueries]
  rcases state.serverSyncTree.removeEventRegistration_cases matcher query cancelError with
    ⟨hnone, hsame⟩ | ⟨syncPoint, hvalue, hconcerned, ⟨_, hstops⟩ | ⟨_, hremaining⟩⟩
  · rw [hremove] at hsame
    cases hsame
    have hfilter : (state.serverSyncTree.syncPointTree.valueAt query.path).filter
        (fun syncPoint => query.isDefault || syncPoint.viewExistsForQuery query) = none :=
      Option.filter_eq_none_iff.mpr fun syncPoint hvalue => by simpa using hnone syncPoint hvalue
    rw [hfilter]
    exact ⟨subset_rfl, fun _ hgone => nomatch hgone⟩
  · rw [hremove] at hstops
    cases hstops
  · rw [hremove] at hremaining
    have hviews := h.serverSyncTree.viewsRemoved hvalue matcher
    have htree : tree'.views = (state.serverSyncTree.setRemaining query.path
        (syncPoint.remaining matcher query)).views := by
      obtain ⟨_, htags⟩ := FSyncTree.removeTags_eq ((state.serverSyncTree.setRemaining query.path
        (syncPoint.remaining matcher query)).updateListens query (syncPoint.removedQueries matcher query)
          cancelError) (syncPoint.removedQueries matcher query)
      rw [Option.some.inj hremaining, htags, FSyncTree.updateListens_eq]
      rfl
    rw [hvalue, Option.filter_some, if_pos hconcerned, htree]
    exact ⟨hviews.sub, fun gone hgone other hother => normalizeQuery_ne_of_viewsRemoved hviews hgone hother⟩

omit [QueryFilters K V] in
theorem leavesListened_getResponse {lastUse : Int} : state.LeavesListened (.getResponse query data sizes lastUse) ↔
      ∀ other ∈ state.serverSyncTree.views, normalizeQuery other ≠ normalizeQuery query := by
  constructor
  · intro h other hother heq
    have hpath : other.path = query.path := by
      rcases normalizeQuery_eq_iff.mp heq with rfl | ⟨_, _, hpath⟩
      · rfl
      · exact hpath
    obtain ⟨syncPoint, hvalue, hexists⟩ := FSyncTree.mem_views_iff.mp hother
    obtain ⟨entry, hentry, hparams⟩ := FSyncPoint.viewExistsForQuery_iff.mp hexists
    rw [hpath] at hvalue
    refine h syncPoint hvalue entry hentry ?_
    rw [← heq, hparams, ← hpath]
  · intro h syncPoint hvalue entry hentry
    exact h ⟨query.path, entry.1⟩ (FSyncTree.mem_views_iff.mpr
      ⟨syncPoint, hvalue, FSyncPoint.viewExistsForQuery_iff.mpr ⟨entry, hentry, rfl⟩⟩)

theorem activeListened_step (h : state.Formed) (hlistened : state.ActiveListened)
    (hstep : state.step operation = some state') : state.LeavesListened operation ↔ state'.ActiveListened := by
  cases operation with
  | getData query lastUse =>
      cases hstep
      refine iff_of_true trivial fun spec found hfound hinactive other hother => ?_
      obtain ⟨htree, hmanager⟩ := state.getData_cases query lastUse
      rw [htree, FSyncTree.views_getServerValue] at hother
      rcases hmanager with hmanager | hmanager
      · rw [hmanager] at hfound
        exact hlistened spec found hfound hinactive other hother
      · rw [hmanager] at hfound
        rcases h.trackedQueryManager.isActive_setQueryActiveState hfound with ⟨_, hactive⟩ | ⟨_, hold⟩
        · rw [hinactive] at hactive
          cases hactive
        · exact hlistened spec found hold hinactive other hother
  | getResponse query data sizes lastUse =>
      rw [leavesListened_getResponse]
      simp only [GetState.step, getResponse] at hstep
      split_ifs at hstep
      obtain ⟨next, hprocess, rfl⟩ := Option.map_eq_some_iff.mp hstep
      obtain ⟨hnext, hviews, hkeeps⟩ := h.processResponse hprocess
      constructor
      · intro hleaves spec found hfound hinactive other hother
        have hold : other ∈ state.serverSyncTree.views := hviews ▸ hother
        rcases hnext.trackedQueryManager.isActive_setQueryActiveState hfound with ⟨rfl, _⟩ | ⟨_, hfound⟩
        · exact hleaves other hold
        · obtain ⟨before, hbefore, hsame⟩ := hkeeps spec found hfound
          exact hlistened spec before hbefore (hsame.trans hinactive) other hold
      · intro hafter other hother
        obtain ⟨found, hfound, hinactive⟩ :=
          hnext.trackedQueryManager.exists_setQueryActiveState query false lastUse
        exact hafter _ found hfound hinactive other (hviews.symm ▸ hother)
  | addEventRegistration eventRegistration query persistenceServerCache lastUse =>
      cases hstep
      refine iff_of_true trivial fun spec found hfound hinactive other hother => ?_
      rcases h.trackedQueryManager.isActive_setQueryActiveState hfound with ⟨_, hactive⟩ | ⟨hne, hold⟩
      · rw [hinactive] at hactive
        cases hactive
      · rcases (FSyncTree.mem_views_addEventRegistration _ _).mp hother with rfl | hother
        · exact hne.symm
        · exact hlistened spec found hold hinactive other hother
  | removeEventRegistration matcher query cancelError lastUse =>
      obtain ⟨tree', hremove, rfl⟩ := Option.map_eq_some_iff.mp hstep
      obtain ⟨hsub, hgone⟩ := h.removed_not_view hremove
      refine iff_of_true trivial fun spec found hfound hinactive other hother => ?_
      rcases mem_lookup_foldl_setQueryInactive h.trackedQueryManager hfound with ⟨gone, hmem, rfl⟩ | hold
      · exact hgone gone hmem other hother
      · exact hlistened spec found hold hinactive other (hsub hother)

/-! ### Runs -/

omit [QueryFilters K V] in
theorem formed_ofPersistence {manager : FPersistenceManager K V}
    (h : manager.trackedQueryManager.Formed) : (ofPersistence manager).Formed :=
  ⟨.initial, h⟩

omit [QueryFilters K V] in
theorem activeListened_ofPersistence (manager : FPersistenceManager K V) :
    (ofPersistence manager).ActiveListened := by
  intro _ _ _ _ query hquery
  obtain ⟨syncPoint, hvalue, _⟩ := FSyncTree.mem_views_iff.mp hquery
  rw [ofPersistence, FSyncTree.initial, FImmutableTree.valueAt_empty] at hvalue
  cases hvalue

/-- From any stored queries, exactly the runs in which every get that ends leaves the listened queries
alone have only states in which these are not inactive. -/
theorem activeListened_run_iff (serverCache : FNode K V) (storage : List (Int × FTrackedQuery K V))
    (loaded : List (FTrackedQuery K V)) (cachePolicy : FCachePolicy) (lastUse : Int)
    {operations : List (GetOperation K V)}
    (hrun : (run step (ofPersistence (.ofStorage serverCache storage loaded cachePolicy lastUse))
      operations).isSome = true) :
    AllSteps step LeavesListened
        (ofPersistence (.ofStorage serverCache storage loaded cachePolicy lastUse)) operations ↔
      ∀ before, before <+: operations →
        ∀ state ∈ run step (ofPersistence (.ofStorage serverCache storage loaded cachePolicy lastUse))
          before, state.ActiveListened :=
  allSteps_iff_forall_states (fun _ _ h _ => h.step)
    (fun _ _ h hlistened _ => activeListened_step h hlistened)
    (formed_ofPersistence (formed_ofStorage storage loaded lastUse)) (activeListened_ofPersistence _) hrun

/-- The policy of these runs never prunes. -/
def keepAll : FCachePolicy := ⟨fun _ _ => false, fun _ => false, 0, 0⟩

/-- A listener comes and goes while a get of another path waits. -/
def otherListenerRun : List (GetOperation String Int) :=
  [.getData (.defaultQueryAtPath ["a"]) 1,
    .addEventRegistration (.handle 1) (.defaultQueryAtPath ["b"]) none 2,
    .removeEventRegistration .all (.defaultQueryAtPath ["b"]) false fun _ => 3,
    .getResponse (.defaultQueryAtPath ["a"]) none [] 4]

theorem activeListened_run_otherListener :
    (run step (ofPersistence (.ofStorage .empty [] [] keepAll 0)) otherListenerRun).isSome = true ∧
      ∀ before, before <+: otherListenerRun →
        ∀ state ∈ run step (ofPersistence (.ofStorage .empty [] [] keepAll 0)) before, state.ActiveListened := by
  refine ⟨by decide, ?_⟩
  exact (@activeListened_run_iff String Int _ _ _ .empty [] [] keepAll 0 otherListenerRun (by decide)).mp (by decide)

/-- A listener of the same query comes while the get waits. -/
def sameListenerRun : List (GetOperation String Int) :=
  [.getData (.defaultQueryAtPath ["a"]) 1,
    .addEventRegistration (.handle 1) (.defaultQueryAtPath ["a"]) none 2,
    .getResponse (.defaultQueryAtPath ["a"]) none [] 3]

theorem activeListened_fails_sameListener :
    ¬∀ (operations : List (GetOperation String Int)) (state : GetState String Int),
      run step (ofPersistence (.ofStorage .empty [] [] keepAll 0)) operations = some state →
        state.ActiveListened := by
  intro hall
  have hbad : (run step (ofPersistence (.ofStorage .empty [] [] keepAll 0)) sameListenerRun).any
      (fun state =>
        (state.persistenceManager.trackedQueryManager.lookup (.defaultQueryAtPath ["a"])).any
            (fun found => !found.isActive) &&
          (state.serverSyncTree.syncPointTree.valueAt ["a"]).any
            (fun syncPoint => syncPoint.viewExistsForQuery (.defaultQueryAtPath ["a"]))) = true := by decide
  obtain ⟨state, hrun, hstate⟩ := (Option.any_eq_true _ _).mp hbad
  obtain ⟨htracked, hview⟩ := Bool.and_eq_true_iff.mp hstate
  obtain ⟨found, hfound, hinactive⟩ := (Option.any_eq_true _ _).mp htracked
  have hmem : (.defaultQueryAtPath ["a"] : FQuerySpec String Int) ∈ state.serverSyncTree.views :=
    FSyncTree.mem_views_iff.mpr ((Option.any_eq_true _ _).mp hview)
  exact hall sameListenerRun state hrun _ found hfound (by simpa using hinactive) _ hmem rfl

end GetState

end FirebaseSwift.Database
