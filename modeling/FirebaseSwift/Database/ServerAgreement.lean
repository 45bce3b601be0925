import FirebaseSwift.Database.Pruning
import FirebaseSwift.Database.ServerOverwrites

/-! The response of a one-shot get and what the caches have of the server. The response is written to
the caches of all views and to persistence as if it were all data at its path. It leaves caches that
agree with the server alone exactly where they get from it what the server has. -/

namespace FirebaseSwift.Database

open FTrackedQueryManager StepRuns

variable {K V : Type} [DatabaseKey K] [DatabaseValue V]

/-! ### Completions -/

namespace FTrackedQueryManager

variable {manager : FTrackedQueryManager K V}

/-- The query is tracked and complete. -/
def CompleteAt (manager : FTrackedQueryManager K V) (spec : FQuerySpec K V) : Prop :=
  ∃ found ∈ manager.lookup spec, found.isComplete = true

variable {spec : FQuerySpec K V}

theorem CompleteAt.completeTrackedQuery (h : manager.CompleteAt spec) (trackedQuery : FTrackedQuery K V) :
    (manager.completeTrackedQuery trackedQuery).CompleteAt spec := by
  rw [FTrackedQueryManager.completeTrackedQuery]
  split_ifs
  · obtain ⟨found, hfound, hcomplete⟩ := h
    change (manager.put trackedQuery.setComplete).CompleteAt spec
    by_cases hspec : spec = trackedQuery.setComplete.query
    · exact ⟨trackedQuery.setComplete, by rw [lookup_put, if_pos hspec]; rfl, rfl⟩
    · exact ⟨found, by rw [lookup_put, if_neg hspec]; exact hfound, hcomplete⟩
  · exact h

theorem CompleteAt.foldl_completeTrackedQuery (h : manager.CompleteAt spec)
    (trackedQueries : List (FTrackedQuery K V)) :
    (trackedQueries.foldl FTrackedQueryManager.completeTrackedQuery manager).CompleteAt spec := by
  induction trackedQueries generalizing manager with
  | nil => exact h
  | cons first rest ih => exact ih (h.completeTrackedQuery first)

theorem completeAt_foldl_completeTrackedQuery {trackedQueries : List (FTrackedQuery K V)}
    {trackedQuery : FTrackedQuery K V} (hmem : trackedQuery ∈ trackedQueries)
    (hlookup : manager.lookup trackedQuery.query = some trackedQuery) :
    (trackedQueries.foldl FTrackedQueryManager.completeTrackedQuery manager).CompleteAt
      trackedQuery.query := by
  induction trackedQueries generalizing manager with
  | nil => cases hmem
  | cons first rest ih =>
      rw [List.foldl_cons, FTrackedQueryManager.completeTrackedQuery]
      split_ifs with hfirst
      · change (rest.foldl FTrackedQueryManager.completeTrackedQuery
          (manager.put first.setComplete)).CompleteAt trackedQuery.query
        by_cases hsame : trackedQuery.query = first.setComplete.query
        · refine CompleteAt.foldl_completeTrackedQuery ⟨first.setComplete, ?_, rfl⟩ rest
          rw [lookup_put, if_pos hsame]
          rfl
        · rcases List.mem_cons.mp hmem with rfl | hrest
          · exact absurd rfl hsame
          · exact ih hrest (by rw [lookup_put, if_neg hsame, hlookup])
      · rcases List.mem_cons.mp hmem with rfl | hrest
        · exact CompleteAt.foldl_completeTrackedQuery ⟨trackedQuery, hlookup, by simpa using hfirst⟩ rest
        · exact ih hrest hlookup

/-- What is complete after a completion of a path was complete, or is tracked at the path or below. -/
theorem Formed.completeAt_setQueriesCompleteAtPath (h : manager.Formed) {path : FPath K} :
    (manager.setQueriesCompleteAtPath path).CompleteAt spec ↔
      ∃ found ∈ manager.lookup spec, found.isComplete = true ∨ path <+: spec.path := by
  constructor
  · rintro ⟨found, hfound, hcomplete⟩
    rcases mem_lookup_foldl_completeTrackedQuery hfound with hold | ⟨trackedQuery, hmem, rfl, rfl⟩
    · exact ⟨found, hold, Or.inl hcomplete⟩
    · obtain ⟨hle, hlookup⟩ := h.mem_subtree.mp hmem
      exact ⟨trackedQuery, hlookup, Or.inr hle⟩
  · rintro ⟨found, hfound, hcomplete | hle⟩
    · exact CompleteAt.foldl_completeTrackedQuery ⟨found, hfound, hcomplete⟩ _
    · have hquery := h.named spec found hfound
      have hcompleted : (manager.setQueriesCompleteAtPath path).CompleteAt found.query :=
        completeAt_foldl_completeTrackedQuery (h.mem_subtree.mpr ⟨hquery ▸ hle, hquery ▸ hfound⟩)
          (hquery ▸ hfound)
      exact hquery ▸ hcompleted

/-- A change of activity leaves what is complete complete, and makes at most its query complete. -/
theorem Formed.completeAt_setQueryActiveState (h : manager.Formed) {query : FQuerySpec K V} {isActive : Bool}
    {lastUse : Int} : (manager.setQueryActiveState query isActive lastUse).CompleteAt spec ↔
      ∃ found ∈ manager.lookup spec, found.isComplete = true ∨ spec = normalizeQuery query := by
  rw [CompleteAt, lookup_setQueryActiveState _ _ _ _ h]
  by_cases hspec : spec = normalizeQuery query
  · rw [if_pos hspec, hspec, ← findTrackedQuery_eq]
    cases manager.findTrackedQuery query with
    | none => simp [FTrackedQuery.ofQuery]
    | some found => simp [FTrackedQuery.setActiveState]
  · rw [if_neg hspec]
    simp only [hspec, or_false]

end FTrackedQueryManager

/-! ### Agreement -/

variable [QueryValue K V]

/-- The server's response to a get: its tree at the path of the query, through the filter of the query. -/
def FQuerySpec.response (query : FQuerySpec K V) (serverTree : FNode K V) : FNode K V :=
  (query.params.nodeFilter.updateFullNode (.ofNode .empty query.index)
    (.ofNode (serverTree.getChild query.path) query.index)).1.node

/-- A server cache that has all data of its path has what the server has there. -/
def FSyncTree.Agrees (tree : FSyncTree K V) (serverTree : FNode K V) : Prop :=
  ∀ query : FQuerySpec K V, DatabaseKey.priority ∉ query.path → ∀ view ∈ tree.viewAt query,
    view.viewCache.cachedServerSnap.isComplete = true →
      view.viewCache.cachedServerSnap.node = serverTree.getChild query.path

/-- Where the default query of a path is complete, persistence has what the server has there. -/
def FPersistenceManager.AgreesAt (manager : FPersistenceManager K V) (serverTree : FNode K V)
    (path : FPath K) : Prop :=
  DatabaseKey.priority ∉ path → manager.trackedQueryManager.CompleteAt (.defaultQueryAtPath path) →
    manager.serverCache.getChild path = serverTree.getChild path

namespace GetState

variable {state state' : GetState K V}

def Agrees (state : GetState K V) (serverTree : FNode K V) : Prop :=
  state.serverSyncTree.Agrees serverTree ∧
    ∀ path, state.persistenceManager.AgreesAt serverTree path

/-- With the response in its place the server tree is still what it was, wherever a cache has or gets all
data: at the paths of complete caches and complete default queries, and of all that are at the path of
the query or below. -/
structure TakesWhole (state : GetState K V) (serverTree : FNode K V) (query : FQuerySpec K V) : Prop where
  views : ∀ other : FQuerySpec K V, DatabaseKey.priority ∉ other.path →
    ∀ view ∈ state.serverSyncTree.viewAt other,
      view.viewCache.cachedServerSnap.isComplete = true ∨ query.path <+: other.path →
        (serverTree.updateChild query.path (query.response serverTree)).getChild other.path =
          serverTree.getChild other.path
  tracked : ∀ path, DatabaseKey.priority ∉ path →
    ∀ found ∈ state.persistenceManager.trackedQueryManager.lookup (.defaultQueryAtPath path),
      found.isComplete = true ∨ query.path <+: path →
        (serverTree.updateChild query.path (query.response serverTree)).getChild path =
          serverTree.getChild path

/-! ### Checks -/

/-- What has to hold where a server cache is at a path. -/
def CheckedViews (tree : FSyncTree K V) (check : FPath K → FCacheNode K V → Prop) : Prop :=
  ∀ found ∈ tree.syncPointTree.forEach, ∀ entry ∈ found.2.views,
    check found.1 entry.2.viewCache.cachedServerSnap

omit [QueryValue K V] in
theorem CheckedViews.of_viewAt {tree : FSyncTree K V} {check : FPath K → FCacheNode K V → Prop}
    (h : CheckedViews tree check) (hformed : tree.Formed) {query : FQuerySpec K V} {view : FView K V}
    (hview : view ∈ tree.viewAt query) : check query.path view.viewCache.cachedServerSnap := by
  obtain ⟨syncPoint, hvalue, hview⟩ := Option.bind_eq_some_iff.mp hview
  exact h (query.path, syncPoint) (hformed.sorted.mem_forEach.mpr hvalue) _ (FSyncPoint.mem_of_viewFor hview)

/-- What has to hold where a default query is tracked. -/
def CheckedQueries (manager : FTrackedQueryManager K V) (check : FTrackedQuery K V → Prop) : Prop :=
  ∀ found ∈ manager.trackedQueries, found.query.isDefault = true → check found

omit [QueryValue K V] in
theorem CheckedQueries.of_lookup {manager : FTrackedQueryManager K V} {check : FTrackedQuery K V → Prop}
    (h : CheckedQueries manager check) (hformed : manager.Formed) {path : FPath K}
    {found : FTrackedQuery K V} (hfound : found ∈ manager.lookup (.defaultQueryAtPath path)) :
    found.query.path = path ∧ check found := by
  have hquery := hformed.named _ found hfound
  refine ⟨congrArg FQuerySpec.path hquery, h found ?_ (by rw [hquery]; rfl)⟩
  rw [hformed.mem_trackedQueries, hquery]
  exact hfound

instance (tree : FSyncTree K V) (check : FPath K → FCacheNode K V → Prop)
    [∀ path cache, Decidable (check path cache)] : Decidable (CheckedViews tree check) := by
  unfold CheckedViews
  infer_instance

instance (manager : FTrackedQueryManager K V) (check : FTrackedQuery K V → Prop)
    [∀ found, Decidable (check found)] : Decidable (CheckedQueries manager check) := by
  unfold CheckedQueries
  infer_instance

/-! ### The step -/

omit [DatabaseValue V] [QueryValue K V] in
theorem path_normalizeQuery (query : FQuerySpec K V) : (normalizeQuery query).path = query.path := by
  unfold normalizeQuery
  split_ifs <;> rfl

/-- Views that agree with the server agree with it after an overwrite exactly if they get from it what the
server has. -/
theorem agrees_applyServerOverwriteAtPath_iff {tree tree' : FSyncTree K V} (htree : tree.Reachable)
    {serverTree snap : FNode K V} (hagrees : tree.Agrees serverTree) {path : FPath K}
    (hpath : DatabaseKey.priority ∉ path) (h : tree.applyServerOverwriteAtPath path snap = some tree') :
    tree'.Agrees serverTree ↔
      ∀ other : FQuerySpec K V, DatabaseKey.priority ∉ other.path → ∀ view ∈ tree.viewAt other,
        view.viewCache.cachedServerSnap.isComplete = true ∨ path <+: other.path →
          (serverTree.updateChild path snap).getChild other.path = serverTree.getChild other.path := by
  have hfiltered : ∀ (other : FQuerySpec K V), ∀ view ∈ tree.viewAt other, view.FilteredForQuery := by
    intro other view hview
    obtain ⟨syncPoint, hvalue, hview⟩ := Option.bind_eq_some_iff.mp hview
    exact htree.allViews FView.stable_filteredForQuery other.path syncPoint hvalue _
      (FSyncPoint.mem_of_viewFor hview)
  constructor
  · intro hagrees' other hother view hview hgets
    rcases FSyncTree.cachedServerSnap_applyServerOverwriteAtPath h hpath hother (hfiltered other) with
      ⟨hnone, _⟩ | ⟨found, view', hfound, hview', hcomplete, hnode⟩
    · rw [Option.mem_def, hnone] at hview
      cases hview
    · rw [Option.mem_def, hfound] at hview
      cases hview
      have hcomplete' := hcomplete.mpr hgets
      rw [← hnode serverTree (hagrees other hother view hfound) hcomplete']
      exact hagrees' other hother view' hview' hcomplete'
  · intro hgets other hother view' hview' hcomplete'
    rcases FSyncTree.cachedServerSnap_applyServerOverwriteAtPath h hpath hother (hfiltered other) with
      ⟨_, hnone⟩ | ⟨view, found, hview, hfound, hcomplete, hnode⟩
    · rw [Option.mem_def, hnone] at hview'
      cases hview'
    · rw [Option.mem_def, hfound] at hview'
      cases hview'
      rw [hnode serverTree (hagrees other hother view hview) hcomplete']
      exact hgets other hother view hview (hcomplete.mp hcomplete')

section Persistence

variable {manager manager' : FPersistenceManager K V} {serverTree snap : FNode K V} {path : FPath K}
  {sizes : List Int} {query : FQuerySpec K V} {lastUse : Int}

variable {other : FPath K}

omit [QueryValue K V] in
/-- Persistence that agrees with the server elsewhere has after a write what the server has with it. -/
theorem getChild_updateChild_of_agreesAt (hagrees : ∀ other, ¬path <+: other → manager.AgreesAt serverTree other)
    (hpath : DatabaseKey.priority ∉ path) (hother : DatabaseKey.priority ∉ other)
    (hcomplete : manager.trackedQueryManager.CompleteAt (.defaultQueryAtPath other) ∨ path <+: other) :
    (manager.serverCache.updateChild path snap).getChild other =
      (serverTree.updateChild path snap).getChild other :=
  FNode.getChild_updateChild_congr hpath hother snap fun hnot =>
    hagrees other hnot hother (hcomplete.resolve_right hnot)

omit [QueryValue K V] in
theorem agreesAt_of_updateServerCache (hformed : manager.trackedQueryManager.Formed)
    (hagrees : ∀ other, ¬query.path <+: other → manager.AgreesAt serverTree other)
    (hpath : DatabaseKey.priority ∉ query.path)
    (h : manager.updateServerCache snap (.defaultQueryAtPath query.path) sizes = some manager')
    (hgets : ∀ other, DatabaseKey.priority ∉ other →
      ∀ found ∈ manager.trackedQueryManager.lookup (.defaultQueryAtPath other),
        found.isComplete = true ∨ query.path <+: other →
          (serverTree.updateChild query.path snap).getChild other = serverTree.getChild other)
    (other : FPath K) : (manager'.setQueryInactive query lastUse).AgreesAt serverTree other := by
  intro hother hcomplete
  have hcompleted := hformed.setQueriesCompleteAtPath query.path
  have hkeeps := FPersistenceManager.doPruneCheckAfterServerUpdate_keepsTracked hcompleted h
  have hformed' := (FPersistenceManager.updateServerCache_keepsActivity hformed h).1
  obtain ⟨found, hfound, hreason⟩ := hformed'.completeAt_setQueryActiveState.mp hcomplete
  have htracked := hkeeps.lookup _ found hfound
  -- what is complete was complete before, or is at the path or below
  have hold : ∃ old ∈ manager.trackedQueryManager.lookup (.defaultQueryAtPath other),
      old.isComplete = true ∨ query.path <+: other := by
    rcases hreason with hdone | hsame
    · exact hformed.completeAt_setQueriesCompleteAtPath.mp ⟨found, htracked, hdone⟩
    · have hle : query.path <+: other := by
        have hsamePath := congrArg FQuerySpec.path hsame
        rw [path_normalizeQuery] at hsamePath
        exact ⟨[], (List.append_nil _).trans hsamePath.symm⟩
      rcases mem_lookup_foldl_completeTrackedQuery htracked with hold | ⟨old, hmem, hquery, _⟩
      · exact ⟨found, hold, Or.inr hle⟩
      · exact ⟨old, hquery ▸ (hformed.mem_subtree.mp hmem).2, Or.inr hle⟩
  obtain ⟨old, hmem, hgot⟩ := hold
  rw [← hgets other hother old hmem hgot]
  refine (hkeeps.getChild other hother (Option.isSome_of_mem hfound)).trans ?_
  refine getChild_updateChild_of_agreesAt hagrees hpath hother ?_
  exact hgot.imp_left fun hdone => ⟨old, hmem, hdone⟩

omit [QueryValue K V] in
/-- Where nothing is pruned, all that is complete after the response is checked against it. -/
theorem gets_of_agreesAt (hformed : manager.trackedQueryManager.Formed)
    (hagrees : ∀ other, ¬query.path <+: other → manager.AgreesAt serverTree other)
    (hpath : DatabaseKey.priority ∉ query.path)
    (hunpruned : ∀ cacheSize ∈ sizes, ∀ count, manager.cachePolicy.shouldPruneCache cacheSize count = false)
    (h : manager.updateServerCache snap (.defaultQueryAtPath query.path) sizes = some manager')
    (hagrees' : ∀ other, (manager'.setQueryInactive query lastUse).AgreesAt serverTree other)
    (hother : DatabaseKey.priority ∉ other) {found : FTrackedQuery K V}
    (hfound : found ∈ manager.trackedQueryManager.lookup (.defaultQueryAtPath other))
    (hgets : found.isComplete = true ∨ query.path <+: other) :
    (serverTree.updateChild query.path snap).getChild other = serverTree.getChild other := by
  have hsame : manager'.trackedQueryManager =
        manager.trackedQueryManager.setQueriesCompleteAtPath query.path ∧
      manager'.serverCache = manager.serverCache.updateChild query.path snap := by
    rw [FPersistenceManager.updateServerCache, FPersistenceManager.doPruneCheckAfterServerUpdate] at h
    split_ifs at h
    · cases h
      exact ⟨rfl, rfl⟩
    · cases sizes with
      | nil => cases h
      | cons cacheSize sizes =>
          have hkept := hunpruned cacheSize List.mem_cons_self
          rw [FPersistenceManager.pruneWhile] at h
          split_ifs at h with hprune
          · exact absurd (hprune.symm.trans (hkept _)) (by simp)
          · cases h
            exact ⟨rfl, rfl⟩
  have hcompleted := hformed.setQueriesCompleteAtPath query.path
  obtain ⟨done, hdone, hcomplete⟩ := hformed.completeAt_setQueriesCompleteAtPath.mpr ⟨found, hfound, hgets⟩
  have hafter : (manager'.setQueryInactive query lastUse).trackedQueryManager.CompleteAt
      (.defaultQueryAtPath other) := by
    change (manager'.trackedQueryManager.setQueryActiveState query false lastUse).CompleteAt _
    rw [hsame.1]
    exact hcompleted.completeAt_setQueryActiveState.mpr ⟨done, hdone, Or.inl hcomplete⟩
  have hstored : manager'.serverCache.getChild other = serverTree.getChild other :=
    hagrees' other hother hafter
  rw [← hstored, hsame.2]
  refine (getChild_updateChild_of_agreesAt hagrees hpath hother ?_).symm
  exact hgets.imp_left fun hdone => ⟨found, hfound, hdone⟩

end Persistence

/-- A response of the server leaves the caches in agreement with it if they get from it what the server
has; where it prunes nothing, only if. Before, the default queries at the path of the query and below
may be complete without the data, as a get makes its query active. -/
theorem agrees_getResponse {serverTree : FNode K V} {query : FQuerySpec K V} {sizes : List Int}
    {lastUse : Int} (htree : state.serverSyncTree.Reachable)
    (hmanager : state.persistenceManager.trackedQueryManager.Formed)
    (hquery : DatabaseKey.priority ∉ query.path) (hviews : state.serverSyncTree.Agrees serverTree)
    (hstored : ∀ path, ¬query.path <+: path → state.persistenceManager.AgreesAt serverTree path)
    (hstep : state.getResponse query (some (query.response serverTree)) sizes lastUse = some state') :
    (state.TakesWhole serverTree query → state'.Agrees serverTree) ∧
      ((∀ cacheSize ∈ sizes, ∀ count,
          state.persistenceManager.cachePolicy.shouldPruneCache cacheSize count = false) →
        state'.Agrees serverTree → state.TakesWhole serverTree query) := by
  rw [getResponse] at hstep
  split_ifs at hstep
  obtain ⟨next, hprocess, rfl⟩ := Option.map_eq_some_iff.mp hstep
  obtain ⟨manager', hupdate, hprocess⟩ := Option.bind_eq_some_iff.mp hprocess
  obtain ⟨tree', happly, hprocess⟩ := Option.bind_eq_some_iff.mp hprocess
  cases hprocess
  have hiff := agrees_applyServerOverwriteAtPath_iff htree hviews hquery happly
  constructor
  · intro hwhole
    exact ⟨hiff.mpr hwhole.views,
      agreesAt_of_updateServerCache hmanager hstored hquery hupdate hwhole.tracked⟩
  · rintro hunpruned ⟨hviews', hstored'⟩
    exact ⟨hiff.mp hviews', fun path hpath found hfound hgets =>
      gets_of_agreesAt hmanager hstored hquery hunpruned hupdate hstored' hpath hfound hgets⟩

/-! ### Two runs -/

omit [QueryValue K V] in
theorem agrees_of_checkedViews {tree : FSyncTree K V} (hformed : tree.Formed) {serverTree : FNode K V}
    (h : CheckedViews tree fun path cache => cache.isComplete = true → cache.node = serverTree.getChild path) :
    tree.Agrees serverTree :=
  fun _ _ _ hview hcomplete => h.of_viewAt hformed hview hcomplete

omit [QueryValue K V] in
theorem agreesAt_of_checkedQueries {manager : FPersistenceManager K V}
    (hformed : manager.trackedQueryManager.Formed) {serverTree : FNode K V}
    (h : CheckedQueries manager.trackedQueryManager fun found => found.isComplete = true →
      manager.serverCache.getChild found.query.path = serverTree.getChild found.query.path)
    (path : FPath K) : manager.AgreesAt serverTree path := by
  rintro _ ⟨found, hfound, hcomplete⟩
  obtain ⟨hpath, hcheck⟩ := h.of_lookup hformed hfound
  exact hpath ▸ hcheck hcomplete

theorem takesWhole_of_checked (hformed : state.Formed) {serverTree : FNode K V} {query : FQuerySpec K V}
    (hviews : CheckedViews state.serverSyncTree fun path cache =>
      cache.isComplete = true ∨ query.path <+: path →
        (serverTree.updateChild query.path (query.response serverTree)).getChild path =
          serverTree.getChild path)
    (hqueries : CheckedQueries state.persistenceManager.trackedQueryManager fun found =>
      found.isComplete = true ∨ query.path <+: found.query.path →
        (serverTree.updateChild query.path (query.response serverTree)).getChild found.query.path =
          serverTree.getChild found.query.path) :
    state.TakesWhole serverTree query := by
  refine ⟨fun other _ view hview => hviews.of_viewAt hformed.serverSyncTree hview, ?_⟩
  intro path _ found hfound
  obtain ⟨hpath, hcheck⟩ := hqueries.of_lookup hformed.trackedQueryManager hfound
  exact hpath ▸ hcheck

/-- The state after a run without stored queries. -/
theorem run_ofStorage {serverCache : FNode K V} {cachePolicy : FCachePolicy} {operations : List (GetOperation K V)}
    (hrun : run step (ofPersistence (.ofStorage serverCache [] [] cachePolicy 0)) operations = some state) :
    state.serverSyncTree.Reachable ∧ state.Formed := by
  refine @invariant_run _ _ _ (fun state => state.serverSyncTree.Reachable ∧ state.Formed)
    (fun _ _ => True) (fun state operation h _ state' hstep => ?_) _ _ _ ?_ ?_ hrun
  · exact ⟨reachable_step h.1 hstep, h.2.step hstep⟩
  · exact ⟨.initial, formed_ofPersistence (formed_ofStorage [] [] 0)⟩
  · exact allSteps_true (fun _ _ => trivial) _ _

/-- The tree of the server in these runs. -/
def serverOfTwo : FNode String String :=
  ((FNode.empty.updateChild ["a", "x"] (.leaf "1" .empty)).updateChild ["a", "y"] (.leaf "2" .empty)).updateChild
    ["b"] (.leaf "3" .empty)

/-- The first child of a path in the order of the keys. -/
def firstChildOf (path : FPath String) : FQuerySpec String String := ⟨path, .key, some (1, true), none, none⟩

/-- A listener comes to a path while a get of the first child of `a` waits. -/
def listenWhileWaiting (path : FPath String) : List (GetOperation String String) :=
  [.getData (firstChildOf ["a"]) 1, .addEventRegistration (.handle 1) (.defaultQueryAtPath path) none 2]

/-- The state in which the response comes. -/
def waitingWith (path : FPath String) : GetState String String :=
  (run step (ofPersistence (.ofStorage .empty [] [] keepAll 0)) (listenWhileWaiting path)).getD
    (ofPersistence (.ofStorage .empty [] [] keepAll 0))

/-- The state after the response. -/
def respondedWith (path : FPath String) : GetState String String :=
  ((waitingWith path).getResponse (firstChildOf ["a"])
    (some ((firstChildOf ["a"]).response serverOfTwo)) [0] 3).getD (waitingWith path)

theorem some_getD {α : Type} {value : Option α} (h : value.isSome = true) (default : α) :
    value = some (value.getD default) := by
  obtain ⟨found, rfl⟩ := Option.isSome_iff_exists.mp h
  rfl

theorem agrees_getResponse_elsewhere : (respondedWith ["b"]).Agrees serverOfTwo := by
  obtain ⟨htree, hformed⟩ := run_ofStorage (@some_getD _ (run step
    (ofPersistence (.ofStorage .empty [] [] keepAll 0)) (listenWhileWaiting ["b"])) (by decide) _)
  refine (agrees_getResponse htree hformed.trackedQueryManager (by decide)
    (agrees_of_checkedViews hformed.serverSyncTree (by decide))
    (fun path _ => agreesAt_of_checkedQueries hformed.trackedQueryManager (by decide) path)
    (some_getD (by decide) _)).1 (takesWhole_of_checked hformed (by decide) (by decide))

/-- The listener at the path of the get takes the first child for all data. -/
theorem agrees_fails_filtered :
    ¬∀ (state state' : GetState String String) (serverTree : FNode String String)
      (query : FQuerySpec String String) (sizes : List Int) (lastUse : Int),
      state.serverSyncTree.Reachable → state.Formed → DatabaseKey.priority ∉ query.path →
      state.Agrees serverTree →
      state.getResponse query (some (query.response serverTree)) sizes lastUse = some state' →
        state'.Agrees serverTree := by
  intro hall
  obtain ⟨htree, hformed⟩ := run_ofStorage (@some_getD _ (run step
    (ofPersistence (.ofStorage .empty [] [] keepAll 0)) (listenWhileWaiting ["a"])) (by decide) _)
  have hagrees : (waitingWith ["a"]).Agrees serverOfTwo :=
    ⟨agrees_of_checkedViews hformed.serverSyncTree (by decide),
      agreesAt_of_checkedQueries hformed.trackedQueryManager (by decide)⟩
  obtain ⟨hviews, _⟩ := hall _ (respondedWith ["a"]) serverOfTwo (firstChildOf ["a"]) [0] 3 htree hformed
    (by decide) hagrees (some_getD (by decide) _)
  have hbad : ((respondedWith ["a"]).serverSyncTree.viewAt (.defaultQueryAtPath ["a"])).any (fun view =>
      view.viewCache.cachedServerSnap.isComplete &&
        decide (view.viewCache.cachedServerSnap.node ≠ serverOfTwo.getChild ["a"])) = true := by decide
  obtain ⟨view, hview, hcheck⟩ := (Option.any_eq_true _ _).mp hbad
  obtain ⟨hcomplete, hne⟩ := Bool.and_eq_true_iff.mp hcheck
  exact of_decide_eq_true hne (hviews (.defaultQueryAtPath ["a"]) (by decide) view hview hcomplete)

end GetState

end FirebaseSwift.Database
