import FirebaseSwift.Database.SyncTreeRuns

/-! Operations that come under the tag of a filtered query. An overwrite and a merge reach the view of
that query only. A listen complete loses its source on the way, so it reaches every view at the path of
the query and marks its data as complete. -/

namespace FirebaseSwift.Database

variable {K V : Type} [DatabaseKey K] [DatabaseValue V]

/-! ### Views of a sync point -/

namespace FSyncPoint

variable {syncPoint syncPoint' : FSyncPoint K V} {params other : FQueryParams K V}

theorem viewFor_setView_of_ne (view : FView K V) (hne : other ≠ params) :
    (syncPoint.setView params view).viewFor other = syncPoint.viewFor other := by
  unfold setView
  split_ifs
  · unfold viewFor
    dsimp only
    induction syncPoint.views with
    | nil => rfl
    | cons entry rest ih =>
        obtain ⟨entryParams, entryView⟩ := entry
        rw [List.map_cons, SortedDictionary.get_cons]
        by_cases hparams : entryParams = params
        · rw [if_pos hparams, SortedDictionary.get_cons, if_neg (Ne.symm hne), ih, if_neg (hparams ▸ Ne.symm hne)]
        · rw [if_neg hparams, SortedDictionary.get_cons, ih]
  · unfold viewFor
    dsimp only
    induction syncPoint.views with
    | nil => rw [List.nil_append, SortedDictionary.get_cons, if_neg (Ne.symm hne)]
    | cons entry rest ih =>
        obtain ⟨entryParams, entryView⟩ := entry
        rw [List.cons_append, SortedDictionary.get_cons, SortedDictionary.get_cons, ih]

/-- An operation on every view. -/
theorem viewFor_of_mapM {apply : FView K V → Option (FView K V)} {views views' : List (FQueryParams K V × FView K V)}
    (h : views.mapM (fun entry => (apply entry.2).map fun view => (entry.1, view)) = some views')
    (params : FQueryParams K V) : (⟨views'⟩ : FSyncPoint K V).viewFor params =
      ((⟨views⟩ : FSyncPoint K V).viewFor params).bind apply := by
  unfold viewFor
  dsimp only
  induction views generalizing views' with
  | nil =>
      cases h
      rfl
  | cons entry rest ih =>
      obtain ⟨entryParams, entryView⟩ := entry
      rw [List.mapM_cons] at h
      cases happly : apply entryView with
      | none => simp [happly] at h
      | some view =>
          cases hrest : rest.mapM fun entry => (apply entry.2).map fun view => (entry.1, view) with
          | none => simp [happly, hrest] at h
          | some rest' =>
              have hviews : views' = (entryParams, view) :: rest' := by
                simpa [happly, hrest, eq_comm] using h
              rw [hviews, SortedDictionary.get_cons, SortedDictionary.get_cons]
              by_cases hparams : entryParams = params
              · rw [if_pos hparams, if_pos hparams, Option.bind_some, happly]
              · rw [if_neg hparams, if_neg hparams, ih hrest]

variable {view : FView K V} {operation : FOperation K V (FQueryParams K V)} {writesCache : FWriteTreeRef K V}
variable {serverCache : Option (FNode K V)}

omit [DatabaseValue V] in
/-- Where an operation on every view has a result, it has one on each. -/
theorem isSome_of_mapM (apply : FView K V → Option (FView K V)) {views views' : List (FQueryParams K V × FView K V)}
    (h : views.mapM (fun entry => (apply entry.2).map fun view => (entry.1, view)) = some views')
    {params : FQueryParams K V} (hmem : (params, view) ∈ views) : (apply view).isSome = true := by
  induction views generalizing views' with
  | nil => cases hmem
  | cons first rest ih =>
      rw [List.mapM_cons] at h
      cases happly : apply first.2 with
      | none => simp [happly] at h
      | some first' =>
          cases hrest : rest.mapM fun entry => (apply entry.2).map fun view => (entry.1, view) with
          | none => simp [happly, hrest] at h
          | some rest' =>
              rcases List.mem_cons.mp hmem with rfl | hmem
              · rw [happly]
                rfl
              · exact ih hrest hmem

variable [QueryFilters K V]

/-- A tagged operation reaches the view of its query only. -/
theorem viewFor_applyOperation_tagged (hsource : operation.source = .server (some params))
    (h : syncPoint.applyOperation operation writesCache serverCache = some syncPoint') (hne : other ≠ params) :
    syncPoint'.viewFor other = syncPoint.viewFor other := by
  unfold applyOperation at h
  rw [hsource] at h
  dsimp only at h
  cases hview : syncPoint.viewFor params with
  | none =>
      rw [hview] at h
      cases h
      rfl
  | some view =>
      rw [hview] at h
      obtain ⟨view', _, rfl⟩ := Option.map_eq_some_iff.mp h
      exact viewFor_setView_of_ne view' hne

/-- An operation of the user reaches every view. -/
theorem viewFor_applyOperation_user (hsource : operation.source = .user)
    (h : syncPoint.applyOperation operation writesCache serverCache = some syncPoint') (params : FQueryParams K V) :
    syncPoint'.viewFor params =
      (syncPoint.viewFor params).bind fun view => view.applyOperation operation writesCache serverCache := by
  unfold applyOperation at h
  rw [hsource] at h
  obtain ⟨views', hviews, rfl⟩ := Option.map_eq_some_iff.mp h
  exact viewFor_of_mapM hviews params

theorem isSome_of_applyOperation_user (hsource : operation.source = .user)
    (h : syncPoint.applyOperation operation writesCache serverCache = some syncPoint')
    (hview : syncPoint.viewFor params = some view) :
    (view.applyOperation operation writesCache serverCache).isSome = true := by
  unfold applyOperation at h
  rw [hsource] at h
  obtain ⟨views', hviews, _⟩ := Option.map_eq_some_iff.mp h
  have hmem : (params, view) ∈ syncPoint.views := SortedDictionary.mem_of_get hview
  exact isSome_of_mapM (fun view : FView K V => view.applyOperation operation writesCache serverCache)
    hviews hmem

end FSyncPoint

/-! ### Completed listens -/

namespace FViewProcessor

/-- The event cache of a view as it follows from its server cache after a server event at the path. -/
def eventSnapAfterServerEvent (self : FViewProcessor K V) (writesCache : FWriteTreeRef K V)
    (viewCache : FViewCache K V) (changePath : FPath K) : FCacheNode K V :=
  let eventCache :=
    match changePath with
    | [] => self.eventCacheAfterServerEventAtRoot writesCache viewCache
    | childKey :: childChangePath =>
        self.eventCacheAfterServerEventAtChild writesCache viewCache childKey childChangePath
          .noCompleteChildSource
  ⟨viewCache.cachedEventSnap.isFullyInitialized || changePath.isEmpty, self.filter.filtersNodes,
    eventCache.1⟩

end FViewProcessor

variable [QueryFilters K V]

/-- A view has nothing to gain from a completed listen: its server cache is complete if the whole view
is concerned, and its event cache follows from it, where no pending write hides the path. -/
def FView.Settled (view : FView K V) (writesCache : FWriteTreeRef K V) (path : FPath K) : Prop :=
  (path = [] → view.viewCache.cachedServerSnap.isFullyInitialized = true) ∧
    (writesCache.shadowingWriteAtPath path = none →
      view.viewCache.cachedEventSnap = (FViewProcessor.mk view.query.params.nodeFilter).eventSnapAfterServerEvent
        writesCache view.viewCache path)

variable {writesCache : FWriteTreeRef K V} {source : FOperationSource (FQueryParams K V)}
variable {serverCache : Option (FNode K V)}

theorem FView.viewCache_of_listenComplete {view view' : FView K V} {path : FPath K}
    (h : view.applyOperation (.listenComplete source path) writesCache serverCache = some view') : view'.viewCache =
      ((FViewProcessor.mk view.query.params.nodeFilter).listenComplete writesCache view.viewCache path
        .initial).1 := by
  obtain ⟨result, hresult, rfl⟩ := Option.map_eq_some_iff.mp h
  unfold FViewProcessor.applyOperationOn at hresult
  dsimp only [FOperation.listenComplete, FViewProcessor.processOperation] at hresult
  split_ifs at hresult
  cases hresult
  rfl

/-- Exactly a settled view is left as it is. -/
theorem FView.settled_iff {view view' : FView K V} {path : FPath K}
    (h : view.applyOperation (.listenComplete source path) writesCache serverCache = some view') :
    view'.viewCache = view.viewCache ↔ view.Settled writesCache path := by
  rw [viewCache_of_listenComplete h]
  unfold FViewProcessor.listenComplete
  dsimp only
  have hserver : ∀ self : FViewProcessor K V, ∀ viewCache : FViewCache K V, ∀ accumulator,
      (self.generateEventCacheAfterServerEvent writesCache viewCache path .noCompleteChildSource
        accumulator).1.cachedServerSnap = viewCache.cachedServerSnap := by
    intro self viewCache accumulator
    unfold FViewProcessor.generateEventCacheAfterServerEvent
    split_ifs <;> rfl
  by_cases hcomplete : path = [] → view.viewCache.cachedServerSnap.isFullyInitialized = true
  · have hsame : view.viewCache.updateServerSnap view.viewCache.cachedServerSnap.indexedNode
        (view.viewCache.cachedServerSnap.isFullyInitialized || path.isEmpty)
        view.viewCache.cachedServerSnap.isFiltered = view.viewCache := by
      have hflag : (view.viewCache.cachedServerSnap.isFullyInitialized || path.isEmpty) =
          view.viewCache.cachedServerSnap.isFullyInitialized := by
        cases path with
        | nil => simp [hcomplete rfl]
        | cons => simp
      rw [hflag]
      rfl
    rw [hsame]
    unfold Settled FViewProcessor.generateEventCacheAfterServerEvent
    cases hshadowing : writesCache.shadowingWriteAtPath path with
    | some write => simpa using hcomplete
    | none =>
        simp only [Option.isSome_none, Bool.false_eq_true, if_false, forall_const]
        constructor
        · intro heq
          refine ⟨hcomplete, ?_⟩
          conv_lhs => rw [← heq]
          rfl
        · rintro ⟨_, heq⟩
          conv_rhs => rw [← show (⟨view.viewCache.cachedEventSnap, view.viewCache.cachedServerSnap⟩ :
            FViewCache K V) = view.viewCache from rfl, heq]
          rfl
  · refine iff_of_false (fun heq => ?_) fun hsettled => hcomplete hsettled.1
    have hflag := hserver (FViewProcessor.mk view.query.params.nodeFilter)
      (view.viewCache.updateServerSnap view.viewCache.cachedServerSnap.indexedNode
        (view.viewCache.cachedServerSnap.isFullyInitialized || path.isEmpty)
        view.viewCache.cachedServerSnap.isFiltered) .initial
    rw [heq] at hflag
    refine hcomplete fun hpath => ?_
    rw [hflag, hpath]
    simp [FViewCache.updateServerSnap]

/-! ### Tagged operations of the tree -/

/-- An operation that comes under a tag. -/
inductive SyncTreeOperation.IsTagged (tagId : Int) : SyncTreeOperation K V → Prop
  | overwrite (path : FPath K) (newData : FNode K V) :
      IsTagged tagId (.applyTaggedQueryOverwrite path newData tagId)
  | merge (path : FPath K) (changedChildren : FCompoundWrite K V) :
      IsTagged tagId (.applyTaggedQueryMerge path changedChildren tagId)
  | listenComplete (path : FPath K) : IsTagged tagId (.applyTaggedListenComplete path tagId)

namespace FSyncTree

variable {tree tree' : FSyncTree K V} {query : FQuerySpec K V} {tagId : Int}

omit [QueryFilters K V] in
/-- The view of the query, with its caches. -/
def viewOf (tree : FSyncTree K V) (query : FQuerySpec K V) : Option (FView K V) :=
  (tree.syncPointTree.valueAt query.path).bind fun syncPoint => syncPoint.viewFor query.params

/-- The caches of no view change but of that of the query. -/
def TouchesOnly (tree tree' : FSyncTree K V) (query : FQuerySpec K V) : Prop :=
  ∀ other : FQuerySpec K V, other ≠ query →
    (tree'.viewOf other).map FView.viewCache = (tree.viewOf other).map FView.viewCache

/-- The other views at the path of the query have nothing to gain from its completed listen. -/
def OthersSettled (tree : FSyncTree K V) (query : FQuerySpec K V) (relativePath : FPath K) : Prop :=
  ∀ other : FQuerySpec K V, other ≠ query → other.path = query.path →
    ∀ view ∈ tree.viewOf other,
      view.Settled (tree.pendingWriteTree.childWritesForPath query.path) relativePath

variable {operation : FOperation K V (FQueryParams K V)}

/-- A tagged operation changes the sync point of its query only. -/
theorem viewOf_applyTaggedOperation (h : tree.applyTaggedOperation operation query.path = some tree') :
    (tree.syncPointTree.valueAt query.path = none ∧ tree' = tree) ∨
      ∃ syncPoint syncPoint', tree.syncPointTree.valueAt query.path = some syncPoint ∧
        syncPoint.applyOperation operation (tree.pendingWriteTree.childWritesForPath query.path) none =
          some syncPoint' ∧
        ∀ other : FQuerySpec K V, tree'.viewOf other =
          if other.path = query.path then syncPoint'.viewFor other.params else tree.viewOf other := by
  unfold applyTaggedOperation at h
  cases hvalue : tree.syncPointTree.valueAt query.path with
  | none =>
      rw [hvalue] at h
      exact Or.inl ⟨rfl, (Option.some.inj h).symm⟩
  | some syncPoint =>
      rw [hvalue] at h
      obtain ⟨syncPoint', happly, rfl⟩ := Option.map_eq_some_iff.mp h
      refine Or.inr ⟨syncPoint, syncPoint', rfl, happly, fun other => ?_⟩
      unfold viewOf
      rw [FImmutableTree.valueAt_setValue]
      split_ifs <;> rfl

theorem touchesOnly_of_tagged (hsource : operation.source = .server (some query.params))
    (h : tree.applyTaggedOperation operation query.path = some tree') : tree.TouchesOnly tree' query := by
  intro other hne
  rcases viewOf_applyTaggedOperation h with ⟨_, rfl⟩ | ⟨syncPoint, syncPoint', hvalue, happly, hviews⟩
  · rfl
  · rw [hviews]
    split_ifs with hpath
    · have hparams : other.params ≠ query.params := fun hparams => hne (FQuerySpec.ext hpath hparams)
      rw [FSyncPoint.viewFor_applyOperation_tagged hsource happly hparams, viewOf, hpath, hvalue, Option.bind_some]
    · rfl

theorem touchesOnly_listenComplete_iff {source : FOperationSource (FQueryParams K V)} {relativePath : FPath K}
    (h : tree.applyTaggedOperation (.listenComplete source relativePath) query.path = some tree') :
    tree.TouchesOnly tree' query ↔ tree.OthersSettled query relativePath := by
  rcases viewOf_applyTaggedOperation h with ⟨hnone, rfl⟩ | ⟨syncPoint, syncPoint', hvalue, happly, hviews⟩
  · refine iff_of_true (fun _ _ => rfl) fun other _ hpath view hview => ?_
    rw [viewOf, hpath, hnone] at hview
    cases hview
  · have hother : ∀ other : FQuerySpec K V, other.path = query.path →
        tree'.viewOf other = (tree.viewOf other).bind fun view =>
          view.applyOperation (.listenComplete source relativePath)
            (tree.pendingWriteTree.childWritesForPath query.path) none := by
      intro other hpath
      rw [hviews, if_pos hpath, FSyncPoint.viewFor_applyOperation_user rfl happly, viewOf, hpath, hvalue,
        Option.bind_some]
    constructor
    · intro htouches other hne hpath view hview
      have hsame := htouches other hne
      rw [hother other hpath, Option.mem_def.mp hview, Option.bind_some] at hsame
      obtain ⟨view', happlied, hcache⟩ := Option.map_eq_some_iff.mp hsame
      exact (FView.settled_iff happlied).mp hcache
    · intro hsettled other hne
      by_cases hpath : other.path = query.path
      · rw [hother other hpath]
        cases hview : tree.viewOf other with
        | none => rfl
        | some view =>
            have hsync : syncPoint.viewFor other.params = some view := by
              rwa [viewOf, hpath, hvalue, Option.bind_some] at hview
            obtain ⟨view', happlied⟩ := Option.isSome_iff_exists.mp
              (FSyncPoint.isSome_of_applyOperation_user rfl happly hsync)
            rw [Option.bind_some, happlied, Option.map_some, Option.map_some,
              (FView.settled_iff happlied).mpr (hsettled other hne hpath view hview)]
      · rw [hviews, if_neg hpath]

/-- An operation under the tag of a query leaves the caches of all other views as they are, exactly if
it is no completed listen that another view of the path could gain from. -/
theorem touchesOnly_iff {operation : SyncTreeOperation K V} (htag : tree.tagToQueryMap tagId = some query)
    (hoperation : operation.IsTagged tagId) (hperform : tree.perform operation = some tree') :
    tree.TouchesOnly tree' query ↔ ∀ path, operation = .applyTaggedListenComplete path tagId →
      tree.OthersSettled query (FPath.relativePath query.path path) := by
  cases hoperation with
  | overwrite path newData =>
      simp only [perform, applyTaggedQueryOverwriteAtPath, applyToTaggedQuery, htag] at hperform
      exact iff_of_true (touchesOnly_of_tagged rfl hperform) fun _ h => by cases h
  | merge path changedChildren =>
      simp only [perform, applyTaggedQueryMergeAtPath, applyToTaggedQuery, htag] at hperform
      exact iff_of_true (touchesOnly_of_tagged rfl hperform) fun _ h => by cases h
  | listenComplete path =>
      simp only [perform, applyTaggedListenCompleteAtPath, applyToTaggedQuery, htag] at hperform
      rw [touchesOnly_listenComplete_iff hperform]
      constructor
      · rintro hsettled _ ⟨⟩
        exact hsettled
      · exact fun hsettled => hsettled path rfl

def firstChild : FQuerySpec String Int := ⟨["a"], ⟨.priority, some (1, true), none, none⟩⟩

def lastChild : FQuerySpec String Int := ⟨["a"], ⟨.priority, some (1, false), none, none⟩⟩

/-- The first and the last child at `a`, in two views under the tags 1 and 2. -/
def firstAndLast : FSyncTree String Int :=
  (initial.run [.addEventRegistration (.handle 0) firstChild none,
    .addEventRegistration (.handle 1) lastChild none]).getD initial

theorem reachable_firstAndLast : firstAndLast.Reachable := Reachable.initial.run (by decide)

/-- The first child is replaced under its tag. -/
def replaceFirst : SyncTreeOperation String Int := .applyTaggedQueryOverwrite ["a"] (.leaf 1 .empty) 1

theorem touchesOnly_iff_replaceFirst :
    firstAndLast.TouchesOnly ((firstAndLast.perform replaceFirst).get (by decide)) firstChild ↔
      ∀ path, replaceFirst = .applyTaggedListenComplete path 1 →
        firstAndLast.OthersSettled firstChild (FPath.relativePath firstChild.path path) :=
  touchesOnly_iff (by decide) (.overwrite ["a"] (.leaf 1 .empty)) (Option.some_get _).symm

/-- The listen for the first child completes, and nothing is known of the last one. -/
theorem touchesOnly_fails_firstAndLast :
    ¬∀ tree : FSyncTree String Int, tree.Reachable → ∀ (tagId : Int) (query : FQuerySpec String Int),
      tree.tagToQueryMap tagId = some query → ∀ operation : SyncTreeOperation String Int,
        operation.IsTagged tagId → ∀ tree', tree.perform operation = some tree' →
          tree.TouchesOnly tree' query := by
  intro hall
  have hsame := hall firstAndLast reachable_firstAndLast 1 firstChild (by decide) _
    (.listenComplete ["a"]) _ (Option.some_get (by decide)).symm lastChild (by decide)
  have hcomplete := congrArg
    (Option.map fun viewCache : FViewCache String Int => viewCache.cachedServerSnap.isFullyInitialized) hsame
  exact absurd hcomplete (by decide)

end FSyncTree

end FirebaseSwift.Database
