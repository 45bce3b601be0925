import FirebaseSwift.Database.DistinctViews

/-! Which queries have a view after a registration and after a removal. The sync points stay well formed,
and the removed queries of a removal are the filtered queries whose views go, and the default query if
the path was complete before and is not any more. -/

namespace FirebaseSwift.Database

variable {K V : Type} [DatabaseKey K] [DatabaseValue V]

namespace FSyncPoint

variable {path : FPath K} {syncPoint : FSyncPoint K V} {query other : FQuerySpec K V}

/-! ### Registrations -/

variable {params : FQueryParams K V} {view : FView K V}

theorem mem_of_viewFor (h : syncPoint.viewFor params = some view) : (params, view) ∈ syncPoint.views :=
  SortedDictionary.mem_of_get h

theorem viewFor_eq_none_iff : syncPoint.viewFor params = none ↔ ∀ entry ∈ syncPoint.views, entry.1 ≠ params :=
  SortedDictionary.get_eq_none_iff

theorem map_fst_replace (params : FQueryParams K V) (view : FView K V)
    (views : List (FQueryParams K V × FView K V)) :
    (views.map fun entry => if entry.1 = params then (params, view) else entry).map Prod.fst =
      views.map Prod.fst := by
  rw [List.map_map]
  refine List.map_congr_left fun entry _ => ?_
  by_cases hparams : entry.1 = params <;> simp [hparams]

theorem WellFormed.setView (h : syncPoint.WellFormed path) (hview : view.query = ⟨path, params⟩) :
    (syncPoint.setView params view).WellFormed path := by
  rw [FSyncPoint.setView]
  split_ifs with hsome
  · refine ⟨by rw [map_fst_replace]; exact h.nodup, fun entry hmem => ?_⟩
    obtain ⟨old, hold, rfl⟩ := List.mem_map.mp hmem
    by_cases hparams : old.1 = params
    · rw [if_pos hparams]
      exact hview
    · rw [if_neg hparams]
      exact h.query_eq old hold
  · have hnone : syncPoint.viewFor params = none := by simpa using hsome
    constructor
    · rw [List.map_append, List.nodup_append]
      refine ⟨h.nodup, List.nodup_singleton _, fun old hold new hnew heq => ?_⟩
      obtain ⟨entry, hentry, rfl⟩ := List.mem_map.mp hold
      rw [List.map_singleton, List.mem_singleton] at hnew
      exact viewFor_eq_none_iff.mp hnone entry hentry (heq.trans hnew)
    · intro entry hmem
      rcases List.mem_append.mp hmem with hold | hnew
      · exact h.query_eq entry hold
      · rw [List.mem_singleton] at hnew
        subst hnew
        exact hview

theorem viewExistsForQuery_setView : (syncPoint.setView params view).viewExistsForQuery other = true ↔
      other.params = params ∨ syncPoint.viewExistsForQuery other = true := by
  have hkeys : ∀ syncPoint : FSyncPoint K V, syncPoint.viewExistsForQuery other = true ↔
      other.params ∈ syncPoint.views.map Prod.fst := fun syncPoint => by
    rw [viewExistsForQuery_iff, List.mem_map]
  rw [hkeys, hkeys, FSyncPoint.setView]
  split_ifs with hsome
  · rw [map_fst_replace]
    obtain ⟨old, hold⟩ := Option.isSome_iff_exists.mp hsome
    have hmem : params ∈ syncPoint.views.map Prod.fst := List.mem_map.mpr ⟨_, mem_of_viewFor hold, rfl⟩
    constructor
    · exact Or.inr
    · rintro (rfl | hother)
      · exact hmem
      · exact hother
  · rw [List.map_append, List.mem_append, List.map_singleton, List.mem_singleton, or_comm]

theorem WellFormed.addToExistingView (h : syncPoint.WellFormed path)
    (registration : FEventRegistration) (query : FQuerySpec K V) :
    (syncPoint.addToExistingView registration query).WellFormed path := by
  rw [FSyncPoint.addToExistingView]
  cases hview : syncPoint.viewFor query.params with
  | none => exact h
  | some view => exact h.setView (h.query_eq _ (mem_of_viewFor hview))

variable (registration : FEventRegistration)

theorem viewExistsForQuery_addToExistingView :
    (syncPoint.addToExistingView registration query).viewExistsForQuery other =
      syncPoint.viewExistsForQuery other := by
  rw [addToExistingView]
  cases hview : syncPoint.viewFor query.params with
  | none => rfl
  | some view =>
      refine Bool.eq_iff_iff.mpr (viewExistsForQuery_setView.trans ?_)
      refine ⟨?_, Or.inr⟩
      rintro (hparams | hexists)
      · rw [viewExistsForQuery, hparams, hview]
        rfl
      · exact hexists

/-! ### Removals -/

variable (matcher : FEventRegistrationMatcher)

@[simp] theorem stripped_fst (entry : FQueryParams K V × FView K V) :
    (stripped matcher query entry).1 = entry.1 := by
  unfold stripped
  split_ifs <;> rfl

@[simp] theorem query_stripped (entry : FQueryParams K V × FView K V) :
    (stripped matcher query entry).2.query = entry.2.query := by
  unfold stripped
  split_ifs <;> rfl

theorem WellFormed.remaining (h : syncPoint.WellFormed path) :
    (syncPoint.remaining matcher query).WellFormed path := by
  constructor
  · have hkeys : (syncPoint.views.map (stripped matcher query)).map Prod.fst =
        syncPoint.views.map Prod.fst := by
      rw [List.map_map]
      exact List.map_congr_left fun entry _ => stripped_fst matcher entry
    refine List.Nodup.sublist ?_ (hkeys ▸ h.nodup)
    exact List.filter_sublist.map _
  · intro entry hmem
    obtain ⟨old, hold, rfl⟩ := List.mem_map.mp (List.mem_of_mem_filter hmem)
    rw [query_stripped, stripped_fst]
    exact h.query_eq old hold

theorem viewExistsForQuery_remaining : (syncPoint.remaining matcher query).viewExistsForQuery other = true ↔
      ∃ entry ∈ syncPoint.views, entry.1 = other.params ∧ gone query (stripped matcher query entry) = false := by
  rw [viewExistsForQuery_iff, FSyncPoint.remaining]
  constructor
  · rintro ⟨entry, hmem, hparams⟩
    rw [List.mem_filter, List.mem_map] at hmem
    obtain ⟨⟨old, hold, rfl⟩, hgone⟩ := hmem
    exact ⟨old, hold, by rw [← hparams, stripped_fst], by simpa using hgone⟩
  · rintro ⟨old, hold, hparams, hgone⟩
    refine ⟨stripped matcher query old, ?_, by rw [stripped_fst, hparams]⟩
    exact List.mem_filter.mpr ⟨List.mem_map_of_mem hold, by simp [hgone]⟩

theorem viewExistsForQuery_of_remaining (h : (syncPoint.remaining matcher query).viewExistsForQuery other = true) :
    syncPoint.viewExistsForQuery other = true := by
  obtain ⟨entry, hmem, hparams, _⟩ := (viewExistsForQuery_remaining matcher).mp h
  exact viewExistsForQuery_iff.mpr ⟨entry, hmem, hparams⟩

/-- A view is gone if its entry is. -/
theorem WellFormed.gone_iff (h : syncPoint.WellFormed path) :
    (∃ entry ∈ syncPoint.views, entry.1 = other.params ∧ gone query (stripped matcher query entry) = true) ↔
      syncPoint.viewExistsForQuery other = true ∧
        (syncPoint.remaining matcher query).viewExistsForQuery other = false := by
  rw [← Bool.not_eq_true, viewExistsForQuery_remaining, viewExistsForQuery_iff]
  constructor
  · rintro ⟨entry, hmem, hparams, hgone⟩
    refine ⟨⟨entry, hmem, hparams⟩, ?_⟩
    rintro ⟨entry', hmem', hparams', hgone'⟩
    have heq : entry = entry' := List.inj_on_of_nodup_map h.nodup hmem hmem' (hparams.trans hparams'.symm)
    rw [heq, hgone'] at hgone
    cases hgone
  · rintro ⟨⟨entry, hmem, hparams⟩, hnot⟩
    refine ⟨entry, hmem, hparams, ?_⟩
    by_contra hgone
    exact hnot ⟨entry, hmem, hparams, by simpa using hgone⟩

theorem WellFormed.mem_removedQueries (h : syncPoint.WellFormed query.path) :
    other ∈ syncPoint.removedQueries matcher query ↔
      (other.path = query.path ∧ other.loadsAllData = false ∧ syncPoint.viewExistsForQuery other = true ∧
        (syncPoint.remaining matcher query).viewExistsForQuery other = false) ∨
      (other = .defaultQueryAtPath query.path ∧ syncPoint.hasCompleteView = true ∧
        (syncPoint.remaining matcher query).hasCompleteView = false) := by
  rw [removedQueries, List.mem_append]
  refine or_congr ?_ ?_
  · rw [← h.gone_iff matcher, List.mem_map]
    constructor
    · rintro ⟨entry, hmem, rfl⟩
      rw [List.mem_filter, List.mem_map, Bool.and_eq_true] at hmem
      obtain ⟨⟨old, hold, rfl⟩, hgone, hfilters⟩ := hmem
      rw [query_stripped, h.query_eq old hold] at hfilters ⊢
      exact ⟨rfl, by simpa using hfilters, old, hold, rfl, hgone⟩
    · rintro ⟨hpath, hfilters, old, hold, hparams, hgone⟩
      have hquery : old.2.query = other := by
        rw [h.query_eq old hold, hparams, ← hpath]
      refine ⟨stripped matcher query old, ?_, by rw [query_stripped, hquery]⟩
      rw [List.mem_filter, List.mem_map, Bool.and_eq_true, query_stripped, hquery, hfilters]
      exact ⟨⟨old, hold, rfl⟩, hgone, rfl⟩
  · split_ifs with hlast
    · rw [Bool.and_eq_true, Bool.not_eq_true'] at hlast
      simp [hlast]
    · refine iff_of_false List.not_mem_nil ?_
      rintro ⟨_, hbefore, hafter⟩
      exact hlast (by rw [hbefore, hafter]; rfl)

theorem WellFormed.nodup_removedQueries (h : syncPoint.WellFormed query.path) :
    (syncPoint.removedQueries matcher query).Nodup := by
  rw [removedQueries, List.nodup_append]
  refine ⟨?_, ?_, ?_⟩
  · have hnodup : ((syncPoint.views.map (stripped matcher query)).map fun entry => entry.2.query).Nodup := by
      have hqueries : ((syncPoint.views.map (stripped matcher query)).map fun entry => entry.2.query) =
          syncPoint.views.map fun entry => entry.2.query := by
        rw [List.map_map]
        exact List.map_congr_left fun entry _ => query_stripped matcher entry
      rw [hqueries]
      exact h.nodup_queries
    exact hnodup.sublist (List.filter_sublist.map _)
  · split_ifs
    · exact List.nodup_singleton _
    · exact List.nodup_nil
  · intro first hfirst last hlast heq
    obtain ⟨entry, hmem, rfl⟩ := List.mem_map.mp hfirst
    have hfilters := (List.mem_filter.mp hmem).2
    split_ifs at hlast
    · rw [List.mem_singleton.mp hlast] at heq
      rw [heq] at hfilters
      simp [FQuerySpec.loadsAllData, FQuerySpec.defaultQueryAtPath, FQueryParams.loadsAllData,
        FQueryParams.defaultInstance] at hfilters
    · cases hlast

/-- The path is not complete any more. -/
theorem WellFormed.any_removedQueries (h : syncPoint.WellFormed query.path) :
    ((syncPoint.removedQueries matcher query).any fun removed => removed.loadsAllData) = true ↔
      syncPoint.hasCompleteView = true ∧
        (syncPoint.remaining matcher query).hasCompleteView = false := by
  rw [List.any_eq_true]
  constructor
  · rintro ⟨removed, hmem, hloads⟩
    rcases (h.mem_removedQueries matcher).mp hmem with ⟨_, hfilters, _⟩ | ⟨_, hlast⟩
    · rw [hloads] at hfilters
      cases hfilters
    · exact hlast
  · intro hlast
    exact ⟨_, (h.mem_removedQueries matcher).mpr (Or.inr ⟨rfl, hlast⟩), rfl⟩

/-- A removal for a filtered query leaves the complete views. -/
theorem WellFormed.loadsAllData_of_any (h : syncPoint.WellFormed query.path)
    (hany : ((syncPoint.removedQueries matcher query).any fun removed => removed.loadsAllData) = true) :
    query.loadsAllData = true := by
  obtain ⟨hbefore, hafter⟩ := (h.any_removedQueries matcher).mp hany
  obtain ⟨complete, hpath, hloads, hexists⟩ := h.hasCompleteView_iff.mp hbefore
  obtain ⟨entry, hmem, hparams⟩ := viewExistsForQuery_iff.mp hexists
  by_contra hfilters
  have hnotReached : removalReaches query entry.1 = false := by
    rw [removalReaches, Bool.or_eq_false_iff, decide_eq_false_iff_not]
    constructor
    · rw [← Bool.not_eq_true]
      exact fun hdefault => hfilters (ListenSets.not_filtered_of_isDefault hdefault)
    · intro heq
      refine hfilters ?_
      rw [FQuerySpec.loadsAllData, ← heq, hparams]
      exact hloads
  have hremains : (syncPoint.remaining matcher query).hasCompleteView = true :=
    (h.remaining matcher).hasCompleteView_iff.mpr ⟨complete, hpath, hloads,
      (viewExistsForQuery_remaining matcher).mpr ⟨entry, hmem, hparams, by
        rw [gone, stripped_fst, hnotReached, Bool.false_and]⟩⟩
  rw [hafter] at hremains
  cases hremains

/-- With all registrations taken, the views that the removal reaches are gone. -/
theorem gone_all (entry : FQueryParams K V × FView K V) :
    gone query (stripped .all query entry) = removalReaches query entry.1 := by
  unfold gone stripped
  by_cases hreaches : removalReaches query entry.1 = true
  · simp [hreaches, FView.isEmpty, FEventRegistration.matches]
  · simp [hreaches]

theorem viewExistsForQuery_remaining_all : (syncPoint.remaining .all query).viewExistsForQuery other = true ↔
      syncPoint.viewExistsForQuery other = true ∧ removalReaches query other.params = false := by
  rw [viewExistsForQuery_remaining, viewExistsForQuery_iff]
  simp only [gone_all]
  constructor
  · rintro ⟨entry, hmem, hparams, hreaches⟩
    exact ⟨⟨entry, hmem, hparams⟩, hparams ▸ hreaches⟩
  · rintro ⟨⟨entry, hmem, hparams⟩, hreaches⟩
    exact ⟨entry, hmem, hparams, hparams ▸ hreaches⟩

/-! ### New views -/

theorem keys_addToExistingView : (syncPoint.addToExistingView registration query).views.map Prod.fst =
      syncPoint.views.map Prod.fst := by
  rw [FSyncPoint.addToExistingView]
  cases hview : syncPoint.viewFor query.params with
  | none => rfl
  | some view =>
      dsimp only
      rw [FSyncPoint.setView, if_pos (by rw [hview]; rfl)]
      exact map_fst_replace _ _ _

variable [QueryFilters K V]

theorem keys_addToNewView (hnew : syncPoint.viewExistsForQuery query = false)
    (registration : FEventRegistration) (writesCache : FWriteTreeRef K V) (serverCache : FCacheNode K V) :
    (syncPoint.addToNewView registration query writesCache serverCache).views.map Prod.fst =
      syncPoint.views.map Prod.fst ++ [query.params] := by
  rw [viewExistsForQuery] at hnew
  rw [FSyncPoint.addToNewView, keys_addToExistingView, FSyncPoint.setView, if_neg (by simp [hnew]),
    List.map_append, List.map_singleton]

theorem query_getView (h : syncPoint.WellFormed query.path) (writesCache : FWriteTreeRef K V)
    (serverCache : FCacheNode K V) : (syncPoint.getView query writesCache serverCache).query = query := by
  rw [getView]
  cases hview : syncPoint.viewFor query.params with
  | none => rfl
  | some view => exact h.query_eq _ (mem_of_viewFor hview)

theorem WellFormed.addToNewView (h : syncPoint.WellFormed query.path)
    (registration : FEventRegistration) (writesCache : FWriteTreeRef K V) (serverCache : FCacheNode K V) :
    (syncPoint.addToNewView registration query writesCache serverCache).WellFormed query.path :=
  (h.setView (query_getView h writesCache serverCache)).addToExistingView registration query

theorem viewExistsForQuery_addToNewView (writesCache : FWriteTreeRef K V) (serverCache : FCacheNode K V) :
    (syncPoint.addToNewView registration query writesCache serverCache).viewExistsForQuery other = true ↔
      other.params = query.params ∨ syncPoint.viewExistsForQuery other = true := by
  rw [addToNewView, viewExistsForQuery_addToExistingView, viewExistsForQuery_setView]

end FSyncPoint

/-! ### Views of the tree -/

namespace FSyncTree

variable {tree : FSyncTree K V} {query other : FQuerySpec K V}

/-- The queries that have a view. -/
def views (tree : FSyncTree K V) : Set (FQuerySpec K V) := viewsOf [] tree.syncPointTree

theorem mem_views_iff : query ∈ tree.views ↔ ∃ syncPoint, tree.syncPointTree.valueAt query.path = some syncPoint ∧
      syncPoint.viewExistsForQuery query = true := by
  constructor
  · rintro ⟨rest, syncPoint, hpath, hvalue, hexists⟩
    rw [List.nil_append] at hpath
    exact ⟨syncPoint, hpath ▸ hvalue, hexists⟩
  · rintro ⟨syncPoint, hvalue, hexists⟩
    exact ⟨query.path, syncPoint, rfl, hvalue, hexists⟩

/-- The sync points are well formed, in a sorted tree. -/
structure Formed (tree : FSyncTree K V) : Prop where
  sorted : tree.syncPointTree.IsSorted
  wellFormed : WellFormedAt [] tree.syncPointTree

omit [DatabaseValue V] in
theorem Formed.at (h : tree.Formed) {path : FPath K} {syncPoint : FSyncPoint K V}
    (hvalue : tree.syncPointTree.valueAt path = some syncPoint) : syncPoint.WellFormed path :=
  h.wellFormed path syncPoint hvalue

omit [DatabaseValue V] in
theorem Formed.getD (h : tree.Formed) (path : FPath K) :
    ((tree.syncPointTree.valueAt path).getD .empty).WellFormed path := by
  cases hvalue : tree.syncPointTree.valueAt path with
  | none => exact .empty path
  | some syncPoint => exact h.at hvalue

theorem Formed.complete_iff (h : tree.Formed) {path : FPath K} :
    ListenSets.Complete tree.views path ↔ ∃ syncPoint, tree.syncPointTree.valueAt path = some syncPoint ∧
      syncPoint.hasCompleteView = true := by
  constructor
  · rintro ⟨complete, hmem, rfl, hloads⟩
    obtain ⟨syncPoint, hvalue, hexists⟩ := mem_views_iff.mp hmem
    exact ⟨syncPoint, hvalue, (h.at hvalue).hasCompleteView_iff.mpr ⟨complete, rfl, hloads, hexists⟩⟩
  · rintro ⟨syncPoint, hvalue, hview⟩
    obtain ⟨complete, rfl, hloads, hexists⟩ := (h.at hvalue).hasCompleteView_iff.mp hview
    exact ⟨complete, mem_views_iff.mpr ⟨syncPoint, hvalue, hexists⟩, rfl, hloads⟩

/-- A sync point set at a path changes the views there only. -/
theorem views_of_valueAt {tree' : FSyncTree K V} {path : FPath K} {syncPoint : Option (FSyncPoint K V)}
    (hvalue : ∀ other, tree'.syncPointTree.valueAt other =
      if other = path then syncPoint else tree.syncPointTree.valueAt other) :
    ListenSets.SameElsewhere path tree.views tree'.views := by
  intro query hne
  rw [mem_views_iff, mem_views_iff, hvalue, if_neg hne]

omit [DatabaseValue V] in
theorem Formed.setRemaining (h : tree.Formed) {path : FPath K} {syncPoint : FSyncPoint K V}
    (hsync : syncPoint.WellFormed path) : (tree.setRemaining path syncPoint).Formed := by
  constructor
  · rw [FSyncTree.setRemaining]
    dsimp only
    split_ifs
    · exact h.sorted.removeValue path
    · exact h.sorted.setValue _ path
  · intro other found hvalue
    rw [valueAt_setRemaining] at hvalue
    split_ifs at hvalue with heq
    · cases hvalue
      rw [List.nil_append, heq]
      exact hsync
    · exact h.wellFormed other found hvalue

theorem mem_views_setRemaining {path : FPath K} {syncPoint : FSyncPoint K V} (hpath : query.path = path) :
    query ∈ (tree.setRemaining path syncPoint).views ↔ syncPoint.viewExistsForQuery query = true := by
  rw [mem_views_iff, valueAt_setRemaining, if_pos hpath]
  split_ifs with hempty
  · refine iff_of_false (by simp) ?_
    rw [FSyncPoint.viewExistsForQuery_iff, List.isEmpty_iff.mp hempty]
    simp
  · simp

/-- What a removal takes away. -/
theorem Formed.viewsRemoved (h : tree.Formed) {syncPoint : FSyncPoint K V}
    (hvalue : tree.syncPointTree.valueAt query.path = some syncPoint) (matcher : FEventRegistrationMatcher) :
    ListenSets.ViewsRemoved query.path tree.views
      (tree.setRemaining query.path (syncPoint.remaining matcher query)).views
      (syncPoint.removedQueries matcher query) := by
  have hsync := h.at hvalue
  have hremaining : (syncPoint.remaining matcher query).WellFormed query.path := hsync.remaining matcher
  have hafter := h.setRemaining hremaining
  have hbefore : ∀ other : FQuerySpec K V, other.path = query.path →
      (other ∈ tree.views ↔ syncPoint.viewExistsForQuery other = true) := by
    intro other hpath
    rw [mem_views_iff, hpath, hvalue]
    simp
  have hremaining : ∀ other : FQuerySpec K V, other.path = query.path →
      (other ∈ (tree.setRemaining query.path (syncPoint.remaining matcher query)).views ↔
        (syncPoint.remaining matcher query).viewExistsForQuery other = true) := fun other hpath =>
    mem_views_setRemaining hpath
  have hcomplete : ListenSets.Complete tree.views query.path ↔ syncPoint.hasCompleteView = true := by
    rw [h.complete_iff, hvalue]
    simp
  have hcomplete' : ListenSets.Complete
      (tree.setRemaining query.path (syncPoint.remaining matcher query)).views query.path ↔
        (syncPoint.remaining matcher query).hasCompleteView = true := by
    rw [hsync.remaining matcher |>.hasCompleteView_iff]
    constructor
    · rintro ⟨complete, hmem, hpath, hloads⟩
      exact ⟨complete, hpath, hloads, (hremaining complete hpath).mp hmem⟩
    · rintro ⟨complete, hpath, hloads, hexists⟩
      exact ⟨complete, (hremaining complete hpath).mpr hexists, hpath, hloads⟩
  have hsame : ListenSets.SameElsewhere query.path tree.views
      (tree.setRemaining query.path (syncPoint.remaining matcher query)).views :=
    views_of_valueAt fun other => valueAt_setRemaining tree query.path other _
  refine ⟨hsame, fun other hmem => ?_, hsync.nodup_removedQueries matcher, fun other => ?_⟩
  · by_cases hpath : other.path = query.path
    · rw [hremaining other hpath] at hmem
      exact (hbefore other hpath).mpr (FSyncPoint.viewExistsForQuery_of_remaining matcher hmem)
    · exact (hsame other hpath).mpr hmem
  · rw [hsync.mem_removedQueries matcher, hcomplete, hcomplete', Bool.not_eq_true]
    refine or_congr ?_ Iff.rfl
    by_cases hpath : other.path = query.path
    · rw [hbefore other hpath, hremaining other hpath, Bool.not_eq_true]
      simp [hpath]
    · refine iff_of_false (fun hother => hpath hother.1) ?_
      rintro ⟨_, hmem, hnot⟩
      exact hnot ((hsame other hpath).mp hmem)

omit [DatabaseValue V] in
theorem Formed.setRegistered (h : tree.Formed) {path : FPath K} {syncPoint : FSyncPoint K V}
    (hsync : syncPoint.WellFormed path) : (tree.setRegistered path syncPoint).Formed := by
  refine ⟨(h.sorted.setValue _ path).setValue _ path, fun other found hvalue => ?_⟩
  rw [valueAt_setRegistered] at hvalue
  split_ifs at hvalue with heq
  · cases hvalue
    rw [List.nil_append, heq]
    exact hsync
  · exact h.wellFormed other found hvalue

variable [QueryFilters K V]

theorem Formed.registered (h : tree.Formed) (eventRegistration : FEventRegistration)
    (query : FQuerySpec K V) (persistenceServerCache : Option (FCacheNode K V)) :
    (tree.registered eventRegistration query persistenceServerCache).WellFormed query.path := by
  unfold FSyncTree.registered
  dsimp only
  split_ifs
  · exact (h.getD query.path).addToExistingView eventRegistration query
  · exact (h.getD query.path).addToNewView eventRegistration _ _

/-- A registration leaves a view for its query. -/
theorem mem_views_addEventRegistration (eventRegistration : FEventRegistration)
    (persistenceServerCache : Option (FCacheNode K V)) :
    other ∈ (tree.addEventRegistration eventRegistration query persistenceServerCache).views ↔
      other = query ∨ other ∈ tree.views := by
  rw [mem_views_iff, mem_views_iff, valueAt_addEventRegistration]
  by_cases hpath : other.path = query.path
  · have hexists : (tree.registered eventRegistration query persistenceServerCache).viewExistsForQuery
        other = true ↔ other.params = query.params ∨
          ((tree.syncPointTree.valueAt query.path).getD .empty).viewExistsForQuery other = true := by
      unfold FSyncTree.registered
      dsimp only
      split_ifs with hold
      · rw [FSyncPoint.viewExistsForQuery_addToExistingView]
        refine ⟨Or.inr, ?_⟩
        rintro (hparams | hexists)
        · rwa [FSyncPoint.viewExistsForQuery, hparams]
        · exact hexists
      · exact FSyncPoint.viewExistsForQuery_addToNewView eventRegistration _ _
    have hquery : other = query ↔ other.params = query.params := by
      rw [FQuerySpec.ext_iff]
      simp [hpath]
    rw [if_pos hpath, hquery, hpath]
    simp only [Option.some.injEq, exists_eq_left', hexists]
    cases tree.syncPointTree.valueAt query.path with
    | none => simp [FSyncPoint.viewExistsForQuery, FSyncPoint.viewFor, FSyncPoint.empty]
    | some syncPoint => simp
  · have hne : other ≠ query := fun heq => hpath (by rw [heq])
    simp [hpath, hne]

end FSyncTree

end FirebaseSwift.Database
