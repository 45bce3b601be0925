import FirebaseSwift.Database.RegisteredViews
import FirebaseSwift.Database.SyncTreeRuns
import FirebaseSwift.Library.AcquireLog

/-! Registrations and removals in any order, and cancels of listens that the provider ends itself. The
active listens are exactly those that should be, as long as no removal of a view is misled by the first
sync point on the path, and no cancel leaves a complete view behind. -/

namespace FirebaseSwift.Database

open AcquireLog ListenSets

variable {K V : Type} [DatabaseKey K] [DatabaseValue V]

/-! ### The listens of the provider -/

def ListenCall.event : ListenCall K V → Event (FQuerySpec K V) (Option Int)
  | .startListening query tagId => .acquire query tagId
  | .stopListening query tagId => .release query tagId
  | .ended query tagId => .release query tagId

namespace FSyncTree

/-- The active listens with their tags. There is no result if a listen was started that was active, or
one was stopped that was not. -/
def activeListens (tree : FSyncTree K V) : Option (FQuerySpec K V → Option (Option Int)) :=
  replay (fun _ => none) (tree.listenCalls.map ListenCall.event)

/-- The active listens are those of the queries that should be listened to. -/
def ListensExact (tree : FSyncTree K V) : Prop :=
  ∃ active, tree.activeListens = some active ∧
    ∀ query, (active query).isSome = true ↔ query ∈ Listened tree.views

inductive ListenOperation (K V : Type) [DatabaseKey K] where
  | add (eventRegistration : FEventRegistration) (query : FQuerySpec K V)
      (persistenceServerCache : Option (FCacheNode K V))
  | remove (matcher : FEventRegistrationMatcher) (query : FQuerySpec K V)
  | cancel (query : FQuerySpec K V)

/-- The provider has ended the listen for a query. -/
def listenEnded (tree : FSyncTree K V) (query : FQuerySpec K V) : FSyncTree K V :=
  { tree with
    listenCalls := tree.listenCalls ++ [.ended (queryForListening query) (tree.tagFor query)] }

/-- A cancel comes for an active listen. -/
def performListen [QueryFilters K V] (tree : FSyncTree K V) :
    ListenOperation K V → Option (FSyncTree K V)
  | .add eventRegistration query persistenceServerCache =>
      some (tree.addEventRegistration eventRegistration query persistenceServerCache)
  | .remove matcher query => tree.removeEventRegistration matcher query false
  | .cancel query =>
      if tree.activeListens.bind (fun active => active (queryForListening query)) =
          some (tree.tagFor query) then
        (tree.listenEnded query).removeEventRegistration .all query true
      else none

/-- The first sync point on the path has a complete view, or none has. -/
def FirstDecides (tree : FSyncTree K V) (path : FPath K) : Prop :=
  (∃ found ∈ (tree.syncPointTree.valuesOnPath path).head?, found.2.hasCompleteView = true) ∨
    ∀ found ∈ tree.syncPointTree.valuesOnPath path, found.2.hasCompleteView = false

/-- The views that remain at the path are not complete. -/
def OnlyComplete (syncPoint : FSyncPoint K V) (query : FQuerySpec K V) : Prop :=
  syncPoint.viewExistsForQuery query = true ∧
    ∀ entry ∈ syncPoint.views, entry.2.query.loadsAllData = true → entry.1 = query.params

/-- Where an operation keeps the listens exact. -/
def Conforms (tree : FSyncTree K V) : ListenOperation K V → Prop
  | .add _ _ _ => True
  | .remove matcher query =>
      ∀ syncPoint ∈ tree.syncPointTree.valueAt query.path,
        syncPoint.removedQueries matcher query = [] ∨
          (tree.setRemaining query.path (syncPoint.remaining matcher query)).FirstDecides query.path
  | .cancel query =>
      query.loadsAllData = true → query.isDefault = false →
        ∃ syncPoint ∈ tree.syncPointTree.valueAt query.path, OnlyComplete syncPoint query

instance (tree : FSyncTree K V) (path : FPath K) : Decidable (tree.FirstDecides path) := by
  unfold FirstDecides
  infer_instance

instance (syncPoint : FSyncPoint K V) (query : FQuerySpec K V) :
    Decidable (OnlyComplete syncPoint query) := by
  unfold OnlyComplete
  infer_instance

instance (tree : FSyncTree K V) (operation : ListenOperation K V) :
    Decidable (tree.Conforms operation) := by
  cases operation <;> unfold Conforms <;> infer_instance

/-! ### Paths with a complete view -/

variable {tree : FSyncTree K V} {path : FPath K}

theorem Formed.covered_iff (h : tree.Formed) : Covered tree.views path ↔
      ∃ found ∈ tree.syncPointTree.valuesOnPath path, found.2.hasCompleteView = true := by
  constructor
  · rintro ⟨above, hle, hcomplete⟩
    obtain ⟨syncPoint, hvalue, hview⟩ := h.complete_iff.mp hcomplete
    exact ⟨(above, syncPoint), FImmutableTree.mem_valuesOnPath.mpr ⟨hle, hvalue⟩, hview⟩
  · rintro ⟨⟨above, syncPoint⟩, hmem, hview⟩
    obtain ⟨hle, hvalue⟩ := FImmutableTree.mem_valuesOnPath.mp hmem
    exact ⟨above, hle, h.complete_iff.mpr ⟨syncPoint, hvalue, hview⟩⟩

theorem Formed.foundAncestorDefaultView_iff (h : tree.Formed) :
    tree.foundAncestorDefaultView path = true ↔ Covered tree.views path := by
  rw [foundAncestorDefaultView, FImmutableTree.forEachOn_eq, FImmutableTree.visitWhile_any, List.any_eq_true,
    h.covered_iff]

omit [DatabaseValue V] in
theorem covered_eq (tree : FSyncTree K V) (path : FPath K) : tree.covered path =
      (tree.syncPointTree.valuesOnPath path).head?.any fun found => found.2.hasCompleteView := by
  rw [covered, FImmutableTree.find_eq]
  cases (tree.syncPointTree.valuesOnPath path).head? <;> rfl

theorem Formed.covered_of_covered (h : tree.Formed) (hcovered : tree.covered path = true) :
    Covered tree.views path := by
  rw [FSyncTree.covered_eq] at hcovered
  obtain ⟨found, hhead, hview⟩ := (Option.any_eq_true _ _).mp hcovered
  exact h.covered_iff.mpr ⟨found, List.mem_of_head? hhead, hview⟩

/-- Where the first sync point decides, the removal is not misled. -/
theorem FirstDecides.covered_iff (h : tree.FirstDecides path) (hformed : tree.Formed) :
    tree.covered path = true ↔ Covered tree.views path := by
  refine ⟨hformed.covered_of_covered, fun hcovered => ?_⟩
  rcases h with ⟨found, hhead, hview⟩ | hnone
  · rw [FSyncTree.covered_eq, Option.any_eq_true]
    exact ⟨found, hhead, hview⟩
  · obtain ⟨found, hmem, hview⟩ := hformed.covered_iff.mp hcovered
    rw [hnone found hmem] at hview
    cases hview

/-! ### The listens that are due -/

open Classical in
/-- The listens that are due, with the tags of their queries. -/
noncomputable def dueListens (tree : FSyncTree K V) : FQuerySpec K V → Option (Option Int) :=
  fun query => if query ∈ Listened tree.views then some (tree.tagFor query) else none

/-- The invariant: only filtered queries have tags, and the active listens are those that are due. -/
structure Tracked (tree : FSyncTree K V) : Prop where
  formed : tree.Formed
  untagged : ∀ query : FQuerySpec K V, query.loadsAllData = true → tree.tagFor query = none
  active : tree.activeListens = some tree.dueListens

theorem Tracked.exact (h : tree.Tracked) : tree.ListensExact := by
  refine ⟨_, h.active, fun query => ?_⟩
  unfold dueListens
  split_ifs with hquery <;> simp [hquery]

theorem dueListens_of_mem {query : FQuerySpec K V} (h : query ∈ Listened tree.views) :
    tree.dueListens query = some (tree.tagFor query) := if_pos h

theorem dueListens_of_not_mem {query : FQuerySpec K V} (h : query ∉ Listened tree.views) :
    tree.dueListens query = none := if_neg h

omit [DatabaseValue V] in
theorem tagFor_queryForListening
    (huntagged : ∀ query : FQuerySpec K V, query.loadsAllData = true → tree.tagFor query = none)
    (query : FQuerySpec K V) : tree.tagFor (queryForListening query) = tree.tagFor query := by
  cases hloads : query.loadsAllData with
  | false => rw [queryForListening_of_filtered hloads]
  | true => rw [queryForListening_of_complete hloads, huntagged _ hloads, huntagged _ rfl]

/-- Later calls go on with the listens that are active. -/
theorem activeListens_append {tree' : FSyncTree K V} {calls : List (ListenCall K V)}
    {active : FQuerySpec K V → Option (Option Int)} (hactive : tree.activeListens = some active)
    (hcalls : tree'.listenCalls = tree.listenCalls ++ calls) :
    tree'.activeListens = replay active (calls.map ListenCall.event) := by
  rw [activeListens, hcalls, List.map_append]
  exact replay_append_of_eq hactive

/-! ### Listens of a subtree -/

omit [DatabaseValue V] in
theorem Formed.subtree (h : tree.Formed) (path : FPath K) : WellFormedAt path (tree.syncPointTree.subtree path) := by
  intro rest syncPoint hvalue
  rw [FImmutableTree.valueAt_subtree] at hvalue
  exact h.wellFormed _ _ hvalue

theorem mem_viewsOf_subtree {query : FQuerySpec K V} (hle : path <+: query.path) :
    query ∈ tree.views ↔ query ∈ viewsOf path (tree.syncPointTree.subtree path) := by
  rw [mem_views_iff]
  obtain ⟨rest, hrest⟩ := hle
  constructor
  · rintro ⟨syncPoint, hvalue, hexists⟩
    exact ⟨rest, syncPoint, hrest.symm, by rw [FImmutableTree.valueAt_subtree, hrest, hvalue], hexists⟩
  · rintro ⟨rest', syncPoint, hrest', hvalue, hexists⟩
    rw [FImmutableTree.valueAt_subtree, ← hrest'] at hvalue
    exact ⟨syncPoint, hvalue, hexists⟩

/-- With no complete path above, the listens of a subtree are those of the tree below the path. -/
theorem Formed.mem_listenedQueries_subtree (h : tree.Formed) (hshadowed : ¬Shadowed tree.views path)
    {query : FQuerySpec K V} : query ∈ listenedQueries (tree.syncPointTree.subtree path) ↔
      path <+: query.path ∧ query ∈ Listened tree.views := by
  rw [mem_listenedQueries (h.sorted.subtree path) (h.subtree path)]
  have hiff : path <+: query.path → (query ∈ Listened tree.views ↔
      query ∈ Listened (viewsOf path (tree.syncPointTree.subtree path))) :=
    listened_iff_of_below (fun _ => mem_viewsOf_subtree) hshadowed not_shadowed_viewsOf
  constructor
  · intro hquery
    have hle := prefix_of_mem_listened hquery
    exact ⟨hle, (hiff hle).mpr hquery⟩
  · rintro ⟨hle, hquery⟩
    exact (hiff hle).mp hquery

theorem Formed.nodup_listenedQueries_subtree (h : tree.Formed) (path : FPath K) :
    (listenedQueries (tree.syncPointTree.subtree path)).Nodup :=
  nodup_listenedQueries (h.sorted.subtree path) (h.subtree path)

omit [DatabaseValue V] in
/-- The starts of a list of queries. -/
theorem map_startCall (huntagged : ∀ query : FQuerySpec K V, query.loadsAllData = true → tree.tagFor query = none)
    (queries : List (FQuerySpec K V)) : (queries.map tree.startCall).map ListenCall.event =
      (queries.map queryForListening).map fun query => .acquire query (tree.tagFor query) := by
  rw [List.map_map, List.map_map]
  refine List.map_congr_left fun query _ => ?_
  simp only [Function.comp_apply, startCall, ListenCall.event, tagFor_queryForListening huntagged]

omit [DatabaseValue V] in
theorem map_stopCall (huntagged : ∀ query : FQuerySpec K V, query.loadsAllData = true → tree.tagFor query = none)
    (queries : List (FQuerySpec K V)) : (queries.map tree.stopCall).map ListenCall.event =
      (queries.map queryForListening).map fun query => .release query (tree.tagFor query) := by
  rw [List.map_map, List.map_map]
  refine List.map_congr_left fun query _ => ?_
  simp only [Function.comp_apply, stopCall, ListenCall.event, tagFor_queryForListening huntagged]

/-! ### Registrations -/

section Registrations

variable {query : FQuerySpec K V}

theorem viewExists_iff_mem_views :
    ((tree.syncPointTree.valueAt query.path).getD .empty).viewExistsForQuery query = true ↔
      query ∈ tree.views := by
  rw [mem_views_iff]
  cases tree.syncPointTree.valueAt query.path with
  | none => simp [FSyncPoint.viewExistsForQuery, FSyncPoint.viewFor, FSyncPoint.empty]
  | some syncPoint => simp

/-- The calls for a new complete view: its listen replaces those below. -/
theorem Tracked.replay_setupCalls_complete (h : tree.Tracked) {tree' : FSyncTree K V}
    (hnot : ¬Covered tree.views query.path) (hloads : query.loadsAllData = true) (htags : tree'.tagFor = tree.tagFor)
    (hfold : ((tree'.syncPointTree.subtree query.path).fold queriesToStopBlock []).map queryForListening =
      listenedQueries (tree.syncPointTree.subtree query.path))
    (hsame : SameElsewhere query.path tree.views tree'.views) (hcomplete : Complete tree'.views query.path) :
    replay tree.dueListens ((tree'.setupCalls query).map ListenCall.event) = some tree'.dueListens := by
  have huntagged : ∀ query : FQuerySpec K V, query.loadsAllData = true → tree'.tagFor query = none := by
    rw [htags]
    exact h.untagged
  have hnew : (.defaultQueryAtPath query.path : FQuerySpec K V) ∉ Listened tree.views := fun hmem =>
    hnot (ListenSets.covered_iff.mpr (Or.inl (default_mem_listened_iff.mp hmem).1))
  have hlistened : ∀ other, other ∈ Listened tree'.views ↔ other = .defaultQueryAtPath query.path ∨
      other ∈ Listened tree.views ∧ ¬query.path <+: other.path := fun other =>
    listened_iff_of_complete hsame hnot hcomplete
  have hbelow : ∀ other, other ∈ listenedQueries (tree.syncPointTree.subtree query.path) ↔
      query.path <+: other.path ∧ other ∈ Listened tree.views := fun other =>
    h.formed.mem_listenedQueries_subtree
      fun hshadowed => hnot (ListenSets.covered_iff.mpr (Or.inr hshadowed))
  rw [setupCalls, huntagged query hloads, if_neg (by simp), List.map_cons, map_stopCall huntagged, hfold,
    startCall, ListenCall.event, queryForListening_of_complete hloads, huntagged query hloads,
    replay_cons, Event.apply, if_pos (dueListens_of_not_mem hnew), Option.bind_some,
    replay_releases _ (h.formed.nodup_listenedQueries_subtree query.path)]
  · congr 1
    funext other
    by_cases hdefault : other = .defaultQueryAtPath query.path
    · subst hdefault
      have hnotBelow := mt (hbelow _).mp fun hmem => hnew hmem.2
      rw [if_neg hnotBelow, Function.update_self, dueListens_of_mem ((hlistened _).mpr (Or.inl rfl)),
        huntagged _ rfl]
    · have hother : other ∈ Listened tree'.views ↔
          other ∈ Listened tree.views ∧ ¬query.path <+: other.path := by
        rw [hlistened, or_iff_right hdefault]
      rw [Function.update_of_ne hdefault]
      by_cases hmem : other ∈ Listened tree.views
      · by_cases hle : query.path <+: other.path
        · rw [if_pos ((hbelow other).mpr ⟨hle, hmem⟩), dueListens_of_not_mem fun hmem' => (hother.mp hmem').2 hle]
        · rw [if_neg fun hmem' => hle ((hbelow other).mp hmem').1, dueListens_of_mem hmem,
            dueListens_of_mem (hother.mpr ⟨hmem, hle⟩), htags]
      · rw [if_neg fun hmem' => hmem ((hbelow other).mp hmem').2, dueListens_of_not_mem hmem,
          dueListens_of_not_mem fun hmem' => hmem (hother.mp hmem').1]
  · intro other hmem
    have hother := ((hbelow other).mp hmem).2
    have hne : other ≠ .defaultQueryAtPath query.path := fun heq => hnew (heq ▸ hother)
    rw [Function.update_of_ne hne, dueListens_of_mem hother, htags]

/-- The call for a new filtered view: its listen starts under the new tag. -/
theorem replay_setupCalls_filtered {tree' : FSyncTree K V}
    (hnew : query ∉ tree.views) (hnot : ¬Covered tree.views query.path)
    (hfilters : query.loadsAllData = false) {tag : Int} (htag : tree'.tagFor query = some tag)
    (htags : ∀ other, other ≠ query → tree'.tagFor other = tree.tagFor other)
    (hviews : ∀ other, other ∈ tree'.views ↔ other = query ∨ other ∈ tree.views) :
    replay tree.dueListens ((tree'.setupCalls query).map ListenCall.event) = some tree'.dueListens := by
  have hcomplete : ∀ path, Complete tree.views path ↔ Complete tree'.views path := by
    intro path
    refine ⟨Complete.mono fun other hother => (hviews other).mpr (Or.inr hother), ?_⟩
    rintro ⟨complete, hmem, hpath, hloads⟩
    rcases (hviews complete).mp hmem with rfl | hmem
    · rw [hloads] at hfilters
      cases hfilters
    · exact ⟨complete, hmem, hpath, hloads⟩
  have hnotListened : query ∉ Listened tree.views := by
    rintro (⟨hdefault, _⟩ | ⟨_, hmem, _⟩)
    · rw [not_filtered_of_isDefault hdefault] at hfilters
      cases hfilters
    · exact hnew hmem
  have hlistened : ∀ other, other ∈ Listened tree'.views ↔ other = query ∨ other ∈ Listened tree.views := by
    intro other
    rw [listened_iff_of_complete_iff hcomplete, hviews]
    constructor
    · rintro (⟨hmem, _⟩ | ⟨hother, rfl | hmem, hnotCovered⟩)
      · exact Or.inr hmem
      · exact Or.inl rfl
      · exact Or.inr (Or.inr ⟨hother, hmem, hnotCovered⟩)
    · rintro (rfl | hmem)
      · exact Or.inr ⟨hfilters, Or.inl rfl, hnot⟩
      · rcases hmem with hdefault | ⟨hother, hview, hnotCovered⟩
        · exact Or.inl ⟨Or.inl hdefault, hdefault.1⟩
        · exact Or.inr ⟨hother, Or.inr hview, hnotCovered⟩
  rw [setupCalls, htag, Option.isSome_some, if_pos rfl, List.map_singleton, startCall, ListenCall.event,
    queryForListening_of_filtered hfilters, htag, replay_cons, Event.apply,
    if_pos (dueListens_of_not_mem hnotListened), Option.bind_some, replay_nil]
  congr 1
  funext other
  by_cases hother : other = query
  · subst hother
    rw [Function.update_self, dueListens_of_mem ((hlistened _).mpr (Or.inl rfl)), htag]
  · have hsame : other ∈ Listened tree'.views ↔ other ∈ Listened tree.views := by
      rw [hlistened, or_iff_right hother]
    rw [Function.update_of_ne hother]
    by_cases hmem : other ∈ Listened tree.views
    · rw [dueListens_of_mem hmem, dueListens_of_mem (hsame.mpr hmem), htags other hother]
    · rw [dueListens_of_not_mem hmem, dueListens_of_not_mem (mt hsame.mp hmem)]

theorem views_setupListenerOnQuery (tree : FSyncTree K V) :
    (tree.setupListenerOnQuery query).views = tree.views := by
  rw [setupListenerOnQuery_eq]
  rfl

/-- A listener is set up for a tree that has the view, but whose calls do not know it. -/
theorem Tracked.setupListenerOnQuery (h : tree.Tracked) {tree' : FSyncTree K V} (hformed : tree'.Formed)
    (huntagged : ∀ query : FQuerySpec K V, query.loadsAllData = true → tree'.tagFor query = none)
    (hcalls : tree'.listenCalls = tree.listenCalls)
    (hreplay : replay tree.dueListens ((tree'.setupCalls query).map ListenCall.event) =
      some tree'.dueListens) : (tree'.setupListenerOnQuery query).Tracked := by
  rw [setupListenerOnQuery_eq]
  refine ⟨⟨hformed.sorted, hformed.wellFormed⟩, huntagged, ?_⟩
  exact (activeListens_append h.active (congrArg (· ++ tree'.setupCalls query) hcalls)).trans hreplay

/-- Tags of queries that are not listened to do not matter. -/
theorem Tracked.of_sameListens (h : tree.Tracked) {tree' : FSyncTree K V} (hformed : tree'.Formed)
    (huntagged : ∀ query : FQuerySpec K V, query.loadsAllData = true → tree'.tagFor query = none)
    (hcalls : tree'.listenCalls = tree.listenCalls) (hlistened : Listened tree'.views = Listened tree.views)
    (htags : ∀ query ∈ Listened tree.views, tree'.tagFor query = tree.tagFor query) : tree'.Tracked := by
  refine ⟨hformed, huntagged, ?_⟩
  rw [activeListens, hcalls]
  refine h.active.trans (congrArg some (funext fun query => ?_))
  unfold dueListens
  rw [hlistened]
  split_ifs with hquery
  · rw [htags query hquery]
  · rfl

omit [DatabaseValue V] in
theorem Formed.addTag (h : tree.Formed) (query : FQuerySpec K V) [DatabaseValue V] : (tree.addTag query).Formed := by
  obtain ⟨hsorted, hwf⟩ := h
  exact ⟨by rw [syncPointTree_addTag]; exact hsorted, by rw [syncPointTree_addTag]; exact hwf⟩

theorem tagFor_addTag (tree : FSyncTree K V) (query other : FQuerySpec K V) : (tree.addTag query).tagFor other =
      if other = query ∧ query.loadsAllData = false then some tree.queryTagCounter
      else tree.tagFor other :=
  queryToTagMap_addTag tree query other

variable [QueryFilters K V]

/-- A new complete view stops the listens of its subtree as it was before. -/
theorem Formed.fold_queriesToStopBlock_registered (h : tree.Formed) (eventRegistration : FEventRegistration)
    (persistenceServerCache : Option (FCacheNode K V))
    (hnew : ((tree.syncPointTree.valueAt query.path).getD .empty).viewExistsForQuery query = false)
    (hloads : query.loadsAllData = true) (hnot : ¬Complete tree.views query.path) : (((tree.setRegistered query.path
        (tree.registered eventRegistration query persistenceServerCache)).syncPointTree.subtree
          query.path).fold queriesToStopBlock []).map queryForListening =
      listenedQueries (tree.syncPointTree.subtree query.path) := by
  have hvalue : (tree.syncPointTree.subtree query.path).value =
      tree.syncPointTree.valueAt query.path := by
    rw [← FImmutableTree.valueAt_nil, FImmutableTree.valueAt_subtree, List.append_nil]
  have hcomplete : (tree.syncPointTree.valueAt query.path).bind FSyncPoint.completeView = none := by
    by_contra hsome
    obtain ⟨view, hview⟩ := Option.ne_none_iff_exists'.mp hsome
    obtain ⟨syncPoint, hsync, hview⟩ := Option.bind_eq_some_iff.mp hview
    exact hnot (h.complete_iff.mpr ⟨syncPoint, hsync, by rw [FSyncPoint.hasCompleteView, hview]; rfl⟩)
  have hown : (tree.registered eventRegistration query persistenceServerCache).queryViews.map FView.query =
      (((tree.syncPointTree.valueAt query.path).map FSyncPoint.queryViews).getD []).map FView.query := by
    rw [(h.registered eventRegistration query persistenceServerCache).queryViews_eq]
    unfold FSyncTree.registered
    dsimp only
    rw [if_neg (by simp [hnew]), FSyncPoint.keys_addToNewView hnew, List.map_append, List.filter_append]
    have hfilter : ([query.params].map fun params => (⟨query.path, params⟩ : FQuerySpec K V)).filter
        (fun query => !query.loadsAllData) = [] := by
      simpa using hloads
    rw [hfilter, List.append_nil, ← (h.getD query.path).queryViews_eq]
    cases tree.syncPointTree.valueAt query.path <;> rfl
  rw [FSyncTree.setRegistered, FImmutableTree.subtree_setValue_self, fold_queriesToStopBlock_root,
    List.map_append, Option.map_some, Option.getD_some, hown, FImmutableTree.subtree_setValue_self,
    FImmutableTree.children_node]
  rw [← hvalue] at hcomplete ⊢
  generalize tree.syncPointTree.subtree query.path = subtree at hcomplete ⊢
  obtain ⟨syncPoint, children⟩ := subtree
  rw [FImmutableTree.value_node] at hcomplete ⊢
  rw [listenedQueries_of_notComplete hcomplete, FImmutableTree.children_node,
    distinctQueriesOfChildren_eq, List.map_flatMap]
  rfl

theorem Tracked.addEventRegistration (h : tree.Tracked) (eventRegistration : FEventRegistration)
    (query : FQuerySpec K V) (persistenceServerCache : Option (FCacheNode K V)) :
    (tree.addEventRegistration eventRegistration query persistenceServerCache).Tracked := by
  have hviews : ∀ other, other ∈ (tree.addEventRegistration eventRegistration query
      persistenceServerCache).views ↔ other = query ∨ other ∈ tree.views := fun other =>
    mem_views_addEventRegistration eventRegistration persistenceServerCache
  have hregistered := h.formed.registered eventRegistration query persistenceServerCache
  have hsame : SameElsewhere query.path tree.views
      (tree.addEventRegistration eventRegistration query persistenceServerCache).views := by
    intro other hne
    rw [hviews, or_iff_right fun heq => hne (by rw [heq])]
  have huntagged : ∀ other : FQuerySpec K V, other.loadsAllData = true →
      (tree.addTag query).tagFor other = none := by
    intro other hloads
    rw [tagFor_addTag, if_neg]
    · exact h.untagged other hloads
    · rintro ⟨rfl, hfilters⟩
      rw [hloads] at hfilters
      cases hfilters
  have hfold := @Formed.fold_queriesToStopBlock_registered _ _ _ _ _ query _ h.formed eventRegistration
    persistenceServerCache
  rw [addEventRegistration_eq] at hviews hsame ⊢
  dsimp only at hviews hsame ⊢
  split_ifs at hviews hsame ⊢ with hold hnotFound
  · -- the view exists: nothing but its registrations changes
    rw [viewExists_iff_mem_views] at hold
    refine h.of_sameListens (h.formed.setRegistered hregistered) h.untagged rfl ?_ fun _ _ => rfl
    have hsameViews : (tree.setRegistered query.path
        (tree.registered eventRegistration query persistenceServerCache)).views = tree.views := by
      ext other
      rw [hviews]
      exact or_iff_right_of_imp fun heq => heq ▸ hold
    rw [hsameViews]
  · -- a new view that no complete view covers
    have hnew : query ∉ tree.views := fun hmem => hold (viewExists_iff_mem_views.mpr hmem)
    have hnot : ¬Covered tree.views query.path := by
      rw [← h.formed.foundAncestorDefaultView_iff]
      simpa using hnotFound
    have hformed := (h.formed.addTag query).setRegistered hregistered
    rw [views_setupListenerOnQuery] at hviews hsame
    refine h.setupListenerOnQuery hformed huntagged (listenCalls_addTag tree query) ?_
    cases hloads : query.loadsAllData with
    | true =>
        refine h.replay_setupCalls_complete hnot hloads ?_ ?_ hsame
          ⟨query, (hviews query).mpr (Or.inl rfl), rfl, hloads⟩
        · funext other
          exact (tagFor_addTag tree query other).trans (if_neg (by simp [hloads]))
        · have hsubtree := hfold (by simpa using hold) hloads
            fun hcomplete => hnot (ListenSets.covered_iff.mpr (Or.inl hcomplete))
          simpa [FSyncTree.setRegistered, syncPointTree_addTag] using hsubtree
    | false =>
        refine replay_setupCalls_filtered hnew hnot hloads
          ((tagFor_addTag tree query query).trans (if_pos ⟨rfl, hloads⟩)) (fun other hne => ?_) hviews
        exact (tagFor_addTag tree query other).trans (if_neg fun hother => hne hother.1)
  · -- a new view below or beside a complete one
    have hnew : query ∉ tree.views := fun hmem => hold (viewExists_iff_mem_views.mpr hmem)
    have hcovered : Covered tree.views query.path := by
      rw [← h.formed.foundAncestorDefaultView_iff]
      simpa using hnotFound
    have hsub : tree.views ⊆ ((tree.addTag query).setRegistered query.path
        (tree.registered eventRegistration query persistenceServerCache)).views := fun other hmem =>
      (hviews other).mpr (Or.inr hmem)
    obtain ⟨above, hle, hcomplete⟩ := hcovered
    refine h.of_sameListens ((h.formed.addTag query).setRegistered hregistered) huntagged
      (listenCalls_addTag tree query) ?_ fun other hmem => ?_
    · refine listened_eq_of_covered hsame ⟨above, hle, hcomplete⟩ ⟨above, hle, hcomplete.mono hsub⟩
        fun hshadowed => ?_
      have hat : Complete tree.views query.path :=
        (ListenSets.covered_iff.mp ⟨above, hle, hcomplete⟩).resolve_right hshadowed
      exact iff_of_true hat (hat.mono hsub)
    · refine (tagFor_addTag tree query other).trans (if_neg ?_)
      rintro ⟨rfl, hfilters⟩
      rcases hmem with ⟨hdefault, _⟩ | ⟨_, hmem, _⟩
      · rw [not_filtered_of_isDefault hdefault] at hfilters
        cases hfilters
      · exact hnew hmem

end Registrations

/-! ### Removals -/

section Removals

variable {after : FSyncTree K V} {query : FQuerySpec K V} {removed : List (FQuerySpec K V)}

/-- The listens below a path start again. -/
theorem replay_starts (hformed : after.Formed)
    (huntagged : ∀ query : FQuerySpec K V, query.loadsAllData = true → after.tagFor query = none)
    (hshadowed : ¬Shadowed after.views path) {held : FQuerySpec K V → Option (Option Int)}
    (hfree : ∀ query ∈ Listened after.views, path <+: query.path → held query = none) :
    replay held (((collectDistinctViewsForSubTree (after.syncPointTree.subtree path)).map
        fun view => after.startCall view.query).map ListenCall.event) =
      some fun query => if query ∈ listenedQueries (after.syncPointTree.subtree path) then
        some (after.tagFor query) else held query := by
  have hstarts : (collectDistinctViewsForSubTree (after.syncPointTree.subtree path)).map
      (fun view => after.startCall view.query) =
        (distinctQueries (after.syncPointTree.subtree path)).map after.startCall := by
    rw [← fold_distinctViewsBlock [] (after.syncPointTree.subtree path), List.map_map]
    rfl
  rw [hstarts, map_startCall huntagged]
  refine replay_acquires _ (hformed.nodup_listenedQueries_subtree path) fun query hmem => ?_
  obtain ⟨hle, hquery⟩ := (hformed.mem_listenedQueries_subtree hshadowed).mp hmem
  exact hfree query hquery hle

/-- What is due after the complete view of a path goes, from what was due before. -/
theorem dueListens_of_default (hformed : after.Formed) (htags : after.tagFor = tree.tagFor)
    (hremoved : ViewsRemoved query.path tree.views after.views removed)
    (hcomplete : Complete tree.views query.path) (hnot : ¬Covered after.views query.path) (other : FQuerySpec K V) :
    after.dueListens other =
      if other = .defaultQueryAtPath query.path then none
      else if other ∈ listenedQueries (after.syncPointTree.subtree query.path) then
        some (after.tagFor other)
      else tree.dueListens other := by
  have hshadowed : ¬ListenSets.Shadowed after.views query.path := fun hshadowed =>
    hnot (ListenSets.covered_iff.mpr (Or.inr hshadowed))
  have hbelow : other ∈ listenedQueries (after.syncPointTree.subtree query.path) ↔
      query.path <+: other.path ∧ other ∈ Listened after.views := hformed.mem_listenedQueries_subtree hshadowed
  have hlistened : other ∈ Listened tree.views ↔ other = .defaultQueryAtPath query.path ∨
      other ∈ Listened after.views ∧ ¬query.path <+: other.path :=
    hremoved.listened_iff_of_default hcomplete hnot
  split_ifs with hdefault hmem
  · subst hdefault
    exact dueListens_of_not_mem fun hmem =>
      hnot (ListenSets.covered_iff.mpr (Or.inl (default_mem_listened_iff.mp hmem).1))
  · exact dueListens_of_mem (hbelow.mp hmem).2
  · rw [or_iff_right hdefault] at hlistened
    by_cases hold : other ∈ Listened tree.views
    · rw [dueListens_of_mem hold, dueListens_of_mem (hlistened.mp hold).1, htags]
    · rw [dueListens_of_not_mem hold, dueListens_of_not_mem]
      intro hnew
      by_cases hle : query.path <+: other.path
      · exact hmem (hbelow.mpr ⟨hle, hnew⟩)
      · exact hold (hlistened.mpr ⟨hnew, hle⟩)

/-- Below a path that has lost its complete view nothing was listened to before. -/
theorem dueListens_below (hremoved : ViewsRemoved query.path tree.views after.views removed)
    (hcomplete : Complete tree.views query.path) (hnot : ¬Covered after.views query.path)
    {other : FQuerySpec K V} (hother : other ∈ Listened after.views) (hle : query.path <+: other.path) :
    other ≠ .defaultQueryAtPath query.path ∧ tree.dueListens other = none := by
  have hne : other ≠ .defaultQueryAtPath query.path := by
    rintro rfl
    exact hnot (ListenSets.covered_iff.mpr (Or.inl (default_mem_listened_iff.mp hother).1))
  refine ⟨hne, dueListens_of_not_mem fun hmem => ?_⟩
  rw [hremoved.listened_iff_of_default hcomplete hnot, or_iff_right hne] at hmem
  exact hmem.2 hle

/-- Without the default query among the removed ones, only the listens of the removed ones end. -/
theorem dueListens_of_filtered (htags : after.tagFor = tree.tagFor)
    (hremoved : ViewsRemoved query.path tree.views after.views removed)
    (hany : (removed.any fun query => query.loadsAllData) = false) (other : FQuerySpec K V) :
    after.dueListens other = if other ∈ removed then none else tree.dueListens other := by
  have hlistened : other ∈ Listened after.views ↔ other ∈ Listened tree.views ∧ other ∉ removed :=
    hremoved.listened_iff hany
  split_ifs with hmem
  · exact dueListens_of_not_mem fun hother => (hlistened.mp hother).2 hmem
  · by_cases hother : other ∈ Listened tree.views
    · rw [dueListens_of_mem hother, dueListens_of_mem (hlistened.mpr ⟨hother, hmem⟩), htags]
    · rw [dueListens_of_not_mem hother, dueListens_of_not_mem fun hafter => hother (hlistened.mp hafter).1]

/-- Where a complete view remains above, the same listens are due. -/
theorem dueListens_of_covered (htags : after.tagFor = tree.tagFor)
    (hremoved : ViewsRemoved query.path tree.views after.views removed)
    (hcovered : Covered after.views query.path) : after.dueListens = tree.dueListens := by
  funext other
  unfold dueListens
  rw [hremoved.listened_eq hcovered, htags]

/-- The calls of a removal bring the active listens to those that are due after it. -/
theorem Tracked.replay_updateCalls (h : tree.Tracked) (hformed : after.Formed) (htags : after.tagFor = tree.tagFor)
    (hremoved : ViewsRemoved query.path tree.views after.views removed)
    (hloads : (removed.any fun query => query.loadsAllData) = true → query.loadsAllData = true)
    (hconforms : removed = [] ∨ after.FirstDecides query.path) :
    replay tree.dueListens ((after.updateCalls query removed false).map ListenCall.event) =
      some after.dueListens := by
  have huntagged : ∀ query : FQuerySpec K V, query.loadsAllData = true → after.tagFor query = none := by
    rw [htags]
    exact h.untagged
  cases hfirst : after.covered query.path with
  | true =>
      rw [after.updateCalls_of_covered hfirst, List.map_nil, replay_nil,
        dueListens_of_covered htags hremoved (hformed.covered_of_covered hfirst)]
  | false =>
      have hnot : removed ≠ [] → ¬Covered after.views query.path := fun hnonempty => by
        rw [← (hconforms.resolve_left hnonempty).covered_iff hformed, hfirst]
        exact Bool.false_ne_true
      cases hany : removed.any fun query => query.loadsAllData with
      | true =>
          have hnot : ¬Covered after.views query.path := hnot fun hnil => by
            rw [hnil] at hany
            cases hany
          have hcomplete := (hremoved.any_iff.mp hany).1
          have hshadowed : ¬Shadowed after.views query.path := fun hshadowed =>
            hnot (ListenSets.covered_iff.mpr (Or.inr hshadowed))
          have hfree : ∀ other ∈ Listened after.views, query.path <+: other.path →
              tree.dueListens other = none := fun other hother hle =>
            (dueListens_below hremoved hcomplete hnot hother hle).2
          have hdefault : (.defaultQueryAtPath query.path : FQuerySpec K V) ∈ Listened tree.views :=
            (hremoved.listened_iff_of_default hcomplete hnot).mpr (Or.inl rfl)
          have hnotBelow : (.defaultQueryAtPath query.path : FQuerySpec K V) ∉
              listenedQueries (after.syncPointTree.subtree query.path) := fun hmem =>
            (dueListens_below hremoved hcomplete hnot
              ((hformed.mem_listenedQueries_subtree hshadowed).mp hmem).2 List.prefix_rfl).1 rfl
          rw [after.updateCalls_of_default hfirst hany, if_neg Bool.false_ne_true, List.map_append,
            replay_append_of_eq (replay_starts hformed huntagged hshadowed hfree), List.map_singleton,
            ListenCall.event, queryForListening_of_complete (hloads hany), replay_cons, Event.apply,
            if_pos, Option.bind_some, replay_nil]
          · congr 1
            funext other
            rw [dueListens_of_default hformed htags hremoved hcomplete hnot, Function.update_apply]
          · rw [if_neg hnotBelow, dueListens_of_mem hdefault, h.untagged _ rfl]
      | false =>
          have hfiltered : removed.map queryForListening = removed := by
            refine (List.map_congr_left fun other hmem => ?_).trans (List.map_id _)
            rw [List.any_eq_false] at hany
            exact queryForListening_of_filtered (by simpa using hany other hmem)
          rw [after.updateCalls_of_filtered hfirst hany, if_neg Bool.false_ne_true, map_stopCall huntagged,
            hfiltered, replay_releases _ hremoved.nodup]
          · congr 1
            funext other
            rw [dueListens_of_filtered htags hremoved hany]
          · intro other hmem
            rw [dueListens_of_mem (hremoved.mem_listened hany (hnot (List.ne_nil_of_mem hmem)) hmem), htags]

/-- The calls of a cancel do so from the listens without the one that has ended. -/
theorem Tracked.replay_updateCalls_cancel (h : tree.Tracked) (hformed : after.Formed)
    (htags : after.tagFor = tree.tagFor) (hremoved : ViewsRemoved query.path tree.views after.views removed)
    (hactive : queryForListening query ∈ Listened tree.views)
    (hgone : query.loadsAllData = true → ¬Complete after.views query.path)
    (hfilters : query.loadsAllData = false → ∀ other, other ∈ removed ↔ other = query) :
    replay (Function.update tree.dueListens (queryForListening query) none)
      ((after.updateCalls query removed true).map ListenCall.event) = some after.dueListens := by
  have huntagged : ∀ query : FQuerySpec K V, query.loadsAllData = true → after.tagFor query = none := by
    rw [htags]
    exact h.untagged
  cases hloads : query.loadsAllData with
  | true =>
      rw [queryForListening_of_complete hloads] at hactive ⊢
      obtain ⟨hcomplete, hshadowed⟩ := default_mem_listened_iff.mp hactive
      have hany := hremoved.any_iff.mpr ⟨hcomplete, hgone hloads⟩
      have hshadowed' : ¬Shadowed after.views query.path :=
        mt (hremoved.sameElsewhere.shadowed_iff List.prefix_rfl).mpr hshadowed
      have hnot : ¬Covered after.views query.path := by
        rw [ListenSets.covered_iff]
        exact not_or.mpr ⟨hgone hloads, hshadowed'⟩
      have hfirst : after.covered query.path = false := by
        rw [← Bool.not_eq_true]
        exact fun hfirst => hnot (hformed.covered_of_covered hfirst)
      rw [after.updateCalls_of_default hfirst hany, if_pos rfl, List.append_nil,
        replay_starts hformed huntagged hshadowed']
      · congr 1
        funext other
        rw [dueListens_of_default hformed htags hremoved hcomplete hnot, Function.update_apply]
        by_cases hdefault : other = .defaultQueryAtPath query.path
        · rw [if_pos hdefault, if_pos hdefault, if_neg]
          intro hmem
          exact (dueListens_below hremoved hcomplete hnot
            ((hformed.mem_listenedQueries_subtree hshadowed').mp hmem).2
            ((hformed.mem_listenedQueries_subtree hshadowed').mp hmem).1).1 hdefault
        · rw [if_neg hdefault, if_neg hdefault]
      · intro other hother hle
        obtain ⟨hne, hnone⟩ := dueListens_below hremoved hcomplete hnot hother hle
        rw [Function.update_of_ne hne, hnone]
  | false =>
      have hany : (removed.any fun query => query.loadsAllData) = false := by
        rw [List.any_eq_false]
        intro other hmem
        rw [(hfilters hloads other).mp hmem, hloads]
        exact Bool.false_ne_true
      have hcalls : after.updateCalls query removed true = [] := by
        cases hfirst : after.covered query.path with
        | true => exact after.updateCalls_of_covered hfirst true
        | false => rw [after.updateCalls_of_filtered hfirst hany, if_pos rfl]
      rw [hcalls, List.map_nil, replay_nil, queryForListening_of_filtered hloads]
      congr 1
      funext other
      rw [dueListens_of_filtered htags hremoved hany, Function.update_apply]
      by_cases hother : other = query
      · rw [if_pos hother, if_pos ((hfilters hloads other).mpr hother)]
      · rw [if_neg hother, if_neg fun hmem => hother ((hfilters hloads other).mp hmem)]

/-- The tags of the removed queries go last. -/
theorem Tracked.of_removal (hformed : after.Formed)
    (huntagged : ∀ query : FQuerySpec K V, query.loadsAllData = true → after.tagFor query = none)
    (hremoved : ViewsRemoved query.path tree.views after.views removed) {cancelError : Bool}
    {active : FQuerySpec K V → Option (Option Int)} (hactive : after.activeListens = some active)
    (hreplay : replay active ((after.updateCalls query removed cancelError).map ListenCall.event) =
      some after.dueListens) : ((after.updateListens query removed cancelError).removeTags removed).Tracked := by
  rw [updateListens_eq]
  obtain ⟨tagToQueryMap, htags⟩ := removeTags_eq
    { after with listenCalls := after.listenCalls ++ after.updateCalls query removed cancelError } removed
  rw [htags]
  refine ⟨⟨hformed.sorted, hformed.wellFormed⟩, fun other hloads => ?_, ?_⟩
  · exact (if_neg (by simp [hloads])).trans (huntagged other hloads)
  · refine (activeListens_append hactive rfl).trans (hreplay.trans (congrArg some (funext fun other => ?_)))
    by_cases hother : other ∈ Listened after.views
    · rw [dueListens_of_mem hother]
      refine Eq.symm ((if_pos hother).trans (congrArg some (if_neg ?_)))
      rintro ⟨hmem, hfilters⟩
      exact hremoved.not_mem_removed hother hfilters hmem
    · rw [dueListens_of_not_mem hother]
      exact (if_neg hother).symm

end Removals

/-! ### Runs -/

section Runs

variable {query : FQuerySpec K V} {tree' : FSyncTree K V}

theorem Tracked.removeEventRegistration (h : tree.Tracked) {matcher : FEventRegistrationMatcher}
    (hconforms : ∀ syncPoint ∈ tree.syncPointTree.valueAt query.path, syncPoint.removedQueries matcher query = [] ∨
        (tree.setRemaining query.path (syncPoint.remaining matcher query)).FirstDecides query.path)
    (hperform : tree.removeEventRegistration matcher query false = some tree') : tree'.Tracked := by
  rcases tree.removeEventRegistration_cases matcher query false with
    ⟨_, hnone⟩ | ⟨syncPoint, hvalue, _, ⟨_, hstops⟩ | ⟨_, hremove⟩⟩
  · rw [hperform] at hnone
    cases hnone
    exact h
  · rw [hperform] at hstops
    cases hstops
  · rw [hperform] at hremove
    cases hremove
    have hsync := h.formed.at hvalue
    have hremoved := h.formed.viewsRemoved hvalue matcher
    have hremaining : (syncPoint.remaining matcher query).WellFormed query.path := hsync.remaining matcher
    have hformed := h.formed.setRemaining hremaining
    exact .of_removal hformed h.untagged hremoved h.active
      (h.replay_updateCalls hformed rfl hremoved (hsync.loadsAllData_of_any matcher)
        (hconforms syncPoint hvalue))

theorem Tracked.cancel (h : tree.Tracked) (hconforms : tree.Conforms (.cancel query))
    (hactive : queryForListening query ∈ Listened tree.views)
    (hperform : (tree.listenEnded query).removeEventRegistration .all query true = some tree') : tree'.Tracked := by
  have hformed : (tree.listenEnded query).Formed := ⟨h.formed.sorted, h.formed.wellFormed⟩
  have hended : (tree.listenEnded query).activeListens =
      some (Function.update tree.dueListens (queryForListening query) none) := by
    refine (activeListens_append h.active rfl).trans ?_
    rw [List.map_singleton, ListenCall.event, replay_cons, Event.apply, if_pos]
    · rfl
    · rw [dueListens_of_mem hactive, tagFor_queryForListening h.untagged]
  rcases (tree.listenEnded query).removeEventRegistration_cases .all query true with
    ⟨hnot, _⟩ | ⟨syncPoint, hvalue, _, ⟨_, hstops⟩ | ⟨_, hremove⟩⟩
  · -- the view of an active listen is there
    exfalso
    cases hloads : query.loadsAllData with
    | true =>
        rw [queryForListening_of_complete hloads] at hactive
        obtain ⟨syncPoint, hvalue, _⟩ := h.formed.complete_iff.mp (default_mem_listened_iff.mp hactive).1
        have hconcerned := hnot syncPoint hvalue
        rw [Bool.or_eq_false_iff] at hconcerned
        obtain ⟨found, hfound, hexists, _⟩ := hconforms hloads hconcerned.1
        rw [Option.mem_def.mp hfound] at hvalue
        cases hvalue
        rw [hconcerned.2] at hexists
        cases hexists
    | false =>
        rw [queryForListening_of_filtered hloads] at hactive
        rcases hactive with ⟨hdefault, _⟩ | ⟨_, hmem, _⟩
        · rw [not_filtered_of_isDefault hdefault] at hloads
          cases hloads
        · obtain ⟨syncPoint, hvalue, hexists⟩ := mem_views_iff.mp hmem
          have hconcerned := hnot syncPoint hvalue
          rw [hexists, Bool.or_true] at hconcerned
          cases hconcerned
  · rw [hperform] at hstops
    cases hstops
  · rw [hperform] at hremove
    cases hremove
    have hsync := h.formed.at hvalue
    have hremoved := hformed.viewsRemoved hvalue .all
    have hremaining : (syncPoint.remaining .all query).WellFormed query.path := hsync.remaining .all
    refine .of_removal (hformed.setRemaining hremaining) h.untagged hremoved
      hended (h.replay_updateCalls_cancel (hformed.setRemaining hremaining) rfl hremoved hactive
        (fun hloads hcomplete => ?_) fun hloads other => ?_)
    · -- no complete view of the path is left
      obtain ⟨other, hmem, hpath, hother⟩ := hcomplete
      obtain ⟨hexists, hreaches⟩ :=
        FSyncPoint.viewExistsForQuery_remaining_all.mp ((mem_views_setRemaining hpath).mp hmem)
      rw [FSyncPoint.removalReaches, Bool.or_eq_false_iff] at hreaches
      obtain ⟨found, hfound, _, honly⟩ := hconforms hloads hreaches.1
      have hsame : found = syncPoint := by
        have hfound' : tree.syncPointTree.valueAt query.path = some found := hfound
        have hvalue' : tree.syncPointTree.valueAt query.path = some syncPoint := hvalue
        rw [hfound'] at hvalue'
        exact Option.some.inj hvalue'
      subst hsame
      obtain ⟨entry, hentry, hparams⟩ := FSyncPoint.viewExistsForQuery_iff.mp hexists
      have hentryLoads : entry.2.query.loadsAllData = true := by
        rw [hsync.query_eq entry hentry, hparams]
        exact hother
      rw [← hparams, honly entry hentry hentryLoads] at hreaches
      simp at hreaches
    · -- the view of the filtered query is all that goes
      have hmem : query ∈ tree.views := by
        rw [queryForListening_of_filtered hloads] at hactive
        rcases hactive with ⟨hdefault, _⟩ | ⟨_, hmem, _⟩
        · rw [not_filtered_of_isDefault hdefault] at hloads
          cases hloads
        · exact hmem
      have hnotDefault : query.isDefault = false := by
        rw [← Bool.not_eq_true]
        intro hdefault
        rw [not_filtered_of_isDefault hdefault] at hloads
        cases hloads
      rw [hsync.mem_removedQueries .all]
      constructor
      · rintro (⟨hpath, _, hexists, hgone⟩ | ⟨rfl, hlast⟩)
        · have hreaches : FSyncPoint.removalReaches query other.params = true := by
            by_contra hnot
            rw [FSyncPoint.viewExistsForQuery_remaining_all.mpr ⟨hexists, by simpa using hnot⟩] at hgone
            cases hgone
          rw [FSyncPoint.removalReaches, hnotDefault, Bool.false_or, decide_eq_true_eq] at hreaches
          exact FQuerySpec.ext hpath hreaches
        · rw [hsync.loadsAllData_of_any .all ((hsync.any_removedQueries .all).mpr hlast)] at hloads
          cases hloads
      · rintro rfl
        obtain ⟨found, hfound, hexists⟩ := mem_views_iff.mp hmem
        have hvalue' : tree.syncPointTree.valueAt other.path = some syncPoint := hvalue
        rw [hfound] at hvalue'
        cases hvalue'
        refine Or.inl ⟨rfl, hloads, hexists, ?_⟩
        rw [← Bool.not_eq_true, FSyncPoint.viewExistsForQuery_remaining_all]
        rintro ⟨_, hreaches⟩
        simp [FSyncPoint.removalReaches] at hreaches

variable [QueryFilters K V]

theorem Tracked.perform (h : tree.Tracked) {operation : ListenOperation K V}
    (hconforms : tree.Conforms operation) (hperform : tree.performListen operation = some tree') :
    tree'.Tracked := by
  cases operation with
  | add eventRegistration query persistenceServerCache =>
      cases hperform
      exact h.addEventRegistration eventRegistration query persistenceServerCache
  | remove matcher query => exact h.removeEventRegistration hconforms hperform
  | cancel query =>
      rw [performListen] at hperform
      split_ifs at hperform with hactive
      refine h.cancel hconforms ?_ hperform
      rw [h.active, Option.bind_some] at hactive
      by_contra hnot
      rw [dueListens_of_not_mem hnot] at hactive
      cases hactive

/-- A run of registrations, removals and cancels. -/
def runListens (tree : FSyncTree K V) : List (ListenOperation K V) → Option (FSyncTree K V)
  | [] => some tree
  | operation :: rest => (tree.performListen operation).bind fun tree => tree.runListens rest

/-- Every operation of the run keeps the listens exact. -/
def AllConform (tree : FSyncTree K V) : List (ListenOperation K V) → Prop
  | [] => True
  | operation :: rest =>
      tree.Conforms operation ∧ ∀ tree' ∈ tree.performListen operation, tree'.AllConform rest

instance decidableAllConform (tree : FSyncTree K V) :
    ∀ operations : List (ListenOperation K V), Decidable (tree.AllConform operations)
  | [] => inferInstanceAs (Decidable True)
  | operation :: rest =>
      haveI := fun tree : FSyncTree K V => decidableAllConform tree rest
      inferInstanceAs (Decidable
        (tree.Conforms operation ∧ ∀ tree' ∈ tree.performListen operation, tree'.AllConform rest))

theorem Tracked.run (h : tree.Tracked) {operations : List (ListenOperation K V)}
    (hconforms : tree.AllConform operations) (hrun : tree.runListens operations = some tree') : tree'.Tracked := by
  induction operations generalizing tree with
  | nil =>
      cases hrun
      exact h
  | cons operation rest ih =>
      rw [runListens, Option.bind_eq_some_iff] at hrun
      obtain ⟨next, hperform, hrest⟩ := hrun
      exact ih (h.perform hconforms.1 hperform) (hconforms.2 next hperform) hrest

omit [QueryFilters K V] in
theorem Tracked.initial : (initial : FSyncTree K V).Tracked := by
  refine ⟨⟨.empty, fun rest syncPoint hvalue => ?_⟩, fun _ _ => rfl, ?_⟩
  · rw [FSyncTree.initial, FImmutableTree.valueAt_empty] at hvalue
    cases hvalue
  · refine congrArg some (funext fun query => (dueListens_of_not_mem ?_).symm)
    have hviews : ∀ query : FQuerySpec K V, query ∉ (FSyncTree.initial : FSyncTree K V).views := by
      intro query hmem
      obtain ⟨syncPoint, hvalue, _⟩ := mem_views_iff.mp hmem
      rw [FSyncTree.initial, FImmutableTree.valueAt_empty] at hvalue
      cases hvalue
    rintro (⟨_, ⟨complete, hmem, _⟩, _⟩ | ⟨_, hmem, _⟩)
    · exact hviews complete hmem
    · exact hviews query hmem

/-- In a run of conforming operations the active listens are exactly those that should be. -/
theorem listensExact_run {operations : List (ListenOperation K V)}
    (hconforms : initial.AllConform operations) (hrun : initial.runListens operations = some tree) :
    tree.ListensExact :=
  (Tracked.initial.run hconforms hrun).exact

end Runs

/-- The first child by priority. -/
def firstAt (path : FPath String) : FQuerySpec String Int := ⟨path, ⟨.priority, some (1, true), none, none⟩⟩

/-- A complete view shadows a filtered one and goes again, then the listen of the filtered one fails. -/
def shadowedRun : List (ListenOperation String Int) :=
  [.add (.handle 0) (firstAt ["a", "b"]) none, .add (.handle 1) (.defaultQueryAtPath ["a"]) none,
    .add (.handle 2) (.defaultQueryAtPath ["a", "b", "c"]) none,
    .remove .all (.defaultQueryAtPath ["a"]), .cancel (firstAt ["a", "b"])]

theorem listensExact_run_shadowed :
    ((initial.runListens shadowedRun).get (by decide)).ListensExact :=
  @listensExact_run _ _ _ _ _ _ shadowedRun (by decide) (Option.some_get _).symm

/-- At `a/b` a filtered view goes that the complete view there covers. The first sync point on the path
is at `a` and not complete, so a listen stops that was never started. -/
def misledRun : List (ListenOperation String Int) :=
  [.add (.handle 0) (firstAt ["a"]) none, .add (.handle 1) (.defaultQueryAtPath ["a", "b"]) none,
    .add (.handle 2) (firstAt ["a", "b"]) none, .remove .all (firstAt ["a", "b"])]

theorem listensExact_fails_misled :
    ¬∀ (operations : List (ListenOperation String Int)) (tree : FSyncTree String Int),
      initial.runListens operations = some tree → tree.ListensExact := by
  intro hall
  have hstops : ((initial.runListens misledRun).get (by decide)).activeListens.isSome = false := by decide
  obtain ⟨active, hactive, _⟩ := hall misledRun _ (Option.some_get (by decide)).symm
  rw [hactive] at hstops
  cases hstops

end FSyncTree

end FirebaseSwift.Database
