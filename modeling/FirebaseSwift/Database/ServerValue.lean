import FirebaseSwift.Database.CompleteEventCache

/-! Reading a value once. The sync tree answers with the view of the query where there is one, and
otherwise filters a cache that some sync point on the path has. The view is looked up at the sync point
where the search ended, which may be one above the path; and where there is no sync point on the path,
an empty one stays behind. -/

namespace FirebaseSwift.Database

variable {K V : Type} [DatabaseKey K]

namespace FSyncTree

/-- Whether a sync point on the path answers the search with an event cache. -/
def answersSearch (path : FPath K) (found : FPath K × FSyncPoint K V) : Bool :=
  (found.2.completeEventCacheAtPath (FPath.relativePath found.1 path)).isSome

/-- Where the search of `getServerValue` ends: at the first sync point that answers, or else at the
last one. -/
def searchTarget (self : FSyncTree K V) (path : FPath K) : Option (FPath K × FSyncPoint K V) :=
  ((self.syncPointTree.valuesOnPath path).find? (answersSearch path)).or
    (self.syncPointTree.valuesOnPath path).getLast?

theorem forEachOn_visitEventCache (self : FSyncTree K V) (path : FPath K) :
    self.syncPointTree.forEachOn (visitEventCache path) path [] (none, none) =
      match self.searchTarget path with
      | none => (none, none)
      | some found =>
          (found.2.completeEventCacheAtPath (FPath.relativePath found.1 path), some found.2) := by
  have hvisit : ∀ (values : List (FPath K × FSyncPoint K V)) (target : Option (FSyncPoint K V)),
      FImmutableTree.visitWhile (visitEventCache path) values (none, target) =
        match (values.find? (answersSearch path)).or values.getLast? with
        | none => (none, target)
        | some found =>
            (found.2.completeEventCacheAtPath (FPath.relativePath found.1 path), some found.2) := by
    intro values
    induction values with
    | nil => exact fun _ => rfl
    | cons found rest ih =>
        intro target
        rw [FImmutableTree.visitWhile]
        rcases Option.eq_none_or_eq_some
          (found.2.completeEventCacheAtPath (FPath.relativePath found.1 path)) with hnone | ⟨cache, hcache⟩
        · have hanswers : answersSearch path found = false := by simp [answersSearch, hnone]
          simp only [visitEventCache, hnone, Option.isNone_none, if_true, List.find?_cons, hanswers]
          rw [ih]
          cases rest with
          | nil => simp [hnone]
          | cons next rest =>
              cases hsearch : ((next :: rest).find? (answersSearch path)).or
                  (next :: rest).getLast? with
              | none => simp at hsearch
              | some target => rw [List.getLast?_cons_cons, hsearch]
        · have hanswers : answersSearch path found = true := by simp [answersSearch, hcache]
          simp [visitEventCache, hcache, hanswers]
  rw [FImmutableTree.forEachOn_eq, searchTarget]
  exact hvisit _ none

/-- The complete cache for the path: the event cache of the first sync point on the path that has one,
or else the server cache of the sync point at the path, or of the first one above that has one. -/
def completeCache (self : FSyncTree K V) (path : FPath K) : Option (FNode K V) :=
  ((self.syncPointTree.valuesOnPath path).findSome? fun found =>
      found.2.completeEventCacheAtPath (FPath.relativePath found.1 path)).or
    (((self.syncPointTree.valueAt path).bind fun syncPoint =>
      syncPoint.completeServerCacheAtPath []).or (self.heldServerCache path))

variable [DatabaseValue V] [QueryFilters K V]

/-- The filter of the query applied to a node. -/
def filtered (query : FQuerySpec K V) (node : FNode K V) : FNode K V :=
  (query.params.nodeFilter.updateFullNode (.ofNode .empty query.index)
    (.ofNode node query.index)).1.node

/-- The node is what the view of the query at its path shows; or it is filtered from the complete event
cache at the path, the complete cache with the pending writes layered on it. -/
def IsValueOf (self : FSyncTree K V) (query : FQuerySpec K V) (node : FNode K V) : Prop :=
  ((self.syncPointTree.valueAt query.path).bind fun syncPoint =>
      (syncPoint.viewFor query.params).bind FView.completeEventCache) = some node ∨
    ((self.pendingWriteTree.childWritesForPath query.path).calculateCompleteEventCache
      (self.completeCache query.path)).map (filtered query) = some node

instance (self : FSyncTree K V) (query : FQuerySpec K V) (node : FNode K V) :
    Decidable (self.IsValueOf query node) := by
  unfold IsValueOf
  infer_instance

/-- The value is one of the query, and the call changes neither later complete event caches nor the
listens that later registrations start. -/
def ReadsValue (self : FSyncTree K V) (query : FQuerySpec K V) : Prop :=
  (∀ node, (self.getServerValue query).2 = some node → self.IsValueOf query node) ∧
    ∀ operations tree tree', self.run operations = some tree →
      (self.getServerValue query).1.run operations = some tree' →
        (∀ path excludeWriteIds, tree'.calcCompleteEventCacheAtPath path excludeWriteIds =
          tree.calcCompleteEventCacheAtPath path excludeWriteIds) ∧
        ∀ registration later persistenceServerCache,
          (tree'.addEventRegistration registration later persistenceServerCache).listenCalls =
            (tree.addEventRegistration registration later persistenceServerCache).listenCalls

/-- The search ends at the path of the query; or it ends above, where no view has the parameters of the
query, with an event cache or without any cache. -/
def Targeted (self : FSyncTree K V) (query : FQuerySpec K V) : Prop :=
  ∀ found ∈ self.searchTarget query.path, found.1 = query.path ∨
    found.2.viewFor query.params = none ∧
      (answersSearch query.path found = true ∨ found.2.completeServerCacheAtPath [] = none)

variable {self : FSyncTree K V} {query : FQuerySpec K V} {path : FPath K} {found : FPath K × FSyncPoint K V}
variable {node : FNode K V}

theorem completeEventCache_serverValueView {target : FSyncPoint K V}
    (hview : target.viewFor query.params = none) (serverCacheNode : Option (FNode K V)) :
    (self.serverValueView query target serverCacheNode).completeEventCache =
      ((self.pendingWriteTree.childWritesForPath query.path).calculateCompleteEventCache
        serverCacheNode).map (filtered query) := by
  have hcache : (if serverCacheNode.isSome = true then some (serverCacheNode.getD .empty) else none) =
      serverCacheNode := by
    cases serverCacheNode <;> rfl
  simp only [serverValueView, FSyncPoint.getView, hview, FCacheNode.node, FIndexedNode.node_ofNode, hcache]
  cases hcomplete : (self.pendingWriteTree.childWritesForPath query.path).calculateCompleteEventCache
      serverCacheNode with
  | none => rfl
  | some complete => rfl

omit [DatabaseValue V] [QueryFilters K V] in
theorem mem_valuesOnPath_of_searchTarget (h : self.searchTarget path = some found) :
    found ∈ self.syncPointTree.valuesOnPath path := by
  rw [searchTarget, Option.or_eq_some_iff] at h
  rcases h with hfind | ⟨_, hlast⟩
  · exact List.mem_of_find?_eq_some hfind
  · exact List.mem_of_getLast? hlast

omit [DatabaseValue V] [QueryFilters K V] in
/-- Where a sync point answers the search, it is the first one with an event cache. -/
theorem findSome?_completeEventCache (h : self.searchTarget path = some found) :
    ((self.syncPointTree.valuesOnPath path).findSome? fun found =>
      found.2.completeEventCacheAtPath (FPath.relativePath found.1 path)) =
        found.2.completeEventCacheAtPath (FPath.relativePath found.1 path) := by
  rw [searchTarget] at h
  generalize self.syncPointTree.valuesOnPath path = values at h
  induction values with
  | nil => cases h
  | cons first rest ih =>
      rcases Option.eq_none_or_eq_some
        (first.2.completeEventCacheAtPath (FPath.relativePath first.1 path)) with hnone | ⟨cache, hcache⟩
      · have hanswers : answersSearch path first = false := by simp [answersSearch, hnone]
        rw [List.findSome?_cons, hnone]
        rw [List.find?_cons, hanswers] at h
        cases rest with
        | nil =>
            cases h
            exact hnone.symm
        | cons next rest =>
            rw [List.getLast?_cons_cons] at h
            exact ih h
      · have hanswers : answersSearch path first = true := by simp [answersSearch, hcache]
        rw [List.find?_cons, hanswers] at h
        cases h
        rw [List.findSome?_cons, hcache]

omit [DatabaseValue V] [QueryFilters K V] in
/-- What the pending writes give without a cache they give with any one. -/
theorem calculateCompleteEventCache_of_none {writes : FWriteTreeRef K V}
    (h : writes.calculateCompleteEventCache none = some node) (cache : Option (FNode K V)) :
    writes.calculateCompleteEventCache cache = some node := by
  simp only [FWriteTreeRef.calculateCompleteEventCache, FWriteTree.calculateCompleteEventCacheAtPath,
    Option.isNone_none, Bool.not_false, Bool.and_self, if_true, Bool.true_and] at h ⊢
  split at h
  · exact h
  · next hnone =>
      split_ifs at h with hempty hcomplete
      exfalso
      rw [Bool.not_eq_true, Bool.not_eq_false'] at hcomplete
      rw [FCompoundWrite.hasCompleteWriteAtPath] at hcomplete
      rcases writes.writeTree.visibleWrites.covered_or_free writes.path with ⟨found, v, hle, hv⟩ | hfree
      · rw [FCompoundWrite.completeNodeAtPath_of_covered hle hv] at hnone
        cases hnone
      · have hroot : ∀ above, above <+: [] →
            (writes.writeTree.visibleWrites.childCompoundWriteAtPath writes.path).valueAt above = none := by
          intro above hle
          rw [FCompoundWrite.valueAt_childCompoundWriteAtPath_of_free hfree, List.prefix_nil.mp hle,
            List.append_nil, hfree _ List.prefix_rfl]
        rw [FCompoundWrite.completeNodeAtPath_of_free hroot] at hcomplete
        cases hcomplete

theorem isValueOf_getServerValue (htargeted : self.Targeted query)
    (hnode : (self.getServerValue query).2 = some node) : self.IsValueOf query node := by
  have hwrites : ∀ cache, ((self.pendingWriteTree.childWritesForPath query.path).calculateCompleteEventCache
      none).map (filtered query) = some node →
        ((self.pendingWriteTree.childWritesForPath query.path).calculateCompleteEventCache cache).map
          (filtered query) = some node := by
    intro cache hnone
    obtain ⟨complete, hcomplete, hfiltered⟩ := Option.map_eq_some_iff.mp hnone
    rw [calculateCompleteEventCache_of_none hcomplete cache, Option.map_some, hfiltered]
  rw [getServerValue, forEachOn_visitEventCache] at hnode
  cases htarget : self.searchTarget query.path with
  | none =>
      have hview : (FSyncPoint.empty : FSyncPoint K V).viewFor query.params = none := rfl
      rw [htarget] at hnode
      dsimp only at hnode
      rw [completeEventCache_serverValueView hview] at hnode
      exact Or.inr (hwrites _ hnode)
  | some found =>
      have hmem := mem_valuesOnPath_of_searchTarget htarget
      have hvalue := (FImmutableTree.mem_valuesOnPath.mp hmem).2
      have hevent := findSome?_completeEventCache htarget
      rw [htarget] at hnode
      dsimp only at hnode
      cases hview : found.2.viewFor query.params with
      | some view =>
          rcases htargeted found htarget with hpath | ⟨hnone, _⟩
          · refine Or.inl ?_
            rw [← hpath, hvalue, Option.bind_some, hview, Option.bind_some, ← hnode, serverValueView,
              FSyncPoint.getView, hview]
          · rw [hview] at hnone
            cases hnone
      | none =>
          rw [completeEventCache_serverValueView hview, ← hevent] at hnode
          refine Or.inr ?_
          rw [completeCache]
          generalize ((self.syncPointTree.valuesOnPath query.path).findSome? fun found =>
            found.2.completeEventCacheAtPath (FPath.relativePath found.1 query.path)) = held
            at hnode hevent ⊢
          cases held with
          | some cache => exact hnode
          | none =>
              rw [Option.none_or] at hnode ⊢
              rcases htargeted found htarget with hpath | ⟨_, hanswers | hserver⟩
              · rw [← hpath, hvalue, Option.bind_some]
                cases hserver : found.2.completeServerCacheAtPath [] with
                | none =>
                    rw [hserver] at hnode
                    rw [hpath]
                    exact hwrites _ hnode
                | some cache =>
                    rw [hserver] at hnode
                    rw [hpath]
                    exact hnode
              · rw [answersSearch, ← hevent] at hanswers
                cases hanswers
              · rw [hserver] at hnode
                exact hwrites _ hnode

/-- Where a sync point lies on the path, the call leaves the tree as it is. -/
theorem getServerValue_unchanged (hpoint : self.syncPointTree.valuesOnPath query.path ≠ []) :
    (self.getServerValue query).1 = self := by
  have htarget : self.searchTarget query.path ≠ none := by
    rw [searchTarget, ne_eq, Option.or_eq_none_iff, not_and]
    exact fun _ hlast => hpoint (List.getLast?_eq_none_iff.mp hlast)
  obtain ⟨found, hfound⟩ := Option.ne_none_iff_exists'.mp htarget
  rw [getServerValue, forEachOn_visitEventCache, hfound]

/-! ### What an empty sync point changes -/

omit [QueryFilters K V] in
/-- Removing all registrations of the default query removes the sync point. -/
theorem exists_removeAll (self : FSyncTree K V) (path : FPath K) :
    ∃ tree, self.removeEventRegistration .all (.defaultQueryAtPath path) false = some tree ∧
      tree.pendingWriteTree = self.pendingWriteTree ∧
      ∀ other, tree.syncPointTree.valueAt other =
        if other = path then none else self.syncPointTree.valueAt other := by
  rcases self.removeEventRegistration_cases .all (.defaultQueryAtPath path) false with
    ⟨hnone, hsame⟩ | ⟨syncPoint, hvalue, _, ⟨⟨hcancel, _⟩, _⟩ | ⟨_, hremoved⟩⟩
  · refine ⟨self, hsame, rfl, fun other => ?_⟩
    split_ifs with hother
    · cases hvalue : self.syncPointTree.valueAt path with
      | none => rw [hother, hvalue]
      | some syncPoint => cases hnone syncPoint hvalue
    · rfl
  · cases hcancel
  · have hempty : (syncPoint.remaining .all (.defaultQueryAtPath path)).isEmpty = true := by
      have hdefault : (FQuerySpec.defaultQueryAtPath path : FQuerySpec K V).isDefault = true := rfl
      rw [FSyncPoint.isEmpty, FSyncPoint.remaining, List.isEmpty_iff, List.filter_eq_nil_iff]
      intro entry hentry
      obtain ⟨old, _, rfl⟩ := List.mem_map.mp hentry
      simp [FSyncPoint.gone, FSyncPoint.stripped, FSyncPoint.removalReaches, hdefault, FView.isEmpty,
        FEventRegistration.matches]
    obtain ⟨_, htags⟩ := removeTags_eq ((self.setRemaining path
      (syncPoint.remaining .all (.defaultQueryAtPath path))).updateListens (.defaultQueryAtPath path)
        (syncPoint.removedQueries .all (.defaultQueryAtPath path)) false)
      (syncPoint.removedQueries .all (.defaultQueryAtPath path))
    refine ⟨_, hremoved, ?_, fun other => ?_⟩
    · rw [FQuerySpec.defaultQueryAtPath] at htags ⊢
      rw [htags, updateListens_eq]
      rfl
    · rw [FQuerySpec.defaultQueryAtPath] at htags ⊢
      rw [htags, updateListens_eq]
      refine (self.valueAt_setRemaining path other _).trans ?_
      rw [FQuerySpec.defaultQueryAtPath] at hempty
      rw [hempty, if_pos rfl]

omit [DatabaseValue V] [QueryFilters K V] in
/-- With all writes excluded the complete event cache is the server cache that is found. -/
theorem calcCompleteEventCacheAtPath_excludeAll (self : FSyncTree K V) (path : FPath K) :
    self.calcCompleteEventCacheAtPath path (self.pendingWriteTree.allWrites.map FWriteRecord.writeId) =
      some (((self.syncPointTree.valuesOnPath path).head?.bind fun found =>
        found.2.completeServerCacheAtPath (FPath.relativePath found.1 path)).getD .empty) := by
  have hlayer : ∀ records : List (FWriteRecord K V),
      (∀ record ∈ records, record ∈ self.pendingWriteTree.allWrites) →
        FWriteTree.layerTreeFromWrites records (FWriteTree.eventCacheFilter path
          (some (self.pendingWriteTree.allWrites.map FWriteRecord.writeId)) true) path =
            FCompoundWrite.emptyWrite := by
    intro records hrecords
    unfold FWriteTree.layerTreeFromWrites
    induction records with
    | nil => rfl
    | cons record rest ih =>
        obtain ⟨hrecord, hrest⟩ := List.forall_mem_cons.mp hrecords
        rw [List.foldl_cons, if_neg, ih hrest]
        have hexcluded := List.mem_map_of_mem (f := FWriteRecord.writeId) hrecord
        simp [FWriteTree.eventCacheFilter, hexcluded]
  rw [calcCompleteEventCacheAtPath, FWriteTree.calculateCompleteEventCacheAtPath,
    FImmutableTree.find_eq, hlayer _ fun _ hrecord => hrecord]
  rfl

/-- A complete cache that persistence has. -/
def persisted (node : FNode K V) : Option (FCacheNode K V) :=
  some ⟨true, false, .ofNodeByPriority node⟩

/-- What persistence has for a new default view is its server cache, where no sync point has one. -/
theorem completeServerCache_registered (hnone : self.syncPointTree.valuesOnPath path = []) (node : FNode K V) :
    (self.registered (.handle 0) (.defaultQueryAtPath path)
      (persisted node)).completeServerCacheAtPath [] = some node := by
  have hvalue : self.syncPointTree.valueAt path = none :=
    FImmutableTree.valuesOnPath_eq_nil.mp hnone path List.prefix_rfl
  have hheld : ({ self with
      syncPointTree := self.syncPointTree.setValue (some FSyncPoint.empty) path } :
        FSyncTree K V).heldServerCache path = none := by
    rw [heldServerCache_eq_none]
    intro above rest syncPoint happend hsyncPoint
    rw [FImmutableTree.valueAt_setValue] at hsyncPoint
    split_ifs at hsyncPoint
    · cases hsyncPoint
      rfl
    · rw [FImmutableTree.valuesOnPath_eq_nil.mp hnone above ⟨rest, happend⟩] at hsyncPoint
      cases hsyncPoint
  have hcache : ({ self with
      syncPointTree := self.syncPointTree.setValue (some FSyncPoint.empty) path } :
        FSyncTree K V).serverCacheForQuery (.defaultQueryAtPath path) (persisted node) =
          ⟨true, false, .ofNodeByPriority node⟩ := by
    rw [serverCacheForQuery, FQuerySpec.defaultQueryAtPath, forEachOn_visitServerCache, hheld]
    rfl
  have hview : ∀ (registration : FEventRegistration) (query : FQuerySpec K V)
      (writesCache : FWriteTreeRef K V), query.loadsAllData = true →
      ((FSyncPoint.empty : FSyncPoint K V).addToNewView registration query writesCache
        ⟨true, false, .ofNodeByPriority node⟩).completeServerCacheAtPath [] = some node := by
    intro registration query writesCache hloads
    have hset : ∀ view : FView K V, ((FSyncPoint.empty : FSyncPoint K V).setView query.params
        view).addToExistingView registration query =
          ⟨[(query.params, view.addEventRegistration registration)]⟩ := by
      intro view
      simp [FSyncPoint.setView, FSyncPoint.viewFor, FSyncPoint.empty, FSyncPoint.addToExistingView,
        SortedDictionary.get]
    rw [FSyncPoint.addToNewView, hset]
    simp [FSyncPoint.completeServerCacheAtPath, FView.completeServerCacheFor,
      FView.addEventRegistration, FSyncPoint.getView, FSyncPoint.viewFor, FSyncPoint.empty,
      FView.ofQuery, FViewCache.completeServerSnap, FView.partOfCache, hloads]
    rfl
  have hget : ((self.syncPointTree.valueAt (FQuerySpec.defaultQueryAtPath path : FQuerySpec K V).path).getD
      .empty) = (FSyncPoint.empty : FSyncPoint K V) := by
    rw [FQuerySpec.defaultQueryAtPath, hvalue]
    rfl
  have hpath : (FQuerySpec.defaultQueryAtPath path : FQuerySpec K V).path = path := rfl
  unfold registered
  rw [hget, if_neg (by simp [FSyncPoint.viewExistsForQuery, FSyncPoint.viewFor, FSyncPoint.empty]), hpath, hcache]
  exact hview _ _ _ rfl

/-- Removing all views at a path, and listening there again with data from persistence. -/
def relisten (path : FPath K) (node : FNode K V) : List (SyncTreeOperation K V) :=
  [.removeEventRegistration .all (.defaultQueryAtPath path) false,
    .addEventRegistration (.handle 0) (.defaultQueryAtPath path) (persisted node)]

theorem exists_run_relisten (self : FSyncTree K V) (path : FPath K) (node : FNode K V) :
    ∃ tree, self.run (relisten path node) = some tree ∧
      tree.pendingWriteTree = self.pendingWriteTree ∧
      (∀ other, other ≠ path → tree.syncPointTree.valueAt other = self.syncPointTree.valueAt other) ∧
      ((∀ above, above <+: path → above ≠ path → self.syncPointTree.valueAt above = none) →
        ∃ syncPoint, tree.syncPointTree.valueAt path = some syncPoint ∧
          syncPoint.completeServerCacheAtPath [] = some node) := by
  obtain ⟨removed, hremoved, hpending, hvalue⟩ := self.exists_removeAll path
  refine ⟨removed.addEventRegistration (.handle 0) (.defaultQueryAtPath path) (persisted node), ?_, ?_,
    fun other hother => ?_, fun habove => ?_⟩
  · simp [relisten, run, Permits, perform, hremoved]
  · rw [pendingWriteTree_addEventRegistration, hpending]
  · rw [valueAt_addEventRegistration, FQuerySpec.defaultQueryAtPath, if_neg hother, hvalue, if_neg hother]
  · have hnone : removed.syncPointTree.valuesOnPath path = [] := by
      refine FImmutableTree.valuesOnPath_eq_nil.mpr fun above hle => ?_
      rw [hvalue]
      split_ifs with hpath
      · rfl
      · exact habove above hle hpath
    refine ⟨_, ?_, completeServerCache_registered hnone node⟩
    rw [valueAt_addEventRegistration, FQuerySpec.defaultQueryAtPath, if_pos rfl]

/-- The empty sync point hides the server cache of a view below it. -/
theorem valuesOnPath_ne_nil_of_readsValue (h : self.ReadsValue query) (key : K) (hnode : node ≠ .empty) :
    self.syncPointTree.valuesOnPath query.path ≠ [] := by
  intro hnil
  have hnone := FImmutableTree.valuesOnPath_eq_nil.mp hnil
  have hcreated : (self.getServerValue query).1 =
      { self with syncPointTree := self.syncPointTree.setValue (some .empty) query.path } := by
    have htarget : self.searchTarget query.path = none := by simp [searchTarget, hnil]
    rw [getServerValue, forEachOn_visitEventCache, htarget]
  have hbelow : ∀ above, above <+: query.path → above ≠ query.path ++ [key] := by
    rintro above hle rfl
    have hlen := hle.length_le
    simp at hlen
  have habove : ∀ above, above <+: query.path ++ [key] → above ≠ query.path ++ [key] →
      self.syncPointTree.valueAt above = none := fun above hle hne =>
    hnone above ((List.prefix_concat_iff.mp hle).resolve_left hne)
  obtain ⟨tree, hrun, hpending, hvalue, hpoint⟩ :=
    self.exists_run_relisten (query.path ++ [key]) node
  obtain ⟨tree', hrun', hpending', hvalue', _⟩ :=
    (self.getServerValue query).1.exists_run_relisten (query.path ++ [key]) node
  rw [hcreated] at hpending' hvalue'
  -- without the call the new view answers, with it the empty sync point above
  have hcalc : tree.calcCompleteEventCacheAtPath (query.path ++ [key])
      (self.pendingWriteTree.allWrites.map FWriteRecord.writeId) = some node := by
    obtain ⟨syncPoint, hsyncPoint, hcache⟩ := hpoint habove
    have hfirst := FImmutableTree.head?_valuesOnPath_of_first List.prefix_rfl hsyncPoint
      fun above hle hne => by rw [hvalue above hne, habove above hle hne]
    rw [← hpending, calcCompleteEventCacheAtPath_excludeAll, hfirst, Option.bind_some,
      FPath.relativePath_self, hcache]
    rfl
  have hcalc' : tree'.calcCompleteEventCacheAtPath (query.path ++ [key])
      (self.pendingWriteTree.allWrites.map FWriteRecord.writeId) = some .empty := by
    have hold : ∀ above, above <+: query.path → tree'.syncPointTree.valueAt above =
        if above = query.path then some .empty else none := fun above hle => by
      rw [hvalue' above (hbelow above hle), FImmutableTree.valueAt_setValue, hnone above hle]
    have hfirst : (tree'.syncPointTree.valuesOnPath (query.path ++ [key])).head? =
        some (query.path, .empty) := by
      refine FImmutableTree.head?_valuesOnPath_of_first (List.prefix_append _ _) ?_ fun above hle hne => ?_
      · rw [hold _ List.prefix_rfl, if_pos rfl]
      · rw [hold above hle, if_neg hne]
    have hids : tree'.pendingWriteTree = self.pendingWriteTree := hpending'
    rw [← hids, calcCompleteEventCacheAtPath_excludeAll, hfirst]
    rfl
  have hsame := (h.2 _ tree tree' hrun hrun').1 (query.path ++ [key])
    (self.pendingWriteTree.allWrites.map FWriteRecord.writeId)
  rw [hcalc, hcalc'] at hsame
  exact hnode (Option.some.inj hsame).symm

/-- A search that ends in the right place reads the value of the query, and leaves everything as it is
exactly if a sync point lies on the path. -/
theorem readsValue_iff {self : FSyncTree K V} {query : FQuerySpec K V} (htargeted : self.Targeted query)
    (key : K) {node : FNode K V} (hnode : node ≠ .empty) :
    self.ReadsValue query ↔ self.syncPointTree.valuesOnPath query.path ≠ [] := by
  refine ⟨fun h => valuesOnPath_ne_nil_of_readsValue h key hnode, fun hpoint => ?_⟩
  refine ⟨fun node hnode => isValueOf_getServerValue htargeted hnode,
    fun operations tree tree' hrun hrun' => ?_⟩
  rw [getServerValue_unchanged hpoint, hrun] at hrun'
  cases hrun'
  exact ⟨fun _ _ => rfl, fun _ _ _ => rfl⟩

/-- A view at `a` with data of the server. -/
def listenAtChild : FSyncTree String Int :=
  (initial.run [.addEventRegistration (.handle 1) (.defaultQueryAtPath ["a"]) none,
    .applyServerOverwrite ["a"] (FNode.empty.updateChild ["b"] (.leaf 1 .empty))]).getD initial

theorem reachable_listenAtChild : listenAtChild.Reachable := Reachable.initial.run (by decide)

theorem readsValue_iff_listenAtChild :
    listenAtChild.ReadsValue (.defaultQueryAtPath ["a"]) ↔
      listenAtChild.syncPointTree.valuesOnPath ["a"] ≠ [] := by
  have htarget : ∀ found ∈ listenAtChild.searchTarget ["a"], found.1 = ["a"] := by decide
  have htargeted : listenAtChild.Targeted (.defaultQueryAtPath ["a"]) := fun found hfound =>
    Or.inl (htarget found hfound)
  exact readsValue_iff htargeted "b" (show FNode.leaf (1 : Int) .empty ≠ .empty by decide)

/-- The value of the default query at `a/b` is the data at `a`, of the default view there. -/
theorem readsValue_fails_below_view :
    ¬∀ tree : FSyncTree String Int, tree.Reachable → ∀ query, tree.ReadsValue query := by
  intro hall
  have hvalue := (hall listenAtChild reachable_listenAtChild (.defaultQueryAtPath ["a", "b"])).1
    (FNode.empty.updateChild ["b"] (.leaf 1 .empty)) (by decide)
  exact absurd hvalue (by decide)

end FSyncTree

end FirebaseSwift.Database
