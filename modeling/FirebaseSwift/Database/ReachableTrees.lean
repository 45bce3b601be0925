import FirebaseSwift.Database.SyncPointUpdates

/-! Every sync tree that a run reaches is formed, and its views keep every property that new views have
and that operations keep. -/

namespace FirebaseSwift.Database

variable {K V : Type} [DatabaseKey K] [DatabaseValue V] [QueryFilters K V]

namespace FSyncPoint

variable {syncPoint : FSyncPoint K V} {property : FView K V → Prop}

theorem AllViews.addToExistingView (hstable : FSyncTree.Stable property) (h : syncPoint.AllViews property)
    (registration : FEventRegistration) (query : FQuerySpec K V) :
    (syncPoint.addToExistingView registration query).AllViews property := by
  rw [FSyncPoint.addToExistingView]
  cases hview : syncPoint.viewFor query.params with
  | none => exact h
  | some view => exact h.setView (hstable.registrations view _ (h _ (mem_of_viewFor hview))) _

theorem AllViews.addToNewView (hstable : FSyncTree.Stable property) (h : syncPoint.AllViews property)
    (registration : FEventRegistration) (query : FQuerySpec K V) (writesCache : FWriteTreeRef K V)
    (serverCache : FCacheNode K V) :
    (syncPoint.addToNewView registration query writesCache serverCache).AllViews property := by
  refine .addToExistingView hstable (h.setView ?_ query.params) registration query
  rw [getView]
  cases hview : syncPoint.viewFor query.params with
  | none => exact hstable.ofQuery _ _
  | some view => exact h _ (mem_of_viewFor hview)

theorem AllViews.remaining (hstable : FSyncTree.Stable property) (h : syncPoint.AllViews property)
    (matcher : FEventRegistrationMatcher) (query : FQuerySpec K V) :
    (syncPoint.remaining matcher query).AllViews property := by
  intro entry hmem
  obtain ⟨old, hold, rfl⟩ := List.mem_map.mp (List.mem_of_mem_filter hmem)
  rw [stripped]
  split_ifs
  · exact hstable.registrations old.2 _ (h old hold)
  · exact h old hold

end FSyncPoint

namespace FSyncTree

variable {tree tree' : FSyncTree K V} {property : FView K V → Prop}

/-! ### One operation -/

theorem Takes.refl (tree : FSyncTree K V) : tree.Takes tree :=
  fun path => ⟨none, tree.pendingWriteTree.childWritesForPath path, .refl _ _⟩

omit [DatabaseValue V] [QueryFilters K V] in
theorem AllViews.getD (h : tree.AllViews property) (path : FPath K) :
    ((tree.syncPointTree.valueAt path).getD .empty).AllViews property := by
  cases hvalue : tree.syncPointTree.valueAt path with
  | none => exact fun _ hmem => nomatch hmem
  | some syncPoint => exact h path syncPoint hvalue

theorem Formed.addEventRegistration (h : tree.Formed) (eventRegistration : FEventRegistration)
    (query : FQuerySpec K V) (persistenceServerCache : Option (FCacheNode K V)) :
    (tree.addEventRegistration eventRegistration query persistenceServerCache).Formed := by
  have hregistered := h.registered eventRegistration query persistenceServerCache
  have htagged : (tree.addTag query).Formed := by
    refine ⟨?_, ?_⟩
    · rw [syncPointTree_addTag]
      exact h.sorted
    · rw [syncPointTree_addTag]
      exact h.wellFormed
  rw [addEventRegistration_eq]
  dsimp only
  split_ifs
  · exact h.setRegistered hregistered
  · rw [setupListenerOnQuery_eq]
    exact ⟨(htagged.setRegistered hregistered).sorted, (htagged.setRegistered hregistered).wellFormed⟩
  · exact htagged.setRegistered hregistered

theorem AllViews.addEventRegistration (hstable : Stable property) (h : tree.AllViews property)
    (eventRegistration : FEventRegistration) (query : FQuerySpec K V)
    (persistenceServerCache : Option (FCacheNode K V)) :
    (tree.addEventRegistration eventRegistration query persistenceServerCache).AllViews property := by
  intro path syncPoint hvalue
  rw [valueAt_addEventRegistration] at hvalue
  split_ifs at hvalue
  · cases hvalue
    unfold registered
    dsimp only
    split_ifs
    · exact .addToExistingView hstable (h.getD query.path) eventRegistration query
    · exact .addToNewView hstable (h.getD query.path) eventRegistration query _ _
  · exact h path syncPoint hvalue

variable {matcher : FEventRegistrationMatcher} {query : FQuerySpec K V} {cancelError : Bool}
variable {operation : SyncTreeOperation K V}

omit [QueryFilters K V] in
/-- A removal leaves the tree alone, or leaves at its path what remains there. -/
theorem syncPointTree_removeEventRegistration
    (h : tree.removeEventRegistration matcher query cancelError = some tree') :
    tree'.syncPointTree = tree.syncPointTree ∨
      ∃ syncPoint, tree.syncPointTree.valueAt query.path = some syncPoint ∧ tree'.syncPointTree =
        (tree.setRemaining query.path (syncPoint.remaining matcher query)).syncPointTree := by
  rcases tree.removeEventRegistration_cases matcher query cancelError with
    ⟨_, hnone⟩ | ⟨syncPoint, hvalue, _, ⟨_, hstops⟩ | ⟨_, hremove⟩⟩
  · rw [h] at hnone
    cases hnone
    exact Or.inl rfl
  · rw [h] at hstops
    cases hstops
  · rw [h] at hremove
    cases hremove
    obtain ⟨_, htags⟩ := removeTags_eq ((tree.setRemaining query.path
      (syncPoint.remaining matcher query)).updateListens query (syncPoint.removedQueries matcher query)
        cancelError) (syncPoint.removedQueries matcher query)
    refine Or.inr ⟨syncPoint, hvalue, ?_⟩
    rw [htags, updateListens_eq]

omit [QueryFilters K V] in
theorem Formed.removeEventRegistration (hformed : tree.Formed)
    (h : tree.removeEventRegistration matcher query cancelError = some tree') : tree'.Formed := by
  rcases syncPointTree_removeEventRegistration h with hsame | ⟨syncPoint, hvalue, hsame⟩
  · refine ⟨?_, ?_⟩ <;> rw [hsame]
    · exact hformed.sorted
    · exact hformed.wellFormed
  · have hremaining : (syncPoint.remaining matcher query).WellFormed query.path :=
      (hformed.at hvalue).remaining matcher
    have hafter := hformed.setRemaining hremaining
    refine ⟨?_, ?_⟩ <;> rw [hsame]
    · exact hafter.sorted
    · exact hafter.wellFormed

theorem AllViews.removeEventRegistration (hstable : Stable property) (hviews : tree.AllViews property)
    (h : tree.removeEventRegistration matcher query cancelError = some tree') : tree'.AllViews property := by
  intro path found hfound
  rcases syncPointTree_removeEventRegistration h with hsame | ⟨syncPoint, hvalue, hsame⟩
  · rw [hsame] at hfound
    exact hviews path found hfound
  · rw [hsame, valueAt_setRemaining] at hfound
    split_ifs at hfound
    · cases hfound
    · cases hfound
      exact .remaining hstable (hviews query.path syncPoint hvalue) matcher query
    · exact hviews path found hfound

omit [DatabaseValue V] [QueryFilters K V] in
theorem isSome_visitEventCache [DatabaseValue V] {path : FPath K} {found : List (FPath K × FSyncPoint K V)}
    (hne : found ≠ []) (state : Option (FNode K V) × Option (FSyncPoint K V)) :
    (FImmutableTree.visitWhile (visitEventCache path) found state).2.isSome = true := by
  induction found generalizing state with
  | nil => exact absurd rfl hne
  | cons first rest ih =>
      rw [FImmutableTree.visitWhile]
      split_ifs
      · cases rest with
        | nil => rfl
        | cons second rest => exact ih (List.cons_ne_nil _ _) _
      · rfl

/-- Asking for the value of the server adds at most a sync point without views. -/
theorem getServerValue_cases (tree : FSyncTree K V) (query : FQuerySpec K V) : (tree.getServerValue query).1 = tree ∨
      tree.syncPointTree.valueAt query.path = none ∧ (tree.getServerValue query).1 =
        { tree with syncPointTree := tree.syncPointTree.setValue (some .empty) query.path } := by
  rw [getServerValue]
  split
  · exact Or.inl rfl
  · next hvisit =>
      refine Or.inr ⟨?_, rfl⟩
      rw [FImmutableTree.forEachOn_eq] at hvisit
      by_contra hvalue
      have hne : tree.syncPointTree.valuesOnPath query.path ≠ [] := fun hnil =>
        hvalue (FImmutableTree.valuesOnPath_eq_nil.mp hnil query.path List.prefix_rfl)
      have hsome := @isSome_visitEventCache _ _ _ _ query.path _ hne (none, none)
      simp only [List.nil_append] at hvisit
      rw [hvisit] at hsome
      cases hsome

theorem Formed.getServerValue (h : tree.Formed) (query : FQuerySpec K V) : (tree.getServerValue query).1.Formed := by
  rcases tree.getServerValue_cases query with hsame | ⟨_, hset⟩
  · rw [hsame]
    exact h
  · rw [hset]
    refine ⟨h.sorted.setValue _ _, fun path syncPoint hvalue => ?_⟩
    rw [FImmutableTree.valueAt_setValue] at hvalue
    split_ifs at hvalue
    · cases hvalue
      exact .empty _
    · exact h.wellFormed path syncPoint hvalue

theorem views_getServerValue (tree : FSyncTree K V) (query : FQuerySpec K V) :
    (tree.getServerValue query).1.views = tree.views := by
  rcases tree.getServerValue_cases query with hsame | ⟨hnone, hset⟩
  · rw [hsame]
  · ext other
    rw [hset, mem_views_iff, mem_views_iff, FImmutableTree.valueAt_setValue]
    split_ifs with hpath
    · rw [hpath, hnone]
      simp [FSyncPoint.viewExistsForQuery, FSyncPoint.viewFor, FSyncPoint.empty]
    · rfl

theorem AllViews.getServerValue (h : tree.AllViews property) (query : FQuerySpec K V) :
    (tree.getServerValue query).1.AllViews property := by
  rcases tree.getServerValue_cases query with hsame | ⟨_, hset⟩
  · rw [hsame]
    exact h
  · rw [hset]
    intro path syncPoint hvalue
    rw [FImmutableTree.valueAt_setValue] at hvalue
    split_ifs at hvalue
    · cases hvalue
      exact fun _ hmem => nomatch hmem
    · exact h path syncPoint hvalue

/-! ### Runs -/

/-- What an operation does to the sync points. -/
theorem perform_cases (h : tree.perform operation = some tree') :
    (tree.Takes tree' ∧ (tree.syncPointTree.IsSorted → tree'.syncPointTree.IsSorted)) ∨
      (∃ eventRegistration query persistenceServerCache,
        tree' = tree.addEventRegistration eventRegistration query persistenceServerCache) ∨
      (∃ matcher query cancelError, tree.removeEventRegistration matcher query cancelError = some tree') ∨
      ∃ query, tree' = (tree.getServerValue query).1 := by
  have happly : ∀ {start : FSyncTree K V} {operation : FOperation K V (FQueryParams K V)},
      start.applyOperationToSyncPoints operation = some tree' → start.syncPointTree = tree.syncPointTree →
        tree.Takes tree' ∧ (tree.syncPointTree.IsSorted → tree'.syncPointTree.IsSorted) := by
    intro start operation h hsame
    have htakes := takes_applyOperationToSyncPoints h
    rw [Takes, hsame] at htakes
    refine ⟨htakes, fun hsorted => ?_⟩
    obtain ⟨_, happly, rfl⟩ := Option.map_eq_some_iff.mp h
    exact isSorted_applyOperationHelper (hsame ▸ hsorted) happly
  have htagged : ∀ {path tagId}
      {operation : FOperationSource (FQueryParams K V) → FPath K → FOperation K V (FQueryParams K V)},
      tree.applyToTaggedQuery path tagId operation = some tree' →
        tree.Takes tree' ∧ (tree.syncPointTree.IsSorted → tree'.syncPointTree.IsSorted) := by
    intro path tagId operation h
    refine ⟨takes_applyToTaggedQuery h, fun hsorted => ?_⟩
    unfold applyToTaggedQuery applyTaggedOperation at h
    split at h
    · cases h
      exact hsorted
    · split at h
      · cases h
        exact hsorted
      · obtain ⟨_, _, rfl⟩ := Option.map_eq_some_iff.mp h
        exact hsorted.setValue _ _
  cases operation with
  | applyUserOverwrite path newData writeId isVisible =>
      simp only [perform, applyUserOverwriteAtPath] at h
      split_ifs at h
      · cases h
        exact Or.inl ⟨.refl tree, id⟩
      · exact Or.inl (happly h rfl)
  | applyUserMerge path changedChildren writeId =>
      simp only [perform, applyUserMergeAtPath] at h
      exact Or.inl (happly h rfl)
  | ackUserWrite writeId revert =>
      simp only [perform, ackUserWriteWithWriteId] at h
      split at h
      · cases h
        exact Or.inl ⟨.refl tree, id⟩
      · split_ifs at h
        · cases h
          exact Or.inl ⟨.refl tree, id⟩
        · exact Or.inl (happly h rfl)
  | removeAllWrites =>
      simp only [perform, removeAllWrites] at h
      split_ifs at h
      · exact Or.inl (happly h rfl)
      · cases h
        exact Or.inl ⟨.refl tree, id⟩
  | applyServerOverwrite path newData => exact Or.inl (happly h rfl)
  | applyServerMerge path changedChildren => exact Or.inl (happly h rfl)
  | applyListenComplete path => exact Or.inl (happly h rfl)
  | applyTaggedQueryOverwrite path newData tagId =>
      simp only [perform, applyTaggedQueryOverwriteAtPath] at h
      exact Or.inl (htagged h)
  | applyTaggedQueryMerge path changedChildren tagId =>
      simp only [perform, applyTaggedQueryMergeAtPath] at h
      exact Or.inl (htagged h)
  | applyTaggedListenComplete path tagId => exact Or.inl (htagged h)
  | addEventRegistration eventRegistration query persistenceServerCache =>
      cases h
      exact Or.inr (Or.inl ⟨eventRegistration, query, persistenceServerCache, rfl⟩)
  | removeEventRegistration matcher query cancelError =>
      exact Or.inr (Or.inr (Or.inl ⟨matcher, query, cancelError, h⟩))
  | getServerValue query =>
      cases h
      exact Or.inr (Or.inr (Or.inr ⟨query, rfl⟩))

theorem Formed.perform (h : tree.Formed) (hperform : tree.perform operation = some tree') : tree'.Formed := by
  rcases perform_cases hperform with
    ⟨htakes, hsorted⟩ | ⟨eventRegistration, query, persistenceServerCache, rfl⟩ |
      ⟨matcher, query, cancelError, hremove⟩ | ⟨query, rfl⟩
  · exact ⟨hsorted h.sorted, htakes.wellFormedAt h.wellFormed⟩
  · exact h.addEventRegistration eventRegistration query persistenceServerCache
  · exact h.removeEventRegistration hremove
  · exact h.getServerValue query

theorem AllViews.perform (hstable : Stable property) (h : tree.AllViews property)
    (hperform : tree.perform operation = some tree') : tree'.AllViews property := by
  rcases perform_cases hperform with
    ⟨htakes, _⟩ | ⟨eventRegistration, query, persistenceServerCache, rfl⟩ |
      ⟨matcher, query, cancelError, hremove⟩ | ⟨query, rfl⟩
  · exact htakes.allViews hstable h
  · exact .addEventRegistration hstable h eventRegistration query persistenceServerCache
  · exact .removeEventRegistration hstable h hremove
  · exact h.getServerValue query

omit [DatabaseValue V] [QueryFilters K V] in
theorem Formed.initial : (initial : FSyncTree K V).Formed := by
  refine ⟨.empty, fun path syncPoint hvalue => ?_⟩
  rw [FSyncTree.initial, FImmutableTree.valueAt_empty] at hvalue
  cases hvalue

theorem Reachable.formed (h : tree.Reachable) : tree.Formed := by
  induction h with
  | initial => exact .initial
  | step operation _ _ hperform ih => exact ih.perform hperform

theorem Reachable.allViews (hstable : Stable property) (h : tree.Reachable) : tree.AllViews property := by
  induction h with
  | initial =>
      intro path syncPoint hvalue
      rw [FSyncTree.initial, FImmutableTree.valueAt_empty] at hvalue
      cases hvalue
  | step operation _ _ hperform ih => exact ih.perform hstable hperform

end FSyncTree

end FirebaseSwift.Database
