import FirebaseSwift.Database.SyncTree

/-! What registrations and removals change. Starting and stopping listens only extends the log, by calls
that depend on the tags at that time; removing tags changes the tags only. -/

namespace FirebaseSwift.Database

variable {K V : Type} [DatabaseKey K]

namespace FSyncTree

def startCall (self : FSyncTree K V) (query : FQuerySpec K V) : ListenCall K V :=
  .startListening (queryForListening query) (self.tagFor query)

def stopCall (self : FSyncTree K V) (query : FQuerySpec K V) : ListenCall K V :=
  .stopListening (queryForListening query) (self.tagFor query)

variable (self : FSyncTree K V) {query : FQuerySpec K V} {removed : List (FQuerySpec K V)}

theorem foldl_stopListening (queries : List (FQuerySpec K V)) : queries.foldl stopListening self =
      { self with listenCalls := self.listenCalls ++ queries.map self.stopCall } := by
  induction queries generalizing self with
  | nil => simp
  | cons query rest ih =>
      rw [List.foldl_cons, ih, List.map_cons]
      simp only [stopListening, List.append_assoc, List.singleton_append]
      rfl

theorem foldl_startListening (views : List (FView K V)) :
    views.foldl (fun self view => self.startListening view.query) self =
      { self with listenCalls := self.listenCalls ++ views.map fun view => self.startCall view.query } := by
  induction views generalizing self with
  | nil => simp
  | cons view rest ih =>
      rw [List.foldl_cons, ih, List.map_cons]
      simp only [startListening, List.append_assoc, List.singleton_append]
      rfl

/-- The calls of `setupListenerOnQuery`. -/
def setupCalls (self : FSyncTree K V) (query : FQuerySpec K V) : List (ListenCall K V) :=
  self.startCall query ::
    if (self.tagFor query).isSome then []
    else ((self.syncPointTree.subtree query.path).fold queriesToStopBlock []).map self.stopCall

theorem setupListenerOnQuery_eq (query : FQuerySpec K V) : self.setupListenerOnQuery query =
      { self with listenCalls := self.listenCalls ++ self.setupCalls query } := by
  unfold setupListenerOnQuery setupCalls
  dsimp only
  split_ifs
  · rfl
  · rw [foldl_stopListening]
    simp only [startListening, List.append_assoc, List.singleton_append]
    rfl

/-- The calls of a removal at a path. -/
def updateCalls (self : FSyncTree K V) (query : FQuerySpec K V) (removed : List (FQuerySpec K V))
    (cancelError : Bool) : List (ListenCall K V) :=
  let removingDefault := removed.any fun removedQuery => removedQuery.loadsAllData
  (if removingDefault && !self.covered query.path then
    (collectDistinctViewsForSubTree (self.syncPointTree.subtree query.path)).map fun view =>
      self.startCall view.query
  else []) ++
  if !self.covered query.path && !removed.isEmpty && !cancelError then
    if removingDefault then [.stopListening (queryForListening query) none]
    else removed.map self.stopCall
  else []

theorem updateListens_eq (query : FQuerySpec K V) (removed : List (FQuerySpec K V)) (cancelError : Bool) :
    self.updateListens query removed cancelError =
      { self with listenCalls := self.listenCalls ++ self.updateCalls query removed cancelError } := by
  unfold updateListens updateCalls
  dsimp only
  have hstop : ∀ (calls : List (ListenCall K V)),
      ({ self with listenCalls := calls } : FSyncTree K V).stopCall = self.stopCall := fun _ => rfl
  split_ifs <;>
    simp only [foldl_startListening, foldl_stopListening, hstop, List.append_assoc, List.nil_append,
      List.append_nil]

theorem updateCalls_of_covered (hfirst : self.covered query.path = true) (cancelError : Bool) :
    self.updateCalls query removed cancelError = [] := by
  simp [updateCalls, hfirst]

theorem updateCalls_of_default (hfirst : self.covered query.path = false)
    (hany : (removed.any fun query => query.loadsAllData) = true) (cancelError : Bool) :
    self.updateCalls query removed cancelError =
      (collectDistinctViewsForSubTree (self.syncPointTree.subtree query.path)).map
          (fun view => self.startCall view.query) ++
        if cancelError then [] else [.stopListening (queryForListening query) none] := by
  have hisEmpty : removed.isEmpty = false := by
    cases removed with
    | nil => cases hany
    | cons => rfl
  cases cancelError <;> simp [updateCalls, hfirst, hany, hisEmpty]

theorem updateCalls_of_filtered (hfirst : self.covered query.path = false)
    (hany : (removed.any fun query => query.loadsAllData) = false) (cancelError : Bool) :
    self.updateCalls query removed cancelError =
      if cancelError then [] else removed.map self.stopCall := by
  unfold updateCalls
  dsimp only
  rw [hany]
  cases removed with
  | nil => cases cancelError <;> simp
  | cons => cases cancelError <;> simp [hfirst]

end FSyncTree

/-! ### Views that go -/

variable [DatabaseValue V]

namespace FSyncPoint

/-- An entry after the matching registrations are taken from its view, if the removal reaches it. -/
def stripped (matcher : FEventRegistrationMatcher) (query : FQuerySpec K V)
    (entry : FQueryParams K V × FView K V) : FQueryParams K V × FView K V :=
  if removalReaches query entry.1 then
    (entry.1, { entry.2 with
      eventRegistrations := entry.2.eventRegistrations.filter fun existing => !existing.matches matcher })
  else entry

/-- An entry that the removal reaches and whose view has no registration. -/
def gone (query : FQuerySpec K V) (entry : FQueryParams K V × FView K V) : Bool :=
  removalReaches query entry.1 && entry.2.isEmpty

/-- The views that remain. -/
def remaining (self : FSyncPoint K V) (matcher : FEventRegistrationMatcher) (query : FQuerySpec K V) :
    FSyncPoint K V :=
  ⟨(self.views.map (stripped matcher query)).filter fun entry => !gone query entry⟩

/-- The queries of the views that go, with the default query for the last complete view. -/
def removedQueries (self : FSyncPoint K V) (matcher : FEventRegistrationMatcher)
    (query : FQuerySpec K V) : List (FQuerySpec K V) :=
  (((self.views.map (stripped matcher query)).filter fun entry =>
      gone query entry && !entry.2.query.loadsAllData).map fun entry => entry.2.query) ++
    if self.hasCompleteView && !(self.remaining matcher query).hasCompleteView then
      [.defaultQueryAtPath query.path]
    else []

/-- Only a cancel of a registration that keeps data synced stops the program. -/
def Stops (self : FSyncPoint K V) (query : FQuerySpec K V) (cancelError : Bool) : Prop :=
  cancelError = true ∧ ∃ entry ∈ self.views, removalReaches query entry.1 = true ∧
    .keepSynced ∈ entry.2.eventRegistrations

theorem mapM_stripped (matcher : FEventRegistrationMatcher) (query : FQuerySpec K V)
    (cancelError : Bool) (views : List (FQueryParams K V × FView K V)) : views.mapM (fun entry =>
        if removalReaches query entry.1 then
          (entry.2.removeEventRegistration matcher cancelError).map fun view => (entry.1, view)
        else some entry) =
      if cancelError = true ∧ ∃ entry ∈ views, removalReaches query entry.1 = true ∧
          .keepSynced ∈ entry.2.eventRegistrations then none
      else some (views.map (stripped matcher query)) := by
  induction views with
  | nil => simp
  | cons entry rest ih =>
      rw [List.mapM_cons, ih]
      by_cases hreaches : removalReaches query entry.1 = true
      · cases cancelError with
        | false => simp [hreaches, FView.removeEventRegistration, stripped]
        | true =>
            by_cases hsynced : FEventRegistration.keepSynced ∈ entry.2.eventRegistrations
            · simp [hreaches, hsynced, FView.removeEventRegistration]
            · by_cases hrest : ∃ entry ∈ rest, removalReaches query entry.1 = true ∧
                  FEventRegistration.keepSynced ∈ entry.2.eventRegistrations
              · simp [hreaches, hsynced, FView.removeEventRegistration, hrest]
              · simp [hreaches, hsynced, FView.removeEventRegistration, hrest, stripped]
      · cases cancelError with
        | false => simp [hreaches, stripped]
        | true =>
            by_cases hrest : ∃ entry ∈ rest, removalReaches query entry.1 = true ∧
                FEventRegistration.keepSynced ∈ entry.2.eventRegistrations
            · simp [hreaches, hrest]
            · simp [hreaches, hrest, stripped]

open Classical in
theorem removeEventRegistration_eq (self : FSyncPoint K V) (matcher : FEventRegistrationMatcher)
    (query : FQuerySpec K V) (cancelError : Bool) : self.removeEventRegistration matcher query cancelError =
      if self.Stops query cancelError then none
      else some (self.remaining matcher query, self.removedQueries matcher query) := by
  unfold removeEventRegistration Stops
  rw [mapM_stripped]
  split_ifs
  · rfl
  · rw [Option.map_some, removedQueries]
    by_cases hlast : (self.hasCompleteView && !(self.remaining matcher query).hasCompleteView) = true
    · rw [if_pos hlast]
      exact congrArg some (Prod.ext rfl (if_pos hlast))
    · rw [if_neg hlast, List.append_nil]
      exact congrArg some (Prod.ext rfl (if_neg hlast))

end FSyncPoint

namespace FSyncTree

/-- The tree of sync points after a removal at a path. -/
def setRemaining (self : FSyncTree K V) (path : FPath K) (syncPoint : FSyncPoint K V) :
    FSyncTree K V :=
  { self with
    syncPointTree :=
      if syncPoint.isEmpty then self.syncPointTree.removeValue path
      else self.syncPointTree.setValue (some syncPoint) path }

variable (self : FSyncTree K V)

omit [DatabaseValue V] in
theorem valueAt_setRemaining (path other : FPath K) (syncPoint : FSyncPoint K V) :
    (self.setRemaining path syncPoint).syncPointTree.valueAt other =
      if other = path then (if syncPoint.isEmpty then none else some syncPoint)
      else self.syncPointTree.valueAt other := by
  unfold setRemaining
  dsimp only
  split_ifs with hempty hother hother
  · rw [FImmutableTree.valueAt_removeValue, if_pos hother]
  · rw [FImmutableTree.valueAt_removeValue, if_neg hother]
  · rw [FImmutableTree.valueAt_setValue, if_pos hother]
  · rw [FImmutableTree.valueAt_setValue, if_neg hother]

/-- A removal does nothing without a sync point that it concerns; otherwise it removes views, calls the
listen provider and removes tags. -/
theorem removeEventRegistration_cases (matcher : FEventRegistrationMatcher) (query : FQuerySpec K V)
    (cancelError : Bool) : ((∀ syncPoint, self.syncPointTree.valueAt query.path = some syncPoint →
        (query.isDefault || syncPoint.viewExistsForQuery query) = false) ∧
      self.removeEventRegistration matcher query cancelError = some self) ∨
    ∃ syncPoint, self.syncPointTree.valueAt query.path = some syncPoint ∧
      (query.isDefault || syncPoint.viewExistsForQuery query) = true ∧
      (syncPoint.Stops query cancelError ∧
        self.removeEventRegistration matcher query cancelError = none ∨
      ¬syncPoint.Stops query cancelError ∧
        self.removeEventRegistration matcher query cancelError =
          some (((self.setRemaining query.path (syncPoint.remaining matcher query)).updateListens query
            (syncPoint.removedQueries matcher query) cancelError).removeTags
              (syncPoint.removedQueries matcher query))) := by
  unfold removeEventRegistration
  dsimp only
  cases hvalue : self.syncPointTree.valueAt query.path with
  | none => exact Or.inl ⟨fun _ h => (nomatch h), rfl⟩
  | some syncPoint =>
      cases hconcerned : query.isDefault || syncPoint.viewExistsForQuery query with
      | false =>
          refine Or.inl ⟨fun other hother => ?_, ?_⟩
          · cases hother
            exact hconcerned
          · rw [Option.filter_some, hconcerned, if_neg Bool.false_ne_true]
      | true =>
          refine Or.inr ⟨syncPoint, rfl, hconcerned, ?_⟩
          rw [Option.filter_some, hconcerned, if_pos rfl]
          dsimp only
          rw [FSyncPoint.removeEventRegistration_eq]
          by_cases hstops : syncPoint.Stops query cancelError
          · exact Or.inl ⟨hstops, by rw [if_pos hstops]; rfl⟩
          · exact Or.inr ⟨hstops, by rw [if_neg hstops]; rfl⟩

theorem removeTags_eq (queries : List (FQuerySpec K V)) : ∃ tagToQueryMap, self.removeTags queries =
      { self with
        queryToTagMap := fun query =>
          if query ∈ queries ∧ query.loadsAllData = false then none else self.queryToTagMap query
        tagToQueryMap := tagToQueryMap } := by
  induction queries generalizing self with
  | nil => exact ⟨self.tagToQueryMap, by simp [removeTags]⟩
  | cons removedQuery rest ih =>
      have hstep : ∃ tagToQueryMap, self.removeTags [removedQuery] =
          { self with
            queryToTagMap := fun query =>
              if query = removedQuery ∧ query.loadsAllData = false then none
              else self.queryToTagMap query
            tagToQueryMap := tagToQueryMap } := by
        simp only [removeTags, List.foldl_cons, List.foldl_nil]
        by_cases hloads : removedQuery.loadsAllData = true
        · refine ⟨self.tagToQueryMap, ?_⟩
          rw [if_pos hloads]
          have hmap : (fun query : FQuerySpec K V =>
              if query = removedQuery ∧ query.loadsAllData = false then none
              else self.queryToTagMap query) = self.queryToTagMap := by
            funext query
            rw [if_neg]
            rintro ⟨rfl, hnot⟩
            rw [hloads] at hnot
            cases hnot
          rw [hmap]
        · rw [if_neg hloads]
          have hloads' : removedQuery.loadsAllData = false := by simpa using hloads
          cases htag : self.queryToTagMap removedQuery with
          | none =>
              refine ⟨self.tagToQueryMap, ?_⟩
              have hmap : (fun query : FQuerySpec K V =>
                  if query = removedQuery ∧ query.loadsAllData = false then none
                  else self.queryToTagMap query) = self.queryToTagMap := by
                funext query
                split_ifs with hquery
                · rw [hquery.1, htag]
                · rfl
              rw [hmap]
          | some tag =>
              refine ⟨Function.update self.tagToQueryMap tag none, ?_⟩
              have hmap : Function.update self.queryToTagMap removedQuery none =
                  fun query : FQuerySpec K V =>
                    if query = removedQuery ∧ query.loadsAllData = false then none
                    else self.queryToTagMap query := by
                funext query
                rw [Function.update_apply]
                by_cases hquery : query = removedQuery
                · simp [hquery, hloads']
                · simp [hquery]
              rw [hmap]
      obtain ⟨first, hfirst⟩ := hstep
      obtain ⟨tags, htags⟩ := ih (self.removeTags [removedQuery])
      have hcons : self.removeTags (removedQuery :: rest) =
          (self.removeTags [removedQuery]).removeTags rest := by
        simp only [removeTags, List.foldl_cons, List.foldl_nil]
      refine ⟨tags, ?_⟩
      rw [hcons, htags, hfirst]
      congr 1
      funext query
      by_cases hquery : query = removedQuery
      · subst hquery
        by_cases hloads : query.loadsAllData = false <;> simp [hloads]
      · simp [hquery]

/-! ### A view that comes -/

theorem queryToTagMap_addTag (query other : FQuerySpec K V) : (self.addTag query).queryToTagMap other =
      if other = query ∧ query.loadsAllData = false then some self.queryTagCounter
      else self.queryToTagMap other := by
  unfold addTag
  cases hloads : query.loadsAllData <;> simp [Function.update_apply]

@[simp] theorem syncPointTree_addTag (query : FQuerySpec K V) :
    (self.addTag query).syncPointTree = self.syncPointTree := by
  unfold addTag
  split_ifs <;> rfl

@[simp] theorem pendingWriteTree_addTag (query : FQuerySpec K V) :
    (self.addTag query).pendingWriteTree = self.pendingWriteTree := by
  unfold addTag
  split_ifs <;> rfl

@[simp] theorem listenCalls_addTag (query : FQuerySpec K V) :
    (self.addTag query).listenCalls = self.listenCalls := by
  unfold addTag
  split_ifs <;> rfl

theorem addTag_setSyncPointTree (query : FQuerySpec K V) (syncPointTree : FSyncPointTree K V) :
    ({ self with syncPointTree := syncPointTree } : FSyncTree K V).addTag query =
      { self.addTag query with syncPointTree := syncPointTree } := by
  unfold addTag
  split_ifs <;> rfl

variable [QueryFilters K V]

/-- The tree with the sync point of a query set, as a registration does it in two steps. -/
def setRegistered (self : FSyncTree K V) (path : FPath K) (syncPoint : FSyncPoint K V) : FSyncTree K V :=
  { self with
    syncPointTree := (self.syncPointTree.setValue
      (some ((self.syncPointTree.valueAt path).getD .empty)) path).setValue (some syncPoint) path }

omit [DatabaseValue V] [QueryFilters K V] in
theorem valueAt_setRegistered (path other : FPath K) (syncPoint : FSyncPoint K V) :
    (self.setRegistered path syncPoint).syncPointTree.valueAt other =
      if other = path then some syncPoint else self.syncPointTree.valueAt other := by
  rw [setRegistered, FImmutableTree.valueAt_setValue, FImmutableTree.valueAt_setValue]
  split_ifs <;> rfl

/-- The sync point of the query after a registration. -/
def registered (self : FSyncTree K V) (eventRegistration : FEventRegistration) (query : FQuerySpec K V)
    (persistenceServerCache : Option (FCacheNode K V)) : FSyncPoint K V :=
  let syncPoint := (self.syncPointTree.valueAt query.path).getD .empty
  if syncPoint.viewExistsForQuery query then syncPoint.addToExistingView eventRegistration query
  else
    syncPoint.addToNewView eventRegistration query (self.pendingWriteTree.childWritesForPath query.path)
      (({ self with syncPointTree := self.syncPointTree.setValue (some syncPoint) query.path } :
        FSyncTree K V).serverCacheForQuery query persistenceServerCache)

variable (eventRegistration : FEventRegistration)

/-- A registration sets the sync point of the query. For a new view it adds a tag, and starts to listen
where no complete view is found. -/
theorem addEventRegistration_eq (query : FQuerySpec K V) (persistenceServerCache : Option (FCacheNode K V)) :
    self.addEventRegistration eventRegistration query persistenceServerCache =
      let syncPoint := self.registered eventRegistration query persistenceServerCache
      if ((self.syncPointTree.valueAt query.path).getD .empty).viewExistsForQuery query then
        self.setRegistered query.path syncPoint
      else if !self.foundAncestorDefaultView query.path then
        ((self.addTag query).setRegistered query.path syncPoint).setupListenerOnQuery query
      else (self.addTag query).setRegistered query.path syncPoint := by
  unfold addEventRegistration registered setRegistered
  dsimp only
  simp only [addTag_setSyncPointTree, syncPointTree_addTag, pendingWriteTree_addTag]
  split_ifs <;> rfl

theorem valueAt_addEventRegistration (query : FQuerySpec K V)
    (persistenceServerCache : Option (FCacheNode K V)) (other : FPath K) :
    (self.addEventRegistration eventRegistration query
        persistenceServerCache).syncPointTree.valueAt other =
      if other = query.path then some (self.registered eventRegistration query persistenceServerCache)
      else self.syncPointTree.valueAt other := by
  rw [addEventRegistration_eq]
  dsimp only
  split_ifs
  all_goals simp only [setupListenerOnQuery_eq, valueAt_setRegistered, syncPointTree_addTag]
  all_goals simp [*]

end FSyncTree

end FirebaseSwift.Database
