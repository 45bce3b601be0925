import FirebaseSwift.Database.PruneForests
import FirebaseSwift.Database.TrackedQueryRuns

/-! The tracked queries that a pruning removes. They are the first ones of those that are not active, by their
last use; all others stay, and the forest keeps their paths. The arithmetic of the number is the only thing
that stops the program. -/

namespace FirebaseSwift.Database

open SortedDictionary StepRuns

variable {K V : Type} [DatabaseKey K] [DatabaseValue V]

namespace FTrackedQueryManager

variable {manager manager' : FTrackedQueryManager K V} {cachePolicy : FCachePolicy}

/-! ### Valid queries -/

/-- `assertValidTrackedQuery` for all queries, in memory and stored -/
structure Valid (manager : FTrackedQueryManager K V) : Prop where
  tracked : ∀ spec, (manager.lookup spec).isSome = true → normalizeQuery spec = spec
  stored : ∀ row ∈ manager.storage, normalizeQuery row.2.query = row.2.query

theorem Valid.normalizeQuery_query (h : manager.Valid) (hformed : manager.Formed) {query : FTrackedQuery K V}
    (hmem : query ∈ manager.trackedQueries) : normalizeQuery query.query = query.query :=
  h.tracked _ (Option.isSome_of_mem (hformed.mem_trackedQueries.mp hmem))

variable {trackedQuery : FTrackedQuery K V} {operation : TrackOperation K V}

theorem Valid.put (h : manager.Valid) (hquery : normalizeQuery trackedQuery.query = trackedQuery.query) :
    (manager.put trackedQuery).Valid := by
  refine ⟨fun spec hspec => ?_, fun row hrow => ?_⟩
  · rw [lookup_put] at hspec
    split_ifs at hspec with hsame
    · rw [hsame, hquery]
    · exact h.tracked spec hspec
  · rcases mem_set _ hrow with rfl | hmem
    · exact hquery
    · exact h.stored row hmem

theorem Valid.removeTrackedQuery (h : manager.Valid) (query : FQuerySpec K V) :
    (manager.removeTrackedQuery query).Valid := by
  refine ⟨fun spec hspec => ?_, fun row hrow => ?_⟩
  · rw [lookup_removeTrackedQuery] at hspec
    split_ifs at hspec
    · cases hspec
    · exact h.tracked spec hspec
  · unfold FTrackedQueryManager.removeTrackedQuery at hrow
    cases hfind : manager.findTrackedQuery query with
    | none =>
        rw [hfind] at hrow
        exact h.stored row hrow
    | some found =>
        rw [hfind] at hrow
        exact h.stored row (mem_remove.mp hrow).1

theorem Changes.valid (h : manager.Changes manager') (hvalid : manager.Valid) : manager'.Valid := by
  induction h with
  | refl => exact hvalid
  | put _ trackedQuery hreplaces ih =>
      refine ih.put (ih.tracked _ ?_)
      by_contra hnone
      rw [Replaces, Option.not_isSome_iff_eq_none.mp hnone] at hreplaces
      cases hreplaces
  | remove _ query ih => exact ih.removeTrackedQuery query

theorem Valid.loadTrackedQuery (h : manager.Valid) (lastUse : Int)
    (hquery : normalizeQuery trackedQuery.query = trackedQuery.query) :
    (manager.loadTrackedQuery lastUse trackedQuery).Valid := by
  refine ⟨fun spec hspec => ?_, fun row hrow => ?_⟩
  · rw [lookup_loadTrackedQuery] at hspec
    split_ifs at hspec with hsame
    · rw [hsame, hquery]
    · exact h.tracked spec hspec
  · rw [storage_loadTrackedQuery] at hrow
    split_ifs at hrow
    · rcases mem_set _ hrow with rfl | hmem
      · rw [FTrackedQuery.query_reloaded, hquery]
      · exact h.stored row hmem
    · exact h.stored row hrow

theorem valid_ofStorage {storage : List (Int × FTrackedQuery K V)} {loaded : List (FTrackedQuery K V)}
    (hstorage : ∀ row ∈ storage, normalizeQuery row.2.query = row.2.query)
    (hloaded : ∀ trackedQuery ∈ loaded, normalizeQuery trackedQuery.query = trackedQuery.query)
    (lastUse : Int) : (ofStorage storage loaded lastUse).Valid := by
  induction loaded using List.reverseRecOn with
  | nil =>
      refine ⟨fun spec hspec => ?_, hstorage⟩
      rw [lookup_ofStorage_nil] at hspec
      cases hspec
  | append_singleton loaded last ih =>
      rw [ofStorage_append]
      obtain ⟨hrest, hlast⟩ := List.forall_mem_append.mp hloaded
      exact (ih hrest).loadTrackedQuery lastUse (hlast last (List.mem_singleton_self _))

theorem normalizeQuery_newQuery {query : FQuerySpec K V} (h : manager.newQuery operation = some query) :
    normalizeQuery query = query := by
  cases operation with
  | setQueryActive other _ | setQueryInactive other _ =>
      rw [newQuery] at h
      split_ifs at h
      cases h
      exact normalizeQuery_normalizeQuery other
  | ensureCompleteTrackedQuery path _ =>
      rw [newQuery] at h
      split_ifs at h
      cases h
      exact normalizeQuery_normalizeQuery (.defaultQueryAtPath path)
  | setQueryComplete _ | setQueriesCompleteAtPath _ | removeTrackedQuery _ | pruneOldQueries _ | restart _ _ =>
      cases h

theorem Valid.perform (h : manager.Valid) (hformed : manager.Formed)
    (hperform : manager.perform operation = some manager') : manager'.Valid := by
  rcases perform_cases hformed hperform with
    ⟨_, _, hchanges⟩ | ⟨trackedQuery, hnew, _, _, rfl⟩ | ⟨loaded, lastUse, _, hperm, rfl⟩
  · exact hchanges.valid h
  · have hnext : Valid { manager with currentQueryId := manager.currentQueryId + 1 } := ⟨h.tracked, h.stored⟩
    exact hnext.put (normalizeQuery_newQuery hnew)
  · refine valid_ofStorage h.stored (fun trackedQuery hmem => ?_) lastUse
    obtain ⟨row, hrow, rfl⟩ := List.mem_map.mp (hperm.mem_iff.mp hmem)
    exact h.stored row hrow

/-- In every run the manager tracks valid queries. -/
theorem valid_run {operations : List (TrackOperation K V)} {state : TrackState K V}
    (hrun : run TrackState.step (TrackState.initial : TrackState K V) operations = some state) :
    state.manager.Formed ∧ state.manager.Valid := by
  have hinitial : (TrackState.initial : TrackState K V).manager.Backed ∧
      (TrackState.initial : TrackState K V).manager.Valid :=
    ⟨TrackState.backed_initial, valid_ofStorage (List.forall_mem_nil _) (List.forall_mem_nil _) 0⟩
  have hinvariant := @invariant_run _ _ TrackState.step
    (fun state : TrackState K V => state.manager.Backed ∧ state.manager.Valid) (fun _ _ => True) ?_
    TrackState.initial state operations hinitial (allSteps_true (fun _ _ => trivial) _ _) hrun
  · exact ⟨hinvariant.1.toFormed, hinvariant.2⟩
  · rintro state operation ⟨hbacked, hvalid⟩ - state' hstep
    obtain ⟨hperform, -, -⟩ := TrackState.step_eq_some.mp hstep
    exact ⟨hbacked.perform hperform, hvalid.perform hbacked.toFormed hperform⟩

/-! ### Pruning -/

end FTrackedQueryManager

/-- The percentage of the queries is a 64-bit integer, and so is their number over the maximum. -/
def FCachePolicy.Counts (cachePolicy : FCachePolicy) (numPrunable : Nat) : Prop :=
  (Doubles.toInt (Doubles.round
      (Doubles.round numPrunable * cachePolicy.percentOfQueriesToPruneAtOnce))).isSome = true ∧
    numPrunable - cachePolicy.maxNumberOfQueriesToKeep < 2 ^ 63

namespace FTrackedQueryManager

variable {manager manager' : FTrackedQueryManager K V} {cachePolicy : FCachePolicy}
variable {numPrunable : Nat}

theorem numberOfQueriesToPrune_eq (h : cachePolicy.Counts numPrunable) : ∃ numPercent, Doubles.toInt (Doubles.round
        (Doubles.round numPrunable * cachePolicy.percentOfQueriesToPruneAtOnce)) = some numPercent ∧
      numberOfQueriesToPrune cachePolicy numPrunable =
        some (min (max (if numPrunable > cachePolicy.maxNumberOfQueriesToKeep then
          numPrunable - cachePolicy.maxNumberOfQueriesToKeep else 0) numPercent) numPrunable) := by
  obtain ⟨numPercent, hpercent⟩ := Option.isSome_iff_exists.mp h.1
  refine ⟨numPercent, hpercent, ?_⟩
  rw [numberOfQueriesToPrune, hpercent]
  by_cases hover : (numPrunable : Int) > cachePolicy.maxNumberOfQueriesToKeep
  · simp only [if_pos hover, if_pos h.2]
    rfl
  · simp only [if_neg hover]
    rfl

theorem lookup_foldl_removeTrackedQuery (removed : List (FTrackedQuery K V)) (spec : FQuerySpec K V) :
    (removed.foldl (fun manager trackedQuery => manager.removeTrackedQuery trackedQuery.query)
      manager).lookup spec =
      if ∃ trackedQuery ∈ removed, normalizeQuery trackedQuery.query = spec then none
      else manager.lookup spec := by
  induction removed generalizing manager with
  | nil => simp
  | cons first rest ih =>
      rw [List.foldl_cons, ih, lookup_removeTrackedQuery]
      by_cases hrest : ∃ trackedQuery ∈ rest, normalizeQuery trackedQuery.query = spec
      · obtain ⟨query, hmem, hquery⟩ := hrest
        rw [if_pos ⟨query, hmem, hquery⟩, if_pos ⟨query, List.mem_cons_of_mem _ hmem, hquery⟩]
      · rw [if_neg hrest]
        by_cases hfirst : normalizeQuery first.query = spec
        · rw [if_pos hfirst.symm, if_pos ⟨first, List.mem_cons_self, hfirst⟩]
        · rw [if_neg (Ne.symm hfirst), if_neg]
          rw [List.exists_mem_cons_iff, not_or]
          exact ⟨hfirst, hrest⟩

theorem Formed.foldl_removeTrackedQuery (h : manager.Formed) (removed : List (FTrackedQuery K V)) :
    (removed.foldl (fun manager trackedQuery => manager.removeTrackedQuery trackedQuery.query)
      manager).Formed :=
  (Changes.foldl_removeTrackedQuery .refl removed).formed h

/-- What a list of removals leaves -/
theorem Formed.mem_foldl_removeTrackedQuery (h : manager.Formed) (hvalid : manager.Valid)
    {removed : List (FTrackedQuery K V)} (hremoved : ∀ query ∈ removed, query ∈ manager.trackedQueries)
    {query : FTrackedQuery K V} :
    query ∈ (removed.foldl (fun manager trackedQuery => manager.removeTrackedQuery trackedQuery.query)
        manager).trackedQueries ↔ query ∈ manager.trackedQueries ∧ query ∉ removed := by
  rw [(h.foldl_removeTrackedQuery removed).mem_trackedQueries, h.mem_trackedQueries,
    lookup_foldl_removeTrackedQuery]
  by_cases hmem : ∃ other ∈ removed, normalizeQuery other.query = query.query
  · obtain ⟨other, hother, hsame⟩ := hmem
    rw [if_pos ⟨other, hother, hsame⟩]
    rw [hvalid.normalizeQuery_query h (hremoved other hother)] at hsame
    refine iff_of_false nofun ?_
    rintro ⟨hlookup, hnot⟩
    have hfound := h.mem_trackedQueries.mp (hremoved other hother)
    rw [hsame, hlookup] at hfound
    cases hfound
    exact hnot hother
  · rw [if_neg hmem, iff_self_and]
    intro hlookup hquery
    exact hmem ⟨query, hquery, hvalid.normalizeQuery_query h (hremoved query hquery)⟩

omit [DatabaseValue V] in
theorem length_prunableQueries (manager : FTrackedQueryManager K V) :
    (manager.prunableQueries.length : Int) = manager.numberOfPrunableQueries := by
  rw [prunableQueries, List.length_mergeSort, numberOfPrunableQueries]

omit [DatabaseValue V] in
theorem pairwise_prunableQueries (manager : FTrackedQueryManager K V) :
    manager.prunableQueries.Pairwise fun query query' => query.lastUse ≤ query'.lastUse := by
  have htrans : ∀ a b c : FTrackedQuery K V, decide (a.lastUse ≤ b.lastUse) = true →
      decide (b.lastUse ≤ c.lastUse) = true → decide (a.lastUse ≤ c.lastUse) = true :=
    fun a b c hab hbc => decide_eq_true ((of_decide_eq_true hab).trans (of_decide_eq_true hbc))
  have htotal : ∀ a b : FTrackedQuery K V,
      (decide (a.lastUse ≤ b.lastUse) || decide (b.lastUse ≤ a.lastUse)) = true := by
    intro a b
    rw [Bool.or_eq_true, decide_eq_true_iff, decide_eq_true_iff]
    exact le_total _ _
  exact (List.pairwise_mergeSort htrans htotal _).imp of_decide_eq_true

/-- The queries that are removed are the least recently used ones, as many as the policy asks for. All others
stay, and the forest and the rows that it removes leave their paths alone. -/
structure Selects (manager : FTrackedQueryManager K V) (cachePolicy : FCachePolicy)
    (manager' : FTrackedQueryManager K V) (forest : FPruneForest K) (removed kept : List (FTrackedQuery K V)) :
    Prop where
  inactive : (removed ++ kept).Perm (manager.trackedQueries.filter fun query => !query.isActive)
  leastRecent : ∀ query ∈ removed, ∀ other ∈ kept, query.lastUse ≤ other.lastUse
  number : ∃ numPercent, Doubles.toInt (Doubles.round (Doubles.round manager.prunableQueries.length *
      cachePolicy.percentOfQueriesToPruneAtOnce)) = some numPercent ∧
    (removed.length : Int) = min (max
      (if manager.prunableQueries.length > cachePolicy.maxNumberOfQueriesToKeep then
        manager.prunableQueries.length - cachePolicy.maxNumberOfQueriesToKeep else 0) numPercent)
      manager.prunableQueries.length
  /-- The assertion of `removeTrackedQuery` -/
  found : ∀ before query after, removed = before ++ query :: after →
    (before.foldl (fun manager trackedQuery => manager.removeTrackedQuery trackedQuery.query)
      manager).findTrackedQuery query.query = some query
  stays : ∀ query, query ∈ manager'.trackedQueries ↔ query ∈ manager.trackedQueries ∧ query ∉ removed
  prunes : ∀ path, forest.shouldPruneUnkeptDescendants path = true ↔
    (∃ query ∈ removed, query.query.path <+: path) ∧
      ¬∃ query ∈ manager'.trackedQueries, query.query.path <+: path
  rows : ∀ {α : Type} (rows : List (FPath K × α)), ∀ query ∈ manager'.trackedQueries,
    (FLevelDBStorageEngine.pruneCache rows forest []).filter (fun row => query.query.path.isPrefixOf row.1) =
      rows.filter fun row => query.query.path.isPrefixOf row.1

/-- Rows at and below a path where nothing is pruned stay. -/
theorem filter_pruneCache {α : Type} {forest : FPruneForest K} {path : FPath K}
    (h : ∀ below, path <+: below → ¬forest.shouldPruneUnkeptDescendants below = true) (rows : List (FPath K × α)) :
    (FLevelDBStorageEngine.pruneCache rows forest []).filter (fun row => path.isPrefixOf row.1) =
      rows.filter fun row => path.isPrefixOf row.1 := by
  rw [FLevelDBStorageEngine.pruneCache, List.filter_filter]
  refine List.filter_congr fun row _ => ?_
  rw [Bool.and_eq_left_iff_imp]
  intro hbelow
  rw [List.length_nil, List.drop_zero, Bool.not_eq_true', Bool.and_eq_false_iff]
  exact Or.inr (Bool.not_eq_true _ ▸ h row.1 (List.isPrefixOf_iff_prefix.mp hbelow))

/-- A pruning stops the program only where its number has no result. -/
theorem exists_pruneOldQueries (hformed : manager.Formed) (hvalid : manager.Valid)
    (hcounts : cachePolicy.Counts manager.prunableQueries.length) :
    ∃ manager' forest removed kept, manager.pruneOldQueries cachePolicy = some (manager', forest) ∧
      manager.Selects cachePolicy manager' forest removed kept := by
  obtain ⟨numPercent, hpercent, hnumber⟩ := numberOfQueriesToPrune_eq hcounts
  obtain ⟨numToPrune, hnumToPrune⟩ : ∃ numToPrune, numToPrune = min (max
      (if manager.prunableQueries.length > cachePolicy.maxNumberOfQueriesToKeep then
        manager.prunableQueries.length - cachePolicy.maxNumberOfQueriesToKeep else 0) numPercent)
      (manager.prunableQueries.length : Int) := ⟨_, rfl⟩
  rw [← hnumToPrune] at hnumber
  have hnonneg : 0 ≤ numToPrune := by
    rw [hnumToPrune]
    split_ifs <;> omega
  have hle : numToPrune ≤ manager.prunableQueries.length := hnumToPrune ▸ min_le_right _ _
  obtain ⟨removed, hremovedEq⟩ : ∃ removed, removed = manager.prunableQueries.take numToPrune.toNat := ⟨_, rfl⟩
  obtain ⟨kept, hkeptEq⟩ : ∃ kept, kept = manager.prunableQueries.drop numToPrune.toNat := ⟨_, rfl⟩
  have happend : removed ++ kept = manager.prunableQueries := by
    rw [hremovedEq, hkeptEq, List.take_append_drop]
  have hperm : (removed ++ kept).Perm (manager.trackedQueries.filter fun query => !query.isActive) := by
    rw [happend]
    exact List.mergeSort_perm _ _
  have hinactive : ∀ query, query ∈ removed ++ kept ↔ query ∈ manager.trackedQueries ∧ query.isActive = false := by
    intro query
    rw [hperm.mem_iff, List.mem_filter, Bool.not_eq_true']
  have hnodup : (removed ++ kept).Nodup :=
    hperm.nodup_iff.mpr ((hformed.nodup_trackedQueries.of_map _).filter _)
  have hremoved : ∀ query ∈ removed, query ∈ manager.trackedQueries :=
    fun query hmem => ((hinactive query).mp (List.mem_append_left _ hmem)).1
  obtain ⟨pruned, hpruned, hselects⟩ := FPruneForest.shouldPrune_foldl_iff
    (fun query : FTrackedQuery K V => query.query.path) removed
    (kept ++ manager.trackedQueries.filter fun query => query.isActive)
  have hstays : ∀ query, query ∈ (removed.foldl
      (fun manager trackedQuery => manager.removeTrackedQuery trackedQuery.query) manager).trackedQueries ↔
        query ∈ manager.trackedQueries ∧ query ∉ removed :=
    fun query => hformed.mem_foldl_removeTrackedQuery hvalid hremoved
  have hkeptIff : ∀ query, query ∈ kept ++ manager.trackedQueries.filter (fun query => query.isActive) ↔
      query ∈ manager.trackedQueries ∧ query ∉ removed := by
    intro query
    rw [List.mem_append, List.mem_filter]
    constructor
    · rintro (hkept | ⟨hmem, hactive⟩)
      · refine ⟨((hinactive query).mp (List.mem_append_right _ hkept)).1, fun hmem => ?_⟩
        exact (List.nodup_append.mp hnodup).2.2 query hmem query hkept rfl
      · refine ⟨hmem, fun hmem => ?_⟩
        rw [((hinactive query).mp (List.mem_append_left _ hmem)).2] at hactive
        cases hactive
    · rintro ⟨hmem, hnot⟩
      cases hactive : query.isActive with
      | true => exact Or.inr ⟨hmem, rfl⟩
      | false =>
          have hprunable := (hinactive query).mpr ⟨hmem, hactive⟩
          exact Or.inl ((List.mem_append.mp hprunable).resolve_left hnot)
  refine ⟨_, (kept ++ manager.trackedQueries.filter fun query => query.isActive).foldl
      (fun forest query => forest.keepPath query.query.path) pruned, removed, kept, ?_, hperm, ?_,
    ⟨numPercent, hpercent, ?_⟩, ?_, hstays, fun path => ?_, fun rows query hquery => ?_⟩
  · rw [pruneOldQueries, hnumber, Option.bind_some, if_neg (not_lt.mpr hnonneg), ← hremovedEq, ← hkeptEq]
    exact congrArg (Option.map _) hpruned
  · have hpairwise := manager.pairwise_prunableQueries
    rw [← happend] at hpairwise
    exact (List.pairwise_append.mp hpairwise).2.2
  · rw [← hnumToPrune, hremovedEq, List.length_take]
    omega
  · rintro before query after rfl
    have hquery : query ∈ manager.trackedQueries :=
      hremoved query (List.mem_append_right _ List.mem_cons_self)
    have hbefore : query ∉ before := by
      intro hmem
      have hapart := (List.nodup_append.mp (List.nodup_append.mp hnodup).1).2.2
      exact hapart query hmem query List.mem_cons_self rfl
    have hstill := (hformed.mem_foldl_removeTrackedQuery hvalid
      fun other hother => hremoved other (List.mem_append_left _ hother)).mpr ⟨hquery, hbefore⟩
    rw [findTrackedQuery_eq, hvalid.normalizeQuery_query hformed hquery]
    exact (hformed.foldl_removeTrackedQuery before).mem_trackedQueries.mp hstill
  · rw [hselects]
    refine and_congr_right fun _ => not_congr (exists_congr fun query => and_congr_left fun _ => ?_)
    rw [hkeptIff, hstays]
  · refine filter_pruneCache (fun below hbelow hprune => ?_) rows
    exact ((hselects below).mp hprune).2 ⟨query, (hkeptIff query).mpr ((hstays query).mp hquery), hbelow⟩

/-- After every run a pruning selects the queries that the policy asks for, where it asks for a number. -/
theorem exists_pruneOldQueries_run {operations : List (TrackOperation K V)} {state : TrackState K V}
    (hrun : run TrackState.step (TrackState.initial : TrackState K V) operations = some state)
    (hcounts : cachePolicy.Counts state.manager.prunableQueries.length) :
    ∃ manager' forest removed kept, state.manager.pruneOldQueries cachePolicy = some (manager', forest) ∧
      state.manager.Selects cachePolicy manager' forest removed kept := by
  obtain ⟨hformed, hvalid⟩ := valid_run hrun
  exact exists_pruneOldQueries hformed hvalid hcounts

/-- No percentage, and more queries to keep than there are -/
def keepAtLeast (maxNumberOfQueriesToKeep : Int) : FCachePolicy :=
  ⟨fun _ _ => true, fun _ => true, 0, maxNumberOfQueriesToKeep⟩

/-- One query at the path `a` that is not active -/
def inactiveRun : List (TrackOperation String Int) := [.setQueryInactive (.defaultQueryAtPath ["a"]) 1]

theorem counts_keepAtLeast {maxNumberOfQueriesToKeep : Int} (h : numPrunable - maxNumberOfQueriesToKeep < 2 ^ 63) :
    (keepAtLeast maxNumberOfQueriesToKeep).Counts numPrunable := by
  refine ⟨?_, h⟩
  rw [keepAtLeast, mul_zero, Doubles.round_zero, Doubles.toInt_zero]
  rfl

theorem exists_pruneOldQueries_run_inactive :
    ∃ manager' forest removed kept,
      ((run TrackState.step TrackState.initial inactiveRun).get (by decide)).manager.pruneOldQueries
        (keepAtLeast 0) = some (manager', forest) ∧
      ((run TrackState.step TrackState.initial inactiveRun).get (by decide)).manager.Selects (keepAtLeast 0)
        manager' forest removed kept := by
  refine exists_pruneOldQueries_run (Option.some_get (by decide)).symm (counts_keepAtLeast ?_)
  rw [length_prunableQueries]
  decide

/-- The number of queries over a very small maximum is no integer. -/
theorem pruneOldQueries_fails_maximum :
    ¬∀ (operations : List (TrackOperation String Int)) (state : TrackState String Int)
      (cachePolicy : FCachePolicy), run TrackState.step TrackState.initial operations = some state →
        (state.manager.pruneOldQueries cachePolicy).isSome = true := by
  intro hall
  have hsome := hall inactiveRun _ (keepAtLeast (-2 ^ 63)) (Option.some_get (by decide)).symm
  have hnone : numberOfQueriesToPrune (keepAtLeast (-2 ^ 63))
      ((run TrackState.step TrackState.initial inactiveRun).get (by decide)).manager.prunableQueries.length =
        none := by
    rw [numberOfQueriesToPrune, keepAtLeast, mul_zero, Doubles.round_zero, Doubles.toInt_zero,
      length_prunableQueries]
    decide
  rw [pruneOldQueries, hnone] at hsome
  cases hsome

end FTrackedQueryManager

end FirebaseSwift.Database
