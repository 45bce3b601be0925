import FirebaseSwift.Database.TrackedQueryManager
import Mathlib.Data.List.Nodup

/-! What the operations of the tracked query manager do to memory and storage. Every operation changes
the tracked queries by replacing some and removing some, by tracking a new one, or by loading all again.
What is stored is always tracked in memory. What is tracked is stored as well, under an id of its own, as
long as no new query gets an id that is stored already. -/

namespace FirebaseSwift.Database

open SortedDictionary

variable {K V : Type} [DatabaseKey K]

namespace FTrackedQuery

@[ext]
theorem ext {query query' : FTrackedQuery K V} (hqueryId : query.queryId = query'.queryId)
    (hquery : query.query = query'.query) (hlastUse : query.lastUse = query'.lastUse)
    (hisActive : query.isActive = query'.isActive) (hisComplete : query.isComplete = query'.isComplete) :
    query = query' := by
  cases query
  cases query'
  simp_all

instance [DatabaseValue V] : DecidableEq (FTrackedQuery K V) := fun query query' =>
  decidable_of_iff (query.queryId = query'.queryId ∧ query.query = query'.query ∧
      query.lastUse = query'.lastUse ∧ query.isActive = query'.isActive ∧
      query.isComplete = query'.isComplete)
    ⟨fun ⟨h1, h2, h3, h4, h5⟩ => ext h1 h2 h3 h4 h5, fun h => h ▸ ⟨rfl, rfl, rfl, rfl, rfl⟩⟩

/-- What a restart makes of a stored query. -/
def reloaded (query : FTrackedQuery K V) (lastUse : Int) : FTrackedQuery K V :=
  if query.isActive then (query.setActiveState false).updateLastUse lastUse else query

variable (query : FTrackedQuery K V)

@[simp] theorem queryId_reloaded (lastUse : Int) : (query.reloaded lastUse).queryId = query.queryId := by
  unfold reloaded
  split_ifs <;> rfl

@[simp] theorem query_reloaded (lastUse : Int) : (query.reloaded lastUse).query = query.query := by
  unfold reloaded
  split_ifs <;> rfl

theorem isComplete_reloaded (lastUse : Int) :
    (query.reloaded lastUse).isComplete = (query.isActive || query.isComplete) := by
  unfold reloaded
  split_ifs with hactive
  · rw [hactive]
    rfl
  · rw [Bool.eq_false_iff.mpr hactive, Bool.false_or]

end FTrackedQuery

namespace FTrackedQueryManager

variable [DatabaseValue V] {manager : FTrackedQueryManager K V}

/-! ### What is tracked -/

/-- The tracked query in memory with exactly this query. -/
def lookup (manager : FTrackedQueryManager K V) (spec : FQuerySpec K V) : Option (FTrackedQuery K V) :=
  (manager.trackedQueryTree.valueAt spec.path).bind fun set => get spec.params set

theorem findTrackedQuery_eq (manager : FTrackedQueryManager K V) (query : FQuerySpec K V) :
    manager.findTrackedQuery query = manager.lookup (normalizeQuery query) := rfl

omit [DatabaseValue V] in
@[simp] theorem normalizeQuery_normalizeQuery (query : FQuerySpec K V) :
    normalizeQuery (normalizeQuery query) = normalizeQuery query := by
  unfold normalizeQuery
  split_ifs <;> rfl

/-- The dictionaries of the tree have every parameter once, with a tracked query of these parameters. -/
structure Formed (manager : FTrackedQueryManager K V) : Prop where
  sorted : manager.trackedQueryTree.IsSorted
  nodup : ∀ path, ∀ set ∈ manager.trackedQueryTree.valueAt path, (set.map Prod.fst).Nodup
  named : ∀ spec, ∀ trackedQuery ∈ manager.lookup spec, trackedQuery.query = spec

/-- Store and cache a tracked query. -/
def put (manager : FTrackedQueryManager K V) (trackedQuery : FTrackedQuery K V) : FTrackedQueryManager K V :=
  (manager.saveTrackedQuery trackedQuery).cacheTrackedQuery trackedQuery

theorem lookup_cacheTrackedQuery (manager : FTrackedQueryManager K V) (trackedQuery : FTrackedQuery K V)
    (spec : FQuerySpec K V) : (manager.cacheTrackedQuery trackedQuery).lookup spec =
      if spec = trackedQuery.query then some trackedQuery else manager.lookup spec := by
  simp only [lookup, cacheTrackedQuery, FImmutableTree.valueAt_setValue]
  by_cases hpath : spec.path = trackedQuery.query.path
  · rw [if_pos hpath, Option.bind_some, get_cons]
    by_cases hparams : spec.params = trackedQuery.query.params
    · rw [if_pos hparams.symm, if_pos (FQuerySpec.ext hpath hparams)]
    · rw [if_neg (Ne.symm hparams), if_neg fun h => hparams (congrArg FQuerySpec.params h),
        get_remove_of_ne hparams, hpath]
      cases manager.trackedQueryTree.valueAt trackedQuery.query.path <;> rfl
  · rw [if_neg hpath, if_neg fun h => hpath (congrArg FQuerySpec.path h)]

theorem lookup_put (manager : FTrackedQueryManager K V) (trackedQuery : FTrackedQuery K V) (spec : FQuerySpec K V) :
    (manager.put trackedQuery).lookup spec =
      if spec = trackedQuery.query then some trackedQuery else manager.lookup spec :=
  (manager.saveTrackedQuery trackedQuery).lookup_cacheTrackedQuery trackedQuery spec

theorem storage_put (manager : FTrackedQueryManager K V) (trackedQuery : FTrackedQuery K V) :
    (manager.put trackedQuery).storage = set (· < ·) trackedQuery.queryId trackedQuery manager.storage := rfl

theorem Formed.cacheTrackedQuery (h : manager.Formed) (trackedQuery : FTrackedQuery K V) :
    (manager.cacheTrackedQuery trackedQuery).Formed := by
  refine ⟨h.sorted.setValue _ _, fun path set hset => ?_, fun spec found hfound => ?_⟩
  · rw [FTrackedQueryManager.cacheTrackedQuery, FImmutableTree.valueAt_setValue] at hset
    split_ifs at hset with hpath
    · cases hset
      rw [List.map_cons, List.nodup_cons]
      constructor
      · rw [mem_keys_iff, get_remove_self]
        exact not_not.mpr rfl
      · cases hvalue : manager.trackedQueryTree.valueAt trackedQuery.query.path with
        | none => exact List.nodup_nil
        | some set => exact (h.nodup _ set hvalue).sublist (List.filter_sublist.map _)
    · exact h.nodup path set hset
  · rw [lookup_cacheTrackedQuery] at hfound
    split_ifs at hfound with hspec
    · cases hfound
      exact hspec.symm
    · exact h.named spec found hfound

theorem Formed.put (h : manager.Formed) (trackedQuery : FTrackedQuery K V) : (manager.put trackedQuery).Formed :=
  have hsaved : (manager.saveTrackedQuery trackedQuery).Formed := ⟨h.sorted, h.nodup, h.named⟩
  hsaved.cacheTrackedQuery trackedQuery

theorem lookup_removeTrackedQuery (manager : FTrackedQueryManager K V) (query spec : FQuerySpec K V) :
    (manager.removeTrackedQuery query).lookup spec =
      if spec = normalizeQuery query then none else manager.lookup spec := by
  unfold removeTrackedQuery
  cases hfind : manager.findTrackedQuery query with
  | none =>
      split_ifs with hspec
      · rw [hspec, ← findTrackedQuery_eq, hfind]
      · rfl
  | some trackedQuery =>
      simp only [lookup, FImmutableTree.valueAt_setValue]
      by_cases hpath : spec.path = (normalizeQuery query).path
      · rw [if_pos hpath, Option.bind_some, get_remove]
        by_cases hparams : spec.params = (normalizeQuery query).params
        · rw [if_pos hparams, if_pos (FQuerySpec.ext hpath hparams)]
        · rw [if_neg hparams, if_neg fun h => hparams (congrArg FQuerySpec.params h), hpath]
          cases manager.trackedQueryTree.valueAt (normalizeQuery query).path <;> rfl
      · rw [if_neg hpath, if_neg fun h => hpath (congrArg FQuerySpec.path h)]

theorem Formed.removeTrackedQuery (h : manager.Formed) (query : FQuerySpec K V) :
    (manager.removeTrackedQuery query).Formed := by
  refine ⟨?_, fun path set hset => ?_, fun spec found hfound => ?_⟩
  · unfold FTrackedQueryManager.removeTrackedQuery
    cases manager.findTrackedQuery query with
    | none => exact h.sorted
    | some trackedQuery => exact h.sorted.setValue _ _
  · unfold FTrackedQueryManager.removeTrackedQuery at hset
    cases hfind : manager.findTrackedQuery query with
    | none =>
        rw [hfind] at hset
        exact h.nodup path set hset
    | some trackedQuery =>
        rw [hfind] at hset
        simp only [FImmutableTree.valueAt_setValue] at hset
        split_ifs at hset with hpath
        · cases hset
          cases hvalue : manager.trackedQueryTree.valueAt (normalizeQuery query).path with
          | none => exact List.nodup_nil
          | some set => exact (h.nodup _ set hvalue).sublist (List.filter_sublist.map _)
        · exact h.nodup path set hset
  · rw [lookup_removeTrackedQuery] at hfound
    split_ifs at hfound
    · cases hfound
    · exact h.named spec found hfound

/-- The dictionaries below a path together are what is tracked there. -/
theorem Formed.mem_subtree (h : manager.Formed) {path : FPath K} {trackedQuery : FTrackedQuery K V} :
    trackedQuery ∈ (manager.trackedQueryTree.subtree path).forEach.flatMap
        (fun found => found.2.map Prod.snd) ↔
      path <+: trackedQuery.query.path ∧ manager.lookup trackedQuery.query = some trackedQuery := by
  rw [List.mem_flatMap]
  constructor
  · rintro ⟨⟨rest, set⟩, hfound, hmem⟩
    obtain ⟨⟨params, trackedQuery⟩, hentry, rfl⟩ := List.mem_map.mp hmem
    rw [(h.sorted.subtree path).mem_forEach, FImmutableTree.valueAt_subtree] at hfound
    have hget : get params set = some trackedQuery := get_of_mem_of_nodup (h.nodup _ set hfound) hentry
    have hlookup : manager.lookup ⟨path ++ rest, params⟩ = some trackedQuery := by
      simp only [lookup, hfound, Option.bind_some, hget]
    rw [h.named _ trackedQuery hlookup]
    exact ⟨List.prefix_append _ _, hlookup⟩
  · rintro ⟨⟨rest, hpath⟩, hlookup⟩
    obtain ⟨set, hset, hget⟩ := Option.bind_eq_some_iff.mp hlookup
    refine ⟨(rest, set), ?_, List.mem_map.mpr ⟨_, mem_of_get hget, rfl⟩⟩
    rw [(h.sorted.subtree path).mem_forEach, FImmutableTree.valueAt_subtree, hpath]
    exact hset

theorem Formed.mem_trackedQueries (h : manager.Formed) {trackedQuery : FTrackedQuery K V} :
    trackedQuery ∈ manager.trackedQueries ↔ manager.lookup trackedQuery.query = some trackedQuery :=
  (@Formed.mem_subtree _ _ _ _ _ h [] _).trans (and_iff_right (List.nil_prefix))

variable {spec : FQuerySpec K V} {found : FTrackedQuery K V} {next manager' : FTrackedQueryManager K V}
variable {trackedQueries : List (FTrackedQuery K V)} {cachePolicy : FCachePolicy}
variable {result : FTrackedQueryManager K V × FPruneForest K}

theorem Formed.lookup_eq_none_iff (h : manager.Formed) :
    manager.lookup spec = none ↔ ∀ found ∈ manager.trackedQueries, found.query ≠ spec := by
  rw [Option.eq_none_iff_forall_ne_some]
  constructor
  · rintro hnone found hmem rfl
    exact hnone found (h.mem_trackedQueries.mp hmem)
  · intro hnone found hlookup
    refine hnone found (h.mem_trackedQueries.mpr ?_) (h.named spec found hlookup)
    rw [h.named spec found hlookup, hlookup]

theorem Formed.nodup_trackedQueries (h : manager.Formed) :
    (manager.trackedQueries.map FTrackedQuery.query).Nodup := by
  rw [trackedQueries, List.map_flatMap, List.nodup_flatMap]
  have hquery : ∀ found ∈ manager.trackedQueryTree.forEach, ∀ entry ∈ found.2,
      entry.2.query = ⟨found.1, entry.1⟩ := by
    rintro ⟨path, set⟩ hfound ⟨params, trackedQuery⟩ hentry
    rw [h.sorted.mem_forEach] at hfound
    refine h.named ⟨path, params⟩ trackedQuery ?_
    simp only [lookup, hfound, Option.bind_some]
    exact get_of_mem_of_nodup (h.nodup path set hfound) hentry
  constructor
  · rintro ⟨path, set⟩ hfound
    have hmap : (set.map Prod.snd).map FTrackedQuery.query =
        (set.map Prod.fst).map fun params => (⟨path, params⟩ : FQuerySpec K V) := by
      rw [List.map_map, List.map_map]
      exact List.map_congr_left fun entry hentry => hquery _ hfound entry hentry
    rw [hmap]
    refine List.Nodup.map (fun params params' heq => congrArg FQuerySpec.params heq) ?_
    exact h.nodup path set (h.sorted.mem_forEach.mp hfound)
  · refine h.sorted.pairwise_forEach.imp_of_mem fun {found found'} hfound hfound' hne => ?_
    intro query hmem hmem'
    simp only [List.map_map, List.mem_map, Function.comp_apply] at hmem hmem'
    obtain ⟨entry, hentry, rfl⟩ := hmem
    obtain ⟨entry', hentry', heq⟩ := hmem'
    rw [hquery found hfound entry hentry, hquery found' hfound' entry' hentry'] at heq
    exact hne (congrArg FQuerySpec.path heq).symm

/-! ### Operations -/

inductive TrackOperation (K V : Type) [DatabaseKey K] where
  | setQueryActive (query : FQuerySpec K V) (lastUse : Int)
  | setQueryInactive (query : FQuerySpec K V) (lastUse : Int)
  | setQueryComplete (query : FQuerySpec K V)
  | setQueriesCompleteAtPath (path : FPath K)
  | ensureCompleteTrackedQuery (path : FPath K) (currentTime : Int)
  | removeTrackedQuery (query : FQuerySpec K V)
  | pruneOldQueries (cachePolicy : FCachePolicy)
  | restart (loaded : List (FTrackedQuery K V)) (lastUse : Int)

/-- A restart loads what is stored, in any order. -/
def perform (manager : FTrackedQueryManager K V) : TrackOperation K V → Option (FTrackedQueryManager K V)
  | .setQueryActive query lastUse => some (manager.setQueryActive query lastUse)
  | .setQueryInactive query lastUse => some (manager.setQueryInactive query lastUse)
  | .setQueryComplete query => some (manager.setQueryComplete query)
  | .setQueriesCompleteAtPath path => some (manager.setQueriesCompleteAtPath path)
  | .ensureCompleteTrackedQuery path currentTime =>
      some (manager.ensureCompleteTrackedQueryAtPath path currentTime)
  | .removeTrackedQuery query => some (manager.removeTrackedQuery query)
  | .pruneOldQueries cachePolicy => (manager.pruneOldQueries cachePolicy).map Prod.fst
  | .restart loaded lastUse =>
      if loaded.Perm (manager.storage.map Prod.snd) then some (ofStorage manager.storage loaded lastUse)
      else none

/-- The query that an operation starts to track. -/
def newQuery (manager : FTrackedQueryManager K V) : TrackOperation K V → Option (FQuerySpec K V)
  | .setQueryActive query _ | .setQueryInactive query _ =>
      if (manager.findTrackedQuery query).isNone then some (normalizeQuery query) else none
  | .ensureCompleteTrackedQuery path _ =>
      if !manager.isIncludedInDefaultCompleteQuery (.defaultQueryAtPath path) &&
          (manager.findTrackedQuery (.defaultQueryAtPath path)).isNone then
        some (.defaultQueryAtPath path)
      else none
  | _ => none

/-- Track a query under the next id. -/
def track (manager : FTrackedQueryManager K V) (trackedQuery : FTrackedQuery K V) :
    FTrackedQueryManager K V :=
  put { manager with currentQueryId := manager.currentQueryId + 1 } trackedQuery

/-- The query is tracked, under the same id. -/
def Replaces (manager : FTrackedQueryManager K V) (trackedQuery : FTrackedQuery K V) : Prop :=
  (manager.lookup trackedQuery.query).map FTrackedQuery.queryId = some trackedQuery.queryId

/-- The managers that are reached by replacing tracked queries and removing them. -/
inductive Changes (manager : FTrackedQueryManager K V) : FTrackedQueryManager K V → Prop
  | refl : Changes manager manager
  | put {next : FTrackedQueryManager K V} (h : Changes manager next) (trackedQuery : FTrackedQuery K V)
      (hreplaces : next.Replaces trackedQuery) : Changes manager (next.put trackedQuery)
  | remove {next : FTrackedQueryManager K V} (h : Changes manager next) (query : FQuerySpec K V) :
      Changes manager (next.removeTrackedQuery query)

theorem Replaces.of_lookup {trackedQuery : FTrackedQuery K V}
    (h : manager.lookup trackedQuery.query = some found) (hqueryId : found.queryId = trackedQuery.queryId) :
    manager.Replaces trackedQuery := by
  rw [Replaces, h, Option.map_some, hqueryId]

theorem Replaces.put {trackedQuery other : FTrackedQuery K V} (h : manager.Replaces trackedQuery)
    (hother : manager.Replaces other) : (manager.put other).Replaces trackedQuery := by
  rw [Replaces, lookup_put]
  split_ifs with hsame
  · rw [Option.map_some, ← hother, ← hsame, h]
  · exact h

theorem Changes.foldl_completeTrackedQuery (h : manager.Changes next)
    (hreplaces : ∀ trackedQuery ∈ trackedQueries, next.Replaces trackedQuery) :
    manager.Changes (trackedQueries.foldl completeTrackedQuery next) := by
  induction trackedQueries generalizing next with
  | nil => exact h
  | cons first rest ih =>
      obtain ⟨hfirst, hrest⟩ := List.forall_mem_cons.mp hreplaces
      rw [List.foldl_cons, completeTrackedQuery]
      split_ifs
      · have hcomplete : next.Replaces first.setComplete := hfirst
        exact ih (h.put _ hcomplete) fun trackedQuery hmem => (hrest trackedQuery hmem).put hcomplete
      · exact ih h hrest

theorem Changes.foldl_removeTrackedQuery (h : manager.Changes next) (trackedQueries : List (FTrackedQuery K V)) :
    manager.Changes
      (trackedQueries.foldl (fun manager trackedQuery => manager.removeTrackedQuery trackedQuery.query)
        next) := by
  induction trackedQueries generalizing next with
  | nil => exact h
  | cons first rest ih => exact ih (h.remove first.query)

/-- A pruning removes the first of the queries that can be pruned, and keeps the others. -/
theorem pruneOldQueries_eq_some (h : manager.pruneOldQueries cachePolicy = some result) :
    ∃ numToPrune forest, numberOfQueriesToPrune cachePolicy manager.prunableQueries.length = some numToPrune ∧
      (manager.prunableQueries.take numToPrune.toNat).foldlM
        (fun (forest : FPruneForest K) trackedQuery => forest.prunePath trackedQuery.query.path)
        FPruneForest.empty = some forest ∧
      result = ((manager.prunableQueries.take numToPrune.toNat).foldl
          (fun manager trackedQuery => manager.removeTrackedQuery trackedQuery.query) manager,
        (manager.prunableQueries.drop numToPrune.toNat ++
          manager.trackedQueries.filter fun trackedQuery => trackedQuery.isActive).foldl
            (fun forest trackedQuery => forest.keepPath trackedQuery.query.path) forest) := by
  rw [pruneOldQueries] at h
  obtain ⟨numToPrune, hnumber, hprune⟩ := Option.bind_eq_some_iff.mp h
  dsimp only at hprune
  split_ifs at hprune
  obtain ⟨forest, hforest, hresult⟩ := Option.map_eq_some_iff.mp hprune
  exact ⟨numToPrune, forest, hnumber, hforest, hresult.symm⟩

/-- A pruning removes some of the tracked queries. -/
theorem pruneOldQueries_eq (h : manager.pruneOldQueries cachePolicy = some result) :
    ∃ pruned : List (FTrackedQuery K V), result.1 =
      pruned.foldl (fun manager trackedQuery => manager.removeTrackedQuery trackedQuery.query) manager := by
  obtain ⟨_, _, _, _, rfl⟩ := pruneOldQueries_eq_some h
  exact ⟨_, rfl⟩

/-- What an operation does: it changes tracked queries, or it tracks a new one, or it loads all again. -/
theorem perform_cases (hformed : manager.Formed) {operation : TrackOperation K V}
    (h : manager.perform operation = some manager') :
    (manager.newQuery operation = none ∧ (∀ loaded lastUse, operation ≠ .restart loaded lastUse) ∧
      manager.Changes manager') ∨ (∃ trackedQuery, manager.newQuery operation = some trackedQuery.query ∧
      manager.lookup trackedQuery.query = none ∧ trackedQuery.queryId = manager.currentQueryId ∧
      manager' = manager.track trackedQuery) ∨ ∃ loaded lastUse, operation = .restart loaded lastUse ∧
      loaded.Perm (manager.storage.map Prod.snd) ∧ manager' = ofStorage manager.storage loaded lastUse := by
  have hactive : ∀ (query : FQuerySpec K V) (isActive : Bool) (lastUse : Int),
      (manager.newQuery (.setQueryActive query lastUse) = none ∧
        manager.Changes (manager.setQueryActiveState query isActive lastUse)) ∨
      ∃ trackedQuery, manager.newQuery (.setQueryActive query lastUse) = some trackedQuery.query ∧
        manager.lookup trackedQuery.query = none ∧ trackedQuery.queryId = manager.currentQueryId ∧
        manager.setQueryActiveState query isActive lastUse = manager.track trackedQuery := by
    intro query isActive lastUse
    simp only [newQuery, setQueryActiveState]
    cases hfind : manager.findTrackedQuery query with
    | none =>
        exact Or.inr ⟨.ofQuery manager.currentQueryId (normalizeQuery query) lastUse isActive, rfl, hfind,
          rfl, rfl⟩
    | some found =>
        have hquery := hformed.named _ found hfind
        have hlookup := (congrArg manager.lookup hquery).trans hfind
        exact Or.inl ⟨rfl, .put .refl _ (.of_lookup hlookup rfl)⟩
  cases operation with
  | setQueryActive query lastUse =>
      cases h
      exact (hactive query true lastUse).imp (fun ⟨hnew, h⟩ => ⟨hnew, nofun, h⟩) Or.inl
  | setQueryInactive query lastUse =>
      cases h
      exact (hactive query false lastUse).imp (fun ⟨hnew, h⟩ => ⟨hnew, nofun, h⟩) Or.inl
  | setQueryComplete query =>
      cases h
      refine Or.inl ⟨rfl, nofun, ?_⟩
      unfold setQueryComplete
      cases hfind : manager.findTrackedQuery query with
      | none => exact .refl
      | some found =>
          dsimp only
          split_ifs
          · exact .refl
          · have hlookup := (congrArg manager.lookup (hformed.named _ found hfind)).trans hfind
            exact .put .refl _ (.of_lookup hlookup rfl)
  | setQueriesCompleteAtPath path =>
      cases h
      refine Or.inl ⟨rfl, nofun, .foldl_completeTrackedQuery .refl fun trackedQuery hmem => ?_⟩
      exact .of_lookup (hformed.mem_subtree.mp hmem).2 rfl
  | ensureCompleteTrackedQuery path currentTime =>
      cases h
      simp only [newQuery, ensureCompleteTrackedQueryAtPath]
      cases manager.isIncludedInDefaultCompleteQuery (.defaultQueryAtPath path) with
      | true => exact Or.inl ⟨rfl, nofun, .refl⟩
      | false =>
          cases hfind : manager.findTrackedQuery (.defaultQueryAtPath path) with
          | none =>
              exact Or.inr (Or.inl ⟨⟨manager.currentQueryId, .defaultQueryAtPath path, currentTime, false, true⟩,
                rfl, hfind, rfl, rfl⟩)
          | some found =>
              have hlookup := (congrArg manager.lookup (hformed.named _ found hfind)).trans hfind
              exact Or.inl ⟨rfl, nofun, .put .refl _ (.of_lookup hlookup rfl)⟩
  | removeTrackedQuery query =>
      cases h
      exact Or.inl ⟨rfl, nofun, .remove .refl query⟩
  | pruneOldQueries cachePolicy =>
      obtain ⟨result, hprune, rfl⟩ := Option.map_eq_some_iff.mp h
      obtain ⟨pruned, hpruned⟩ := pruneOldQueries_eq hprune
      refine Or.inl ⟨rfl, nofun, ?_⟩
      rw [hpruned]
      exact .foldl_removeTrackedQuery .refl pruned
  | restart loaded lastUse =>
      rw [perform] at h
      split_ifs at h with hperm
      cases h
      exact Or.inr (Or.inr ⟨loaded, lastUse, rfl, hperm, rfl⟩)

/-- What is tracked after completions was tracked before, or is one of the completed queries. -/
theorem mem_lookup_foldl_completeTrackedQuery
    (h : found ∈ (trackedQueries.foldl completeTrackedQuery manager).lookup spec) : found ∈ manager.lookup spec ∨
      ∃ trackedQuery ∈ trackedQueries, trackedQuery.query = spec ∧ found = trackedQuery.setComplete := by
  induction trackedQueries generalizing manager with
  | nil => exact Or.inl h
  | cons first rest ih =>
      rcases ih h with hfound | ⟨trackedQuery, hmem, hquery⟩
      · rw [completeTrackedQuery] at hfound
        split_ifs at hfound
        · change found ∈ (manager.put first.setComplete).lookup spec at hfound
          rw [lookup_put] at hfound
          split_ifs at hfound with hspec
          · exact Or.inr ⟨first, List.mem_cons_self, hspec.symm, (Option.some.inj hfound).symm⟩
          · exact Or.inl hfound
        · exact Or.inl hfound
      · exact Or.inr ⟨trackedQuery, List.mem_cons_of_mem _ hmem, hquery⟩

theorem mem_lookup_of_removeTrackedQuery {query : FQuerySpec K V}
    (h : found ∈ (manager.removeTrackedQuery query).lookup spec) : found ∈ manager.lookup spec := by
  rw [lookup_removeTrackedQuery] at h
  split_ifs at h
  · cases h
  · exact h

theorem mem_lookup_foldl_removeTrackedQuery (h : found ∈ (trackedQueries.foldl
      (fun manager trackedQuery => manager.removeTrackedQuery trackedQuery.query) manager).lookup spec) :
    found ∈ manager.lookup spec := by
  induction trackedQueries generalizing manager with
  | nil => exact h
  | cons first rest ih => exact mem_lookup_of_removeTrackedQuery (ih h)

theorem lookup_setQueryActiveState (manager : FTrackedQueryManager K V) (query : FQuerySpec K V)
    (isActive : Bool) (lastUse : Int) (hformed : manager.Formed) (spec : FQuerySpec K V) :
    (manager.setQueryActiveState query isActive lastUse).lookup spec =
      if spec = normalizeQuery query then
        some (((manager.findTrackedQuery query).map fun trackedQuery =>
          (trackedQuery.updateLastUse lastUse).setActiveState isActive).getD
            (.ofQuery manager.currentQueryId (normalizeQuery query) lastUse isActive))
      else manager.lookup spec := by
  rw [setQueryActiveState]
  cases hfind : manager.findTrackedQuery query with
  | none => exact lookup_put _ _ _
  | some found =>
      have hquery : ((found.updateLastUse lastUse).setActiveState isActive).query = normalizeQuery query :=
        hformed.named _ found hfind
      rw [← hquery]
      exact lookup_put _ _ _

/-! ### Stored queries are tracked -/

/-- What is stored under an id is the tracked query of that id in memory. -/
structure Backed (manager : FTrackedQueryManager K V) : Prop extends manager.Formed where
  storageSorted : Sorted (· < ·) manager.storage
  stored : ∀ queryId, ∀ trackedQuery ∈ get queryId manager.storage,
    trackedQuery.queryId = queryId ∧ manager.lookup trackedQuery.query = some trackedQuery

theorem Backed.put (h : manager.Backed) {trackedQuery : FTrackedQuery K V}
    (hsame : ∀ found ∈ manager.lookup trackedQuery.query, found.queryId = trackedQuery.queryId) :
    (manager.put trackedQuery).Backed := by
  refine ⟨h.toFormed.put trackedQuery, h.storageSorted.set _ _ _, fun queryId found hfound => ?_⟩
  rw [storage_put, get_set] at hfound
  split_ifs at hfound with hqueryId
  · cases hfound
    exact ⟨hqueryId.symm, (lookup_put _ _ _).trans (if_pos rfl)⟩
  · obtain ⟨hid, hlookup⟩ := h.stored queryId found hfound
    refine ⟨hid, (lookup_put _ _ _).trans ((if_neg fun hquery => hqueryId ?_).trans hlookup)⟩
    rw [← hid, hsame found (hquery ▸ hlookup)]

theorem Backed.removeTrackedQuery (h : manager.Backed) (query : FQuerySpec K V) :
    (manager.removeTrackedQuery query).Backed := by
  refine ⟨h.toFormed.removeTrackedQuery query, ?_, fun queryId found hfound => ?_⟩
  · unfold FTrackedQueryManager.removeTrackedQuery
    cases manager.findTrackedQuery query with
    | none => exact h.storageSorted
    | some trackedQuery => exact h.storageSorted.remove _
  · rw [lookup_removeTrackedQuery]
    unfold FTrackedQueryManager.removeTrackedQuery at hfound
    cases hfind : manager.findTrackedQuery query with
    | none =>
        rw [hfind] at hfound
        obtain ⟨hid, hlookup⟩ := h.stored queryId found hfound
        refine ⟨hid, (if_neg fun hquery => ?_).trans hlookup⟩
        rw [hquery, ← findTrackedQuery_eq, hfind] at hlookup
        cases hlookup
    | some trackedQuery =>
        rw [hfind] at hfound
        simp only [get_remove] at hfound
        split_ifs at hfound with hqueryId
        · cases hfound
        · obtain ⟨hid, hlookup⟩ := h.stored queryId found hfound
          refine ⟨hid, (if_neg fun hquery => hqueryId ?_).trans hlookup⟩
          rw [hquery, ← findTrackedQuery_eq, hfind] at hlookup
          cases hlookup
          exact hid.symm

theorem Changes.backed (h : manager.Changes manager') (hbacked : manager.Backed) : manager'.Backed := by
  induction h with
  | refl => exact hbacked
  | put _ trackedQuery hreplaces ih =>
      refine ih.put fun found hfound => ?_
      rw [Replaces, Option.mem_def.mp hfound] at hreplaces
      exact Option.some.inj hreplaces
  | remove _ query ih => exact ih.removeTrackedQuery query

/-- Nothing new is tracked. -/
theorem Changes.lookup_eq_none (h : manager.Changes manager') (hnone : manager.lookup spec = none) :
    manager'.lookup spec = none := by
  induction h with
  | refl => exact hnone
  | put _ trackedQuery hreplaces ih =>
      rw [lookup_put, if_neg, ih]
      rintro rfl
      rw [Replaces, ih] at hreplaces
      cases hreplaces
  | remove _ query ih => rw [lookup_removeTrackedQuery, ih, ite_self]

theorem Backed.track (h : manager.Backed) {trackedQuery : FTrackedQuery K V}
    (hnew : manager.lookup trackedQuery.query = none) : (manager.track trackedQuery).Backed := by
  have hnext : Backed { manager with currentQueryId := manager.currentQueryId + 1 } :=
    ⟨⟨h.sorted, h.nodup, h.named⟩, h.storageSorted, h.stored⟩
  refine hnext.put fun found hfound => ?_
  have hlookup : manager.lookup trackedQuery.query = some found := hfound
  rw [hnew] at hlookup
  cases hlookup

/-! ### Restarts -/

section Restart

variable {storage : List (Int × FTrackedQuery K V)} {loaded : List (FTrackedQuery K V)} {lastUse : Int}

theorem lookup_loadTrackedQuery (lastUse : Int) (manager : FTrackedQueryManager K V)
    (trackedQuery : FTrackedQuery K V) (spec : FQuerySpec K V) :
    (loadTrackedQuery lastUse manager trackedQuery).lookup spec =
      if spec = trackedQuery.query then some (trackedQuery.reloaded lastUse) else manager.lookup spec := by
  rw [loadTrackedQuery, FTrackedQuery.reloaded]
  dsimp only
  split_ifs with hactive hspec hspec
  · exact (lookup_put _ _ _).trans (if_pos hspec)
  · exact (lookup_put _ _ _).trans (if_neg hspec)
  · exact (lookup_cacheTrackedQuery _ _ _).trans (if_pos hspec)
  · exact (lookup_cacheTrackedQuery _ _ _).trans (if_neg hspec)

theorem storage_loadTrackedQuery (lastUse : Int) (manager : FTrackedQueryManager K V)
    (trackedQuery : FTrackedQuery K V) : (loadTrackedQuery lastUse manager trackedQuery).storage =
      if trackedQuery.isActive then
        set (· < ·) trackedQuery.queryId (trackedQuery.reloaded lastUse) manager.storage
      else manager.storage := by
  rw [loadTrackedQuery, FTrackedQuery.reloaded]
  dsimp only
  split_ifs with hactive <;> rfl

theorem currentQueryId_loadTrackedQuery (lastUse : Int) (manager : FTrackedQueryManager K V)
    (trackedQuery : FTrackedQuery K V) : (loadTrackedQuery lastUse manager trackedQuery).currentQueryId =
      max trackedQuery.queryId manager.currentQueryId := by
  rw [loadTrackedQuery]
  dsimp only
  split_ifs <;> rfl

theorem Formed.loadTrackedQuery (h : manager.Formed) (lastUse : Int) (trackedQuery : FTrackedQuery K V) :
    (loadTrackedQuery lastUse manager trackedQuery).Formed := by
  have hnext : Formed { manager with currentQueryId := max trackedQuery.queryId manager.currentQueryId } :=
    ⟨h.sorted, h.nodup, h.named⟩
  rw [FTrackedQueryManager.loadTrackedQuery]
  dsimp only
  split_ifs
  · exact hnext.put _
  · exact hnext.cacheTrackedQuery _

theorem ofStorage_append (storage : List (Int × FTrackedQuery K V)) (loaded : List (FTrackedQuery K V))
    (last : FTrackedQuery K V) (lastUse : Int) : ofStorage storage (loaded ++ [last]) lastUse =
      loadTrackedQuery lastUse (ofStorage storage loaded lastUse) last := by
  rw [ofStorage, List.foldl_append]
  rfl

theorem lookup_ofStorage_nil (storage : List (Int × FTrackedQuery K V)) (lastUse : Int)
    (spec : FQuerySpec K V) : (ofStorage storage [] lastUse).lookup spec = none := by
  rw [lookup, ofStorage, List.foldl_nil, FImmutableTree.valueAt_empty, Option.bind_none]

theorem formed_ofStorage (storage : List (Int × FTrackedQuery K V)) (loaded : List (FTrackedQuery K V))
    (lastUse : Int) : (ofStorage storage loaded lastUse).Formed := by
  induction loaded using List.reverseRecOn with
  | nil =>
      refine ⟨.empty, fun path set hset => ?_, fun spec found hfound => ?_⟩
      · rw [ofStorage, List.foldl_nil, FImmutableTree.valueAt_empty] at hset
        cases hset
      · rw [lookup_ofStorage_nil] at hfound
        cases hfound
  | append_singleton loaded last ih =>
      rw [ofStorage_append]
      exact ih.loadTrackedQuery lastUse last

variable {spec : FQuerySpec K V} {trackedQuery query : FTrackedQuery K V}

theorem mem_lookup_ofStorage
    (hdistinct : ∀ query ∈ loaded, ∀ query' ∈ loaded, query.query = query'.query → query = query') :
    trackedQuery ∈ (ofStorage storage loaded lastUse).lookup spec ↔
      ∃ query ∈ loaded, query.query = spec ∧ query.reloaded lastUse = trackedQuery := by
  induction loaded using List.reverseRecOn with
  | nil => simp [lookup_ofStorage_nil]
  | append_singleton loaded last ih =>
      have hrest := ih fun query hmem query' hmem' =>
        hdistinct query (List.mem_append_left _ hmem) query' (List.mem_append_left _ hmem')
      rw [ofStorage_append, lookup_loadTrackedQuery]
      split_ifs with hspec
      · constructor
        · intro hlast
          exact ⟨last, by simp, hspec.symm, Option.some.inj hlast⟩
        · rintro ⟨query, hmem, hquery, rfl⟩
          rw [hdistinct query hmem last (by simp) (hquery.trans hspec)]
          rfl
      · rw [hrest]
        constructor
        · rintro ⟨query, hmem, hquery⟩
          exact ⟨query, List.mem_append_left _ hmem, hquery⟩
        · rintro ⟨query, hmem, hquery, hreloaded⟩
          rcases List.mem_append.mp hmem with hmem | hmem
          · exact ⟨query, hmem, hquery, hreloaded⟩
          · rw [List.mem_singleton.mp hmem] at hquery
            exact absurd hquery.symm hspec

theorem sorted_storage_ofStorage (h : Sorted (· < ·) storage) (loaded : List (FTrackedQuery K V))
    (lastUse : Int) : Sorted (· < ·) (ofStorage storage loaded lastUse).storage := by
  induction loaded using List.reverseRecOn with
  | nil => exact h
  | append_singleton loaded last ih =>
      rw [ofStorage_append, storage_loadTrackedQuery]
      split_ifs
      · exact ih.set _ _ _
      · exact ih

theorem get_storage_ofStorage
    (hids : ∀ queryId, ∀ trackedQuery ∈ get queryId storage, trackedQuery.queryId = queryId)
    (hstored : ∀ query ∈ loaded, get query.queryId storage = some query) (queryId : Int) :
    get queryId (ofStorage storage loaded lastUse).storage =
      (get queryId storage).map fun query => if query ∈ loaded then query.reloaded lastUse else query := by
  induction loaded using List.reverseRecOn with
  | nil =>
      simp only [List.not_mem_nil, if_false, Option.map_id']
      rfl
  | append_singleton loaded last ih =>
      have hrest := ih fun query hmem => hstored query (List.mem_append_left _ hmem)
      have hmem : last ∈ loaded ++ [last] := by simp
      have hlast := hstored last hmem
      rw [ofStorage_append, storage_loadTrackedQuery]
      by_cases hqueryId : queryId = last.queryId
      · subst hqueryId
        rw [hlast, Option.map_some, if_pos hmem]
        by_cases hactive : last.isActive = true
        · rw [if_pos hactive, get_set_self]
        · rw [if_neg hactive, hrest, hlast, Option.map_some, FTrackedQuery.reloaded, if_neg hactive, ite_self]
      · have hother : ∀ query ∈ get queryId storage, (query ∈ loaded ++ [last] ↔ query ∈ loaded) := by
          intro query hquery
          have hne : query ≠ last := by
            rintro rfl
            exact hqueryId (hids queryId query hquery).symm
          simp [hne]
        have hsame : get queryId (if last.isActive = true then
            set (· < ·) last.queryId (last.reloaded lastUse) (ofStorage storage loaded lastUse).storage
            else (ofStorage storage loaded lastUse).storage) =
            get queryId (ofStorage storage loaded lastUse).storage := by
          split_ifs
          · rw [get_set_of_ne _ hqueryId]
          · rfl
        rw [hsame, hrest]
        refine Option.map_congr fun query hquery => ?_
        simp only [hother query hquery]

theorem le_currentQueryId_ofStorage (hmem : query ∈ loaded) :
    query.queryId ≤ (ofStorage storage loaded lastUse).currentQueryId := by
  induction loaded using List.reverseRecOn with
  | nil => cases hmem
  | append_singleton loaded last ih =>
      rw [ofStorage_append, currentQueryId_loadTrackedQuery]
      rcases List.mem_append.mp hmem with hmem | hmem
      · exact (ih hmem).trans (le_max_right _ _)
      · rw [List.mem_singleton.mp hmem]
        exact le_max_left _ _

theorem Backed.mem_loaded (h : manager.Backed) (hperm : loaded.Perm (manager.storage.map Prod.snd)) :
    query ∈ loaded ↔ get query.queryId manager.storage = some query := by
  rw [hperm.mem_iff, List.mem_map]
  constructor
  · rintro ⟨⟨queryId, query⟩, hmem, rfl⟩
    have hget := h.storageSorted.get_of_mem hmem
    rw [(h.stored queryId query hget).1]
    exact hget
  · intro hget
    exact ⟨_, mem_of_get hget, rfl⟩

/-- A restart tracks what is stored. -/
theorem Backed.mem_lookup_restart (h : manager.Backed) (hperm : loaded.Perm (manager.storage.map Prod.snd)) :
    trackedQuery ∈ (ofStorage manager.storage loaded lastUse).lookup spec ↔
      ∃ query, get query.queryId manager.storage = some query ∧ query.query = spec ∧
        query.reloaded lastUse = trackedQuery := by
  have hdistinct : ∀ query ∈ loaded, ∀ query' ∈ loaded, query.query = query'.query → query = query' := by
    intro query hmem query' hmem' hsame
    have hlookup := (h.stored _ query ((h.mem_loaded hperm).mp hmem)).2
    have hlookup' := (h.stored _ query' ((h.mem_loaded hperm).mp hmem')).2
    rw [hsame, hlookup'] at hlookup
    exact (Option.some.inj hlookup).symm
  simp only [mem_lookup_ofStorage hdistinct, h.mem_loaded hperm]

theorem Backed.get_storage_restart (h : manager.Backed)
    (hperm : loaded.Perm (manager.storage.map Prod.snd)) (queryId : Int) :
    get queryId (ofStorage manager.storage loaded lastUse).storage =
      (get queryId manager.storage).map fun query => query.reloaded lastUse := by
  rw [get_storage_ofStorage (fun queryId query hquery => (h.stored queryId query hquery).1)
    fun query hmem => (h.mem_loaded hperm).mp hmem]
  refine Option.map_congr fun query hquery => if_pos ((h.mem_loaded hperm).mpr ?_)
  rw [(h.stored queryId query hquery).1]
  exact hquery

theorem Backed.restart (h : manager.Backed) (hperm : loaded.Perm (manager.storage.map Prod.snd))
    (lastUse : Int) : (ofStorage manager.storage loaded lastUse).Backed := by
  refine ⟨formed_ofStorage _ _ _, sorted_storage_ofStorage h.storageSorted _ _, ?_⟩
  intro queryId trackedQuery hget
  rw [h.get_storage_restart hperm, Option.mem_map] at hget
  obtain ⟨query, hquery, rfl⟩ := hget
  obtain ⟨hid, _⟩ := h.stored queryId query hquery
  refine ⟨(query.queryId_reloaded lastUse).trans hid, ?_⟩
  exact (h.mem_lookup_restart hperm).mpr ⟨query, by rw [hid]; exact hquery, (by simp), rfl⟩

/-- What a restart tracks is stored. -/
theorem Backed.saved_restart (h : manager.Backed) (hperm : loaded.Perm (manager.storage.map Prod.snd))
    (hlookup : trackedQuery ∈ (ofStorage manager.storage loaded lastUse).lookup spec) :
    get trackedQuery.queryId (ofStorage manager.storage loaded lastUse).storage = some trackedQuery := by
  obtain ⟨query, hquery, _, rfl⟩ := (h.mem_lookup_restart hperm).mp hlookup
  rw [FTrackedQuery.queryId_reloaded, h.get_storage_restart hperm, hquery, Option.map_some]

theorem currentQueryId_ofStorage (storage : List (Int × FTrackedQuery K V))
    (loaded : List (FTrackedQuery K V)) (lastUse : Int) : (ofStorage storage loaded lastUse).currentQueryId = 0 ∨
      ∃ query ∈ loaded, query.queryId = (ofStorage storage loaded lastUse).currentQueryId := by
  induction loaded using List.reverseRecOn with
  | nil => exact Or.inl rfl
  | append_singleton loaded last ih =>
      rw [ofStorage_append, currentQueryId_loadTrackedQuery]
      rcases max_choice last.queryId (ofStorage storage loaded lastUse).currentQueryId with hmax | hmax
      · rw [hmax]
        exact Or.inr ⟨last, by simp, rfl⟩
      · rw [hmax]
        exact ih.imp_right fun ⟨query, hmem, heq⟩ => ⟨query, List.mem_append_left _ hmem, heq⟩

end Restart

variable {manager' : FTrackedQueryManager K V} {trackedQuery : FTrackedQuery K V}

/-- In every run, with any ids, what is stored is tracked. -/
theorem Backed.perform (h : manager.Backed) {operation : TrackOperation K V}
    (hperform : manager.perform operation = some manager') : manager'.Backed := by
  rcases perform_cases h.toFormed hperform with
    ⟨_, _, hchanges⟩ | ⟨trackedQuery, _, hnew, _, rfl⟩ | ⟨loaded, lastUse, _, hperm, rfl⟩
  · exact hchanges.backed h
  · exact h.track hnew
  · exact h.restart hperm lastUse

/-! ### Memory and storage agree -/

/-- The tracked queries in memory are those that are stored, under distinct ids. -/
def Agrees (manager : FTrackedQueryManager K V) : Prop :=
  (manager.trackedQueries.map FTrackedQuery.queryId).Nodup ∧
    manager.trackedQueries.Perm (manager.storage.map Prod.snd)

/-- A query that was not tracked before gets an id that was not stored before. -/
def NewIdsUnused (manager manager' : FTrackedQueryManager K V) : Prop :=
  ∀ trackedQuery ∈ manager'.trackedQueries,
    (∀ found ∈ manager.trackedQueries, found.query ≠ trackedQuery.query) →
      get trackedQuery.queryId manager.storage = none

/-- What is tracked in memory is stored, and has an id below the next one. Only the query that was loaded
last may have the next id itself. -/
structure Exact (manager : FTrackedQueryManager K V) (lastLoaded : Option Int) : Prop
    extends manager.Backed where
  saved : ∀ spec, ∀ trackedQuery ∈ manager.lookup spec,
    get trackedQuery.queryId manager.storage = some trackedQuery
  allocated : ∀ spec, ∀ trackedQuery ∈ manager.lookup spec,
    trackedQuery.queryId < manager.currentQueryId ∨ trackedQuery.queryId ∈ lastLoaded
  nonneg : ∀ spec, ∀ trackedQuery ∈ manager.lookup spec, 0 ≤ trackedQuery.queryId
  currentQueryId_nonneg : 0 ≤ manager.currentQueryId
  next_eq : ∀ queryId ∈ lastLoaded, 0 ≤ queryId → queryId = manager.currentQueryId

variable {lastLoaded : Option Int}

theorem Exact.agrees (h : manager.Exact lastLoaded) : manager.Agrees := by
  have hmem : ∀ {trackedQuery}, trackedQuery ∈ manager.trackedQueries ↔
      get trackedQuery.queryId manager.storage = some trackedQuery := by
    intro trackedQuery
    rw [h.mem_trackedQueries]
    exact ⟨h.saved _ _, fun hget => (h.stored _ _ hget).2⟩
  have hnodup : (manager.trackedQueries.map FTrackedQuery.queryId).Nodup := by
    refine List.Nodup.map_on (fun query hquery query' hquery' hsame => ?_)
      (List.Nodup.of_map _ h.nodup_trackedQueries)
    rw [hmem] at hquery hquery'
    rw [hsame, hquery'] at hquery
    exact (Option.some.inj hquery).symm
  refine ⟨hnodup, (List.perm_ext_iff_of_nodup (List.Nodup.of_map _ hnodup) ?_).mpr fun trackedQuery => ?_⟩
  · refine List.Nodup.map_on ?_ (List.Nodup.of_map _ h.storageSorted.nodup_keys)
    rintro ⟨queryId, query⟩ hquery ⟨queryId', query'⟩ hquery' hsame
    have hid := (h.stored _ _ (h.storageSorted.get_of_mem hquery)).1
    have hid' := (h.stored _ _ (h.storageSorted.get_of_mem hquery')).1
    have hqueries : query = query' := hsame
    rw [← hid, ← hid', hqueries]
  · rw [hmem, List.mem_map]
    constructor
    · intro hget
      exact ⟨_, mem_of_get hget, rfl⟩
    · rintro ⟨⟨queryId, query⟩, hquery, rfl⟩
      have hget := h.storageSorted.get_of_mem hquery
      rw [(h.stored _ _ hget).1]
      exact hget

theorem Exact.put (h : manager.Exact lastLoaded) (hreplaces : manager.Replaces trackedQuery) :
    (manager.put trackedQuery).Exact lastLoaded := by
  obtain ⟨replaced, hreplaced, hqueryId⟩ := Option.map_eq_some_iff.mp hreplaces
  have hsame : ∀ found ∈ manager.lookup trackedQuery.query, found.queryId = trackedQuery.queryId := by
    intro found hfound
    rw [hreplaced] at hfound
    cases hfound
    exact hqueryId
  refine ⟨h.toBacked.put hsame, fun spec found hfound => ?_, fun spec found hfound => ?_,
    fun spec found hfound => ?_, h.currentQueryId_nonneg, h.next_eq⟩
  · rw [lookup_put] at hfound
    rw [storage_put, get_set]
    split_ifs at hfound with hspec
    · cases hfound
      exact if_pos rfl
    · rw [if_neg]
      · exact h.saved spec found hfound
      · -- the record of the same id has the same query
        intro hid
        have hget := h.saved spec found hfound
        have hget' := h.saved _ replaced hreplaced
        rw [hid, ← hqueryId, hget'] at hget
        cases hget
        exact hspec ((h.named spec replaced hfound).symm.trans (h.named _ replaced hreplaced))
  · rw [lookup_put] at hfound
    split_ifs at hfound with hspec
    · cases hfound
      rw [← hqueryId]
      exact h.allocated _ replaced hreplaced
    · exact h.allocated spec found hfound
  · rw [lookup_put] at hfound
    split_ifs at hfound with hspec
    · cases hfound
      rw [← hqueryId]
      exact h.nonneg _ replaced hreplaced
    · exact h.nonneg spec found hfound

theorem Exact.removeTrackedQuery (h : manager.Exact lastLoaded) (query : FQuerySpec K V) :
    (manager.removeTrackedQuery query).Exact lastLoaded := by
  have hcurrent : (manager.removeTrackedQuery query).currentQueryId = manager.currentQueryId := by
    unfold FTrackedQueryManager.removeTrackedQuery
    cases manager.findTrackedQuery query <;> rfl
  have hlookup : ∀ spec, ∀ found ∈ (manager.removeTrackedQuery query).lookup spec,
      spec ≠ normalizeQuery query ∧ found ∈ manager.lookup spec := by
    intro spec found hfound
    rw [lookup_removeTrackedQuery] at hfound
    split_ifs at hfound with hspec
    · cases hfound
    · exact ⟨hspec, hfound⟩
  refine ⟨h.toBacked.removeTrackedQuery query, fun spec found hfound => ?_, fun spec found hfound => ?_,
    fun spec found hfound => h.nonneg spec found (hlookup spec found hfound).2, ?_, ?_⟩
  · obtain ⟨hspec, hfound⟩ := hlookup spec found hfound
    unfold FTrackedQueryManager.removeTrackedQuery
    cases hfind : manager.findTrackedQuery query with
    | none => exact h.saved spec found hfound
    | some trackedQuery =>
        have hget := h.saved spec found hfound
        rw [get_remove, if_neg]
        · exact hget
        · intro hid
          rw [hid, h.saved _ trackedQuery hfind] at hget
          cases hget
          exact hspec ((h.named spec found hfound).symm.trans (h.named _ found hfind))
  · rw [hcurrent]
    exact h.allocated spec found (hlookup spec found hfound).2
  · rw [hcurrent]
    exact h.currentQueryId_nonneg
  · rw [hcurrent]
    exact h.next_eq

theorem Changes.exact (h : manager.Changes manager') (hexact : manager.Exact lastLoaded) :
    manager'.Exact lastLoaded := by
  induction h with
  | refl => exact hexact
  | put _ trackedQuery hreplaces ih => exact ih.put hreplaces
  | remove _ query ih => exact ih.removeTrackedQuery query

theorem Exact.get_currentQueryId (h : manager.Exact lastLoaded)
    (hfree : ∀ queryId ∈ lastLoaded, ∀ trackedQuery ∈ manager.trackedQueries,
      trackedQuery.queryId ≠ queryId) : get manager.currentQueryId manager.storage = none := by
  rw [Option.eq_none_iff_forall_ne_some]
  intro found hget
  obtain ⟨hid, hlookup⟩ := h.stored _ found hget
  rcases h.allocated _ found hlookup with hlt | hlast
  · exact absurd hid hlt.ne
  · exact hfree _ hlast found (h.mem_trackedQueries.mpr hlookup) rfl

theorem Exact.track (h : manager.Exact lastLoaded) (hnew : manager.lookup trackedQuery.query = none)
    (hqueryId : trackedQuery.queryId = manager.currentQueryId)
    (hfree : ∀ queryId ∈ lastLoaded, ∀ trackedQuery ∈ manager.trackedQueries, trackedQuery.queryId ≠ queryId) :
    (manager.track trackedQuery).Exact none := by
  have hunused := h.get_currentQueryId hfree
  have hlookup : ∀ spec, (manager.track trackedQuery).lookup spec =
      if spec = trackedQuery.query then some trackedQuery else manager.lookup spec :=
    lookup_put { manager with currentQueryId := manager.currentQueryId + 1 } trackedQuery
  have hnonneg := h.currentQueryId_nonneg
  refine ⟨h.toBacked.track hnew, fun spec found hfound => ?_, fun spec found hfound => ?_,
    fun spec found hfound => ?_, ?_, fun _ hmem => nomatch hmem⟩
  · rw [hlookup] at hfound
    change get found.queryId (set (· < ·) trackedQuery.queryId trackedQuery manager.storage) = some found
    rw [get_set]
    split_ifs at hfound with hspec
    · cases hfound
      exact if_pos rfl
    · have hget := h.saved spec found hfound
      rw [if_neg, hget]
      rintro hid
      rw [hid, hqueryId, hunused] at hget
      cases hget
  · change found.queryId < manager.currentQueryId + 1 ∨ _
    rw [hlookup] at hfound
    split_ifs at hfound with hspec
    · cases hfound
      omega
    · rcases h.allocated spec found hfound with hlt | hlast
      · omega
      · exact absurd rfl (hfree _ hlast found (h.mem_trackedQueries.mpr
          ((congrArg manager.lookup (h.named spec found hfound)).trans hfound)))
  · rw [hlookup] at hfound
    split_ifs at hfound with hspec
    · cases hfound
      omega
    · exact h.nonneg spec found hfound
  · change 0 ≤ manager.currentQueryId + 1
    omega

theorem Exact.restart (h : manager.Exact lastLoaded) {loaded : List (FTrackedQuery K V)}
    (hperm : loaded.Perm (manager.storage.map Prod.snd)) (lastUse : Int) :
    (ofStorage manager.storage loaded lastUse).Exact (loaded.map FTrackedQuery.queryId).max? := by
  have hle : ∀ query ∈ loaded, query.queryId ≤ (ofStorage manager.storage loaded lastUse).currentQueryId :=
    fun query hmem => le_currentQueryId_ofStorage hmem
  have hcurrent := currentQueryId_ofStorage manager.storage loaded lastUse
  refine ⟨h.toBacked.restart hperm lastUse, fun spec found hfound => h.saved_restart hperm hfound,
    fun spec found hfound => ?_, fun spec found hfound => ?_, ?_, fun queryId hmax hnonneg => ?_⟩
  · obtain ⟨query, hget, _, rfl⟩ := (h.mem_lookup_restart hperm).mp hfound
    have hmem := (h.mem_loaded hperm).mpr hget
    rw [FTrackedQuery.queryId_reloaded]
    rcases (hle query hmem).lt_or_eq with hlt | heq
    · exact Or.inl hlt
    · right
      refine List.max?_eq_some_iff.mpr ⟨List.mem_map_of_mem hmem, fun other hother => ?_⟩
      obtain ⟨query', hmem', rfl⟩ := List.mem_map.mp hother
      rw [heq]
      exact hle query' hmem'
  · obtain ⟨query, hget, _, rfl⟩ := (h.mem_lookup_restart hperm).mp hfound
    rw [FTrackedQuery.queryId_reloaded]
    exact h.nonneg _ query (h.stored _ query hget).2
  · rcases hcurrent with hzero | ⟨query, hmem, heq⟩
    · exact hzero.ge
    · rw [← heq]
      exact h.nonneg _ query (h.stored _ query ((h.mem_loaded hperm).mp hmem)).2
  · obtain ⟨hmem, hgreatest⟩ := List.max?_eq_some_iff.mp hmax
    obtain ⟨last, hlast, rfl⟩ := List.mem_map.mp hmem
    have hlastLe := hle last hlast
    rcases hcurrent with hzero | ⟨query, hmem, heq⟩
    · omega
    · have hqueryLe := hgreatest query.queryId (List.mem_map_of_mem hmem)
      omega

end FTrackedQueryManager

end FirebaseSwift.Database
