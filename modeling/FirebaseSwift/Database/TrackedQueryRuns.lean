import FirebaseSwift.Database.TrackedQueryChanges
import FirebaseSwift.Library.StepRuns

/-! Runs of the tracked query manager over restarts. A state has what happened so far: the greatest id
that the last restart loaded, until a new query is tracked, and the queries that a completion covered
since they were tracked. After a restart the next id is the greatest one that was loaded, so the first
new query takes the id of a stored query that is still there. A change of its activity makes a query
complete. -/

namespace FirebaseSwift.Database

open SortedDictionary StepRuns FTrackedQueryManager

variable {K V : Type} [DatabaseKey K] [DatabaseValue V]

/-! ### Histories -/

structure TrackState (K V : Type) [DatabaseKey K] where
  manager : FTrackedQueryManager K V
  lastLoaded : Option Int
  covered : FQuerySpec K V → Bool

namespace TrackState

/-- The clock does not matter before the first query. -/
def initial : TrackState K V := ⟨.ofStorage [] [] 0, none, fun _ => false⟩

/-- The operation is a completion that covers the query. -/
def completes (operation : TrackOperation K V) (spec : FQuerySpec K V) : Bool :=
  match operation with
  | .setQueryComplete query => decide (spec = normalizeQuery query)
  | .setQueriesCompleteAtPath path => decide (path <+: spec.path)
  | .ensureCompleteTrackedQuery path _ => decide (spec = .defaultQueryAtPath path)
  | _ => false

def lastLoadedAfter (state : TrackState K V) : TrackOperation K V → Option Int
  | .restart loaded _ => (loaded.map FTrackedQuery.queryId).max?
  | operation => if (state.manager.newQuery operation).isSome then none else state.lastLoaded

/-- A query that is not tracked starts anew. -/
def coveredAfter (state : TrackState K V) (operation : TrackOperation K V) (spec : FQuerySpec K V) : Bool :=
  completes operation spec || (state.covered spec && (state.manager.lookup spec).isSome)

def step (state : TrackState K V) (operation : TrackOperation K V) : Option (TrackState K V) :=
  (state.manager.perform operation).map fun manager =>
    ⟨manager, state.lastLoadedAfter operation, state.coveredAfter operation⟩

variable {state' : TrackState K V}

theorem step_eq_some {state : TrackState K V} {operation : TrackOperation K V} : state.step operation = some state' ↔
      state.manager.perform operation = some state'.manager ∧
        state'.lastLoaded = state.lastLoadedAfter operation ∧
        state'.covered = state.coveredAfter operation := by
  rw [step, Option.map_eq_some_iff]
  constructor
  · rintro ⟨manager, hperform, rfl⟩
    exact ⟨hperform, rfl, rfl⟩
  · obtain ⟨manager, lastLoaded, covered⟩ := state'
    rintro ⟨hperform, hlast, hcovered⟩
    cases hlast
    cases hcovered
    exact ⟨manager, hperform, rfl⟩

/-! ### Ids -/

/-- No new query is tracked while the query with the greatest loaded id is still there. -/
def KeepsIds (state : TrackState K V) (operation : TrackOperation K V) : Prop :=
  (state.manager.newQuery operation).isSome = true →
    ∀ queryId ∈ state.lastLoaded, ∀ trackedQuery ∈ state.manager.trackedQueries,
      trackedQuery.queryId ≠ queryId

instance (state : TrackState K V) (operation : TrackOperation K V) :
    Decidable (state.KeepsIds operation) := by
  unfold KeepsIds
  infer_instance

/-- The new queries of a step get unused ids. -/
def GivesUnusedIds (state : TrackState K V) (operation : TrackOperation K V) : Prop :=
  ∀ state' ∈ state.step operation, NewIdsUnused state.manager state'.manager

variable {state : TrackState K V} {operation : TrackOperation K V}

theorem lastLoadedAfter_of_ne_restart (h : ∀ loaded lastUse, operation ≠ .restart loaded lastUse) :
    state.lastLoadedAfter operation =
      if (state.manager.newQuery operation).isSome then none else state.lastLoaded := by
  cases operation with
  | restart loaded lastUse => exact absurd rfl (h loaded lastUse)
  | _ => rfl

theorem exact_step (h : state.manager.Exact state.lastLoaded) (hkeeps : state.KeepsIds operation)
    (hstep : state.step operation = some state') : state'.manager.Exact state'.lastLoaded := by
  obtain ⟨hperform, hlast, _⟩ := step_eq_some.mp hstep
  rw [hlast]
  rcases perform_cases h.toFormed hperform with
    ⟨hnew, hrestart, hchanges⟩ | ⟨trackedQuery, hnew, hlookup, hqueryId, hmanager⟩ |
      ⟨loaded, lastUse, rfl, hperm, hmanager⟩
  · rw [lastLoadedAfter_of_ne_restart hrestart, hnew]
    exact hchanges.exact h
  · have hsome : (state.manager.newQuery operation).isSome = true := by rw [hnew]; rfl
    rw [lastLoadedAfter_of_ne_restart, if_pos hsome, hmanager]
    · exact h.track hlookup hqueryId (hkeeps hsome)
    · rintro loaded lastUse rfl
      cases hnew
  · rw [hmanager]
    exact h.restart hperm lastUse

theorem givesUnusedIds (h : state.manager.Exact state.lastLoaded) (hkeeps : state.KeepsIds operation) :
    state.GivesUnusedIds operation := by
  intro state' hstep trackedQuery hmem hnew
  obtain ⟨hperform, hlast, _⟩ := step_eq_some.mp hstep
  have hformed' := (exact_step h hkeeps hstep).toFormed
  rw [← h.toFormed.lookup_eq_none_iff] at hnew
  rw [hformed'.mem_trackedQueries] at hmem
  rcases perform_cases h.toFormed hperform with
    ⟨_, _, hchanges⟩ | ⟨first, hfirst, _, hqueryId, hmanager⟩ | ⟨loaded, lastUse, rfl, hperm, hmanager⟩
  · rw [hchanges.lookup_eq_none hnew] at hmem
    cases hmem
  · rw [hmanager, track, lookup_put] at hmem
    split_ifs at hmem
    · cases hmem
      rw [hqueryId]
      exact h.get_currentQueryId (hkeeps (Option.isSome_of_mem hfirst))
    · have hmem' : state.manager.lookup trackedQuery.query = some trackedQuery := hmem
      rw [hnew] at hmem'
      cases hmem'
  · rw [hmanager] at hmem
    obtain ⟨query, hget, hquery, _⟩ := (h.mem_lookup_restart hperm).mp hmem
    rw [← hquery, (h.stored _ query hget).2] at hnew
    cases hnew

/-- The first new query after a restart takes the id of the last loaded query. -/
theorem keepsIds_of_givesUnusedIds (h : state.manager.Exact state.lastLoaded)
    (hunused : state.GivesUnusedIds operation) (hstep : (state.step operation).isSome = true) :
    state.KeepsIds operation := by
  intro hnew queryId hlast last hmem hqueryId
  subst hqueryId
  obtain ⟨state', hstep⟩ := Option.isSome_iff_exists.mp hstep
  obtain ⟨hperform, _, _⟩ := step_eq_some.mp hstep
  rw [h.mem_trackedQueries] at hmem
  rcases perform_cases h.toFormed hperform with
    ⟨hnone, _, _⟩ | ⟨first, _, hlookup, hqueryId, hmanager⟩ | ⟨loaded, lastUse, rfl, _, _⟩
  · rw [hnone] at hnew
    cases hnew
  · have hformed' := (h.track hlookup hqueryId)
    have hunused := hunused state' hstep first ?_ (h.toFormed.lookup_eq_none_iff.mp hlookup)
    · rw [hqueryId, ← h.next_eq _ hlast (h.nonneg _ last hmem), h.saved _ last hmem] at hunused
      cases hunused
    · rw [hmanager, (h.toBacked.track hlookup).mem_trackedQueries, track, lookup_put, if_pos rfl]
  · cases hnew

theorem exact_initial : (initial : TrackState K V).manager.Exact none := by
  have hlookup : ∀ spec, (initial : TrackState K V).manager.lookup spec = none := lookup_ofStorage_nil [] 0
  refine ⟨⟨formed_ofStorage [] [] 0, sorted_nil _, fun _ _ h => nomatch h⟩, fun spec found hfound => ?_,
    fun spec found hfound => ?_, fun spec found hfound => ?_, le_rfl, fun _ h => nomatch h⟩
  · rw [hlookup] at hfound
    cases hfound
  · rw [hlookup] at hfound
    cases hfound
  · rw [hlookup] at hfound
    cases hfound

/-- Exactly the runs that keep the ids apart give new queries unused ids. In all their states memory and
storage agree. -/
theorem agrees_run_iff {operations : List (TrackOperation K V)}
    (hrun : (run step (initial : TrackState K V) operations).isSome = true) :
    AllSteps step KeepsIds initial operations ↔
      AllSteps step GivesUnusedIds (initial : TrackState K V) operations ∧
        ∀ before, before <+: operations → ∀ state ∈ run step initial before, state.manager.Agrees := by
  have hstep : ∀ (state : TrackState K V) (operation : TrackOperation K V),
      state.manager.Exact state.lastLoaded → state.KeepsIds operation →
        ∀ state' ∈ state.step operation, state'.manager.Exact state'.lastLoaded :=
    fun state operation h hkeeps state' => exact_step h hkeeps
  constructor
  · intro hkeeps
    refine ⟨hkeeps.imp hstep (fun state operation h hkeeps _ => givesUnusedIds h hkeeps) exact_initial hrun, ?_⟩
    rintro before ⟨rest, rfl⟩ state hbefore
    exact (invariant_run hstep exact_initial hkeeps.of_append hbefore).agrees
  · rintro ⟨hunused, _⟩
    refine hunused.imp (fun state operation h hunused state' hnext => ?_)
      (fun state operation => keepsIds_of_givesUnusedIds) exact_initial hrun
    exact exact_step h (keepsIds_of_givesUnusedIds h hunused (Option.isSome_of_mem hnext)) hnext

/-- The query with the greatest id is reloaded first and removed before a third query is tracked. -/
def reloadRun : List (TrackOperation String Int) :=
  [.setQueryActive (.defaultQueryAtPath ["a"]) 1, .setQueryActive (.defaultQueryAtPath ["b"]) 2,
    .restart [⟨1, .defaultQueryAtPath ["b"], 2, true, false⟩, ⟨0, .defaultQueryAtPath ["a"], 1, true, false⟩] 3,
    .removeTrackedQuery (.defaultQueryAtPath ["b"]), .setQueryActive (.defaultQueryAtPath ["c"]) 4]

theorem agrees_run_reload :
    AllSteps step GivesUnusedIds (initial : TrackState String Int) reloadRun :=
  ((@agrees_run_iff _ _ _ _ reloadRun (by decide)).mp (by decide)).1

/-- The first new query after the restart overwrites the record of the reloaded one. -/
def reusedIdRun : List (TrackOperation String Int) :=
  [.setQueryActive (.defaultQueryAtPath ["a"]) 1,
    .restart [⟨0, .defaultQueryAtPath ["a"], 1, true, false⟩] 2,
    .setQueryActive (.defaultQueryAtPath ["b"]) 3]

theorem agrees_fails_reusedId :
    ¬∀ (operations : List (TrackOperation String Int)) (state : TrackState String Int),
      run step initial operations = some state → state.manager.Agrees := by
  intro hall
  have hids : ¬(((run step initial reusedIdRun).get (by decide)).manager.trackedQueries.map
      FTrackedQuery.queryId).Nodup := by decide
  exact hids (hall reusedIdRun _ (Option.some_get (by decide)).symm).1

/-! ### Completeness -/

/-- The activity of a query changes only while it is complete. -/
def KeepsCompleteness (state : TrackState K V) : TrackOperation K V → Prop
  | .setQueryActive query _ | .setQueryInactive query _ =>
      ∀ trackedQuery ∈ state.manager.findTrackedQuery query, trackedQuery.isComplete = true
  | .restart _ _ => ∀ entry ∈ state.manager.storage, entry.2.isActive = true → entry.2.isComplete = true
  | _ => True

instance (state : TrackState K V) (operation : TrackOperation K V) :
    Decidable (state.KeepsCompleteness operation) := by
  cases operation <;> unfold KeepsCompleteness <;> infer_instance

/-- A complete query was covered by a completion. -/
def OnlyCovered (state : TrackState K V) : Prop :=
  ∀ trackedQuery ∈ state.manager.trackedQueries,
    trackedQuery.isComplete = true → state.covered trackedQuery.query = true

/-- No query is complete after the step that was not before, or the other way round. -/
def SameCompleteness (state state' : TrackState K V) : Prop :=
  ∀ trackedQuery ∈ state.manager.trackedQueries, ∀ trackedQuery' ∈ state'.manager.trackedQueries,
    trackedQuery'.query = trackedQuery.query → trackedQuery'.isComplete = trackedQuery.isComplete

/-- Activating, deactivating and reloading do not change what is complete. -/
def ActivityOnly (state : TrackState K V) (operation : TrackOperation K V) : Prop :=
  match operation with
  | .setQueryActive _ _ | .setQueryInactive _ _ | .restart _ _ =>
      ∀ state' ∈ state.step operation, state.SameCompleteness state'
  | _ => True

/-- A query that is complete after a step was complete before or is completed by the step. -/
theorem complete_of_perform (h : state.manager.Backed) (hkeeps : state.KeepsCompleteness operation)
    {manager' : FTrackedQueryManager K V} (hperform : state.manager.perform operation = some manager')
    {spec : FQuerySpec K V} {trackedQuery : FTrackedQuery K V} (hmem : trackedQuery ∈ manager'.lookup spec)
    (hcomplete : trackedQuery.isComplete = true) :
    completes operation spec = true ∨ ∃ found ∈ state.manager.lookup spec, found.isComplete = true := by
  have hactive : ∀ (query : FQuerySpec K V) (isActive : Bool) (lastUse : Int),
      (∀ found ∈ state.manager.findTrackedQuery query, found.isComplete = true) →
      trackedQuery ∈ (state.manager.setQueryActiveState query isActive lastUse).lookup spec →
        ∃ found ∈ state.manager.lookup spec, found.isComplete = true := by
    intro query isActive lastUse hkeeps hmem
    rw [lookup_setQueryActiveState _ _ _ _ h.toFormed] at hmem
    split_ifs at hmem with hspec
    · cases hfind : state.manager.findTrackedQuery query with
      | none =>
          rw [hfind] at hmem
          cases hmem
          cases hcomplete
      | some found => exact ⟨found, hspec ▸ hfind, hkeeps found hfind⟩
    · exact ⟨trackedQuery, hmem, hcomplete⟩
  cases operation with
  | setQueryActive query lastUse =>
      cases hperform
      exact Or.inr (hactive query true lastUse hkeeps hmem)
  | setQueryInactive query lastUse =>
      cases hperform
      exact Or.inr (hactive query false lastUse hkeeps hmem)
  | setQueryComplete query =>
      cases hperform
      by_cases hspec : spec = normalizeQuery query
      · exact Or.inl (decide_eq_true hspec)
      · refine Or.inr ⟨trackedQuery, ?_, hcomplete⟩
        unfold setQueryComplete at hmem
        cases hfind : state.manager.findTrackedQuery query with
        | none =>
            rw [hfind] at hmem
            exact hmem
        | some found =>
            rw [hfind] at hmem
            dsimp only at hmem
            split_ifs at hmem
            · exact hmem
            · change trackedQuery ∈ (state.manager.put found.setComplete).lookup spec at hmem
              have hquery : found.setComplete.query = normalizeQuery query := h.named _ found hfind
              rw [lookup_put, hquery, if_neg hspec] at hmem
              exact hmem
  | setQueriesCompleteAtPath path =>
      cases hperform
      rcases mem_lookup_foldl_completeTrackedQuery hmem with hfound | ⟨found, hfound, rfl, _⟩
      · exact Or.inr ⟨trackedQuery, hfound, hcomplete⟩
      · exact Or.inl (decide_eq_true (h.mem_subtree.mp hfound).1)
  | ensureCompleteTrackedQuery path currentTime =>
      cases hperform
      by_cases hspec : spec = .defaultQueryAtPath path
      · exact Or.inl (decide_eq_true hspec)
      · refine Or.inr ⟨trackedQuery, ?_, hcomplete⟩
        simp only [ensureCompleteTrackedQueryAtPath] at hmem
        split_ifs at hmem
        · cases hfind : state.manager.findTrackedQuery (.defaultQueryAtPath path) with
          | none =>
              rw [hfind] at hmem
              change trackedQuery ∈ (state.manager.track
                ⟨state.manager.currentQueryId, .defaultQueryAtPath path, currentTime, false, true⟩).lookup
                  spec at hmem
              rw [track, lookup_put, if_neg hspec] at hmem
              exact hmem
          | some found =>
              rw [hfind] at hmem
              have hquery : found.setComplete.query = .defaultQueryAtPath path := h.named _ found hfind
              change trackedQuery ∈ (state.manager.put found.setComplete).lookup spec at hmem
              rw [lookup_put, hquery, if_neg hspec] at hmem
              exact hmem
        · exact hmem
  | removeTrackedQuery query =>
      cases hperform
      exact Or.inr ⟨trackedQuery, mem_lookup_of_removeTrackedQuery hmem, hcomplete⟩
  | pruneOldQueries cachePolicy =>
      obtain ⟨result, hprune, rfl⟩ := Option.map_eq_some_iff.mp hperform
      obtain ⟨pruned, hpruned⟩ := pruneOldQueries_eq hprune
      rw [hpruned] at hmem
      exact Or.inr ⟨trackedQuery, mem_lookup_foldl_removeTrackedQuery hmem, hcomplete⟩
  | restart loaded lastUse =>
      rw [perform] at hperform
      split_ifs at hperform with hperm
      cases hperform
      obtain ⟨query, hget, rfl, rfl⟩ := (h.mem_lookup_restart hperm).mp hmem
      refine Or.inr ⟨query, (h.stored _ query hget).2, ?_⟩
      rw [FTrackedQuery.isComplete_reloaded, Bool.or_eq_true] at hcomplete
      exact hcomplete.elim (hkeeps _ (mem_of_get hget)) id

theorem onlyCovered_step (h : state.manager.Backed) (hcovered : state.OnlyCovered)
    (hkeeps : state.KeepsCompleteness operation) (hstep : state.step operation = some state') :
    state'.OnlyCovered := by
  obtain ⟨hperform, _, hcoveredAfter⟩ := step_eq_some.mp hstep
  intro trackedQuery hmem hcomplete
  rw [(h.perform hperform).mem_trackedQueries] at hmem
  rw [hcoveredAfter, coveredAfter, Bool.or_eq_true, Bool.and_eq_true]
  refine (complete_of_perform h hkeeps hperform hmem hcomplete).imp_right ?_
  rintro ⟨found, hfound, hfoundComplete⟩
  have hquery := h.named _ found hfound
  rw [← hquery] at hfound ⊢
  exact ⟨hcovered found (h.mem_trackedQueries.mpr hfound) hfoundComplete, Option.isSome_of_mem hfound⟩

/-- Where the activity of a query changes, the query stays as complete as it was if and only if it was
complete already. -/
theorem setQueryActiveState_isComplete_iff (h : state.manager.Backed) (query : FQuerySpec K V)
    (isActive : Bool) (lastUse : Int) : (∀ found ∈ state.manager.findTrackedQuery query, found.isComplete = true) ↔
      ∀ spec, ∀ found ∈ state.manager.lookup spec,
        ∀ found' ∈ (state.manager.setQueryActiveState query isActive lastUse).lookup spec,
          found'.isComplete = found.isComplete := by
  simp only [lookup_setQueryActiveState _ _ _ _ h.toFormed]
  constructor
  · intro hkeeps spec found hfound found' hfound'
    split_ifs at hfound' with hspec
    · rw [hspec, ← findTrackedQuery_eq] at hfound
      rw [Option.mem_def.mp hfound] at hfound'
      cases hfound'
      exact (hkeeps found hfound).symm
    · rw [Option.mem_def.mp hfound] at hfound'
      cases hfound'
      rfl
  · intro hsame found hfound
    refine (hsame (normalizeQuery query) found hfound _ ?_).symm.trans
      (rfl : ((found.updateLastUse lastUse).setActiveState isActive).isComplete = true)
    rw [if_pos rfl, Option.mem_def.mp hfound]
    rfl

theorem activityOnly_iff (h : state.manager.Backed) (hstep : (state.step operation).isSome = true) :
    state.KeepsCompleteness operation ↔ state.ActivityOnly operation := by
  obtain ⟨state', hstep⟩ := Option.isSome_iff_exists.mp hstep
  obtain ⟨hperform, _, _⟩ := step_eq_some.mp hstep
  have hsame : (∀ state' ∈ state.step operation, state.SameCompleteness state') ↔
      ∀ spec, ∀ found ∈ state.manager.lookup spec, ∀ found' ∈ state'.manager.lookup spec,
        found'.isComplete = found.isComplete := by
    rw [hstep]
    constructor
    · intro hsame spec found hfound found' hfound'
      have hquery := h.named spec found hfound
      have hquery' := (h.perform hperform).named spec found' hfound'
      refine hsame state' rfl found ?_ found' ?_ (hquery'.trans hquery.symm)
      · rw [h.mem_trackedQueries, hquery]
        exact hfound
      · rw [(h.perform hperform).mem_trackedQueries, hquery']
        exact hfound'
    · rintro hsame _ ⟨⟩ found hfound found' hfound' hquery
      rw [h.mem_trackedQueries] at hfound
      rw [(h.perform hperform).mem_trackedQueries, hquery] at hfound'
      exact hsame _ found hfound found' hfound'
  cases operation with
  | setQueryActive query lastUse =>
      refine (setQueryActiveState_isComplete_iff h query true lastUse).trans (Iff.trans ?_ hsame.symm)
      rw [← Option.some.inj hperform]
      rfl
  | setQueryInactive query lastUse =>
      refine (setQueryActiveState_isComplete_iff h query false lastUse).trans (Iff.trans ?_ hsame.symm)
      rw [← Option.some.inj hperform]
      rfl
  | restart loaded lastUse =>
      refine Iff.trans ?_ hsame.symm
      rw [perform] at hperform
      split_ifs at hperform with hperm
      rw [← Option.some.inj hperform]
      constructor
      · intro hkeeps spec found hfound found' hfound'
        obtain ⟨query, hget, rfl, rfl⟩ := (h.mem_lookup_restart hperm).mp hfound'
        rw [(h.stored _ query hget).2] at hfound
        cases hfound
        rw [FTrackedQuery.isComplete_reloaded]
        cases hactive : found.isActive with
        | false => rfl
        | true => exact (hkeeps _ (mem_of_get hget) hactive).symm
      · rintro hsame ⟨queryId, query⟩ hmem hactive
        have hget := h.storageSorted.get_of_mem hmem
        obtain ⟨hid, hlookup⟩ := h.stored _ query hget
        rw [← hid] at hget
        have hcomplete := hsame query.query query hlookup _
          ((h.mem_lookup_restart hperm).mpr ⟨query, hget, rfl, rfl⟩)
        have hactive' : query.isActive = true := hactive
        rw [FTrackedQuery.isComplete_reloaded, hactive', Bool.true_or] at hcomplete
        exact hcomplete.symm
  | _ => exact iff_of_true trivial trivial

theorem backed_initial : (initial : TrackState K V).manager.Backed := exact_initial.toBacked

/-- Exactly the runs that change the activity of complete queries only leave completeness to the
completions: activity does not change it, and in no state a query is complete that none covered. -/
theorem onlyCovered_run_iff {operations : List (TrackOperation K V)}
    (hrun : (run step (initial : TrackState K V) operations).isSome = true) :
    AllSteps step KeepsCompleteness initial operations ↔
      AllSteps step ActivityOnly (initial : TrackState K V) operations ∧
        ∀ before, before <+: operations → ∀ state ∈ run step initial before, state.OnlyCovered := by
  have hbacked : ∀ (condition : TrackState K V → TrackOperation K V → Prop) (state : TrackState K V)
      (operation : TrackOperation K V), state.manager.Backed → condition state operation →
        ∀ state' ∈ state.step operation, state'.manager.Backed :=
    fun _ state operation h _ state' hstep => h.perform (step_eq_some.mp hstep).1
  constructor
  · intro hkeeps
    refine ⟨hkeeps.imp (hbacked _) (fun state operation h hkeeps hstep => (activityOnly_iff h hstep).mp hkeeps)
      backed_initial hrun, ?_⟩
    rintro before ⟨rest, rfl⟩ state hbefore
    have hinitial : (initial : TrackState K V).OnlyCovered := by
      intro trackedQuery hmem
      have hlookup := backed_initial.mem_trackedQueries.mp hmem
      rw [initial, lookup_ofStorage_nil] at hlookup
      cases hlookup
    have hstep : ∀ (state : TrackState K V) (operation : TrackOperation K V),
        state.manager.Backed ∧ state.OnlyCovered → state.KeepsCompleteness operation →
          ∀ state' ∈ state.step operation, state'.manager.Backed ∧ state'.OnlyCovered :=
      fun state operation h hkeeps state' hstep =>
        ⟨h.1.perform (step_eq_some.mp hstep).1, onlyCovered_step h.1 h.2 hkeeps hstep⟩
    exact (invariant_run hstep ⟨backed_initial, hinitial⟩ hkeeps.of_append hbefore).2
  · rintro ⟨hactivity, _⟩
    exact hactivity.imp (hbacked _) (fun state operation h hactivity hstep => (activityOnly_iff h hstep).mpr
      hactivity) backed_initial hrun

/-- A query is completed before it is made inactive and reloaded. -/
def completedRun : List (TrackOperation String Int) :=
  [.setQueryActive (.defaultQueryAtPath ["a"]) 1, .setQueriesCompleteAtPath [],
    .setQueryInactive (.defaultQueryAtPath ["a"]) 2,
    .restart [⟨0, .defaultQueryAtPath ["a"], 2, false, true⟩] 3,
    .setQueryActive (.defaultQueryAtPath ["a"]) 4]

theorem onlyCovered_run_completed :
    AllSteps step ActivityOnly (initial : TrackState String Int) completedRun :=
  ((@onlyCovered_run_iff _ _ _ _ completedRun (by decide)).mp (by decide)).1

/-- A query is complete when its listener goes, before the server has sent anything. -/
theorem onlyCovered_fails_inactive :
    ¬∀ (operations : List (TrackOperation String Int)) (state : TrackState String Int),
      run step initial operations = some state → state.OnlyCovered := by
  intro hall
  have hcomplete := hall [.setQueryActive (.defaultQueryAtPath ["a"]) 1,
    .setQueryInactive (.defaultQueryAtPath ["a"]) 2] _ rfl
    ⟨0, .defaultQueryAtPath ["a"], 2, false, true⟩ (by decide) rfl
  exact absurd hcomplete (by decide)

end TrackState

end FirebaseSwift.Database
