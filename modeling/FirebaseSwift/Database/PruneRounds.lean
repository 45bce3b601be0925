import FirebaseSwift.Database.CachePolicy
import FirebaseSwift.Database.PrunedQueries

/-! The rounds of a prune pass. Every round that removes something leaves fewer queries to remove, and a round
that removes nothing is the last one, so a pass ends. The number to remove is rounded down: a round with few
queries removes none of them, and the pass gives up while the cache is still too large. -/

namespace FirebaseSwift.Database

open SortedDictionary StepRuns FTrackedQueryManager

variable {K V : Type} [DatabaseKey K] [DatabaseValue V]

/-- More queries than may stay, or a percentage that is at least one query -/
def FCachePolicy.AsksForOne (cachePolicy : FCachePolicy) (numPrunable : Nat) : Prop :=
  numPrunable > cachePolicy.maxNumberOfQueriesToKeep ∨
    ∃ numPercent ∈ Doubles.toInt (Doubles.round
      (Doubles.round numPrunable * cachePolicy.percentOfQueriesToPruneAtOnce)), 1 ≤ numPercent

namespace FTrackedQueryManager

variable {manager manager' : FTrackedQueryManager K V} {cachePolicy : FCachePolicy} {forest : FPruneForest K}
  {removed kept : List (FTrackedQuery K V)}

theorem Changes.pruneOldQueries (h : manager.pruneOldQueries cachePolicy = some (manager', forest)) :
    manager.Changes manager' := by
  obtain ⟨numToPrune, _, _, _, hresult⟩ := pruneOldQueries_eq_some h
  cases hresult
  exact .foldl_removeTrackedQuery .refl _

/-- A forest that prunes anything is from a pruning that removed something. -/
theorem Selects.removed_ne_nil (h : manager.pruneOldQueries cachePolicy = some (manager', forest))
    (hselects : manager.Selects cachePolicy manager' forest removed kept)
    (hprunes : forest.prunesAnything = true) : removed ≠ [] := by
  obtain ⟨numToPrune, pruned, _, hpruned, hresult⟩ := pruneOldQueries_eq_some h
  have hsorted : forest.pruneForest.IsSorted := by
    cases hresult
    exact FPruneForest.isSorted_foldl_keepPath _
      (FPruneForest.isSorted_foldlM_prunePath _ FImmutableTree.IsSorted.empty hpruned) _
  obtain ⟨path, hpath⟩ := FPruneForest.exists_shouldPrune hsorted hprunes
  obtain ⟨⟨query, hmem, _⟩, _⟩ := (hselects.prunes path).mp hpath
  exact List.ne_nil_of_mem hmem

theorem Selects.length_eq (hselects : manager.Selects cachePolicy manager' forest removed kept) :
    removed.length + kept.length = manager.prunableQueries.length := by
  rw [← List.length_append, hselects.inactive.length_eq, FTrackedQueryManager.prunableQueries,
    List.length_mergeSort]

/-- What is inactive afterwards was kept. -/
theorem Selects.length_prunableQueries (hformed : manager'.Formed)
    (hselects : manager.Selects cachePolicy manager' forest removed kept) :
    manager'.prunableQueries.length ≤ kept.length := by
  rw [FTrackedQueryManager.prunableQueries, List.length_mergeSort]
  refine (List.Nodup.subperm ((hformed.nodup_trackedQueries.of_map _).filter _) fun query hmem => ?_).length_le
  obtain ⟨hmem, hinactive⟩ := List.mem_filter.mp hmem
  obtain ⟨hmem, hnot⟩ := (hselects.stays query).mp hmem
  have hprunable := hselects.inactive.mem_iff.mpr (List.mem_filter.mpr ⟨hmem, hinactive⟩)
  exact (List.mem_append.mp hprunable).resolve_left hnot

/-- A round removes something exactly if the policy asks for it. -/
theorem Selects.removed_ne_nil_iff (hselects : manager.Selects cachePolicy manager' forest removed kept)
    (hsome : 0 < manager.prunableQueries.length) :
    removed ≠ [] ↔ cachePolicy.AsksForOne manager.prunableQueries.length := by
  obtain ⟨numPercent, hpercent, hlength⟩ := hselects.number
  rw [← List.length_pos_iff_ne_nil, FCachePolicy.AsksForOne, hpercent]
  by_cases hover : (manager.prunableQueries.length : Int) > cachePolicy.maxNumberOfQueriesToKeep
  · rw [if_pos hover] at hlength
    refine iff_of_true ?_ (Or.inl hover)
    omega
  · rw [if_neg hover] at hlength
    constructor
    · intro hpos
      exact Or.inr ⟨numPercent, rfl, by omega⟩
    · rintro (habove | ⟨_, hnumPercent, hone⟩)
      · exact absurd habove hover
      · cases hnumPercent
        omega

/-- The round does not stop the program. It removes the least recently used queries, and at least one of them
where one is inactive. -/
def RemovesFirst (cachePolicy : FCachePolicy) (manager : FTrackedQueryManager K V) : Prop :=
  ∃ manager' forest removed kept, manager.pruneOldQueries cachePolicy = some (manager', forest) ∧
    manager.Selects cachePolicy manager' forest removed kept ∧
    (0 < manager.numberOfPrunableQueries → removed ≠ [])

/-- The numbers of the policy are integers, and it asks for at least one query. -/
def PrunesOne (cachePolicy : FCachePolicy) (manager : FTrackedQueryManager K V) : Prop :=
  cachePolicy.Counts manager.prunableQueries.length ∧
    (0 < manager.numberOfPrunableQueries → cachePolicy.AsksForOne manager.prunableQueries.length)

theorem counts_of_pruneOldQueries {result : FTrackedQueryManager K V × FPruneForest K}
    (h : manager.pruneOldQueries cachePolicy = some result) : cachePolicy.Counts manager.prunableQueries.length := by
  obtain ⟨numToPrune, _, hnumber, _, _⟩ := pruneOldQueries_eq_some h
  rw [numberOfQueriesToPrune] at hnumber
  obtain ⟨numPercent, hpercent, hnumber⟩ := Option.bind_eq_some_iff.mp hnumber
  refine ⟨Option.isSome_of_mem hpercent, ?_⟩
  by_contra hlarge
  have hover : (manager.prunableQueries.length : Int) > cachePolicy.maxNumberOfQueriesToKeep := by omega
  rw [if_pos hover, if_neg hlarge] at hnumber
  cases hnumber

/-- A round prunes one exactly where the policy's numbers ask for it. -/
theorem removesFirst_iff (hformed : manager.Formed) (hvalid : manager.Valid) :
    manager.RemovesFirst cachePolicy ↔ manager.PrunesOne cachePolicy := by
  have hpositive : 0 < manager.numberOfPrunableQueries ↔ 0 < manager.prunableQueries.length := by
    rw [← length_prunableQueries]
    exact Int.natCast_pos
  constructor
  · rintro ⟨manager', forest, removed, kept, hprune, hselects, hremoved⟩
    refine ⟨counts_of_pruneOldQueries hprune, fun hsome => ?_⟩
    exact (hselects.removed_ne_nil_iff (hpositive.mp hsome)).mp (hremoved hsome)
  · rintro ⟨hcounts, hasks⟩
    obtain ⟨manager', forest, removed, kept, hprune, hselects⟩ := exists_pruneOldQueries hformed hvalid hcounts
    refine ⟨manager', forest, removed, kept, hprune, hselects, fun hsome => ?_⟩
    exact (hselects.removed_ne_nil_iff (hpositive.mp hsome)).mpr (hasks hsome)

end FTrackedQueryManager

/-! ### The least recently used policy -/

variable (maxSize : Int) {numPrunable : ℕ}

theorem counts_lru (h : numPrunable < 2 ^ 63) : (FLRUCachePolicy maxSize).Counts numPrunable := by
  refine ⟨Option.isSome_of_mem (toInt_numPercent h), ?_⟩
  rw [maxNumberOfQueriesToKeep_lru]
  omega

/-- The policy asks for no query where there are one to four of them. -/
theorem asksForOne_lru_iff (h : numPrunable < 2 ^ 63) :
    (FLRUCachePolicy maxSize).AsksForOne numPrunable ↔ 5 ≤ numPrunable := by
  rw [FCachePolicy.AsksForOne]
  constructor
  · rintro (hover | ⟨percent, hpercent, hone⟩)
    · rw [maxNumberOfQueriesToKeep_lru] at hover
      omega
    · by_contra hfew
      cases hpercent.symm.trans (toInt_numPercent h)
      rw [Int.le_floor, Int.cast_one] at hone
      exact absurd (numPercent_lt_one (not_le.mp hfew)) (not_lt.mpr hone)
  · intro hmany
    refine Or.inr ⟨_, toInt_numPercent h, ?_⟩
    rw [Int.le_floor, Int.cast_one]
    exact one_le_numPercent hmany

omit [DatabaseValue V] in
/-- So a round under it prunes one unless one to four queries are inactive. -/
theorem prunesOne_lru_iff {manager : FTrackedQueryManager K V} (h : manager.prunableQueries.length < 2 ^ 63) :
    manager.PrunesOne (FLRUCachePolicy maxSize) ↔
      manager.numberOfPrunableQueries = 0 ∨ 5 ≤ manager.numberOfPrunableQueries := by
  rw [PrunesOne, asksForOne_lru_iff maxSize h, and_iff_right (counts_lru maxSize h), ← length_prunableQueries]
  omega

/-! ### Passes -/

namespace FPersistenceManager

variable {manager : FPersistenceManager K V}

/-- What the manager tracks at the start of every round that a pass runs -/
def rounds (self : FPersistenceManager K V) : List Int → List (FTrackedQueryManager K V)
  | [] => []
  | cacheSize :: sizes =>
      if self.cachePolicy.shouldPruneCache cacheSize self.trackedQueryManager.numberOfPrunableQueries then
        self.trackedQueryManager ::
          match self.trackedQueryManager.pruneOldQueries self.cachePolicy with
          | none => []
          | some (trackedQueryManager, pruneForest) =>
              if pruneForest.prunesAnything then
                rounds { self with
                  trackedQueryManager := trackedQueryManager
                  serverCache := self.serverCache.prune pruneForest } sizes
              else []
      else []

/-- The first reports of a storage -/
def reported (sizes : ℕ → Int) (turns : ℕ) : List Int := (List.range turns).map sizes

variable {sizes : List Int}

theorem valid_rounds (hformed : manager.trackedQueryManager.Formed)
    (hvalid : manager.trackedQueryManager.Valid) {round : FTrackedQueryManager K V}
    (h : round ∈ manager.rounds sizes) : round.Formed ∧ round.Valid := by
  induction sizes generalizing manager with
  | nil => cases h
  | cons cacheSize sizes ih =>
      rw [rounds] at h
      split_ifs at h
      · rcases List.mem_cons.mp h with rfl | h
        · exact ⟨hformed, hvalid⟩
        · cases hresult : manager.trackedQueryManager.pruneOldQueries manager.cachePolicy with
          | none =>
              rw [hresult] at h
              cases h
          | some result =>
              obtain ⟨manager', forest⟩ := result
              have hchanges := Changes.pruneOldQueries hresult
              rw [hresult] at h
              dsimp only at h
              split_ifs at h
              · exact ih (hchanges.formed hformed) (hchanges.valid hvalid) h
              · cases h
      · cases h

/-- A pass whose policy gives numbers ends after one round for each query and one more. -/
theorem isSome_pruneWhile (hformed : manager.trackedQueryManager.Formed) (hvalid : manager.trackedQueryManager.Valid)
    (hlength : manager.trackedQueryManager.prunableQueries.length < sizes.length)
    (hcounts : ∀ round ∈ manager.rounds sizes, manager.cachePolicy.Counts round.prunableQueries.length) :
    (manager.pruneWhile sizes).isSome = true := by
  induction sizes generalizing manager with
  | nil => cases hlength
  | cons cacheSize sizes ih =>
      rw [rounds] at hcounts
      rw [pruneWhile]
      by_cases hprune : manager.cachePolicy.shouldPruneCache cacheSize
          manager.trackedQueryManager.numberOfPrunableQueries = true
      · rw [if_pos hprune] at hcounts ⊢
        obtain ⟨hfirst, hrest⟩ := List.forall_mem_cons.mp hcounts
        obtain ⟨manager', forest, removed, kept, hresult, hselects⟩ :=
          exists_pruneOldQueries hformed hvalid hfirst
        rw [hresult] at hrest
        rw [hresult, Option.bind_some]
        dsimp only at hrest ⊢
        split_ifs with hprunes
        · rw [if_pos hprunes] at hrest
          have hchanges := Changes.pruneOldQueries hresult
          refine ih (hchanges.formed hformed) (hchanges.valid hvalid) ?_ hrest
          have hremoved := List.length_pos_iff_ne_nil.mpr (hselects.removed_ne_nil hresult hprunes)
          have hkept := hselects.length_prunableQueries (hchanges.formed hformed)
          have htotal := hselects.length_eq
          rw [List.length_cons] at hlength
          dsimp only
          omega
        · rfl
      · rw [if_neg hprune]
        rfl

/-- The pass ends, and every round of it prunes the least recently used queries and at least one. -/
structure Progresses (manager : FPersistenceManager K V) (sizes : ℕ → Int) : Prop where
  ends : ∃ turns, (manager.pruneWhile (reported sizes turns)).isSome = true
  rounds : ∀ turns, ∀ round ∈ manager.rounds (reported sizes turns), round.RemovesFirst manager.cachePolicy

theorem progresses_iff (hformed : manager.trackedQueryManager.Formed)
    (hvalid : manager.trackedQueryManager.Valid) (sizes : ℕ → Int) : manager.Progresses sizes ↔
      ∀ turns, ∀ round ∈ manager.rounds (reported sizes turns), round.PrunesOne manager.cachePolicy := by
  have hround : ∀ turns, ∀ round ∈ manager.rounds (reported sizes turns),
      round.RemovesFirst manager.cachePolicy ↔ round.PrunesOne manager.cachePolicy := by
    intro turns round hmem
    obtain ⟨hroundFormed, hroundValid⟩ := valid_rounds hformed hvalid hmem
    exact removesFirst_iff hroundFormed hroundValid
  constructor
  · intro hprogresses turns round hmem
    exact (hround turns round hmem).mp (hprogresses.rounds turns round hmem)
  · intro hasks
    refine ⟨⟨manager.trackedQueryManager.prunableQueries.length + 1, ?_⟩, fun turns round hmem => ?_⟩
    · refine isSome_pruneWhile hformed hvalid ?_ fun round hmem => (hasks _ round hmem).1
      rw [reported, List.length_map, List.length_range]
      exact Nat.lt_succ_self _
    · exact (hround turns round hmem).mpr (hasks turns round hmem)

/-- After every run of the tracked queries a pass makes progress exactly if the policy asks for one query in
every round. -/
theorem progresses_run_iff {operations : List (TrackOperation K V)} {state : TrackState K V}
    (hrun : run TrackState.step (TrackState.initial : TrackState K V) operations = some state)
    (htracked : manager.trackedQueryManager = state.manager) (sizes : ℕ → Int) :
    manager.Progresses sizes ↔
      ∀ turns, ∀ round ∈ manager.rounds (reported sizes turns), round.PrunesOne manager.cachePolicy := by
  obtain ⟨hformed, hvalid⟩ := valid_run hrun
  exact progresses_iff (htracked ▸ hformed) (htracked ▸ hvalid) sizes

/-- A manager with one inactive query -/
def inactiveManager (cachePolicy : FCachePolicy) : FPersistenceManager String Int :=
  ⟨.empty, cachePolicy, ((run TrackState.step TrackState.initial inactiveRun).get (by decide)).manager, 0⟩

theorem progresses_run_iff_inactive :
    (inactiveManager (keepAtLeast 0)).Progresses (fun _ => 0) ↔
      ∀ turns, ∀ round ∈ (inactiveManager (keepAtLeast 0)).rounds (reported (fun _ => 0) turns),
        round.PrunesOne (keepAtLeast 0) :=
  progresses_run_iff (Option.some_get (by decide)).symm rfl _

/-- One fifth of one query is none. -/
theorem progresses_fails_lru :
    ¬∀ (maxSize : Int) (operations : List (TrackOperation String Int)) (state : TrackState String Int)
      (manager : FPersistenceManager String Int) (sizes : ℕ → Int),
      run TrackState.step TrackState.initial operations = some state →
        manager.trackedQueryManager = state.manager → manager.cachePolicy = FLRUCachePolicy maxSize →
          manager.Progresses sizes := by
  intro hall
  have hprogresses := hall 0 inactiveRun _ (inactiveManager (FLRUCachePolicy 0)) (fun _ => 1)
    (Option.some_get (by decide)).symm rfl rfl
  have hfirst : (inactiveManager (FLRUCachePolicy 0)).trackedQueryManager ∈
      (inactiveManager (FLRUCachePolicy 0)).rounds (reported (fun _ => 1) 1) := by
    rw [show reported (fun _ => 1) 1 = [1] from rfl, FPersistenceManager.rounds, if_pos (by rfl)]
    exact List.mem_cons_self
  obtain ⟨_, _, _, _, _, hselects, hremoved⟩ := hprogresses.rounds 1 _ hfirst
  have hone : (inactiveManager (FLRUCachePolicy 0)).trackedQueryManager.numberOfPrunableQueries = 1 := by decide
  have hlength := length_prunableQueries (inactiveManager (FLRUCachePolicy 0)).trackedQueryManager
  rw [hone] at hlength
  have hasks := (hselects.removed_ne_nil_iff (by omega)).mp (hremoved (by omega))
  have hfive := (asksForOne_lru_iff 0 (by omega)).mp hasks
  omega

end FPersistenceManager

end FirebaseSwift.Database
