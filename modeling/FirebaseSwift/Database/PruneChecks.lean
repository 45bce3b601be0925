import FirebaseSwift.Database.CachePolicy
import FirebaseSwift.Database.PersistenceManager
import FirebaseSwift.Library.StepRuns

/-! When a pass prunes the cache. The persistence manager counts the updates since the last check and asks the
policy whether the number is high enough. It returns where the policy says so, and a pass starts where it does
not. A history counts the updates since the last pass that read the size of the cache. -/

namespace FirebaseSwift.Database

open SortedDictionary StepRuns

variable {K V : Type} [DatabaseKey K] [DatabaseValue V]

namespace FPersistenceManager

/-- `storageEngine.updateServerCache(merge:atPath:)` -/
def mergeStorage (self : FPersistenceManager K V) (merge : FCompoundWrite K V) (path : FPath K) :
    FPersistenceManager K V :=
  { self with
    serverCache := merge.writeTree.forEach.foldl
      (fun serverCache write => serverCache.updateChild (path ++ write.1) write.2) self.serverCache }

/-- `updateServerCache(merge:atPath:)` -/
def mergeServerCache (self : FPersistenceManager K V) (merge : FCompoundWrite K V) (path : FPath K)
    (sizes : List Int) : Option (FPersistenceManager K V) :=
  (self.mergeStorage merge path).doPruneCheckAfterServerUpdate sizes

end FPersistenceManager

/-- An update has the sizes that the storage engine estimates in its pass. -/
inductive PersistenceOperation (K V : Type) [DatabaseKey K] where
  | setQueryActive (query : FQuerySpec K V) (lastUse : Int)
  | setQueryInactive (query : FQuerySpec K V) (lastUse : Int)
  | updateServerCache (node : FNode K V) (query : FQuerySpec K V) (sizes : List Int)
  | mergeServerCache (merge : FCompoundWrite K V) (path : FPath K) (sizes : List Int)

namespace FPersistenceManager

/-- What the manager is when it checks, and the sizes for it -/
def checked (self : FPersistenceManager K V) :
    PersistenceOperation K V → Option (FPersistenceManager K V × List Int)
  | .setQueryActive _ _ | .setQueryInactive _ _ => none
  | .updateServerCache node query sizes =>
      some ((self.updateStorage node query.path !query.loadsAllData).setQueryComplete query, sizes)
  | .mergeServerCache merge path sizes => some (self.mergeStorage merge path, sizes)

def perform (self : FPersistenceManager K V) : PersistenceOperation K V → Option (FPersistenceManager K V)
  | .setQueryActive query lastUse => some (self.setQueryActive query lastUse)
  | .setQueryInactive query lastUse => some (self.setQueryInactive query lastUse)
  | .updateServerCache node query sizes => self.updateServerCache node query sizes
  | .mergeServerCache merge path sizes => self.mergeServerCache merge path sizes

/-- The check has no result without a size, so it reads one: a pass starts. -/
def StartsPass (manager : FPersistenceManager K V) : Prop :=
  manager.doPruneCheckAfterServerUpdate [] = none

variable {manager manager' : FPersistenceManager K V}

theorem doPruneCheck_of_shouldCheck (sizes : List Int)
    (h : manager.cachePolicy.shouldCheckCacheSize (manager.serverCacheUpdatesSinceLastPruneCheck + 1) = true) :
    manager.doPruneCheckAfterServerUpdate sizes =
      some { manager with
        serverCacheUpdatesSinceLastPruneCheck := manager.serverCacheUpdatesSinceLastPruneCheck + 1 } :=
  if_pos h

theorem doPruneCheck_of_not_shouldCheck (sizes : List Int)
    (h : ¬manager.cachePolicy.shouldCheckCacheSize (manager.serverCacheUpdatesSinceLastPruneCheck + 1) = true) :
    manager.doPruneCheckAfterServerUpdate sizes =
      { manager with serverCacheUpdatesSinceLastPruneCheck := 0 }.pruneWhile sizes :=
  if_neg h

theorem startsPass_iff : manager.StartsPass ↔
    ¬manager.cachePolicy.shouldCheckCacheSize (manager.serverCacheUpdatesSinceLastPruneCheck + 1) = true := by
  unfold StartsPass
  constructor
  · intro hnone hshould
    rw [doPruneCheck_of_shouldCheck [] hshould] at hnone
    cases hnone
  · intro hshould
    exact doPruneCheck_of_not_shouldCheck [] hshould

instance : Decidable manager.StartsPass := decidable_of_iff' _ startsPass_iff

variable {sizes : List Int}

/-- The rounds of a pass leave the policy and the counter alone. -/
theorem pruneWhile_frame (h : manager.pruneWhile sizes = some manager') :
    manager'.cachePolicy = manager.cachePolicy ∧
      manager'.serverCacheUpdatesSinceLastPruneCheck = manager.serverCacheUpdatesSinceLastPruneCheck := by
  induction sizes generalizing manager with
  | nil => cases h
  | cons cacheSize sizes ih =>
      rw [pruneWhile] at h
      split_ifs at h with hprune
      · obtain ⟨⟨trackedQueryManager, pruneForest⟩, _, h⟩ := Option.bind_eq_some_iff.mp h
        dsimp only at h
        split_ifs at h
        · obtain ⟨hpolicy, hcounter⟩ := ih h
          exact ⟨hpolicy, hcounter⟩
        · cases h
          exact ⟨rfl, rfl⟩
      · cases h
        exact ⟨rfl, rfl⟩

theorem doPruneCheck_frame (h : manager.doPruneCheckAfterServerUpdate sizes = some manager') :
    manager'.cachePolicy = manager.cachePolicy ∧
      manager'.serverCacheUpdatesSinceLastPruneCheck =
        if manager.StartsPass then 0 else manager.serverCacheUpdatesSinceLastPruneCheck + 1 := by
  by_cases hshould :
      manager.cachePolicy.shouldCheckCacheSize (manager.serverCacheUpdatesSinceLastPruneCheck + 1) = true
  · rw [doPruneCheck_of_shouldCheck sizes hshould] at h
    rw [if_neg fun hstarts => startsPass_iff.mp hstarts hshould]
    cases h
    exact ⟨rfl, rfl⟩
  · rw [doPruneCheck_of_not_shouldCheck sizes hshould] at h
    rw [if_pos (startsPass_iff.mpr hshould)]
    exact pruneWhile_frame h

/-- What is done before the check leaves the policy and the counter alone. -/
theorem checked_frame {operation : PersistenceOperation K V}
    (h : manager.checked operation = some (manager', sizes)) : manager'.cachePolicy = manager.cachePolicy ∧
      manager'.serverCacheUpdatesSinceLastPruneCheck = manager.serverCacheUpdatesSinceLastPruneCheck := by
  cases operation with
  | setQueryActive query lastUse | setQueryInactive query lastUse => cases h
  | updateServerCache node query sizes =>
      cases h
      unfold FPersistenceManager.setQueryComplete updateStorage
      split_ifs <;> exact ⟨rfl, rfl⟩
  | mergeServerCache merge path sizes =>
      cases h
      exact ⟨rfl, rfl⟩

theorem perform_of_checked {operation : PersistenceOperation K V}
    (h : manager.checked operation = some (manager', sizes)) :
    manager.perform operation = manager'.doPruneCheckAfterServerUpdate sizes := by
  cases operation with
  | setQueryActive query lastUse | setQueryInactive query lastUse => cases h
  | updateServerCache node query sizes | mergeServerCache merge path sizes =>
      cases h
      rfl

/-- Operations without a check leave the policy and the counter alone. -/
theorem perform_frame {operation : PersistenceOperation K V} (hchecked : manager.checked operation = none)
    (h : manager.perform operation = some manager') : manager'.cachePolicy = manager.cachePolicy ∧
      manager'.serverCacheUpdatesSinceLastPruneCheck = manager.serverCacheUpdatesSinceLastPruneCheck := by
  cases operation with
  | setQueryActive query lastUse | setQueryInactive query lastUse =>
      cases h
      exact ⟨rfl, rfl⟩
  | updateServerCache node query sizes | mergeServerCache merge path sizes => cases hchecked

end FPersistenceManager

/-! ### Histories -/

/-- `updates` counts the updates since the last pass. -/
structure CheckState (K V : Type) [DatabaseKey K] where
  manager : FPersistenceManager K V
  updates : Int

namespace CheckState

def updatesAfter (state : CheckState K V) (operation : PersistenceOperation K V) : Int :=
  match state.manager.checked operation with
  | none => state.updates
  | some (manager, _) => if manager.StartsPass then 0 else state.updates + 1

def step (state : CheckState K V) (operation : PersistenceOperation K V) : Option (CheckState K V) :=
  (state.manager.perform operation).map fun manager => ⟨manager, state.updatesAfter operation⟩

variable {state state' : CheckState K V} {operation : PersistenceOperation K V}

/-- The pass starts, and the counter is reset, exactly if the policy asks for it at this update. -/
structure FollowsPolicy (state : CheckState K V) (manager : FPersistenceManager K V) (sizes : List Int) :
    Prop where
  starts : manager.StartsPass ↔ state.manager.cachePolicy.shouldCheckCacheSize (state.updates + 1) = true
  resets : ∀ manager' ∈ manager.doPruneCheckAfterServerUpdate sizes,
    manager'.serverCacheUpdatesSinceLastPruneCheck = 0 ↔
      state.manager.cachePolicy.shouldCheckCacheSize (state.updates + 1) = true

/-- The counter of the manager counts the updates. -/
structure Counts (cachePolicy : FCachePolicy) (state : CheckState K V) : Prop where
  policy : state.manager.cachePolicy = cachePolicy
  counter : state.manager.serverCacheUpdatesSinceLastPruneCheck = state.updates
  nonneg : 0 ≤ state.updates

theorem Counts.step {cachePolicy : FCachePolicy} (h : state.Counts cachePolicy)
    (hstep : state.step operation = some state') : state'.Counts cachePolicy := by
  obtain ⟨manager', hperform, rfl⟩ := Option.map_eq_some_iff.mp hstep
  cases hchecked : state.manager.checked operation with
  | none =>
      obtain ⟨hpolicy, hcounter⟩ := FPersistenceManager.perform_frame hchecked hperform
      refine ⟨hpolicy.trans h.policy, ?_, ?_⟩
      · rw [updatesAfter, hchecked, hcounter, h.counter]
      · rw [updatesAfter, hchecked]
        exact h.nonneg
  | some found =>
      obtain ⟨manager, sizes⟩ := found
      obtain ⟨hpolicy, hcounter⟩ := FPersistenceManager.checked_frame hchecked
      rw [FPersistenceManager.perform_of_checked hchecked] at hperform
      obtain ⟨hpolicy', hcounter'⟩ := FPersistenceManager.doPruneCheck_frame hperform
      refine ⟨hpolicy'.trans (hpolicy.trans h.policy), ?_, ?_⟩
      · rw [updatesAfter, hchecked, hcounter', hcounter, h.counter]
      · rw [updatesAfter, hchecked]
        have hnonneg := h.nonneg
        dsimp only
        split_ifs <;> omega

/-- In every run the pass starts at exactly the updates where the policy does not ask for it. -/
theorem never_followsPolicy_run {manager manager' : FPersistenceManager K V}
    (hinitial : manager.serverCacheUpdatesSinceLastPruneCheck = 0)
    {operations : List (PersistenceOperation K V)}
    (hrun : run step ⟨manager, 0⟩ operations = some state) {sizes : List Int}
    (hchecked : state.manager.checked operation = some (manager', sizes)) :
    (manager'.StartsPass ↔ ¬state.manager.cachePolicy.shouldCheckCacheSize (state.updates + 1) = true) ∧
      (∀ manager'' ∈ manager'.doPruneCheckAfterServerUpdate sizes,
        manager''.serverCacheUpdatesSinceLastPruneCheck = 0 ↔
          ¬state.manager.cachePolicy.shouldCheckCacheSize (state.updates + 1) = true) ∧
      ¬state.FollowsPolicy manager' sizes := by
  have hcounts : state.Counts manager.cachePolicy :=
    invariant_run (fun state operation h _ state' hstep => h.step hstep) ⟨rfl, hinitial, le_rfl⟩
      (allSteps_true (fun _ _ => trivial) _ _) hrun
  obtain ⟨hpolicy, hcounter⟩ := FPersistenceManager.checked_frame hchecked
  have hstarts : manager'.StartsPass ↔
      ¬state.manager.cachePolicy.shouldCheckCacheSize (state.updates + 1) = true := by
    rw [FPersistenceManager.startsPass_iff, hpolicy, hcounter, hcounts.counter]
  refine ⟨hstarts, fun manager'' hresult => ?_, fun hfollows => ?_⟩
  · rw [(FPersistenceManager.doPruneCheck_frame hresult).2, ← hstarts, hcounter, hcounts.counter]
    have hnonneg := hcounts.nonneg
    split_ifs with hpass
    · exact iff_of_true rfl hpass
    · exact iff_of_false (by omega) hpass
  · exact iff_not_self (hfollows.starts.symm.trans hstarts)

/-- The first update after the start, under the least recently used policy -/
def firstUpdate : PersistenceOperation String Int :=
  .updateServerCache .empty (.defaultQueryAtPath ["a"]) [0]

def emptyManager : FPersistenceManager String Int := .ofStorage .empty [] [] (FLRUCachePolicy 100) 0

theorem not_shouldCheckCacheSize_first :
    ¬emptyManager.cachePolicy.shouldCheckCacheSize (emptyManager.serverCacheUpdatesSinceLastPruneCheck + 1) =
      true := by
  decide

theorem never_followsPolicy_run_first :
    ∃ manager', emptyManager.checked firstUpdate = some (manager', [0]) ∧ manager'.StartsPass ∧
      ¬FollowsPolicy ⟨emptyManager, 0⟩ manager' [0] := by
  obtain ⟨hstarts, _, hfails⟩ := @never_followsPolicy_run _ _ _ _ ⟨emptyManager, 0⟩ firstUpdate emptyManager _
    rfl [] rfl [0] rfl
  exact ⟨_, rfl, hstarts.mpr not_shouldCheckCacheSize_first, hfails⟩

/-- A pass starts at the first update, and the policy asks for one after a thousand. -/
theorem followsPolicy_fails_first :
    ¬∀ (manager manager' : FPersistenceManager String Int) (operations : List (PersistenceOperation String Int))
      (operation : PersistenceOperation String Int) (state : CheckState String Int) (sizes : List Int),
      manager.serverCacheUpdatesSinceLastPruneCheck = 0 → run step ⟨manager, 0⟩ operations = some state →
        state.manager.checked operation = some (manager', sizes) → state.FollowsPolicy manager' sizes := by
  intro hall
  have hfollows := hall emptyManager _ [] firstUpdate ⟨emptyManager, 0⟩ [0] rfl rfl rfl
  have hstarts := FPersistenceManager.startsPass_iff.mpr not_shouldCheckCacheSize_first
  exact not_shouldCheckCacheSize_first (hfollows.starts.mp hstarts)

end CheckState

end FirebaseSwift.Database
