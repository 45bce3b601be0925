import FirebaseSwift.Database.IndexedViews
import FirebaseSwift.Library.ExceptLoops

/-! Runs of a view. In a run both caches of a view keep the index of its query, and no event is asked for
with another index, as long as no revert shows a leaf again. -/

namespace FirebaseSwift.Database

open ExceptLoops

variable {K V : Type} [DatabaseKey K] [DatabaseValue V]

/-! ### Calls -/

/-- What a sync point does with a view. -/
inductive ViewCall (K V : Type) [DatabaseKey K] where
  | applyOperation (operation : FOperation K V (FQueryParams K V)) (writesCache : FWriteTreeRef K V)
      (serverCache : Option (FNode K V))
  | addEventRegistration (registration : FEventRegistration)
  | removeEventRegistration (matcher : FEventRegistrationMatcher) (cancelError : Bool)

namespace FView

/-- A new view of a sync point. The sync tree and the persistence manager build the cache of the server
with the index of the query. -/
def created [QueryFilters K V] (query : FQuerySpec K V) (writesCache : FWriteTreeRef K V)
    (serverNode : FNode K V) (isFullyInitialized isFiltered : Bool) : FView K V :=
  FSyncPoint.empty.getView query writesCache
    ⟨isFullyInitialized, isFiltered, .ofNode serverNode query.index⟩

/-- There is no result where the program stops. -/
def perform [QueryFilters K V] (view : FView K V) : ViewCall K V → Option (FView K V)
  | .applyOperation operation writesCache serverCache =>
      view.applyOperation operation writesCache serverCache
  | .addEventRegistration registration => some (view.addEventRegistration registration)
  | .removeEventRegistration matcher cancelError => view.removeEventRegistration matcher cancelError

/-- The data events of a call. A new registration gets its initial events. -/
def eventsOf [QueryFilters K V] (callbacks : Nat → DataEventType → Bool) (view : FView K V) :
    ViewCall K V → Option (Except EventTrap (List (FDataEvent K V)))
  | .applyOperation operation writesCache serverCache =>
      view.eventsOfOperation callbacks operation writesCache serverCache
  | .addEventRegistration registration =>
      some ((view.addEventRegistration registration).initialEvents callbacks registration)
  | .removeEventRegistration _ _ => some (.ok [])

/-- Both caches have the index of the query. -/
def Indexed (view : FView K V) : Prop := view.viewCache.HasIndex view.query.index

/-- No leaf shows again in the event cache, or it has the index of the query. -/
def KeepsIndex (view : FView K V) : ViewCall K V → Prop
  | .applyOperation ⟨_, path, .ackUserWrite _ true⟩ writesCache _ =>
      view.query.index = .priority ∨ view.query.loadsAllData = false ∨
        ¬FViewProcessor.ShowsLeaf writesCache view.viewCache path
  | _ => True

instance decidableKeepsIndex (view : FView K V) : ∀ call, Decidable (view.KeepsIndex call)
  | .applyOperation ⟨_, _, .ackUserWrite _ true⟩ _ _ => inferInstanceAs (Decidable (_ ∨ _ ∨ ¬_))
  | .applyOperation ⟨_, _, .ackUserWrite _ false⟩ _ _ => inferInstanceAs (Decidable True)
  | .applyOperation ⟨_, _, .overwrite _⟩ _ _ => inferInstanceAs (Decidable True)
  | .applyOperation ⟨_, _, .merge _⟩ _ _ => inferInstanceAs (Decidable True)
  | .applyOperation ⟨_, _, .listenComplete⟩ _ _ => inferInstanceAs (Decidable True)
  | .addEventRegistration _ => inferInstanceAs (Decidable True)
  | .removeEventRegistration _ _ => inferInstanceAs (Decidable True)

end FView

/-! ### Events -/

theorem FEventGenerator.generateEventsForChanges_ne_error {self : FEventGenerator K V}
    {eventCache : FIndexedNode K V} (hindex : eventCache.index = self.query.index)
    (callbacks : Nat → DataEventType → Bool) (changes : List (FChange K V))
    (eventRegistrations : List FEventRegistration) :
    self.generateEventsForChanges callbacks changes eventCache eventRegistrations ≠
      .error .indexNotAvailable := by
  have hchange : ∀ change registration, self.generateEventForChange change registration eventCache ≠
      .error .indexNotAvailable := by
    intro change registration
    unfold generateEventForChange
    split_ifs
    · nofun
    · split
      · nofun
      · rw [FIndexedNode.predecessorForChildKey, if_neg (not_not_intro hindex)]
        nofun
  have hevents : ∀ eventType changes, self.generateEvents callbacks eventType changes eventCache
      eventRegistrations ≠ .error .indexNotAvailable := by
    intro eventType changes
    refine bind_ne_error ?_ fun sorted => bind_ne_error ?_ nofun
    · simp only [sortedChanges]
      split_ifs
      · nofun
      · split <;> nofun
    · exact mapM_ne_error (fun change => mapM_ne_error (hchange change) _) sorted
  unfold generateEventsForChanges
  refine bind_ne_error (hevents _ _) fun removed => bind_ne_error (hevents _ _) fun added => ?_
  refine bind_ne_error (hevents _ _) fun moved => bind_ne_error (hevents _ _) fun changed => ?_
  exact bind_ne_error (hevents _ _) nofun

namespace FView

variable [QueryValue K V] {view view' : FView K V}

/-! ### Runs -/

variable {call : ViewCall K V} {operation : FOperation K V (FQueryParams K V)}
variable {writesCache : FWriteTreeRef K V} {serverCache : Option (FNode K V)}
variable {result : FViewProcessorResult K V}

theorem query_perform (hcall : view.perform call = some view') : view'.query = view.query := by
  cases call with
  | applyOperation operation writesCache serverCache =>
      obtain ⟨result, _, rfl⟩ := Option.map_eq_some_iff.mp hcall
      rfl
  | addEventRegistration registration =>
      cases hcall
      rfl
  | removeEventRegistration matcher cancelError =>
      simp only [perform, removeEventRegistration] at hcall
      split_ifs at hcall
      cases hcall
      rfl

theorem applyOperation_viewCache (hresult : view.processorResult operation writesCache serverCache = some result) :
    result.viewCache = ((FViewProcessor.mk view.query.params.nodeFilter).processOperation writesCache
      view.viewCache operation serverCache).1 := by
  simp only [processorResult, FViewProcessor.applyOperationOn] at hresult
  split_ifs at hresult
  cases hresult
  rfl

theorem hasIndex_processorResult_iff (hview : view.Indexed)
    (hresult : view.processorResult operation writesCache serverCache = some result) :
    view.KeepsIndex (.applyOperation operation writesCache serverCache) ↔
      result.viewCache.HasIndex view.query.index := by
  have hiff : (FViewProcessor.processOperation _ writesCache view.viewCache operation
      serverCache).1.HasIndex view.query.index ↔ _ :=
    @FViewProcessor.hasIndex_processOperation_iff _ _ _ _ ⟨view.query.params.nodeFilter⟩ view.viewCache
      writesCache _ view.query.params rfl hview operation serverCache
  rw [applyOperation_viewCache hresult, hiff]
  obtain ⟨operationSource, path, type⟩ := operation
  cases type with
  | ackUserWrite affectedTree revert =>
      cases revert with
      | false => exact iff_of_true trivial nofun
      | true =>
          constructor
          · intro hkeeps _ _
            exact hkeeps
          · intro hkeeps
            exact hkeeps affectedTree rfl
  | overwrite snap => exact iff_of_true trivial nofun
  | merge children => exact iff_of_true trivial nofun
  | listenComplete => exact iff_of_true trivial nofun

/-- A call on indexed caches leaves them indexed exactly where it keeps the index. -/
theorem indexed_perform_iff (hview : view.Indexed) (hcall : view.perform call = some view') :
    view.KeepsIndex call ↔ view'.Indexed := by
  have hquery := query_perform hcall
  cases call with
  | applyOperation operation writesCache serverCache =>
      obtain ⟨result, hresult, rfl⟩ := Option.map_eq_some_iff.mp hcall
      exact hasIndex_processorResult_iff hview hresult
  | addEventRegistration registration =>
      cases hcall
      exact iff_of_true trivial hview
  | removeEventRegistration matcher cancelError =>
      simp only [perform, removeEventRegistration] at hcall
      split_ifs at hcall
      cases hcall
      exact iff_of_true trivial hview

theorem eventsOf_ne_error (hview : view.Indexed) (hcall : view.KeepsIndex call)
    (callbacks : Nat → DataEventType → Bool) : view.eventsOf callbacks call ≠ some (.error .indexNotAvailable) := by
  cases call with
  | applyOperation operation writesCache serverCache =>
      intro hevents
      obtain ⟨result, hresult, htrap⟩ := Option.map_eq_some_iff.mp hevents
      have hindex := (hasIndex_processorResult_iff hview hresult).mp hcall
      exact FEventGenerator.generateEventsForChanges_ne_error hindex.1 _ _ _ htrap
  | addEventRegistration registration =>
      intro hevents
      exact FEventGenerator.generateEventsForChanges_ne_error hview.1 _ _ _ (Option.some.inj hevents)
  | removeEventRegistration matcher cancelError => nofun

theorem indexed_created (query : FQuerySpec K V) (writesCache : FWriteTreeRef K V)
    (serverNode : FNode K V) (isFullyInitialized isFiltered : Bool) :
    (created query writesCache serverNode isFullyInitialized isFiltered).Indexed :=
  ⟨query.params.keepsIndex.updateFullNode_eq _ _ rfl, rfl⟩

/-- In a run of a new view both caches have the index of its query in all states exactly under the
condition that no call shows a leaf again in another index. Then no event is asked for with another
index. -/
theorem indexed_run_iff (callbacks : Nat → DataEventType → Bool) (query : FQuerySpec K V)
    (writesCache : FWriteTreeRef K V) (serverNode : FNode K V) (isFullyInitialized isFiltered : Bool)
    {calls : List (ViewCall K V)}
    (hrun : (StepRuns.run perform (created query writesCache serverNode isFullyInitialized isFiltered)
      calls).isSome = true) :
    let initial := created query writesCache serverNode isFullyInitialized isFiltered
    (StepRuns.AllSteps perform KeepsIndex initial calls ↔
      ∀ before, before <+: calls → ∀ view ∈ StepRuns.run perform initial before, view.Indexed) ∧
    (StepRuns.AllSteps perform KeepsIndex initial calls →
      ∀ before call, before ++ [call] <+: calls → ∀ view ∈ StepRuns.run perform initial before,
        view.eventsOf callbacks call ≠ some (.error .indexNotAvailable)) := by
  intro initial
  have hinitial : initial.Indexed := indexed_created query writesCache serverNode _ _
  have hiff : StepRuns.AllSteps perform KeepsIndex initial calls ↔
      ∀ before, before <+: calls → ∀ view ∈ StepRuns.run perform initial before, view.Indexed :=
    @StepRuns.allSteps_iff_forall_states _ _ perform (fun _ => True) Indexed KeepsIndex
      (fun _ _ _ _ _ => trivial)
      (fun view call _ hview view' hview' => indexed_perform_iff hview hview') initial calls trivial
      hinitial hrun
  refine ⟨hiff, fun hall before call hbefore view hview => ?_⟩
  have hviewIndexed := hiff.mp hall before ((List.prefix_append before [call]).trans hbefore) view hview
  obtain ⟨rest, hcalls⟩ := hbefore
  rw [← hcalls] at hall
  exact eventsOf_ne_error hviewIndexed (hall.of_append.last hview) callbacks

/-- A leaf on the server, ordered by key. -/
def leafView : FView String String :=
  created ⟨[], ⟨.key, none, none, none⟩⟩ ⟨[], .initial⟩ (.leaf "old" .empty) true false

/-- A listener comes and a child of the leaf is written. -/
def childWrite : List (ViewCall String String) :=
  [.addEventRegistration (.handle 1),
    .applyOperation ⟨.user, ["a"], .overwrite (.leaf "new" .empty)⟩
      ⟨[], FWriteTree.initial.addOverwriteAtPath ["a"] (.leaf "new" .empty) 1 true⟩ none]

/-- The write is reverted. -/
def revertedWrite : List (ViewCall String String) :=
  childWrite ++
    [.applyOperation ⟨.user, ["a"], .ackUserWrite (.node (some true) []) true⟩ ⟨[], .initial⟩ none]

/-- The next write of a child. -/
def nextWrite : ViewCall String String :=
  .applyOperation ⟨.user, ["b"], .overwrite (.leaf "new" .empty)⟩
    ⟨[], FWriteTree.initial.addOverwriteAtPath ["b"] (.leaf "new" .empty) 2 true⟩ none

theorem indexed_run_childWrite :
    (∀ before, before <+: childWrite → ∀ view ∈ StepRuns.run perform leafView before, view.Indexed) ∧
      ∀ before call, before ++ [call] <+: childWrite → ∀ view ∈ StepRuns.run perform leafView before,
        view.eventsOf (fun _ _ => true) call ≠ some (.error .indexNotAvailable) := by
  have h := @indexed_run_iff String String _ _ _ (fun _ _ => true) ⟨[], ⟨.key, none, none, none⟩⟩
    ⟨[], .initial⟩ (.leaf "old" .empty) true false childWrite (by decide)
  have hall : StepRuns.AllSteps perform KeepsIndex leafView childWrite := by decide
  exact ⟨h.1.mp hall, h.2 hall⟩

/-- The revert of the only child of a leaf leaves the event cache with the index of the priorities, and
the next write of a child stops the program. -/
theorem indexed_run_fails :
    (¬∀ (calls : List (ViewCall String String)) (view : FView String String),
      StepRuns.run perform leafView calls = some view → view.Indexed) ∧
    ¬∀ (calls : List (ViewCall String String)) (call : ViewCall String String) (view : FView String String),
      StepRuns.run perform leafView calls = some view →
        view.eventsOf (fun _ _ => true) call ≠ some (.error .indexNotAvailable) := by
  constructor
  · intro hall
    have hindexed := hall revertedWrite _ (Option.some_get (by decide)).symm
    exact absurd hindexed.1 (by decide)
  · intro hall
    refine hall revertedWrite nextWrite _ (Option.some_get (by decide)).symm ?_
    rfl

end FView

end FirebaseSwift.Database
