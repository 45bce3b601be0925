import FirebaseSwift.Library.StepRuns
import FirebaseSwift.Storage.DownloadTask

/-! Pausing downloads. Whether a fetch failed or was stopped is told from the state of the task when the
fetch ends, and only the fetcher that the task knows is stopped. So pausing works exactly as long as no
other fetch is under way and none begins, and the task still says that it pauses when the stopped fetch
ends. -/

namespace FirebaseSwift.Storage

open StepRuns

variable {D E M : Type}

/-- The task is queueing or running. -/
def StorageTaskState.isUnderWay {T : Type} : StorageTaskState T E → Bool
  | queueing => true
  | running => true
  | _ => false

/-- The task is about to pause, or paused. -/
def StorageTaskState.isPausing {T : Type} : StorageTaskState T E → Bool
  | pausing => true
  | paused => true
  | _ => false

def StorageTaskState.isFailed {T : Type} : StorageTaskState T E → Bool
  | failed _ => true
  | _ => false

namespace StorageDownloadTask

def isStopped (self : StorageDownloadTask D E M) (fetcher : Nat) : Bool :=
  (self.fetchers[fetcher]?).any GTMSessionFetcher.isStopped

/-- The fetcher that a call of `pause` stops. -/
def pausedFetcher (self : StorageDownloadTask D E M) : Option Nat :=
  if self.observer.isFinished || self.observer.base.state.isPausing then none else self.fetcher

/-- The fetch that ends because its fetcher was stopped. -/
def stoppedFetch (self : StorageDownloadTask D E M) : Event D E → Option Nat
  | .fetchEnded run .stopped =>
      match self.runs[run]? with
      | some (.fetches fetcher _) => some fetcher
      | _ => none
  | _ => none

end StorageDownloadTask

/-- A download, whether it was paused while queueing or running and not resumed since, the fetchers that
`pause` stopped, and whether one of these made the task fail. -/
structure PauseHistory (D E M : Type) where
  task : StorageDownloadTask D E M := {}
  paused : Bool := false
  pauseStopped : List Nat := []
  failedByPause : Bool := false

namespace PauseHistory

open StorageDownloadTask

def next (self : PauseHistory D E M) (event : Event D E) (task : StorageDownloadTask D E M) :
    PauseHistory D E M where
  task := task
  paused :=
    match event with
    | .pause => self.paused || self.task.observer.base.state.isUnderWay
    | .resume => false
    | _ => self.paused
  pauseStopped :=
    match event with
    | .pause => self.pauseStopped ++ self.task.pausedFetcher.toList
    | _ => self.pauseStopped
  failedByPause :=
    self.failedByPause ||
      ((self.task.stoppedFetch event).any (fun fetcher => decide (fetcher ∈ self.pauseStopped)) &&
        !self.task.observer.isFinished && task.observer.base.state.isFailed)

def step (errors : StorageErrorCode D E) (self : PauseHistory D E M) (event : Event D E) :
    Option (PauseHistory D E M) :=
  (self.task.step errors event).map (self.next event)

/-- A call of `pause` finds no fetch under way but the one it stops and those that are stopped, no fetch
begins while the task is paused, and when a fetch that `pause` stopped ends, the task is still pausing, or
has finished. -/
def sparesPause (self : PauseHistory D E M) : Event D E → Bool
  | .pause =>
      !self.task.observer.base.state.isUnderWay ||
        self.task.runs.all fun run =>
          match run with
          | .fetches fetcher _ => decide (self.task.fetcher = some fetcher) || self.task.isStopped fetcher
          | .awaitsService _ => true
  | .serviceReady _ => !self.paused
  | .fetchEnded run result =>
      !(self.task.stoppedFetch (.fetchEnded run result)).any (fun fetcher => decide (fetcher ∈ self.pauseStopped)) ||
        self.task.observer.base.state.isPausing || self.task.observer.isFinished
  | _ => true

end PauseHistory

/-! ### What steps do to fetches -/

namespace StorageDownloadTask

variable {task task' task'' : StorageDownloadTask D E M} {errors : StorageErrorCode D E}

/-- Every fetch under way has a fetcher. -/
def Fetching (task : StorageDownloadTask D E M) : Prop :=
  ∀ fetcher keepsData, .fetches fetcher keepsData ∈ task.runs → fetcher < task.fetchers.length

/-- No fetch begins, and none that was stopped goes on. -/
structure Winds (task task' : StorageDownloadTask D E M) : Prop where
  runs : ∀ fetcher keepsData, .fetches fetcher keepsData ∈ task'.runs → .fetches fetcher keepsData ∈ task.runs
  stopped : ∀ fetcher, task.isStopped fetcher = true → task'.isStopped fetcher = true
  length : task'.fetchers.length = task.fetchers.length

theorem Winds.refl (task : StorageDownloadTask D E M) : Winds task task := ⟨fun _ _ h => h, fun _ h => h, rfl⟩

theorem Winds.trans (h : Winds task task') (h' : Winds task' task'') : Winds task task'' :=
  ⟨fun fetcher keepsData hmem => h.runs fetcher keepsData (h'.runs fetcher keepsData hmem),
    fun fetcher hstopped => h'.stopped fetcher (h.stopped fetcher hstopped), h'.length.trans h.length⟩

theorem Fetching.winds (h : task.Fetching) (hwinds : Winds task task') : task'.Fetching := by
  intro fetcher keepsData hmem
  rw [hwinds.length]
  exact h fetcher keepsData (hwinds.runs fetcher keepsData hmem)

/-- Where fetchers stay, and of the runs some. -/
theorem winds_of_sublist (hfetchers : task'.fetchers = task.fetchers)
    (hruns : ∀ fetcher keepsData, .fetches fetcher keepsData ∈ task'.runs → .fetches fetcher keepsData ∈ task.runs) :
    Winds task task' :=
  ⟨hruns, fun fetcher hstopped => by rw [isStopped, hfetchers]; exact hstopped, congrArg List.length hfetchers⟩

theorem winds_of_same (hfetchers : task'.fetchers = task.fetchers) (hruns : task'.runs = task.runs) :
    Winds task task' :=
  winds_of_sublist hfetchers fun _ _ hmem => hruns ▸ hmem

variable {fetcher : Nat} {event : Event D E}

/-- Where a fetcher changes, and is stopped if it was. -/
theorem winds_of_modify {update : GTMSessionFetcher → GTMSessionFetcher}
    (hupdate : ∀ found, found.isStopped = true → (update found).isStopped = true)
    (hfetchers : task'.fetchers = task.fetchers.modify fetcher update) (hruns : task'.runs = task.runs) :
    Winds task task' := by
  refine ⟨fun _ _ hmem => hruns ▸ hmem, fun fetcher' hstopped => ?_, ?_⟩
  · obtain ⟨found, hfound, hstopped⟩ := (Option.any_eq_true _ _).mp hstopped
    rw [isStopped, hfetchers, List.getElem?_modify, hfound]
    by_cases heq : fetcher = fetcher'
    · simpa [heq] using hupdate found hstopped
    · simpa [heq] using hstopped
  · rw [hfetchers, List.length_modify]

theorem winds_stopFetching (task : StorageDownloadTask D E M) (fetcher : Nat) :
    Winds task (task.stopFetching fetcher) :=
  winds_of_modify (fun _ _ => rfl) rfl rfl

theorem isStopped_stopFetching (h : fetcher < task.fetchers.length) :
    (task.stopFetching fetcher).isStopped fetcher = true := by
  rw [isStopped, stopFetching, List.getElem?_modify_eq, List.getElem?_eq_getElem h]
  rfl

theorem winds_enqueue (task : StorageDownloadTask D E M) (keepsData : Bool) :
    Winds task (task.enqueueImplementation none keepsData) := by
  refine winds_of_sublist rfl fun fetcher keepsData' hmem => ?_
  rcases List.mem_append.mp hmem with hold | hnew
  · exact hold
  · cases List.mem_singleton.mp hnew

theorem winds_fetchEnded (task : StorageDownloadTask D E M) (errors : StorageErrorCode D E) (run : Nat)
    (keepsData : Bool) (result : DownloadResult D E) : Winds task (task.fetchEnded errors run keepsData result) := by
  have hended : Winds task { task with runs := task.runs.eraseIdx run } :=
    winds_of_sublist rfl fun _ _ hmem => List.mem_of_mem_eraseIdx hmem
  have hfailed : ∀ (ended : StorageDownloadTask D E M) (error : E), Winds ended (ended.fetchFailed errors error) := by
    intro ended error
    unfold fetchFailed
    split <;> exact winds_of_same rfl rfl
  cases result with
  | data data => exact hended.trans (winds_of_same rfl rfl)
  | error error => exact hended.trans (hfailed _ error)
  | stopped => exact hended.trans (hfailed _ _)

theorem winds_pauseFetch (task : StorageDownloadTask D E M) : Winds task task.pauseFetch := by
  unfold pauseFetch
  extract_lets pausing
  have hpausing : Winds task pausing := winds_of_same rfl rfl
  split
  · exact hpausing
  · rename_i fetcher _
    have hblock : Winds pausing
        { pausing with
          fetchers := pausing.fetchers.modify fetcher fun fetcher => { fetcher with resumeDataBlock := true } } :=
      @winds_of_modify _ _ _ pausing _ fetcher (fun fetcher => { fetcher with resumeDataBlock := true })
        (fun _ hstopped => hstopped) rfl rfl
    exact hpausing.trans (hblock.trans (winds_stopFetching _ fetcher))

theorem winds_pause (task : StorageDownloadTask D E M) : Winds task task.pause := by
  unfold pause
  split_ifs
  · exact .refl task
  · split
    · exact .refl task
    · exact .refl task
    · exact winds_pauseFetch task

theorem winds_cancel (task : StorageDownloadTask D E M) (error : E) : Winds task (task.cancel error) := by
  unfold cancel
  extract_lets cancelled
  have hcancelled : Winds task cancelled := winds_of_same rfl rfl
  split
  · exact hcancelled
  · exact hcancelled.trans (winds_stopFetching cancelled _)

theorem Fetching.beginFetch (h : task.Fetching) (resumes keepsData : Bool) :
    (task.beginFetch resumes keepsData).Fetching := by
  intro fetcher keepsData' hmem
  rw [StorageDownloadTask.beginFetch, List.length_append]
  rcases List.mem_append.mp hmem with hold | hnew
  · exact Nat.lt_of_lt_of_le (h fetcher keepsData' hold) (Nat.le_add_right _ _)
  · cases List.mem_singleton.mp hnew
    exact Nat.lt_succ_self _

theorem Fetching.serviceReady (h : task.Fetching) (run : Nat) (keepsData : Bool) :
    (task.serviceReady run keepsData).Fetching := by
  have hended : Winds task { task with runs := task.runs.eraseIdx run } :=
    winds_of_sublist rfl fun _ _ hmem => List.mem_of_mem_eraseIdx hmem
  exact (h.winds hended).beginFetch false keepsData

theorem Fetching.resume (h : task.Fetching) : task.resume.Fetching := by
  have hresumed : task.resumeFetch.Fetching := by
    unfold resumeFetch
    extract_lets resumed
    have hwinds : Winds task resumed := winds_of_same rfl rfl
    cases hdata : resumed.downloadData with
    | none => exact (h.winds hwinds).winds (winds_enqueue resumed true)
    | some data =>
        have hqueued : Winds resumed { resumed with observer := resumed.observer.setState .queueing } :=
          winds_of_same rfl rfl
        exact ((h.winds hwinds).winds hqueued).beginFetch true true
  unfold StorageDownloadTask.resume
  split
  · exact hresumed
  · exact hresumed
  · exact h

/-- Steps that begin no fetch. -/
def Event.winds : Event D E → Bool
  | .serviceReady _ => false
  | .resume => false
  | _ => true

theorem winds_step (hevent : event.winds = true) (hstep : task.step errors event = some task') :
    Winds task task' := by
  cases event with
  | enqueue =>
      cases hstep
      exact winds_enqueue task true
  | start =>
      cases hstep
      exact winds_enqueue task false
  | serviceReady run => cases hevent
  | fetchEnded run result =>
      simp only [step] at hstep
      split at hstep
      · split_ifs at hstep
        cases hstep
        exact winds_fetchEnded task errors run _ result
      · cases hstep
  | progress completed total =>
      simp only [step] at hstep
      split_ifs at hstep
      cases hstep
      exact winds_of_same rfl rfl
  | resumeData fetcher data =>
      simp only [step] at hstep
      split_ifs at hstep
      cases hstep
      exact winds_of_same rfl rfl
  | observe =>
      cases hstep
      exact winds_of_same rfl rfl
  | pause =>
      cases hstep
      exact winds_pause task
  | resume => cases hevent
  | cancel error =>
      cases hstep
      exact winds_cancel task error

theorem Fetching.step (h : task.Fetching) (hstep : task.step errors event = some task') : task'.Fetching := by
  cases hevent : event.winds with
  | true => exact h.winds (winds_step hevent hstep)
  | false =>
      cases event with
      | serviceReady run =>
          simp only [StorageDownloadTask.step] at hstep
          split at hstep
          · cases hstep
            exact h.serviceReady run _
          · cases hstep
      | resume =>
          cases hstep
          exact h.resume
      | _ => cases hevent

/-- A fetch that fails makes the task fail exactly if it is not pausing. -/
theorem isFailed_fetchFailed (hfinished : task.observer.isFinished = false) (errors : StorageErrorCode D E)
    (error : E) :
    (task.fetchFailed errors error).observer.base.state.isFailed = !task.observer.base.state.isPausing := by
  have hpaused : (task.observer.fire .paused).base.state = .paused := by
    rw [StorageObserver.fire, hfinished]
    rfl
  have hprogress : (task.observer.fire .progress).isFinished = false := by
    rw [StorageObserver.fire, hfinished]
    rfl
  unfold fetchFailed
  split
  · rename_i hstate
    rw [hpaused, hstate]
    rfl
  · rename_i hstate
    rw [hpaused, hstate]
    rfl
  · rename_i hpausing hnotPaused
    have hnot : task.observer.base.state.isPausing = false := by
      cases hstate : task.observer.base.state with
      | pausing => exact absurd hstate hpausing
      | paused => exact absurd hstate hnotPaused
      | _ => rfl
    rw [hnot, StorageObserver.fail, StorageObserver.fire, hprogress]
    rfl

/-- The task fails by the end of a stopped fetch exactly if it is neither finished nor pausing. -/
theorem fails_of_stopped (errors : StorageErrorCode D E) (hfetch : task.stoppedFetch event = some fetcher)
    (hstep : task.step errors event = some task') :
    (!task.observer.isFinished && task'.observer.base.state.isFailed) =
      (!task.observer.base.state.isPausing && !task.observer.isFinished) := by
  cases event with
  | fetchEnded run result =>
      cases result with
      | stopped =>
          simp only [step] at hstep
          split at hstep
          · split_ifs at hstep
            cases hstep
            cases hfinished : task.observer.isFinished with
            | true => simp
            | false =>
                have hended : (fetchFailed { task with runs := task.runs.eraseIdx run } errors
                    errors.fetchCancelled).observer.base.state.isFailed = !task.observer.base.state.isPausing :=
                  @isFailed_fetchFailed D E M { task with runs := task.runs.eraseIdx run } hfinished errors _
                simp only [Bool.not_false, Bool.true_and, Bool.and_true]
                exact hended
          · cases hstep
      | _ => cases hfetch
  | _ => cases hfetch

end StorageDownloadTask

/-! ### Runs -/

namespace PauseHistory

open StorageDownloadTask

variable {history history' : PauseHistory D E M} {errors : StorageErrorCode D E}

/-- What a run keeps under the condition. -/
structure Kept (history : PauseHistory D E M) : Prop where
  unfailed : history.failedByPause = false
  stopped : history.paused = true → ∀ fetcher keepsData,
    .fetches fetcher keepsData ∈ history.task.runs → history.task.isStopped fetcher = true
  fetching : history.task.Fetching

theorem pause_eq_pauseFetch {task : StorageDownloadTask D E M}
    (hstate : task.observer.base.state.isUnderWay = true) : task.pause = task.pauseFetch := by
  unfold pause
  cases hcase : task.observer.base.state with
  | queueing => simp [StorageObserver.isFinished, hcase, StorageTaskState.isFinished]
  | running => simp [StorageObserver.isFinished, hcase, StorageTaskState.isFinished]
  | _ => rw [hcase] at hstate; cases hstate

/-- The fetches under way once `pause` has run. -/
theorem stopped_pause (hfetching : history.task.Fetching)
    (hstate : history.task.observer.base.state.isUnderWay = true)
    (hspares : history.sparesPause .pause = true) {fetcher : Nat} {keepsData : Bool}
    (hrun : .fetches fetcher keepsData ∈ history.task.pause.runs) : history.task.pause.isStopped fetcher = true := by
  have hrun' := (winds_pause history.task).runs fetcher keepsData hrun
  rw [sparesPause, hstate, Bool.not_true, Bool.false_or] at hspares
  rcases Bool.or_eq_true_iff.mp (List.all_eq_true.mp hspares _ hrun') with hfetcher | hstopped
  · rw [pause_eq_pauseFetch hstate, pauseFetch]
    simp only [of_decide_eq_true hfetcher]
    refine isStopped_stopFetching ?_
    rw [List.length_modify]
    exact hfetching fetcher keepsData hrun'
  · exact (winds_pause history.task).stopped fetcher hstopped

/-- Whether a stopped fetch made the task fail, from the state before it ended. -/
theorem failedByPause_next {event : Event D E} {task : StorageDownloadTask D E M}
    (htask : history.task.step errors event = some task) :
    (history.next event task).failedByPause = (history.failedByPause ||
      ((history.task.stoppedFetch event).any (fun fetcher => decide (fetcher ∈ history.pauseStopped)) &&
        (!history.task.observer.base.state.isPausing && !history.task.observer.isFinished))) := by
  cases hfetch : history.task.stoppedFetch event with
  | none => simp [next, hfetch]
  | some fetcher =>
      rw [← fails_of_stopped errors hfetch htask]
      simp [next, hfetch, Bool.and_assoc]

theorem sparesPause_fetchEnded (history : PauseHistory D E M) (run : Nat) (result : DownloadResult D E) :
    history.sparesPause (.fetchEnded run result) =
      !((history.task.stoppedFetch (.fetchEnded run result)).any
          (fun fetcher => decide (fetcher ∈ history.pauseStopped)) &&
        (!history.task.observer.base.state.isPausing && !history.task.observer.isFinished)) := by
  simp [sparesPause, Bool.or_assoc]

theorem Kept.step (h : history.Kept) {event : Event D E} (hspares : history.sparesPause event = true)
    (hstep : history.step errors event = some history') : history'.Kept := by
  obtain ⟨task, htask, rfl⟩ := Option.map_eq_some_iff.mp hstep
  refine ⟨?_, fun hpaused fetcher keepsData hrun => ?_, h.fetching.step htask⟩
  · rw [failedByPause_next htask, h.unfailed, Bool.false_or]
    cases event with
    | fetchEnded run result =>
        rw [sparesPause_fetchEnded, Bool.not_eq_true'] at hspares
        exact hspares
    | _ => rfl
  · have hwinds : event.winds = true → history.paused = true → task.isStopped fetcher = true := by
      intro hevent hpaused
      have hwinds := winds_step hevent htask
      exact hwinds.stopped fetcher (h.stopped hpaused fetcher keepsData (hwinds.runs fetcher keepsData hrun))
    cases event with
    | pause =>
        cases htask
        rcases Bool.or_eq_true_iff.mp hpaused with hpaused | hstate
        · exact hwinds rfl hpaused
        · exact stopped_pause h.fetching hstate hspares hrun
    | resume => cases hpaused
    | serviceReady run =>
        have hpaused' : history.paused = true := hpaused
        rw [sparesPause, hpaused'] at hspares
        cases hspares
    | _ => exact hwinds rfl hpaused

end PauseHistory

end FirebaseSwift.Storage
