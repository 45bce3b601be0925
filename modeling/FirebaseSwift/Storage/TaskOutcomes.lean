import FirebaseSwift.Library.StepRuns
import FirebaseSwift.Storage.DownloadTask

/-! How tasks end. What is done through the guarded functions of the observer leaves a finished task as it
is and tells every observer once how the task ended; a download does nothing else. An upload also sets its
state directly. Its runs are well behaved exactly as long as that neither touches a finished task nor
finishes one that somebody observes. -/

namespace FirebaseSwift.Storage

open StepRuns

variable {D E M T : Type}

/-! ### Streams -/

namespace StorageStream

variable {stream : StorageStream T E M}

def terminalCount (self : StorageStream T E M) : Nat :=
  self.received.countP fun snapshot => snapshot.status.isTerminal

/-- The stream is about a task that has not ended. -/
structure Open (stream : StorageStream T E M) : Prop where
  untold : stream.terminalCount = 0
  unended : stream.ended = none

/-- The stream has told how the task ended, and nothing after it. -/
structure Told (stream : StorageStream T E M) : Prop where
  once : stream.terminalCount = 1
  ended : stream.ended.isSome = true
  last : ∃ before snapshot, stream.received = before ++ [snapshot] ∧ snapshot.status.isTerminal = true

/-- Nothing comes after a snapshot that says how the task ended. -/
def EndsWithOutcome (stream : StorageStream T E M) : Prop :=
  ∀ before snapshot after, stream.received = before ++ snapshot :: after →
    snapshot.status.isTerminal = true → after = []

theorem yield_of_unended (h : stream.ended = none) (snapshot : StorageTaskSnapshot T E M) :
    stream.yield snapshot = { stream with received := stream.received ++ [snapshot] } := by
  rw [yield, h]
  rfl

theorem terminalCount_append (before after : List (StorageTaskSnapshot T E M)) (ended : Option (StreamEnd E))
    (handled : Bool) : ({ received := before ++ after, ended, handled } : StorageStream T E M).terminalCount =
      ({ received := before, ended, handled } : StorageStream T E M).terminalCount +
        after.countP fun snapshot => snapshot.status.isTerminal :=
  List.countP_append

variable {snapshot : StorageTaskSnapshot T E M}

theorem Open.send (h : stream.Open) (hsnapshot : snapshot.status.isTerminal = false) :
    (stream.send snapshot).Open := by
  have hyield : (stream.yield snapshot).Open := by
    rw [yield_of_unended h.unended]
    refine ⟨?_, h.unended⟩
    rw [terminalCount_append, List.countP_singleton, hsnapshot]
    exact h.untold
  unfold StorageStream.send
  split
  · rename_i hstatus
    rw [hstatus] at hsnapshot
    cases hsnapshot
  · rename_i hstatus
    rw [hstatus] at hsnapshot
    cases hsnapshot
  all_goals exact hyield

theorem Open.finish_yield (h : stream.Open) (hsnapshot : snapshot.status.isTerminal = true)
    (streamEnd : StreamEnd E) : ((stream.yield snapshot).finish streamEnd).Told := by
  have hfinish : (stream.yield snapshot).finish streamEnd =
      { stream with received := stream.received ++ [snapshot], ended := some streamEnd } := by
    rw [finish, yield_of_unended h.unended, h.unended]
    rfl
  have hcount : 1 = stream.terminalCount + [snapshot].countP fun snapshot => snapshot.status.isTerminal := by
    rw [h.untold, List.countP_singleton, if_pos hsnapshot]
  rw [hfinish]
  exact ⟨(terminalCount_append _ _ _ _).trans hcount.symm, rfl, stream.received, snapshot, rfl, hsnapshot⟩

theorem Open.send_terminal (h : stream.Open) (hsnapshot : snapshot.status.isTerminal = true) :
    (stream.send snapshot).Told := by
  unfold StorageStream.send
  split
  · exact h.finish_yield hsnapshot _
  · exact h.finish_yield hsnapshot _
  all_goals
    rename_i hstatus
    rw [hstatus] at hsnapshot
    cases hsnapshot

theorem send_handled (stream : StorageStream T E M) (snapshot : StorageTaskSnapshot T E M) :
    (stream.send snapshot).handled = stream.handled := by
  simp only [StorageStream.send, finish, yield]
  split <;> split_ifs <;> rfl

/-- Whether a stream is kept among the handlers says nothing about what it told. -/
theorem Told.handled (h : stream.Told) (handled : Bool) : Told { stream with handled } := ⟨h.once, h.ended, h.last⟩

/-- A snapshot that says how the task ended counts, and so does every later one. -/
theorem terminalCount_of_received {before after : List (StorageTaskSnapshot T E M)}
    (hreceived : stream.received = before ++ snapshot :: after) (hsnapshot : snapshot.status.isTerminal = true) :
    1 + (after.countP fun snapshot => snapshot.status.isTerminal) ≤ stream.terminalCount := by
  rw [terminalCount, hreceived, List.countP_append, List.countP_cons, if_pos hsnapshot]
  omega

theorem Open.endsWithOutcome (h : stream.Open) : stream.EndsWithOutcome := by
  intro before snapshot after hreceived hsnapshot
  have hle := terminalCount_of_received hreceived hsnapshot
  rw [h.untold] at hle
  omega

theorem Told.endsWithOutcome (h : stream.Told) : stream.EndsWithOutcome := by
  intro before snapshot after hreceived hsnapshot
  obtain ⟨before', last, hlast, hterminal⟩ := h.last
  have hle := terminalCount_of_received hreceived hsnapshot
  rw [h.once] at hle
  rcases List.eq_nil_or_concat after with hnil | ⟨middle, last', hafter⟩
  · exact hnil
  · have hsame : (before ++ snapshot :: middle) ++ [last'] = before' ++ [last] := by
      rw [← hlast, hreceived, hafter]
      simp
    have heq := (List.append_inj' hsame rfl).2
    rw [hafter, List.singleton_inj.mp heq, List.concat_eq_append, List.countP_append,
      List.countP_singleton, if_pos hterminal] at hle
    omega

end StorageStream

/-! ### Observers -/

namespace StorageObserver

variable {observer observer' observer'' : StorageObserver T E M}

/-- Once the task has finished, every stream has got one snapshot that says so and has been ended. No stream
gets anything after that. -/
structure StreamsTold (observer : StorageObserver T E M) : Prop where
  told : observer.isFinished = true →
    ∀ stream ∈ observer.streams, stream.terminalCount = 1 ∧ stream.ended.isSome = true
  last : ∀ stream ∈ observer.streams, stream.EndsWithOutcome

/-- Streams are open and handled exactly until the task has finished. -/
def Served (observer : StorageObserver T E M) : Prop :=
  if observer.isFinished then ∀ stream ∈ observer.streams, stream.Told ∧ stream.handled = false
  else ∀ stream ∈ observer.streams, stream.Open ∧ stream.handled = true

theorem Served.told (h : observer.Served) (hfinished : observer.isFinished = true) :
    ∀ stream ∈ observer.streams, stream.Told ∧ stream.handled = false := by
  rwa [Served, if_pos hfinished] at h

theorem Served.opened (h : observer.Served) (hfinished : observer.isFinished = false) :
    ∀ stream ∈ observer.streams, stream.Open ∧ stream.handled = true := by
  rwa [Served, if_neg (Bool.eq_false_iff.mp hfinished)] at h

theorem served_of_told (hfinished : observer.isFinished = true)
    (h : ∀ stream ∈ observer.streams, stream.Told ∧ stream.handled = false) : observer.Served := by
  rwa [Served, if_pos hfinished]

theorem served_of_opened (hfinished : observer.isFinished = false)
    (h : ∀ stream ∈ observer.streams, stream.Open ∧ stream.handled = true) : observer.Served := by
  rwa [Served, if_neg (Bool.eq_false_iff.mp hfinished)]

theorem Served.streamsTold (h : observer.Served) : observer.StreamsTold := by
  cases hfinished : observer.isFinished with
  | true =>
      have htold := h.told hfinished
      exact ⟨fun _ stream hstream => ⟨(htold stream hstream).1.once, (htold stream hstream).1.ended⟩,
        fun stream hstream => (htold stream hstream).1.endsWithOutcome⟩
  | false =>
      have hopen := h.opened hfinished
      refine ⟨fun hcontra => ?_, fun stream hstream => (hopen stream hstream).1.endsWithOutcome⟩
      rw [hfinished] at hcontra
      cases hcontra

/-- Streams stay served, and a finished task keeps its state. -/
structure Follows (observer observer' : StorageObserver T E M) : Prop where
  served : observer.Served → observer'.Served
  state : observer.isFinished = true → observer'.base.state = observer.base.state

theorem Follows.refl (observer : StorageObserver T E M) : Follows observer observer := ⟨id, fun _ => rfl⟩

theorem Follows.isFinished (h : Follows observer observer') (hfinished : observer.isFinished = true) :
    observer'.isFinished = true := by
  rw [StorageObserver.isFinished, h.state hfinished]
  exact hfinished

theorem Follows.trans (h : Follows observer observer') (h' : Follows observer' observer'') :
    Follows observer observer'' where
  served := fun hserved => h'.served (h.served hserved)
  state := fun hfinished => (h'.state (h.isFinished hfinished)).trans (h.state hfinished)

/-- Where only the data of the task change. -/
theorem follows_of_same (hstate : observer'.base.state = observer.base.state)
    (hstreams : observer'.streams = observer.streams) : Follows observer observer' where
  served := fun hserved => by
    rw [Served, StorageObserver.isFinished, hstate, hstreams]
    exact hserved
  state := fun _ => hstate

theorem follows_setMetadata (observer : StorageObserver T E M) (metadata : M) :
    Follows observer (observer.setMetadata metadata) :=
  follows_of_same rfl rfl

theorem follows_setProgress (observer : StorageObserver T E M) (progress : Progress) :
    Follows observer (observer.setProgress progress) :=
  follows_of_same rfl rfl

theorem follows_observe (observer : StorageObserver T E M) : Follows observer observer.observe := by
  refine ⟨fun hserved => ?_, fun _ => rfl⟩
  have hempty : StorageStream.Open ({} : StorageStream T E M) := ⟨rfl, rfl⟩
  have hstatus : observer.base.snapshot.status.isTerminal = observer.isFinished :=
    observer.base.state.isTerminal_status
  cases hfinished : observer.isFinished with
  | true =>
      rw [hfinished] at hstatus
      refine served_of_told hfinished fun stream hstream => ?_
      rw [observe, hfinished] at hstream
      rcases List.mem_append.mp hstream with hold | hnew
      · exact hserved.told hfinished stream hold
      · rw [List.mem_singleton.mp hnew]
        exact ⟨(hempty.send_terminal hstatus).handled false, rfl⟩
  | false =>
      rw [hfinished] at hstatus
      refine served_of_opened hfinished fun stream hstream => ?_
      rw [observe, hfinished] at hstream
      rcases List.mem_append.mp hstream with hold | hnew
      · exact hserved.opened hfinished stream hold
      · rw [List.mem_singleton.mp hnew]
        have hopen := hempty.send hstatus
        exact ⟨⟨hopen.untold, hopen.unended⟩, rfl⟩

theorem follows_setState (observer : StorageObserver T E M) {state : StorageTaskState T E}
    (hstate : state.isFinished = false) : Follows observer (observer.setState state) := by
  unfold setState
  split_ifs with hfinished
  · exact .refl observer
  · refine ⟨fun hserved => served_of_opened hstate ?_, fun hcontra => absurd hcontra hfinished⟩
    exact hserved.opened (Bool.eq_false_iff.mpr hfinished)

/-- The new state of a task that has not finished reaches all streams, and closes them if it is the last. -/
theorem follows_fire (observer : StorageObserver T E M) (state : StorageTaskState T E) :
    Follows observer (observer.fire state) := by
  unfold fire
  split_ifs with hfinished
  · exact .refl observer
  · refine ⟨fun hserved => ?_, fun hcontra => absurd hcontra hfinished⟩
    have hopen := hserved.opened (Bool.eq_false_iff.mpr hfinished)
    have hstatus : ({ observer.base with state } : StorageBase T E M).snapshot.status.isTerminal =
        state.isFinished := state.isTerminal_status
    cases hlast : state.isFinished with
    | true =>
        rw [hlast] at hstatus
        refine served_of_told hlast fun stream hstream => ?_
        obtain ⟨before, hbefore, rfl⟩ := List.mem_map.mp hstream
        obtain ⟨hopened, hhandled⟩ := hopen before hbefore
        simp only [hhandled, hstatus, if_true]
        exact ⟨(hopened.send_terminal hstatus).handled false, trivial⟩
    | false =>
        rw [hlast] at hstatus
        refine served_of_opened hlast fun stream hstream => ?_
        obtain ⟨before, hbefore, rfl⟩ := List.mem_map.mp hstream
        obtain ⟨hopened, hhandled⟩ := hopen before hbefore
        simp only [hhandled, hstatus, if_true, Bool.false_eq_true, if_false]
        exact ⟨hopened.send hstatus, (StorageStream.send_handled before _).trans hhandled⟩

end StorageObserver

/-! ### Downloads -/

namespace StorageDownloadTask

variable {task task' : StorageDownloadTask D E M} {errors : StorageErrorCode D E}

open StorageObserver

theorem follows_beginFetch (task : StorageDownloadTask D E M) (resumes keepsData : Bool) :
    Follows task.observer (task.beginFetch resumes keepsData).observer :=
  follows_setState task.observer rfl

theorem follows_enqueueImplementation (task : StorageDownloadTask D E M) (resumeData : Option D)
    (keepsData : Bool) : Follows task.observer (task.enqueueImplementation resumeData keepsData).observer := by
  unfold enqueueImplementation
  extract_lets queued
  have hqueued : Follows task.observer queued.observer := follows_setState task.observer rfl
  split
  · exact hqueued.trans (follows_beginFetch queued true keepsData)
  · exact hqueued

theorem follows_fetchFailed (task : StorageDownloadTask D E M) (errors : StorageErrorCode D E) (error : E) :
    Follows task.observer (task.fetchFailed errors error).observer := by
  unfold fetchFailed
  split
  · exact follows_fire task.observer .paused
  · exact follows_fire task.observer .paused
  · exact (follows_fire task.observer .progress).trans (follows_fire _ _)

theorem follows_fetchEnded (task : StorageDownloadTask D E M) (errors : StorageErrorCode D E) (run : Nat)
    (keepsData : Bool) (result : DownloadResult D E) :
    Follows task.observer (task.fetchEnded errors run keepsData result).observer := by
  unfold fetchEnded
  extract_lets ended
  cases result with
  | data data => exact (follows_fire ended.observer .progress).trans (follows_fire _ _)
  | error error => exact follows_fetchFailed ended errors error
  | stopped => exact follows_fetchFailed ended errors _

theorem follows_pause (task : StorageDownloadTask D E M) : Follows task.observer task.pause.observer := by
  have hpause : Follows task.observer task.pauseFetch.observer := by
    unfold pauseFetch
    extract_lets pausing
    split <;> exact follows_setState task.observer rfl
  unfold pause
  split_ifs
  · exact .refl _
  · split
    · exact .refl _
    · exact .refl _
    · exact hpause

theorem follows_resume (task : StorageDownloadTask D E M) : Follows task.observer task.resume.observer := by
  have hresume : Follows task.observer task.resumeFetch.observer := by
    unfold resumeFetch
    extract_lets resumed
    have hresumed : Follows task.observer resumed.observer :=
      (follows_setState task.observer rfl).trans (follows_fire _ .running)
    exact hresumed.trans (follows_enqueueImplementation resumed resumed.downloadData true)
  unfold resume
  split
  · exact hresume
  · exact hresume
  · exact .refl _

theorem follows_cancel (task : StorageDownloadTask D E M) (error : E) :
    Follows task.observer (task.cancel error).observer := by
  unfold cancel
  extract_lets cancelled
  split <;> exact follows_fire task.observer _

/-- Every step of a download goes through the observer. -/
theorem follows_step {event : Event D E} (hstep : step errors task event = some task') :
    Follows task.observer task'.observer := by
  cases event with
  | enqueue =>
      cases hstep
      exact follows_enqueueImplementation task none true
  | start =>
      cases hstep
      exact follows_enqueueImplementation task none false
  | serviceReady run =>
      simp only [step] at hstep
      split at hstep
      · rename_i keepsData _
        cases hstep
        exact follows_beginFetch { task with runs := task.runs.eraseIdx run } false keepsData
      · cases hstep
  | fetchEnded run result =>
      simp only [step] at hstep
      split at hstep
      · split_ifs at hstep
        cases hstep
        exact follows_fetchEnded task errors run _ result
      · cases hstep
  | progress completed total =>
      simp only [step] at hstep
      split_ifs at hstep
      cases hstep
      exact ((follows_setProgress task.observer _).trans (follows_fire _ .progress)).trans (follows_setState _ rfl)
  | resumeData fetcher data =>
      simp only [step] at hstep
      split_ifs at hstep
      cases hstep
      exact follows_fire task.observer .paused
  | observe =>
      cases hstep
      exact follows_observe task.observer
  | pause =>
      cases hstep
      exact follows_pause task
  | resume =>
      cases hstep
      exact follows_resume task
  | cancel error =>
      cases hstep
      exact follows_cancel task error

end StorageDownloadTask

/-! ### Uploads -/

namespace StorageUploadTask

variable {task task' : StorageUploadTask E M} {errors : StorageErrorCode D E} {readMetadata : D → Option M}

open StorageObserver

/-- The state that the end of a fetch gives the task. -/
def fetchOutcome (errors : StorageErrorCode D E) (readMetadata : D → Option M) :
    FetchResult D E → StorageTaskState M E
  | .error error => .failed (errors.serverError error)
  | .data data =>
      match readMetadata data with
      | some metadata => .success metadata
      | none => .failed (errors.serverError (errors.invalidRequest data))

/-- The steps that set the state directly find a task that has not finished, or is finished already with
the same outcome, and the end of a fetch finds no observer. -/
def SparesObservers (errors : StorageErrorCode D E) (readMetadata : D → Option M)
    (task : StorageUploadTask E M) : Event D E → Prop
  | .enqueue none => task.observer.isFinished = false
  | .serviceReady _ => task.observer.isFinished = false
  | .progress _ => task.observer.isFinished = false
  | .fetchEnded _ result =>
      (task.observer.isFinished = true → task.observer.base.state = fetchOutcome errors readMetadata result) ∧
        ∀ stream ∈ task.observer.streams, stream.handled = false
  | _ => True

theorem isFinished_fire_progress (observer : StorageObserver M E M) :
    (observer.fire .progress).isFinished = observer.isFinished := by
  unfold fire
  split_ifs with hfinished
  · rfl
  · exact (Bool.eq_false_iff.mpr hfinished).symm

/-- The direct change of the state does what the guarded one does, as long as the task has not finished. -/
theorem observer_setState (hfinished : task.observer.isFinished = false) (state : StorageTaskState M E) :
    (task.setState state).observer = task.observer.setState state := by
  rw [StorageObserver.setState, hfinished]
  rfl

theorem follows_unfinished_setState (hfinished : task.observer.isFinished = false)
    {state : StorageTaskState M E} (hstate : state.isFinished = false) :
    Follows task.observer (task.setState state).observer := by
  rw [observer_setState hfinished]
  exact follows_setState task.observer hstate

theorem follows_progressed (hfinished : task.observer.isFinished = false) (progress : Progress) :
    Follows task.observer (task.progressed progress).observer := by
  unfold progressed
  extract_lets told
  have htold : Follows task.observer told.observer :=
    ((follows_setProgress task.observer progress).trans (follows_setMetadata _ _)).trans (follows_fire _ .progress)
  have hsame : told.observer.isFinished = task.observer.isFinished :=
    isFinished_fire_progress ((task.observer.setProgress progress).setMetadata task.uploadMetadata)
  exact htold.trans (follows_unfinished_setState (hsame.trans hfinished) rfl)

theorem follows_pause (task : StorageUploadTask E M) : Follows task.observer task.pause.observer := by
  unfold pause
  split_ifs
  · exact .refl _
  · exact (follows_setMetadata task.observer _).trans (follows_fire _ .paused)

theorem follows_cancel (task : StorageUploadTask E M) (errors : StorageErrorCode D E) :
    Follows task.observer (task.cancel errors).observer := by
  unfold cancel
  split_ifs
  · exact .refl _
  · exact (follows_setMetadata task.observer _).trans (follows_fire _ _)

theorem follows_resume (task : StorageUploadTask E M) : Follows task.observer task.resume.observer := by
  unfold resume
  split
  · exact ((follows_setState task.observer rfl).trans (follows_setMetadata _ _)).trans (follows_fire _ .running)
  · exact .refl _

theorem length_fire (observer : StorageObserver M E M) (state : StorageTaskState M E) :
    (observer.fire state).streams.length = observer.streams.length := by
  unfold fire
  split_ifs
  · rfl
  · exact List.length_map _

/-- The observers hear of progress, as often as may be. -/
structure HearsProgress (observer told : StorageObserver M E M) : Prop where
  follows : Follows observer told
  isFinished : told.isFinished = observer.isFinished
  length : told.streams.length = observer.streams.length

theorem hearsProgress_fire (observer : StorageObserver M E M) : HearsProgress observer (observer.fire .progress) :=
  ⟨follows_fire observer .progress, isFinished_fire_progress observer, length_fire observer .progress⟩

theorem HearsProgress.fire {observer told : StorageObserver M E M} (h : HearsProgress observer told) :
    HearsProgress observer (told.fire .progress) where
  follows := h.follows.trans (follows_fire told .progress)
  isFinished := (isFinished_fire_progress told).trans h.isFinished
  length := (length_fire told .progress).trans h.length

/-- Whatever the fetch brings, the streams only hear of progress. -/
theorem fetchEnded_observer (task : StorageUploadTask E M) (errors : StorageErrorCode D E)
    (readMetadata : D → Option M) (run : Nat) (result : FetchResult D E) :
    (task.fetchEnded errors readMetadata run result).observer.base.state =
        fetchOutcome errors readMetadata result ∧
      ∃ told, HearsProgress task.observer told ∧
        (task.fetchEnded errors readMetadata run result).observer.streams = told.streams := by
  have hfailed : ∀ (told : StorageUploadTask E M) (error : E),
      (told.uploadFailed errors error).observer.base.state = .failed (errors.serverError error) ∧
        (told.uploadFailed errors error).observer.streams = (told.observer.fire .progress).streams :=
    fun _ _ => ⟨rfl, rfl⟩
  unfold fetchEnded
  extract_lets ended
  cases result with
  | error error => exact ⟨(hfailed ended error).1, _, hearsProgress_fire task.observer, (hfailed ended error).2⟩
  | data data =>
      simp only [fetchOutcome]
      cases readMetadata data with
      | some metadata => exact ⟨rfl, _, hearsProgress_fire task.observer, rfl⟩
      | none => exact ⟨(hfailed _ _).1, _, (hearsProgress_fire task.observer).fire, (hfailed _ _).2⟩

theorem isFinished_fetchOutcome (errors : StorageErrorCode D E) (readMetadata : D → Option M)
    (result : FetchResult D E) : (fetchOutcome errors readMetadata result).isFinished = true := by
  cases result with
  | error error => rfl
  | data data =>
      simp only [fetchOutcome]
      cases readMetadata data <;> rfl

theorem isFinished_fetchEnded (task : StorageUploadTask E M) (errors : StorageErrorCode D E)
    (readMetadata : D → Option M) (run : Nat) (result : FetchResult D E) :
    (task.fetchEnded errors readMetadata run result).observer.isFinished = true := by
  rw [StorageObserver.isFinished, (task.fetchEnded_observer errors readMetadata run result).1]
  exact isFinished_fetchOutcome errors readMetadata result

variable {result : FetchResult D E}

/-- A fetch that ends where nobody observes may finish the task. -/
theorem served_fetchEnded (run : Nat) (hserved : task.observer.Served)
    (hunhandled : ∀ stream ∈ task.observer.streams, stream.handled = false) :
    (task.fetchEnded errors readMetadata run result).observer.Served := by
  obtain ⟨_, told, htold, hstreams⟩ := task.fetchEnded_observer errors readMetadata run result
  refine served_of_told (task.isFinished_fetchEnded errors readMetadata run result) ?_
  rw [hstreams]
  cases hfinished : task.observer.isFinished with
  | true => exact (htold.follows.served hserved).told (htold.isFinished.trans hfinished)
  | false =>
      have hnone : task.observer.streams = [] := by
        refine List.eq_nil_iff_forall_not_mem.mpr fun stream hstream => ?_
        have hhandled := (hserved.opened hfinished stream hstream).2
        rw [hunhandled stream hstream] at hhandled
        cases hhandled
      have hlength := htold.length
      rw [hnone] at hlength
      rw [List.length_eq_zero_iff.mp hlength]
      exact nofun

/-- A fetch that ends leaves every open stream without an outcome. -/
theorem not_streamsTold_fetchEnded (run : Nat) (hserved : task.observer.Served) {stream : StorageStream M E M}
    (hstream : stream ∈ task.observer.streams) (hhandled : stream.handled = true) :
    ¬ (task.fetchEnded errors readMetadata run result).observer.StreamsTold := by
  intro htold
  obtain ⟨_, told, hprogress, hstreams⟩ := task.fetchEnded_observer errors readMetadata run result
  have hfinished : task.observer.isFinished = false := by
    by_contra hfinished
    have hunhandled := (hserved.told (by simpa using hfinished) stream hstream).2
    rw [hhandled] at hunhandled
    cases hunhandled
  have hne : told.streams ≠ [] := by
    intro hnil
    have hlength := hprogress.length
    rw [hnil] at hlength
    rw [List.length_eq_zero_iff.mp hlength.symm] at hstream
    cases hstream
  obtain ⟨first, hfirst⟩ := List.exists_mem_of_ne_nil _ hne
  have hopen := ((hprogress.follows.served hserved).opened (hprogress.isFinished.trans hfinished) first hfirst).1
  have honce := (htold.told (task.isFinished_fetchEnded errors readMetadata run result) first (hstreams ▸ hfirst)).1
  rw [hopen.untold] at honce
  cases honce

end StorageUploadTask

/-! ### Runs -/

/-- A task, and the state in which it first finished. -/
structure TaskHistory (τ T E : Type) where
  task : τ
  outcome : Option (StorageTaskState T E) := none

namespace TaskHistory

variable {τ ι : Type} (observer : τ → StorageObserver T E M) (step : τ → ι → Option τ)

/-- What is remembered when a step has led to a task. -/
def next (history : TaskHistory τ T E) (task : τ) : TaskHistory τ T E where
  task := task
  outcome :=
    history.outcome <|> if (observer task).isFinished then some (observer task).base.state else none

def stepHistory (history : TaskHistory τ T E) (event : ι) : Option (TaskHistory τ T E) :=
  (step history.task event).map (history.next observer)

/-- The task is still in the state in which it finished, and has told its observers. -/
structure Settled (history : TaskHistory τ T E) : Prop where
  state : ∀ state ∈ history.outcome, (observer history.task).base.state = state
  streams : (observer history.task).StreamsTold

/-- What runs keep. -/
structure Kept (history : TaskHistory τ T E) : Prop where
  served : (observer history.task).Served
  outcome : history.outcome =
    if (observer history.task).isFinished then some (observer history.task).base.state else none

variable {observer step} {history : TaskHistory τ T E}

theorem Kept.settled (h : Kept observer history) : Settled observer history where
  state := fun state hstate => by
    rw [h.outcome] at hstate
    split_ifs at hstate
    · exact Option.some.inj hstate
    · cases hstate
  streams := h.served.streamsTold

theorem Kept.next (h : Kept observer history) {task : τ} (hserved : (observer task).Served)
    (hstate : (observer history.task).isFinished = true →
      (observer task).base.state = (observer history.task).base.state) :
    Kept observer (history.next observer task) := by
  refine ⟨hserved, ?_⟩
  rw [TaskHistory.next, h.outcome]
  cases hfinished : (observer history.task).isFinished with
  | true =>
      have hfinished' : (observer task).isFinished = true := by
        rw [StorageObserver.isFinished, hstate hfinished]
        exact hfinished
      simp only [hfinished', if_true, hstate hfinished]
      rfl
  | false => rfl

/-- What has finished, and is settled after a step, has not changed its state. -/
theorem Kept.state_of_settled (h : Kept observer history) {task : τ}
    (hfinished : (observer history.task).isFinished = true) (hsettled : Settled observer (history.next observer task)) :
    (observer task).base.state = (observer history.task).base.state := by
  refine hsettled.state _ ?_
  rw [TaskHistory.next, h.outcome, if_pos hfinished]
  rfl

theorem kept_start {task : τ} (hstate : (observer task).isFinished = false) (hstreams : (observer task).streams = []) :
    Kept observer ({ task } : TaskHistory τ T E) := by
  refine ⟨StorageObserver.served_of_opened hstate ?_, ?_⟩
  · rw [hstreams]
    exact nofun
  · rw [hstate]
    rfl

end TaskHistory

def StorageUploadTask.stepHistory (errors : StorageErrorCode D E) (readMetadata : D → Option M) :
    TaskHistory (StorageUploadTask E M) M E → StorageUploadTask.Event D E →
      Option (TaskHistory (StorageUploadTask E M) M E) :=
  TaskHistory.stepHistory StorageUploadTask.observer (StorageUploadTask.step errors readMetadata)

def StorageDownloadTask.stepHistory (errors : StorageErrorCode D E) :
    TaskHistory (StorageDownloadTask D E M) D E → StorageDownloadTask.Event D E →
      Option (TaskHistory (StorageDownloadTask D E M) D E) :=
  TaskHistory.stepHistory StorageDownloadTask.observer (StorageDownloadTask.step errors)

namespace StorageUploadTask

open TaskHistory

variable {errors : StorageErrorCode D E} {readMetadata : D → Option M}
variable {event : Event D E} {history' : TaskHistory (StorageUploadTask E M) M E}

/-- A step that spares the observers. -/
theorem kept_step {history : TaskHistory (StorageUploadTask E M) M E} (h : Kept observer history)
    (hspares : SparesObservers errors readMetadata history.task event)
    (hstep : stepHistory errors readMetadata history event = some history') : Kept observer history' := by
  obtain ⟨task, htask, rfl⟩ := Option.map_eq_some_iff.mp hstep
  have hnext : ∀ {task}, StorageObserver.Follows history.task.observer task.observer →
      Kept observer (history.next observer task) := fun hfollows => h.next (hfollows.served h.served) hfollows.state
  cases event with
  | enqueue contentUploadError =>
      cases htask
      cases contentUploadError with
      | some error => exact hnext (StorageObserver.follows_fire history.task.observer _)
      | none => exact hnext (follows_unfinished_setState hspares rfl)
  | serviceReady run =>
      simp only [step] at htask
      split_ifs at htask
      cases htask
      exact hnext (follows_unfinished_setState hspares rfl)
  | fetchEnded run result =>
      simp only [step] at htask
      split_ifs at htask
      cases htask
      obtain ⟨houtcome, hunhandled⟩ := hspares
      refine h.next (served_fetchEnded run h.served hunhandled) fun hfinished => ?_
      exact (history.task.fetchEnded_observer errors readMetadata run result).1.trans (houtcome hfinished).symm
  | progress progress =>
      simp only [step] at htask
      split_ifs at htask
      cases htask
      exact hnext (follows_progressed hspares progress)
  | observe =>
      cases htask
      exact hnext (StorageObserver.follows_observe history.task.observer)
  | pause =>
      cases htask
      exact hnext (follows_pause history.task)
  | resume =>
      cases htask
      exact hnext (follows_resume history.task)
  | cancel =>
      cases htask
      exact hnext (follows_cancel history.task errors)

/-- A step after which the task is settled has spared the observers. -/
theorem sparesObservers_of_settled {history : TaskHistory (StorageUploadTask E M) M E}
    (h : Kept observer history) (hstep : stepHistory errors readMetadata history event = some history')
    (hsettled : Settled observer history') : SparesObservers errors readMetadata history.task event := by
  obtain ⟨task, htask, rfl⟩ := Option.map_eq_some_iff.mp hstep
  have hunfinished : task.observer.base.state.isFinished = false → history.task.observer.isFinished = false := by
    intro hstate
    by_contra hfinished
    have hfinished' : history.task.observer.isFinished = true := by simpa using hfinished
    have hsame := h.state_of_settled hfinished' hsettled
    rw [StorageObserver.isFinished, ← hsame, hstate] at hfinished'
    cases hfinished'
  cases event with
  | enqueue contentUploadError =>
      cases contentUploadError with
      | some error => trivial
      | none =>
          cases htask
          exact hunfinished rfl
  | serviceReady run =>
      simp only [step] at htask
      split_ifs at htask
      cases htask
      exact hunfinished rfl
  | fetchEnded run result =>
      simp only [step] at htask
      split_ifs at htask
      cases htask
      refine ⟨fun hfinished => ?_, fun stream hstream => ?_⟩
      · exact (h.state_of_settled hfinished hsettled).symm.trans
          (history.task.fetchEnded_observer errors readMetadata run result).1
      · by_contra hhandled
        exact not_streamsTold_fetchEnded run h.served hstream (by simpa using hhandled) hsettled.streams
  | progress progress =>
      simp only [step] at htask
      split_ifs at htask
      cases htask
      exact hunfinished rfl
  | _ => trivial

end StorageUploadTask

/-- In all states of a run of an upload it is settled exactly if the steps spare the observers, and a
download is settled in all states of all its runs. -/
theorem settled_run_iff (errors : StorageErrorCode D E) (readMetadata : D → Option M) (uploadMetadata : M)
    (events : List (StorageUploadTask.Event D E)) (downloadEvents : List (StorageDownloadTask.Event D E))
    (hrun : (run (StorageUploadTask.stepHistory errors readMetadata) { task := { uploadMetadata } }
      events).isSome = true) :
    (AllSteps (StorageUploadTask.stepHistory errors readMetadata)
        (fun history event => StorageUploadTask.SparesObservers errors readMetadata history.task event)
        { task := { uploadMetadata } } events ↔
      ∀ before, before <+: events →
        ∀ history ∈ run (StorageUploadTask.stepHistory errors readMetadata) { task := { uploadMetadata } } before,
          history.Settled StorageUploadTask.observer) ∧
      ∀ history ∈ run (StorageDownloadTask.stepHistory errors)
          { task := ({} : StorageDownloadTask D E M) } downloadEvents,
        history.Settled StorageDownloadTask.observer := by
  constructor
  · have hstart : TaskHistory.Kept StorageUploadTask.observer
        ({ task := { uploadMetadata } } : TaskHistory (StorageUploadTask E M) M E) :=
      TaskHistory.kept_start rfl rfl
    exact allSteps_iff_forall_law
      (fun history event h hspares history' hstep => StorageUploadTask.kept_step h hspares hstep)
      (fun history h => h.settled)
      (fun history event h history' hstep hsettled =>
        StorageUploadTask.sparesObservers_of_settled h hstep hsettled) hstart hrun
  · intro history hhistory
    have hstart : TaskHistory.Kept StorageDownloadTask.observer
        ({ task := {} } : TaskHistory (StorageDownloadTask D E M) D E) :=
      TaskHistory.kept_start rfl rfl
    have hstep : ∀ (history : TaskHistory (StorageDownloadTask D E M) D E) event,
        history.Kept StorageDownloadTask.observer → True →
          ∀ history' ∈ StorageDownloadTask.stepHistory errors history event,
            history'.Kept StorageDownloadTask.observer := by
      intro history event h _ history' hstep
      obtain ⟨task, htask, rfl⟩ := Option.map_eq_some_iff.mp hstep
      have hfollows := StorageDownloadTask.follows_step htask
      exact h.next (hfollows.served h.served) hfollows.state
    have hkept := invariant_run hstep hstart (allSteps_true (fun _ _ => trivial) _ downloadEvents) hhistory
    exact hkept.settled

/-- An upload is observed and cancelled while its fetch is under way. -/
def cancelledUpload : List (StorageUploadTask.Event Unit Unit) :=
  [.observe, .enqueue none, .serviceReady 0, .cancel]

theorem settled_run_iff_cancelledUpload :
    (run (StorageUploadTask.stepHistory .plain fun _ => some ()) { task := { uploadMetadata := () } }
        cancelledUpload).isSome = true ∧
      ∀ before, before <+: cancelledUpload →
        ∀ history ∈ run (StorageUploadTask.stepHistory .plain fun _ => some ()) { task := { uploadMetadata := () } }
          before, history.Settled StorageUploadTask.observer := by
  refine ⟨rfl, ?_⟩
  refine (settled_run_iff .plain (fun _ => some ()) () cancelledUpload [] rfl).1.mp ?_
  refine ⟨trivial, fun _ hobserved => ?_⟩
  cases hobserved
  refine ⟨rfl, fun _ henqueued => ?_⟩
  cases henqueued
  refine ⟨rfl, fun _ hfetching => ?_⟩
  cases hfetching
  exact ⟨trivial, fun _ _ => trivial⟩

/-- An upload is observed and succeeds. -/
def successfulUpload : List (StorageUploadTask.Event Unit Unit) :=
  [.observe, .enqueue none, .serviceReady 0, .fetchEnded 0 (.data ())]

theorem settled_fails_successfulUpload :
    ¬∀ (errors : StorageErrorCode Unit Unit) (readMetadata : Unit → Option Unit)
      (events : List (StorageUploadTask.Event Unit Unit)) (history : TaskHistory (StorageUploadTask Unit Unit) Unit Unit),
      run (StorageUploadTask.stepHistory errors readMetadata) { task := { uploadMetadata := () } } events =
        some history → history.Settled StorageUploadTask.observer := by
  intro hall
  have hsettled := hall .plain (fun _ => some ()) successfulUpload _ rfl
  have honce := (hsettled.streams.told rfl _ List.mem_cons_self).1
  cases honce

end FirebaseSwift.Storage
