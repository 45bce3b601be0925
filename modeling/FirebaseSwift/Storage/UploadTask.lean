import FirebaseSwift.Storage.TaskObserver

/-! Uploads. What runs on the storage actor between two suspension points is one step. Starting an upload
suspends for the fetcher service and again for the fetch; progress comes in steps of its own, at any time
once there is a fetcher. -/

namespace FirebaseSwift.Storage

/-- How a fetch ends. -/
inductive FetchResult (D E : Type)
  | data (data : D)
  | error (error : E)
  deriving DecidableEq

/-- The errors of tasks. The one of a stopped fetch is not the one of a cancelled task. -/
structure StorageErrorCode (D E : Type) where
  invalidRequest : D → E
  serverError : E → E
  cancelled : E
  fetchCancelled : E

/-- Errors that say nothing, of data without content. -/
def StorageErrorCode.plain : StorageErrorCode Unit Unit := ⟨fun _ => (), fun _ => (), (), ()⟩

structure GTMSessionUploadFetcher where
  isPaused : Bool := false
  isStopped : Bool := false
  deriving DecidableEq

/-- Where a started upload is suspended. -/
inductive UploadRun
  | awaitsService
  | fetches
  deriving DecidableEq

structure StorageUploadTask (E M : Type) where
  observer : StorageObserver M E M := {}
  uploadMetadata : M
  fetchers : List GTMSessionUploadFetcher := []
  runs : List UploadRun := []

namespace StorageUploadTask

variable {D E M : Type}

def setState (self : StorageUploadTask E M) (state : StorageTaskState M E) : StorageUploadTask E M :=
  { self with observer := { self.observer with base := { self.observer.base with state } } }

/-- The fetcher that was made last is the one the task knows. -/
def updateFetcher (self : StorageUploadTask E M) (update : GTMSessionUploadFetcher → GTMSessionUploadFetcher) :
    StorageUploadTask E M :=
  { self with fetchers := self.fetchers.modify (self.fetchers.length - 1) update }

/-- The upload starts, unless there is nothing to upload. -/
def enqueue (self : StorageUploadTask E M) (contentUploadError : Option E) : StorageUploadTask E M :=
  match contentUploadError with
  | some error => { self with observer := self.observer.fail error }
  | none => { self.setState .queueing with runs := self.runs ++ [.awaitsService] }

/-- The fetcher service is there, and the fetch begins. -/
def beginFetch (self : StorageUploadTask E M) (run : Nat) : StorageUploadTask E M :=
  { self.setState .running with
    fetchers := self.fetchers ++ [{}]
    runs := self.runs.set run .fetches }

/-- The error of a failed upload is stored, and then thrown for the caller to tell. -/
def uploadFailed (self : StorageUploadTask E M) (errors : StorageErrorCode D E) (error : E) :
    StorageUploadTask E M :=
  let told := { self with observer := (self.observer.fire .progress).setMetadata self.uploadMetadata }
  let failed := told.setState (.failed (errors.serverError error))
  { failed with observer := failed.observer.fail (errors.serverError error) }

/-- The fetch has ended. Where metadata can be read from its data, the upload succeeded. The outcome is
stored, and then fired by the caller. -/
def fetchEnded (self : StorageUploadTask E M) (errors : StorageErrorCode D E) (readMetadata : D → Option M)
    (run : Nat) (result : FetchResult D E) : StorageUploadTask E M :=
  let ended := { self with runs := self.runs.eraseIdx run }
  match result with
  | .error error => ended.uploadFailed errors error
  | .data data =>
      let told := { ended with observer := ended.observer.fire .progress }
      match readMetadata data with
      | some metadata =>
          let succeeded := told.setState (.success metadata)
          { succeeded with observer := (succeeded.observer.setMetadata metadata).fire (.success metadata) }
      | none => told.uploadFailed errors (errors.invalidRequest data)

/-- Progress is told, and the task said to be running. -/
def progressed (self : StorageUploadTask E M) (progress : Progress) : StorageUploadTask E M :=
  let told :=
    { self with
      observer := ((self.observer.setProgress progress).setMetadata self.uploadMetadata).fire .progress }
  told.setState .running

def pause (self : StorageUploadTask E M) : StorageUploadTask E M :=
  if self.observer.isFinished then self
  else
    let paused := self.updateFetcher fun fetcher => { fetcher with isPaused := true }
    { paused with observer := (paused.observer.setMetadata self.uploadMetadata).fire .paused }

/-- The task is finished first, so that the stopped upload can't report a failure instead. -/
def cancel (self : StorageUploadTask E M) (errors : StorageErrorCode D E) : StorageUploadTask E M :=
  if self.observer.isFinished then self
  else
    let cancelled :=
      { self with
        observer := (self.observer.setMetadata self.uploadMetadata).fire
          (.cancelled (errors.serverError errors.cancelled)) }
    cancelled.updateFetcher fun fetcher => { fetcher with isStopped := true }

def resume (self : StorageUploadTask E M) : StorageUploadTask E M :=
  match self.observer.base.state with
  | .paused =>
      let resumed :=
        { self with observer := self.observer.setState .resuming }.updateFetcher fun fetcher =>
          { fetcher with isPaused := false }
      { resumed with observer := (resumed.observer.setMetadata self.uploadMetadata).fire .running }
  | _ => self

/-- The steps of the storage actor that concern the task. -/
inductive Event (D E : Type)
  | enqueue (contentUploadError : Option E)
  | serviceReady (run : Nat)
  | fetchEnded (run : Nat) (result : FetchResult D E)
  | progress (progress : Progress)
  | observe
  | pause
  | resume
  | cancel
  deriving DecidableEq

/-- One step. Only a run that waits for it gets the service or the end of its fetch, and only a fetcher
makes progress. -/
def step (errors : StorageErrorCode D E) (readMetadata : D → Option M) (self : StorageUploadTask E M)
    (event : Event D E) : Option (StorageUploadTask E M) :=
  match event with
  | .enqueue contentUploadError => some (self.enqueue contentUploadError)
  | .serviceReady run => if self.runs[run]? = some .awaitsService then some (self.beginFetch run) else none
  | .fetchEnded run result =>
      if self.runs[run]? = some .fetches then some (self.fetchEnded errors readMetadata run result) else none
  | .progress progress => if self.fetchers.isEmpty then none else some (self.progressed progress)
  | .observe => some { self with observer := self.observer.observe }
  | .pause => some self.pause
  | .resume => some self.resume
  | .cancel => some (self.cancel errors)

end StorageUploadTask

end FirebaseSwift.Storage
