import FirebaseSwift.Storage.UploadTask

/-! Downloads. A paused download stops its fetch, and a resumed one begins another, from the data that was
kept or from the start. The stopped fetch ends with an error in a step of its own. -/

namespace FirebaseSwift.Storage

structure GTMSessionFetcher where
  resumes : Bool := false
  isStopped : Bool := false
  resumeDataBlock : Bool := false
  deriving DecidableEq

/-- Where a started download is suspended. The data of a finished one is kept, unless it was started for
the data alone. -/
inductive DownloadRun
  | awaitsService (keepsData : Bool)
  | fetches (fetcher : Nat) (keepsData : Bool)
  deriving DecidableEq

/-- How a fetch ends: with data, with an error, or because it was stopped. -/
inductive DownloadResult (D E : Type)
  | data (data : D)
  | error (error : E)
  | stopped
  deriving DecidableEq

structure StorageDownloadTask (D E M : Type) where
  observer : StorageObserver D E M := {}
  fetchers : List GTMSessionFetcher := []
  fetcher : Option Nat := none
  downloadData : Option D := none
  runs : List DownloadRun := []

namespace StorageDownloadTask

variable {D E M : Type}

def stopFetching (self : StorageDownloadTask D E M) (fetcher : Nat) : StorageDownloadTask D E M :=
  { self with fetchers := self.fetchers.modify fetcher fun fetcher => { fetcher with isStopped := true } }

/-- A new fetcher begins to fetch. -/
def beginFetch (self : StorageDownloadTask D E M) (resumes keepsData : Bool) : StorageDownloadTask D E M :=
  { self with
    observer := self.observer.setState .running
    fetchers := self.fetchers ++ [{ resumes }]
    fetcher := some self.fetchers.length
    runs := self.runs ++ [.fetches self.fetchers.length keepsData] }

/-- A download starts. With data to resume from it does not need the fetcher service. -/
def enqueueImplementation (self : StorageDownloadTask D E M) (resumeData : Option D) (keepsData : Bool) :
    StorageDownloadTask D E M :=
  let queued := { self with observer := self.observer.setState .queueing }
  match resumeData with
  | some _ => queued.beginFetch true keepsData
  | none => { queued with runs := queued.runs ++ [.awaitsService keepsData] }

def serviceReady (self : StorageDownloadTask D E M) (run : Nat) (keepsData : Bool) :
    StorageDownloadTask D E M :=
  { self with runs := self.runs.eraseIdx run }.beginFetch false keepsData

/-- A failed fetch. Where the task is paused, or about to be, `pause` stopped the fetch. -/
def fetchFailed (self : StorageDownloadTask D E M) (errors : StorageErrorCode D E) (error : E) :
    StorageDownloadTask D E M :=
  match self.observer.base.state with
  | .pausing => { self with observer := self.observer.fire .paused }
  | .paused => { self with observer := self.observer.fire .paused }
  | _ => { self with observer := (self.observer.fire .progress).fail (errors.serverError error) }

def fetchEnded (self : StorageDownloadTask D E M) (errors : StorageErrorCode D E) (run : Nat)
    (keepsData : Bool) (result : DownloadResult D E) : StorageDownloadTask D E M :=
  let ended := { self with runs := self.runs.eraseIdx run }
  match result with
  | .data data =>
      { ended with
        observer := (ended.observer.fire .progress).succeed data
        downloadData := if keepsData then some data else ended.downloadData }
  | .error error => ended.fetchFailed errors error
  | .stopped => ended.fetchFailed errors errors.fetchCancelled

/-- Progress is told, and the task said to be running, unless it has finished. The total is not known
before there is a response. -/
def progressed (self : StorageDownloadTask D E M) (completed : Int) (total : Option Int) :
    StorageDownloadTask D E M :=
  let progress :=
    { completedUnitCount := completed, totalUnitCount := total.getD self.observer.base.progress.totalUnitCount }
  { self with observer := ((self.observer.setProgress progress).fire .progress).setState .running }

/-- The task is about to pause. The fetcher that it knows is stopped; there need not be one yet. -/
def pauseFetch (self : StorageDownloadTask D E M) : StorageDownloadTask D E M :=
  let pausing := { self with observer := self.observer.setState .pausing }
  match pausing.fetcher with
  | none => pausing
  | some fetcher =>
      { pausing with
        fetchers := pausing.fetchers.modify fetcher fun fetcher => { fetcher with resumeDataBlock := true }
      }.stopFetching fetcher

def pause (self : StorageDownloadTask D E M) : StorageDownloadTask D E M :=
  if self.observer.isFinished then self
  else
    match self.observer.base.state with
    | .paused => self
    | .pausing => self
    | _ => self.pauseFetch

/-- The fetcher has given the data to resume from. -/
def resumeData (self : StorageDownloadTask D E M) (data : D) : StorageDownloadTask D E M :=
  { self with downloadData := some data, observer := self.observer.fire .paused }

def resumeFetch (self : StorageDownloadTask D E M) : StorageDownloadTask D E M :=
  let resumed := { self with observer := (self.observer.setState .resuming).fire .running }
  resumed.enqueueImplementation resumed.downloadData true

def resume (self : StorageDownloadTask D E M) : StorageDownloadTask D E M :=
  match self.observer.base.state with
  | .paused => self.resumeFetch
  | .pausing => self.resumeFetch
  | _ => self

/-- The task is finished first, so that the stopped fetch can't report a failure instead. -/
def cancel (self : StorageDownloadTask D E M) (error : E) : StorageDownloadTask D E M :=
  let cancelled := { self with observer := self.observer.fire (.cancelled error) }
  match cancelled.fetcher with
  | none => cancelled
  | some fetcher => cancelled.stopFetching fetcher

/-- The steps of the storage actor that concern the task. -/
inductive Event (D E : Type)
  | enqueue
  | start
  | serviceReady (run : Nat)
  | fetchEnded (run : Nat) (result : DownloadResult D E)
  | progress (completed : Int) (total : Option Int)
  | resumeData (fetcher : Nat) (data : D)
  | observe
  | pause
  | resume
  | cancel (error : E)
  deriving DecidableEq

/-- A fetch says that it was stopped only if it was. -/
def canEnd (self : StorageDownloadTask D E M) (fetcher : Nat) : DownloadResult D E → Bool
  | .stopped => (self.fetchers[fetcher]?).any GTMSessionFetcher.isStopped
  | _ => true

/-- One step. Only a run that waits for it gets the service or the end of its fetch, only a fetcher makes
progress, and only one that was asked for it gives data to resume from. -/
def step (errors : StorageErrorCode D E) (self : StorageDownloadTask D E M) (event : Event D E) :
    Option (StorageDownloadTask D E M) :=
  match event with
  | .enqueue => some (self.enqueueImplementation none true)
  | .start => some (self.enqueueImplementation none false)
  | .serviceReady run =>
      match self.runs[run]? with
      | some (.awaitsService keepsData) => some (self.serviceReady run keepsData)
      | _ => none
  | .fetchEnded run result =>
      match self.runs[run]? with
      | some (.fetches fetcher keepsData) =>
          if self.canEnd fetcher result then some (self.fetchEnded errors run keepsData result) else none
      | _ => none
  | .progress completed total => if self.fetchers.isEmpty then none else some (self.progressed completed total)
  | .resumeData fetcher data =>
      if (self.fetchers[fetcher]?).any GTMSessionFetcher.resumeDataBlock then some (self.resumeData data) else none
  | .observe => some { self with observer := self.observer.observe }
  | .pause => some self.pause
  | .resume => some self.resume
  | .cancel error => some (self.cancel error)

end StorageDownloadTask

end FirebaseSwift.Storage
