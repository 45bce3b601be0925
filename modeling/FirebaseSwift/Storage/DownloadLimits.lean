import FirebaseSwift.Storage.PausedDownloads

/-! The size limit of a download, `getData`. The data is received off the storage actor, and every chunk of it
enqueues a job on the actor that records how much was received. The limit is checked against what was recorded, by
a task that observes the download and once more when the data is there. The data itself is never measured. -/

namespace FirebaseSwift.Storage

open StepRuns

/-- A response. The length of its content is -1 where it is not known. -/
structure HTTPURLResponse where
  statusCode : Int
  expectedContentLength : Int
  deriving DecidableEq

/-- How far the fetch of a download is -/
inductive DataRequest (E : Type)
  | idle
  | begins
  | requests
  | receives (receivedData : List UInt8)
  | ended (result : DownloadResult (List UInt8) E)
  deriving DecidableEq

/-- The fetch has not received a response. -/
def DataRequest.isUnanswered {E : Type} : DataRequest E → Bool
  | .idle => true
  | .begins => true
  | .requests => true
  | .receives _ => false
  | .ended _ => false

/-- How far a call of `getData` is -/
inductive GetDataCall (E : Type)
  | created
  | starts
  | started (data : List UInt8)
  | returned (data : List UInt8)
  | thrown (error : E)
  deriving DecidableEq

/-- What `getData` is called with: the limit, the errors, and whether there is a test block that answers in place
of the server -/
structure GetData (E : Type) where
  maxSize : Int
  errors : StorageErrorCode (List UInt8) E
  statusError : Int → List UInt8 → E
  downloadSizeExceeded : Int → Int → E
  testBlock : Bool := false

/-- A call of `getData`, with the response of its fetcher, the jobs that are still to run on the storage actor, and
how many snapshots the observing task has taken from its stream -/
structure SizedDownload (E M : Type) where
  task : StorageDownloadTask (List UInt8) E M := {}
  response : Option HTTPURLResponse := none
  request : DataRequest E := .idle
  call : GetDataCall E := .created
  progressJobs : List Nat := []
  cancelJobs : List E := []
  snapshotsTaken : Nat := 0

namespace SizedDownload

variable {E M : Type}

/-- What happens during a call, in any order: its own steps, those of the fetch, the jobs on the storage actor, and
the steps of the observing task -/
inductive Event (E : Type)
  | start
  | serviceReady
  | begin
  | respond (response : HTTPURLResponse)
  | testResponse (response : Option HTTPURLResponse) (result : FetchResult (List UInt8) E)
  | receive (chunk : List UInt8)
  | complete
  | fail (error : E)
  | recordProgress (total : Nat)
  | observe
  | takeSnapshot
  | cancel (error : E)
  | fetchEnded
  | check
  deriving DecidableEq

/-- An error where the size is exceeded -/
def checkSizeOverflow (call : GetData E) (progress : Progress) : Option E :=
  if call.maxSize < progress.totalUnitCount ∨ call.maxSize < progress.completedUnitCount then
    some (call.downloadSizeExceeded progress.totalUnitCount call.maxSize)
  else none

/-- `beginFetch` does not begin where the fetcher was stopped. -/
def beginRequest (self : SizedDownload E M) : SizedDownload E M :=
  { self with request := if self.task.isStopped 0 then .ended .stopped else .requests }

/-- The loop of `performDataRequest`. It gives up where the fetcher was stopped. -/
def receive (self : SizedDownload E M) (receivedData chunk : List UInt8) : SizedDownload E M :=
  if self.task.isStopped 0 then { self with request := .ended .stopped }
  else
    { self with
      request := .receives (receivedData ++ chunk)
      progressJobs := self.progressJobs ++ [(receivedData ++ chunk).length] }

/-- All data was received. -/
def complete (self : SizedDownload E M) (call : GetData E) (response : HTTPURLResponse) (receivedData : List UInt8) :
    SizedDownload E M :=
  if response.statusCode ≥ 400 then
    { self with request := .ended (.error (call.statusError response.statusCode receivedData)) }
  else { self with request := .ended (.data receivedData) }

/-- The test block has answered. -/
def testAnswered (self : SizedDownload E M) (response : Option HTTPURLResponse)
    (result : FetchResult (List UInt8) E) : SizedDownload E M :=
  match result with
  | .data data => { self with response, request := .ended (.data data) }
  | .error error => { self with response, request := .ended (.error error) }

/-- A job with progress -/
def recordProgress (self : SizedDownload E M) (total : Nat) : SizedDownload E M :=
  { self with
    task := self.task.progressed total (self.response.map HTTPURLResponse.expectedContentLength)
    progressJobs := self.progressJobs.erase total }

/-- The observing task reads the progress as it is now, not as it was when the snapshot was sent. -/
def takeSnapshot (self : SizedDownload E M) (call : GetData E) (snapshot : StorageTaskSnapshot (List UInt8) E M) :
    SizedDownload E M :=
  let taken := { self with snapshotsTaken := self.snapshotsTaken + 1 }
  match snapshot.status with
  | .progress =>
      { taken with cancelJobs := taken.cancelJobs ++ (checkSizeOverflow call self.task.observer.base.progress).toList }
  | _ => taken

/-- The error that is thrown after a failed fetch -/
def startError (self : SizedDownload E M) (call : GetData E) (error : E) : E :=
  if self.task.observer.base.state.isPausing then error else call.errors.serverError error

/-- The fetch has ended, and `start` returns or throws. -/
def fetchEnded (self : SizedDownload E M) (call : GetData E) (result : DownloadResult (List UInt8) E) :
    SizedDownload E M :=
  let ended := { self with task := self.task.fetchEnded call.errors 0 false result }
  match result with
  | .data data => { ended with call := .started data }
  | .error error => { ended with call := .thrown (self.startError call error) }
  | .stopped => { ended with call := .thrown (self.startError call call.errors.fetchCancelled) }

/-- The check after `start` -/
def check (self : SizedDownload E M) (call : GetData E) (data : List UInt8) : SizedDownload E M :=
  match checkSizeOverflow call self.task.observer.base.progress with
  | some error => { self with call := .thrown error }
  | none => { self with call := .returned data }

/-- One step. Jobs on the storage actor run in any order. -/
def step (call : GetData E) [DecidableEq E] (self : SizedDownload E M) (event : Event E) :
    Option (SizedDownload E M) :=
  match event with
  | .start =>
      match self.call with
      | .created => some { self with task := self.task.enqueueImplementation none false, call := .starts }
      | _ => none
  | .serviceReady =>
      match self.call, self.request with
      | .starts, .idle => some { self with task := self.task.serviceReady 0 false, request := .begins }
      | _, _ => none
  | .begin =>
      match self.request with
      | .begins => some self.beginRequest
      | _ => none
  | .respond response =>
      match self.request, call.testBlock with
      | .requests, false => some { self with response := some response, request := .receives [] }
      | _, _ => none
  | .testResponse response result =>
      match self.request, call.testBlock with
      | .requests, true => some (self.testAnswered response result)
      | _, _ => none
  | .receive chunk =>
      match self.request with
      | .receives receivedData => some (self.receive receivedData chunk)
      | _ => none
  | .complete =>
      match self.request, self.response with
      | .receives receivedData, some response => some (self.complete call response receivedData)
      | _, _ => none
  | .fail error =>
      match self.request with
      | .requests => some { self with request := .ended (.error error) }
      | .receives _ => some { self with request := .ended (.error error) }
      | _ => none
  | .recordProgress total => if total ∈ self.progressJobs then some (self.recordProgress total) else none
  | .observe =>
      if self.task.observer.streams.isEmpty then
        some { self with task := { self.task with observer := self.task.observer.observe } }
      else none
  | .takeSnapshot =>
      ((self.task.observer.streams[0]?).bind fun stream => stream.received[self.snapshotsTaken]?).map
        (self.takeSnapshot call)
  | .cancel error =>
      if error ∈ self.cancelJobs then
        some { self with task := self.task.cancel error, cancelJobs := self.cancelJobs.erase error }
      else none
  | .fetchEnded =>
      match self.call, self.request with
      | .starts, .ended result => some (self.fetchEnded call result)
      | _, _ => none
  | .check =>
      match self.call with
      | .started data => some (self.check call data)
      | _ => none

/-- What the call has returned is no longer than the limit. -/
def Within (call : GetData E) (self : SizedDownload E M) : Prop :=
  ∀ data, self.call = .returned data → data.length ≤ call.maxSize

/-! ### What happened so far -/

def Event.received : Event E → List UInt8
  | receive chunk => chunk
  | testResponse _ (.data data) => data
  | _ => []

def Event.response : Event E → Option HTTPURLResponse
  | respond response => some response
  | testResponse response _ => response
  | _ => none

def Event.total : Event E → Option Nat
  | recordProgress total => some total
  | _ => none

/-- All the data that came -/
def received (events : List (Event E)) : List UInt8 := events.flatMap Event.received

def responded (events : List (Event E)) : Option HTTPURLResponse := events.findSome? Event.response

/-- What the job that ran last has recorded: how much had come with its chunk, and how much the response
announced. Nothing is recorded before the first job. -/
def recorded (events : List (Event E)) : Progress :=
  match (events.filterMap Event.total).getLast? with
  | none => {}
  | some total =>
      { completedUnitCount := total
        totalUnitCount := ((responded events).map HTTPURLResponse.expectedContentLength).getD 0 }

/-- What was recorded is over the limit. -/
def Exceeds (maxSize : Int) (progress : Progress) : Prop :=
  maxSize < progress.totalUnitCount ∨ maxSize < progress.completedUnitCount

/-- The step neither brings data nor records any. -/
structure Event.Quiet (event : Event E) : Prop where
  received : event.received = []
  response : event.response = none
  total : event.total = none

variable (events : List (Event E))

theorem received_append (event : Event E) : received (events ++ [event]) = received events ++ event.received := by
  rw [received, List.flatMap_append, List.flatMap_singleton, received]

theorem responded_append (event : Event E) :
    responded (events ++ [event]) = (responded events).or event.response := by
  rw [responded, List.findSome?_append, List.findSome?_singleton, responded]

/-- The totals that were recorded -/
def totals (events : List (Event E)) : List Nat := events.filterMap Event.total

theorem totals_append (event : Event E) : totals (events ++ [event]) = totals events ++ event.total.toList := by
  rw [totals, List.filterMap_append, totals]
  cases htotal : event.total with
  | none => simp [htotal]
  | some total => simp [htotal]

theorem recorded_of_totals {events events' : List (Event E)} (htotals : totals events' = totals events)
    (hresponded : responded events' = responded events) : recorded events' = recorded events := by
  rw [totals, totals] at htotals
  rw [recorded, recorded, htotals, hresponded]

theorem recorded_of_unrecorded {events : List (Event E)} (h : totals events = []) : recorded events = {} := by
  rw [totals] at h
  rw [recorded, h]
  rfl

/-- The job that has just run is the last. -/
theorem recorded_recordProgress (total : Nat) : recorded (events ++ [.recordProgress total]) =
      { completedUnitCount := total
        totalUnitCount := ((responded events).map HTTPURLResponse.expectedContentLength).getD 0 } := by
  have hlast : ((events ++ [Event.recordProgress total]).filterMap Event.total).getLast? = some total := by
    rw [List.filterMap_append]
    exact List.getLast?_concat
  have hresponded : responded (events ++ [.recordProgress total]) = responded events := by
    rw [responded_append]
    exact Option.or_none
  rw [recorded, hlast, hresponded]

/-- The total stays where there is no response, and there it is zero. -/
theorem totalUnitCount_recorded :
    ((responded events).map HTTPURLResponse.expectedContentLength).getD (recorded events).totalUnitCount =
      ((responded events).map HTTPURLResponse.expectedContentLength).getD 0 := by
  cases hresponded : responded events with
  | some response => rfl
  | none =>
      rw [recorded, hresponded]
      cases (events.filterMap Event.total).getLast? <;> rfl

/-! ### The progress of the task -/

section Progress

variable {D : Type} {task : StorageDownloadTask D E M}
variable (observer : StorageObserver D E M)

theorem progress_setState (state : StorageTaskState D E) :
    (observer.setState state).base.progress = observer.base.progress := by
  rw [StorageObserver.setState]
  split <;> rfl

theorem progress_fire (state : StorageTaskState D E) :
    (observer.fire state).base.progress = observer.base.progress := by
  rw [StorageObserver.fire]
  split <;> rfl

theorem progress_fetchFailed (task : StorageDownloadTask D E M) (errors : StorageErrorCode D E) (error : E) :
    (task.fetchFailed errors error).observer.base.progress = task.observer.base.progress := by
  rw [StorageDownloadTask.fetchFailed]
  split
  · exact progress_fire _ _
  · exact progress_fire _ _
  · exact (progress_fire _ _).trans (progress_fire _ _)

theorem progress_fetchEnded (task : StorageDownloadTask D E M) (errors : StorageErrorCode D E) (run : Nat)
    (keepsData : Bool) (result : DownloadResult D E) :
    (task.fetchEnded errors run keepsData result).observer.base.progress = task.observer.base.progress := by
  cases result with
  | data data => exact (progress_fire _ _).trans (progress_fire _ _)
  | error error => exact progress_fetchFailed _ _ _
  | stopped => exact progress_fetchFailed _ _ _

theorem progress_cancel (task : StorageDownloadTask D E M) (error : E) :
    (task.cancel error).observer.base.progress = task.observer.base.progress := by
  rw [StorageDownloadTask.cancel]
  dsimp only
  split <;> exact progress_fire _ _

theorem progress_progressed (task : StorageDownloadTask D E M) (completed : Int) (total : Option Int) :
    (task.progressed completed total).observer.base.progress =
      { completedUnitCount := completed
        totalUnitCount := total.getD task.observer.base.progress.totalUnitCount } :=
  (progress_setState _ _).trans (progress_fire _ _)

end Progress

/-! ### The run so far and the state -/

/-- What has happened so far is what the state says: the data that came, the response and the progress. Data that
was returned passed the check against what was recorded by then. -/
structure Traced (call : GetData E) (before : List (Event E)) (state : SizedDownload E M) : Prop where
  response : state.response = responded before
  progress : state.task.observer.base.progress = recorded before
  unanswered : state.request.isUnanswered = true →
    received before = [] ∧ responded before = none ∧ totals before = [] ∧ state.progressJobs = []
  receives : ∀ data, state.request = .receives data → received before = data
  ended : ∀ data, state.request = .ended (.data data) → received before = data
  started : ∀ data, state.call = .started data → state.request = .ended (.data data)
  returned : ∀ data, state.call = .returned data → ∃ earlier, earlier ++ [.check] <+: before ∧
    data = received earlier ∧ ¬Exceeds call.maxSize (recorded earlier)

variable {call : GetData E} {before : List (Event E)} {event : Event E} {state state' : SizedDownload E M}
variable {data : List UInt8} {response : HTTPURLResponse}

theorem returned_append {maxSize : Int} (event : Event E)
    (h : ∃ earlier, earlier ++ [.check] <+: before ∧ data = received earlier ∧ ¬Exceeds maxSize (recorded earlier)) :
    ∃ earlier, earlier ++ [.check] <+: before ++ [event] ∧ data = received earlier ∧
      ¬Exceeds maxSize (recorded earlier) := by
  obtain ⟨earlier, hprefix, hdata⟩ := h
  exact ⟨earlier, hprefix.trans (List.prefix_append _ _), hdata⟩

/-- The call goes on with data only when the request has ended. -/
theorem Traced.not_started (h : Traced call before state) (hrequest : ∀ result, state.request ≠ .ended result)
    (data : List UInt8) : state.call ≠ .started data :=
  fun hdata => hrequest (.data data) (h.started data hdata)

/-- A quiet step that leaves the progress and the response as they are -/
theorem Traced.of_quiet (h : Traced call before state) (hquiet : event.Quiet)
    (hprogress : state'.task.observer.base.progress = state.task.observer.base.progress)
    (hresponse : state'.response = state.response) (hunanswered : state'.request.isUnanswered = true →
      state.request.isUnanswered = true ∧ state'.progressJobs = state.progressJobs)
    (hreceives : ∀ data, state'.request = .receives data → received before = data)
    (hended : ∀ data, state'.request = .ended (.data data) → received before = data)
    (hstarted : ∀ data, state'.call = .started data → state'.request = .ended (.data data))
    (hreturned : ∀ data, state'.call = .returned data → state.call = .returned data) :
    Traced call (before ++ [event]) state' := by
  have hreceived : received (before ++ [event]) = received before := by
    rw [received_append, hquiet.received, List.append_nil]
  have hresponded : responded (before ++ [event]) = responded before := by
    rw [responded_append, hquiet.response, Option.or_none]
  have htotals : totals (before ++ [event]) = totals before := by
    rw [totals_append, hquiet.total]
    exact List.append_nil _
  constructor
  · rw [hresponse, hresponded, h.response]
  · rw [hprogress, recorded_of_totals htotals hresponded, h.progress]
  · intro hwaits
    obtain ⟨hbefore, hjobs⟩ := hunanswered hwaits
    rw [hreceived, hresponded, htotals, hjobs]
    exact h.unanswered hbefore
  · rw [hreceived]
    exact hreceives
  · rw [hreceived]
    exact hended
  · exact hstarted
  · exact fun data hdata => returned_append event (h.returned data (hreturned data hdata))

/-- A quiet step that changes neither how far the fetch nor how far the call is -/
theorem Traced.of_same (h : Traced call before state) (hquiet : event.Quiet)
    (hprogress : state'.task.observer.base.progress = state.task.observer.base.progress)
    (hresponse : state'.response = state.response) (hjobs : state'.progressJobs = state.progressJobs)
    (hrequest : state'.request = state.request) (hcall : state'.call = state.call) :
    Traced call (before ++ [event]) state' := by
  refine h.of_quiet hquiet hprogress hresponse ?_ ?_ ?_ ?_ ?_
  · rw [hrequest]
    exact fun hwaits => ⟨hwaits, hjobs⟩
  · rw [hrequest]
    exact h.receives
  · rw [hrequest]
    exact h.ended
  · rw [hrequest, hcall]
    exact h.started
  · rw [hcall]
    exact fun _ => id

/-- A quiet step of the fetch. The call has not started with its data yet. -/
theorem Traced.of_fetch (h : Traced call before state) (hquiet : event.Quiet) {request : DataRequest E}
    (hfetch : ∀ result, state.request ≠ .ended result)
    (hunanswered : request.isUnanswered = true → state.request.isUnanswered = true)
    (hreceives : ∀ data, request ≠ .receives data)
    (hended : ∀ data, request = .ended (.data data) → received before = data) :
    Traced call (before ++ [event]) { state with request } := by
  refine h.of_quiet hquiet rfl rfl (fun hwaits => ⟨hunanswered hwaits, rfl⟩) ?_ hended ?_ fun _ => id
  · exact fun data hdata => absurd hdata (hreceives data)
  · exact fun data hdata => absurd (h.started data hdata) (hfetch _)

theorem Traced.beginRequest (h : Traced call before state) (hrequest : state.request = .begins) :
    Traced call (before ++ [.begin]) state.beginRequest := by
  have hfetch : ∀ result, state.request ≠ .ended result := by
    rw [hrequest]
    nofun
  refine h.of_fetch ⟨rfl, rfl, rfl⟩ hfetch ?_ ?_ ?_
  · rw [hrequest]
    exact fun _ => rfl
  · intro data hdata
    split at hdata <;> cases hdata
  · intro data hdata
    split at hdata <;> cases hdata

theorem Traced.complete (h : Traced call before state) {receivedData : List UInt8}
    (hrequest : state.request = .receives receivedData) :
    Traced call (before ++ [.complete]) (state.complete call response receivedData) := by
  have hfetch : ∀ result, state.request ≠ .ended result := by
    rw [hrequest]
    nofun
  rw [SizedDownload.complete]
  split
  · exact h.of_fetch ⟨rfl, rfl, rfl⟩ hfetch nofun nofun nofun
  · refine h.of_fetch ⟨rfl, rfl, rfl⟩ hfetch nofun nofun fun data hdata => ?_
    cases hdata
    exact h.receives receivedData hrequest

theorem Traced.respond (h : Traced call before state) (hrequest : state.request = .requests) :
    Traced call (before ++ [.respond response])
      { state with response := some response, request := .receives [] } := by
  obtain ⟨hreceived, hresponded, htotals, -⟩ := h.unanswered (hrequest ▸ rfl)
  have htotals' : totals (before ++ [.respond response]) = [] := by
    rw [totals_append, htotals]
    rfl
  constructor
  · rw [responded_append, hresponded]
    rfl
  · rw [recorded_of_unrecorded htotals']
    exact h.progress.trans (recorded_of_unrecorded htotals)
  · exact nofun
  · intro data hdata
    cases hdata
    rw [received_append, hreceived]
    rfl
  · exact nofun
  · exact fun data hdata => absurd hdata (h.not_started (hrequest ▸ nofun) data)
  · exact fun data hdata => returned_append _ (h.returned data hdata)

theorem Traced.testAnswered (h : Traced call before state) {response : Option HTTPURLResponse}
    {result : FetchResult (List UInt8) E} (hrequest : state.request = .requests) :
    Traced call (before ++ [.testResponse response result]) (state.testAnswered response result) := by
  obtain ⟨hreceived, hresponded, htotals, -⟩ := h.unanswered (hrequest ▸ rfl)
  have htotals' : totals (before ++ [.testResponse response result]) = [] := by
    rw [totals_append, htotals]
    rfl
  have hprogress : state.task.observer.base.progress = recorded (before ++ [.testResponse response result]) := by
    rw [recorded_of_unrecorded htotals']
    exact h.progress.trans (recorded_of_unrecorded htotals)
  have hresponse : response = responded (before ++ [.testResponse response result]) := by
    rw [responded_append, hresponded]
    cases result <;> rfl
  have hunstarted : ∀ data, state.call ≠ .started data := h.not_started (hrequest ▸ nofun)
  cases result with
  | data data =>
      refine ⟨hresponse, hprogress, nofun, nofun, fun data' hdata' => ?_, ?_, ?_⟩
      · cases hdata'
        rw [received_append, hreceived]
        rfl
      · exact fun data' hdata' => absurd hdata' (hunstarted data')
      · exact fun data' hdata' => returned_append _ (h.returned data' hdata')
  | error error =>
      refine ⟨hresponse, hprogress, nofun, nofun, nofun, ?_, ?_⟩
      · exact fun data' hdata' => absurd hdata' (hunstarted data')
      · exact fun data' hdata' => returned_append _ (h.returned data' hdata')

theorem Traced.receive (h : Traced call before state) {receivedData chunk : List UInt8}
    (hrequest : state.request = .receives receivedData) :
    Traced call (before ++ [.receive chunk]) (state.receive receivedData chunk) := by
  have hresponded : responded (before ++ [.receive chunk]) = responded before := by
    rw [responded_append]
    exact Option.or_none
  have htotals : totals (before ++ [.receive chunk]) = totals before := by
    rw [totals_append]
    exact List.append_nil _
  have hunstarted : ∀ data, state.call ≠ .started data := h.not_started (hrequest ▸ nofun)
  have hresponse : state.response = responded (before ++ [.receive chunk]) := h.response.trans hresponded.symm
  have hprogress : state.task.observer.base.progress = recorded (before ++ [.receive chunk]) :=
    h.progress.trans (recorded_of_totals htotals hresponded).symm
  rw [SizedDownload.receive]
  split
  · refine ⟨hresponse, hprogress, nofun, nofun, nofun, ?_, ?_⟩
    · exact fun data hdata => absurd hdata (hunstarted data)
    · exact fun data hdata => returned_append _ (h.returned data hdata)
  · refine ⟨hresponse, hprogress, nofun, fun data hdata => ?_, nofun, ?_, ?_⟩
    · cases hdata
      rw [received_append, h.receives receivedData hrequest]
      rfl
    · exact fun data hdata => absurd hdata (hunstarted data)
    · exact fun data hdata => returned_append _ (h.returned data hdata)

theorem Traced.recordProgress (h : Traced call before state) {total : Nat} (htotal : total ∈ state.progressJobs) :
    Traced call (before ++ [.recordProgress total]) (state.recordProgress total) := by
  have hreceived : received (before ++ [.recordProgress total]) = received before := by
    rw [received_append]
    exact List.append_nil _
  have hresponded : responded (before ++ [.recordProgress total]) = responded before := by
    rw [responded_append]
    exact Option.or_none
  constructor
  · exact h.response.trans hresponded.symm
  · rw [recorded_recordProgress, ← totalUnitCount_recorded, ← h.progress, ← h.response]
    exact progress_progressed _ _ _
  · intro hwaits
    -- There are no jobs before there is a response.
    obtain ⟨-, -, -, hjobs⟩ := h.unanswered hwaits
    rw [hjobs] at htotal
    cases htotal
  · rw [hreceived]
    exact h.receives
  · rw [hreceived]
    exact h.ended
  · exact h.started
  · exact fun data hdata => returned_append _ (h.returned data hdata)

theorem Traced.fetchEnded (h : Traced call before state) {result : DownloadResult (List UInt8) E}
    (hrequest : state.request = .ended result) :
    Traced call (before ++ [.fetchEnded]) (state.fetchEnded call result) := by
  have hquiet : (Event.fetchEnded : Event E).Quiet := ⟨rfl, rfl, rfl⟩
  have hprogress := progress_fetchEnded state.task call.errors 0 false result
  have hwaits : ¬state.request.isUnanswered = true := by
    rw [hrequest]
    exact nofun
  cases result with
  | data data =>
      refine h.of_quiet hquiet hprogress rfl (fun hw => absurd hw hwaits) h.receives h.ended ?_ nofun
      intro data' hdata'
      cases hdata'
      exact hrequest
  | error error => exact h.of_quiet hquiet hprogress rfl (fun hw => absurd hw hwaits) h.receives h.ended nofun nofun
  | stopped => exact h.of_quiet hquiet hprogress rfl (fun hw => absurd hw hwaits) h.receives h.ended nofun nofun

theorem checkSizeOverflow_eq_none {progress : Progress} (h : checkSizeOverflow call progress = none) :
    ¬Exceeds call.maxSize progress := by
  rw [checkSizeOverflow] at h
  split at h
  · cases h
  · assumption

theorem Traced.check (h : Traced call before state) (hcall : state.call = .started data) :
    Traced call (before ++ [.check]) (state.check call data) := by
  have hquiet : (Event.check : Event E).Quiet := ⟨rfl, rfl, rfl⟩
  have hreceived := h.ended data (h.started data hcall)
  rw [SizedDownload.check]
  split
  · exact h.of_quiet hquiet rfl rfl (fun hwaits => ⟨hwaits, rfl⟩) h.receives h.ended nofun nofun
  · rename_i hpassed
    -- Without the outcome the step is a quiet one.
    have hthrown : Traced call (before ++ [.check]) { state with call := .created } :=
      h.of_quiet hquiet rfl rfl (fun hwaits => ⟨hwaits, rfl⟩) h.receives h.ended nofun nofun
    refine ⟨hthrown.response, hthrown.progress, hthrown.unanswered, hthrown.receives, hthrown.ended, nofun, ?_⟩
    intro data' hdata'
    cases hdata'
    refine ⟨before, List.prefix_refl _, hreceived.symm, ?_⟩
    rw [← h.progress]
    exact checkSizeOverflow_eq_none hpassed

theorem Traced.takeSnapshot (h : Traced call before state) (snapshot : StorageTaskSnapshot (List UInt8) E M) :
    Traced call (before ++ [.takeSnapshot]) (state.takeSnapshot call snapshot) := by
  rw [SizedDownload.takeSnapshot]
  dsimp only
  split
  · exact h.of_same ⟨rfl, rfl, rfl⟩ rfl rfl rfl rfl rfl
  · exact h.of_same ⟨rfl, rfl, rfl⟩ rfl rfl rfl rfl rfl

theorem Traced.step [DecidableEq E] (h : Traced call before state) (hstep : step call state event = some state') :
    Traced call (before ++ [event]) state' := by
  cases event with
  | start =>
      simp only [SizedDownload.step] at hstep
      split at hstep <;> cases hstep
      exact h.of_quiet ⟨rfl, rfl, rfl⟩ (progress_setState _ _) rfl (fun hwaits => ⟨hwaits, rfl⟩) h.receives h.ended
        nofun nofun
  | serviceReady =>
      simp only [SizedDownload.step] at hstep
      split at hstep <;> cases hstep
      rename_i hcall hrequest
      refine h.of_quiet ⟨rfl, rfl, rfl⟩ (progress_setState _ _) rfl ?_ nofun nofun ?_ fun _ => id
      · rw [hrequest]
        exact fun _ => ⟨rfl, rfl⟩
      · dsimp only
        rw [hcall]
        exact nofun
  | begin =>
      simp only [SizedDownload.step] at hstep
      split at hstep <;> cases hstep
      rename_i hrequest
      exact h.beginRequest hrequest
  | respond response =>
      simp only [SizedDownload.step] at hstep
      split at hstep <;> cases hstep
      rename_i hrequest _
      exact h.respond hrequest
  | testResponse response result =>
      simp only [SizedDownload.step] at hstep
      split at hstep <;> cases hstep
      rename_i hrequest _
      exact h.testAnswered hrequest
  | receive chunk =>
      simp only [SizedDownload.step] at hstep
      split at hstep <;> cases hstep
      rename_i hrequest
      exact h.receive hrequest
  | complete =>
      simp only [SizedDownload.step] at hstep
      split at hstep <;> cases hstep
      rename_i hrequest _
      exact h.complete hrequest
  | fail error =>
      simp only [SizedDownload.step] at hstep
      split at hstep <;> cases hstep
      all_goals
        rename_i hrequest
        refine h.of_fetch ⟨rfl, rfl, rfl⟩ ?_ nofun nofun nofun
        rw [hrequest]
        exact nofun
  | recordProgress total =>
      simp only [SizedDownload.step] at hstep
      split at hstep <;> cases hstep
      rename_i htotal
      exact h.recordProgress htotal
  | observe =>
      simp only [SizedDownload.step] at hstep
      split at hstep <;> cases hstep
      exact h.of_same ⟨rfl, rfl, rfl⟩ rfl rfl rfl rfl rfl
  | takeSnapshot =>
      obtain ⟨snapshot, -, rfl⟩ := Option.map_eq_some_iff.mp hstep
      exact h.takeSnapshot snapshot
  | cancel error =>
      simp only [SizedDownload.step] at hstep
      split at hstep <;> cases hstep
      exact h.of_same ⟨rfl, rfl, rfl⟩ (progress_cancel _ _) rfl rfl rfl rfl
  | fetchEnded =>
      simp only [SizedDownload.step] at hstep
      split at hstep <;> cases hstep
      rename_i hrequest
      exact h.fetchEnded hrequest
  | check =>
      simp only [SizedDownload.step] at hstep
      split at hstep <;> cases hstep
      rename_i hcall
      exact h.check hcall

theorem traced_run [DecidableEq E] {events : List (Event E)}
    (hrun : run (step call) ({} : SizedDownload E M) events = some state) : Traced call events state := by
  have hstart : Traced call [] ({} : SizedDownload E M) :=
    ⟨rfl, rfl, fun _ => ⟨rfl, rfl, rfl, rfl⟩, nofun, nofun, nofun, nofun⟩
  exact history_run (fun _ _ _ h _ hstep => h.step hstep) hstart hrun

/-! ### What is returned -/

/-- In all states of a run what is returned is within the limit exactly if at each check no more has come than the
limit, or what the job that ran last has recorded is over it. -/
theorem within_run_iff [DecidableEq E] (call : GetData E) {events : List (Event E)}
    (hrun : (run (step call) ({} : SizedDownload E M) events).isSome = true) :
    (∀ before, before <+: events → ∀ state ∈ run (step call) ({} : SizedDownload E M) before, Within call state) ↔
      ∀ before, before ++ [.check] <+: events →
        (received before).length ≤ call.maxSize ∨ Exceeds call.maxSize (recorded before) := by
  constructor
  · intro hwithin before hprefix
    by_contra hnot
    rw [not_or] at hnot
    obtain ⟨final, hfinal⟩ := Option.isSome_iff_exists.mp hrun
    obtain ⟨rest, rfl⟩ := hprefix
    obtain ⟨checked, hchecked, -⟩ := run_append.mp hfinal
    obtain ⟨state, hstate, hcheck⟩ := run_append.mp hchecked
    have htraced := traced_run hstate
    obtain ⟨next, hnext, hsame⟩ := Option.bind_eq_some_iff.mp hcheck
    cases hsame
    simp only [step] at hnext
    split at hnext <;> cases hnext
    rename_i data hcall
    have hpassed : checkSizeOverflow call state.task.observer.base.progress = none := by
      rw [htraced.progress, checkSizeOverflow]
      exact if_neg hnot.2
    have hreturned : (state.check call data).call = .returned data := by
      rw [check, hpassed]
    have hdata := hwithin _ (List.prefix_append _ _) _ hchecked data hreturned
    rw [← htraced.ended data (htraced.started data hcall)] at hdata
    exact hnot.1 hdata
  · intro hchecks before hprefix state hstate data hdata
    obtain ⟨earlier, hearlier, rfl, hpassed⟩ := (traced_run hstate).returned data hdata
    exact (hchecks earlier (hearlier.trans hprefix)).resolve_right hpassed

/-- A download of three bytes at most, with errors that say nothing -/
def threeBytes : GetData Unit where
  maxSize := 3
  errors := ⟨fun _ => (), fun _ => (), (), ()⟩
  statusError := fun _ _ => ()
  downloadSizeExceeded := fun _ _ => ()

/-- Two chunks come, and the length of the content is not known. -/
def twoChunks (first second : List UInt8) : List (Event Unit) :=
  [.start, .serviceReady, .begin, .respond { statusCode := 200, expectedContentLength := -1 }, .receive first,
    .recordProgress first.length, .receive second, .complete, .fetchEnded]

theorem within_run_iff_twoChunks :
    (run (step threeBytes) ({} : SizedDownload Unit Unit) (twoChunks [1] [2, 3] ++ [.check])).isSome = true ∧
      ∀ before, before <+: twoChunks [1] [2, 3] ++ [.check] →
        ∀ state ∈ run (step threeBytes) ({} : SizedDownload Unit Unit) before, Within threeBytes state := by
  refine ⟨by decide, (within_run_iff threeBytes (by decide)).mpr ?_⟩
  intro before hprefix
  obtain ⟨rest, hrest⟩ := hprefix
  rcases rest.eq_nil_or_concat with rfl | ⟨init, last, rfl⟩
  · rw [List.append_nil] at hrest
    rw [List.append_inj_left' hrest rfl]
    exact Or.inl (by decide)
  · -- There is no check before the last.
    rw [List.concat_eq_append, ← List.append_assoc] at hrest
    have hinit : Event.check ∈ twoChunks [1] [2, 3] := by
      rw [← List.append_inj_left' hrest rfl]
      exact List.mem_append_left _ (List.mem_append_right _ (List.mem_singleton_self _))
    exact absurd hinit (by decide)

/-- Five bytes are returned, where the job of the last chunk has not run when they are checked. -/
theorem within_fails :
    ¬∀ events, ∀ state ∈ run (step threeBytes) ({} : SizedDownload Unit Unit) events, Within threeBytes state := by
  intro hall
  have hdata := hall (twoChunks [1, 2] [3, 4, 5] ++ [.check]) _ rfl _ rfl
  revert hdata
  decide

end SizedDownload

end FirebaseSwift.Storage
