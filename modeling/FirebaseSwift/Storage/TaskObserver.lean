import Mathlib.Data.List.Basic

/-! The state of a storage task and those who observe it. Each observer has a stream of its own, which gets
snapshots of the task until one of them says how the task ended. Observers in the dictionary of handlers
are those whose stream is marked as handled. -/

namespace FirebaseSwift.Storage

/-- The states of an upload or a download. -/
inductive StorageTaskState (T E : Type)
  | queueing
  | resuming
  | running
  | progress
  | pausing
  | paused
  | cancelled (error : E)
  | success (result : T)
  | failed (error : E)
  deriving DecidableEq

inductive StorageTaskStatus (T E : Type)
  | resume
  | progress
  | pause
  | success (result : T)
  | failure (error : E)
  deriving DecidableEq

variable {T E M : Type}

namespace StorageTaskState

def status : StorageTaskState T E → StorageTaskStatus T E
  | queueing => .resume
  | running => .resume
  | resuming => .resume
  | progress => .progress
  | paused => .pause
  | pausing => .pause
  | success result => .success result
  | cancelled error => .failure error
  | failed error => .failure error

/-- The task succeeded, failed or was cancelled. -/
def isFinished : StorageTaskState T E → Bool
  | success _ => true
  | failed _ => true
  | cancelled _ => true
  | _ => false

end StorageTaskState

/-- The task has ended with this status. -/
def StorageTaskStatus.isTerminal : StorageTaskStatus T E → Bool
  | .failure _ => true
  | .success _ => true
  | _ => false

theorem StorageTaskState.isTerminal_status (state : StorageTaskState T E) :
    state.status.isTerminal = state.isFinished := by
  cases state <;> rfl

structure Progress where
  completedUnitCount : Int := 0
  totalUnitCount : Int := 0
  deriving DecidableEq

structure StorageTaskSnapshot (T E M : Type) where
  status : StorageTaskStatus T E
  progress : Progress
  metadata : Option M
  deriving DecidableEq

structure StorageBase (T E M : Type) where
  state : StorageTaskState T E := .queueing
  metadata : Option M := none
  progress : Progress := {}

def StorageBase.snapshot (self : StorageBase T E M) : StorageTaskSnapshot T E M where
  status := self.state.status
  progress := self.progress
  metadata := self.metadata

/-! ### Streams -/

/-- How a stream was finished. -/
inductive StreamEnd (E : Type)
  | finished
  | failed (error : E)
  deriving DecidableEq

/-- The stream of an observer, with what it received so far. -/
structure StorageStream (T E M : Type) where
  received : List (StorageTaskSnapshot T E M) := []
  ended : Option (StreamEnd E) := none
  handled : Bool := false

namespace StorageStream

/-- A stream that was finished takes no more values. -/
def yield (self : StorageStream T E M) (snapshot : StorageTaskSnapshot T E M) : StorageStream T E M :=
  if self.ended.isSome then self else { self with received := self.received ++ [snapshot] }

def finish (self : StorageStream T E M) (streamEnd : StreamEnd E) : StorageStream T E M :=
  if self.ended.isSome then self else { self with ended := some streamEnd }

def send (self : StorageStream T E M) (snapshot : StorageTaskSnapshot T E M) : StorageStream T E M :=
  match snapshot.status with
  | .failure error => (self.yield snapshot).finish (.failed error)
  | .success _ => (self.yield snapshot).finish .finished
  | .pause => self.yield snapshot
  | .progress => self.yield snapshot
  | .resume => self.yield snapshot

end StorageStream

/-! ### The observer -/

structure StorageObserver (T E M : Type) where
  base : StorageBase T E M := {}
  streams : List (StorageStream T E M) := []

namespace StorageObserver

/-- The task succeeded, failed or was cancelled. Its state can't change after that. -/
def isFinished (self : StorageObserver T E M) : Bool := self.base.state.isFinished

/-- A new observer gets the current state, and is kept unless the task has finished. -/
def observe (self : StorageObserver T E M) : StorageObserver T E M :=
  { self with
    streams := self.streams ++ [{ StorageStream.send {} self.base.snapshot with handled := !self.isFinished }] }

/-- Change the state without telling the observers, unless the task has finished. -/
def setState (self : StorageObserver T E M) (state : StorageTaskState T E) : StorageObserver T E M :=
  if self.isFinished then self else { self with base := { self.base with state } }

/-- Tell the observers. They are removed once they know how the task ended. -/
def fireSnapshot (self : StorageObserver T E M) (snapshot : StorageTaskSnapshot T E M) :
    StorageObserver T E M :=
  { self with
    streams := self.streams.map fun stream =>
      let told := if stream.handled then stream.send snapshot else stream
      if snapshot.status.isTerminal then { told with handled := false } else told }

/-- A finished task stays finished. -/
def fire (self : StorageObserver T E M) (state : StorageTaskState T E) : StorageObserver T E M :=
  if self.isFinished then self
  else fireSnapshot { self with base := { self.base with state } } { self.base with state }.snapshot

def succeed (self : StorageObserver T E M) (result : T) : StorageObserver T E M := self.fire (.success result)

def fail (self : StorageObserver T E M) (error : E) : StorageObserver T E M := self.fire (.failed error)

def setMetadata (self : StorageObserver T E M) (metadata : M) : StorageObserver T E M :=
  { self with base := { self.base with metadata := some metadata } }

def setProgress (self : StorageObserver T E M) (progress : Progress) : StorageObserver T E M :=
  { self with base := { self.base with progress } }

end StorageObserver

end FirebaseSwift.Storage
