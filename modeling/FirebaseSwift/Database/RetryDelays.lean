import FirebaseSwift.Database.IntegerKeys
import FirebaseSwift.Database.PersistentConnection
import Mathlib.Data.Rat.Floor
import Mathlib.Tactic.Linarith

/-! The delays of `FIRRetryHelper`, with rational seconds and draws. Each retry puts a task to sleep, and the
task runs its block when it wakes, unless it was cancelled. The delay is cut to whole seconds before it is
turned into nanoseconds: a wait is as long as it should be exactly if there is a whole second between the
shortest delay and the one that is drawn. -/

namespace FirebaseSwift.Database

namespace RetryDelays

/-- Seconds are rational. -/
structure Settings where
  minRetryDelayAfterFailure : ℚ
  maxRetryDelay : ℚ
  retryExponent : ℚ
  jitterFactor : ℚ
  min_pos : 0 < minRetryDelayAfterFailure
  min_le_max : minRetryDelayAfterFailure ≤ maxRetryDelay
  one_le_exponent : 1 ≤ retryExponent
  jitter_nonneg : 0 ≤ jitterFactor
  jitter_lt_one : jitterFactor < 1

/-- What `FUtilities.randomDouble` returns. -/
structure RandomDouble where
  value : ℚ
  nonneg : 0 ≤ value
  lt_one : value < 1

/-- A block, and the `Task` that sleeps before it, for a delay in nanoseconds. -/
structure FIRRetryHelperTask (β : Type) where
  block : Option β
  delay : ℤ
  sleeping : Bool := true

structure FIRRetryHelper (β : Type) where
  lastWasSuccess : Bool := true
  currentRetryDelay : ℚ := 0
  scheduledRetry : Option Nat := none
  tasks : List (FIRRetryHelperTask β) := []

variable {β : Type}

def FIRRetryHelperTask.cancel (task : FIRRetryHelperTask β) : FIRRetryHelperTask β :=
  { task with block := none }

def FIRRetryHelperTask.awake (task : FIRRetryHelperTask β) : FIRRetryHelperTask β :=
  { task with sleeping := false }

/-- The block that runs when the task wakes. -/
def FIRRetryHelperTask.blockLeft (task : FIRRetryHelperTask β) : Option β :=
  if task.sleeping then task.block else none

variable (task : FIRRetryHelperTask β)

theorem FIRRetryHelperTask.blockLeft_cancel : task.cancel.blockLeft = none :=
  ite_self none

theorem FIRRetryHelperTask.blockLeft_awake : task.awake.blockLeft = none := rfl

/-! ### Delays -/

/-- `Int(_:)` of a fraction -/
def truncated (seconds : ℚ) : ℤ := seconds.num.tdiv seconds.den

/-- `.nanoseconds(Int(seconds) * 1_000_000_000)` -/
def nanoseconds (seconds : ℚ) : Except Trap ℤ := do
  let whole ← checkedInt64 (truncated seconds)
  checkedInt64 (whole * 1000000000)

def Settings.nextRetryDelay (settings : Settings) (currentRetryDelay : ℚ) : ℚ :=
  if currentRetryDelay = 0 then settings.minRetryDelayAfterFailure
  else min (currentRetryDelay * settings.retryExponent) settings.maxRetryDelay

def Settings.jittered (settings : Settings) (delay : ℚ) (random : RandomDouble) : ℚ :=
  (1 - settings.jitterFactor) * delay + settings.jitterFactor * delay * random.value

namespace FIRRetryHelper

/-- What `retry` and `cancel` do first. -/
def cancelScheduled (self : FIRRetryHelper β) : FIRRetryHelper β :=
  match self.scheduledRetry with
  | some task => { self with scheduledRetry := none, tasks := self.tasks.modify task .cancel }
  | none => self

def schedule (self : FIRRetryHelper β) (block : β) (delay : ℤ) : FIRRetryHelper β :=
  { self with
    lastWasSuccess := false
    scheduledRetry := some self.tasks.length
    tasks := self.tasks ++ [{ block := some block, delay }] }

def retry (settings : Settings) (self : FIRRetryHelper β) (block : β) (random : RandomDouble) :
    Except Trap (FIRRetryHelper β) :=
  let self := self.cancelScheduled
  if self.lastWasSuccess then .ok (self.schedule block 0)
  else do
    let currentRetryDelay := settings.nextRetryDelay self.currentRetryDelay
    let delay ← nanoseconds (settings.jittered currentRetryDelay random)
    .ok ({ self with currentRetryDelay }.schedule block delay)

def cancel (self : FIRRetryHelper β) : FIRRetryHelper β :=
  { self.cancelScheduled with currentRetryDelay := 0 }

def signalSuccess (self : FIRRetryHelper β) : FIRRetryHelper β :=
  { self with lastWasSuccess := true, currentRetryDelay := 0 }

def executed (self : FIRRetryHelper β) (task : Nat) : Option β := (self.tasks[task]?).bind FIRRetryHelperTask.blockLeft

/-- The sleep of a task is over. -/
def wake (self : FIRRetryHelper β) (task : Nat) : FIRRetryHelper β :=
  { self with
    scheduledRetry := if (self.executed task).isSome then none else self.scheduledRetry
    tasks := self.tasks.modify task .awake }

end FIRRetryHelper

inductive Event (β : Type)
  | retry (block : β) (random : RandomDouble)
  | cancel
  | signalSuccess
  | wake (task : Nat)

/-- There is no state after a trap. -/
def step (settings : Settings) (self : FIRRetryHelper β) : Event β → Option (FIRRetryHelper β)
  | .retry block random => (self.retry settings block random).toOption
  | .cancel => some self.cancel
  | .signalSuccess => some self.signalSuccess
  | .wake task => some (self.wake task)

namespace FIRRetryHelper

variable (self : FIRRetryHelper β) {settings : Settings} {block : β} {random : RandomDouble}

@[simp] theorem cancelScheduled_lastWasSuccess : self.cancelScheduled.lastWasSuccess = self.lastWasSuccess := by
  unfold cancelScheduled
  split <;> rfl

@[simp] theorem cancelScheduled_currentRetryDelay :
    self.cancelScheduled.currentRetryDelay = self.currentRetryDelay := by
  unfold cancelScheduled
  split <;> rfl

@[simp] theorem cancelScheduled_length : self.cancelScheduled.tasks.length = self.tasks.length := by
  unfold cancelScheduled
  split
  · exact List.length_modify _ _ _
  · rfl

theorem retry_of_lastWasSuccess {self : FIRRetryHelper β} (h : self.lastWasSuccess = true) :
    self.retry settings block random = .ok (self.cancelScheduled.schedule block 0) :=
  if_pos (self.cancelScheduled_lastWasSuccess.trans h)

/-- A retry after a failure schedules the block, unless the delay traps. -/
theorem retry_of_failure {self : FIRRetryHelper β} (h : self.lastWasSuccess = false) :
    self.retry settings block random =
      (nanoseconds (settings.jittered (settings.nextRetryDelay self.currentRetryDelay) random)).map fun delay =>
        { self.cancelScheduled with
          currentRetryDelay := settings.nextRetryDelay self.currentRetryDelay }.schedule block delay := by
  unfold retry
  dsimp only
  rw [self.cancelScheduled_lastWasSuccess, self.cancelScheduled_currentRetryDelay, h, if_neg Bool.false_ne_true]
  cases nanoseconds (settings.jittered (settings.nextRetryDelay self.currentRetryDelay) random) <;> rfl

/-! ### The model without delays -/

def schedules (self : FIRRetryHelper β) : Database.FIRRetryHelper β where
  scheduledRetry := self.scheduledRetry
  tasks := self.tasks.map FIRRetryHelperTask.blockLeft

theorem map_modify_eq_set {α γ : Type} (f : α → γ) (g : α → α) {c : γ} (h : ∀ a, f (g a) = c) (list : List α)
    (i : Nat) : (list.modify i g).map f = (list.map f).set i c := by
  induction list generalizing i with
  | nil =>
      rw [List.modify_nil]
      rfl
  | cons a list ih =>
      cases i with
      | zero => exact congrArg (· :: list.map f) (h a)
      | succ i => exact congrArg (f a :: ·) (ih i)

theorem schedules_cancel : self.cancelScheduled.schedules = self.schedules.cancel := by
  unfold cancelScheduled schedules Database.FIRRetryHelper.cancel
  cases hscheduled : self.scheduledRetry with
  | none => simp only [hscheduled]
  | some task => simp only [map_modify_eq_set _ _ FIRRetryHelperTask.blockLeft_cancel]

theorem schedules_schedule (block : β) (delay : ℤ) :
    (self.schedule block delay).schedules.tasks = self.schedules.tasks ++ [some block] := by
  unfold schedules schedule
  rw [List.map_append]
  rfl

theorem schedules_retry {self next : FIRRetryHelper β} (h : self.retry settings block random = .ok next) :
    next.schedules = self.schedules.retry block := by
  have hscheduled : ∀ state : FIRRetryHelper β, ∀ delay, state.tasks = self.cancelScheduled.tasks →
      (state.schedule block delay).schedules = self.schedules.retry block := by
    intro state delay htasks
    have htasks' : state.schedules.tasks = self.cancelScheduled.schedules.tasks := by
      unfold schedules
      rw [htasks]
    rw [Database.FIRRetryHelper.retry, ← schedules_cancel, Database.FIRRetryHelper.mk.injEq]
    refine ⟨?_, (schedules_schedule state block delay).trans (by rw [htasks'])⟩
    rw [← htasks', schedules, schedules, List.length_map]
    rfl
  cases hsuccess : self.lastWasSuccess with
  | true =>
      rw [retry_of_lastWasSuccess hsuccess] at h
      cases h
      exact hscheduled _ 0 rfl
  | false =>
      rw [retry_of_failure hsuccess] at h
      cases hdelay : nanoseconds (settings.jittered (settings.nextRetryDelay self.currentRetryDelay) random) with
      | error trap =>
          rw [hdelay] at h
          cases h
      | ok delay =>
          rw [hdelay] at h
          cases h
          exact hscheduled _ delay rfl

theorem schedules_wake {self : FIRRetryHelper β} {task : Nat} (h : self.executed task = some block) :
    self.schedules.wake task = some (block, (self.wake task).schedules) := by
  have hfound : ((self.tasks.map FIRRetryHelperTask.blockLeft)[task]?).join = some block := by
    rw [List.getElem?_map, ← h, executed]
    cases self.tasks[task]? <;> rfl
  unfold Database.FIRRetryHelper.wake schedules wake
  rw [h, hfound]
  simp only [map_modify_eq_set _ _ FIRRetryHelperTask.blockLeft_awake]
  rfl

end FIRRetryHelper

end RetryDelays

end FirebaseSwift.Database
