import FirebaseSwift.Database.RetryDelays
import FirebaseSwift.Library.StepRuns
import Mathlib.Data.List.Induction
import Mathlib.Tactic.NormNum

/-! Runs of `FIRRetryHelper`. What a run did so far determines which retry is the first, after how many
failures a retry comes, and which block waits. At most one block waits, and it runs at most once, before
another is scheduled. A retry waits as long as it should exactly if there is a whole second from the shortest
delay to the one that is drawn, and no delay overflows. -/

namespace FirebaseSwift.Database

namespace RetryDelays

variable {β : Type}

/-! ### What a run did -/

/-- There was no retry since the start or the last success. The newest event comes first. -/
def isFirst : List (Event β) → Bool
  | [] => true
  | .retry .. :: _ => false
  | .signalSuccess :: _ => true
  | _ :: earlier => isFirst earlier

/-- The retries since the last success or cancel that are not the first. The newest event comes first. -/
def failures : List (Event β) → Nat
  | [] => 0
  | .retry .. :: earlier => if isFirst earlier then failures earlier else failures earlier + 1
  | .cancel :: _ => 0
  | .signalSuccess :: _ => 0
  | .wake _ :: earlier => failures earlier

/-- The longest wait of a retry after some failures. -/
def Settings.delayAfter (settings : Settings) : Nat → ℚ
  | 0 => settings.minRetryDelayAfterFailure
  | failures + 1 => min (settings.retryExponent * settings.delayAfter failures) settings.maxRetryDelay

def Event.isRetry : Event β → Bool
  | .retry .. => true
  | _ => false

def retryCount (history : List (Event β)) : Nat := history.countP Event.isRetry

/-- An event that neither schedules or cancels nor wakes the task. -/
def Event.Leaves (task : Nat) : Event β → Prop
  | .retry .. => False
  | .cancel => False
  | .signalSuccess => True
  | .wake other => other ≠ task

/-- The block was scheduled by the last retry, and since then there was no cancel and the task did not wake.
The tasks are numbered by the retries. -/
def IsWaiting (history : List (Event β)) (task : Nat) (block : β) : Prop :=
  ∃ earlier random between, history = earlier ++ .retry block random :: between ∧
    retryCount earlier = task ∧ ∀ event ∈ between, event.Leaves task

/-- A delay in nanoseconds that is between the shortest and the longest, to the nanosecond. -/
def Settings.Waits (settings : Settings) (longest : ℚ) (delay : ℤ) : Prop :=
  (1 - settings.jitterFactor) * longest * 1000000000 - 1 < delay ∧ (delay : ℚ) ≤ longest * 1000000000

/-- There is a whole second from the shortest delay, to the nanosecond, to the one that is drawn, and that
fits in 64 bits as nanoseconds. -/
def Settings.ReachesSecond (settings : Settings) (longest : ℚ) (random : RandomDouble) : Prop :=
  (∃ second : ℤ, (1 - settings.jitterFactor) * longest - 1 / 1000000000 < second ∧
    (second : ℚ) ≤ settings.jittered longest random) ∧ settings.jittered longest random < 9223372037

/-! ### One delay -/

theorem Settings.delayAfter_pos (settings : Settings) (failures : Nat) : 0 < settings.delayAfter failures := by
  induction failures with
  | zero => exact settings.min_pos
  | succ failures ih =>
      refine lt_min ?_ (settings.min_pos.trans_le settings.min_le_max)
      exact mul_pos (one_pos.trans_le settings.one_le_exponent) ih

theorem truncated_eq_floor {seconds : ℚ} (h : 0 ≤ seconds) : truncated seconds = ⌊seconds⌋ := by
  rw [truncated, Int.tdiv_eq_ediv_of_nonneg (Rat.num_nonneg.mpr h), Rat.floor_def']

theorem checkedInt64_eq_ok_iff {value result : ℤ} :
    checkedInt64 value = .ok result ↔ (-2 ^ 63 ≤ value ∧ value < 2 ^ 63) ∧ result = value := by
  unfold checkedInt64
  split_ifs with h
  · rw [Except.ok.injEq]
    exact ⟨fun heq => ⟨h, heq.symm⟩, fun heq => heq.2.symm⟩
  · exact iff_of_false nofun fun heq => h heq.1

/-- The whole seconds, if there are not too many. -/
theorem nanoseconds_eq_ok_iff {seconds : ℚ} (h : 0 ≤ seconds) {delay : ℤ} :
    nanoseconds seconds = .ok delay ↔ seconds < 9223372037 ∧ delay = ⌊seconds⌋ * 1000000000 := by
  have hfloor : (0 : ℤ) ≤ ⌊seconds⌋ := Int.floor_nonneg.mpr h
  have hbound : seconds < 9223372037 ↔ ⌊seconds⌋ < 9223372037 := by
    rw [Int.floor_lt]
    norm_num
  rw [nanoseconds, truncated_eq_floor h, hbound]
  constructor
  · intro hok
    cases hwhole : checkedInt64 ⌊seconds⌋ with
    | error trap =>
        rw [hwhole] at hok
        cases hok
    | ok whole =>
        rw [hwhole] at hok
        obtain ⟨-, rfl⟩ := checkedInt64_eq_ok_iff.mp hwhole
        obtain ⟨hrange, rfl⟩ := checkedInt64_eq_ok_iff.mp hok
        exact ⟨by omega, rfl⟩
  · rintro ⟨hlt, rfl⟩
    rw [checkedInt64_eq (by omega) (by omega), ok_bind]
    exact checkedInt64_eq (by omega) (by omega)

variable {longest : ℚ}

theorem Settings.jittered_nonneg (settings : Settings) (hlongest : 0 < longest) (random : RandomDouble) :
    0 ≤ settings.jittered longest random := by
  have hshortest : 0 ≤ (1 - settings.jitterFactor) * longest :=
    mul_nonneg (sub_nonneg.mpr settings.jitter_lt_one.le) hlongest.le
  exact add_nonneg hshortest (mul_nonneg (mul_nonneg settings.jitter_nonneg hlongest.le) random.nonneg)

theorem Settings.jittered_le (settings : Settings) (hlongest : 0 < longest) (random : RandomDouble) :
    settings.jittered longest random ≤ longest := by
  have hdrawn : settings.jitterFactor * longest * random.value ≤ settings.jitterFactor * longest :=
    mul_le_of_le_one_right (mul_nonneg settings.jitter_nonneg hlongest.le) random.lt_one.le
  calc settings.jittered longest random
      = (1 - settings.jitterFactor) * longest + settings.jitterFactor * longest * random.value := rfl
    _ ≤ (1 - settings.jitterFactor) * longest + settings.jitterFactor * longest :=
        add_le_add_right hdrawn _
    _ = longest := by ring

/-- The delay of a retry is long enough exactly if it reaches a whole second. -/
theorem Settings.exists_waits_iff (settings : Settings) (hlongest : 0 < longest) (random : RandomDouble) :
    (∃ delay, nanoseconds (settings.jittered longest random) = .ok delay ∧ settings.Waits longest delay) ↔
      settings.ReachesSecond longest random := by
  have hnonneg := settings.jittered_nonneg hlongest random
  have hle := settings.jittered_le hlongest random
  have hfloor := Int.floor_le (settings.jittered longest random)
  constructor
  · rintro ⟨delay, hdelay, hlower, -⟩
    obtain ⟨hbound, rfl⟩ := (nanoseconds_eq_ok_iff hnonneg).mp hdelay
    refine ⟨⟨⌊settings.jittered longest random⌋, ?_, hfloor⟩, hbound⟩
    push_cast at hlower
    linarith
  · rintro ⟨⟨second, hlower, hupper⟩, hbound⟩
    refine ⟨_, (nanoseconds_eq_ok_iff hnonneg).mpr ⟨hbound, rfl⟩, ?_, ?_⟩
    · have hsecond : (second : ℚ) ≤ ⌊settings.jittered longest random⌋ :=
        Int.cast_le.mpr (Int.le_floor.mpr hupper)
      push_cast
      linarith
    · push_cast
      linarith

/-! ### What waits -/

namespace FIRRetryHelper

theorem executed_modify {self : FIRRetryHelper β} {tasks : List (FIRRetryHelperTask β)}
    {change : FIRRetryHelperTask β → FIRRetryHelperTask β} {task : Nat}
    (htasks : self.tasks = tasks.modify task change) (hchange : ∀ task, (change task).blockLeft = none)
    {other : Nat} : self.executed other = if task = other then none
      else (tasks[other]?).bind FIRRetryHelperTask.blockLeft := by
  rw [executed, htasks, List.getElem?_modify]
  split_ifs with hsame
  · cases tasks[other]? with
    | none => rfl
    | some found => exact hchange found
  · cases tasks[other]? <;> rfl

theorem executed_wake (self : FIRRetryHelper β) (task other : Nat) :
    (self.wake task).executed other = if task = other then none else self.executed other :=
  executed_modify rfl FIRRetryHelperTask.blockLeft_awake

/-- Where only the scheduled task waits, none does after a cancel. -/
theorem executed_cancelScheduled {self : FIRRetryHelper β}
    (h : ∀ task block, self.executed task = some block → self.scheduledRetry = some task) (other : Nat) :
    self.cancelScheduled.executed other = none := by
  cases hother : self.executed other with
  | none =>
      unfold cancelScheduled
      split
      · rename_i task hscheduled
        rw [@executed_modify _ _ self.tasks _ task rfl FIRRetryHelperTask.blockLeft_cancel]
        split_ifs
        · rfl
        · exact hother
      · exact hother
  | some block =>
      have hscheduled := h other block hother
      unfold cancelScheduled
      rw [hscheduled]
      dsimp only
      rw [executed_modify rfl FIRRetryHelperTask.blockLeft_cancel, if_pos rfl]

theorem getElem?_schedule (self : FIRRetryHelper β) (block : β) (delay : ℤ) :
    (self.schedule block delay).tasks[self.tasks.length]? = some { block := some block, delay } :=
  List.getElem?_concat_length

theorem executed_schedule {self : FIRRetryHelper β} (h : ∀ other, self.executed other = none) (block : β)
    (delay : ℤ) (task : Nat) :
    (self.schedule block delay).executed task = if task = self.tasks.length then some block else none := by
  unfold executed schedule
  dsimp only
  split_ifs with hlast
  · rw [hlast, List.getElem?_concat_length]
    rfl
  · rcases Nat.lt_or_gt_of_ne hlast with hlt | hgt
    · rw [List.getElem?_append_left hlt]
      exact h task
    · rw [List.getElem?_eq_none (by rw [List.length_append, List.length_singleton]; omega)]
      rfl

end FIRRetryHelper

theorem IsWaiting.append {history : List (Event β)} {task : Nat} {block : β} (h : IsWaiting history task block)
    {event : Event β} (hleaves : event.Leaves task) : IsWaiting (history ++ [event]) task block := by
  obtain ⟨earlier, random, between, rfl, hcount, hbetween⟩ := h
  refine ⟨earlier, random, between ++ [event], List.append_assoc _ _ _, hcount, fun other hother => ?_⟩
  rcases List.mem_append.mp hother with hbefore | hlast
  · exact hbetween other hbefore
  · rw [List.mem_singleton.mp hlast]
    exact hleaves

/-! ### What the state says about the run -/

/-- The delay that is kept after some failures. -/
def Settings.keptDelay (settings : Settings) : Nat → ℚ
  | 0 => 0
  | failures + 1 => settings.delayAfter failures

theorem Settings.nextRetryDelay_keptDelay (settings : Settings) (failures : Nat) :
    settings.nextRetryDelay (settings.keptDelay failures) = settings.delayAfter failures := by
  cases failures with
  | zero => exact if_pos rfl
  | succ failures =>
      rw [nextRetryDelay, keptDelay, if_neg (settings.delayAfter_pos failures).ne', mul_comm]
      rfl

structure Follows (settings : Settings) (history : List (Event β)) (helper : FIRRetryHelper β) : Prop where
  length_eq : helper.tasks.length = retryCount history
  lastWasSuccess_eq : helper.lastWasSuccess = isFirst history.reverse
  currentRetryDelay_eq : helper.currentRetryDelay = settings.keptDelay (failures history.reverse)
  scheduled : ∀ task block, helper.executed task = some block → helper.scheduledRetry = some task
  waiting : ∀ task block, helper.executed task = some block → IsWaiting history task block

theorem follows_initial (settings : Settings) : Follows (β := β) settings [] {} :=
  ⟨rfl, rfl, rfl, nofun, nofun⟩

namespace Follows

variable {settings : Settings} {history : List (Event β)} {self : FIRRetryHelper β}

theorem schedule (h : Follows settings history self) (block : β) (random : RandomDouble) (delay : ℤ)
    {currentRetryDelay : ℚ}
    (hdelay : currentRetryDelay = settings.keptDelay (failures (.retry block random :: history.reverse))) :
    Follows settings (history ++ [.retry block random])
      ({ self.cancelScheduled with currentRetryDelay }.schedule block delay) := by
  have hnone := FIRRetryHelper.executed_cancelScheduled h.scheduled
  have hexecuted := @FIRRetryHelper.executed_schedule _ { self.cancelScheduled with currentRetryDelay } hnone
    block delay
  have hlast : ∀ task block', ({ self.cancelScheduled with currentRetryDelay }.schedule block delay).executed
      task = some block' → task = self.tasks.length ∧ block = block' := by
    intro task block' htask
    rw [hexecuted task] at htask
    split_ifs at htask with hlength
    exact ⟨hlength.trans self.cancelScheduled_length, Option.some.inj htask⟩
  refine ⟨?_, ?_, ?_, fun task block' htask => ?_, fun task block' htask => ?_⟩
  · rw [retryCount, List.countP_append, ← retryCount, ← h.length_eq, FIRRetryHelper.schedule,
      List.length_append, List.length_singleton, self.cancelScheduled_length]
    rfl
  · rw [List.reverse_append]
    rfl
  · rw [List.reverse_append]
    exact hdelay
  · rw [(hlast task block' htask).1, ← self.cancelScheduled_length]
    rfl
  · obtain ⟨hlength, rfl⟩ := hlast task block' htask
    exact ⟨history, random, [], rfl, by rw [hlength, h.length_eq], nofun⟩

theorem cancel (h : Follows settings history self) : Follows settings (history ++ [.cancel]) self.cancel := by
  have hnone := FIRRetryHelper.executed_cancelScheduled h.scheduled
  have hcancelled : ∀ task, self.cancel.executed task = none := hnone
  refine ⟨?_, ?_, ?_, fun task block htask => ?_, fun task block htask => ?_⟩
  · rw [retryCount, List.countP_append, ← retryCount, ← h.length_eq]
    exact self.cancelScheduled_length
  · rw [List.reverse_append]
    exact self.cancelScheduled_lastWasSuccess.trans h.lastWasSuccess_eq
  · rw [List.reverse_append]
    rfl
  · rw [hcancelled task] at htask
    cases htask
  · rw [hcancelled task] at htask
    cases htask

theorem signalSuccess (h : Follows settings history self) :
    Follows settings (history ++ [.signalSuccess]) self.signalSuccess := by
  refine ⟨?_, ?_, ?_, h.scheduled, fun task block htask => (h.waiting task block htask).append trivial⟩
  · rw [retryCount, List.countP_append, ← retryCount, ← h.length_eq]
    rfl
  · rw [List.reverse_append]
    rfl
  · rw [List.reverse_append]
    rfl

theorem wake (h : Follows settings history self) (task : Nat) :
    Follows settings (history ++ [.wake task]) (self.wake task) := by
  have hother : ∀ other block, (self.wake task).executed other = some block →
      task ≠ other ∧ self.executed other = some block := by
    intro other block hexecuted
    rw [self.executed_wake] at hexecuted
    split_ifs at hexecuted with hsame
    exact ⟨hsame, hexecuted⟩
  refine ⟨?_, ?_, ?_, fun other block hexecuted => ?_, fun other block hexecuted => ?_⟩
  · rw [retryCount, List.countP_append, ← retryCount, ← h.length_eq]
    exact List.length_modify _ _ _
  · rw [List.reverse_append]
    exact h.lastWasSuccess_eq
  · rw [List.reverse_append]
    exact h.currentRetryDelay_eq
  · obtain ⟨hdistinct, hwaits⟩ := hother other block hexecuted
    have hscheduled := h.scheduled other block hwaits
    have hnone : (self.executed task).isSome = false := by
      cases htask : self.executed task with
      | none => rfl
      | some block' =>
          rw [h.scheduled task block' htask] at hscheduled
          exact absurd (Option.some.inj hscheduled) hdistinct
    rw [FIRRetryHelper.wake, hnone]
    exact hscheduled
  · obtain ⟨hdistinct, hwaits⟩ := hother other block hexecuted
    exact (h.waiting other block hwaits).append hdistinct

end Follows

/-- A retry after a failure, where the delay does not trap. -/
theorem Follows.retry_of_failure {settings : Settings} {history : List (Event β)} {self : FIRRetryHelper β}
    (h : Follows settings history self) (hfailure : isFirst history.reverse = false) (block : β)
    (random : RandomDouble) : self.retry settings block random =
      (nanoseconds (settings.jittered (settings.delayAfter (failures history.reverse)) random)).map fun delay =>
        { self.cancelScheduled with
          currentRetryDelay := settings.delayAfter (failures history.reverse) }.schedule block delay := by
  rw [FIRRetryHelper.retry_of_failure (h.lastWasSuccess_eq.trans hfailure), h.currentRetryDelay_eq,
    settings.nextRetryDelay_keptDelay]

theorem Follows.step {settings : Settings} (history : List (Event β)) (self : FIRRetryHelper β)
    (event : Event β) (h : Follows settings history self) :
    ∀ next ∈ step settings self event, Follows settings (history ++ [event]) next := by
  intro next hnext
  cases event with
  | retry block random =>
      cases hfirst : isFirst history.reverse with
      | true =>
          rw [Option.mem_def, RetryDelays.step,
            FIRRetryHelper.retry_of_lastWasSuccess (h.lastWasSuccess_eq.trans hfirst)] at hnext
          cases hnext
          have hdelay : self.cancelScheduled.currentRetryDelay =
              settings.keptDelay (failures (.retry block random :: history.reverse)) := by
            rw [self.cancelScheduled_currentRetryDelay, h.currentRetryDelay_eq, failures, if_pos hfirst]
          exact h.schedule block random 0 hdelay
      | false =>
          rw [Option.mem_def, RetryDelays.step, h.retry_of_failure hfirst] at hnext
          cases hdelay : nanoseconds (settings.jittered
              (settings.delayAfter (failures history.reverse)) random) with
          | error trap =>
              rw [hdelay] at hnext
              cases hnext
          | ok delay =>
              rw [hdelay] at hnext
              cases hnext
              refine h.schedule block random delay ?_
              rw [failures, hfirst, if_neg Bool.false_ne_true]
              rfl
  | cancel =>
      cases hnext
      exact h.cancel
  | signalSuccess =>
      cases hnext
      exact h.signalSuccess
  | wake task =>
      cases hnext
      exact h.wake task

theorem follows_run {settings : Settings} {history : List (Event β)} {self : FIRRetryHelper β}
    (hrun : StepRuns.run (step settings) {} history = some self) : Follows settings history self :=
  StepRuns.history_run Follows.step (follows_initial settings) hrun

/-! ### Runs -/

/-- At most one block waits, and a block that waits is the last that was scheduled and has not run. -/
structure Orderly (history : List (Event β)) (helper : FIRRetryHelper β) : Prop where
  one : ∀ task block task' block', helper.executed task = some block →
    helper.executed task' = some block' → task = task'
  waiting : ∀ task block, helper.executed task = some block → IsWaiting history task block

/-- A retry schedules its block, with a delay for the number of failures. -/
def RetriesInTime (settings : Settings) (history : List (Event β)) (self : FIRRetryHelper β) (block : β)
    (random : RandomDouble) : Prop :=
  ∃ next task, self.retry settings block random = .ok next ∧
    next.tasks[retryCount history]? = some task ∧ task.block = some block ∧
      settings.Waits (settings.delayAfter (failures history.reverse)) task.delay

theorem Follows.orderly {settings : Settings} {history : List (Event β)} {self : FIRRetryHelper β}
    (h : Follows settings history self) : Orderly history self where
  one task block task' block' htask htask' := by
    have hscheduled := h.scheduled task block htask
    rw [h.scheduled task' block' htask'] at hscheduled
    exact (Option.some.inj hscheduled).symm
  waiting := h.waiting

theorem Follows.retriesInTime_iff {settings : Settings} {history : List (Event β)} {self : FIRRetryHelper β}
    (h : Follows settings history self) (hfailure : isFirst history.reverse = false) (block : β)
    (random : RandomDouble) : RetriesInTime settings history self block random ↔
      settings.ReachesSecond (settings.delayAfter (failures history.reverse)) random := by
  have hlength : self.cancelScheduled.tasks.length = retryCount history :=
    self.cancelScheduled_length.trans h.length_eq
  rw [RetriesInTime, h.retry_of_failure hfailure, ← settings.exists_waits_iff (settings.delayAfter_pos _)]
  cases hdelay : nanoseconds (settings.jittered (settings.delayAfter (failures history.reverse)) random) with
  | error trap =>
      refine iff_of_false ?_ ?_
      · rintro ⟨next, task, hnext, -⟩
        cases hnext
      · rintro ⟨delay, hok, -⟩
        cases hok
  | ok delay =>
      constructor
      · rintro ⟨next, task, hnext, htask, -, hwaits⟩
        cases hnext
        rw [← hlength] at htask
        cases (FIRRetryHelper.getElem?_schedule _ block delay).symm.trans htask
        exact ⟨delay, rfl, hwaits⟩
      · rintro ⟨delay', hok, hwaits⟩
        cases hok
        refine ⟨_, { block := some block, delay }, rfl, ?_, rfl, hwaits⟩
        rw [← hlength]
        exact FIRRetryHelper.getElem?_schedule _ block delay

/-- A run does not trap up to a retry that is not in time. -/
theorem isSome_run {settings : Settings} {events : List (Event β)}
    (h : ∀ before block random, before ++ [.retry block random] <+: events → isFirst before.reverse = false →
      ∀ self ∈ StepRuns.run (step settings) {} before, RetriesInTime settings before self block random)
    {before : List (Event β)} (hbefore : before <+: events) :
    ∃ self, StepRuns.run (step settings) {} before = some self := by
  induction before using List.reverseRecOn with
  | nil => exact ⟨{}, rfl⟩
  | append_singleton before event ih =>
      obtain ⟨self, hself⟩ := ih ((List.prefix_append _ _).trans hbefore)
      have hfollows := follows_run hself
      have hstep : ∃ next, step settings self event = some next := by
        cases event with
        | retry block random =>
            cases hfirst : isFirst before.reverse with
            | true =>
                refine ⟨self.cancelScheduled.schedule block 0, ?_⟩
                rw [step, FIRRetryHelper.retry_of_lastWasSuccess (hfollows.lastWasSuccess_eq.trans hfirst)]
                rfl
            | false =>
                obtain ⟨next, task, hnext, -⟩ := h before block random hbefore hfirst self hself
                refine ⟨next, ?_⟩
                rw [step, hnext]
                rfl
        | cancel => exact ⟨_, rfl⟩
        | signalSuccess => exact ⟨_, rfl⟩
        | wake task => exact ⟨_, rfl⟩
      obtain ⟨next, hnext⟩ := hstep
      refine ⟨next, StepRuns.run_append.mpr ⟨self, hself, ?_⟩⟩
      rw [StepRuns.run, hnext]
      rfl

/-- In every run the blocks wait and run in order, and the retries that are not the first are in time exactly
if each of their delays reaches a whole second. -/
theorem backs_off_iff (settings : Settings) (events : List (Event β)) :
    ((∀ before, before <+: events → ∀ self ∈ StepRuns.run (step settings) {} before, Orderly before self) ∧
      ∀ before block random, before ++ [.retry block random] <+: events → isFirst before.reverse = false →
        ∀ self ∈ StepRuns.run (step settings) {} before, RetriesInTime settings before self block random) ↔
    ∀ before block random, before ++ [.retry block random] <+: events → isFirst before.reverse = false →
      settings.ReachesSecond (settings.delayAfter (failures before.reverse)) random := by
  constructor
  · rintro ⟨-, hretries⟩ before block random hevents hfailure
    obtain ⟨self, hself⟩ := isSome_run hretries ((List.prefix_append _ _).trans hevents)
    exact ((follows_run hself).retriesInTime_iff hfailure block random).mp
      (hretries before block random hevents hfailure self hself)
  · refine fun hseconds => ⟨fun before _ self hself => (follows_run hself).orderly, ?_⟩
    intro before block random hevents hfailure self hself
    exact ((follows_run hself).retriesInTime_iff hfailure block random).mpr
      (hseconds before block random hevents hfailure)

/-- The settings of the persistent connection. -/
def reconnectSettings : Settings where
  minRetryDelayAfterFailure := 1
  maxRetryDelay := 30
  retryExponent := 13 / 10
  jitterFactor := 7 / 10
  min_pos := by norm_num
  min_le_max := by norm_num
  one_le_exponent := by norm_num
  jitter_nonneg := by norm_num
  jitter_lt_one := by norm_num

/-- The second retry of a connection, with a draw of one half, is at once. -/
theorem retry_at_once : ∃ (settings : Settings) (random : RandomDouble) (self : FIRRetryHelper Unit),
    StepRuns.run (step settings) {} [.retry () random] = some self ∧
      ¬RetriesInTime settings [.retry () random] self () random := by
  let random : RandomDouble := ⟨1 / 2, by norm_num, by norm_num⟩
  refine ⟨reconnectSettings, random, FIRRetryHelper.schedule {} () 0, rfl, ?_⟩
  have hfollows : Follows reconnectSettings [.retry () random] (FIRRetryHelper.schedule {} () 0) :=
    follows_run rfl
  rw [hfollows.retriesInTime_iff rfl]
  rintro ⟨⟨second, hlower, hupper⟩, -⟩
  have hpos : (0 : ℚ) < second := by
    refine lt_trans ?_ hlower
    norm_num [reconnectSettings, Settings.delayAfter, failures, isFirst]
  have hlt : (second : ℚ) < 1 := by
    refine lt_of_le_of_lt hupper ?_
    norm_num [reconnectSettings, Settings.delayAfter, Settings.jittered, failures, isFirst, random]
  have hone : (1 : ℤ) ≤ second := Int.cast_pos.mp hpos
  exact absurd hlt (not_lt.mpr (by exact_mod_cast hone))

end RetryDelays

end FirebaseSwift.Database
