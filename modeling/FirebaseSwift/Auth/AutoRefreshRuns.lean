import FirebaseSwift.Auth.AutoRefresh
import Mathlib.Algebra.Order.Ring.Int
import Mathlib.Tactic.IntervalCases

/-! Runs of the automatic refresh. A refresh should only have an effect on the user it was scheduled for. A
failed one should schedule one retry, and a successful one only the refresh of the new token. All of this
holds exactly in the runs in which no refresh ends while its user is current: the failure has no retry, and
the success has one. -/

namespace FirebaseSwift.Auth

theorem AuthTokenLifetime.boundedRefreshDelay_before {now expirationDate : Int}
    (hinRange : isInRange now expirationDate = true) :
    now + boundedRefreshDelay (max (expirationDate - now - 5 * 60) 0) =
      max (expirationDate - 5 * 60) now := by
  have hrange : expirationDate - now ≤ 24 * 60 * 60 := of_decide_eq_true hinRange
  unfold boundedRefreshDelay maximum
  rcases le_total (expirationDate - now - 5 * 60) 0 with hpast | hahead
  · have hnow : expirationDate - 5 * 60 ≤ now := by omega
    rw [max_eq_right hpast, if_pos (by decide), max_self, add_zero, max_eq_right hnow]
  · have hmax : expirationDate - now - 5 * 60 ≤ 24 * 60 * 60 := by omega
    have hnow : now ≤ expirationDate - 5 * 60 := by omega
    rw [max_eq_left hahead, if_pos hmax, max_eq_left hahead, max_eq_left hnow]
    omega

namespace AutoRefresh

open StepRuns

variable {self : AutoRefresh}

/-! ### What is scheduled -/

/-- The task is for the current token, five minutes before it expires or now. -/
def IsNextRefresh (self : AutoRefresh) (task : AutoRefreshTask) : Prop :=
  task.retry = false ∧ self.rawAccessToken = some task.accessToken ∧
    ∀ data expirationDate, self.currentData = some data →
      data.tokenService.accessTokenExpirationDate = some expirationDate →
      AuthTokenLifetime.isInRange self.now expirationDate = true →
        task.wakesAt = max (expirationDate - 5 * 60) self.now

/-- Nothing is scheduled but a refresh of the current token. -/
def SchedulesNext (self self' : AutoRefresh) : Prop :=
  self'.tasks = self.tasks ∨ ∃ task, self'.tasks = self.tasks ++ [task] ∧ self'.IsNextRefresh task

theorem tasks_scheduleWithDelay (delay : Int) (retry : Bool) :
    (self.scheduleWithDelay delay retry).tasks = self.tasks ++ self.newTasks delay retry := by
  unfold scheduleWithDelay newTasks
  cases self.currentData with
  | none => exact (List.append_nil _).symm
  | some data => rfl

theorem currentData_scheduleWithDelay (delay : Int) (retry : Bool) :
    (self.scheduleWithDelay delay retry).currentData = self.currentData := by
  unfold scheduleWithDelay
  split <;> rfl

variable {delay : Int} {retry : Bool} (user : UserRef) {self' : AutoRefresh} {task : AutoRefreshTask}
variable {attempt : AutoRefreshAttempt} {event : AutoRefreshEvent}

theorem newTasks_eq_nil_iff : self.newTasks delay retry = [] ↔ self.currentData = none := by
  unfold newTasks
  cases self.currentData with
  | none => exact iff_of_true rfl rfl
  | some data => exact iff_of_false nofun nofun

theorem schedulesNext_scheduleAutoTokenRefresh : SchedulesNext self self.scheduleAutoTokenRefresh := by
  unfold scheduleAutoTokenRefresh
  cases hdata : self.currentData with
  | none =>
      left
      rw [tasks_scheduleWithDelay, newTasks_eq_nil_iff.mpr hdata, List.append_nil]
  | some data =>
      right
      have htasks : self.newTasks self.refreshDelay false =
          [⟨data.tokenService.accessToken, AuthTokenLifetime.boundedRefreshDelay self.refreshDelay, false,
            self.now + AuthTokenLifetime.boundedRefreshDelay self.refreshDelay, data.uid⟩] := by
        rw [newTasks, hdata]
      refine ⟨_, by rw [tasks_scheduleWithDelay, htasks], rfl, ?_, ?_⟩
      · rw [rawAccessToken, currentData_scheduleWithDelay, hdata]
        rfl
      · intro data' expirationDate hdata' hexpiration hrange
        rw [currentData_scheduleWithDelay, hdata, Option.some.injEq] at hdata'
        subst hdata'
        have hnow : (self.scheduleWithDelay self.refreshDelay false).now = self.now := by
          unfold scheduleWithDelay
          split <;> rfl
        rw [hnow] at hrange ⊢
        have hdelay : self.refreshDelay = max (expirationDate - self.now - 5 * 60) 0 := by
          rw [refreshDelay, hdata, Option.bind_some, hexpiration]
          rfl
        show self.now + AuthTokenLifetime.boundedRefreshDelay self.refreshDelay = _
        rw [hdelay]
        exact AuthTokenLifetime.boundedRefreshDelay_before hrange

theorem schedulesNext_post : SchedulesNext self self.possiblyPostAuthStateChangeNotification := by
  unfold possiblyPostAuthStateChangeNotification
  dsimp only
  split_ifs
  · exact Or.inl rfl
  · exact @schedulesNext_scheduleAutoTokenRefresh { self with lastNotifiedUserToken := self.rawAccessToken }
  · exact Or.inl rfl

/-! ### What the end of a token request schedules -/

theorem tasks_post_of_none (hdata : self.currentData = none) :
    self.possiblyPostAuthStateChangeNotification.tasks = self.tasks := by
  unfold possiblyPostAuthStateChangeNotification
  dsimp only
  split_ifs
  · rfl
  · rw [scheduleAutoTokenRefresh, tasks_scheduleWithDelay]
    exact List.append_right_eq_self.mpr (newTasks_eq_nil_iff.mpr hdata)
  · rfl

theorem tasks_signOutByForce (userID : String) : (self.signOutByForce userID).tasks = self.tasks := by
  unfold signOutByForce
  split_ifs with huid
  · -- the user is current, and no user is afterwards
    have hcurrent : ¬(none : Option UserRef).bind self.auth.data = self.currentData := by
      intro hnone
      rw [currentUid, ← hnone] at huid
      cases huid
    have hnone : ((self.auth.updateCurrentUser none true true).2).currentUser = none := by
      unfold AuthState.updateCurrentUser
      have hmismatch : self.auth.isTenantMismatch none = false := rfl
      rw [hmismatch, if_neg Bool.false_ne_true]
      split <;> rfl
    unfold updateCurrentUser
    dsimp only
    rw [if_neg hcurrent]
    split_ifs
    · refine tasks_post_of_none ?_
      simp only [currentData, hnone, Option.bind_none]
    · rfl
  · rfl

variable (error : AuthErrorCode) (result : Except AuthErrorCode Bool)

theorem tasks_signOutIfTokenIsInvalid : (self.signOutIfTokenIsInvalid user error).tasks = self.tasks := by
  unfold signOutIfTokenIsInvalid
  split_ifs
  · split
    · exact tasks_signOutByForce _
    · rfl
  · rfl

theorem schedulesNext_userUpdateKeychain {user : UserRef} {result : Except AuthErrorCode Unit}
    (h : self.userUpdateKeychain user = (result, self')) :
    (result = .ok () → SchedulesNext self self') ∧ (∀ error, result = .error error → self'.tasks = self.tasks) := by
  unfold userUpdateKeychain updateKeychain at h
  split_ifs at h
  · split at h
    · rename_i auth _
      cases h
      exact ⟨fun _ => @schedulesNext_post { self with auth := auth }, nofun⟩
    · cases h
      exact ⟨nofun, fun _ _ => rfl⟩
  · cases h
    exact ⟨fun _ => Or.inl rfl, nofun⟩
  · cases h
    exact ⟨fun _ => Or.inl rfl, nofun⟩

theorem schedulesNext_endGetToken : SchedulesNext self (self.endGetToken user result).2 := by
  unfold endGetToken
  cases result with
  | error error => exact Or.inl (tasks_signOutIfTokenIsInvalid user error)
  | ok tokenUpdated =>
      cases tokenUpdated with
      | false => exact Or.inl rfl
      | true =>
          dsimp only
          split
          · rename_i self' hupdate
            exact (schedulesNext_userUpdateKeychain hupdate).1 rfl
          · rename_i error self' hupdate
            left
            rw [tasks_signOutIfTokenIsInvalid]
            exact (schedulesNext_userUpdateKeychain hupdate).2 error rfl

/-! ### The claimed effects -/

/-- One retry after a failure, if the user is still current. -/
def claimedRetries (self : AutoRefresh) (attempt : AutoRefreshAttempt) (returned : Bool) :
    List AutoRefreshTask :=
  if returned = false ∧ self.currentUid = some attempt.uid then self.newTasks (rescheduleDelay attempt) true
  else []

/-- The attempt when its token request has ended, and whether it has returned. -/
def ended (self : AutoRefresh) (index : Nat) (attempt : AutoRefreshAttempt)
    (result : Except AuthErrorCode Bool) : Bool × AutoRefresh :=
  { self with attempts := self.attempts.eraseIdx index }.endGetToken attempt.user result

/-- A refresh for a user who is not current has no effect. One that ends schedules the refresh of the new
token, and a retry only if it has failed. -/
def AsClaimed (self : AutoRefresh) (event : AutoRefreshEvent) (self' : AutoRefresh) : Prop :=
  match event with
  | .wake index => ∀ task ∈ self.tasks[index]?, self.currentUid ≠ some task.uid →
      self'.tasks = self.tasks.eraseIdx index ∧ self'.attempts = self.attempts
  | .endRefresh index result => ∀ attempt ∈ self.attempts[index]?,
      let ended := self.ended index attempt result
      SchedulesNext self ended.2 ∧ self'.tasks = ended.2.tasks ++ ended.2.claimedRetries attempt ended.1
  | _ => True

/-- No refresh wakes for a user whose token another one has, none returns while there is a current user,
and none fails whose user stays current. -/
def AvoidsRetries (self : AutoRefresh) (event : AutoRefreshEvent) : Prop :=
  match event with
  | .wake index => ∀ task ∈ self.tasks[index]?, self.currentUid = some task.uid ∨
      self.rawAccessToken ≠ some task.accessToken ∨ self.isAppInBackground = true
  | .endRefresh index result => ∀ attempt ∈ self.attempts[index]?,
      let ended := self.ended index attempt result
      if ended.1 then
        ended.2.currentData = none ∨ (ended.2.auth.data attempt.user).map UserData.uid ≠ some attempt.uid
      else ended.2.currentUid ≠ some attempt.uid
  | _ => True

instance (self : AutoRefresh) (event : AutoRefreshEvent) : Decidable (self.AvoidsRetries event) := by
  cases event <;> unfold AvoidsRetries <;> dsimp only <;> infer_instance

theorem asClaimed_wake_iff {rest : List AutoRefreshTask} :
    (self.currentUid ≠ some task.uid → ({ self with tasks := rest }.wake task).tasks = rest ∧
        ({ self with tasks := rest }.wake task).attempts = self.attempts) ↔
      (self.currentUid = some task.uid ∨ self.rawAccessToken ≠ some task.accessToken ∨
        self.isAppInBackground = true) := by
  have hdata : { self with tasks := rest }.currentData = self.currentData := rfl
  unfold wake
  rw [hdata]
  rcases Option.eq_none_or_eq_some self.currentData with hnone | ⟨data, hsome⟩
  · have htoken : self.rawAccessToken ≠ some task.accessToken := by
      rw [rawAccessToken, hnone]
      nofun
    refine iff_of_true (fun _ => ?_) (Or.inr (Or.inl htoken))
    rw [hnone]
    cases self.auth.currentUser <;> exact ⟨rfl, rfl⟩
  obtain ⟨user, huser, -⟩ := Option.bind_eq_some_iff.mp hsome
  have htoken : self.rawAccessToken = some data.tokenService.accessToken := by
    rw [rawAccessToken, hsome]
    rfl
  rw [hsome, huser, htoken, ne_eq (some _), Option.some.injEq]
  dsimp only
  by_cases hsame : data.tokenService.accessToken = task.accessToken
  · rw [if_neg (not_not.mpr hsame)]
    cases hbackground : self.isAppInBackground with
    | true => exact iff_of_true (fun _ => ⟨rfl, rfl⟩) (Or.inr (Or.inr rfl))
    | false =>
        rw [if_neg Bool.false_ne_true, or_iff_left]
        · constructor
          · intro heffect
            by_contra huid
            exact absurd (heffect huid).2 (by simp)
          · exact fun huid hother => absurd huid hother
        · rintro (hother | hback)
          · exact hother hsame
          · exact absurd hback Bool.false_ne_true
  · rw [if_pos hsame]
    exact iff_of_true (fun _ => ⟨rfl, rfl⟩) (Or.inr (Or.inl hsame))

theorem asClaimed_endRefresh_iff {result : Except AuthErrorCode Bool} :
    let ended := self.endGetToken attempt.user result
    (self.endRefresh attempt result).tasks = ended.2.tasks ++ ended.2.claimedRetries attempt ended.1 ↔
      if ended.1 then
        ended.2.currentData = none ∨ (ended.2.auth.data attempt.user).map UserData.uid ≠ some attempt.uid
      else ended.2.currentUid ≠ some attempt.uid := by
  unfold endRefresh claimedRetries
  obtain ⟨returned, ended⟩ := self.endGetToken attempt.user result
  cases returned with
  | false =>
      dsimp only
      rw [if_neg Bool.false_ne_true]
      by_cases huid : ended.currentUid = some attempt.uid
      · rw [if_pos ⟨rfl, huid⟩, List.self_eq_append_right, newTasks_eq_nil_iff]
        refine iff_of_false (fun hnone => ?_) (not_not.mpr huid)
        rw [currentUid, hnone] at huid
        cases huid
      · rw [if_neg fun h => huid h.2, List.append_nil]
        exact iff_of_true rfl huid
  | true =>
      have hreturned : ¬(true = false ∧ ended.currentUid = some attempt.uid) := fun h => Bool.noConfusion h.1
      dsimp only
      rw [if_pos rfl, if_neg hreturned, List.append_nil]
      split_ifs with huid
      · exact iff_of_true rfl (Or.inr huid)
      · rw [tasks_scheduleWithDelay, List.append_right_eq_self, newTasks_eq_nil_iff, or_iff_left huid]

/-- A step is as claimed exactly if it avoids the retries after successes and the failures without one. -/
theorem asClaimed_iff (h : self.perform event = some self') :
    self.AsClaimed event self' ↔ self.AvoidsRetries event := by
  cases event with
  | wake index =>
      simp only [perform] at h
      cases htask : self.tasks[index]? with
      | none =>
          rw [htask] at h
          cases h
      | some task =>
          rw [htask] at h
          simp only [AsClaimed, AvoidsRetries, htask, Option.mem_def, Option.some.injEq, forall_eq']
          dsimp only at h
          split_ifs at h
          cases h
          exact asClaimed_wake_iff
  | endRefresh index result =>
      simp only [perform] at h
      cases hattempt : self.attempts[index]? with
      | none =>
          rw [hattempt] at h
          cases h
      | some attempt =>
          rw [hattempt] at h
          simp only [AsClaimed, AvoidsRetries, hattempt, Option.mem_def, Option.some.injEq, forall_eq']
          cases h
          exact (and_iff_right (schedulesNext_endGetToken attempt.user result)).trans
            asClaimed_endRefresh_iff
  | wait _ => exact Iff.rfl
  | makeUser _ => exact Iff.rfl
  | updateUser _ _ => exact Iff.rfl
  | setTenantID _ => exact Iff.rfl
  | keychain _ => exact Iff.rfl
  | updateCurrentUser _ _ _ => exact Iff.rfl
  | updateKeychain _ => exact Iff.rfl
  | getToken => exact Iff.rfl

/-! ### The delays of retries -/

/-- A minute, doubled some times, at most to 16 minutes. -/
def IsBackOff (delay : Int) : Prop := ∃ doublings : Nat, doublings ≤ 4 ∧ delay = 60 * 2 ^ doublings

theorem IsBackOff.bounded (h : IsBackOff delay) : AuthTokenLifetime.boundedRefreshDelay delay = delay := by
  obtain ⟨doublings, hle, rfl⟩ := h
  interval_cases doublings <;> decide

theorem isBackOff_rescheduleDelay (h : attempt.retry = true → IsBackOff attempt.delay) :
    IsBackOff (rescheduleDelay attempt) := by
  unfold rescheduleDelay
  split_ifs with hretry
  · obtain ⟨doublings, hle, hdelay⟩ := h hretry
    rw [hdelay]
    interval_cases doublings
    · exact ⟨1, by decide, by decide⟩
    · exact ⟨2, by decide, by decide⟩
    · exact ⟨3, by decide, by decide⟩
    · exact ⟨4, by decide, by decide⟩
    · exact ⟨4, by decide, by decide⟩
  · exact ⟨0, by decide, by decide⟩

structure BacksOff (refresh : AutoRefresh) : Prop where
  tasks : ∀ task ∈ refresh.tasks, task.retry = true → IsBackOff task.delay
  attempts : ∀ attempt ∈ refresh.attempts, attempt.retry = true → IsBackOff attempt.delay

theorem newTasks_backsOff (hdelay : retry = true → IsBackOff delay) :
    ∀ task ∈ self.newTasks delay retry, task.retry = true → IsBackOff task.delay := by
  intro task htask hretry
  unfold newTasks at htask
  cases hdata : self.currentData with
  | none =>
      rw [hdata] at htask
      cases htask
  | some data =>
      rw [hdata] at htask
      rw [List.mem_singleton.mp htask] at hretry ⊢
      dsimp only at hretry ⊢
      rw [(hdelay hretry).bounded]
      exact hdelay hretry

theorem SchedulesNext.backsOff (h : SchedulesNext self self') (hself : self.BacksOff)
    (hattempts : self'.attempts = self.attempts) : self'.BacksOff where
  tasks := by
    rcases h with htasks | ⟨task, htasks, hnext⟩
    · rw [htasks]
      exact hself.tasks
    · intro task' htask' hretry
      rw [htasks, List.mem_append, List.mem_singleton] at htask'
      rcases htask' with hold | rfl
      · exact hself.tasks task' hold hretry
      · rw [hnext.1] at hretry
        cases hretry
  attempts := by
    rw [hattempts]
    exact hself.attempts

theorem attempts_post : self.possiblyPostAuthStateChangeNotification.attempts = self.attempts := by
  unfold possiblyPostAuthStateChangeNotification scheduleAutoTokenRefresh scheduleWithDelay
  dsimp only
  split_ifs
  · rfl
  · split <;> rfl
  · rfl

theorem BacksOff.post (h : self.BacksOff) : self.possiblyPostAuthStateChangeNotification.BacksOff :=
  schedulesNext_post.backsOff h attempts_post

theorem BacksOff.withAuth (h : self.BacksOff) (auth : AuthState) : { self with auth := auth }.BacksOff :=
  ⟨h.tasks, h.attempts⟩

theorem BacksOff.updateCurrentUser (h : self.BacksOff) (user : Option UserRef) (force saveToDisk : Bool) :
    (self.updateCurrentUser user force saveToDisk).BacksOff := by
  unfold AutoRefresh.updateCurrentUser
  dsimp only
  split_ifs
  · exact (h.post.withAuth _).post
  · exact h.post.withAuth _
  · exact (h.withAuth _).post
  · exact h.withAuth _

theorem attempts_updateCurrentUser (user : Option UserRef) (force saveToDisk : Bool) :
    (self.updateCurrentUser user force saveToDisk).attempts = self.attempts := by
  unfold updateCurrentUser
  dsimp only
  split_ifs <;> simp only [attempts_post]

theorem attempts_updateKeychain : (self.updateKeychain user).2.attempts = self.attempts := by
  unfold updateKeychain
  split_ifs
  · split
    · rw [attempts_post]
    · rfl
  · rfl

theorem BacksOff.updateKeychain (h : self.BacksOff) (user : UserRef) : (self.updateKeychain user).2.BacksOff := by
  unfold AutoRefresh.updateKeychain
  split_ifs
  · split
    · exact (h.withAuth _).post
    · exact h.withAuth _
  · exact h

theorem attempts_scheduleWithDelay : (self.scheduleWithDelay delay retry).attempts = self.attempts := by
  unfold scheduleWithDelay
  split <;> rfl

theorem attempts_signOutIfTokenIsInvalid : (self.signOutIfTokenIsInvalid user error).attempts = self.attempts := by
  unfold signOutIfTokenIsInvalid signOutByForce
  split_ifs
  · split
    · split_ifs
      · exact attempts_updateCurrentUser none true true
      · rfl
    · rfl
  · rfl

theorem attempts_endGetToken : (self.endGetToken user result).2.attempts = self.attempts := by
  have hupdate : (self.userUpdateKeychain user).2.attempts = self.attempts := by
    unfold userUpdateKeychain
    split_ifs
    · exact attempts_updateKeychain user
    · rfl
  unfold endGetToken
  cases result with
  | error error => exact attempts_signOutIfTokenIsInvalid user error
  | ok tokenUpdated =>
      cases tokenUpdated with
      | false => rfl
      | true =>
          dsimp only
          split
          · rename_i self' heq
            rw [heq] at hupdate
            exact hupdate
          · rename_i error self' heq
            rw [heq] at hupdate
            exact (attempts_signOutIfTokenIsInvalid user error).trans hupdate

theorem BacksOff.wake (h : self.BacksOff) (htask : task ∈ self.tasks) (index : Nat) :
    ({ self with tasks := self.tasks.eraseIdx index }.wake task).BacksOff := by
  have hrest : ∀ other ∈ self.tasks.eraseIdx index, other.retry = true → IsBackOff other.delay :=
    fun other hmem => h.tasks other (List.mem_of_mem_eraseIdx hmem)
  unfold AutoRefresh.wake
  split
  · dsimp only
    split_ifs
    · exact ⟨hrest, h.attempts⟩
    · exact ⟨hrest, h.attempts⟩
    · refine ⟨hrest, fun attempt hmem hretry => ?_⟩
      rcases List.mem_append.mp hmem with hold | hnew
      · exact h.attempts attempt hold hretry
      · rw [List.mem_singleton.mp hnew] at hretry ⊢
        exact h.tasks task htask hretry
  · exact ⟨hrest, h.attempts⟩

theorem BacksOff.endRefresh (h : self.BacksOff) (hattempt : attempt.retry = true → IsBackOff attempt.delay)
    (result : Except AuthErrorCode Bool) : (self.endRefresh attempt result).BacksOff := by
  have hended : (self.endGetToken attempt.user result).2.BacksOff :=
    (schedulesNext_endGetToken attempt.user result).backsOff h (attempts_endGetToken attempt.user result)
  unfold AutoRefresh.endRefresh
  split
  · rename_i ended heq
    rw [heq] at hended
    exact hended
  · rename_i ended heq
    rw [heq] at hended
    split_ifs
    · exact hended
    · refine ⟨fun task htask => ?_, ?_⟩
      · rw [tasks_scheduleWithDelay] at htask
        rcases List.mem_append.mp htask with hold | hnew
        · exact hended.tasks task hold
        · exact newTasks_backsOff (fun _ => isBackOff_rescheduleDelay hattempt) task hnew
      · rw [attempts_scheduleWithDelay]
        exact hended.attempts

/-- Every delay of a retry is one of the back-off. -/
theorem BacksOff.perform (hself : self.BacksOff) (h : self.perform event = some self') : self'.BacksOff := by
  cases event with
  | wait _ =>
      cases h
      exact ⟨hself.tasks, hself.attempts⟩
  | makeUser _ =>
      cases h
      exact hself.withAuth _
  | updateUser _ _ =>
      cases h
      exact hself.withAuth _
  | setTenantID _ =>
      cases h
      exact hself.withAuth _
  | keychain _ =>
      cases h
      exact hself.withAuth _
  | updateCurrentUser user force saveToDisk =>
      cases h
      exact hself.updateCurrentUser user force saveToDisk
  | updateKeychain user =>
      cases h
      exact hself.updateKeychain user
  | getToken =>
      cases h
      split_ifs
      · exact hself
      · have hother : { self with autoRefreshTokens := true }.BacksOff := ⟨hself.tasks, hself.attempts⟩
        exact schedulesNext_scheduleAutoTokenRefresh.backsOff hother attempts_scheduleWithDelay
  | wake index =>
      simp only [AutoRefresh.perform] at h
      cases htask : self.tasks[index]? with
      | none =>
          rw [htask] at h
          cases h
      | some task =>
          rw [htask] at h
          dsimp only at h
          split_ifs at h
          cases h
          exact hself.wake (List.mem_of_getElem? htask) index
  | endRefresh index result =>
      simp only [AutoRefresh.perform] at h
      cases hattempt : self.attempts[index]? with
      | none =>
          rw [hattempt] at h
          cases h
      | some attempt =>
          rw [hattempt] at h
          cases h
          have hrest : { self with attempts := self.attempts.eraseIdx index }.BacksOff :=
            ⟨hself.tasks, fun attempt hmem => hself.attempts attempt (List.mem_of_mem_eraseIdx hmem)⟩
          exact hrest.endRefresh (hself.attempts attempt (List.mem_of_getElem? hattempt)) result

/-- Runs are as claimed at every step exactly if they avoid the end of a refresh while its user is current.
In all runs the delay of a retry is a minute, doubled some times, at most to 16 minutes. -/
theorem asClaimed_run_iff (initial : AutoRefresh) (htasks : initial.tasks = [])
    (hattempts : initial.attempts = []) (events : List AutoRefreshEvent)
    (hrun : (run perform initial events).isSome = true) :
    (AllSteps perform AvoidsRetries initial events ↔
      ∀ before event, before ++ [event] <+: events → ∀ self ∈ run perform initial before,
        ∀ self' ∈ self.perform event, self.AsClaimed event self') ∧
    ∀ before, before <+: events → ∀ self ∈ run perform initial before,
      ∀ task ∈ self.tasks, task.retry = true → IsBackOff task.delay := by
  constructor
  · rw [← allSteps_iff_forall_steps]
    refine AllSteps.congr (fun self event hsome => ?_) hrun
    obtain ⟨self', h⟩ := Option.isSome_iff_exists.mp hsome
    simp only [h, Option.mem_def, Option.some.injEq, forall_eq']
    exact (asClaimed_iff h).symm
  · intro before _ self hself
    have hinitial : initial.BacksOff := by
      constructor
      · rw [htasks]
        exact fun _ hmem => (List.not_mem_nil hmem).elim
      · rw [hattempts]
        exact fun _ hmem => (List.not_mem_nil hmem).elim
    have hbacksOff : self.BacksOff :=
      @invariant_run _ _ perform BacksOff (fun _ _ => True)
        (fun _ _ hbefore _ _ hafter => BacksOff.perform hbefore hafter) initial self before hinitial
        (allSteps_true (fun _ _ => trivial) initial before) hself
    exact hbacksOff.tasks

/-- A user is signed in whose token expires in an hour. -/
def signedIn : AutoRefresh where
  auth :=
    { users := [{
        userData := { UserData.withTokenService ⟨some ⟨"key", "app", none, none, none, none⟩, "token", some 3600,
          some "refresh"⟩ with uid := "user" }
        auth := .this }]
      requestConfiguration := ⟨"key", "app", none, none, none, none⟩
      currentUser := some ⟨0⟩ }
  now := 0
  lastNotifiedUserToken := some "token"

/-- The user signs out before the task wakes. -/
def signOutEvents : List AutoRefreshEvent :=
  [.getToken, .updateCurrentUser none true true, .wait 3300, .wake 0]

theorem asClaimed_signOut :
    (∀ before event, before ++ [event] <+: signOutEvents → ∀ self ∈ run perform signedIn before,
        ∀ self' ∈ self.perform event, self.AsClaimed event self') ∧
    ∀ before, before <+: signOutEvents → ∀ self ∈ run perform signedIn before,
      ∀ task ∈ self.tasks, task.retry = true → IsBackOff task.delay := by
  have hrun := asClaimed_run_iff signedIn rfl rfl signOutEvents (by decide)
  exact ⟨hrun.1.mp (by decide), hrun.2⟩

/-- The task that was scheduled for the token wakes. -/
def refreshEvents : List AutoRefreshEvent := [.getToken, .wait 3300, .wake 0]

/-- A refresh that fails is not retried, and one that succeeds is. -/
theorem asClaimed_fails :
    (¬∀ self self' : AutoRefresh, run perform signedIn refreshEvents = some self →
      self.perform (.endRefresh 0 (.error .networkError)) = some self' →
        self.AsClaimed (.endRefresh 0 (.error .networkError)) self') ∧
    ¬∀ self self' : AutoRefresh, run perform signedIn refreshEvents = some self →
      self.perform (.endRefresh 0 (.ok false)) = some self' →
        self.AsClaimed (.endRefresh 0 (.ok false)) self' := by
  constructor
  · intro hall
    have hclaimed := hall _ _ (Option.some_get (by decide)).symm (Option.some_get (by decide)).symm
    rw [asClaimed_iff (Option.some_get (by decide)).symm] at hclaimed
    exact absurd hclaimed (by decide)
  · intro hall
    have hclaimed := hall _ _ (Option.some_get (by decide)).symm (Option.some_get (by decide)).symm
    rw [asClaimed_iff (Option.some_get (by decide)).symm] at hclaimed
    exact absurd hclaimed (by decide)

end AutoRefresh

end FirebaseSwift.Auth
