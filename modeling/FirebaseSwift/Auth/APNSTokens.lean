import FirebaseSwift.Library.StepRuns
import FirebaseSwift.Library.Waiters
import Mathlib.Tactic.SplitIfs

/-! The APNs tokens of phone number authentication, `AuthAPNSTokenManager`. Callers that find no token wait for
one. The first of them registers for remote notifications and starts a timer, which fails those who still
wait if nobody has registered since. A step is what is done under the lock, with resuming the callers that
were taken out there. -/

namespace FirebaseSwift.Auth

open StepRuns

inductive AuthAPNSTokenType where
  | unknown | sandbox | prod
deriving DecidableEq

structure AuthAPNSToken where
  data : List UInt8
  type : AuthAPNSTokenType
deriving DecidableEq

/-- What a caller is resumed with. Which timer it was is not kept in the source. -/
inductive APNSTokenAnswer (E : Type) where
  | token (token : AuthAPNSToken)
  | missingAppToken (timer : Nat)
  | error (error : E)
deriving DecidableEq

/-- The token at a call, how many were set before, and the registration that the call waits on -/
structure GetAPNSTokenCall where
  current : Option AuthAPNSToken
  earlier : Nat
  registration : Option Nat
deriving DecidableEq

/-- The manager with its outstanding timers, and a ledger: the calls so far, the tokens that were set, and the
timers that have run. The callers that wait are the pending ones. -/
structure AuthAPNSTokenManager (E : Type) where
  token : Option AuthAPNSToken := none
  generation : Nat := 0
  callers : Waiters (APNSTokenAnswer E) := {}
  timers : List Nat := []
  calls : List GetAPNSTokenCall := []
  assignments : List AuthAPNSToken := []
  expired : List Nat := []

inductive APNSTokenEvent (E : Type) where
  | getToken
  | setToken (newValue : Option AuthAPNSToken) (isProductionApp : Bool)
  | cancel (error : E)
  | timeout (timer : Nat)
deriving DecidableEq

namespace AuthAPNSTokenManager

variable {E : Type}

section Operations

variable (manager : AuthAPNSTokenManager E)

/-- Takes out all pending callers and resumes them. -/
def resumeAll (answer : APNSTokenAnswer E) : AuthAPNSTokenManager E :=
  { manager with callers := manager.callers.release (fun _ => true) answer }

/-- Notes a call in the ledger. -/
def recordCall (registration : Option Nat) : AuthAPNSTokenManager E :=
  { manager with calls := manager.calls ++ [⟨manager.token, manager.assignments.length, registration⟩] }

/-- Waits, on the registration that there is or on a new one -/
def await : AuthAPNSTokenManager E :=
  let callers := manager.callers.join
  if callers.waiting.length = 1 then
    { manager.recordCall (some (manager.generation + 1)) with
      callers := callers, generation := manager.generation + 1, timers := manager.timers ++ [manager.generation + 1] }
  else { manager.recordCall (some manager.generation) with callers := callers }

def getToken : AuthAPNSTokenManager E :=
  match manager.token with
  | some token => { manager.recordCall none with callers := manager.callers.answer (.token token) }
  | none => manager.await

/-- The type of the token, which is looked up where it is not known -/
def detectType (token : AuthAPNSToken) (isProductionApp : Bool) : AuthAPNSToken :=
  if token.type = .unknown then { token with type := if isProductionApp then .prod else .sandbox } else token

def setToken (newValue : Option AuthAPNSToken) (isProductionApp : Bool) : AuthAPNSTokenManager E :=
  match newValue with
  | none => { manager with token := none }
  | some token =>
      let token := detectType token isProductionApp
      { manager.resumeAll (.token token) with token := some token, assignments := manager.assignments ++ [token] }

def cancel (error : E) : AuthAPNSTokenManager E := manager.resumeAll (.error error)

/-- A timer runs. It fails those who wait on its own registration only. -/
def timeout (timer : Nat) : Option (AuthAPNSTokenManager E) :=
  if timer ∈ manager.timers then
    let rest := { manager with timers := manager.timers.erase timer, expired := manager.expired ++ [timer] }
    some (if manager.generation = timer then rest.resumeAll (.missingAppToken timer) else rest)
  else none

end Operations

def step (manager : AuthAPNSTokenManager E) : APNSTokenEvent E → Option (AuthAPNSTokenManager E)
  | .getToken => some manager.getToken
  | .setToken newValue isProductionApp => some (manager.setToken newValue isProductionApp)
  | .cancel error => some (manager.cancel error)
  | .timeout timer => manager.timeout timer

/-! ### What holds after every step -/

/-- What is asked of the answer to a call -/
def Answers (manager : AuthAPNSTokenManager E) (call : GetAPNSTokenCall) : APNSTokenAnswer E → Prop
  | .token token => call.current = some token ∨ token ∈ manager.assignments.drop call.earlier
  | .missingAppToken timer => call.registration = some timer
  | .error _ => True

structure Formed (manager : AuthAPNSTokenManager E) : Prop where
  kept : manager.callers.Kept
  recorded : manager.calls.length = manager.callers.called
  answered : ∀ entry ∈ manager.callers.resumed, ∃ call, manager.calls[entry.1]? = some call ∧ manager.Answers call entry.2
  earlier_le : ∀ call ∈ manager.calls, call.earlier ≤ manager.assignments.length
  waiting : ∀ caller ∈ manager.callers.waiting, ∃ call,
    manager.calls[caller]? = some call ∧ call.registration = some manager.generation
  outstanding : manager.callers.waiting ≠ [] → manager.generation ∈ manager.timers
  timers_nodup : manager.timers.Nodup
  not_expired : ∀ timer ∈ manager.timers, timer ∉ manager.expired
  timers_le : ∀ timer ∈ manager.timers ++ manager.expired, timer ≤ manager.generation

theorem formed_initial : ({} : AuthAPNSTokenManager E).Formed where
  kept := Waiters.kept_empty
  recorded := rfl
  answered _ h := absurd h List.not_mem_nil
  earlier_le _ h := absurd h List.not_mem_nil
  waiting _ h := absurd h List.not_mem_nil
  outstanding h := absurd rfl h
  timers_nodup := List.nodup_nil
  not_expired _ h := absurd h List.not_mem_nil
  timers_le _ h := absurd h List.not_mem_nil

variable {manager manager' : AuthAPNSTokenManager E}
variable {call : GetAPNSTokenCall}

theorem Answers.mono {answer : APNSTokenAnswer E} (h : manager.Answers call answer)
    (hassignments : manager.assignments <+: manager'.assignments) : manager'.Answers call answer := by
  cases answer with
  | token token =>
      refine h.imp_right fun hmem => ?_
      obtain ⟨later, hlater⟩ := hassignments
      rw [← hlater, List.drop_append]
      exact List.mem_append_left _ hmem
  | missingAppToken timer => exact h
  | error error => exact h

/-- Resuming all who wait -/
theorem Formed.resumeAll (h : manager.Formed) {answer : APNSTokenAnswer E}
    (hanswer : ∀ caller ∈ manager.callers.waiting, ∀ call, manager.calls[caller]? = some call → manager.Answers call answer) :
    (manager.resumeAll answer).Formed where
  kept := h.kept.release _ _
  recorded := h.recorded
  answered entry hentry := by
    rcases Waiters.mem_release_resumed.mp hentry with hold | ⟨⟨hwaiting, -⟩, heq⟩
    · exact h.answered entry hold
    · obtain ⟨call, hcall, -⟩ := h.waiting entry.1 hwaiting
      exact ⟨call, hcall, heq ▸ hanswer entry.1 hwaiting call hcall⟩
  earlier_le := h.earlier_le
  waiting caller hcaller := h.waiting caller (Waiters.mem_release_waiting.mp hcaller).1
  outstanding hne := h.outstanding fun hempty => hne (by
    show manager.callers.waiting.filter _ = []
    rw [hempty, List.filter_nil])
  timers_nodup := h.timers_nodup
  not_expired := h.not_expired
  timers_le := h.timers_le

/-- What a new call leaves as it was -/
theorem getElem?_append_of_some {calls : List GetAPNSTokenCall} {i : Nat} (h : calls[i]? = some call)
    (last : GetAPNSTokenCall) : (calls ++ [last])[i]? = some call := by
  rw [List.getElem?_append_left (List.getElem?_eq_some_iff.mp h).1]
  exact h

/-- The call that was noted last -/
theorem Formed.getElem?_last (h : manager.Formed) (last : GetAPNSTokenCall) :
    (manager.calls ++ [last])[manager.callers.called]? = some last := by
  rw [← h.recorded]
  exact List.getElem?_concat_length

theorem Formed.earlier_le_recordCall (h : manager.Formed) (registration : Option Nat) :
    ∀ call ∈ (manager.recordCall registration).calls, call.earlier ≤ manager.assignments.length := by
  refine List.forall_mem_append.mpr ⟨h.earlier_le, ?_⟩
  exact List.forall_mem_singleton.mpr (Nat.le_refl _)

/-- A caller that finds a token -/
theorem Formed.answer (h : manager.Formed) {token : AuthAPNSToken} (htoken : manager.token = some token) :
    Formed { manager.recordCall none with callers := manager.callers.answer (.token token) } where
  kept := h.kept.answer _
  recorded := by
    show (manager.calls ++ [_]).length = manager.callers.called + 1
    rw [List.length_append, h.recorded, List.length_singleton]
  answered entry hentry := by
    rcases List.mem_append.mp hentry with hold | hnew
    · obtain ⟨call, hcall, hanswers⟩ := h.answered entry hold
      exact ⟨call, getElem?_append_of_some hcall _, hanswers⟩
    · rw [List.mem_singleton.mp hnew]
      exact ⟨_, h.getElem?_last _, .inl htoken⟩
  earlier_le := h.earlier_le_recordCall none
  waiting caller hcaller := by
    obtain ⟨call, hcall, hregistration⟩ := h.waiting caller hcaller
    exact ⟨call, getElem?_append_of_some hcall _, hregistration⟩
  outstanding := h.outstanding
  timers_nodup := h.timers_nodup
  not_expired := h.not_expired
  timers_le := h.timers_le

theorem length_join_waiting : manager.callers.join.waiting.length = 1 ↔ manager.callers.waiting = [] := by
  show (manager.callers.waiting ++ [_]).length = 1 ↔ _
  rw [List.length_append, List.length_singleton, Nat.add_eq_right, List.length_eq_zero_iff]

/-- A caller that waits. It joins the registration of the others, or registers itself. -/
theorem Formed.await (h : manager.Formed) : manager.await.Formed := by
  have hrecorded : ∀ call : GetAPNSTokenCall, (manager.calls ++ [call]).length = manager.callers.called + 1 := by
    intro call
    rw [List.length_append, h.recorded, List.length_singleton]
  have hanswered : ∀ last : GetAPNSTokenCall, ∀ entry ∈ manager.callers.resumed, ∃ call,
      (manager.calls ++ [last])[entry.1]? = some call ∧ manager.Answers call entry.2 := by
    intro last entry hentry
    obtain ⟨call, hcall, hanswers⟩ := h.answered entry hentry
    exact ⟨call, getElem?_append_of_some hcall last, hanswers⟩
  rw [AuthAPNSTokenManager.await]
  by_cases hfirst : manager.callers.join.waiting.length = 1
  · rw [if_pos hfirst]
    have hempty := length_join_waiting.mp hfirst
    have hnew : manager.generation + 1 ∉ manager.timers ++ manager.expired := fun hmem =>
      absurd (h.timers_le _ hmem) (Nat.not_succ_le_self _)
    refine ⟨h.kept.join, hrecorded _, hanswered _, h.earlier_le_recordCall _, fun caller hcaller => ?_,
      fun _ => List.mem_append_right _ (List.mem_singleton_self _), ?_, ?_, ?_⟩
    · have hwaiting : caller ∈ manager.callers.waiting ++ [manager.callers.called] := hcaller
      rw [hempty, List.nil_append, List.mem_singleton] at hwaiting
      rw [hwaiting]
      exact ⟨_, h.getElem?_last _, rfl⟩
    · refine List.nodup_append.mpr ⟨h.timers_nodup, List.nodup_singleton _, fun timer htimer last hlast heq => ?_⟩
      rw [heq, List.mem_singleton.mp hlast] at htimer
      exact hnew (List.mem_append_left _ htimer)
    · refine List.forall_mem_append.mpr ⟨h.not_expired, List.forall_mem_singleton.mpr fun hexpired => ?_⟩
      exact hnew (List.mem_append_right _ hexpired)
    · intro timer htimer
      rw [List.append_assoc, List.mem_append, List.mem_append, List.mem_singleton] at htimer
      rcases htimer with htimer | rfl | htimer
      · exact (h.timers_le _ (List.mem_append_left _ htimer)).trans (Nat.le_succ _)
      · exact Nat.le_refl _
      · exact (h.timers_le _ (List.mem_append_right _ htimer)).trans (Nat.le_succ _)
  · rw [if_neg hfirst]
    refine ⟨h.kept.join, hrecorded _, hanswered _, h.earlier_le_recordCall _, fun caller hcaller => ?_,
      fun _ => h.outstanding fun hempty => hfirst (length_join_waiting.mpr hempty), h.timers_nodup, h.not_expired,
      h.timers_le⟩
    rcases List.mem_append.mp hcaller with hold | hnew
    · obtain ⟨call, hcall, hregistration⟩ := h.waiting caller hold
      exact ⟨call, getElem?_append_of_some hcall _, hregistration⟩
    · rw [List.mem_singleton.mp hnew]
      exact ⟨_, h.getElem?_last _, rfl⟩

theorem Formed.getToken (h : manager.Formed) : manager.getToken.Formed := by
  rw [AuthAPNSTokenManager.getToken]
  cases htoken : manager.token with
  | none => exact h.await
  | some token => exact h.answer htoken

/-- A new token with nobody waiting for it -/
theorem Formed.assign (h : manager.Formed) (token : AuthAPNSToken) :
    Formed { manager with token := some token, assignments := manager.assignments ++ [token] } where
  kept := h.kept
  recorded := h.recorded
  answered entry hentry := by
    obtain ⟨call, hcall, hanswers⟩ := h.answered entry hentry
    exact ⟨call, hcall, hanswers.mono (List.prefix_append _ _)⟩
  earlier_le call hcall := (h.earlier_le call hcall).trans (by
    show _ ≤ (manager.assignments ++ [token]).length
    rw [List.length_append]
    exact Nat.le_add_right _ _)
  waiting := h.waiting
  outstanding := h.outstanding
  timers_nodup := h.timers_nodup
  not_expired := h.not_expired
  timers_le := h.timers_le

theorem Formed.setToken (h : manager.Formed) (newValue : Option AuthAPNSToken) (isProductionApp : Bool) :
    (manager.setToken newValue isProductionApp).Formed := by
  cases newValue with
  | none => exact ⟨h.kept, h.recorded, h.answered, h.earlier_le, h.waiting, h.outstanding,
      h.timers_nodup, h.not_expired, h.timers_le⟩
  | some token =>
      refine (h.assign (detectType token isProductionApp)).resumeAll fun caller _ call hcall => .inr ?_
      have hle := h.earlier_le call (List.mem_of_getElem? hcall)
      show _ ∈ (manager.assignments ++ [_]).drop call.earlier
      rw [List.drop_append_of_le_length hle]
      exact List.mem_append_right _ (List.mem_singleton_self _)

/-- A timer has run, for an older registration or with nobody left who waits. -/
theorem Formed.expire (h : manager.Formed) {timer : Nat} (htimer : timer ∈ manager.timers)
    (hcallers : manager.generation = timer → manager.callers.waiting = []) :
    Formed { manager with timers := manager.timers.erase timer, expired := manager.expired ++ [timer] } where
  kept := h.kept
  recorded := h.recorded
  answered := h.answered
  earlier_le := h.earlier_le
  waiting := h.waiting
  outstanding hne := (List.mem_erase_of_ne fun heq => hne (hcallers heq)).mpr (h.outstanding hne)
  timers_nodup := h.timers_nodup.erase _
  not_expired other hother := by
    rw [List.mem_append, List.mem_singleton, not_or]
    exact ⟨h.not_expired other (List.mem_of_mem_erase hother), fun heq =>
      h.timers_nodup.not_mem_erase (heq ▸ hother)⟩
  timers_le other hother := by
    rcases List.mem_append.mp hother with hother | hother
    · exact h.timers_le other (List.mem_append_left _ (List.mem_of_mem_erase hother))
    · rcases List.mem_append.mp hother with hother | hother
      · exact h.timers_le other (List.mem_append_right _ hother)
      · rw [List.mem_singleton.mp hother]
        exact h.timers_le timer (List.mem_append_left _ htimer)

/-- The pending callers wait on the registration of the timer that fails them. -/
theorem Formed.timeout (h : manager.Formed) {timer : Nat} (hstep : manager.timeout timer = some manager') :
    manager'.Formed := by
  rw [AuthAPNSTokenManager.timeout] at hstep
  split_ifs at hstep with htimer hgeneration
  · cases hstep
    have hresumed : (manager.resumeAll (.missingAppToken timer)).Formed := by
      refine h.resumeAll fun caller hcaller call hcall => ?_
      obtain ⟨call', hcall', hregistration⟩ := h.waiting caller hcaller
      rw [hcall] at hcall'
      cases hcall'
      exact hregistration.trans (congrArg some hgeneration)
    refine hresumed.expire htimer fun _ => ?_
    show manager.callers.waiting.filter _ = []
    exact List.filter_eq_nil_iff.mpr fun _ _ => nofun
  · cases hstep
    exact h.expire htimer fun heq => absurd heq hgeneration

theorem Formed.step (h : manager.Formed) {event : APNSTokenEvent E} (hstep : manager.step event = some manager') :
    manager'.Formed := by
  cases event with
  | getToken =>
      cases hstep
      exact h.getToken
  | setToken newValue isProductionApp =>
      cases hstep
      exact h.setToken newValue isProductionApp
  | cancel error =>
      cases hstep
      exact h.resumeAll fun _ _ _ _ => trivial
  | timeout timer => exact h.timeout hstep

/-! ### Runs -/

theorem formed_run {events : List (APNSTokenEvent E)} (hrun : run step {} events = some manager) : manager.Formed :=
  invariant_run (fun _ _ h (_ : True) _ hstep => h.step hstep) formed_initial
    (allSteps_true (fun _ _ => trivial) _ _) hrun

/-- The callers that were resumed -/
def resumedCallers (manager : AuthAPNSTokenManager E) : List Nat := manager.callers.resumed.map Prod.fst

/-- In every run a caller is resumed once at most, and while it waits the timer of its registration will run. It
gets a token that was there or was set since, and is failed for a missing token by that timer only. -/
theorem resumed_once {events : List (APNSTokenEvent E)} (hrun : run step {} events = some manager) :
    manager.resumedCallers.Nodup ∧
    (∀ caller call, manager.calls[caller]? = some call → caller ∉ manager.resumedCallers →
      ∃ timer ∈ manager.timers, call.registration = some timer ∧ timer ∉ manager.expired) ∧
    (∀ caller call, manager.calls[caller]? = some call → ∀ timer ∈ manager.expired,
      call.registration = some timer → caller ∈ manager.resumedCallers) ∧
    (∀ caller answer, (caller, answer) ∈ manager.callers.resumed → ∃ call, manager.calls[caller]? = some call ∧
      (∀ token, answer = .token token → call.current = some token ∨ token ∈ manager.assignments.drop call.earlier) ∧
      ∀ timer, answer = .missingAppToken timer → call.registration = some timer) := by
  have h := formed_run hrun
  have hwaits : ∀ caller call, manager.calls[caller]? = some call → caller ∉ manager.resumedCallers →
      ∃ timer ∈ manager.timers, call.registration = some timer ∧ timer ∉ manager.expired := by
    intro caller call hcall hnot
    have hcalled : caller < manager.callers.called := h.recorded ▸ (List.getElem?_eq_some_iff.mp hcall).1
    have hwaiting : caller ∈ manager.callers.waiting := by
      by_contra hgone
      exact hnot (h.kept.resumed_of_not_waiting hcalled hgone)
    obtain ⟨call', hcall', hregistration⟩ := h.waiting caller hwaiting
    rw [hcall] at hcall'
    cases hcall'
    have htimer := h.outstanding (List.ne_nil_of_mem hwaiting)
    exact ⟨_, htimer, hregistration, h.not_expired _ htimer⟩
  refine ⟨h.kept.nodup_resumed, hwaits, fun caller call hcall timer hexpired hregistration => ?_,
    fun caller answer hanswer => ?_⟩
  · by_contra hnot
    obtain ⟨timer', -, hregistration', hrunning⟩ := hwaits caller call hcall hnot
    rw [hregistration] at hregistration'
    cases hregistration'
    exact hrunning hexpired
  · obtain ⟨call, hcall, hanswers⟩ := h.answered _ hanswer
    refine ⟨call, hcall, fun token htoken => ?_, fun timer htimer => ?_⟩
    · rw [htoken] at hanswers
      exact hanswers
    · rw [htimer] at hanswers
      exact hanswers

/-- A timer of a cancelled registration leaves the next caller alone, which its own timer fails. -/
theorem resumed_once_after_cancel : ∃ manager : AuthAPNSTokenManager Unit,
    run step {} [.getToken, .cancel (), .getToken, .timeout 1, .timeout 2] = some manager ∧
      manager.callers.resumed = [(0, .error ()), (1, .missingAppToken 2)] ∧ manager.resumedCallers.Nodup :=
  ⟨_, rfl, rfl, (@resumed_once Unit _ [.getToken, .cancel (), .getToken, .timeout 1, .timeout 2] rfl).1⟩

end AuthAPNSTokenManager

end FirebaseSwift.Auth
