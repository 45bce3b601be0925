import FirebaseSwift.Library.StepRuns
import Mathlib.Tactic.SplitIfs

/-! Getting App Check tokens, `AppCheckCore.token(forcingRefresh:)`. Calls that do not force a refresh share one
task, the others have tasks of their own. Tasks go on in any order, each from one suspension to the next. A
task and its call have one number. -/

namespace FirebaseSwift.AppCheck

open StepRuns
open scoped List

/-- Dates are in seconds. -/
structure AppCheckCoreToken where
  token : String
  expirationDate : Int
  receivedAtDate : Int
deriving DecidableEq

/-- What a task awaits, and the result that it has in the end -/
inductive TokenTaskPhase (E : Type) where
  | reading
  | checking (cached : AppCheckCoreToken)
  | providing
  | storing (token : AppCheckCoreToken)
  | announcing (token : AppCheckCoreToken)
  | notifying (token : AppCheckCoreToken)
  | finishing (result : Except E AppCheckCoreToken)
  | finished (result : Except E AppCheckCoreToken)

inductive GetTokenAction (E : Type) where
  | wait (ongoing : Nat)
  | run (forcingRefresh : Bool) (phase : TokenTaskPhase E)

inductive TokenTaskEvent (E : Type) where
  | getToken (succeeds : Bool)
  | checkExpiration (now : Int)
  | provided (result : Except E AppCheckCoreToken)
  | setToken (result : Except E Unit)
  | deliver
  | tokenDidUpdate
  | finish

inductive TokenInput (E : Type) where
  | token (caller : Nat) (forcingRefresh : Bool)
  | task (number : Nat) (event : TokenTaskEvent E)

/-- The calls so far, the token in the storage, and the tasks whose tokens are to be announced -/
structure AppCheckCore (E : Type) where
  actions : List (GetTokenAction E) := []
  ongoingTask : Option Nat := none
  stored : Option AppCheckCoreToken := none
  deliveryQueue : List Nat := []

def tokenExpirationThreshold : Int := 5 * 60

/-- How many steps a task has left at most -/
def TokenTaskPhase.remaining {E : Type} : TokenTaskPhase E → Nat
  | .reading => 7
  | .checking _ => 6
  | .providing => 5
  | .storing _ => 4
  | .announcing _ => 3
  | .notifying _ => 2
  | .finishing _ => 1
  | .finished _ => 0

/-- How often a task is in the queue -/
def TokenTaskPhase.queued {E : Type} : TokenTaskPhase E → Nat
  | .notifying _ => 1
  | _ => 0

def GetTokenAction.queued {E : Type} : GetTokenAction E → Nat
  | .wait _ => 0
  | .run _ phase => phase.queued

namespace AppCheckCore

variable {E : Type}

section Operations

variable (core : AppCheckCore E)

def token (forcingRefresh : Bool) : AppCheckCore E :=
  match forcingRefresh, core.ongoingTask with
  | true, _ => { core with actions := core.actions ++ [.run true .providing] }
  | false, some ongoing => { core with actions := core.actions ++ [.wait ongoing] }
  | false, none =>
      { core with actions := core.actions ++ [.run false .reading], ongoingTask := some core.actions.length }

/-- A task goes on. What `getCachedValidToken` throws leads to `refreshToken`. -/
def goOn (number : Nat) : TokenTaskPhase E → TokenTaskEvent E → Option (AppCheckCore E × TokenTaskPhase E)
  | .reading, .getToken false => some (core, .providing)
  | .reading, .getToken true => some (core, core.stored.elim .providing .checking)
  | .checking cached, .checkExpiration now =>
      some (core, if cached.expirationDate - now < tokenExpirationThreshold then .providing else .finishing (.ok cached))
  | .providing, .provided (.ok token) => some (core, .storing token)
  | .providing, .provided (.error error) => some (core, .finishing (.error error))
  | .storing token, .setToken (.ok _) => some ({ core with stored := some token }, .announcing token)
  | .storing _, .setToken (.error error) => some (core, .finishing (.error error))
  | .announcing token, .deliver => some ({ core with deliveryQueue := core.deliveryQueue ++ [number] }, .notifying token)
  | .notifying token, .tokenDidUpdate =>
      if core.deliveryQueue.head? = some number then
        some ({ core with deliveryQueue := core.deliveryQueue.tail }, .finishing (.ok token))
      else none
  | .finishing result, .finish => some (core, .finished result)
  | _, _ => none

def step : TokenInput E → Option (AppCheckCore E)
  | .token caller forcingRefresh => if caller = core.actions.length then some (core.token forcingRefresh) else none
  | .task number event =>
      match core.actions[number]? with
      | some (.run forcingRefresh phase) =>
          (core.goOn number phase event).map fun (core, phase) =>
            { core with
              actions := core.actions.set number (.run forcingRefresh phase)
              ongoingTask := if phase.remaining = 0 ∧ !forcingRefresh then none else core.ongoingTask }
      | _ => none

end Operations

/-! ### What the inputs so far say of the state -/

section Traces

variable (stored : Option AppCheckCoreToken) (inputs : List (TokenInput E))

/-- The token was in the storage at the start, or a task got it from the provider and stored it. -/
def Written (token : AppCheckCoreToken) (after : List (TokenInput E)) : Prop :=
  stored = some token ∨ ∃ source,
    [.task source (.provided (.ok token)), .task source (.setToken (.ok ()))] ++ after <+ inputs

/-- Where the token of a task comes from. It was issued to the task, stored and announced in this order, or it
was read from the storage and had five minutes left then. -/
def Returned (number : Nat) (forcingRefresh : Bool) (token : AppCheckCoreToken) (after : List (TokenInput E)) : Prop :=
  [.token number forcingRefresh, .task number (.provided (.ok token)), .task number (.setToken (.ok ())),
    .task number .tokenDidUpdate] ++ after <+ inputs ∨
  forcingRefresh = false ∧ ∃ now, tokenExpirationThreshold ≤ token.expirationDate - now ∧
    [.token number forcingRefresh, .task number (.getToken true), .task number (.checkExpiration now)] ++ after <+ inputs ∧
    Written stored inputs token ([.task number (.getToken true), .task number (.checkExpiration now)] ++ after)

def Traced (number : Nat) (forcingRefresh : Bool) : TokenTaskPhase E → Prop
  | .reading => forcingRefresh = false ∧ [.token number forcingRefresh] <+ inputs
  | .checking cached => forcingRefresh = false ∧
      [.token number forcingRefresh, .task number (.getToken true)] <+ inputs ∧
      Written stored inputs cached [.task number (.getToken true)]
  | .providing => [.token number forcingRefresh] <+ inputs
  | .storing token => [.token number forcingRefresh, .task number (.provided (.ok token))] <+ inputs
  | .announcing token | .notifying token => [.token number forcingRefresh, .task number (.provided (.ok token)),
      .task number (.setToken (.ok ()))] <+ inputs
  | .finishing result => ∀ token, result = .ok token → Returned stored inputs number forcingRefresh token []
  | .finished result =>
      ∀ token, result = .ok token → Returned stored inputs number forcingRefresh token [.task number .finish]

end Traces

structure History (stored : Option AppCheckCoreToken) (inputs : List (TokenInput E)) (core : AppCheckCore E) : Prop where
  written : ∀ token ∈ core.stored, Written stored inputs token []
  traced : ∀ number forcingRefresh phase, core.actions[number]? = some (.run forcingRefresh phase) →
    Traced stored inputs number forcingRefresh phase
  /-- The task that a call joined was not finished then. -/
  joined : ∀ caller ongoing, core.actions[caller]? = some (.wait ongoing) → ∃ phase,
    core.actions[ongoing]? = some (.run false phase) ∧ [.token caller false] <+ inputs ∧
    (phase.remaining = 0 → [.token caller false, .task ongoing .finish] <+ inputs)
  ongoing : ∀ number, core.ongoingTask = some number ↔
    ∃ phase, core.actions[number]? = some (.run false phase) ∧ phase.remaining ≠ 0
  queued : ∀ number, core.deliveryQueue.count number = core.actions[number]?.elim 0 GetTokenAction.queued

variable {stored : Option AppCheckCoreToken} {inputs inputs' after after' : List (TokenInput E)}
variable {core core' rest : AppCheckCore E} {token : AppCheckCoreToken} {number : Nat} {forcingRefresh : Bool}
variable {phase phase' : TokenTaskPhase E} {event : TokenTaskEvent E}

theorem Written.imp (h : Written stored inputs token after)
    (himp : ∀ before, before ++ after <+ inputs → before ++ after' <+ inputs') : Written stored inputs' token after' := by
  refine h.imp_right fun hsource => ?_
  obtain ⟨source, hsource⟩ := hsource
  exact ⟨source, himp _ hsource⟩

theorem Returned.imp (h : Returned stored inputs number forcingRefresh token after)
    (himp : ∀ before, before ++ after <+ inputs → before ++ after' <+ inputs') :
    Returned stored inputs' number forcingRefresh token after' := by
  rcases h with hprovided | ⟨hforcing, now, hleft, hread, hwritten⟩
  · exact Or.inl (himp _ hprovided)
  · refine Or.inr ⟨hforcing, now, hleft, himp _ hread, hwritten.imp fun before hbefore => ?_⟩
    rw [← List.append_assoc] at hbefore ⊢
    exact himp _ hbefore

theorem Traced.append (h : Traced stored inputs number forcingRefresh phase) (input : TokenInput E) :
    Traced stored (inputs ++ [input]) number forcingRefresh phase := by
  have hsub : inputs <+ inputs ++ [input] := List.sublist_append_left _ _
  cases phase with
  | reading => exact ⟨h.1, h.2.trans hsub⟩
  | checking cached => exact ⟨h.1, h.2.1.trans hsub, h.2.2.imp fun _ hbefore => hbefore.trans hsub⟩
  | providing => exact List.Sublist.trans h hsub
  | storing token | announcing token | notifying token => exact List.Sublist.trans h hsub
  | finishing result | finished result =>
      exact fun token hok => (h token hok).imp fun _ hbefore => hbefore.trans hsub

/-! ### What one step of a task does -/

theorem goOn_frame (h : core.goOn number phase event = some (rest, phase')) :
    rest.actions = core.actions ∧ rest.ongoingTask = core.ongoingTask ∧ phase'.remaining < phase.remaining ∧
      (phase'.remaining = 0 → event = .finish) ∧
      ∀ other, rest.deliveryQueue.count other + (if number = other then phase.queued else 0) =
        core.deliveryQueue.count other + if number = other then phase'.queued else 0 := by
  unfold goOn at h
  split at h <;> (try split at h) <;> cases h <;> try simp [TokenTaskPhase.remaining, TokenTaskPhase.queued]
  · cases core.stored <;> simp
  · simp [List.count_singleton]
  · rename_i hhead
    obtain ⟨rest, hqueue⟩ := List.head?_eq_some_iff.mp hhead
    simp [hqueue, List.count_cons]

/-- The task has taken the step that leads to its phase. -/
theorem Traced.goOn (h : Traced stored inputs number forcingRefresh phase)
    (hwritten : ∀ token ∈ core.stored, Written stored inputs token [])
    (hgoOn : core.goOn number phase event = some (rest, phase')) :
    Traced stored (inputs ++ [.task number event]) number forcingRefresh phase' ∧
      ∀ token ∈ rest.stored, Written stored (inputs ++ [.task number event]) token [] := by
  have hsub : inputs <+ inputs ++ [.task number event] := List.sublist_append_left _ _
  have hmono : ∀ token ∈ core.stored, Written stored (inputs ++ [.task number event]) token [] := fun token htoken =>
    (hwritten token htoken).imp fun _ hbefore => hbefore.trans hsub
  have hnext : ∀ before after, before ++ after <+ inputs →
      before ++ (after ++ [.task number event]) <+ inputs ++ [.task number event] := fun before after hbefore =>
    List.append_assoc before after _ ▸ hbefore.append_right _
  unfold AppCheckCore.goOn at hgoOn
  split at hgoOn
  · cases hgoOn
    exact ⟨List.Sublist.trans h.2 hsub, hmono⟩
  · cases hgoOn
    refine ⟨?_, hmono⟩
    cases hread : core.stored with
    | none => exact List.Sublist.trans h.2 hsub
    | some cached => exact ⟨h.1, h.2.append_right _, (hwritten cached hread).imp fun before => hnext before []⟩
  · cases hgoOn
    refine ⟨?_, hmono⟩
    split_ifs with hexpired
    · exact (List.Sublist.trans (List.sublist_append_left [_] _) h.2.1).trans hsub
    · rintro token ⟨⟩
      exact Or.inr ⟨h.1, _, Int.not_lt.mp hexpired, h.2.1.append_right _, h.2.2.imp fun before => hnext before _⟩
  · cases hgoOn
    exact ⟨List.Sublist.append_right h _, hmono⟩
  · cases hgoOn
    refine ⟨fun token hok => ?_, hmono⟩
    cases hok
  · cases hgoOn
    refine ⟨List.Sublist.append_right h _, ?_⟩
    rintro token ⟨⟩
    exact Or.inr ⟨number, List.Sublist.trans (List.sublist_cons_self _ _) (List.Sublist.append_right h _)⟩
  · cases hgoOn
    refine ⟨fun token hok => ?_, hmono⟩
    cases hok
  · cases hgoOn
    exact ⟨List.Sublist.trans h hsub, hmono⟩
  · split_ifs at hgoOn
    cases hgoOn
    refine ⟨?_, hmono⟩
    rintro token ⟨⟩
    exact Or.inl (List.Sublist.append_right h _)
  · cases hgoOn
    exact ⟨fun token hok => (h token hok).imp fun before => hnext before [], hmono⟩
  · cases hgoOn

theorem getElem?_concat_eq_some {α : Type} {actions : List α} {action new : α} {n : Nat} :
    (actions ++ [new])[n]? = some action ↔ actions[n]? = some action ∨ n = actions.length ∧ new = action := by
  rw [List.getElem?_append]
  split_ifs with hlt
  · exact ⟨Or.inl, fun h => h.resolve_right fun hlast => absurd hlast.1 (Nat.ne_of_lt hlt)⟩
  · rw [List.getElem?_singleton, List.getElem?_eq_none (Nat.not_lt.mp hlt)]
    constructor
    · intro h
      split_ifs at h with hzero
      exact Or.inr ⟨by omega, Option.some.inj h⟩
    · rintro (h | ⟨rfl, rfl⟩)
      · cases h
      · rw [Nat.sub_self, if_pos rfl]

/-- A call is noted, with the task that it joins or with one of its own. -/
theorem History.push (h : History stored inputs core) {new : GetTokenAction E} {ongoingTask : Option Nat}
    (htraced : ∀ phase, new = .run forcingRefresh phase → phase = .providing ∨ forcingRefresh = false ∧ phase = .reading)
    (hjoined : ∀ ongoing, new = .wait ongoing → forcingRefresh = false ∧ core.ongoingTask = some ongoing)
    (hforcing : ∀ forcing phase, new = .run forcing phase → forcing = forcingRefresh)
    (hongoing : ∀ number, ongoingTask = some number ↔ core.ongoingTask = some number ∨
      number = core.actions.length ∧ ∃ phase, new = .run false phase ∧ phase.remaining ≠ 0) :
    History stored (inputs ++ [.token core.actions.length forcingRefresh])
      { core with actions := core.actions ++ [new], ongoingTask := ongoingTask } where
  written token htoken := (h.written token htoken).imp fun _ hbefore => hbefore.trans (List.sublist_append_left _ _)
  traced number forcing phase hnumber := by
    rcases getElem?_concat_eq_some.mp hnumber with hold | ⟨rfl, rfl⟩
    · exact (h.traced number forcing phase hold).append _
    · cases hforcing forcing phase rfl
      rcases htraced phase rfl with rfl | ⟨hfalse, rfl⟩
      · exact List.sublist_append_right _ _
      · exact ⟨hfalse, List.sublist_append_right _ _⟩
  joined caller ongoing hcaller := by
    rcases getElem?_concat_eq_some.mp hcaller with hold | ⟨rfl, rfl⟩
    · obtain ⟨phase, htask, hcalled, hfinished⟩ := h.joined caller ongoing hold
      exact ⟨phase, getElem?_concat_eq_some.mpr (Or.inl htask), hcalled.trans (List.sublist_append_left _ _),
        fun hzero => (hfinished hzero).trans (List.sublist_append_left _ _)⟩
    · obtain ⟨rfl, hrunning⟩ := hjoined ongoing rfl
      obtain ⟨phase, htask, hremaining⟩ := (h.ongoing ongoing).mp hrunning
      exact ⟨phase, getElem?_concat_eq_some.mpr (Or.inl htask), List.sublist_append_right _ _,
        fun hzero => absurd hzero hremaining⟩
  ongoing number := by
    rw [hongoing, h.ongoing]
    simp only [getElem?_concat_eq_some, or_and_right, exists_or, and_assoc, exists_and_left]
  queued number := by
    have hnew : new.queued = 0 := by
      cases new with
      | wait ongoing => rfl
      | run forcing phase =>
          cases hforcing forcing phase rfl
          rcases htraced phase rfl with rfl | ⟨-, rfl⟩ <;> rfl
    rw [h.queued, List.getElem?_append]
    split_ifs with hlt
    · rfl
    · rw [List.getElem?_eq_none (Nat.not_lt.mp hlt), List.getElem?_singleton]
      split_ifs <;> simp [hnew]

theorem History.call (h : History stored inputs core) (forcingRefresh : Bool) :
    History stored (inputs ++ [.token core.actions.length forcingRefresh]) (core.token forcingRefresh) := by
  unfold AppCheckCore.token
  split
  · refine h.push ?_ ?_ ?_ ?_ <;> simp
  · rename_i ongoing hongoing
    refine h.push ?_ ?_ ?_ ?_ <;> simp [hongoing]
  · rename_i hongoing
    refine h.push ?_ ?_ ?_ ?_ <;> simp [hongoing, TokenTaskPhase.remaining, eq_comm]

theorem History.task (h : History stored inputs core)
    (haction : core.actions[number]? = some (.run forcingRefresh phase))
    (hgoOn : core.goOn number phase event = some (rest, phase')) : History stored (inputs ++ [.task number event])
      { rest with
        actions := rest.actions.set number (.run forcingRefresh phase')
        ongoingTask := if phase'.remaining = 0 ∧ !forcingRefresh then none else rest.ongoingTask } := by
  obtain ⟨hactions, hongoing, hremaining, hfinish, hqueue⟩ := goOn_frame hgoOn
  obtain ⟨htraced, hwritten⟩ := (h.traced number _ _ haction).goOn h.written hgoOn
  have hself : (core.actions.set number (.run forcingRefresh phase'))[number]? = some (.run forcingRefresh phase') :=
    List.getElem?_set_self (List.getElem?_eq_some_iff.mp haction).1
  have hother : ∀ {other}, other ≠ number →
      (core.actions.set number (.run forcingRefresh phase'))[other]? = core.actions[other]? := fun hne =>
    List.getElem?_set_ne hne.symm
  rw [hactions, hongoing]
  refine ⟨hwritten, fun other forcing otherPhase hotherAction => ?_, fun caller ongoing hcaller => ?_, fun other => ?_,
    fun other => ?_⟩
  · by_cases hne : other = number
    · rw [hne] at hotherAction ⊢
      cases hself.symm.trans hotherAction
      exact htraced
    · exact (h.traced other _ _ ((hother hne).symm.trans hotherAction)).append _
  · have hne : caller ≠ number := by
      rintro rfl
      cases hself.symm.trans hcaller
    obtain ⟨joinedPhase, htask, hcalled, hfinished⟩ := h.joined caller ongoing ((hother hne).symm.trans hcaller)
    by_cases hnumber : ongoing = number
    · rw [hnumber] at htask ⊢
      cases haction.symm.trans htask
      refine ⟨phase', hself, hcalled.trans (List.sublist_append_left _ _), fun hzero => ?_⟩
      rw [hfinish hzero]
      exact hcalled.append_right _
    · exact ⟨joinedPhase, (hother hnumber).trans htask, hcalled.trans (List.sublist_append_left _ _),
        fun hzero => (hfinished hzero).trans (List.sublist_append_left _ _)⟩
  · have hrunning : forcingRefresh = false → core.ongoingTask = some number := fun hfalse =>
      (h.ongoing number).mpr ⟨phase, hfalse ▸ haction, Nat.ne_zero_of_lt hremaining⟩
    by_cases hne : other = number
    · rw [hne]
      simp only [hself]
      cases forcingRefresh with
      | true => simp [h.ongoing number, haction]
      | false => simp [hrunning rfl]
    · simp only [hother hne, ← h.ongoing other]
      cases forcingRefresh with
      | true => simp
      | false => simp [hrunning rfl, Ne.symm hne]
  · have hcount := hqueue other
    rw [h.queued other] at hcount
    by_cases hne : other = number
    · rw [hne, haction, if_pos rfl, if_pos rfl, Nat.add_comm] at hcount
      rw [hne, hself]
      exact Nat.add_left_cancel (n := phase.queued) hcount
    · rw [if_neg (Ne.symm hne), if_neg (Ne.symm hne)] at hcount
      rw [hother hne]
      exact hcount

theorem History.step (h : History stored inputs core) {input : TokenInput E} (hstep : core' ∈ core.step input) :
    History stored (inputs ++ [input]) core' := by
  unfold AppCheckCore.step at hstep
  split at hstep
  · obtain ⟨hcaller, hcalled⟩ := Option.ite_none_right_eq_some.mp hstep
    cases hcalled
    exact hcaller ▸ h.call _
  · split at hstep
    · obtain ⟨goneOn, hgoOn, rfl⟩ := Option.map_eq_some_iff.mp hstep
      exact h.task ‹_› hgoOn
    · cases hstep

theorem history_initial (stored : Option AppCheckCoreToken) :
    History stored [] ({ stored := stored } : AppCheckCore E) where
  written token htoken := Or.inl htoken
  traced _ _ _ h := by cases h
  joined _ _ h := by cases h
  ongoing number := by simp
  queued number := rfl

theorem history (hrun : run step { stored := stored } inputs = some core) : History stored inputs core :=
  history_run (fun _ _ _ h _ hstep => h.step hstep) (history_initial stored) hrun

/-- Every token that a task returns was issued to it after its call and then stored and announced, or it was in
the storage with five minutes left, if no refresh was forced. -/
theorem returned_of_finished (hrun : run step { stored := stored } inputs = some core)
    (hfinished : core.actions[number]? = some (.run forcingRefresh (.finished (.ok token)))) :
    Returned stored inputs number forcingRefresh token [.task number .finish] :=
  (history hrun).traced _ _ _ hfinished token rfl

/-- Calls that force nothing join the one unfinished task that forces nothing, and get its result. -/
theorem shared_task (hrun : run step { stored := stored } inputs = some core) :
    (∀ number, core.ongoingTask = some number ↔
      ∃ phase, core.actions[number]? = some (.run false phase) ∧ phase.remaining ≠ 0) ∧
    ∀ caller ongoing, core.actions[caller]? = some (.wait ongoing) → ∃ phase,
      core.actions[ongoing]? = some (.run false phase) ∧ [.token caller false] <+ inputs ∧
      (phase.remaining = 0 → [.token caller false, .task ongoing .finish] <+ inputs) :=
  ⟨(history hrun).ongoing, (history hrun).joined⟩

/-- While a task is unfinished some task can go on, and a step of a task leaves it fewer of at most seven. -/
theorem exists_step (hrun : run step { stored := stored } inputs = some core)
    (haction : core.actions[number]? = some (.run forcingRefresh phase)) (hunfinished : phase.remaining ≠ 0) :
    (∃ number event, (core.step (.task number event)).isSome) ∧ ∀ event, ∀ core' ∈ core.step (.task number event),
      ∃ phase', core'.actions[number]? = some (.run forcingRefresh phase') ∧ phase'.remaining < phase.remaining := by
  have h := history hrun
  constructor
  · cases phase with
    | reading => exact ⟨number, .getToken false, by simp [step, haction, goOn]⟩
    | checking cached => exact ⟨number, .checkExpiration 0, by simp [step, haction, goOn]⟩
    | providing => exact ⟨number, .provided (.ok ⟨"", 0, 0⟩), by simp [step, haction, goOn]⟩
    | storing token => exact ⟨number, .setToken (.ok ()), by simp [step, haction, goOn]⟩
    | announcing token => exact ⟨number, .deliver, by simp [step, haction, goOn]⟩
    | notifying token =>
        have hcount := h.queued number
        rw [haction] at hcount
        cases hqueue : core.deliveryQueue with
        | nil =>
            rw [hqueue] at hcount
            cases hcount
        | cons first rest =>
            have hfirst := h.queued first
            rw [hqueue, List.count_cons_self] at hfirst
            refine ⟨first, .tokenDidUpdate, ?_⟩
            rcases hget : core.actions[first]? with - | ongoing | ⟨forcing, phase⟩ <;> rw [hget] at hfirst
            · cases hfirst
            · cases hfirst
            · cases phase <;> first | cases hfirst | simp [step, hget, goOn, hqueue]
    | finishing result => exact ⟨number, .finish, by simp [step, haction, goOn]⟩
    | finished result => exact absurd rfl hunfinished
  · intro event core' hstep
    rw [step, haction] at hstep
    obtain ⟨goneOn, hgoOn, rfl⟩ := Option.map_eq_some_iff.mp hstep
    obtain ⟨hactions, -, hremaining, -⟩ := goOn_frame hgoOn
    exact ⟨_, List.getElem?_set_self (hactions ▸ (List.getElem?_eq_some_iff.mp haction).1), hremaining⟩

/-- A forced call beside one that is under way -/
def forcedInputs (token : AppCheckCoreToken) : List (TokenInput Unit) :=
  [.token 0 false, .token 1 true, .task 1 (.provided (.ok token)), .token 2 false, .task 1 (.setToken (.ok ())),
    .task 0 (.getToken true), .task 1 .deliver, .task 1 .tokenDidUpdate, .task 1 .finish]

theorem returned_of_forced : Returned none (forcedInputs ⟨"token", 3600, 0⟩) 1 true ⟨"token", 3600, 0⟩ [.task 1 .finish] :=
  returned_of_finished rfl rfl

theorem exists_step_of_forced :
    ∃ number event, ((({} : AppCheckCore Unit).token true).step (.task number event)).isSome :=
  (@exists_step Unit none [.token 0 true] _ 0 true .providing rfl rfl (by decide)).1

theorem shared_task_of_forced : ∃ core, run step {} (forcedInputs ⟨"token", 3600, 0⟩) = some core ∧
    ∃ phase, core.actions[0]? = some (.run false phase) ∧ phase.remaining ≠ 0 :=
  ⟨_, rfl, ((@shared_task Unit none (forcedInputs ⟨"token", 3600, 0⟩) _ rfl).1 0).mp rfl⟩

end AppCheckCore

end FirebaseSwift.AppCheck
