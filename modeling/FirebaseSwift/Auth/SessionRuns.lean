import FirebaseSwift.Auth.TokenCalls

/-! Runs of token fetches, with the user's credentials replaced and other users signed in and out meanwhile.
In each state of a run a token that a call returned is of a session that was the user's since the call
began, and no one is signed out for credentials that were replaced, as long as no call joins the refresh of
credentials replaced before, and a refresh fails only while its credentials are the current user's. -/

namespace FirebaseSwift.Auth

open AccessPrograms StepRuns

variable {S : Type} [DecidableEq S]

inductive SessionCall where
  | internalGetToken (forceRefresh : Bool)
  /-- The end of a re-authentication or of an update. -/
  | setTokenService (tokenService : SecureTokenService)
  /-- The end of a sign-in. -/
  | signIn (data : UserData)
  | signOut
deriving DecidableEq, Repr

namespace SessionCall

def code (user : UserRef) : SessionCall → Code (Option String)
  | internalGetToken forceRefresh => do
      let token ← user.internalGetToken forceRefresh
      return some token
  | setTokenService tokenService => do
      user.setTokenService tokenService
      return none
  | signIn data => do
      let made : UserRef ← Program.request (Access.makeUser data)
      updateCurrentUserLocked (some made) false true
      return none
  | signOut => do
      Auth.signOut
      return none

/-- New credentials come with tokens of one session. -/
def isOfOneSession (issuedFor : String → S) : SessionCall → Bool
  | setTokenService tokenService => decide (tokenService.IsOfOneSession issuedFor)
  | _ => true

end SessionCall

inductive SessionEvent where
  | start (call : SessionCall)
  | run (thread : Nat) (input : Input)
  /-- What the keychain answers from now on. -/
  | keychain (failure : Option AuthErrorCode)

structure SessionThread (S : Type) where
  program : Code (Option String)
  since : Nat
  failed : Option (Option S) := none

/-- The token that a call returned -/
def SessionThread.returned (self : SessionThread S) : Option String :=
  match self.program with
  | .ended (.returned token) => token
  | _ => none

structure SessionHistory (S : Type) where
  state : AuthState
  seen : List (Option S)
  wronglySignedOut : Bool := false
  threads : List (SessionThread S) := []

namespace SessionHistory

def view (self : SessionHistory S) (thread : SessionThread S) : SessionView S where
  state := self.state
  seen := self.seen
  wronglySignedOut := self.wronglySignedOut
  since := thread.since
  failed := thread.failed

variable (issuedFor : String → S) (user : UserRef)

def start (state : AuthState) : SessionHistory S where
  state := state
  seen := (state.data user).toList.map fun data => data.tokenService.session issuedFor

def step (self : SessionHistory S) : SessionEvent → Option (SessionHistory S)
  | .start call =>
      if call.isOfOneSession issuedFor then
        some { self with
          threads := self.threads ++ [{ program := call.code user, since := self.seen.length - 1 }] }
      else none
  | .run index input =>
      self.threads[index]?.bind fun thread =>
        (Program.step (SessionView.track issuedFor user) (thread.program, self.view thread) input).map
          fun now =>
            { state := now.2.state
              seen := now.2.seen
              wronglySignedOut := now.2.wronglySignedOut
              threads := self.threads.set index
                { program := now.1, since := thread.since, failed := now.2.failed } }
  | .keychain failure => some { self with state := { self.state with keychainFailure := failure } }

/-- No call joins the refresh of credentials that were replaced before it began, and no refresh fails
for credentials that were replaced, or with another user signed in. -/
def spares (self : SessionHistory S) : SessionEvent → Prop
  | .run index _ =>
      ∀ thread ∈ self.threads[index]?,
        match thread.program with
        | .access access _ => (self.view thread).spares issuedFor user access
        | .ended _ => True
  | _ => True

instance (self : SessionHistory S) (event : SessionEvent) :
    Decidable (self.spares issuedFor user event) := by
  unfold spares
  split
  · have : ∀ thread : SessionThread S, Decidable (match thread.program with
        | .access access _ => (self.view thread).spares issuedFor user access
        | .ended _ => True) := fun thread => by
      split <;> infer_instance
    infer_instance
  · infer_instance

/-- The tokens returned are of sessions that were the user's since the call began, and no one was signed
out for credentials that were replaced or are another user's. -/
structure RespectsSessions (history : SessionHistory S) : Prop where
  tokens : ∀ thread ∈ history.threads, ∀ token, thread.program = .ended (.returned (some token)) →
    ∃ session ∈ history.seen.drop thread.since, IsTokenOf issuedFor token session
  signedOut : history.wronglySignedOut = false

structure Kept (history : SessionHistory S) : Prop where
  view : ∀ thread, SessionView.Kept issuedFor user (history.view thread)
  threads : ∀ thread ∈ history.threads,
    Keeps issuedFor user (fun returned later => ∀ token ∈ returned, IsSeenToken issuedFor token later)
      thread.program (history.view thread)

variable {issuedFor user} {self : SessionHistory S}

theorem Kept.respectsSessions (h : Kept issuedFor user self) : RespectsSessions issuedFor self where
  tokens := by
    intro thread hthread token htoken
    have hkeeps := h.threads thread hthread
    rw [htoken] at hkeeps
    exact hkeeps (self.view thread) (SessionView.Later.refl _) token rfl
  signedOut := (h.view { program := .ended (.returned none), since := 0 }).signedOut

variable {view : SessionView S}

theorem keeps_signIn (data : UserData) :
    Keeps issuedFor user (fun returned later => ∀ token ∈ returned, IsSeenToken issuedFor token later)
      ((SessionCall.signIn data).code user) view := by
  have hmake : Keeps issuedFor user (fun _ _ => True) (Program.request (Access.makeUser data)) view := by
    apply Keeps.request
    intro later _ _ _ answer after _ hperform
    cases hperform
    refine ⟨SessionView.later_of_user rfl rfl (fun h => h) fun object hobject => ?_, fun _ _ => trivial⟩
    exact AuthState.user_of_prefixed (List.prefix_append _ _) hobject
  apply hmake.andThen
  intro made _ _ _
  have hupdate : ∀ {view : SessionView S}, Keeps issuedFor user (fun _ _ => True)
      (updateCurrentUserLocked (some made) false true) view := by
    intro view
    have hrequest : Keeps issuedFor user (fun _ _ => True)
        (Program.request (Access.updateCurrentUser (some made) false true)) view := by
      apply Keeps.request
      intro later _ _ _ answer after _ hperform
      have husers := @AuthState.updateCurrentUser_users later.state (some made) false true
      rw [show later.state.updateCurrentUser (some made) false true = (answer, after) from
        Option.some.inj hperform] at husers
      refine ⟨SessionView.later_of_user rfl rfl (fun h => h) fun object hobject => ?_, fun _ _ => trivial⟩
      exact AuthState.user_of_prefixed (husers ▸ List.prefix_rfl) hobject
    exact hrequest.andThen fun _ _ _ _ => Keeps.orThrow fun _ _ _ _ => trivial
  apply hupdate.andThen
  intro _ _ _ _
  exact Keeps.pure fun _ _ _ h => nomatch h

theorem keeps_signOut :
    Keeps issuedFor user (fun returned later => ∀ token ∈ returned, IsSeenToken issuedFor token later)
      (SessionCall.signOut.code user) view := by
  have hsignOut : Keeps issuedFor user (fun _ _ => True) Auth.signOut view := by
    have hrequest : Keeps issuedFor user (fun _ _ => True) (Program.request Access.signOut) view := by
      apply Keeps.request
      intro later _ _ _ answer after _ hperform
      have husers := @AuthState.signOut_users later.state
      rw [show later.state.signOut = (answer, after) from Option.some.inj hperform] at husers
      refine ⟨SessionView.later_of_user rfl rfl (fun h => h) fun object hobject => ?_, fun _ _ => trivial⟩
      exact AuthState.user_of_prefixed (husers ▸ List.prefix_rfl) hobject
    exact hrequest.andThen fun _ _ _ _ => Keeps.orThrow fun _ _ _ _ => trivial
  apply hsignOut.andThen
  intro _ _ _ _
  exact Keeps.pure fun _ _ _ h => nomatch h

/-- What a call returns when it begins with the last session seen. -/
theorem keeps_call (hkept : SessionView.Kept issuedFor user view) (hsince : view.since < view.seen.length)
    {call : SessionCall} (hcall : call.isOfOneSession issuedFor = true) :
    Keeps issuedFor user (fun returned later => ∀ token ∈ returned, IsSeenToken issuedFor token later)
      (call.code user) view := by
  cases call with
  | internalGetToken forceRefresh =>
      apply (keeps_internalGetToken hkept hsince forceRefresh).andThen
      intro token later _ htoken
      apply Keeps.pure
      intro last hlast returned hreturned
      obtain rfl := Option.some.inj hreturned
      exact htoken.later hlast
  | setTokenService tokenService =>
      apply (keeps_setTokenService (of_decide_eq_true hcall)).andThen
      intro _ _ _ _
      exact Keeps.pure fun _ _ _ h => nomatch h
  | signIn data => exact keeps_signIn data
  | signOut => exact keeps_signOut

theorem kept_start {state : AuthState} {object : User} (hobject : state.user user = some object)
    (htokens : object.userData.tokenService.IsOfOneSession issuedFor) (hrefresh : object.tokenRefresh = {}) :
    Kept issuedFor user (start issuedFor user state) where
  view := by
    intro thread
    refine ⟨rfl, object, hobject, htokens, ?_, hrefresh ▸ TokenRefresh.formed_new⟩
    have hdata : state.data user = some object.userData := congrArg (Option.map User.userData) hobject
    have hseen : (start issuedFor user state).seen = [object.userData.tokenService.session issuedFor] := by
      rw [start, hdata]
      rfl
    exact congrArg List.getLast? hseen
  threads := fun _ h => absurd h List.not_mem_nil

theorem Kept.step (h : Kept issuedFor user self) {event : SessionEvent}
    (hspares : self.spares issuedFor user event) :
    ∀ self' ∈ self.step issuedFor user event, Kept issuedFor user self' := by
  intro self' hself'
  cases event with
  | start call =>
      rw [SessionHistory.step] at hself'
      split_ifs at hself' with hcall
      · cases hself'
        refine ⟨h.view, fun thread hthread => ?_⟩
        rcases List.mem_append.mp hthread with hold | hnew
        · exact h.threads thread hold
        · obtain rfl := List.mem_singleton.mp hnew
          refine keeps_call (h.view _) ?_ hcall
          obtain ⟨_, _, _, hlast, _⟩ :=
            (h.view { program := .ended (.returned none), since := 0 }).object
          exact Nat.sub_lt (List.length_pos_iff_exists_mem.mpr ⟨_, List.mem_of_getLast? hlast⟩)
            Nat.one_pos
      · cases hself'
  | keychain failure =>
      cases hself'
      have hlater : ∀ thread, SessionView.Later issuedFor user (self.view thread)
          ({ self with state := { self.state with keychainFailure := failure } }.view thread) := fun _ =>
        SessionView.later_of_user rfl rfl (fun h => h) fun _ hobject => hobject
      exact ⟨fun thread => ((hlater thread).kept (h.view thread)).1, fun thread hthread =>
        (h.threads thread hthread).of_rely SessionView.Later.trans (hlater thread)⟩
  | run index input =>
      obtain ⟨thread, hthread, hmap⟩ := Option.bind_eq_some_iff.mp hself'
      obtain ⟨now, hnow, rfl⟩ := Option.map_eq_some_iff.mp hmap
      have hmem : thread ∈ self.threads := List.mem_of_getElem? hthread
      have hspared : now ∈ Program.step (SessionView.trackSpared issuedFor user)
          (thread.program, self.view thread) input := by
        have hspares := hspares thread hthread
        cases hprogram : thread.program with
        | ended outcome =>
            rw [hprogram] at hnow
            cases hnow
        | access access next =>
            rw [hprogram] at hnow hspares
            obtain ⟨performed, hperformed, rfl⟩ := Option.map_eq_some_iff.mp hnow
            exact Option.map_eq_some_iff.mpr ⟨performed, (if_pos hspares).trans hperformed, rfl⟩
      obtain ⟨hlater, hnext⟩ := (h.threads thread hmem).step (SessionView.Later.refl _) hspared
      have hothers : ∀ other : SessionThread S, ∀ failed, SessionView.Later issuedFor user (self.view other)
          { now.2 with since := other.since, failed := failed } := fun other failed =>
        hlater.ofOther other.since other.failed failed
      refine ⟨fun other => ?_, fun other hother => ?_⟩
      · exact ((hothers other other.failed).kept (h.view other)).1
      · rcases List.mem_or_eq_of_mem_set hother with hold | rfl
        · exact (h.threads other hold).of_rely SessionView.Later.trans (hothers other other.failed)
        · have hsince : now.2.since = thread.since := hlater.since
          rw [← hsince]
          exact hnext

/-- In all states of a run the sessions are respected, if every step has the condition. -/
theorem respectsSessions_run {state : AuthState} {object : User} (hobject : state.user user = some object)
    (htokens : object.userData.tokenService.IsOfOneSession issuedFor) (hrefresh : object.tokenRefresh = {})
    {events : List SessionEvent}
    (hall : AllSteps (step issuedFor user) (spares issuedFor user) (start issuedFor user state) events) :
    ∀ before, before <+: events → ∀ self' ∈ run (step issuedFor user) (start issuedFor user state) before,
      self'.RespectsSessions issuedFor := by
  rintro before ⟨rest, rfl⟩ self' hself'
  have hkept := invariant_run (fun _ _ h hspares => h.step hspares)
    (kept_start hobject htokens hrefresh) hall.of_append hself'
  exact hkept.respectsSessions

/-- The tokens whose names begin with "new" are of session 1. -/
def sampleSession (token : String) : Nat :=
  if token = "new access" ∨ token = "new refresh" then 1 else 0

/-- A user who is signed in, with an access token that has expired. -/
def signedIn : User where
  userData := .withTokenService
    { requestConfiguration := some { apiKey := "key", appID := "app" }
      accessToken := "old access"
      accessTokenExpirationDate := none
      refreshToken := some "old refresh" }
  auth := .this

def signedInState : AuthState where
  users := [signedIn]
  requestConfiguration := { apiKey := "key", appID := "app" }
  currentUser := some ⟨0⟩

/-- A refresh is under way when the token service is replaced. -/
def replacedWhileRefreshing : List SessionEvent :=
  [.start (.internalGetToken true), .run 0 .proceed, .run 0 .proceed,
    .start (.setTokenService
      { requestConfiguration := some { apiKey := "key", appID := "app" }
        accessToken := "new access"
        accessTokenExpirationDate := some 3600
        refreshToken := some "new refresh" }),
    .run 1 (.now 0), .run 1 .proceed, .run 1 .proceed, .run 1 .proceed]

/-- The refresh succeeds. -/
def refreshed : List SessionEvent :=
  [.run 0 (.tokens (.ok
      { accessToken := "old access 2"
        approximateExpirationDate := some 3600
        refreshToken := none
        tokenExpirationDate := none })),
    .run 0 .proceed, .run 0 .proceed, .run 0 .proceed, .run 0 .proceed, .run 0 .proceed]

theorem respectsSessions_run_replaced :
    (run (step sampleSession ⟨0⟩) (start sampleSession ⟨0⟩ signedInState)
        (replacedWhileRefreshing ++ refreshed)).isSome = true ∧
      ∀ before, before <+: replacedWhileRefreshing ++ refreshed →
        ∀ self' ∈ run (step sampleSession ⟨0⟩) (start sampleSession ⟨0⟩ signedInState) before,
          self'.RespectsSessions sampleSession := by
  have hobject : signedInState.user ⟨0⟩ = some signedIn := rfl
  exact ⟨by decide +kernel, respectsSessions_run hobject (by decide) rfl (by decide +kernel)⟩

/-- A call that begins after the replacement joins the refresh from before. -/
def joinedAfterReplacement : List SessionEvent :=
  replacedWhileRefreshing ++ [.start (.internalGetToken true), .run 2 .proceed, .run 2 .proceed] ++
    refreshed ++ [.run 2 .proceed, .run 2 .proceed, .run 2 .proceed]

/-- The refresh fails, since the credentials that were replaced are not valid any more. -/
def failedAfterReplacement : List SessionEvent :=
  replacedWhileRefreshing ++ [.run 0 (.tokens (.error .userTokenExpired)),
    .run 0 .proceed, .run 0 .proceed, .run 0 .proceed, .run 0 .proceed, .run 0 .proceed]

/-- The call that began after the replacement returns a token of the session from before, and the user is
signed out for the failure of a refresh of the credentials from before. -/
theorem respectsSessions_fails :
    (∃ self' ∈ run (step sampleSession ⟨0⟩) (start sampleSession ⟨0⟩ signedInState) joinedAfterReplacement,
      ¬self'.RespectsSessions sampleSession) ∧
    ∃ self' ∈ run (step sampleSession ⟨0⟩) (start sampleSession ⟨0⟩ signedInState) failedAfterReplacement,
      self'.state.currentUser = none ∧ ¬self'.RespectsSessions sampleSession := by
  constructor
  · have hrun : (run (step sampleSession ⟨0⟩) (start sampleSession ⟨0⟩ signedInState)
        joinedAfterReplacement).map (fun self' =>
          (self'.seen, self'.threads[2]?.map fun thread => (thread.since, thread.returned))) =
        some ([some 0, some 1], some (1, some "old access 2")) := by
      decide +kernel
    obtain ⟨self', hself', hvalues⟩ := Option.map_eq_some_iff.mp hrun
    obtain ⟨hseen, hthread⟩ := Prod.mk.inj hvalues
    obtain ⟨thread, hthread, hreturned⟩ := Option.map_eq_some_iff.mp hthread
    obtain ⟨hsince, hreturned⟩ := Prod.mk.inj hreturned
    refine ⟨self', hself', fun h => ?_⟩
    rw [SessionThread.returned] at hreturned
    split at hreturned
    case h_2 => cases hreturned
    case h_1 token hprogram =>
      subst hreturned
      obtain ⟨session, hsession, htoken⟩ := h.tokens thread (List.mem_of_getElem? hthread) _ hprogram
      rw [hseen, hsince] at hsession
      obtain rfl : session = some 1 := List.mem_singleton.mp hsession
      exact absurd htoken (by decide)
  · have hrun : (run (step sampleSession ⟨0⟩) (start sampleSession ⟨0⟩ signedInState)
        failedAfterReplacement).map (fun self' => (self'.state.currentUser, self'.wronglySignedOut)) =
          some (none, true) := by
      decide +kernel
    obtain ⟨self', hself', hvalues⟩ := Option.map_eq_some_iff.mp hrun
    obtain ⟨hcurrent, hwrongly⟩ := Prod.mk.inj hvalues
    exact ⟨self', hself', hcurrent, fun h => Bool.false_ne_true (h.signedOut.symm.trans hwrongly)⟩

end SessionHistory

end FirebaseSwift.Auth
