import FirebaseSwift.Auth.TokenRequests

/-! Runs of an app: its operations in every interleaving, and new processes with what was stored. In every
state the current user's token can be fetched, and no operation has reached the trap of a token request, if
no user without a configuration becomes current or has an operation started on it. Those are the stored users
that the app gets from an access group. -/

namespace FirebaseSwift.Auth

open AccessPrograms StepRuns AuthState

section Operations

variable {state : AuthState} {user : UserRef}

theorem fetches_requestConfiguration : Fetches (fun _ _ => True) requestConfiguration state :=
  Fetches.access _ fun _ _ _ => trivial

theorem fetches_makeUser {data : UserData} (h : data.tokenService.IsUsable) :
    Fetches (fun made later => later.IsUsable made) (Program.request (Access.makeUser data) : Code UserRef) state := by
  apply Fetches.request (.makeUser data)
  intro later _ _
  refine ⟨trivial, fun input answer after hperform last hlast => ?_⟩
  cases hperform
  exact hlast.usable _ ⟨data, data_makeUser data .this, h⟩

theorem fetches_own {β : Type} {code : Code β} (hown : OwnCode SecureTokenService.IsUsable user false code)
    (h : state.IsUsable user) : Fetches (fun _ _ => True) code state := hown.fetches h

/-- The user that a sign-in makes has a configuration and a refresh token. -/
theorem fetches_retrieveUser (accessToken : String) (accessTokenExpirationDate : Option Date)
    (refreshToken : String) (anonymous : Bool) : Fetches (fun user later => later.IsUsable user)
      (retrieveUser accessToken accessTokenExpirationDate refreshToken anonymous) state := by
  apply fetches_requestConfiguration.andThen
  intro configuration _ _ _
  apply (fetches_makeUser ⟨rfl, rfl⟩).andThen
  intro made _ _ husable
  apply (Fetches.access .tenantID fun _ _ _ => trivial).keeping husable
  intro tenantID _ husable
  apply (fetches_assign husable (.tenantID tenantID) fun _ h => h).keeping husable
  intro _ _ husable
  apply fetches_requestConfiguration.keeping husable
  intro configuration _ husable
  apply (fetches_assign husable (.requestConfiguration configuration) fun _ h => h).keeping husable
  intro _ _ husable
  apply (fetches_own (OwnCode.internalGetToken false) husable).keeping husable
  intro accessToken _ husable
  apply (fetches_userdata husable).andThen
  intro data _ hlater _
  have husable := hlater.usable made husable
  apply (Fetches.post _ _).keeping husable
  intro response _ husable
  apply (fetches_assign husable (.isAnonymous anonymous) fun _ h => h).keeping husable
  intro _ _ husable
  apply (fetches_own (OwnCode.update response) husable).keeping husable
  intro _ _ husable
  exact Fetches.pure fun last hlast => hlast.usable made husable

theorem fetches_completeSignIn (response : SignInResponse) (anonymous : Bool) :
    Fetches (fun user later => later.IsUsable user) (completeSignIn response anonymous) state :=
  fetches_retrieveUser _ _ _ anonymous

theorem fetches_signInWithPhoneCredential (credential : AuthCredential) (isReauthentication : Bool) :
    Fetches (fun _ _ => True) (signInWithPhoneCredential credential isReauthentication) state := by
  have hpost : ∀ request : Request, Fetches (fun _ _ => True)
      (do
        let configuration ← requestConfiguration
        Code.post request configuration) state :=
    fun request => fetches_requestConfiguration.andThen fun _ _ _ _ => Fetches.post request _
  cases credential with
  | phoneNumber temporaryProof phoneNumber => exact hpost _
  | phoneVerification verificationID verificationCode =>
      exact Fetches.ite (Fetches.throw _ _) (Fetches.ite (Fetches.throw _ _) (hpost _))
  | _ => exact Fetches.throw _ _

theorem fetches_internalSignInAndRetrieveData (credential : AuthCredential) (isReauthentication : Bool) :
    Fetches (fun user later => later.IsUsable user)
      (internalSignInAndRetrieveData credential isReauthentication) state := by
  have hpost : ∀ (request : Request) {f : request.Response → Code UserRef},
      (∀ response later, Fetches (fun user later => later.IsUsable user) (f response) later) →
      Fetches (fun user later => later.IsUsable user)
        (do
          let configuration ← requestConfiguration
          let response ← Code.post request configuration
          f response) state := by
    intro request f hf
    apply fetches_requestConfiguration.andThen
    intro configuration _ _ _
    apply (Fetches.post request configuration).andThen
    exact fun response later _ _ => hf response later
  cases credential with
  | emailLink email oobCode =>
      cases oobCode with
      | none => exact Fetches.trap (by decide) _
      | some oobCode => exact hpost _ fun response _ => fetches_completeSignIn response false
  | emailPassword email password =>
      apply fetches_requestConfiguration.andThen
      intro configuration _ _ _
      split
      · exact Fetches.throw _ _
      · apply (Fetches.post _ _).andThen
        exact fun response _ _ _ => fetches_completeSignIn response false
  | gameCenter playerID publicKeyURL signature salt =>
      cases publicKeyURL with
      | none => exact Fetches.trap (by decide) _
      | some publicKeyURL =>
          cases signature with
          | none => exact Fetches.trap (by decide) _
          | some signature =>
              cases salt with
              | none => exact Fetches.trap (by decide) _
              | some salt => exact hpost _ fun response _ => fetches_completeSignIn response false
  | provider provider =>
      apply hpost
      intro response _
      split
      · exact Fetches.throw _ _
      · split
        · exact Fetches.throw _ _
        · exact fetches_completeSignIn response false
  | phoneNumber | phoneVerification =>
      apply (fetches_signInWithPhoneCredential _ isReauthentication).andThen
      intro response _ _ _
      split
      · exact fetches_retrieveUser _ _ _ false
      · exact Fetches.throw _ _

theorem fetches_updateCurrentUserLocked {newUser : Option UserRef}
    (h : ∀ user, newUser = some user → state.IsUsable user) (force saveToDisk : Bool) :
    Fetches (fun _ _ => True) (updateCurrentUserLocked newUser force saveToDisk) state := by
  apply (Fetches.access (.updateCurrentUser newUser force saveToDisk) ?_).andThen
  · exact fun _ _ _ _ => Fetches.orThrow
  · exact fun later hlater _ user huser => hlater.usable user (h user huser)

theorem fetches_thenCurrent {code : Code UserRef} (force : Bool)
    (h : Fetches (fun user later => later.IsUsable user) code state) : Fetches (fun _ _ => True)
      (do
        let user ← code
        updateCurrentUserLocked (some user) force true) state := by
  apply h.andThen
  intro user later _ husable
  refine fetches_updateCurrentUserLocked (fun other hother => ?_) force true
  exact Option.some.inj hother ▸ husable

theorem fetches_signUp (email password : Option String) (anonymous : Bool) :
    Fetches (fun _ _ => True) (signUp email password anonymous) state := by
  apply fetches_requestConfiguration.andThen
  intro configuration _ _ _
  apply (Fetches.post _ _).andThen
  exact fun response _ _ _ => fetches_thenCurrent false (fetches_completeSignIn response anonymous)

/-- The current user, as long as it is usable, stays so while it is looked at. -/
theorem fetches_signInAnonymously (h : state.IsSafe) : Fetches (fun _ _ => True) signInAnonymously state := by
  have hcurrent : Fetches (fun (answer : Option UserRef) later => ∀ user, answer = some user → later.IsUsable user)
      (Program.request Access.currentUser) state := by
    apply Fetches.request .currentUser
    intro later hlater _
    refine ⟨trivial, fun input answer after hperform last hlast user huser => ?_⟩
    cases hperform
    exact hlast.usable user ((hlater.safe h).current user huser)
  apply hcurrent.andThen
  intro answer _ _ husable
  cases answer with
  | none => exact fetches_signUp none none true
  | some currentUser =>
      have husable := husable currentUser rfl
      apply (fetches_userdata husable).andThen
      intro data later hlater _
      split
      · refine fetches_updateCurrentUserLocked (fun other hother => ?_) false true
        exact Option.some.inj hother ▸ hlater.usable currentUser husable
      · exact fetches_signUp none none true

theorem fetches_updateCurrentUser (h : state.IsUsable user) :
    Fetches (fun _ _ => True) (updateCurrentUser user) state := by
  apply fetches_requestConfiguration.keeping h
  intro myConfiguration _ h
  apply (fetches_userdata h).andThen
  intro data _ hlater _
  have h := hlater.usable user h
  have hreload : OwnCode SecureTokenService.IsUsable user false (do
      user.assign (.requestConfiguration myConfiguration)
      user.reload) := OwnCode.bind (OwnCode.assign fun _ h => h) fun _ => OwnCode.reload
  apply (fetches_own (OwnCode.when fun _ => hreload) h).keeping h
  intro _ _ h
  refine fetches_updateCurrentUserLocked (fun other hother => ?_) true true
  exact Option.some.inj hother ▸ h

theorem fetches_reauthenticate (h : state.IsUsable user) (credential : AuthCredential) :
    Fetches (fun _ _ => True) (user.reauthenticate credential) state := by
  apply (Fetches.access (.userRequestConfiguration user) fun _ _ _ => trivial).keeping h
  intro configuration _ h
  cases configuration with
  | none => exact Fetches.throw _ _
  | some configuration =>
      refine Fetches.andThen ((fetches_internalSignInAndRetrieveData credential true).handle ?_) ?_
      · exact fun error _ _ => Fetches.throw _ _
      · intro made _ hlater hmade
        have h := hlater.usable user h
        apply (fetches_userdata hmade).andThen
        intro data _ hlater _
        have h := hlater.usable user h
        have hmade := hlater.usable made hmade
        apply (Fetches.access .getUserID fun _ _ _ => trivial).andThen
        intro userID _ hlater _
        have h := hlater.usable user h
        have hmade := hlater.usable made hmade
        split
        · exact Fetches.throw _ _
        · apply (fetches_userdata hmade).andThen
          intro data _ hlater hdata
          exact fetches_own (OwnCode.setTokenService hdata) (hlater.usable user h)

/-- The token of the user that an operation works on can be fetched. -/
def Operation.startsUsable (state : AuthState) : Operation → Bool
  | .user user _ => decide (state.IsUsable user)
  | .auth (.updateCurrentUser user) => decide (state.IsUsable user)
  | .auth _ => true

theorem fetches_user (h : state.IsUsable user) (operation : UserOperation) :
    Fetches (fun _ _ => True) (operation.code user) state := by
  have hmade : ∀ tokenService : SecureTokenService, tokenService.IsUsable → tokenService.IsUsable := fun _ => id
  cases operation with
  | setDisplayName displayName => exact fetches_assign h _ fun _ h => h
  | setPhotoURL photoURL => exact fetches_assign h _ fun _ h => h
  | setTenantID tenantID => exact fetches_assign h _ fun _ h => h
  | useRequestConfiguration configuration =>
      exact Fetches.access (.withUserData user _) fun _ _ _ _ h => ⟨rfl, h.2⟩
  | reload => exact fetches_own OwnCode.reload h
  | updateEmail email => exact fetches_own (OwnCode.updateEmailOrPassword hmade _ _) h
  | updatePassword password => exact fetches_own (OwnCode.updatePassword hmade password) h
  | updatePhoneNumber credential =>
      exact fetches_own (OwnCode.internalUpdateOrLinkPhoneNumber hmade credential false) h
  | commitChanges displayName photoURL => exact fetches_own (OwnCode.commitChanges hmade displayName photoURL) h
  | link credential => exact fetches_own (OwnCode.link hmade credential) h
  | unlink provider => exact fetches_own (OwnCode.unlink hmade provider) h
  | reauthenticate credential => exact fetches_reauthenticate h credential
  | internalGetToken forceRefresh =>
      exact fetches_own (OwnCode.bind (OwnCode.internalGetToken forceRefresh) fun _ => OwnCode.pure ()) h
  | signOutIfSessionIsInvalid error => exact (OwnCode.signOutIfSessionIsInvalid error).fetches h

theorem fetches_operation (h : state.IsSafe) {operation : Operation}
    (hstarts : operation.startsUsable state = true) : Fetches (fun _ _ => True) operation.code state := by
  cases operation with
  | user user operation => exact fetches_user (of_decide_eq_true hstarts) operation
  | auth operation =>
      cases operation with
      | signIn credential =>
          exact fetches_thenCurrent false (fetches_internalSignInAndRetrieveData credential false)
      | signInAnonymously => exact fetches_signInAnonymously h
      | signInWithCustomToken token =>
          apply fetches_requestConfiguration.andThen
          intro configuration _ _ _
          apply (Fetches.post _ _).andThen
          exact fun response _ _ _ => fetches_thenCurrent false (fetches_completeSignIn response false)
      | createUser email password =>
          exact Fetches.ite (Fetches.throw _ _) (Fetches.ite (Fetches.throw _ _) (fetches_signUp _ _ false))
      | signOut => exact (Fetches.access .signOut fun _ _ _ => trivial).andThen fun _ _ _ _ => Fetches.orThrow
      | updateCurrentUser user => exact fetches_updateCurrentUser (of_decide_eq_true hstarts)
      | useUserAccessGroup accessGroup =>
          apply (Fetches.access (.useUserAccessGroup accessGroup) fun _ _ hadopts => hadopts).andThen
          exact fun _ _ _ _ => Fetches.orThrow
      | getStoredUser accessGroup =>
          have hread : Fetches (fun _ _ => True) (getStoredUser accessGroup) state :=
            (Fetches.access (.getStoredUser accessGroup) fun _ _ _ => trivial).andThen fun _ _ _ _ =>
              Fetches.orThrow
          exact hread.andThen fun _ _ _ _ => Fetches.pure fun _ _ => trivial

end Operations

/-- What happens in an app: steps of its operations, and what they do not do themselves. -/
inductive AppEvent where
  | threads (event : ThreadEvent)
  /-- A new process, with what was stored. -/
  | startUp (now : Date)
  | protectedDataDidBecomeAvailable (now : Date)
  /-- A user object of another app's `Auth`. -/
  | otherAppUser (data : UserData) (configuration : AuthRequestConfiguration)
  | setTenantID (tenantID : Option String)
  | setShareAuthStateAcrossDevices (shareAuthStateAcrossDevices : Bool)

namespace Threads

def appStep (self : Threads) : AppEvent → Option Threads
  | .threads event => self.step event
  | .startUp now => some { state := self.state.startUp now }
  | .protectedDataDidBecomeAvailable now =>
      some { self with state := self.state.protectedDataDidBecomeAvailable now }
  | .otherAppUser data configuration =>
      some { self with state := (self.state.makeUser data (.otherApp configuration)).2 }
  | .setTenantID tenantID => some { self with state := { self.state with tenantID := tenantID } }
  | .setShareAuthStateAcrossDevices shareAuthStateAcrossDevices =>
      some { self with state := { self.state with shareAuthStateAcrossDevices := shareAuthStateAcrossDevices } }

/-- No stored user without a configuration becomes current, and no operation is started on such a user. -/
def configures (self : Threads) : AppEvent → Bool
  | .threads (.start operation) => operation.startsUsable self.state
  | .threads event => !(self.nextAccess event).any fun access => self.state.adopts access
  | .startUp _ => !self.state.adoptsAtStart
  | .protectedDataDidBecomeAvailable _ => !self.state.adoptsWhenAvailable
  | _ => true

/-- The current user's token can be fetched, and no token request has been made in vain. -/
structure NeverTraps (app : Threads) : Prop where
  current : ∀ user, app.state.currentUser = some user → app.state.IsUsable user
  threads : ∀ program ∈ app.threads, program ≠ Program.trap SecureTokenService.missingTokens

structure Configured (app : Threads) : Prop where
  safe : app.state.IsSafe
  threads : ∀ program ∈ app.threads, Fetches (fun _ _ => True) program app.state

variable {self self' : Threads}

theorem Configured.neverTraps (h : self.Configured) : self.NeverTraps where
  current := h.safe.current
  threads program hprogram htrap := by
    subst htrap
    exact h.threads _ hprogram self.state (Advances.refl _) rfl

theorem Configured.advance {state : AuthState} (h : self.Configured) (hstate : Advances self.state state) :
    Configured { self with state := state } :=
  ⟨hstate.safe h.safe, fun program hprogram =>
    (h.threads program hprogram).of_rely Advances.trans hstate⟩

theorem Configured.run (h : self.Configured) {thread : Nat} {input : Input}
    (hadopts : ∀ access, self.nextAccess (.run thread input) = some access → self.state.adopts access = false)
    (hstep : self' ∈ self.step (.run thread input)) : self'.Configured := by
  obtain ⟨program, hprogram, hmap⟩ := Option.bind_eq_some_iff.mp hstep
  obtain ⟨now, hnow, rfl⟩ := Option.map_eq_some_iff.mp hmap
  have hrefused : now ∈ Program.step performUnlessAdopting (program, self.state) input := by
    cases program with
    | ended outcome => cases hnow
    | access access next =>
        obtain ⟨performed, hperformed, rfl⟩ := Option.map_eq_some_iff.mp hnow
        have hnone := hadopts access (by simp only [nextAccess, hprogram])
        exact Option.map_eq_some_iff.mpr
          ⟨performed, (if_neg (ne_true_of_eq_false hnone)).trans hperformed, rfl⟩
  obtain ⟨hadvances, hnext⟩ :=
    (h.threads program (List.mem_of_getElem? hprogram)).step (Advances.refl _) hrefused
  refine ⟨hadvances.safe h.safe, fun other hother => ?_⟩
  rcases List.mem_or_eq_of_mem_set hother with hold | rfl
  · exact (h.threads other hold).of_rely Advances.trans hadvances
  · exact hnext

theorem Configured.step (h : self.Configured) {event : AppEvent} (hconfigures : self.configures event = true)
    (hstep : self' ∈ self.appStep event) : self'.Configured := by
  cases event with
  | threads event =>
      cases event with
      | start operation =>
          cases hstep
          refine ⟨h.safe, fun program hprogram => ?_⟩
          rcases List.mem_append.mp hprogram with hold | hnew
          · exact h.threads program hold
          · rw [List.mem_singleton.mp hnew]
            exact fetches_operation h.safe hconfigures
      | run thread input =>
          refine h.run (fun access haccess => ?_) hstep
          have hnone : (!(self.nextAccess (.run thread input)).any fun access => self.state.adopts access) = true :=
            hconfigures
          rw [haccess] at hnone
          exact (Bool.not_eq_true' _).mp hnone
      | keychain failure =>
          cases hstep
          exact h.advance ⟨fun _ => id, fun hsafe => ⟨hsafe.current, hsafe.stored⟩⟩
  | startUp now =>
      cases hstep
      exact ⟨h.safe.startUp now ((Bool.not_eq_true' _).mp hconfigures), fun _ hnone => nomatch hnone⟩
  | protectedDataDidBecomeAvailable now =>
      cases hstep
      exact h.advance (h.safe.protectedDataDidBecomeAvailable now ((Bool.not_eq_true' _).mp hconfigures))
  | otherAppUser data configuration =>
      cases hstep
      exact h.advance (advances_makeUser data _)
  | setTenantID tenantID =>
      cases hstep
      exact h.advance ⟨fun _ => id, fun hsafe => ⟨hsafe.current, hsafe.stored⟩⟩
  | setShareAuthStateAcrossDevices shareAuthStateAcrossDevices =>
      cases hstep
      exact h.advance ⟨fun _ => id, fun hsafe => ⟨hsafe.current, hsafe.stored⟩⟩

/-- In all states of a run tokens can be fetched, if every step has the condition. -/
theorem neverTraps_run {state : AuthState} (h : state.IsSafe) {events : List AppEvent}
    (hall : AllSteps appStep (fun self event => self.configures event = true) { state := state } events) :
    ∀ before, before <+: events → ∀ self' ∈ run appStep { state := state } before, self'.NeverTraps := by
  rintro before ⟨rest, rfl⟩ self' hself'
  have hstart : Configured { state := state } := ⟨h, fun _ hnone => nomatch hnone⟩
  have hconfigured : self'.Configured :=
    invariant_run (fun _ _ h hconfigures _ hstep => h.step hconfigures hstep) hstart hall.of_append hself'
  exact hconfigured.neverTraps

/-- An app whose access group has a user that another app of the group stored. -/
def groupMember : AuthState where
  users := []
  requestConfiguration := { apiKey := "key", appID := "app" }
  keychain := fun item =>
    if item = .shared "group" false then
      some (UserData.encode (.withTokenService
        { requestConfiguration := none
          accessToken := "access"
          accessTokenExpirationDate := none
          refreshToken := some "refresh" }))
    else none

theorem isSafe_groupMember : groupMember.IsSafe where
  current user hnone := nomatch hnone
  stored item stored hstored := by
    obtain ⟨-, hsome⟩ := Option.ite_none_right_eq_some.mp hstored
    cases hsome
    rfl

/-- What comes from outside during a sign-in with a custom token. -/
def signInInputs : List Input :=
  [.proceed,
    .signedIn (.ok
      { idToken := "access"
        approximateExpirationDate := some 3600
        refreshToken := "refresh" })] ++
    List.replicate 9 .proceed ++ [.now 0, .proceed, .accountInfo (.ok { localID := some "uid" })] ++
    List.replicate 23 .proceed

/-- A sign-in of the app's own user, and a refresh of its token. -/
def signInAndRefresh : List AppEvent :=
  [.startUp 0, .threads (.start (.auth (.signInWithCustomToken "token")))] ++
    signInInputs.map (fun input => .threads (.run 0 input)) ++
    [.threads (.start (.user ⟨0⟩ (.internalGetToken true))), .threads (.run 1 .proceed),
      .threads (.run 1 .proceed),
      .threads (.run 1 (.tokens (.ok
        { accessToken := "access2"
          approximateExpirationDate := some 3600
          refreshToken := none
          tokenExpirationDate := none })))]

theorem neverTraps_run_signedIn :
    (run appStep { state := groupMember } signInAndRefresh).isSome = true ∧
      ∀ before, before <+: signInAndRefresh →
        ∀ self' ∈ run appStep { state := groupMember } before, self'.NeverTraps :=
  ⟨by decide +kernel, neverTraps_run isSafe_groupMember (by decide +kernel)⟩

def isTrapped : Code Unit → Bool
  | .ended (.trapped message) => decide (message = SecureTokenService.missingTokens)
  | _ => false

/-- The app switches to the access group, and fetches a token of the user that it finds there. -/
def switchAndRefresh : List AppEvent :=
  [.startUp 0, .threads (.start (.auth (.useUserAccessGroup (some "group")))), .threads (.run 0 (.now 0)),
    .threads (.start (.user ⟨0⟩ (.internalGetToken true))), .threads (.run 1 .proceed),
    .threads (.run 1 .proceed)]

/-- The current user has no configuration, and its token fetch has trapped. -/
theorem neverTraps_fails :
    ∃ self' ∈ run appStep { state := groupMember } switchAndRefresh, ¬self'.NeverTraps ∧
      self'.state.currentUser = some ⟨0⟩ ∧ ¬self'.state.IsUsable ⟨0⟩ ∧
      ∃ program ∈ self'.threads, isTrapped program = true := by
  have hrun : (run appStep { state := groupMember } switchAndRefresh).map (fun self' =>
      (self'.state.currentUser, decide (self'.state.IsUsable ⟨0⟩), self'.threads.any isTrapped)) =
      some (some ⟨0⟩, false, true) := by
    decide +kernel
  obtain ⟨self', hself', hvalues⟩ := Option.map_eq_some_iff.mp hrun
  obtain ⟨hcurrent, hvalues⟩ := Prod.mk.inj hvalues
  obtain ⟨husable, htrapped⟩ := Prod.mk.inj hvalues
  have hunusable : ¬self'.state.IsUsable ⟨0⟩ := of_decide_eq_false husable
  refine ⟨self', hself', fun h => hunusable (h.current ⟨0⟩ hcurrent), hcurrent, hunusable, ?_⟩
  exact List.any_eq_true.mp htrapped

end Threads

end FirebaseSwift.Auth
