import FirebaseSwift.Auth.StoredUsers

/-! Runs of operations, one after the other, that each complete without an error. After each of them the
stored user is that of the current user, if no operation leaves the current user's changes unsaved: the
setters of the profile do, and so does a change of the e-mail address of a user who has an e-mail/password
credential already. -/

namespace FirebaseSwift.Auth

open AccessPrograms StepRuns AuthState

section Operations

variable {β : Type} {state : AuthState} {except current : Option UserRef} {user : UserRef}

theorem SavedExcept.updateCurrentUser (h : SavedExcept except current state) {newUser : Option UserRef}
    (hexists : ∀ user, newUser = some user → (state.user user).isSome = true) {force : Bool}
    {after : AuthState} (hresult : state.updateCurrentUser newUser force true = (.ok (), after)) :
    after.IsSaved := by
  obtain ⟨-, hcase⟩ | ⟨-, saved, hsave, hcase⟩ | ⟨-, error, -, hcase⟩ :=
    @updateCurrentUser_cases state newUser force true
  · rw [hcase] at hresult
    cases hresult
  · rw [hcase] at hresult
    cases hresult
    obtain rfl := setItem_eq (show state.setItem state.item _ = .ok saved from hsave)
    exact ⟨h.auths, rfl, hexists, fun _ => Function.update_self _ _ _⟩
  · rw [hcase] at hresult
    cases hresult

theorem returns_updateCurrentUserLocked (h : SavedExcept except current state) {newUser : Option UserRef}
    (hexists : ∀ user, newUser = some user → (state.user user).isSome = true) (force : Bool) :
    Returns perform (fun _ later => later.IsSaved) (updateCurrentUserLocked newUser force true) state := by
  apply returns_orThrow
  apply Returns.request
  rintro input answer after hperform value rfl
  exact SavedExcept.updateCurrentUser h hexists (Option.some.inj hperform)

theorem returns_thenCurrent {code : Code UserRef} (force : Bool)
    (h : Returns perform (fun user later => SavedExcept none current later ∧ (later.user user).isSome = true)
      code state) : Returns perform (fun _ later => later.IsSaved)
      (do
        let user ← code
        updateCurrentUserLocked (some user) force true) state := by
  apply h.andThen
  rintro user later ⟨hlater, hexists⟩
  refine returns_updateCurrentUserLocked hlater (fun other hother => ?_) force
  exact Option.some.inj hother ▸ hexists

theorem returns_signUp (h : SavedExcept none current state) (email password : Option String) (anonymous : Bool) :
    Returns perform (fun _ later => later.IsSaved) (signUp email password anonymous) state := by
  apply unchanging_requestConfiguration.returns.andThen
  rintro configuration _ ⟨rfl, -⟩
  apply (unchanging_post _ _).returns.andThen
  rintro response _ ⟨rfl, -⟩
  exact returns_thenCurrent false (returns_completeSignIn h response anonymous)

theorem returns_signInAnonymously (h : SavedExcept none current state) :
    Returns perform (fun _ later => later.IsSaved) signInAnonymously state := by
  have hcurrent : Unchanging (fun answer => answer = current)
      (Program.request Access.currentUser : Code (Option UserRef)) state := by
    apply Unchanging.request
    intro input answer after hperform
    cases hperform
    exact ⟨rfl, h.currentUser⟩
  apply hcurrent.returns.andThen
  rintro answer _ ⟨rfl, rfl⟩
  cases answer with
  | none => exact returns_signUp h none none true
  | some currentUser =>
      apply unchanging_userdata.returns.andThen
      rintro data _ ⟨rfl, -⟩
      split
      · exact returns_updateCurrentUserLocked h h.existing false
      · exact returns_signUp h none none true

theorem returns_signOut (h : SavedExcept none current state) :
    Returns perform (fun _ later => later.IsSaved) signOut state := by
  apply returns_orThrow
  apply Returns.request (a := Access.signOut)
  rintro input answer after hperform value rfl
  have hresult : state.signOut = (.ok value, after) := Option.some.inj hperform
  unfold AuthState.signOut at hresult
  split at hresult
  · exact SavedExcept.updateCurrentUser h (fun user (hnone : none = some user) => nomatch hnone) hresult
  · cases hresult
    exact h.isSaved

theorem returns_updateCurrentUser (h : SavedExcept none current state) (user : UserRef) :
    Returns perform (fun _ later => later.IsSaved) (updateCurrentUser user) state := by
  apply unchanging_requestConfiguration.returns.andThen
  rintro myConfiguration _ ⟨rfl, -⟩
  apply unchanging_userdata.returns.andThen
  rintro data _ ⟨rfl, hdata⟩
  have hexists : (state.user user).isSome = true := by
    obtain ⟨object, hobject, -⟩ := Option.map_eq_some_iff.mp hdata
    exact Option.isSome_of_mem hobject
  have hreload : OwnCode (fun _ => True) user false (do
      user.assign (.requestConfiguration myConfiguration)
      user.reload) := OwnCode.bind (OwnCode.assign fun _ _ => trivial) fun _ => OwnCode.reload
  have hexcept : current = some user → some user = some user := fun _ => rfl
  apply (returns_length ((OwnCode.when fun _ => hreload).returns hexcept h.weaken)).andThen
  rintro _ later ⟨hlater, hlength⟩
  refine returns_updateCurrentUserLocked hlater (fun other hother => ?_) true
  exact Option.some.inj hother ▸ isSome_of_length hlength hexists

theorem returns_signIn (h : SavedExcept none current state) (credential : AuthCredential) :
    Returns perform (fun _ later => later.IsSaved) (signIn credential) state :=
  returns_thenCurrent false (returns_internalSignInAndRetrieveData h credential false)

theorem returns_signInWithCustomToken (h : SavedExcept none current state) (token : String) :
    Returns perform (fun _ later => later.IsSaved) (signInWithCustomToken token) state := by
  apply unchanging_requestConfiguration.returns.andThen
  rintro configuration _ ⟨rfl, -⟩
  apply (unchanging_post _ _).returns.andThen
  rintro response _ ⟨rfl, -⟩
  exact returns_thenCurrent false (returns_completeSignIn h response false)

theorem returns_createUser (h : SavedExcept none current state) (email password : String) :
    Returns perform (fun _ later => later.IsSaved) (createUser email password) state := by
  unfold createUser
  split
  · exact fun _ _ => trivial
  · split
    · exact fun _ _ => trivial
    · exact returns_signUp h _ _ false

/-- The user that is re-authenticated takes the tokens of a user object made for that. -/
theorem returns_reauthenticate (h : SavedExcept none current state) (credential : AuthCredential) :
    Returns perform (fun _ later => SavedExcept none current later) (user.reauthenticate credential) state := by
  apply (unchanging_authRequestConfiguration (h.auths user)).returns.andThen
  rintro configuration _ ⟨rfl, hconfiguration⟩
  cases configuration with
  | none => exact fun _ _ => trivial
  | some configuration =>
      refine Returns.andThen ((returns_internalSignInAndRetrieveData h credential true).handle fun _ => ?_) ?_
      · trivial
      · rintro made later ⟨hlater, -⟩
        apply unchanging_userdata.returns.andThen
        rintro data _ ⟨rfl, -⟩
        have huserID : Unchanging (fun _ => True) (Program.request Access.getUserID : Code (Option String)) later := by
          apply Unchanging.request
          intro input answer after hperform
          cases hperform
          exact ⟨rfl, trivial⟩
        apply huserID.returns.andThen
        rintro userID _ ⟨rfl, -⟩
        split
        · exact fun _ _ => trivial
        · apply unchanging_userdata.returns.andThen
          rintro data _ ⟨rfl, -⟩
          exact Saves.setTokenService data.tokenService current later hlater.weaken

theorem returns_updatePassword (h : SavedExcept none current state) (password : String) :
    Returns perform (fun _ later => SavedExcept none current later) (user.updatePassword password) state := by
  unfold UserRef.updatePassword
  split
  · exact fun _ _ => trivial
  · exact returns_updateEmailOrPassword h.weaken (some password) (.inl rfl)

end Operations

/-- The sign-ins and sign-outs, and the operations that change a user or fetch its token. -/
def Operation.isAccountOperation : Operation → Bool
  | .user _ (.setTenantID _) => false
  | .user _ (.useRequestConfiguration _) => false
  | .user _ (.signOutIfSessionIsInvalid _) => false
  | .auth (.useUserAccessGroup _) => false
  | .auth (.getStoredUser _) => false
  | _ => true

/-- An operation that runs to its end, with what comes from outside. -/
inductive AccountEvent where
  | complete (operation : Operation) (inputs : List Input)
  /-- What the keychain answers from now on. -/
  | keychain (failure : Option AuthErrorCode)

namespace AccountEvent

/-- Only an operation that completes without an error is a step. -/
def step (state : AuthState) : AccountEvent → Option AuthState
  | .complete operation inputs =>
      if operation.isAccountOperation then
        match operation.code.outcome perform inputs state with
        | some (.returned (), after) => some after
        | _ => none
      else none
  | .keychain failure => some { state with keychainFailure := failure }

/-- The operation leaves no changes of the current user unsaved. -/
def savesChanges (state : AuthState) : AccountEvent → Bool
  | .complete (.user user (.updateEmail _)) _ =>
      decide (state.currentUser ≠ some user) ||
        (state.data user).all fun data => !data.hasEmailPasswordCredential
  | .complete (.user user (.setDisplayName _)) _ => decide (state.currentUser ≠ some user)
  | .complete (.user user (.setPhotoURL _)) _ => decide (state.currentUser ≠ some user)
  | _ => true

end AccountEvent

section Runs

variable {state state' : AuthState}

theorem returns_user {current : Option UserRef} (h : SavedExcept none current state) (user : UserRef)
    (operation : UserOperation) (inputs : List Input)
    (haccount : (Operation.user user operation).isAccountOperation = true)
    (hsaves : AccountEvent.savesChanges state (.complete (.user user operation) inputs) = true) :
    Returns perform (fun _ later => SavedExcept none current later) (operation.code user) state := by
  have hother : ∀ operation, OwnCode (fun _ => True) user false operation →
      decide (state.currentUser ≠ some user) = true →
      Returns perform (fun _ later => SavedExcept none current later) (operation : Code Unit) state := by
    intro operation hown hcurrent
    rw [h.currentUser] at hcurrent
    exact hown.returns (fun hsame => absurd hsame (of_decide_eq_true hcurrent)) h
  cases operation with
  | setDisplayName displayName => exact hother _ (OwnCode.assign fun _ _ => trivial) hsaves
  | setPhotoURL photoURL => exact hother _ (OwnCode.assign fun _ _ => trivial) hsaves
  | reload => exact Saves.reload current state h.weaken
  | updateEmail email =>
      rcases (Bool.or_eq_true _ _).mp hsaves with hcurrent | hcredential
      · exact hother _ (OwnCode.updateEmailOrPassword (fun _ _ => trivial) _ _) hcurrent
      · refine returns_updateEmailOrPassword h.weaken none (.inr fun data hdata => ?_)
        rw [hdata] at hcredential
        exact (Bool.not_eq_true' _).mp hcredential
  | updatePassword password => exact returns_updatePassword h password
  | updatePhoneNumber credential =>
      exact Saves.internalUpdateOrLinkPhoneNumber credential false current state h.weaken
  | commitChanges displayName photoURL => exact returns_commitChanges h displayName photoURL
  | link credential => exact returns_link h credential
  | unlink provider => exact Saves.unlink provider current state h.weaken
  | reauthenticate credential => exact returns_reauthenticate h credential
  | internalGetToken forceRefresh =>
      exact (returns_internalGetToken h forceRefresh).andThen fun _ _ hlater => Returns.pure hlater
  | setTenantID tenantID => cases haccount
  | useRequestConfiguration configuration => cases haccount
  | signOutIfSessionIsInvalid error => cases haccount

theorem returns_auth (h : state.IsSaved) (operation : AuthOperation)
    (haccount : (Operation.auth operation).isAccountOperation = true) :
    Returns perform (fun _ later => later.IsSaved) operation.code state := by
  cases operation with
  | signIn credential => exact returns_signIn h credential
  | signInAnonymously => exact returns_signInAnonymously h
  | signInWithCustomToken token => exact returns_signInWithCustomToken h token
  | createUser email password => exact returns_createUser h email password
  | signOut => exact returns_signOut h
  | updateCurrentUser user => exact returns_updateCurrentUser h user
  | useUserAccessGroup accessGroup => cases haccount
  | getStoredUser accessGroup => cases haccount

theorem IsSaved.step (h : state.IsSaved) {event : AccountEvent} (hsaves : event.savesChanges state = true)
    (hstep : state' ∈ event.step state) : state'.IsSaved := by
  cases event with
  | keychain failure =>
      cases hstep
      exact ⟨h.auths, rfl, h.existing, h.stored⟩
  | complete operation inputs =>
      simp only [AccountEvent.step] at hstep
      split_ifs at hstep with haccount
      · have hreturns : Returns perform (fun _ later => later.IsSaved) operation.code state := by
          cases operation with
          | user user operation =>
              exact (returns_user h user operation inputs haccount hsaves).mono fun _ _ hlater => hlater.isSaved
          | auth operation => exact returns_auth h operation haccount
        split at hstep
        case h_2 => cases hstep
        case h_1 after houtcome =>
          cases hstep
          exact hreturns.outcome (fun _ => rfl) houtcome
      · cases hstep

/-- In all states of a run the stored user is the current user, if every step has the condition. -/
theorem persistsUser_run (h : state.IsSaved) {events : List AccountEvent}
    (hall : AllSteps AccountEvent.step (fun state event => event.savesChanges state = true) state events) :
    ∀ before, before <+: events → ∀ state' ∈ run AccountEvent.step state before, state'.PersistsUser := by
  rintro before ⟨rest, rfl⟩ state' hstate'
  have hsaved : state'.IsSaved :=
    invariant_run (fun _ _ h hsaves _ hstep => IsSaved.step h hsaves hstep) h hall.of_append hstate'
  exact hsaved.persistsUser

end Runs

/-- An app that is started for the first time. -/
def firstStart : AuthState where
  users := []
  requestConfiguration := { apiKey := "key", appID := "app" }

theorem isSaved_firstStart : firstStart.IsSaved :=
  ⟨fun _ _ hnone => (nomatch hnone), rfl, fun _ hnone => (nomatch hnone), fun _ => rfl⟩

/-- A user who signs up with an e-mail address and a password. -/
def signUpEvent : AccountEvent :=
  .complete (.auth (.createUser "ann@example.com" "password"))
    ([.proceed,
      .signedIn (.ok
        { idToken := "access"
          approximateExpirationDate := some 3600
          refreshToken := "refresh" })] ++
      List.replicate 9 .proceed ++ [.now 0, .proceed,
      .accountInfo (.ok
        { localID := some "uid"
          email := some "ann@example.com"
          passwordHash := some "hash" })] ++
      List.replicate 23 .proceed)

def signOutEvent : AccountEvent := .complete (.auth .signOut) [.proceed]

theorem persistsUser_run_signedOut :
    (run AccountEvent.step firstStart [signUpEvent, signOutEvent]).isSome = true ∧
      ∀ before, before <+: [signUpEvent, signOutEvent] →
        ∀ state' ∈ run AccountEvent.step firstStart before, state'.PersistsUser :=
  ⟨by decide +kernel, persistsUser_run isSaved_firstStart (by decide +kernel)⟩

/-- The user's e-mail address is changed. The backend sends no new tokens. -/
def updateEmailEvent : AccountEvent :=
  .complete (.user ⟨0⟩ (.updateEmail "ann@example.org"))
    ([.proceed, .proceed, .now 0, .proceed,
      .accountInfo (.ok
        { localID := some "uid"
          email := some "ann@example.com"
          passwordHash := some "hash" })] ++
      List.replicate 22 .proceed ++ [.now 0, .proceed,
      .changed (.ok
        { idToken := none
          approximateExpirationDate := none
          refreshToken := none }),
      .proceed, .proceed])

/-- The user has an e-mail/password credential, so the new address is not saved. -/
theorem persistsUser_fails :
    ∃ state' ∈ run AccountEvent.step firstStart [signUpEvent, updateEmailEvent], ¬state'.PersistsUser := by
  have hrun : (run AccountEvent.step firstStart [signUpEvent, updateEmailEvent]).map (fun state' =>
      (state'.currentUser, (state'.data ⟨0⟩).map UserData.email,
        (state'.keychain state'.item).map StoredUser.email)) =
      some (some ⟨0⟩, some (some "ann@example.org"), some (some "ann@example.com")) := by
    decide +kernel
  obtain ⟨state', hstate', hvalues⟩ := Option.map_eq_some_iff.mp hrun
  obtain ⟨hcurrent, hvalues⟩ := Prod.mk.inj hvalues
  obtain ⟨hemail, hstoredEmail⟩ := Prod.mk.inj hvalues
  refine ⟨state', hstate', fun h => ?_⟩
  unfold PersistsUser at h
  rw [hcurrent] at h
  obtain ⟨data, stored, hdata, hstored, hsame⟩ := h
  rw [hdata] at hemail
  rw [hstored] at hstoredEmail
  have hdataEmail : data.email = some "ann@example.org" := Option.some.inj hemail
  have hdecoded : stored.email = data.email := congrArg UserData.email (hsame 0)
  rw [hdataEmail] at hdecoded
  exact absurd (hdecoded.symm.trans (Option.some.inj hstoredEmail)) (by decide)

end FirebaseSwift.Auth
