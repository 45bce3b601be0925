import FirebaseSwift.Auth.UserFetches
import FirebaseSwift.Auth.Operations

/-! The stored user and the current user. Operations run one after the other, each to its end. Between the
updates of the current user's data and the time when the user is saved, the stored user may be behind. So
what an operation keeps until then is that the stored user is up to date unless the current user is the one
it works on. -/

namespace FirebaseSwift.Auth

open AccessPrograms StepRuns

namespace AuthState

/-- The stored user decodes to the data of the current user, and without one nothing is stored. -/
def PersistsUser (state : AuthState) : Prop :=
  match state.currentUser with
  | some user => ∃ data stored, state.data user = some data ∧ state.keychain state.item = some stored ∧
      ∀ now, (UserData.decode now stored).SameStored now data
  | none => state.keychain state.item = none

def IsStored (state : AuthState) : Prop :=
  state.keychain state.item = (state.currentUser.bind state.data).map UserData.encode

/-- The stored user is up to date, unless the current user is the exception. -/
structure SavedExcept (except current : Option UserRef) (state : AuthState) : Prop where
  auths : ∀ user object, state.user user = some object → object.auth = .this
  currentUser : state.currentUser = current
  existing : ∀ user, current = some user → (state.user user).isSome = true
  stored : (∀ user, current = some user → except ≠ some user) → state.IsStored

def IsSaved (state : AuthState) : Prop := SavedExcept none state.currentUser state

variable {state state' : AuthState} {except current : Option UserRef} {user : UserRef}

theorem IsSaved.persistsUser (h : state.IsSaved) : state.PersistsUser := by
  have hstored : state.IsStored := h.stored fun _ _ hnone => nomatch hnone
  unfold IsStored at hstored
  unfold PersistsUser
  cases hcurrent : state.currentUser with
  | none =>
      rw [hcurrent] at hstored
      exact hstored
  | some user =>
      obtain ⟨object, hobject⟩ := Option.isSome_iff_exists.mp (h.existing user hcurrent)
      have hdata : state.data user = some object.userData := congrArg (Option.map User.userData) hobject
      rw [hcurrent, Option.bind_some, hdata] at hstored
      exact ⟨object.userData, _, hdata, hstored, fun now => UserData.decode_encode now object.userData⟩

namespace SavedExcept

theorem weaken (h : SavedExcept none current state) : SavedExcept except current state :=
  ⟨h.auths, h.currentUser, h.existing, fun _ => h.stored fun _ _ hnone => nomatch hnone⟩

/-- Where the current user is not the exception, there is none. -/
theorem strengthen (h : SavedExcept (some user) current state) (hstored : current = some user → state.IsStored) :
    SavedExcept none current state := by
  refine ⟨h.auths, h.currentUser, h.existing, fun _ => ?_⟩
  by_cases hcurrent : current = some user
  · exact hstored hcurrent
  · apply h.stored
    rintro other hother hexcept
    exact hcurrent (hother.trans hexcept.symm)

theorem isSaved (h : SavedExcept none current state) : state.IsSaved := by
  rw [IsSaved, h.currentUser]
  exact h

/-- A change of a user's object, where the user is the exception, or the current user's data stay. -/
theorem onlyUser (h : SavedExcept except current state) (honly : OnlyUser user state state')
    (hdata : current = some user → except = some user ∨ state'.data user = state.data user) :
    SavedExcept except current state' where
  auths other object hobject := by
    by_cases hother : other = user
    · subst hother
      obtain ⟨before, hbefore, hauth⟩ := Option.map_eq_some_iff.mp
        (honly.auth.symm.trans (congrArg (Option.map User.auth) hobject))
      exact hauth.symm.trans (h.auths other before hbefore)
    · exact h.auths other object ((honly.others other hother).symm.trans hobject)
  currentUser := by
    rw [honly.rest]
    exact h.currentUser
  existing other hcurrent := by
    by_cases hother : other = user
    · subst hother
      have hauth := congrArg Option.isSome honly.auth
      rw [Option.isSome_map, Option.isSome_map] at hauth
      exact hauth.trans (h.existing other hcurrent)
    · rw [honly.others other hother]
      exact h.existing other hcurrent
  stored hexcept := by
    have hkeychain : state'.keychain state'.item = state.keychain state.item := by
      rw [honly.rest]
      rfl
    have hcurrentUser : state'.currentUser = state.currentUser := by
      rw [honly.rest]
    have hsame : current.bind state'.data = current.bind state.data := by
      cases hcurrent : current with
      | none => rfl
      | some other =>
          by_cases hother : other = user
          · subst hother
            exact (hdata hcurrent).resolve_left (hexcept other hcurrent)
          · exact congrArg (Option.map User.userData) (honly.others other hother)
    rw [IsStored, hkeychain, hcurrentUser, h.currentUser, hsame, ← h.currentUser]
    exact h.stored hexcept

/-- When the user is saved, the stored user is up to date if this is the current user. -/
theorem updateKeychain (h : SavedExcept except current state) {input : Input} {answer : Except AuthErrorCode Unit}
    (hperform : perform (.updateKeychain user) input state = some (answer, state')) :
    SavedExcept except current state' ∧ (answer = .ok () → current = some user → state'.IsStored) := by
  obtain ⟨object, hobject, hresult⟩ := Option.map_eq_some_iff.mp hperform
  rw [throughAuth, if_pos (h.auths user object hobject), AuthState.updateKeychain] at hresult
  by_cases hsame : state.data user = state.currentUser.bind state.data
  · rw [if_pos hsame, saveUser, setItem] at hresult
    cases hfailure : state.keychainFailure with
    | some error =>
        rw [hfailure] at hresult
        cases hresult
        exact ⟨h, fun hok => nomatch hok⟩
    | none =>
        rw [hfailure] at hresult
        cases hresult
        have hstored : AuthState.IsStored { state with
            keychain := Function.update state.keychain state.item ((state.data user).map UserData.encode) } :=
          (Function.update_self _ _ _).trans (congrArg (Option.map UserData.encode) hsame)
        exact ⟨⟨h.auths, h.currentUser, h.existing, fun _ => hstored⟩, fun _ _ => hstored⟩
  · rw [if_neg hsame] at hresult
    cases hresult
    refine ⟨h, fun _ hcurrent => absurd ?_ hsame⟩
    rw [h.currentUser, hcurrent]
    rfl

theorem isOwn (h : SavedExcept except current state) {access : Access} (hown : IsOwn user access)
    {input : Input} {answer : access.Answer} (hperform : perform access input state = some (answer, state')) :
    SavedExcept except current state' := by
  cases access with
  | updateKeychain object => exact (h.updateKeychain hperform).1
  | userRequestConfiguration object =>
      obtain ⟨existing, -, hresult⟩ := Option.map_eq_some_iff.mp hperform
      split at hresult <;> cases hresult <;> exact h
  | isCurrentUser object =>
      obtain ⟨existing, -, hresult⟩ := Option.map_eq_some_iff.mp hperform
      cases hresult
      exact h
  | date =>
      cases input with
      | now date =>
          cases hperform
          exact h
      | _ => cases hperform
  | post request configuration =>
      obtain ⟨response, -, hresult⟩ := Option.map_eq_some_iff.mp hperform
      cases hresult
      exact h
  | _ => cases hown

end SavedExcept

end AuthState

open AuthState

section Operations

variable {β γ : Type} {state : AuthState} {except current : Option UserRef} {user : UserRef}

theorem returns_assign (h : SavedExcept except current state)
    (hexcept : current = some user → except = some user) (update : UserUpdate) :
    Returns perform (fun _ later => SavedExcept except current later) (user.assign update) state := by
  apply unchanging_userdata.returns.andThen
  rintro copy _ ⟨rfl, -⟩
  apply Returns.request
  intro input answer after hperform
  obtain ⟨object, -, hresult⟩ := Option.map_eq_some_iff.mp hperform
  cases hresult
  exact h.onlyUser (OnlyUser.modifyUser user fun _ => rfl) fun hcurrent => .inl (hexcept hcurrent)

/-- A user's code works on that user only, and signs it out only before it throws. -/
theorem OwnCode.returns {code : Code β} (hown : OwnCode (fun _ => True) user false code)
    (hexcept : current = some user → except = some user) (h : SavedExcept except current state) :
    Returns perform (fun _ later => SavedExcept except current later) code state := by
  generalize hinHandler : false = inHandler at hown
  induction hown generalizing state with
  | pure result => exact Returns.pure h
  | throw error => exact fun _ _ => trivial
  | trap hmessage => exact fun _ _ => trivial
  | bind hown hnext ih ihnext =>
      exact (ih h hinHandler).andThen fun result later hlater => ihnext result hlater hinHandler
  | request hown => exact Returns.request fun input answer after hperform => h.isOwn hown hperform
  | assign hupdate => exact returns_assign h hexcept _
  | read hnext ih =>
      apply unchanging_userdata.returns.andThen
      rintro data _ ⟨rfl, -⟩
      exact ih data trivial h hinHandler
  | fetchTokens husable forceRefresh hnext ih =>
      apply (unchanging_fetchTokens forceRefresh).returns.andThen
      rintro result _ ⟨rfl, -⟩
      exact ih result trivial h hinHandler
  | fetchAccessToken forceRefresh =>
      apply (returns_fetchAccessToken forceRefresh).mono
      intro result later hlater
      exact h.onlyUser hlater.1 fun hcurrent => .inl (hexcept hcurrent)
  | signOutByForce userID => cases hinHandler
  | handle hown hhandler hnever ih ihhandler => exact (ih h hinHandler).handle (hnever hinHandler.symm)

theorem returns_orThrow {code : Code (Except AuthErrorCode β)} {post : β → AuthState → Prop}
    (h : Returns perform (fun result later => ∀ value, result = .ok value → post value later) code state) :
    Returns perform post (code >>= Code.orThrow) state := by
  apply h.andThen
  intro result later hlater
  cases result with
  | ok value => exact Returns.pure (hlater value rfl)
  | error error => exact fun _ _ => trivial

/-- When the code returns, the user has been saved after the last change. -/
def Saves (user : UserRef) (code : Code β) : Prop :=
  ∀ current state, SavedExcept (some user) current state →
    Returns perform (fun _ later => SavedExcept none current later) code state

namespace Saves

theorem updateKeychain : Saves user user.updateKeychain := by
  intro current state h
  apply returns_orThrow
  apply Returns.request
  rintro input answer after hperform value rfl
  obtain ⟨hafter, hstored⟩ := h.updateKeychain hperform
  exact hafter.strengthen (hstored rfl)

variable {code : Code β} (provider : String)

theorem of_neverReturns (h : NeverReturns code) : Saves user code :=
  fun _ _ _ => Returns.of_neverReturns h _

theorem throw (error : AuthErrorCode) : Saves user (MonadExcept.throw error : Code β) :=
  of_neverReturns trivial

theorem after {f : β → Code γ} (hown : OwnCode (fun _ => True) user false code)
    (hnext : ∀ result, Saves user (f result)) : Saves user (code >>= f) :=
  fun current _ h => (hown.returns (fun hcurrent => hcurrent.symm ▸ rfl) h).andThen fun result later hlater =>
    hnext result current later hlater

theorem withToken {next : String → Option AuthRequestConfiguration → Code β}
    (hnext : ∀ accessToken configuration, Saves user (next accessToken configuration)) : Saves user (do
      let accessToken ← user.internalGetToken false
      let configuration ← user.authRequestConfiguration
      next accessToken configuration) :=
  after (OwnCode.internalGetToken false) fun accessToken =>
    after OwnCode.authRequestConfiguration (hnext accessToken)

theorem read {f : UserData → Code β} (hnext : ∀ data, Saves user (f data)) : Saves user (user.userdata >>= f) := by
  intro current state h
  apply unchanging_userdata.returns.andThen
  rintro data _ ⟨rfl, -⟩
  exact hnext data current state h

theorem andReturn (h : Saves user code) (result : γ) : Saves user (code >>= fun _ => Pure.pure result) :=
  fun current state hstate => (h current state hstate).andThen fun _ _ hlater => Returns.pure hlater

theorem handle {handler : AuthErrorCode → Code β} (h : Saves user code)
    (hhandler : ∀ error, NeverReturns (handler error)) : Saves user (tryCatch code handler) :=
  fun current state hstate => (h current state hstate).handle hhandler

theorem getAccountInfoRefreshingCache : Saves user user.getAccountInfoRefreshingCache := by
  apply withToken
  intro token configuration
  cases configuration with
  | none => exact of_neverReturns trivial
  | some configuration =>
      apply handle
      · apply after (OwnCode.post _ _)
        intro response
        exact after (OwnCode.update response) fun _ => updateKeychain.andReturn response
      · exact fun error => neverReturns_bind fun _ => trivial

theorem reload : Saves user user.reload := getAccountInfoRefreshingCache.andReturn ()

theorem setTokenService (tokenService : SecureTokenService) : Saves user (user.setTokenService tokenService) := by
  intro current state h
  apply (unchanging_fetchTokens false).returns.andThen
  rintro ⟨refreshed, result⟩ _ ⟨rfl, -⟩
  exact after (OwnCode.assign fun _ _ => trivial) (fun _ => updateKeychain) current state h

theorem unlink : Saves user (user.unlink provider) := by
  apply withToken
  intro accessToken configuration
  cases configuration with
  | none => exact of_neverReturns trivial
  | some configuration =>
      apply read
      intro data
      split
      · exact throw _
      · apply after (OwnCode.postWithIDToken _ _)
        intro response
        apply after (OwnCode.assign fun _ _ => trivial)
        intro _
        apply after (OwnCode.when fun _ => OwnCode.assign fun _ _ => trivial)
        intro _
        apply after (OwnCode.when fun _ => OwnCode.assign fun _ _ => trivial)
        intro _
        apply after (OwnCode.acceptTokens (fun _ _ => trivial) response configuration)
        exact fun _ => updateKeychain

theorem updateTokenAndRefreshUser (response : SignInResponse) (accessToken : String)
    (configuration : AuthRequestConfiguration) :
    Saves user (user.updateTokenAndRefreshUser response accessToken configuration) := by
  apply after (OwnCode.assign fun _ _ => trivial)
  intro _
  apply after (OwnCode.internalGetToken false)
  intro _
  apply after (OwnCode.postWithIDToken _ _)
  intro account
  apply after (OwnCode.assign fun _ _ => trivial)
  intro _
  exact after (OwnCode.update account) fun _ => updateKeychain

theorem internalUpdateOrLinkPhoneNumber (credential : AuthCredential) (isLinkOperation : Bool) :
    Saves user (user.internalUpdateOrLinkPhoneNumber credential isLinkOperation) := by
  apply withToken
  intro accessToken configuration
  cases configuration with
  | none => exact throw _
  | some configuration =>
      cases credential with
      | phoneVerification verificationID verificationCode =>
          apply after (OwnCode.postWithIDToken _ _)
          intro response
          apply after (OwnCode.acceptTokens (fun _ _ => trivial) response configuration)
          intro _
          apply after OwnCode.getAccountInfoRefreshingCache
          intro _
          exact after (OwnCode.assign fun _ _ => trivial) fun _ => updateKeychain
      | _ => exact throw _

theorem linkEmailLink (email : String) (oobCode : Option String) :
    Saves user (user.linkEmailLink email oobCode) := by
  apply withToken
  intro accessToken configuration
  split
  · exact after (OwnCode.post _ _) fun response => updateTokenAndRefreshUser response accessToken _
  · exact of_neverReturns trivial

theorem linkGameCenter (playerID : String) (publicKeyURL signature salt : Option String) :
    Saves user (user.linkGameCenter playerID publicKeyURL signature salt) := by
  apply withToken
  intro accessToken configuration
  split
  · exact after (OwnCode.post _ _) fun response => updateTokenAndRefreshUser response accessToken _
  · exact of_neverReturns trivial

theorem linkProvider : Saves user (user.linkProvider provider) := by
  apply withToken
  intro accessToken configuration
  cases configuration with
  | none => exact of_neverReturns trivial
  | some configuration =>
      apply after (OwnCode.postWithIDToken _ _)
      exact fun response => updateTokenAndRefreshUser response accessToken configuration

end Saves

theorem unchanging_authRequestConfiguration (hauths : ∀ object, state.user user = some object → object.auth = .this) :
    Unchanging (fun configuration => configuration.isSome = true) user.authRequestConfiguration state := by
  apply Unchanging.request
  intro input answer after hperform
  obtain ⟨object, hobject, hresult⟩ := Option.map_eq_some_iff.mp hperform
  rw [hauths object hobject] at hresult
  cases hresult
  exact ⟨rfl, rfl⟩

/-- A new e-mail address is saved only with the account info that is fetched for a new credential. -/
theorem returns_updateEmailOrPassword (h : SavedExcept (some user) current state) {email : Option String}
    (password : Option String)
    (hcredential : email = none ∨ ∀ data, state.data user = some data → data.hasEmailPasswordCredential = false) :
    Returns perform (fun _ later => SavedExcept none current later) (user.updateEmailOrPassword email password)
      state := by
  have hexcept : current = some user → some user = some user := fun _ => rfl
  apply unchanging_userdata.returns.andThen
  rintro data _ ⟨rfl, hdata⟩
  apply ((OwnCode.executeUserUpdateWithChanges (fun _ _ => trivial) _).returns hexcept h).andThen
  intro _ changed hchanged
  cases email with
  | none => exact Saves.updateKeychain current changed hchanged
  | some email =>
      have hnew : data.hasEmailPasswordCredential = false :=
        (hcredential.resolve_left (Option.some_ne_none email)) data hdata
      apply (returns_assign hchanged hexcept _).andThen
      intro _ assigned hassigned
      rw [hnew]
      apply ((OwnCode.internalGetToken false).returns hexcept hassigned).andThen
      intro accessToken fetched hfetched
      apply (unchanging_authRequestConfiguration (hfetched.auths user)).returns.andThen
      rintro configuration _ ⟨rfl, hconfiguration⟩
      cases configuration with
      | none => cases hconfiguration
      | some configuration =>
          apply ((OwnCode.postWithIDToken _ configuration).returns hexcept hfetched).andThen
          intro response posted hposted
          apply ((OwnCode.noteProviders response).returns hexcept hposted).andThen
          intro _ noted hnoted
          apply ((OwnCode.update response).returns hexcept hnoted).andThen
          intro _ updated hupdated
          exact Saves.updateKeychain current updated hupdated

theorem returns_internalGetToken (h : SavedExcept none current state) (forceRefresh : Bool) :
    Returns perform (fun _ later => SavedExcept none current later) (user.internalGetToken forceRefresh) state := by
  apply Returns.handle
  · apply (returns_fetchAccessToken forceRefresh).andThen
    rintro ⟨token, tokenUpdated⟩ later ⟨honly, hsame⟩
    cases tokenUpdated with
    | true =>
        have hlater : SavedExcept (some user) current later :=
          h.weaken.onlyUser honly fun _ => .inl rfl
        apply (Saves.updateKeychain current later hlater).andThen
        intro _ saved hsaved
        exact Returns.pure hsaved
    | false => exact Returns.pure (h.onlyUser honly fun _ => .inr (hsame rfl))
  · exact fun error => neverReturns_bind fun _ => trivial

theorem returns_link (h : SavedExcept none current state) (credential : AuthCredential) :
    Returns perform (fun _ later => SavedExcept none current later) (user.link credential) state := by
  apply unchanging_userdata.returns.andThen
  rintro data _ ⟨rfl, -⟩
  split
  · exact fun _ _ => trivial
  · cases credential with
    | emailPassword email password =>
        apply unchanging_userdata.returns.andThen
        rintro data _ ⟨rfl, hdata⟩
        split
        case isTrue hcredential => exact fun _ _ => trivial
        case isFalse hcredential =>
          refine returns_updateEmailOrPassword h.weaken (some password) (.inr fun data' hdata' => ?_)
          rw [hdata] at hdata'
          cases hdata'
          exact eq_false_of_ne_true hcredential
    | emailLink email oobCode =>
        apply unchanging_userdata.returns.andThen
        rintro data _ ⟨rfl, -⟩
        split
        · exact fun _ _ => trivial
        · exact Saves.linkEmailLink email oobCode current _ h.weaken
    | gameCenter playerID publicKeyURL signature salt =>
        exact Saves.linkGameCenter playerID publicKeyURL signature salt current _ h.weaken
    | provider provider => exact Saves.linkProvider provider current _ h.weaken
    | phoneNumber temporaryProof phoneNumber =>
        exact Saves.internalUpdateOrLinkPhoneNumber _ true current _ h.weaken
    | phoneVerification verificationID verificationCode =>
        exact Saves.internalUpdateOrLinkPhoneNumber _ true current _ h.weaken

theorem returns_commitChanges (h : SavedExcept none current state) (displayName photoURL : Option (Option String)) :
    Returns perform (fun _ later => SavedExcept none current later) (user.commitChanges displayName photoURL)
      state := by
  have hexcept : current = some user → some user = some user := fun _ => rfl
  unfold UserRef.commitChanges
  split
  · exact Returns.pure h
  · apply ((OwnCode.executeUserUpdateWithChanges (fun _ _ => trivial) _).returns hexcept h.weaken).andThen
    intro _ changed hchanged
    apply ((OwnCode.assignAll fun _ _ _ _ => trivial).returns hexcept hchanged).andThen
    intro _ assigned hassigned
    exact Saves.updateKeychain current assigned hassigned

/-- User objects do not go away. -/
theorem returns_length {code : Code β} {post : β → AuthState → Prop} (h : Returns perform post code state) :
    Returns perform (fun result later => post result later ∧ state.users.length ≤ later.users.length) code
      state := by
  have hgrows : Ensures perform Eq (fun state state' => state.users.length ≤ state'.users.length)
      (onReturn post) code state :=
    h.imp fun access input now performed hperformed _ => @perform_length access input now _ performed.1 hperformed
  have hsame : ∀ {a b : AuthState}, a = b → a.users.length ≤ b.users.length := by
    rintro a b rfl
    exact Nat.le_refl _
  have hreaches := @Ensures.reaches _ _ _ _ _ _ _ _ _ _ _ _
    (fun state state' : AuthState => state.users.length ≤ state'.users.length) (fun _ => Nat.le_refl _)
    (fun h h' => Nat.le_trans h h') hsame id hgrows
  refine (hreaches.imp fun _ _ _ _ _ _ => trivial).mono ?_
  rintro (result | error | message) later ⟨hpost, hlength⟩
  · exact ⟨hpost, hlength⟩
  · trivial
  · trivial

theorem isSome_of_length {later : AuthState} (hlength : state.users.length ≤ later.users.length)
    (h : (state.user user).isSome = true) : (later.user user).isSome = true := by
  obtain ⟨object, hobject⟩ := Option.isSome_iff_exists.mp h
  have hindex : user.index < state.users.length := (List.getElem?_eq_some_iff.mp hobject).1
  exact congrArg Option.isSome (List.getElem?_eq_getElem (Nat.lt_of_lt_of_le hindex hlength))

theorem savedExcept_makeUser (h : SavedExcept none current state) (data : UserData) :
    SavedExcept none current (state.makeUser data .this).2 := by
  have husers : state.users <+: (state.makeUser data .this).2.users := List.prefix_append _ _
  refine ⟨fun other object hobject => ?_, h.currentUser, fun other hcurrent => ?_, fun hexcept => ?_⟩
  · have hmem : object ∈ state.users ++ [{ userData := data, auth := .this }] := List.mem_of_getElem? hobject
    rcases List.mem_append.mp hmem with hold | hnew
    · obtain ⟨index, hindex⟩ := List.mem_iff_getElem?.mp hold
      exact h.auths ⟨index⟩ object hindex
    · rw [List.mem_singleton.mp hnew]
  · obtain ⟨object, hobject⟩ := Option.isSome_iff_exists.mp (h.existing other hcurrent)
    rw [user_of_prefixed husers hobject]
    rfl
  · have hstored := h.stored hexcept
    rw [IsStored, h.currentUser] at hstored
    show state.keychain state.item = (state.currentUser.bind _).map UserData.encode
    rw [hstored, h.currentUser]
    cases hcurrent : current with
    | none => rfl
    | some other =>
        obtain ⟨object, hobject⟩ := Option.isSome_iff_exists.mp (h.existing other hcurrent)
        have hdata : state.data other = some object.userData := congrArg (Option.map User.userData) hobject
        rw [Option.bind_some, Option.bind_some, hdata, data_of_prefixed husers hdata]

theorem unchanging_requestConfiguration : Unchanging (fun _ => True) requestConfiguration state := by
  apply Unchanging.request
  intro input answer after hperform
  cases hperform
  exact ⟨rfl, trivial⟩

/-- A sign-in makes a user object, which is not the current user, and works on that. -/
theorem returns_retrieveUser (h : SavedExcept none current state) (accessToken : String)
    (accessTokenExpirationDate : Option Date) (refreshToken : String) (anonymous : Bool) :
    Returns perform (fun user later => SavedExcept none current later ∧ (later.user user).isSome = true)
      (retrieveUser accessToken accessTokenExpirationDate refreshToken anonymous) state := by
  apply unchanging_requestConfiguration.returns.andThen
  rintro configuration _ ⟨rfl, -⟩
  have hmake : ∀ data : UserData, Returns perform
      (fun made later => current ≠ some made ∧ (later.user made).isSome = true ∧ SavedExcept none current later)
      (Program.request (Access.makeUser data) : Code UserRef) state := by
    intro data
    apply Returns.request
    intro input answer after hperform
    cases hperform
    refine ⟨fun hcurrent => ?_, ?_, savedExcept_makeUser h data⟩
    · have hexists := h.existing _ hcurrent
      have hnone : state.user ⟨state.users.length⟩ = none := List.getElem?_eq_none (Nat.le_refl _)
      rw [hnone] at hexists
      cases hexists
    · exact congrArg Option.isSome List.getElem?_concat_length
  apply (hmake _).andThen
  rintro made state ⟨hcurrent, hmade, hsaved⟩
  have hexcept : current = some made → none = some made := fun h => absurd h hcurrent
  refine (@returns_length UserRef state _ (fun result later => result = made ∧ SavedExcept none current later)
    ?_).mono ?_
  · have htenant : Unchanging (fun _ => True) (Program.request Access.tenantID : Code (Option String)) state := by
      apply Unchanging.request
      intro input answer after hperform
      cases hperform
      exact ⟨rfl, trivial⟩
    apply htenant.returns.andThen
    rintro tenantID _ ⟨rfl, -⟩
    apply (returns_assign hsaved hexcept _).andThen
    intro _ named hnamed
    apply unchanging_requestConfiguration.returns.andThen
    rintro configuration _ ⟨rfl, -⟩
    apply (returns_assign hnamed hexcept _).andThen
    intro _ configured hconfigured
    apply ((OwnCode.internalGetToken false).returns hexcept hconfigured).andThen
    intro accessToken fetched hfetched
    apply unchanging_userdata.returns.andThen
    rintro data _ ⟨rfl, -⟩
    apply (unchanging_post _ _).returns.andThen
    rintro response _ ⟨rfl, -⟩
    apply (returns_assign hfetched hexcept _).andThen
    intro _ noted hnoted
    apply ((OwnCode.update response).returns hexcept hnoted).andThen
    intro _ updated hupdated
    exact Returns.pure ⟨rfl, hupdated⟩
  · rintro result later ⟨⟨rfl, hlater⟩, hlength⟩
    exact ⟨hlater, isSome_of_length hlength hmade⟩

theorem returns_completeSignIn (h : SavedExcept none current state) (response : SignInResponse) (anonymous : Bool) :
    Returns perform (fun user later => SavedExcept none current later ∧ (later.user user).isSome = true)
      (completeSignIn response anonymous) state := returns_retrieveUser h _ _ _ anonymous

theorem unchanging_signInWithPhoneCredential (credential : AuthCredential) (isReauthentication : Bool) :
    Unchanging (fun _ => True) (signInWithPhoneCredential credential isReauthentication) state := by
  cases credential with
  | phoneNumber temporaryProof phoneNumber =>
      exact unchanging_requestConfiguration.andThen fun _ _ _ => unchanging_post _ _
  | phoneVerification verificationID verificationCode =>
      refine Unchanging.ite (fun _ _ => trivial) (Unchanging.ite (fun _ _ => trivial) ?_)
      exact unchanging_requestConfiguration.andThen fun _ _ _ => unchanging_post _ _
  | _ => exact fun _ _ => trivial

theorem returns_internalSignInAndRetrieveData (h : SavedExcept none current state) (credential : AuthCredential)
    (isReauthentication : Bool) :
    Returns perform (fun user later => SavedExcept none current later ∧ (later.user user).isSome = true)
      (internalSignInAndRetrieveData credential isReauthentication) state := by
  have hpost : ∀ (request : Request) {f : request.Response → Code UserRef},
      (∀ response, Returns perform
        (fun user later => SavedExcept none current later ∧ (later.user user).isSome = true) (f response) state) →
      Returns perform (fun user later => SavedExcept none current later ∧ (later.user user).isSome = true)
        (do
          let configuration ← requestConfiguration
          let response ← Code.post request configuration
          f response) state := by
    intro request f hf
    apply unchanging_requestConfiguration.returns.andThen
    rintro configuration _ ⟨rfl, -⟩
    apply (unchanging_post request configuration).returns.andThen
    rintro response _ ⟨rfl, -⟩
    exact hf response
  cases credential with
  | emailLink email oobCode =>
      cases oobCode with
      | none => exact fun _ _ => trivial
      | some oobCode => exact hpost _ fun response => returns_completeSignIn h response false
  | emailPassword email password =>
      apply unchanging_requestConfiguration.returns.andThen
      rintro configuration _ ⟨rfl, -⟩
      split
      · exact fun _ _ => trivial
      · apply (unchanging_post _ _).returns.andThen
        rintro response _ ⟨rfl, -⟩
        exact returns_completeSignIn h response false
  | gameCenter playerID publicKeyURL signature salt =>
      cases publicKeyURL with
      | none => exact fun _ _ => trivial
      | some publicKeyURL =>
          cases signature with
          | none => exact fun _ _ => trivial
          | some signature =>
              cases salt with
              | none => exact fun _ _ => trivial
              | some salt => exact hpost _ fun response => returns_completeSignIn h response false
  | provider provider =>
      apply hpost
      intro response
      split
      · exact fun _ _ => trivial
      · split
        · exact fun _ _ => trivial
        · exact returns_completeSignIn h response false
  | phoneNumber | phoneVerification =>
      apply (unchanging_signInWithPhoneCredential _ isReauthentication).returns.andThen
      rintro response _ ⟨rfl, -⟩
      split
      · exact returns_retrieveUser h _ _ _ false
      · exact fun _ _ => trivial

end Operations

end FirebaseSwift.Auth
