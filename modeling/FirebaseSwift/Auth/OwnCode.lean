import FirebaseSwift.Auth.SignIn

/-! Code that works on one user's own data. Each operation of a user is such code, whatever it is to keep:
it reads the user's data, assigns to them, fetches tokens for a token service that it read or got, and saves
the user. Only the handlers of errors sign the user out, and they throw on. -/

namespace FirebaseSwift.Auth

open AccessPrograms

/-- The accesses of a user's own code that leave the data alone. -/
def IsOwn (user : UserRef) : Access → Prop
  | .userRequestConfiguration object => object = user
  | .isCurrentUser object => object = user
  | .updateKeychain object => object = user
  | .date => True
  | .post _ _ => True
  | _ => False

/-- What an update leaves of the token service. -/
def UserUpdate.KeepsUsable (usable : SecureTokenService → Prop) (update : UserUpdate) : Prop :=
  ∀ data : UserData, usable data.tokenService → usable (update.apply data).tokenService

/-- Code of a user, where all its token services are usable, in the main part or in a handler. -/
inductive OwnCode (usable : SecureTokenService → Prop) (user : UserRef) :
    (inHandler : Bool) → {β : Type} → Code β → Prop
  | pure {inHandler : Bool} {β : Type} (result : β) : OwnCode usable user inHandler (Pure.pure result : Code β)
  | throw {inHandler : Bool} {β : Type} (error : AuthErrorCode) :
      OwnCode usable user inHandler (MonadExcept.throw error : Code β)
  | trap {inHandler : Bool} {β : Type} {message : String} (h : message ≠ SecureTokenService.missingTokens) :
      OwnCode usable user inHandler (Program.trap message : Code β)
  | bind {inHandler : Bool} {β γ : Type} {code : Code β} {f : β → Code γ}
      (h : OwnCode usable user inHandler code) (hnext : ∀ result, OwnCode usable user inHandler (f result)) :
      OwnCode usable user inHandler (code >>= f)
  | request {inHandler : Bool} {access : Access} (h : IsOwn user access) :
      OwnCode usable user inHandler (Program.request access : Code access.Answer)
  | assign {inHandler : Bool} {update : UserUpdate} (h : update.KeepsUsable usable) :
      OwnCode usable user inHandler (user.assign update)
  | read {inHandler : Bool} {β : Type} {f : UserData → Code β}
      (h : ∀ data : UserData, usable data.tokenService → OwnCode usable user inHandler (f data)) :
      OwnCode usable user inHandler (user.userdata >>= f)
  | fetchTokens {inHandler : Bool} {β : Type} {tokenService : SecureTokenService}
      {f : SecureTokenService × String × Bool → Code β} (h : usable tokenService) (forceRefresh : Bool)
      (hnext : ∀ result : SecureTokenService × String × Bool, usable result.1 →
        OwnCode usable user inHandler (f result)) :
      OwnCode usable user inHandler (tokenService.fetchAccessToken forceRefresh >>= f)
  | fetchAccessToken {inHandler : Bool} (forceRefresh : Bool) :
      OwnCode usable user inHandler (user.fetchAccessToken forceRefresh)
  | signOutByForce (userID : String) :
      OwnCode usable user true
        (Program.request (Access.userSignOutByForce user userID) : Code (Except AuthErrorCode Unit))
  | handle {inHandler : Bool} {β : Type} {code : Code β} {handler : AuthErrorCode → Code β}
      (h : OwnCode usable user inHandler code) (hhandler : ∀ error, OwnCode usable user true (handler error))
      (hnever : inHandler = false → ∀ error, NeverReturns (handler error)) :
      OwnCode usable user inHandler (tryCatch code handler)

namespace OwnCode

variable {usable : SecureTokenService → Prop} {user : UserRef} {inHandler : Bool} {β γ : Type}

theorem orThrow (result : Except AuthErrorCode β) : OwnCode usable user inHandler (Code.orThrow result) := by
  cases result with
  | ok value => exact pure value
  | error error => exact throw error

theorem when {condition : Prop} [Decidable condition] {code : Code Unit}
    (h : condition → OwnCode usable user inHandler code) :
    OwnCode usable user inHandler (Code.when condition code) := by
  unfold Code.when
  split_ifs with hcondition
  · exact h hcondition
  · exact pure ()

variable (request : Request) (error : AuthErrorCode) (response : GetAccountInfoResponseUser)
variable (configuration : AuthRequestConfiguration)

theorem post : OwnCode usable user inHandler (Code.post request configuration) :=
  bind (OwnCode.request trivial) orThrow

theorem updateKeychain : OwnCode usable user inHandler user.updateKeychain :=
  bind (OwnCode.request rfl) orThrow

theorem authRequestConfiguration : OwnCode usable user inHandler user.authRequestConfiguration :=
  OwnCode.request rfl

theorem isCurrentUser : OwnCode usable user inHandler user.isCurrentUser := OwnCode.request rfl

theorem signOutIfTokenIsInvalid : OwnCode usable user true (user.signOutIfTokenIsInvalid error) := by
  unfold UserRef.signOutIfTokenIsInvalid
  split
  · exact read fun data _ => bind (signOutByForce data.uid) fun _ => pure ()
  · exact pure ()

/-- A handler that signs the user out, perhaps, and throws on. -/
theorem handleThrowing {code : Code β} {onError : AuthErrorCode → Code Unit}
    (h : OwnCode usable user inHandler code) (hError : ∀ error, OwnCode usable user true (onError error)) :
    OwnCode usable user inHandler
      (tryCatch code fun error => do
        onError error
        MonadExcept.throw error) :=
  handle h (fun error => bind (hError error) fun _ => throw error)
    fun _ _ => neverReturns_bind fun _ => trivial

theorem internalGetToken (forceRefresh : Bool) :
    OwnCode usable user inHandler (user.internalGetToken forceRefresh) := by
  apply handleThrowing
  · apply bind (fetchAccessToken forceRefresh)
    rintro ⟨token, tokenUpdated⟩
    exact bind (when fun _ => updateKeychain) fun _ => pure token
  · exact signOutIfTokenIsInvalid

/-- What a call with a fresh token and the user's configuration goes on with. -/
theorem withToken {next : String → Option AuthRequestConfiguration → Code β}
    (hnext : ∀ accessToken configuration, OwnCode usable user inHandler (next accessToken configuration)) :
    OwnCode usable user inHandler (do
      let accessToken ← user.internalGetToken false
      let configuration ← user.authRequestConfiguration
      next accessToken configuration) :=
  bind (internalGetToken false) fun accessToken => bind authRequestConfiguration (hnext accessToken)

theorem attempt {code : Code β} (h : OwnCode usable user true code) : OwnCode usable user true (Code.attempt code) :=
  handle (bind h fun _ => pure _) (fun _ => pure _) fun hmain => Bool.noConfusion hmain

theorem signOutIfSessionIsInvalid : OwnCode usable user true (user.signOutIfSessionIsInvalid error) := by
  unfold UserRef.signOutIfSessionIsInvalid
  split
  · apply bind isCurrentUser
    intro isCurrent
    split
    · apply read
      intro data _
      apply handle
      · apply bind (fetchAccessToken true)
        rintro ⟨token, tokenUpdated⟩
        exact when fun _ => bind (attempt updateKeychain) fun _ => pure ()
      · intro refreshError
        apply read
        intro later _
        split
        · apply bind isCurrentUser
          intro isStillCurrent
          split
          · split
            · exact signOutIfTokenIsInvalid error
            · exact pure ()
          · exact pure ()
        · exact pure ()
      · exact fun hmain => Bool.noConfusion hmain
    · exact pure ()
  · exact signOutIfTokenIsInvalid error

theorem postWithIDToken : OwnCode usable user inHandler (user.postWithIDToken request configuration) :=
  handleThrowing (post request configuration) signOutIfSessionIsInvalid

theorem assignAll {updates : List UserUpdate} (h : ∀ update ∈ updates, update.KeepsUsable usable) :
    OwnCode usable user inHandler (user.assignAll updates) := by
  induction updates with
  | nil => exact pure ()
  | cons update updates ih =>
      apply bind (assign (h update List.mem_cons_self))
      intro _
      exact ih fun other hother => h other (List.mem_cons_of_mem _ hother)

theorem update : OwnCode usable user inHandler (user.update response) := by
  apply assignAll
  intro update hupdate
  unfold GetAccountInfoResponseUser.updates at hupdate
  simp only [List.mem_cons, List.not_mem_nil, or_false] at hupdate
  rcases hupdate with rfl | rfl | rfl | rfl | rfl | rfl | rfl | rfl | rfl | rfl <;> exact fun _ h => h

theorem getAccountInfoRefreshingCache : OwnCode usable user inHandler user.getAccountInfoRefreshingCache := by
  apply withToken
  intro token configuration
  cases configuration with
  | none => exact trap (by decide)
  | some configuration =>
      apply handleThrowing
      · apply bind (post _ _)
        intro response
        exact bind (update response) fun _ => bind updateKeychain fun _ => pure response
      · exact signOutIfSessionIsInvalid

theorem reload : OwnCode usable user inHandler user.reload :=
  bind getAccountInfoRefreshingCache fun _ => pure ()

theorem setTokenService {tokenService : SecureTokenService} (h : usable tokenService) :
    OwnCode usable user inHandler (user.setTokenService tokenService) := by
  apply fetchTokens h
  rintro ⟨refreshed, result⟩ hrefreshed
  exact bind (assign fun _ _ => hrefreshed) fun _ => updateKeychain

theorem noteProviders : OwnCode usable user inHandler (user.noteProviders response) := by
  unfold UserRef.noteProviders
  split
  · apply bind (assign fun _ h => h)
    intro _
    split
    · exact assign fun _ h => h
    · exact pure ()
  · exact pure ()

section Changes

-- What has a configuration and a refresh token is usable.
variable (hmade : ∀ tokenService : SecureTokenService, tokenService.IsUsable → usable tokenService)
include hmade

theorem acceptTokens (response : ChangeResponse) (configuration : AuthRequestConfiguration) :
    OwnCode usable user inHandler (user.acceptTokens response configuration) := by
  unfold UserRef.acceptTokens
  split
  · exact setTokenService (hmade _ ⟨rfl, rfl⟩)
  · exact pure ()

theorem executeUserUpdateWithChanges (changes : SetAccountInfoRequest → SetAccountInfoRequest) :
    OwnCode usable user inHandler (user.executeUserUpdateWithChanges changes) := by
  apply bind getAccountInfoRefreshingCache
  intro _
  apply withToken
  intro accessToken configuration
  cases configuration with
  | none => exact pure ()
  | some configuration =>
      exact bind (postWithIDToken _ _) fun response => acceptTokens hmade response configuration

theorem updateEmailOrPassword (email password : Option String) :
    OwnCode usable user inHandler (user.updateEmailOrPassword email password) := by
  apply read
  intro data _
  apply bind (executeUserUpdateWithChanges hmade _)
  intro _
  cases email with
  | none => exact updateKeychain
  | some email =>
      apply bind (assign fun _ h => h)
      intro _
      split
      · apply withToken
        intro accessToken configuration
        cases configuration with
        | none => exact pure ()
        | some configuration =>
            apply bind (postWithIDToken _ _)
            intro response
            exact bind (noteProviders response) fun _ => bind (update response) fun _ => updateKeychain
      · exact pure ()

theorem updatePassword (password : String) : OwnCode usable user inHandler (user.updatePassword password) := by
  unfold UserRef.updatePassword
  split
  · exact throw _
  · exact updateEmailOrPassword hmade none (some password)

theorem commitChanges (displayName photoURL : Option (Option String)) :
    OwnCode usable user inHandler (user.commitChanges displayName photoURL) := by
  unfold UserRef.commitChanges
  split
  · exact pure ()
  · apply bind (executeUserUpdateWithChanges hmade _)
    intro _
    refine bind (assignAll ?_) fun _ => updateKeychain
    intro update hupdate
    rcases List.mem_append.mp hupdate with hname | hphoto
    · obtain ⟨value, -, rfl⟩ := List.mem_map.mp hname
      exact fun _ h => h
    · obtain ⟨value, -, rfl⟩ := List.mem_map.mp hphoto
      exact fun _ h => h

variable (provider : String) (credential : AuthCredential)

theorem unlink : OwnCode usable user inHandler (user.unlink provider) := by
  apply withToken
  intro accessToken configuration
  cases configuration with
  | none => exact trap (by decide)
  | some configuration =>
      apply read
      intro data _
      split
      · exact throw _
      · apply bind (postWithIDToken _ _)
        intro response
        apply bind (assign fun _ h => h)
        intro _
        apply bind (when fun _ => assign fun _ h => h)
        intro _
        apply bind (when fun _ => assign fun _ h => h)
        intro _
        exact bind (acceptTokens hmade response configuration) fun _ => updateKeychain

theorem updateTokenAndRefreshUser (response : SignInResponse) (accessToken : String)
    (configuration : AuthRequestConfiguration) :
    OwnCode usable user inHandler (user.updateTokenAndRefreshUser response accessToken configuration) := by
  apply bind (assign fun _ _ => hmade _ ⟨rfl, rfl⟩)
  intro _
  apply bind (internalGetToken false)
  intro _
  apply bind (postWithIDToken _ _)
  intro account
  apply bind (assign fun _ h => h)
  intro _
  exact bind (update account) fun _ => updateKeychain

theorem internalUpdateOrLinkPhoneNumber (isLinkOperation : Bool) :
    OwnCode usable user inHandler (user.internalUpdateOrLinkPhoneNumber credential isLinkOperation) := by
  apply withToken
  intro accessToken configuration
  cases configuration with
  | none => exact throw _
  | some configuration =>
      cases credential with
      | phoneVerification verificationID verificationCode =>
          apply bind (postWithIDToken _ _)
          intro response
          apply bind (acceptTokens hmade response configuration)
          intro _
          apply bind getAccountInfoRefreshingCache
          intro _
          exact bind (assign fun _ h => h) fun _ => updateKeychain
      | _ => exact throw _

theorem linkEmailLink (email : String) (oobCode : Option String) :
    OwnCode usable user inHandler (user.linkEmailLink email oobCode) := by
  apply withToken
  intro accessToken configuration
  split
  · exact bind (post _ _) fun response => updateTokenAndRefreshUser hmade response accessToken _
  · exact trap (by decide)

theorem linkGameCenter (playerID : String) (publicKeyURL signature salt : Option String) :
    OwnCode usable user inHandler (user.linkGameCenter playerID publicKeyURL signature salt) := by
  apply withToken
  intro accessToken configuration
  split
  · exact bind (post _ _) fun response => updateTokenAndRefreshUser hmade response accessToken _
  · exact trap (by decide)

theorem linkProvider : OwnCode usable user inHandler (user.linkProvider provider) := by
  apply withToken
  intro accessToken configuration
  cases configuration with
  | none => exact trap (by decide)
  | some configuration =>
      exact bind (postWithIDToken _ _) fun response =>
        updateTokenAndRefreshUser hmade response accessToken configuration

theorem link : OwnCode usable user inHandler (user.link credential) := by
  apply read
  intro data _
  split
  · exact throw _
  · cases credential with
    | emailPassword email password =>
        apply read
        intro data _
        split
        · exact throw _
        · exact updateEmailOrPassword hmade (some email) (some password)
    | emailLink email oobCode =>
        apply read
        intro data _
        split
        · exact throw _
        · exact linkEmailLink hmade email oobCode
    | gameCenter playerID publicKeyURL signature salt =>
        exact linkGameCenter hmade playerID publicKeyURL signature salt
    | provider provider => exact linkProvider hmade provider
    | phoneNumber temporaryProof phoneNumber => exact internalUpdateOrLinkPhoneNumber hmade _ true
    | phoneVerification verificationID verificationCode =>
        exact internalUpdateOrLinkPhoneNumber hmade _ true

end Changes

end OwnCode

end FirebaseSwift.Auth
