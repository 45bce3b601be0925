import FirebaseSwift.Auth.SecureTokenService

/-! The operations of a user. Reading the user's data and setting it are two accesses: an assignment to a
field reads the whole data, changes the field in the copy, and sets the whole data to the copy. -/

namespace FirebaseSwift.Auth

open AccessPrograms

namespace EmailAuthProvider

def id : String := "password"

end EmailAuthProvider

namespace PhoneAuthProvider

def id : String := "phone"

end PhoneAuthProvider

namespace GameCenterAuthProvider

def id : String := "gc.apple.com"

end GameCenterAuthProvider

inductive AuthCredential where
  | emailPassword (email password : String)
  /-- The link, by the code in its query. -/
  | emailLink (email : String) (oobCode : Option String)
  | gameCenter (playerID : String) (publicKeyURL signature salt : Option String)
  | phoneNumber (temporaryProof phoneNumber : String)
  | phoneVerification (verificationID verificationCode : String)
  | provider (provider : String)
deriving DecidableEq, Repr

namespace AuthCredential

def providerID : AuthCredential → String
  | emailPassword _ _ => EmailAuthProvider.id
  | emailLink _ _ => EmailAuthProvider.id
  | gameCenter _ _ _ _ => GameCenterAuthProvider.id
  | phoneNumber _ _ => PhoneAuthProvider.id
  | phoneVerification _ _ => PhoneAuthProvider.id
  | provider providerID => providerID

end AuthCredential

namespace UserInfoImpl

def ofResponse (providerUserInfo : GetAccountInfoResponseProviderUserInfo) : Option UserInfoImpl :=
  providerUserInfo.providerID.map fun providerID =>
    { providerID := providerID
      uid := providerUserInfo.federatedID.getD ""
      displayName := providerUserInfo.displayName
      photoURL := providerUserInfo.photoURL
      email := providerUserInfo.email
      phoneNumber := providerUserInfo.phoneNumber }

end UserInfoImpl

namespace GetAccountInfoResponseUser

/-- Entries without a provider ID are skipped. -/
def providerData (self : GetAccountInfoResponseUser) : List (String × UserInfoImpl) :=
  ((self.providerUserInfo.getD []).filterMap UserInfoImpl.ofResponse).foldl
    (fun providerData userInfo =>
      SortedDictionary.set (fun a b => a < b) userInfo.providerID userInfo providerData) []

/-- The fields that the account info replaces, in the order in which they are assigned. -/
def updates (self : GetAccountInfoResponseUser) : List UserUpdate :=
  [.uid (self.localID.getD ""),
    .email self.email,
    .isEmailVerified self.emailVerified,
    .displayName self.displayName,
    .photoURL self.photoURL,
    .phoneNumber self.phoneNumber,
    .hasEmailPasswordCredential (self.passwordHash.any fun hash => decide (hash ≠ "")),
    .metadata { creationDate := self.creationDate, lastSignInDate := self.lastLoginDate },
    .providerDataRaw self.providerData,
    .mfaEnrollments (self.mfaEnrollments.getD [])]

end GetAccountInfoResponseUser

def nilRequestConfiguration : String := "Internal Error: Unexpected nil requestConfiguration."

namespace AuthErrorCode

/-- The errors after which the user is signed out. -/
def isTokenInvalid : AuthErrorCode → Bool
  | userNotFound => true
  | userDisabled => true
  | invalidUserToken => true
  | userTokenExpired => true
  | _ => false

end AuthErrorCode

namespace UserRef

variable (self : UserRef)

def userdata : Code UserData := Program.request (Access.userdata self)

/-- An assignment to a field of `userdata`. -/
def assign (update : UserUpdate) : Code Unit := do
  let copy ← self.userdata
  Program.request (Access.setUserdata self copy update)

def assignAll : List UserUpdate → Code Unit
  | [] => pure ()
  | update :: updates => do
      self.assign update
      assignAll updates

def withUserData (update : UserUpdate) : Code Unit := Program.request (Access.withUserData self update)

def authRequestConfiguration : Code (Option AuthRequestConfiguration) :=
  Program.request (Access.userRequestConfiguration self)

def updateKeychain : Code Unit := do
  let result ← Program.request (Access.updateKeychain self)
  Code.orThrow result

def useRequestConfiguration (configuration : AuthRequestConfiguration) : Code Unit :=
  self.withUserData (.useRequestConfiguration configuration)

def signOutIfTokenIsInvalid (error : AuthErrorCode) : Code Unit := do
  if error.isTokenInvalid then
    let data ← self.userdata
    let _ ← Program.request (Access.userSignOutByForce self data.uid)

/-- The task of a refresh. It refreshes a copy, then stores only its tokens. -/
def refresh (tokenService : SecureTokenService) : Code (String × Bool) := do
  let (refreshed, result) ← tokenService.fetchAccessToken true
  self.withUserData (.refreshedTokens tokenService.refreshToken refreshed)
  return result

def beginRefresh (tokenService : SecureTokenService) : Code (Nat × Bool) :=
  Program.request (Access.beginRefresh self tokenService)

def finishRefresh (id : Nat) (result : Except AuthErrorCode (String × Bool)) : Code Unit :=
  Program.request (Access.finishRefresh self id result)

def refreshValue (id : Nat) : Code (Except AuthErrorCode (String × Bool)) :=
  Program.request (Access.refreshValue self id)

def endRefresh (id : Nat) : Code Unit := Program.request (Access.endRefresh self id)

def runRefresh (tokenService : SecureTokenService) (id : Nat) (started : Bool) : Code Unit :=
  Code.when (started = true) (do
    let result ← Code.attempt (self.refresh tokenService)
    self.finishRefresh id result)

/-- The refresh that a call starts runs as a part of it here, since the call does nothing else until the
refresh has ended. -/
def fetchAccessToken (forceRefresh : Bool) : Code (String × Bool) := do
  let data ← self.userdata
  let tokenService := data.tokenService
  let valid ← tokenService.hasValidAccessTokenUnless forceRefresh
  if valid then return (tokenService.accessToken, false)
  else
    let (id, started) ← self.beginRefresh tokenService
    self.runRefresh tokenService id started
    let result ← self.refreshValue id
    self.endRefresh id
    Code.orThrow result

def internalGetToken (forceRefresh : Bool) : Code String :=
  tryCatch
    (do
      let (token, tokenUpdated) ← self.fetchAccessToken forceRefresh
      Code.when (tokenUpdated = true) self.updateKeychain
      return token)
    fun error => do
      self.signOutIfTokenIsInvalid error
      throw error

def isCurrentUser : Code Bool := Program.request (Access.isCurrentUser self)

/-- An ID token that was rejected does not mean that the session has ended, so a refresh checks it. -/
def signOutIfSessionIsInvalid (error : AuthErrorCode) : Code Unit := do
  if error = .invalidUserToken ∨ error = .userTokenExpired then
    if ← self.isCurrentUser then
      let data ← self.userdata
      let refreshToken := data.tokenService.refreshToken
      tryCatch
        (do
          let (_, tokenUpdated) ← self.fetchAccessToken true
          Code.when (tokenUpdated = true) (do
            let _ ← Code.attempt self.updateKeychain))
        fun refreshError => do
          let data ← self.userdata
          if data.tokenService.refreshToken = refreshToken then
            if ← self.isCurrentUser then
              if refreshError ≠ .networkError then self.signOutIfTokenIsInvalid error
  else self.signOutIfTokenIsInvalid error

/-- A request with the user's ID token. -/
def postWithIDToken (request : Request) (requestConfiguration : AuthRequestConfiguration) :
    Code request.Response :=
  tryCatch (Code.post request requestConfiguration) fun error => do
    self.signOutIfSessionIsInvalid error
    throw error

def update (response : GetAccountInfoResponseUser) : Code Unit := self.assignAll response.updates

def getAccountInfoRefreshingCache : Code GetAccountInfoResponseUser := do
  let token ← self.internalGetToken false
  match ← self.authRequestConfiguration with
  | none => Program.trap nilRequestConfiguration
  | some requestConfiguration =>
      tryCatch
        (do
          let user ← Code.post (.getAccountInfo token) requestConfiguration
          self.update user
          self.updateKeychain
          return user)
        fun error => do
          self.signOutIfSessionIsInvalid error
          throw error

def reload : Code Unit := do
  let _ ← self.getAccountInfoRefreshingCache

def setTokenService (tokenService : SecureTokenService) : Code Unit := do
  let (tokenService, _) ← tokenService.fetchAccessToken false
  self.assign (.tokenService tokenService)
  self.updateKeychain

/-- New tokens in the response to a change of the account. -/
def acceptTokens (response : ChangeResponse) (requestConfiguration : AuthRequestConfiguration) :
    Code Unit :=
  match response.idToken, response.refreshToken with
  | some idToken, some refreshToken =>
      self.setTokenService
        { requestConfiguration := some requestConfiguration
          accessToken := idToken
          accessTokenExpirationDate := response.approximateExpirationDate
          refreshToken := some refreshToken }
  | _, _ => pure ()

def executeUserUpdateWithChanges (changes : SetAccountInfoRequest → SetAccountInfoRequest) : Code Unit := do
  let _ ← self.getAccountInfoRefreshingCache
  let accessToken ← self.internalGetToken false
  match ← self.authRequestConfiguration with
  | none => pure ()
  | some configuration =>
      let response ← self.postWithIDToken
        (.setAccountInfo (changes { accessToken := some accessToken })) configuration
      self.acceptTokens response configuration

/-- The account has a provider, so it is not anonymous. -/
def noteProviders (user : GetAccountInfoResponseUser) : Code Unit :=
  match user.providerUserInfo with
  | some (provider :: providers) => do
      self.assign (.isAnonymous false)
      if (provider :: providers).any fun info => decide (info.providerID = some EmailAuthProvider.id) then
        self.assign (.hasEmailPasswordCredential true)
  | _ => pure ()

def updateEmailOrPassword (email password : Option String) : Code Unit := do
  let data ← self.userdata
  self.executeUserUpdateWithChanges fun request =>
    { request with email := email <|> request.email, password := password <|> request.password }
  match email with
  | none => self.updateKeychain
  | some email =>
      self.assign (.email (some email))
      if !data.hasEmailPasswordCredential then
        let accessToken ← self.internalGetToken false
        match ← self.authRequestConfiguration with
        | none => pure ()
        | some requestConfiguration =>
            let user ← self.postWithIDToken (.getAccountInfo accessToken) requestConfiguration
            self.noteProviders user
            self.update user
            self.updateKeychain

def updateEmail (email : String) : Code Unit := self.updateEmailOrPassword (some email) none

def updatePassword (password : String) : Code Unit :=
  if password = "" then throw .weakPassword else self.updateEmailOrPassword none (some password)

/-- The changes of a profile change request; the outer option says whether the property was set. -/
def commitChanges (displayName photoURL : Option (Option String)) : Code Unit :=
  if displayName = none ∧ photoURL = none then pure ()
  else do
    self.executeUserUpdateWithChanges fun request =>
      { request with
        photoURL := photoURL.getD request.photoURL
        displayName := displayName.getD request.displayName }
    self.assignAll (displayName.toList.map .displayName ++ photoURL.toList.map .photoURL)
    self.updateKeychain

def unlink (provider : String) : Code Unit := do
  let accessToken ← self.internalGetToken false
  match ← self.authRequestConfiguration with
  | none => Program.trap nilRequestConfiguration
  | some requestConfiguration =>
      let data ← self.userdata
      if SortedDictionary.get provider data.providerDataRaw = none then throw .noSuchProvider
      else
        let response ← self.postWithIDToken
          (.setAccountInfo { accessToken := some accessToken, deleteProviders := some [provider] })
          requestConfiguration
        self.assign (.removeProvider provider)
        Code.when (provider = EmailAuthProvider.id) (self.assign (.hasEmailPasswordCredential false))
        Code.when (provider = PhoneAuthProvider.id) (self.assign (.phoneNumber none))
        self.acceptTokens response requestConfiguration
        self.updateKeychain

/-- The account info is requested with the access token from before. -/
def updateTokenAndRefreshUser (response : SignInResponse) (accessToken : String)
    (requestConfiguration : AuthRequestConfiguration) : Code Unit := do
  self.assign (.tokenService
    { requestConfiguration := some requestConfiguration
      accessToken := response.idToken
      accessTokenExpirationDate := response.approximateExpirationDate
      refreshToken := some response.refreshToken })
  let _ ← self.internalGetToken false
  let user ← self.postWithIDToken (.getAccountInfo accessToken) requestConfiguration
  self.assign (.isAnonymous false)
  self.update user
  self.updateKeychain

def internalUpdateOrLinkPhoneNumber (credential : AuthCredential) (isLinkOperation : Bool) :
    Code Unit := do
  let accessToken ← self.internalGetToken false
  match ← self.authRequestConfiguration with
  | none => throw .nullUser
  | some configuration =>
      match credential with
      | .phoneVerification verificationID verificationCode =>
          let response ← self.postWithIDToken
            (.verifyPhoneNumber verificationID verificationCode (some accessToken)
              (if isLinkOperation then .link else .update)) configuration
          self.acceptTokens response configuration
          let _ ← self.getAccountInfoRefreshingCache
          self.assign (.isAnonymous false)
          self.updateKeychain
      | _ => throw .internalError

def updatePhoneNumber (credential : AuthCredential) : Code Unit :=
  self.internalUpdateOrLinkPhoneNumber credential false

def linkEmailLink (email : String) (oobCode : Option String) : Code Unit := do
  let accessToken ← self.internalGetToken false
  match oobCode, ← self.authRequestConfiguration with
  | some oobCode, some requestConfiguration =>
      let response ← Code.post (.emailLinkSignIn email oobCode (some accessToken)) requestConfiguration
      self.updateTokenAndRefreshUser response accessToken requestConfiguration
  | _, _ => Program.trap "Internal Auth Error: Missing oobCode or requestConfiguration"

def linkGameCenter (playerID : String) (publicKeyURL signature salt : Option String) : Code Unit := do
  let accessToken ← self.internalGetToken false
  match ← self.authRequestConfiguration, publicKeyURL, signature, salt with
  | some requestConfiguration, some _, some _, some _ =>
      let response ← Code.post (.signInWithGameCenter playerID (some accessToken)) requestConfiguration
      self.updateTokenAndRefreshUser response accessToken requestConfiguration
  | _, _, _, _ => Program.trap "Internal Auth Error: Nil value field for SignInWithGameCenterRequest"

def linkProvider (provider : String) : Code Unit := do
  let accessToken ← self.internalGetToken false
  match ← self.authRequestConfiguration with
  | none => Program.trap nilRequestConfiguration
  | some requestConfiguration =>
      let response ← self.postWithIDToken (.verifyAssertion provider true (some accessToken))
        requestConfiguration
      self.updateTokenAndRefreshUser response accessToken requestConfiguration

def linkEmailPassword (email password : String) : Code Unit :=
  self.updateEmailOrPassword (some email) (some password)

def link (credential : AuthCredential) : Code Unit := do
  let data ← self.userdata
  if SortedDictionary.get credential.providerID data.providerDataRaw ≠ none then
    throw .providerAlreadyLinked
  else
    match credential with
    | .emailPassword email password =>
        let data ← self.userdata
        if data.hasEmailPasswordCredential then throw .providerAlreadyLinked
        else self.linkEmailPassword email password
    | .emailLink email oobCode =>
        let data ← self.userdata
        if data.hasEmailPasswordCredential then throw .providerAlreadyLinked
        else self.linkEmailLink email oobCode
    | .gameCenter playerID publicKeyURL signature salt =>
        self.linkGameCenter playerID publicKeyURL signature salt
    | .provider provider => self.linkProvider provider
    | credential => self.internalUpdateOrLinkPhoneNumber credential true

end UserRef

end FirebaseSwift.Auth
