import FirebaseSwift.Auth.User

/-! The operations of `Auth`: the sign-ins, which make a user object for the tokens they get and then make
it the current user, the sign-out, the changes of the current user, and the re-authentication, which takes
the token service of a user object made by a sign-in. -/

namespace FirebaseSwift.Auth

open AccessPrograms

def requestConfiguration : Code AuthRequestConfiguration := Program.request Access.requestConfiguration

def updateCurrentUserLocked (user : Option UserRef) (force saveToDisk : Bool) : Code Unit := do
  let result ← Program.request (Access.updateCurrentUser user force saveToDisk)
  Code.orThrow result

/-- The user whose tokens these are, with the account info of the backend. -/
def retrieveUser (accessToken : String) (accessTokenExpirationDate : Option Date) (refreshToken : String)
    (anonymous : Bool) : Code UserRef := do
  let configuration ← requestConfiguration
  let user : UserRef ← Program.request (Access.makeUser (.withTokenService
    { requestConfiguration := some configuration
      accessToken := accessToken
      accessTokenExpirationDate := accessTokenExpirationDate
      refreshToken := some refreshToken }))
  let tenantID : Option String ← Program.request Access.tenantID
  user.assign (.tenantID tenantID)
  let configuration ← requestConfiguration
  user.assign (.requestConfiguration configuration)
  let accessToken ← user.internalGetToken false
  let data ← user.userdata
  let response ← Code.post (.getAccountInfo accessToken) data.requestConfiguration
  user.assign (.isAnonymous anonymous)
  user.update response
  return user

def completeSignIn (response : SignInResponse) (anonymous : Bool) : Code UserRef :=
  retrieveUser response.idToken response.approximateExpirationDate response.refreshToken anonymous

def signInWithPhoneCredential (credential : AuthCredential) (isReauthentication : Bool) :
    Code ChangeResponse := do
  let operation : AuthOperationType := if isReauthentication then .reauth else .signUpOrSignIn
  match credential with
  | .phoneNumber temporaryProof phoneNumber =>
      let configuration ← requestConfiguration
      Code.post (.verifyPhoneNumberWithProof temporaryProof phoneNumber operation) configuration
  | .phoneVerification verificationID verificationCode =>
      if verificationID = "" then throw .missingVerificationID
      else if verificationCode = "" then throw .missingVerificationCode
      else
        let configuration ← requestConfiguration
        Code.post (.verifyPhoneNumber verificationID verificationCode none operation) configuration
  | _ => throw .internalError

/-- Sign in without a change of the current user. -/
def internalSignInAndRetrieveData (credential : AuthCredential) (isReauthentication : Bool) :
    Code UserRef := do
  match credential with
  | .emailLink email oobCode =>
      match oobCode with
      | none => Program.trap "Missing oobCode in link URL"
      | some oobCode =>
          let configuration ← requestConfiguration
          let response ← Code.post (.emailLinkSignIn email oobCode none) configuration
          completeSignIn response false
  | .emailPassword email password =>
      let configuration ← requestConfiguration
      if password = "" then throw .wrongPassword
      else
        let response ← Code.post (.verifyPassword email password) configuration
        completeSignIn response false
  | .gameCenter playerID (some _) (some _) (some _) =>
      let configuration ← requestConfiguration
      let response ← Code.post (.signInWithGameCenter playerID none) configuration
      completeSignIn response false
  | .gameCenter _ _ _ _ =>
      Program.trap
        "Internal Auth Error: Game Center credential missing publicKeyURL, signature, or salt"
  | .provider provider =>
      let configuration ← requestConfiguration
      let response ← Code.post (.verifyAssertion provider (!isReauthentication) none) configuration
      if response.needConfirmation then throw .accountExistsWithDifferentCredential
      else if response.providerID.getD "" = "" then throw .unexpectedResponse
      else completeSignIn response false
  | credential =>
      let response ← signInWithPhoneCredential credential isReauthentication
      match response.idToken, response.refreshToken with
      | some idToken, some refreshToken =>
          retrieveUser idToken response.approximateExpirationDate refreshToken false
      | _, _ => throw .unexpectedResponse

def signIn (credential : AuthCredential) : Code Unit := do
  let user ← internalSignInAndRetrieveData credential false
  updateCurrentUserLocked (some user) false true

def signInWithEmail (email password : String) : Code Unit := signIn (.emailPassword email password)

def signInWithEmailLink (email : String) (oobCode : Option String) : Code Unit :=
  signIn (.emailLink email oobCode)

def signUp (email password : Option String) (anonymous : Bool) : Code Unit := do
  let configuration ← requestConfiguration
  let response ← Code.post (.signUpNewUser email password) configuration
  let user ← completeSignIn response anonymous
  updateCurrentUserLocked (some user) false true

def signInAnonymously : Code Unit := do
  let currentUser : Option UserRef ← Program.request Access.currentUser
  match currentUser with
  | none => signUp none none true
  | some currentUser =>
      let data ← currentUser.userdata
      if data.isAnonymous then updateCurrentUserLocked (some currentUser) false true
      else signUp none none true

def signInWithCustomToken (token : String) : Code Unit := do
  let configuration ← requestConfiguration
  let response ← Code.post (.verifyCustomToken token) configuration
  let user ← completeSignIn response false
  updateCurrentUserLocked (some user) false true

def createUser (email password : String) : Code Unit :=
  if password = "" then throw .weakPassword
  else if email = "" then throw .missingEmail
  else signUp (some email) (some password) false

def signOut : Code Unit := do
  let result : Except AuthErrorCode Unit ← Program.request Access.signOut
  Code.orThrow result

/-- A user of another project, by its API key, is reloaded with this configuration first. -/
def updateCurrentUser (user : UserRef) : Code Unit := do
  let myConfiguration ← requestConfiguration
  let data ← user.userdata
  Code.when (data.requestConfiguration.apiKey ≠ myConfiguration.apiKey) (do
    user.assign (.requestConfiguration myConfiguration)
    user.reload)
  updateCurrentUserLocked (some user) true true

def useUserAccessGroup (accessGroup : Option String) : Code Unit := do
  let result : Except AuthErrorCode Unit ← Program.request (Access.useUserAccessGroup accessGroup)
  Code.orThrow result

def getStoredUser (accessGroup : Option String) : Code (Option UserRef) := do
  let result : Except AuthErrorCode (Option UserRef) ←
    Program.request (Access.getStoredUser accessGroup)
  Code.orThrow result

namespace UserRef

def reauthenticate (self : UserRef) (credential : AuthCredential) : Code Unit := do
  match ← self.authRequestConfiguration with
  | none => throw .userMismatch
  | some _ =>
      let user ← tryCatch (internalSignInAndRetrieveData credential true) fun error =>
        throw (if error = .userNotFound then .userMismatch else error)
      let data ← user.userdata
      let userID : Option String ← Program.request Access.getUserID
      if some data.uid ≠ userID then throw .userMismatch
      else
        let data ← user.userdata
        self.setTokenService data.tokenService

end UserRef

end FirebaseSwift.Auth
