import FirebaseSwift.Auth.AuthState
import FirebaseSwift.Library.AccessPrograms

/-! What the code of users and of `Auth` does in one step: an access under a lock, a request to the
backend, or a look at the clock. The backend's response and the time come from outside. -/

namespace FirebaseSwift.Auth

open AccessPrograms

structure SetAccountInfoRequest where
  accessToken : Option String := none
  email : Option String := none
  password : Option String := none
  displayName : Option String := none
  photoURL : Option String := none
  deleteProviders : Option (List String) := none
deriving DecidableEq, Repr

inductive AuthOperationType where
  | signUpOrSignIn
  | reauth
  | update
  | link
deriving DecidableEq, Repr

inductive Request where
  | secureToken (refreshToken : String)
  | getAccountInfo (accessToken : String)
  | setAccountInfo (request : SetAccountInfoRequest)
  | verifyPhoneNumber (verificationID verificationCode : String) (accessToken : Option String)
      (operation : AuthOperationType)
  | verifyPhoneNumberWithProof (temporaryProof phoneNumber : String) (operation : AuthOperationType)
  | verifyPassword (email password : String)
  | verifyCustomToken (token : String)
  | signUpNewUser (email password : Option String)
  | verifyAssertion (providerID : String) (autoCreate : Bool) (accessToken : Option String)
  | emailLinkSignIn (email oobCode : String) (idToken : Option String)
  | signInWithGameCenter (playerID : String) (accessToken : Option String)
deriving DecidableEq, Repr

structure SecureTokenResponse where
  accessToken : String
  approximateExpirationDate : Option Date
  refreshToken : Option String
  /-- The expiration date in the access token, if it can be read. -/
  tokenExpirationDate : Option Date
deriving DecidableEq, Repr

structure GetAccountInfoResponseProviderUserInfo where
  providerID : Option String
  displayName : Option String
  photoURL : Option String
  federatedID : Option String
  email : Option String
  phoneNumber : Option String
deriving DecidableEq, Repr

structure GetAccountInfoResponseUser where
  localID : Option String
  email : Option String := none
  emailVerified : Bool := false
  displayName : Option String := none
  photoURL : Option String := none
  creationDate : Option Date := none
  lastLoginDate : Option Date := none
  providerUserInfo : Option (List GetAccountInfoResponseProviderUserInfo) := none
  passwordHash : Option String := none
  phoneNumber : Option String := none
  mfaEnrollments : Option (List AuthProtoMFAEnrollment) := none
deriving DecidableEq, Repr

/-- The response to a change of the account. New tokens are optional. -/
structure ChangeResponse where
  idToken : Option String
  approximateExpirationDate : Option Date
  refreshToken : Option String
deriving DecidableEq, Repr

/-- The response to a sign-in. Only some sign-ins name a provider or need a confirmation. -/
structure SignInResponse where
  idToken : String
  approximateExpirationDate : Option Date
  refreshToken : String
  needConfirmation : Bool := false
  providerID : Option String := none
deriving DecidableEq, Repr

namespace Request

def Response : Request → Type
  | secureToken _ => SecureTokenResponse
  | getAccountInfo _ => GetAccountInfoResponseUser
  | setAccountInfo _ => ChangeResponse
  | verifyPhoneNumber _ _ _ _ => ChangeResponse
  | verifyPhoneNumberWithProof _ _ _ => ChangeResponse
  | _ => SignInResponse

end Request

/-- What comes from outside at a step. -/
inductive Input where
  | proceed
  | now (date : Date)
  | tokens (response : Except AuthErrorCode SecureTokenResponse)
  | accountInfo (response : Except AuthErrorCode GetAccountInfoResponseUser)
  | changed (response : Except AuthErrorCode ChangeResponse)
  | signedIn (response : Except AuthErrorCode SignInResponse)

def Request.answer : (request : Request) → Input → Option (Except AuthErrorCode request.Response)
  | secureToken _, .tokens response => some response
  | getAccountInfo _, .accountInfo response => some response
  | setAccountInfo _, .changed response => some response
  | verifyPhoneNumber _ _ _ _, .changed response => some response
  | verifyPhoneNumberWithProof _ _ _, .changed response => some response
  | verifyPassword _ _, .signedIn response => some response
  | verifyCustomToken _, .signedIn response => some response
  | signUpNewUser _ _, .signedIn response => some response
  | verifyAssertion _ _ _, .signedIn response => some response
  | emailLinkSignIn _ _ _, .signedIn response => some response
  | signInWithGameCenter _ _, .signedIn response => some response
  | _, _ => none

inductive Access where
  | userdata (user : UserRef)
  /-- The setter of the whole data, called with a copy that was read before and then updated. -/
  | setUserdata (user : UserRef) (copy : UserData) (update : UserUpdate)
  | withUserData (user : UserRef) (update : UserUpdate)
  | beginRefresh (user : UserRef) (tokenService : SecureTokenService)
  | finishRefresh (user : UserRef) (id : Nat) (result : Except AuthErrorCode (String × Bool))
  | refreshValue (user : UserRef) (id : Nat)
  | endRefresh (user : UserRef) (id : Nat)
  | userRequestConfiguration (user : UserRef)
  | isCurrentUser (user : UserRef)
  | updateKeychain (user : UserRef)
  | userSignOutByForce (user : UserRef) (userID : String)
  | currentUser
  | getUserID
  | tenantID
  | requestConfiguration
  | makeUser (data : UserData)
  | updateCurrentUser (user : Option UserRef) (force saveToDisk : Bool)
  | signOut
  | useUserAccessGroup (accessGroup : Option String)
  | getStoredUser (accessGroup : Option String)
  | date
  | post (request : Request) (requestConfiguration : AuthRequestConfiguration)

namespace Access

def Answer : Access → Type
  | userdata _ => UserData
  | setUserdata _ _ _ => Unit
  | withUserData _ _ => Unit
  | beginRefresh _ _ => Nat × Bool
  | finishRefresh _ _ _ => Unit
  | refreshValue _ _ => Except AuthErrorCode (String × Bool)
  | endRefresh _ _ => Unit
  | userRequestConfiguration _ => Option AuthRequestConfiguration
  | isCurrentUser _ => Bool
  | updateKeychain _ => Except AuthErrorCode Unit
  | userSignOutByForce _ _ => Except AuthErrorCode Unit
  | currentUser => Option UserRef
  | getUserID => Option String
  | tenantID => Option String
  | requestConfiguration => AuthRequestConfiguration
  | makeUser _ => UserRef
  | updateCurrentUser _ _ _ => Except AuthErrorCode Unit
  | signOut => Except AuthErrorCode Unit
  | useUserAccessGroup _ => Except AuthErrorCode Unit
  | getStoredUser _ => Except AuthErrorCode (Option UserRef)
  | date => Date
  | post request _ => Except AuthErrorCode request.Response

end Access

namespace TokenRefresh

/-- Join the pending refresh, or start one. -/
def begin (self : TokenRefresh) (tokenService : SecureTokenService) : (Nat × Bool) × TokenRefresh :=
  match self.pending with
  | some id => ((id, false), self)
  | none =>
      ((self.lastID + 1, true),
        { lastID := self.lastID + 1
          pending := some (self.lastID + 1)
          tasks := { id := self.lastID + 1, tokenService := tokenService } :: self.tasks })

/-- Only clear our own refresh: a newer one may have started already. -/
def clear (self : TokenRefresh) (id : Nat) : TokenRefresh :=
  if self.pending = some id then { self with pending := none } else self

def finish (self : TokenRefresh) (id : Nat) (result : Except AuthErrorCode (String × Bool)) : TokenRefresh :=
  { self with tasks := self.tasks.map fun task =>
      if task.id = id then { task with result := some result } else task }

def task (self : TokenRefresh) (id : Nat) : Option RefreshTask :=
  self.tasks.find? fun task => decide (task.id = id)

def value (self : TokenRefresh) (id : Nat) : Option (Except AuthErrorCode (String × Bool)) :=
  (self.task id).bind RefreshTask.result

end TokenRefresh

namespace AuthState

def modifyRefresh (state : AuthState) (user : UserRef) (f : TokenRefresh → TokenRefresh) : AuthState :=
  state.modifyUser user fun object => { object with tokenRefresh := f object.tokenRefresh }

/-- What a user does through its `auth`. Another app's `Auth` leaves this one as it is. -/
def throughAuth (state : AuthState) (object : User)
    (f : AuthState → Except AuthErrorCode Unit × AuthState) : Except AuthErrorCode Unit × AuthState :=
  if object.auth = .this then f state else (.ok (), state)

/-- One access. It waits, without a result here, for a user object that does not exist and for a refresh
that has not ended. -/
def perform : (access : Access) → Input → AuthState → Option (access.Answer × AuthState)
  | .userdata user, _, state => (state.data user).map fun data => (data, state)
  | .setUserdata user copy update, _, state =>
      (state.user user).map fun _ =>
        ((), state.modifyUser user fun object => { object with userData := update.apply copy })
  | .withUserData user update, _, state =>
      (state.user user).map fun _ => ((), state.updateUser user update)
  | .beginRefresh user tokenService, _, state =>
      (state.user user).map fun object =>
        ((object.tokenRefresh.begin tokenService).1,
          state.modifyRefresh user fun refresh => (refresh.begin tokenService).2)
  | .finishRefresh user id result, _, state =>
      (state.user user).map fun _ => ((), state.modifyRefresh user fun refresh => refresh.finish id result)
  | .refreshValue user id, _, state =>
      (state.user user).bind fun object => (object.tokenRefresh.value id).map fun result => (result, state)
  | .endRefresh user id, _, state =>
      (state.user user).map fun _ => ((), state.modifyRefresh user fun refresh => refresh.clear id)
  | .userRequestConfiguration user, _, state =>
      (state.user user).map fun object =>
        match object.auth with
        | .this => (some state.requestConfiguration, state)
        | .otherApp requestConfiguration => (some requestConfiguration, state)
        | .gone => (none, state)
  | .isCurrentUser user, _, state =>
      (state.user user).map fun object =>
        (decide (object.auth = .this ∧ state.currentUser = some user), state)
  | .updateKeychain user, _, state =>
      (state.user user).map fun object => state.throughAuth object fun state => state.updateKeychain user
  | .userSignOutByForce user userID, _, state =>
      (state.user user).map fun object => state.throughAuth object fun state => state.signOutByForce userID
  | .currentUser, _, state => some (state.currentUser, state)
  | .getUserID, _, state => some ((state.currentUser.bind state.data).map UserData.uid, state)
  | .tenantID, _, state => some (state.tenantID, state)
  | .requestConfiguration, _, state => some (state.requestConfiguration, state)
  | .makeUser data, _, state => some (state.makeUser data .this)
  | .updateCurrentUser user force saveToDisk, _, state =>
      some (state.updateCurrentUser user force saveToDisk)
  | .signOut, _, state => some state.signOut
  | .useUserAccessGroup accessGroup, .now date, state =>
      some (state.internalUseUserAccessGroup date accessGroup)
  | .getStoredUser accessGroup, .now date, state => some (state.getStoredUser date accessGroup)
  | .date, .now date, state => some (date, state)
  | .post request _, input, state => (request.answer input).map fun response => (response, state)
  | _, _, _ => none

/-- What an access makes of the data of a user. -/
def effect (user : UserRef) (data : UserData) : Access → UserData
  | .setUserdata object copy update => if object = user then update.apply copy else data
  | .withUserData object update => if object = user then update.apply data else data
  | _ => data

theorem data_modifyRefresh (state : AuthState) (user other : UserRef) (f : TokenRefresh → TokenRefresh) :
    (state.modifyRefresh user f).data other = state.data other := by
  rw [modifyRefresh, data_modifyUser, data]
  apply congrArg (fun f => Option.map f (state.user other))
  funext object
  exact ite_self _

theorem throughAuth_users {state : AuthState} {object : User}
    {f : AuthState → Except AuthErrorCode Unit × AuthState} (h : (f state).2.users = state.users) :
    (state.throughAuth object f).2.users = state.users := by
  unfold throughAuth
  split_ifs
  · exact h
  · rfl

theorem perform_data {access : Access} {input : Input} {state state' : AuthState} {answer : access.Answer}
    (h : perform access input state = some (answer, state')) {user : UserRef} {data : UserData}
    (hdata : state.data user = some data) : state'.data user = some (effect user data access) := by
  cases access with
  | setUserdata object copy update =>
      obtain ⟨existing, -, hresult⟩ := Option.map_eq_some_iff.mp h
      cases hresult
      obtain ⟨stored, hstored, rfl⟩ := Option.map_eq_some_iff.mp hdata
      rw [data_modifyUser, hstored]
      rfl
  | withUserData object update =>
      obtain ⟨existing, -, hresult⟩ := Option.map_eq_some_iff.mp h
      cases hresult
      rw [data_updateUser, hdata]
      rfl
  | beginRefresh object tokenService =>
      obtain ⟨existing, -, hresult⟩ := Option.map_eq_some_iff.mp h
      cases hresult
      exact (data_modifyRefresh _ _ _ _).trans hdata
  | finishRefresh object id result =>
      obtain ⟨existing, -, hresult⟩ := Option.map_eq_some_iff.mp h
      cases hresult
      exact (data_modifyRefresh _ _ _ _).trans hdata
  | endRefresh object id =>
      obtain ⟨existing, -, hresult⟩ := Option.map_eq_some_iff.mp h
      cases hresult
      exact (data_modifyRefresh _ _ _ _).trans hdata
  | refreshValue object id =>
      obtain ⟨existing, -, hvalue⟩ := Option.bind_eq_some_iff.mp h
      obtain ⟨result, -, hresult⟩ := Option.map_eq_some_iff.mp hvalue
      cases hresult
      exact hdata
  | userRequestConfiguration object =>
      obtain ⟨existing, -, hresult⟩ := Option.map_eq_some_iff.mp h
      split at hresult <;> cases hresult <;> exact hdata
  | updateKeychain object =>
      obtain ⟨existing, -, hresult⟩ := Option.map_eq_some_iff.mp h
      have husers := @throughAuth_users state existing (fun state => state.updateKeychain object)
        (updateKeychain_users object)
      rw [show state.throughAuth existing _ = (answer, state') from hresult] at husers
      exact (data_of_users_eq husers user).trans hdata
  | userSignOutByForce object userID =>
      obtain ⟨existing, -, hresult⟩ := Option.map_eq_some_iff.mp h
      have husers := @throughAuth_users state existing (fun state => state.signOutByForce userID)
        (signOutByForce_users userID)
      rw [show state.throughAuth existing _ = (answer, state') from hresult] at husers
      exact (data_of_users_eq husers user).trans hdata
  | makeUser made =>
      cases h
      exact data_of_prefixed (List.prefix_append _ _) hdata
  | updateCurrentUser object force saveToDisk =>
      have husers := @updateCurrentUser_users state object force saveToDisk
      rw [show state.updateCurrentUser object force saveToDisk = (answer, state') from Option.some.inj h] at husers
      exact (data_of_users_eq husers user).trans hdata
  | signOut =>
      have husers := @signOut_users state
      rw [show state.signOut = (answer, state') from Option.some.inj h] at husers
      exact (data_of_users_eq husers user).trans hdata
  | useUserAccessGroup accessGroup =>
      cases input with
      | now date =>
          have husers := @internalUseUserAccessGroup_users state date accessGroup
          rw [show state.internalUseUserAccessGroup date accessGroup = (answer, state') from Option.some.inj h] at husers
          exact data_of_prefixed husers hdata
      | _ => cases h
  | getStoredUser accessGroup =>
      cases input with
      | now date =>
          have husers := @getStoredUser_users state date accessGroup
          rw [show state.getStoredUser date accessGroup = (answer, state') from Option.some.inj h] at husers
          exact data_of_prefixed husers hdata
      | _ => cases h
  | post request configuration =>
      obtain ⟨response, -, hresult⟩ := Option.map_eq_some_iff.mp h
      cases hresult
      exact hdata
  | date =>
      cases input with
      | now date =>
          cases h
          exact hdata
      | _ => cases h
  | userdata object =>
      obtain ⟨existing, -, hresult⟩ := Option.map_eq_some_iff.mp h
      cases hresult
      exact hdata
  | isCurrentUser object =>
      obtain ⟨existing, -, hresult⟩ := Option.map_eq_some_iff.mp h
      cases hresult
      exact hdata
  | currentUser | getUserID | tenantID | requestConfiguration =>
      cases h
      exact hdata

/-- The users that exist before an access exist after it. -/
theorem perform_length {access : Access} {input : Input} {state state' : AuthState} {answer : access.Answer}
    (h : perform access input state = some (answer, state')) : state.users.length ≤ state'.users.length := by
  by_contra hlength
  have hlt : state'.users.length < state.users.length := Nat.lt_of_not_le hlength
  have hdata : state.data ⟨state'.users.length⟩ = some (state.users[state'.users.length]).userData := by
    rw [AuthState.data, AuthState.user, List.getElem?_eq_getElem hlt, Option.map_some]
  have hafter := perform_data h hdata
  rw [AuthState.data, AuthState.user, List.getElem?_eq_none (Nat.le_refl _)] at hafter
  cases hafter

end AuthState

/-- Code of users and of `Auth`. -/
abbrev Code (β : Type) := Program Access.Answer AuthErrorCode β

namespace Code

def orThrow {β : Type} : Except AuthErrorCode β → Code β
  | .ok result => pure result
  | .error error => throw error

def post (request : Request) (requestConfiguration : AuthRequestConfiguration) : Code request.Response := do
  let response ← Program.request (Access.post request requestConfiguration)
  orThrow response

end Code

end FirebaseSwift.Auth
