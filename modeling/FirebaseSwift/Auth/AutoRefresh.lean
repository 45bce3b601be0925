import FirebaseSwift.Auth.User

/-! The automatic refresh of the current user's token. A refresh is scheduled when the token changes. It
sleeps until five minutes before the token expires, and ends without effect if the current user has
another token by then. A failed refresh should be retried after a minute, then after twice as long each
time. But the retry is scheduled where the refresh has succeeded; a failure ends the task before. -/

namespace FirebaseSwift.Auth

/-- The delay of an automatic refresh. Expiration dates are finite. -/
def AuthTokenLifetime.boundedRefreshDelay (delay : Int) : Int :=
  if delay ≤ maximum then max delay 0 else 0

/-- A task that sleeps. The task itself does not know the user it was scheduled for. -/
structure AutoRefreshTask where
  accessToken : String
  delay : Int
  retry : Bool
  wakesAt : Date
  uid : String
deriving DecidableEq, Repr

/-- A task that waits for a new token. -/
structure AutoRefreshAttempt where
  user : UserRef
  uid : String
  delay : Int
  retry : Bool
deriving DecidableEq, Repr

/-- The state of an `Auth` with its automatic refreshes. -/
structure AutoRefresh where
  auth : AuthState
  now : Date
  lastNotifiedUserToken : Option String := none
  autoRefreshTokens : Bool := false
  autoRefreshScheduled : Bool := false
  isAppInBackground : Bool := false
  tasks : List AutoRefreshTask := []
  attempts : List AutoRefreshAttempt := []

namespace AutoRefresh

variable (self : AutoRefresh)

def currentData : Option UserData := self.auth.currentUser.bind self.auth.data

def currentUid : Option String := self.currentData.map UserData.uid

def rawAccessToken : Option String := self.currentData.map fun data => data.tokenService.accessToken

/-! ### Scheduling -/

def newTasks (delay : Int) (retry : Bool) : List AutoRefreshTask :=
  match self.currentData with
  | none => []
  | some data =>
      let delay := AuthTokenLifetime.boundedRefreshDelay delay
      [⟨data.tokenService.accessToken, delay, retry, self.now + delay, data.uid⟩]

/-- `_scheduleAutoTokenRefresh(withDelay:retry:state:)` -/
def scheduleWithDelay (delay : Int) (retry : Bool) : AutoRefresh :=
  match self.currentData with
  | none => self
  | some _ =>
      { self with autoRefreshScheduled := true, tasks := self.tasks ++ self.newTasks delay retry }

/-- The time until five minutes before the token expires. -/
def refreshDelay : Int :=
  let timeIntervalSinceNow :=
    (self.currentData.bind fun data => data.tokenService.accessTokenExpirationDate).map (· - self.now)
  max (timeIntervalSinceNow.getD 0 - 5 * 60) 0

def scheduleAutoTokenRefresh : AutoRefresh := self.scheduleWithDelay self.refreshDelay false

def possiblyPostAuthStateChangeNotification : AutoRefresh :=
  let token := self.rawAccessToken
  if self.lastNotifiedUserToken = token then self
  else
    let self := { self with lastNotifiedUserToken := token }
    if self.autoRefreshTokens then self.scheduleAutoTokenRefresh else self

/-! ### The current user -/

def updateCurrentUser (user : Option UserRef) (force saveToDisk : Bool) : AutoRefresh :=
  let self :=
    if user.bind self.auth.data = self.currentData then self.possiblyPostAuthStateChangeNotification
    else self
  let updates := !self.auth.isTenantMismatch user &&
    ((self.auth.updateCurrentUser user force saveToDisk).1.toOption.isSome || force)
  let self := { self with auth := (self.auth.updateCurrentUser user force saveToDisk).2 }
  if updates then self.possiblyPostAuthStateChangeNotification else self

def updateKeychain (user : UserRef) : Except AuthErrorCode Unit × AutoRefresh :=
  if self.auth.data user = self.currentData then
    match self.auth.updateKeychain user with
    | (.ok (), auth) => (.ok (), { self with auth := auth }.possiblyPostAuthStateChangeNotification)
    | (.error error, auth) => (.error error, { self with auth := auth })
  else (.ok (), self)

def signOutByForce (userID : String) : AutoRefresh :=
  if self.currentUid = some userID then self.updateCurrentUser none true true else self

/-- The `Auth` that the user object refers to is this one. -/
def isOfThis (user : UserRef) : Bool := (self.auth.user user).any fun object => object.auth = .this

/-- `User.updateKeychain()` -/
def userUpdateKeychain (user : UserRef) : Except AuthErrorCode Unit × AutoRefresh :=
  if self.isOfThis user then self.updateKeychain user else (.ok (), self)

def signOutIfTokenIsInvalid (user : UserRef) (error : AuthErrorCode) : AutoRefresh :=
  if error.isTokenInvalid && self.isOfThis user then
    match self.auth.data user with
    | some data => self.signOutByForce data.uid
    | none => self
  else self

/-- `internalGetToken(forceRefresh:)` after the request, which says whether a token is new. The first
component says whether it returns. -/
def endGetToken (user : UserRef) (result : Except AuthErrorCode Bool) : Bool × AutoRefresh :=
  match result with
  | .error error => (false, self.signOutIfTokenIsInvalid user error)
  | .ok false => (true, self)
  | .ok true =>
      match self.userUpdateKeychain user with
      | (.ok (), self) => (true, self)
      | (.error error, self) => (false, self.signOutIfTokenIsInvalid user error)

/-! ### The task -/

/-- The first part of the task, after it has slept. -/
def wake (task : AutoRefreshTask) : AutoRefresh :=
  match self.auth.currentUser, self.currentData with
  | some user, some data =>
      if data.tokenService.accessToken ≠ task.accessToken then self
      else
        let self := { self with autoRefreshScheduled := false }
        if self.isAppInBackground then self
        else { self with attempts := self.attempts ++ [⟨user, data.uid, task.delay, task.retry⟩] }
  | _, _ => self

def rescheduleDelay (attempt : AutoRefreshAttempt) : Int :=
  if attempt.retry then min (attempt.delay * 2) (16 * 60) else 60

/-- The rest of the task. An error ends it. -/
def endRefresh (attempt : AutoRefreshAttempt) (result : Except AuthErrorCode Bool) : AutoRefresh :=
  match self.endGetToken attempt.user result with
  | (false, self) => self
  | (true, self) =>
      if (self.auth.data attempt.user).map UserData.uid ≠ some attempt.uid then self
      else self.scheduleWithDelay (rescheduleDelay attempt) true

end AutoRefresh

/-- What happens to an `Auth`. The data of a user object can change at any time. -/
inductive AutoRefreshEvent where
  | wait (seconds : Nat)
  | makeUser (data : UserData)
  | updateUser (user : UserRef) (update : UserUpdate)
  | setTenantID (tenantID : Option String)
  | keychain (failure : Option AuthErrorCode)
  | updateCurrentUser (user : Option UserRef) (force saveToDisk : Bool)
  | updateKeychain (user : UserRef)
  /-- `getToken(forcingRefresh:)` enables the automatic refresh. -/
  | getToken
  | wake (index : Nat)
  | endRefresh (index : Nat) (result : Except AuthErrorCode Bool)

namespace AutoRefresh

def perform (self : AutoRefresh) : AutoRefreshEvent → Option AutoRefresh
  | .wait seconds => some { self with now := self.now + seconds }
  | .makeUser data => some { self with auth := (self.auth.makeUser data .this).2 }
  | .updateUser user update => some { self with auth := self.auth.updateUser user update }
  | .setTenantID tenantID => some { self with auth := { self.auth with tenantID := tenantID } }
  | .keychain failure => some { self with auth := { self.auth with keychainFailure := failure } }
  | .updateCurrentUser user force saveToDisk => some (self.updateCurrentUser user force saveToDisk)
  | .updateKeychain user => some (self.updateKeychain user).2
  | .getToken =>
      some (if self.autoRefreshTokens then self
        else { self with autoRefreshTokens := true }.scheduleAutoTokenRefresh)
  | .wake index =>
      match self.tasks[index]? with
      | some task =>
          if task.wakesAt ≤ self.now then
            some ({ self with tasks := self.tasks.eraseIdx index }.wake task)
          else none
      | none => none
  | .endRefresh index result =>
      match self.attempts[index]? with
      | some attempt =>
          some ({ self with attempts := self.attempts.eraseIdx index }.endRefresh attempt result)
      | none => none

end AutoRefresh

end FirebaseSwift.Auth
