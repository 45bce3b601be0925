import FirebaseSwift.Auth.UserUpdates

/-! The state of an `Auth`, with the user objects that were made so far and the stored users. The
functions here run under the lock of the state; what they changed before they throw stays changed. -/

namespace FirebaseSwift.Auth

inductive AuthErrorCode where
  | userDisabled
  | wrongPassword
  | userNotFound
  | accountExistsWithDifferentCredential
  | providerAlreadyLinked
  | noSuchProvider
  | invalidUserToken
  | networkError
  | userTokenExpired
  | userMismatch
  | weakPassword
  | missingEmail
  | missingVerificationCode
  | missingVerificationID
  | tenantIDMismatch
  | nullUser
  | keychainError
  | internalError
  | unexpectedResponse
  | other (rawValue : Nat)
deriving DecidableEq, Repr

/-- A user object, by its place among the objects made. -/
structure UserRef where
  index : Nat
deriving DecidableEq, Repr

/-- The `Auth` that a user object refers to: this one, one of another app, or none that still exists. -/
inductive UserAuth where
  | this
  | otherApp (requestConfiguration : AuthRequestConfiguration)
  | gone
deriving DecidableEq, Repr

/-- The task of a refresh, by the token service that it refreshes, and its result when it has ended. -/
structure RefreshTask where
  id : Nat
  tokenService : SecureTokenService
  result : Option (Except AuthErrorCode (String × Bool)) := none

/-- The refresh in flight, if any, which concurrent callers join, and the tasks so far. -/
structure TokenRefresh where
  lastID : Nat := 0
  pending : Option Nat := none
  tasks : List RefreshTask := []

structure User where
  userData : UserData
  auth : UserAuth
  tokenRefresh : TokenRefresh := {}

/-- Where a user is stored: under the key of the app, or shared in an access group. -/
inductive KeychainItem where
  | app
  | shared (accessGroup : String) (shareAuthStateAcrossDevices : Bool)
deriving DecidableEq, Repr

structure AuthState where
  users : List User
  requestConfiguration : AuthRequestConfiguration
  currentUser : Option UserRef := none
  userAccessGroup : Option String := none
  shareAuthStateAcrossDevices : Bool := false
  tenantID : Option String := none
  keychain : KeychainItem → Option StoredUser := fun _ => none
  /-- What the keychain answers at present, if it cannot be used. -/
  keychainFailure : Option AuthErrorCode := none
  storedUserAccessGroup : Option String := none
  awaitsProtectedData : Bool := false

namespace AuthState

variable (state : AuthState)

def user (user : UserRef) : Option User := state.users[user.index]?

def data (user : UserRef) : Option UserData := (state.user user).map User.userData

def modifyUser (user : UserRef) (f : User → User) : AuthState :=
  { state with users := state.users.modify user.index f }

def updateUser (user : UserRef) (update : UserUpdate) : AuthState :=
  state.modifyUser user fun object => { object with userData := update.apply object.userData }

def makeUser (data : UserData) (auth : UserAuth) : UserRef × AuthState :=
  (⟨state.users.length⟩, { state with users := state.users ++ [{ userData := data, auth := auth }] })

def setItem (item : KeychainItem) (stored : Option StoredUser) : Except AuthErrorCode AuthState :=
  match state.keychainFailure with
  | some error => .error error
  | none => .ok { state with keychain := Function.update state.keychain item stored }

/-- The item that holds the current user. -/
def item : KeychainItem :=
  match state.userAccessGroup with
  | some accessGroup => .shared accessGroup state.shareAuthStateAcrossDevices
  | none => .app

def saveUser (user : Option UserData) : Except AuthErrorCode AuthState :=
  state.setItem state.item (user.map UserData.encode)

/-- The user's tenant is not the one that is set. -/
def isTenantMismatch (user : Option UserRef) : Bool :=
  (user.bind state.data).any fun data =>
    (data.tenantID.isSome || state.tenantID.isSome) && decide (state.tenantID ≠ data.tenantID)

def updateCurrentUser (user : Option UserRef) (force saveToDisk : Bool) :
    Except AuthErrorCode Unit × AuthState :=
  if state.isTenantMismatch user then (.error .tenantIDMismatch, state)
  else
    match if saveToDisk then state.saveUser (user.bind state.data) else .ok state with
    | .ok state => (.ok (), { state with currentUser := user })
    | .error error =>
        (.error error, if force then { state with currentUser := user } else state)

/-- A no-op if the data are not those of the current user. -/
def updateKeychain (user : UserRef) : Except AuthErrorCode Unit × AuthState :=
  if state.data user = state.currentUser.bind state.data then
    match state.saveUser (state.data user) with
    | .ok state => (.ok (), state)
    | .error error => (.error error, state)
  else (.ok (), state)

def signOutByForce (userID : String) : Except AuthErrorCode Unit × AuthState :=
  if (state.currentUser.bind state.data).map UserData.uid = some userID then
    state.updateCurrentUser none true true
  else (.ok (), state)

def signOut : Except AuthErrorCode Unit × AuthState :=
  match state.currentUser with
  | some _ => state.updateCurrentUser none false true
  | none => (.ok (), state)

/-- Read the user in an item and make an object of it, whose requests are not configured yet. -/
def readUser (now : Date) (item : KeychainItem) : Option UserRef × AuthState :=
  match state.keychain item with
  | some stored =>
      let made := state.makeUser (UserData.decode now stored) .this
      (some made.1, made.2)
  | none => (none, state)

def getStoredUser (now : Date) (accessGroup : Option String) :
    Except AuthErrorCode (Option UserRef) × AuthState :=
  match accessGroup with
  | some accessGroup =>
      -- Whatever keeps a shared item from being read, there is no user then.
      match state.keychainFailure with
      | some _ => (.ok none, state)
      | none =>
          let read := state.readUser now (.shared accessGroup state.shareAuthStateAcrossDevices)
          (.ok read.1, read.2)
  | none =>
      match state.keychainFailure with
      | some error => (.error error, state)
      | none =>
          let read := state.readUser now .app
          (.ok read.1, read.2)

def getUser (now : Date) : Except AuthErrorCode (Option UserRef) × AuthState :=
  match state.getStoredUser now state.userAccessGroup with
  | (.ok (some user), state) =>
      (.ok (some user), state.updateUser user (.useRequestConfiguration state.requestConfiguration))
  | result => result

def internalUseUserAccessGroup (now : Date) (accessGroup : Option String) :
    Except AuthErrorCode Unit × AuthState :=
  let state := { state with storedUserAccessGroup := accessGroup }
  match state.getStoredUser now accessGroup with
  | (.error error, state) => (.error error, state)
  | (.ok user, state) =>
      match state.updateCurrentUser user false false with
      | (.error error, state) => (.error error, state)
      | (.ok (), state) =>
          if state.userAccessGroup = none ∧ accessGroup ≠ none then
            match state.setItem .app none with
            | .ok state => (.ok (), { state with userAccessGroup := accessGroup })
            | .error error => (.error error, state)
          else (.ok (), { state with userAccessGroup := accessGroup })

/-- Errors are logged. A keychain that cannot be read yet is read again later. -/
def loadStoredUser (now : Date) : AuthState :=
  let loaded :=
    match state.storedUserAccessGroup with
    | some accessGroup => state.internalUseUserAccessGroup now (some accessGroup)
    | none =>
        match state.getUser now with
        | (.error error, state) => (.error error, state)
        | (.ok user, state) =>
            let state :=
              match user.bind state.data with
              | some data => { state with tenantID := data.tenantID }
              | none => state
            state.updateCurrentUser user false false
  match loaded with
  | (.error .keychainError, state) => { state with awaitsProtectedData := true }
  | (_, state) => state

/-- The keychain can be read now. Unless someone signed in meanwhile, the saved user is loaded. -/
def protectedDataDidBecomeAvailable (now : Date) : AuthState :=
  if state.awaitsProtectedData then
    let state := { state with awaitsProtectedData := false }
    if state.currentUser = none then state.loadStoredUser now else state
  else state

/-- A new process, with what was stored. -/
def startUp (now : Date) : AuthState :=
  loadStoredUser
    { users := []
      requestConfiguration :=
        { apiKey := state.requestConfiguration.apiKey, appID := state.requestConfiguration.appID }
      keychain := state.keychain
      keychainFailure := state.keychainFailure
      storedUserAccessGroup := state.storedUserAccessGroup }
    now

section Lemmas

variable {state : AuthState}
variable (user : UserRef) {state' : AuthState} {item : KeychainItem} {stored : Option StoredUser} (now : Date)

theorem user_modifyUser (f : User → User) : (state.modifyUser user f).user user = (state.user user).map f := by
  rw [AuthState.user, modifyUser, List.getElem?_modify_eq]
  rfl

theorem user_of_prefixed (h : state.users <+: state'.users) {user : UserRef} {object : User}
    (hobject : state.user user = some object) : state'.user user = some object := by
  obtain ⟨extra, hextra⟩ := h
  rw [AuthState.user, ← hextra, List.getElem?_append_left]
  · exact hobject
  · exact (List.getElem?_eq_some_iff.mp hobject).1

variable (other : UserRef) (accessGroup : Option String)

theorem data_modifyUser (f : User → User) : (state.modifyUser user f).data other =
      (state.user other).map fun object => if user = other then (f object).userData else object.userData := by
  obtain ⟨index⟩ := user
  obtain ⟨index'⟩ := other
  simp only [data, AuthState.user, modifyUser, List.getElem?_modify, UserRef.mk.injEq, Option.map_eq_map,
    Option.map_map]
  apply congrArg (fun f => Option.map f state.users[index']?)
  funext object
  by_cases h : index = index' <;> simp [h]

theorem data_updateUser (update : UserUpdate) : (state.updateUser user update).data other =
      (state.data other).map fun data => if user = other then update.apply data else data := by
  rw [updateUser, data_modifyUser, data, Option.map_map]
  apply congrArg (fun f => Option.map f (state.user other))
  funext object
  exact (apply_ite id _ _ _).symm

/-- The data of the user objects that exist do not change when others are made. -/
theorem data_of_prefixed (h : state.users <+: state'.users) {user : UserRef} {data : UserData}
    (hdata : state.data user = some data) : state'.data user = some data := by
  obtain ⟨object, hobject, rfl⟩ := Option.map_eq_some_iff.mp hdata
  exact congrArg (Option.map User.userData) (user_of_prefixed h hobject)

theorem data_of_users_eq (h : state'.users = state.users) (user : UserRef) : state'.data user = state.data user := by
  rw [data, data, AuthState.user, AuthState.user, h]

theorem setItem_eq (h : state.setItem item stored = .ok state') :
    state' = { state with keychain := Function.update state.keychain item stored } := by
  unfold setItem at h
  split at h
  · cases h
  · exact (Except.ok.inj h).symm

theorem setItem_users (h : state.setItem item stored = .ok state') : state'.users = state.users := by
  rw [setItem_eq h]

theorem saveUser_users {user : Option UserData} (h : state.saveUser user = .ok state') :
    state'.users = state.users := setItem_users h

/-- What a change of the current user can do. -/
theorem updateCurrentUser_cases (user : Option UserRef) (force saveToDisk : Bool) :
    (state.isTenantMismatch user = true ∧
      state.updateCurrentUser user force saveToDisk = (.error .tenantIDMismatch, state)) ∨
    (state.isTenantMismatch user = false ∧ ∃ saved,
      (if saveToDisk then state.saveUser (user.bind state.data) else .ok state) = .ok saved ∧
      state.updateCurrentUser user force saveToDisk = (.ok (), { saved with currentUser := user })) ∨
    (state.isTenantMismatch user = false ∧ ∃ error,
      (if saveToDisk then state.saveUser (user.bind state.data) else .ok state) = .error error ∧
      state.updateCurrentUser user force saveToDisk =
        (.error error, if force then { state with currentUser := user } else state)) := by
  unfold updateCurrentUser
  cases hmismatch : state.isTenantMismatch user with
  | true => exact .inl ⟨rfl, rfl⟩
  | false =>
      cases hsaved : if saveToDisk then state.saveUser (user.bind state.data) else .ok state with
      | ok saved => exact .inr (.inl ⟨rfl, saved, rfl, rfl⟩)
      | error error => exact .inr (.inr ⟨rfl, error, rfl, rfl⟩)

theorem updateCurrentUser_users (user : Option UserRef) (force saveToDisk : Bool) :
    (state.updateCurrentUser user force saveToDisk).2.users = state.users := by
  obtain ⟨-, h⟩ | ⟨-, saved, hsaved, h⟩ | ⟨-, error, -, h⟩ := updateCurrentUser_cases user force saveToDisk
  · rw [h]
  · rw [h]
    cases saveToDisk with
    | true =>
        have hsaved : state.saveUser (user.bind state.data) = .ok saved := hsaved
        exact (saveUser_users hsaved :)
    | false =>
        cases hsaved
        rfl
  · rw [h]
    cases force <;> rfl

theorem updateKeychain_users : (state.updateKeychain user).2.users = state.users := by
  unfold updateKeychain
  split_ifs
  · split
    next saved hsaved => exact saveUser_users hsaved
    next error herror => rfl
  · rfl

theorem signOutByForce_users (userID : String) : (state.signOutByForce userID).2.users = state.users := by
  unfold signOutByForce
  split_ifs
  · exact updateCurrentUser_users none true true
  · rfl

theorem signOut_users : state.signOut.2.users = state.users := by
  unfold signOut
  split
  · exact updateCurrentUser_users none false true
  · rfl

theorem readUser_users (item : KeychainItem) : state.users <+: (state.readUser now item).2.users := by
  unfold readUser
  split
  · exact List.prefix_append _ _
  · exact List.prefix_rfl

theorem getStoredUser_users : state.users <+: (state.getStoredUser now accessGroup).2.users := by
  unfold getStoredUser
  split <;> split <;> first | exact List.prefix_rfl | exact readUser_users now _

theorem internalUseUserAccessGroup_users :
    state.users <+: (state.internalUseUserAccessGroup now accessGroup).2.users := by
  have hstored := @getStoredUser_users { state with storedUserAccessGroup := accessGroup } now accessGroup
  unfold internalUseUserAccessGroup
  extract_lets grouped
  split
  next error stored hread =>
    rw [hread] at hstored
    exact hstored
  next user stored hread =>
    rw [hread] at hstored
    have hupdated := @updateCurrentUser_users stored user false false
    split
    next error updated hupdate =>
      rw [hupdate] at hupdated
      exact hupdated ▸ hstored
    next updated hupdate =>
      rw [hupdate] at hupdated
      split_ifs
      · split
        next removed hremoved => exact (setItem_users hremoved).trans hupdated ▸ hstored
        next error hremoved => exact hupdated ▸ hstored
      · exact hupdated ▸ hstored

end Lemmas

end AuthState

end FirebaseSwift.Auth
