import FirebaseSwift.Auth.SignIn

/-! The operations that an app can start, and threads that run them. A step is one access of one thread, so
the accesses of operations under way interleave in every order. Each update runs in the order of its task
queue in the app; here it may also run at the same time as another. -/

namespace FirebaseSwift.Auth

open AccessPrograms

inductive UserOperation where
  | setDisplayName (displayName : Option String)
  | setPhotoURL (photoURL : Option String)
  | setTenantID (tenantID : Option String)
  | useRequestConfiguration (configuration : AuthRequestConfiguration)
  | reload
  | updateEmail (email : String)
  | updatePassword (password : String)
  | updatePhoneNumber (credential : AuthCredential)
  | commitChanges (displayName photoURL : Option (Option String))
  | link (credential : AuthCredential)
  | unlink (provider : String)
  | reauthenticate (credential : AuthCredential)
  | internalGetToken (forceRefresh : Bool)
  | signOutIfSessionIsInvalid (error : AuthErrorCode)
deriving DecidableEq, Repr

inductive AuthOperation where
  | signIn (credential : AuthCredential)
  | signInAnonymously
  | signInWithCustomToken (token : String)
  | createUser (email password : String)
  | signOut
  | updateCurrentUser (user : UserRef)
  | useUserAccessGroup (accessGroup : Option String)
  | getStoredUser (accessGroup : Option String)
deriving DecidableEq, Repr

inductive Operation where
  | user (user : UserRef) (operation : UserOperation)
  | auth (operation : AuthOperation)
deriving DecidableEq, Repr

def UserOperation.code (user : UserRef) : UserOperation → Code Unit
  | setDisplayName displayName => user.assign (.displayName displayName)
  | setPhotoURL photoURL => user.assign (.photoURL photoURL)
  | setTenantID tenantID => user.assign (.tenantID tenantID)
  | useRequestConfiguration configuration => user.useRequestConfiguration configuration
  | reload => user.reload
  | updateEmail email => user.updateEmail email
  | updatePassword password => user.updatePassword password
  | updatePhoneNumber credential => user.updatePhoneNumber credential
  | commitChanges displayName photoURL => user.commitChanges displayName photoURL
  | link credential => user.link credential
  | unlink provider => user.unlink provider
  | reauthenticate credential => user.reauthenticate credential
  | internalGetToken forceRefresh => do
      let _ ← user.internalGetToken forceRefresh
  | signOutIfSessionIsInvalid error => user.signOutIfSessionIsInvalid error

def AuthOperation.code : AuthOperation → Code Unit
  | signIn credential => Auth.signIn credential
  | signInAnonymously => Auth.signInAnonymously
  | signInWithCustomToken token => Auth.signInWithCustomToken token
  | createUser email password => Auth.createUser email password
  | signOut => Auth.signOut
  | updateCurrentUser user => Auth.updateCurrentUser user
  | useUserAccessGroup accessGroup => Auth.useUserAccessGroup accessGroup
  | getStoredUser accessGroup => do
      let _ ← Auth.getStoredUser accessGroup

def Operation.code : Operation → Code Unit
  | user object operation => operation.code object
  | auth operation => operation.code

structure Threads where
  state : AuthState
  threads : List (Code Unit) := []

inductive ThreadEvent where
  | start (operation : Operation)
  | run (thread : Nat) (input : Input)
  /-- What the keychain answers from now on. -/
  | keychain (failure : Option AuthErrorCode)

namespace Threads

/-- The next access of a thread. -/
def nextAccess (self : Threads) : ThreadEvent → Option Access
  | .run thread _ =>
      match self.threads[thread]? with
      | some (.access access _) => some access
      | _ => none
  | _ => none

def step (self : Threads) : ThreadEvent → Option Threads
  | .start operation => some { self with threads := self.threads ++ [operation.code] }
  | .run thread input =>
      self.threads[thread]?.bind fun program =>
        (Program.step AuthState.perform (program, self.state) input).map fun now =>
          { state := now.2, threads := self.threads.set thread now.1 }
  | .keychain failure => some { self with state := { self.state with keychainFailure := failure } }

/-- A step is the access of a thread, or leaves the state with its users alone. -/
theorem step_cases {self self' : Threads} {event : ThreadEvent} (h : self' ∈ self.step event) :
    (∃ thread input access, event = .run thread input ∧ self.nextAccess event = some access ∧
      ∃ answer, AuthState.perform access input self.state = some (answer, self'.state)) ∨
    (self.nextAccess event = none ∧ self'.state.users = self.state.users) := by
  cases event with
  | start operation =>
      cases h
      exact .inr ⟨rfl, rfl⟩
  | keychain failure =>
      cases h
      exact .inr ⟨rfl, rfl⟩
  | run thread input =>
      obtain ⟨program, hprogram, hmap⟩ := Option.bind_eq_some_iff.mp h
      obtain ⟨now, hnow, rfl⟩ := Option.map_eq_some_iff.mp hmap
      cases program with
      | ended outcome => cases hnow
      | access access next =>
          obtain ⟨performed, hperformed, rfl⟩ := Option.map_eq_some_iff.mp hnow
          refine .inl ⟨thread, input, access, rfl, ?_, performed.1, hperformed⟩
          simp only [nextAccess, hprogram]

end Threads

end FirebaseSwift.Auth
