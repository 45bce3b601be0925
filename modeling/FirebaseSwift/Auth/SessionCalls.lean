import FirebaseSwift.Auth.TokenSessions

/-! Calls that fetch a user's tokens or replace its token service, with what is to be recorded of the
sessions: those of the user's credentials so far, how many there were before the call began, and the
session whose refresh failed. The others may add sessions and refreshes, and never take one back. -/

namespace FirebaseSwift.Auth

open AccessPrograms

variable {S : Type}

def AuthState.task (state : AuthState) (user : UserRef) (id : Nat) : Option RefreshTask :=
  (state.user user).bind fun object => object.tokenRefresh.task id

/-- What a call works on: the state, the sessions of the user's credentials so far, oldest first, how many
of them the call has nothing to do with any more, and the session of a refresh that failed for the call. -/
structure SessionView (S : Type) where
  state : AuthState
  seen : List (Option S)
  wronglySignedOut : Bool := false
  since : Nat
  failed : Option (Option S) := none

namespace SessionView

section Track

variable [DecidableEq S] (issuedFor : String → S) (user : UserRef)

/-- The session of the user's credentials. -/
def current (view : SessionView S) : Option (Option S) :=
  (view.state.data user).map fun data => data.tokenService.session issuedFor

/-- The user is signed out for a refresh that failed, although its credentials are not those any more, or
it is not the current user. -/
def signsOutWrongly (view : SessionView S) (after : AuthState) : Bool :=
  view.failed.isSome && decide (after.currentUser ≠ view.state.currentUser) &&
    !(decide (view.state.currentUser = some user) && decide (view.failed = view.current issuedFor user))

def next (view : SessionView S) (after : AuthState) : (access : Access) → access.Answer → SessionView S
  | .setUserdata object _ (.tokenService tokenService), _ =>
      { view with
        state := after
        seen := if object = user then view.seen ++ [tokenService.session issuedFor] else view.seen }
  | .refreshValue object id, .error _ =>
      { view with
        state := after
        failed := (view.state.task object id).map fun task => task.tokenService.session issuedFor }
  | .userSignOutByForce _ _, _ =>
      { view with
        state := after
        wronglySignedOut := view.wronglySignedOut || view.signsOutWrongly issuedFor user after }
  | _, _ => { view with state := after }

/-- The backend answers a refresh with tokens of the session. -/
def isHonest : Access → Input → Bool
  | .post (.secureToken refreshToken) _, .tokens (.ok response) => decide (response.IsOf issuedFor refreshToken)
  | _, _ => true

def track (access : Access) (input : Input) (view : SessionView S) :
    Option (access.Answer × SessionView S) :=
  if isHonest issuedFor access input then
    (AuthState.perform access input view.state).map fun performed =>
      (performed.1, view.next issuedFor user performed.2 access performed.1)
  else none

/-- The call does not join the refresh of credentials that were replaced before it began, and the user is
not signed out for a refresh that failed unless the credentials are still those, and it is the current
user. -/
def spares (view : SessionView S) : Access → Prop
  | .beginRefresh object _ =>
      ∀ existing ∈ view.state.user object, ∀ id ∈ existing.tokenRefresh.pending,
        ∀ task ∈ existing.tokenRefresh.task id,
          task.tokenService.session issuedFor ∈ view.seen.drop view.since
  | .userSignOutByForce _ userID =>
      view.failed = none ∨
        (view.state.currentUser = some user ∧ view.failed = view.current issuedFor user) ∨
        (view.state.currentUser.bind view.state.data).map UserData.uid ≠ some userID
  | _ => True

instance (view : SessionView S) (access : Access) : Decidable (view.spares issuedFor user access) := by
  unfold spares
  split <;> infer_instance

def trackSpared (access : Access) (input : Input) (view : SessionView S) :
    Option (access.Answer × SessionView S) :=
  if view.spares issuedFor user access then view.track issuedFor user access input else none

end Track

variable (issuedFor : String → S) (user : UserRef)

/-- The user has the tokens of one session, the last one seen, its refreshes are in order, and it was not
wrongly signed out. -/
structure Kept (view : SessionView S) : Prop where
  signedOut : view.wronglySignedOut = false
  object : ∃ object, view.state.user user = some object ∧
    object.userData.tokenService.IsOfOneSession issuedFor ∧
    view.seen.getLast? = some (object.userData.tokenService.session issuedFor) ∧
    object.tokenRefresh.Formed issuedFor

/-- How calls change what the others work on. -/
structure Later (view later : SessionView S) : Prop where
  seen : view.seen <+: later.seen
  since : later.since = view.since
  kept : Kept issuedFor user view → Kept issuedFor user later ∧
    ∀ id task, view.state.task user id = some task →
      ∃ task', later.state.task user id = some task' ∧ task'.tokenService = task.tokenService

variable {issuedFor user} {view : SessionView S}

theorem Later.refl (view : SessionView S) : Later issuedFor user view view :=
  ⟨List.prefix_rfl, rfl, fun h => ⟨h, fun _ task htask => ⟨task, htask, rfl⟩⟩⟩

variable {later : SessionView S}

theorem Later.trans {view last : SessionView S} (h : Later issuedFor user view later)
    (h' : Later issuedFor user later last) : Later issuedFor user view last := by
  refine ⟨h.seen.trans h'.seen, h'.since.trans h.since, fun hkept => ?_⟩
  obtain ⟨hlater, htasks⟩ := h.kept hkept
  obtain ⟨hlast, htasks'⟩ := h'.kept hlater
  refine ⟨hlast, fun id task htask => ?_⟩
  obtain ⟨task', htask', hservice⟩ := htasks id task htask
  obtain ⟨task'', htask'', hservice'⟩ := htasks' id task' htask'
  exact ⟨task'', htask'', hservice'.trans hservice⟩

/-- What one call does is the same for the other calls. -/
theorem Later.ofOther (h : Later issuedFor user view later) (since : Nat) (failed failed' : Option (Option S)) :
    Later issuedFor user { view with since := since, failed := failed }
      { later with since := since, failed := failed' } := by
  refine ⟨h.seen, rfl, fun hkept => ?_⟩
  obtain ⟨hlater, htasks⟩ := h.kept ⟨hkept.signedOut, hkept.object⟩
  exact ⟨⟨hlater.signedOut, hlater.object⟩, htasks⟩

/-- The session was one of the user's at some time since the call began. -/
def SeenBy (view : SessionView S) (session : Option S) : Prop := session ∈ view.seen.drop view.since

theorem Later.seenBy (h : Later issuedFor user view later) {session : Option S}
    (hsession : view.SeenBy session) : later.SeenBy session := by
  obtain ⟨extra, hextra⟩ := h.seen
  rw [SeenBy, h.since, ← hextra]
  exact (List.drop_append ▸ List.mem_append_left _ hsession)

/-- The user object is as before. -/
theorem later_of_user (hseen : later.seen = view.seen) (hsince : later.since = view.since)
    (hsignedOut : view.wronglySignedOut = false → later.wronglySignedOut = false)
    (huser : ∀ object, view.state.user user = some object → later.state.user user = some object) :
    Later issuedFor user view later := by
  refine ⟨hseen ▸ List.prefix_rfl, hsince, fun hkept => ?_⟩
  obtain ⟨object, hobject, htokens, hlast, hformed⟩ := hkept.object
  refine ⟨⟨hsignedOut hkept.signedOut, object, huser object hobject, htokens, hseen ▸ hlast, hformed⟩, ?_⟩
  intro id task htask
  refine ⟨task, ?_, rfl⟩
  rw [AuthState.task, hobject] at htask
  rw [AuthState.task, huser object hobject]
  exact htask

/-- The user object changes, with its tokens of the session that is then the last one seen. -/
theorem later_of_modify {f : User → User} (hstate : later.state = view.state.modifyUser user f)
    (hseen : view.seen <+: later.seen) (hsince : later.since = view.since)
    (hsignedOut : later.wronglySignedOut = view.wronglySignedOut)
    (htokens : ∀ object, object.userData.tokenService.IsOfOneSession issuedFor →
      view.seen.getLast? = some (object.userData.tokenService.session issuedFor) →
      (f object).userData.tokenService.IsOfOneSession issuedFor ∧
        later.seen.getLast? = some ((f object).userData.tokenService.session issuedFor))
    (hrefresh : ∀ object, object.tokenRefresh.Formed issuedFor →
      (f object).tokenRefresh.Formed issuedFor ∧
        object.tokenRefresh.Extends (f object).tokenRefresh) : Later issuedFor user view later := by
  refine ⟨hseen, hsince, fun hkept => ?_⟩
  obtain ⟨object, hobject, hsession, hlast, hformed⟩ := hkept.object
  have huser : later.state.user user = some (f object) := by
    rw [hstate, AuthState.user_modifyUser, hobject]
    rfl
  obtain ⟨hsession', hlast'⟩ := htokens object hsession hlast
  obtain ⟨hformed', hextends⟩ := hrefresh object hformed
  refine ⟨⟨hsignedOut.trans hkept.signedOut, f object, huser, hsession', hlast', hformed'⟩, ?_⟩
  intro id task htask
  rw [AuthState.task, hobject] at htask
  rw [AuthState.task, huser]
  exact hextends id task htask

end SessionView

end FirebaseSwift.Auth
