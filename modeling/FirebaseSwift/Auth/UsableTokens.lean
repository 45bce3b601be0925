import FirebaseSwift.Auth.OwnCode
import FirebaseSwift.Auth.Operations

/-! Which users' tokens can be fetched. A token service that was read from storage has no request
configuration until its user gets one. What the code of an operation does, while others run, keeps the users
usable that are, and the current user, unless it makes a stored user current that has no configuration. -/

namespace FirebaseSwift.Auth

open AccessPrograms

namespace AuthState

def IsUsable (state : AuthState) (user : UserRef) : Prop :=
  ∃ data ∈ state.data user, data.tokenService.IsUsable

instance (state : AuthState) (user : UserRef) : Decidable (state.IsUsable user) :=
  inferInstanceAs (Decidable (∃ data ∈ state.data user, data.tokenService.IsUsable))

/-- Every stored user can have its token refreshed, once it has a configuration. -/
def HasRefreshTokens (keychain : KeychainItem → Option StoredUser) : Prop :=
  ∀ item stored, keychain item = some stored → stored.tokenService.refreshToken.isSome = true

/-- A token fetch of the current user does not trap, and would not after a start with a stored user. -/
structure IsSafe (state : AuthState) : Prop where
  current : ∀ user, state.currentUser = some user → state.IsUsable user
  stored : HasRefreshTokens state.keychain

/-- What the code of the operations keeps. -/
structure Advances (state state' : AuthState) : Prop where
  usable : ∀ user, state.IsUsable user → state'.IsUsable user
  safe : state.IsSafe → state'.IsSafe

/-- The stored user of an access group, or of the app, if the keychain can be read. -/
def storedUser (state : AuthState) (accessGroup : Option String) : Option StoredUser :=
  match state.keychainFailure with
  | some _ => none
  | none =>
      match accessGroup with
      | some accessGroup => state.keychain (.shared accessGroup state.shareAuthStateAcrossDevices)
      | none => state.keychain .app

/-- A switch to the access group makes its stored user the current one. -/
def adoptsStoredUser (state : AuthState) (accessGroup : Option String) : Bool :=
  (state.storedUser accessGroup).any fun stored => decide (stored.tenantID = state.tenantID)

namespace Advances

variable {state state' state'' : AuthState}

theorem refl (state : AuthState) : Advances state state := ⟨fun _ => id, id⟩

theorem trans (h : Advances state state') (h' : Advances state' state'') : Advances state state'' :=
  ⟨fun user husable => h'.usable user (h.usable user husable), fun hsafe => h'.safe (h.safe hsafe)⟩

end Advances

variable {state state' : AuthState} {user : UserRef}

theorem IsUsable.of_prefixed (h : state.IsUsable user) (husers : state.users <+: state'.users) :
    state'.IsUsable user := by
  obtain ⟨data, hdata, husable⟩ := h
  exact ⟨data, data_of_prefixed husers hdata, husable⟩

theorem advances_of_prefixed (husers : state.users <+: state'.users) (hsafe : state.IsSafe → state'.IsSafe) :
    Advances state state' := ⟨fun _ husable => husable.of_prefixed husers, hsafe⟩

theorem advances_modifyUser {f : User → User}
    (h : ∀ object, state.user user = some object → object.userData.tokenService.IsUsable →
      (f object).userData.tokenService.IsUsable) : Advances state (state.modifyUser user f) := by
  have husable : ∀ other, state.IsUsable other → (state.modifyUser user f).IsUsable other := by
    rintro other ⟨data, hdata, husable⟩
    obtain ⟨object, hobject, rfl⟩ := Option.map_eq_some_iff.mp hdata
    refine ⟨_, (data_modifyUser user other f).trans (congrArg (Option.map _) hobject), ?_⟩
    split_ifs with hother
    · subst hother
      exact h object hobject husable
    · exact husable
  exact ⟨husable, fun hsafe => ⟨fun other hcurrent => husable other (hsafe.current other hcurrent), hsafe.stored⟩⟩

theorem HasRefreshTokens.update {keychain : KeychainItem → Option StoredUser} (h : HasRefreshTokens keychain)
    {item : KeychainItem} {newStored : Option StoredUser}
    (hnew : ∀ stored, newStored = some stored → stored.tokenService.refreshToken.isSome = true) :
    HasRefreshTokens (Function.update keychain item newStored) := by
  intro other stored hstored
  by_cases hitem : other = item
  · subst hitem
    rw [Function.update_self] at hstored
    exact hnew stored hstored
  · rw [Function.update_of_ne hitem] at hstored
    exact h other stored hstored

variable {newUser : Option UserRef} (data : UserData) (now : Date) {accessGroup : Option String}

/-- A usable user is saved with its refresh token. -/
theorem IsSafe.saveUser (h : state.IsSafe) (husable : ∀ user, newUser = some user → state.IsUsable user)
    (hsave : state.saveUser (newUser.bind state.data) = .ok state') :
    state'.users = state.users ∧ state'.currentUser = state.currentUser ∧ HasRefreshTokens state'.keychain := by
  obtain rfl := setItem_eq (show state.setItem state.item _ = .ok state' from hsave)
  refine ⟨rfl, rfl, h.stored.update fun stored hstored => ?_⟩
  obtain ⟨saved, hsaved, rfl⟩ := Option.map_eq_some_iff.mp hstored
  obtain ⟨user, rfl, hdata⟩ := Option.bind_eq_some_iff.mp hsaved
  obtain ⟨data, hdata', huser⟩ := husable user rfl
  rw [hdata] at hdata'
  cases hdata'
  exact huser.2

/-- Nobody, or a usable user, becomes the current user. -/
theorem IsSafe.updateCurrentUser (h : state.IsSafe)
    (husable : ∀ user, newUser = some user → state.IsUsable user) (force saveToDisk : Bool) :
    (state.updateCurrentUser newUser force saveToDisk).2.IsSafe := by
  obtain ⟨-, hcase⟩ | ⟨-, saved, hsave, hcase⟩ | ⟨-, error, -, hcase⟩ :=
    @updateCurrentUser_cases state newUser force saveToDisk
  · rw [hcase]
    exact h
  · rw [hcase]
    cases saveToDisk with
    | false =>
        cases hsave
        exact ⟨husable, h.stored⟩
    | true =>
        obtain ⟨husers, -, hstored⟩ := h.saveUser husable hsave
        exact ⟨fun user hcurrent => (husable user hcurrent).of_prefixed (husers ▸ List.prefix_rfl), hstored⟩
  · rw [hcase]
    cases force with
    | false => exact h
    | true => exact ⟨husable, h.stored⟩

theorem advances_updateCurrentUser (husable : ∀ user, newUser = some user → state.IsUsable user)
    (force saveToDisk : Bool) : Advances state (state.updateCurrentUser newUser force saveToDisk).2 :=
  advances_of_prefixed (updateCurrentUser_users newUser force saveToDisk ▸ List.prefix_rfl)
    fun hsafe => hsafe.updateCurrentUser husable force saveToDisk

theorem advances_updateKeychain (user : UserRef) : Advances state (state.updateKeychain user).2 := by
  refine advances_of_prefixed (updateKeychain_users user ▸ List.prefix_rfl) fun hsafe => ?_
  unfold AuthState.updateKeychain
  split_ifs with hcurrent
  · split
    next saved hsave =>
      rw [hcurrent] at hsave
      obtain ⟨husers, hcurrentUser, hstored⟩ := hsafe.saveUser hsafe.current hsave
      refine ⟨fun user hcurrent => ?_, hstored⟩
      exact (hsafe.current user (hcurrentUser.symm.trans hcurrent)).of_prefixed (husers ▸ List.prefix_rfl)
    next error hsave => exact hsafe
  · exact hsafe

theorem advances_signOutByForce (userID : String) : Advances state (state.signOutByForce userID).2 := by
  unfold AuthState.signOutByForce
  split_ifs
  · exact advances_updateCurrentUser (fun user (hnone : none = some user) => nomatch hnone) true true
  · exact Advances.refl state

theorem advances_signOut : Advances state state.signOut.2 := by
  unfold AuthState.signOut
  split
  · exact advances_updateCurrentUser (fun user (hnone : none = some user) => nomatch hnone) false true
  · exact Advances.refl state

theorem advances_throughAuth {object : User} {f : AuthState → Except AuthErrorCode Unit × AuthState}
    (h : Advances state (f state).2) : Advances state (state.throughAuth object f).2 := by
  unfold throughAuth
  split_ifs
  · exact h
  · exact Advances.refl state

theorem advances_makeUser (auth : UserAuth) : Advances state (state.makeUser data auth).2 := by
  have husers : state.users <+: (state.makeUser data auth).2.users := List.prefix_append _ _
  refine advances_of_prefixed husers fun hsafe => ⟨fun user hcurrent => ?_, hsafe.stored⟩
  exact (hsafe.current user hcurrent).of_prefixed husers

theorem getStoredUser_cases (accessGroup : Option String) :
    (∃ error, state.getStoredUser now accessGroup = (.error error, state)) ∨
    state.getStoredUser now accessGroup = (.ok none, state) ∨ ∃ stored, state.storedUser accessGroup = some stored ∧
      state.getStoredUser now accessGroup =
        (.ok (some (state.makeUser (UserData.decode now stored) .this).1),
          (state.makeUser (UserData.decode now stored) .this).2) := by
  cases accessGroup with
  | some accessGroup =>
      simp only [getStoredUser, storedUser, readUser]
      cases state.keychainFailure with
      | some error => exact .inr (.inl rfl)
      | none =>
          cases state.keychain (.shared accessGroup state.shareAuthStateAcrossDevices) with
          | none => exact .inr (.inl rfl)
          | some stored => exact .inr (.inr ⟨stored, rfl, rfl⟩)
  | none =>
      simp only [getStoredUser, storedUser, readUser]
      cases state.keychainFailure with
      | some error => exact .inl ⟨error, rfl⟩
      | none =>
          cases state.keychain .app with
          | none => exact .inr (.inl rfl)
          | some stored => exact .inr (.inr ⟨stored, rfl, rfl⟩)

theorem advances_getStoredUser (accessGroup : Option String) :
    Advances state (state.getStoredUser now accessGroup).2 := by
  obtain ⟨error, hcase⟩ | hcase | ⟨stored, -, hcase⟩ := @getStoredUser_cases state now accessGroup
  · rw [hcase]
    exact Advances.refl state
  · rw [hcase]
    exact Advances.refl state
  · rw [hcase]
    exact advances_makeUser _ _

theorem data_makeUser (auth : UserAuth) :
    (state.makeUser data auth).2.data (state.makeUser data auth).1 = some data :=
  congrArg (Option.map User.userData) List.getElem?_concat_length

theorem isTenantMismatch_of_data {data : UserData} (hdata : state.data user = some data) :
    state.isTenantMismatch (some user) = decide (state.tenantID ≠ data.tenantID) := by
  rw [isTenantMismatch, Option.bind_some, hdata, Option.any_some]
  cases hsome : data.tenantID with
  | some tenantID => rfl
  | none =>
      cases state.tenantID with
      | some tenantID => rfl
      | none => rfl

/-- A switch that does not make a stored user current. -/
theorem advances_internalUseUserAccessGroup (hadopts : state.adoptsStoredUser accessGroup = false) :
    Advances state (state.internalUseUserAccessGroup now accessGroup).2 := by
  unfold internalUseUserAccessGroup
  extract_lets grouped
  have hgrouped : Advances state grouped := ⟨fun _ => id, fun hsafe => ⟨hsafe.current, hsafe.stored⟩⟩
  obtain ⟨error, hcase⟩ | hcase | ⟨stored, hstored, hcase⟩ := @getStoredUser_cases grouped now accessGroup
  · rw [hcase]
    exact hgrouped
  · rw [hcase]
    have hupdate : grouped.updateCurrentUser none false false = (.ok (), { grouped with currentUser := none }) := rfl
    have hnone : Advances state { grouped with currentUser := none } :=
      ⟨fun _ => id, fun hsafe => ⟨fun user (hnone : none = some user) => (nomatch hnone), hsafe.stored⟩⟩
    dsimp only
    rw [hupdate]
    dsimp only
    split_ifs
    · split
      next removed hremoved =>
        obtain rfl := setItem_eq hremoved
        exact ⟨fun _ => id, fun hsafe =>
          ⟨fun user (hnone : none = some user) => (nomatch hnone),
            hsafe.stored.update fun stored (hstored : none = some stored) => nomatch hstored⟩⟩
      next error hremoved => exact hnone
    · exact ⟨hnone.usable, fun hsafe => ⟨(hnone.safe hsafe).current, hsafe.stored⟩⟩
  · have hmade := @data_makeUser grouped (UserData.decode now stored) .this
    have hdiffer : ¬stored.tenantID = state.tenantID := by
      rw [adoptsStoredUser, show state.storedUser accessGroup = some stored from hstored] at hadopts
      exact of_decide_eq_false hadopts
    have hmismatch : (grouped.makeUser (UserData.decode now stored) .this).2.isTenantMismatch
        (some (grouped.makeUser (UserData.decode now stored) .this).1) = true :=
      (isTenantMismatch_of_data hmade).trans (decide_eq_true fun hsame => hdiffer hsame.symm)
    rw [hcase]
    dsimp only
    rw [AuthState.updateCurrentUser, if_pos hmismatch]
    exact hgrouped.trans (advances_makeUser _ _)

theorem keychain_of_storedUser {stored : StoredUser} (h : state.storedUser accessGroup = some stored) :
    ∃ item, state.keychain item = some stored := by
  unfold storedUser at h
  split at h
  · cases h
  · split at h <;> exact ⟨_, h⟩

/-- The stored user gets the configuration of this process. -/
theorem IsSafe.getUser (h : state.IsSafe) (now : Date) : Advances state (state.getUser now).2 ∧
      ∀ user, (state.getUser now).1 = .ok (some user) → (state.getUser now).2.IsUsable user := by
  unfold AuthState.getUser
  obtain ⟨error, hcase⟩ | hcase | ⟨stored, hstored, hcase⟩ :=
    @getStoredUser_cases state now state.userAccessGroup
  · rw [hcase]
    exact ⟨Advances.refl state, fun user hnone => nomatch hnone⟩
  · rw [hcase]
    exact ⟨Advances.refl state, fun user hnone => nomatch hnone⟩
  · rw [hcase]
    obtain ⟨item, hitem⟩ := keychain_of_storedUser hstored
    have hmade := @data_makeUser state (UserData.decode now stored) .this
    have hadvances := @advances_makeUser state (UserData.decode now stored) .this
    generalize state.makeUser (UserData.decode now stored) .this = made at hmade hadvances ⊢
    dsimp only
    have hconfigured : Advances made.2
        (made.2.updateUser made.1 (.useRequestConfiguration made.2.requestConfiguration)) :=
      advances_modifyUser fun _ _ husable => ⟨rfl, husable.2⟩
    refine ⟨hadvances.trans hconfigured, fun user huser => ?_⟩
    cases huser
    have hdata := @data_updateUser made.2 made.1 made.1 (.useRequestConfiguration made.2.requestConfiguration)
    rw [hmade, Option.map_some, if_pos rfl] at hdata
    exact ⟨_, hdata, rfl, h.stored item stored hitem⟩

/-- The user that is loaded has the configuration of this process. -/
theorem IsSafe.loadStoredUser (h : state.IsSafe) (now : Date)
    (hadopts : ∀ accessGroup, state.storedUserAccessGroup = some accessGroup →
      state.adoptsStoredUser (some accessGroup) = false) : Advances state (state.loadStoredUser now) := by
  unfold AuthState.loadStoredUser
  extract_lets loaded
  have hloaded : Advances state loaded.2 := by
    dsimp only [loaded]
    cases hgroup : state.storedUserAccessGroup with
    | some accessGroup => exact advances_internalUseUserAccessGroup now (hadopts accessGroup hgroup)
    | none =>
        dsimp only
        have hgetUser := h.getUser now
        generalize state.getUser now = got at hgetUser ⊢
        obtain ⟨answer, got⟩ := got
        cases answer with
        | error error => exact hgetUser.1
        | ok user =>
            have husable : ∀ other, user = some other → got.IsUsable other :=
              fun other hother => hgetUser.2 other (congrArg Except.ok hother)
            dsimp only
            split
            next data hdata =>
              have htenant : Advances got { got with tenantID := data.tenantID } :=
                ⟨fun _ => id, fun hsafe => ⟨hsafe.current, hsafe.stored⟩⟩
              refine (hgetUser.1.trans htenant).trans (advances_updateCurrentUser ?_ false false)
              exact fun other hother => htenant.usable other (husable other hother)
            next hdata => exact hgetUser.1.trans (advances_updateCurrentUser husable false false)
  generalize loaded = result at hloaded ⊢
  obtain ⟨answer, after⟩ := result
  split
  next failed hfailed =>
    cases hfailed
    exact hloaded.trans ⟨fun _ => id, fun hsafe => ⟨hsafe.current, hsafe.stored⟩⟩
  next result after hother hafter =>
    cases hafter
    exact hloaded

/-- The stored user of an access group becomes the current user when the process starts. -/
def adoptsAtStart (state : AuthState) : Bool :=
  state.storedUserAccessGroup.any fun accessGroup =>
    { state with tenantID := none, shareAuthStateAcrossDevices := false }.adoptsStoredUser (some accessGroup)

theorem IsSafe.startUp (h : state.IsSafe) (now : Date) (hadopts : state.adoptsAtStart = false) :
    (state.startUp now).IsSafe := by
  have hload : ∀ fresh : AuthState, fresh.IsSafe →
      (∀ accessGroup, fresh.storedUserAccessGroup = some accessGroup →
        fresh.adoptsStoredUser (some accessGroup) = false) → (fresh.loadStoredUser now).IsSafe :=
    fun fresh hfresh hgroup => (hfresh.loadStoredUser now hgroup).safe hfresh
  apply hload
  · exact ⟨fun user (hnone : none = some user) => (nomatch hnone), h.stored⟩
  · intro accessGroup (hgroup : state.storedUserAccessGroup = some accessGroup)
    rw [adoptsAtStart, hgroup] at hadopts
    exact hadopts

/-- The same when the keychain can be read at last, if nobody has signed in meanwhile. -/
def adoptsWhenAvailable (state : AuthState) : Bool :=
  state.awaitsProtectedData && state.currentUser.isNone &&
    state.storedUserAccessGroup.any fun accessGroup => state.adoptsStoredUser (some accessGroup)

theorem IsSafe.protectedDataDidBecomeAvailable (h : state.IsSafe) (now : Date)
    (hadopts : state.adoptsWhenAvailable = false) : Advances state (state.protectedDataDidBecomeAvailable now) := by
  unfold AuthState.protectedDataDidBecomeAvailable
  split
  next hawaits =>
    extract_lets awaited
    have hawaited : Advances state awaited := ⟨fun _ => id, fun hsafe => ⟨hsafe.current, hsafe.stored⟩⟩
    split
    next hcurrent =>
      refine hawaited.trans ((hawaited.safe h).loadStoredUser now ?_)
      intro accessGroup (hgroup : state.storedUserAccessGroup = some accessGroup)
      have hnone : state.currentUser = none := hcurrent
      rw [adoptsWhenAvailable, hawaits, hnone, hgroup] at hadopts
      exact hadopts
    next hcurrent => exact hawaited
  next hawaits => exact Advances.refl state

/-- What an access must come with to keep the users usable. -/
def Allows (state : AuthState) : Access → Prop
  | .setUserdata user copy update => state.IsUsable user → (update.apply copy).tokenService.IsUsable
  | .withUserData _ update => update.KeepsUsable SecureTokenService.IsUsable
  | .updateCurrentUser user _ _ => ∀ object, user = some object → state.IsUsable object
  | .useUserAccessGroup accessGroup => state.adoptsStoredUser accessGroup = false
  | _ => True

theorem advances_modifyRefresh (user : UserRef) (f : TokenRefresh → TokenRefresh) :
    Advances state (state.modifyRefresh user f) := advances_modifyUser fun _ _ husable => husable

theorem perform_advances {access : Access} {input : Input} {answer : access.Answer}
    (h : perform access input state = some (answer, state')) (hallows : state.Allows access) :
    Advances state state' := by
  cases access with
  | setUserdata user copy update =>
      obtain ⟨object, hobject, hresult⟩ := Option.map_eq_some_iff.mp h
      cases hresult
      refine advances_modifyUser fun existing hexisting husable => hallows ?_
      exact ⟨existing.userData, congrArg (Option.map User.userData) hexisting, husable⟩
  | withUserData user update =>
      obtain ⟨object, -, hresult⟩ := Option.map_eq_some_iff.mp h
      cases hresult
      exact advances_modifyUser fun existing _ husable => hallows existing.userData husable
  | beginRefresh user tokenService =>
      obtain ⟨object, -, hresult⟩ := Option.map_eq_some_iff.mp h
      cases hresult
      exact advances_modifyRefresh user _
  | finishRefresh user id result =>
      obtain ⟨object, -, hresult⟩ := Option.map_eq_some_iff.mp h
      cases hresult
      exact advances_modifyRefresh user _
  | endRefresh user id =>
      obtain ⟨object, -, hresult⟩ := Option.map_eq_some_iff.mp h
      cases hresult
      exact advances_modifyRefresh user _
  | refreshValue user id =>
      obtain ⟨object, -, hvalue⟩ := Option.bind_eq_some_iff.mp h
      obtain ⟨result, -, hresult⟩ := Option.map_eq_some_iff.mp hvalue
      cases hresult
      exact Advances.refl state
  | userRequestConfiguration user =>
      obtain ⟨object, -, hresult⟩ := Option.map_eq_some_iff.mp h
      split at hresult <;> cases hresult <;> exact Advances.refl state
  | updateKeychain user =>
      obtain ⟨object, -, hresult⟩ := Option.map_eq_some_iff.mp h
      have hadvances := @advances_throughAuth state object (fun state => state.updateKeychain user)
        (advances_updateKeychain user)
      rw [show state.throughAuth object _ = (answer, state') from hresult] at hadvances
      exact hadvances
  | userSignOutByForce user userID =>
      obtain ⟨object, -, hresult⟩ := Option.map_eq_some_iff.mp h
      have hadvances := @advances_throughAuth state object (fun state => state.signOutByForce userID)
        (advances_signOutByForce userID)
      rw [show state.throughAuth object _ = (answer, state') from hresult] at hadvances
      exact hadvances
  | makeUser data =>
      cases h
      exact advances_makeUser data .this
  | updateCurrentUser user force saveToDisk =>
      have hadvances := @advances_updateCurrentUser state user hallows force saveToDisk
      rw [show state.updateCurrentUser user force saveToDisk = (answer, state') from Option.some.inj h] at hadvances
      exact hadvances
  | signOut =>
      have hadvances := @advances_signOut state
      rw [show state.signOut = (answer, state') from Option.some.inj h] at hadvances
      exact hadvances
  | useUserAccessGroup accessGroup =>
      cases input with
      | now date =>
          have hadvances := advances_internalUseUserAccessGroup date hallows
          rw [show state.internalUseUserAccessGroup date accessGroup = (answer, state') from Option.some.inj h]
            at hadvances
          exact hadvances
      | _ => cases h
  | getStoredUser accessGroup =>
      cases input with
      | now date =>
          have hadvances := @advances_getStoredUser state date accessGroup
          rw [show state.getStoredUser date accessGroup = (answer, state') from Option.some.inj h] at hadvances
          exact hadvances
      | _ => cases h
  | post request configuration =>
      obtain ⟨response, -, hresult⟩ := Option.map_eq_some_iff.mp h
      cases hresult
      exact Advances.refl state
  | date =>
      cases input with
      | now date =>
          cases h
          exact Advances.refl state
      | _ => cases h
  | userdata user =>
      obtain ⟨data, -, hresult⟩ := Option.map_eq_some_iff.mp h
      cases hresult
      exact Advances.refl state
  | isCurrentUser user =>
      obtain ⟨object, -, hresult⟩ := Option.map_eq_some_iff.mp h
      cases hresult
      exact Advances.refl state
  | currentUser | getUserID | tenantID | requestConfiguration =>
      cases h
      exact Advances.refl state

end AuthState

end FirebaseSwift.Auth
