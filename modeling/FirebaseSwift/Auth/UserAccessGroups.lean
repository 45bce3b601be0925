import FirebaseSwift.Auth.UsableTokens

/-! Switching the access group, with keychain calls that fail one by one. The group is persisted first, then the
stored user of the group becomes the current one, and at last the user under the key of the app is removed.
Where a call fails, what was done before stays. -/

namespace FirebaseSwift.Auth

namespace AuthState

/-- What the keychain answers to the read of the stored user, and to its removal, if they fail. A user that
cannot be decoded is a failed read too. -/
structure KeychainFailures where
  read : Option AuthErrorCode := none
  remove : Option AuthErrorCode := none

section Operations

variable (state : AuthState)

/-- Where the user of a group is stored, or the one of the app -/
def itemOf (accessGroup : Option String) : KeychainItem :=
  match accessGroup with
  | some accessGroup => .shared accessGroup state.shareAuthStateAcrossDevices
  | none => .app

/-- `_getStoredUser`. A shared item that cannot be read is no user. -/
def getStoredUserWith (now : Date) (accessGroup : Option String) (failures : KeychainFailures) :
    Except AuthErrorCode (Option UserRef) × AuthState :=
  match failures.read, accessGroup with
  | some _, some _ => (.ok none, state)
  | some error, none => (.error error, state)
  | none, _ =>
      let read := state.readUser now (state.itemOf accessGroup)
      (.ok read.1, read.2)

def removeAppUser (failures : KeychainFailures) : Except AuthErrorCode AuthState :=
  match failures.remove with
  | some error => .error error
  | none => .ok { state with keychain := Function.update state.keychain .app none }

/-- `_internalUseUserAccessGroup` -/
def useUserAccessGroup (now : Date) (accessGroup : Option String) (failures : KeychainFailures) :
    Except AuthErrorCode Unit × AuthState :=
  let state := { state with storedUserAccessGroup := accessGroup }
  match state.getStoredUserWith now accessGroup failures with
  | (.error error, state) => (.error error, state)
  | (.ok user, state) =>
      match state.updateCurrentUser user false false with
      | (.error error, state) => (.error error, state)
      | (.ok (), state) =>
          if state.userAccessGroup = none ∧ accessGroup ≠ none then
            match state.removeAppUser failures with
            | .ok state => (.ok (), { state with userAccessGroup := accessGroup })
            | .error error => (.error error, state)
          else (.ok (), { state with userAccessGroup := accessGroup })

end Operations

/-! ### Which call fails -/

section Conditions

variable (state : AuthState) (accessGroup : Option String) (failures : KeychainFailures)

/-- The stored user that is found -/
def found : Option StoredUser := if failures.read.isSome then none else state.keychain (state.itemOf accessGroup)

def ReadFails : Prop := accessGroup = none ∧ failures.read.isSome

/-- The stored user is of another tenant than the one that is set. -/
def TenantFails : Prop := ∃ stored ∈ state.found accessGroup failures, state.tenantID ≠ stored.tenantID

def RemovalFails : Prop := state.userAccessGroup = none ∧ accessGroup ≠ none ∧ failures.remove.isSome

/-- Nothing that can fail fails, or the group was persisted before and no other user became current. -/
def KeepsState : Prop :=
  (¬ReadFails accessGroup failures ∧ ¬state.TenantFails accessGroup failures ∧
      ¬state.RemovalFails accessGroup failures) ∨
    state.storedUserAccessGroup = accessGroup ∧ (ReadFails accessGroup failures ∨
      state.TenantFails accessGroup failures ∨
      state.currentUser = none ∧ state.found accessGroup failures = none)

end Conditions

variable {state : AuthState} {now : Date} {accessGroup : Option String} {failures : KeychainFailures}

/-- Where all calls fail or none this is the switch in a state with that failure. -/
theorem useUserAccessGroup_eq (state : AuthState) (now : Date) (accessGroup : Option String) :
    state.useUserAccessGroup now accessGroup ⟨state.keychainFailure, state.keychainFailure⟩ =
      state.internalUseUserAccessGroup now accessGroup := by
  have hread : ∀ grouped : AuthState, grouped.keychainFailure = state.keychainFailure →
      grouped.getStoredUserWith now accessGroup ⟨state.keychainFailure, state.keychainFailure⟩ =
        grouped.getStoredUser now accessGroup := by
    intro grouped hfailure
    cases accessGroup <;> simp only [getStoredUserWith, getStoredUser, hfailure] <;>
      cases state.keychainFailure <;> rfl
  have hfailure : ∀ (accessGroup : Option String) (grouped : AuthState), (grouped.getStoredUser now accessGroup).2.keychainFailure =
      grouped.keychainFailure := by
    intro accessGroup grouped
    obtain ⟨error, hcase⟩ | hcase | ⟨stored, -, hcase⟩ := @getStoredUser_cases grouped now accessGroup <;> rw [hcase]
    rfl
  rw [useUserAccessGroup, internalUseUserAccessGroup, hread { state with storedUserAccessGroup := accessGroup } rfl]
  have hkept := hfailure accessGroup { state with storedUserAccessGroup := accessGroup }
  generalize getStoredUser { state with storedUserAccessGroup := accessGroup } now accessGroup = read at hkept
  obtain ⟨user | user, read⟩ := read
  · rfl
  · dsimp only
    have hupdate := @updateCurrentUser_cases read user false false
    rcases hupdate with ⟨-, heq⟩ | ⟨-, saved, hsaved, heq⟩ | ⟨-, error, hsaved, -⟩
    · rw [heq]
    · cases hsaved
      rw [heq]
      have hsame : removeAppUser { read with currentUser := user } ⟨state.keychainFailure, state.keychainFailure⟩ =
          setItem { read with currentUser := user } .app none := by
        have hkept : state.keychainFailure = read.keychainFailure := hkept.symm
        exact congrArg (fun failure => removeAppUser { read with currentUser := user } ⟨failure, failure⟩) hkept
      dsimp only
      generalize removeAppUser { read with currentUser := user } ⟨state.keychainFailure, state.keychainFailure⟩ =
        removed at hsame
      subst hsame
      rfl
    · cases hsaved

/-- What the read of the stored user gives -/
theorem getStoredUserWith_cases (h : ¬ReadFails accessGroup failures) : (state.found accessGroup failures = none ∧
      state.getStoredUserWith now accessGroup failures = (.ok none, state)) ∨
    ∃ stored, state.found accessGroup failures = some stored ∧
      state.getStoredUserWith now accessGroup failures =
        (.ok (some (state.makeUser (UserData.decode now stored) .this).1),
          (state.makeUser (UserData.decode now stored) .this).2) := by
  cases hread : failures.read with
  | some error =>
      cases accessGroup with
      | some accessGroup => exact .inl ⟨by rw [found, hread]; rfl, by simp only [getStoredUserWith, hread]⟩
      | none => exact absurd ⟨rfl, by rw [hread]; rfl⟩ h
  | none =>
      have hfound : state.found accessGroup failures = state.keychain (state.itemOf accessGroup) := by
        rw [found, hread]
        rfl
      simp only [getStoredUserWith, hread, readUser]
      rw [hfound]
      cases hstored : state.keychain (state.itemOf accessGroup) with
      | none => exact .inl ⟨rfl, rfl⟩
      | some stored => exact .inr ⟨stored, rfl, rfl⟩

/-- The state after the group was persisted -/
def withGroup (state : AuthState) (accessGroup : Option String) : AuthState :=
  { state with storedUserAccessGroup := accessGroup }

/-- Changing to the user that was found, which is a new object -/
theorem updateCurrentUser_found {stored : StoredUser} :
    let made := (state.withGroup accessGroup).makeUser (UserData.decode now stored) .this
    made.2.updateCurrentUser (some made.1) false false =
      if state.tenantID ≠ stored.tenantID then (.error .tenantIDMismatch, made.2)
      else (.ok (), { made.2 with currentUser := some made.1 }) := by
  intro made
  have hmade : made.2.data made.1 = some (UserData.decode now stored) := data_makeUser _ _
  rw [updateCurrentUser, isTenantMismatch_of_data hmade]
  have hdecoded : (UserData.decode now stored).tenantID = stored.tenantID := rfl
  rw [hdecoded]
  have hmine : made.2.tenantID = state.tenantID := rfl
  by_cases htenant : state.tenantID ≠ stored.tenantID
  · rw [if_pos (decide_eq_true (hmine ▸ htenant)), if_pos htenant]
  · rw [if_neg (fun heq => htenant (hmine ▸ of_decide_eq_true heq)), if_neg htenant]
    rfl

/-- How a switch ends: at the read, at the check of the tenant, at the removal, or without an error -/
theorem useUserAccessGroup_cases (state : AuthState) (now : Date) (accessGroup : Option String)
    (failures : KeychainFailures) : (ReadFails accessGroup failures ∧ ∃ error,
      state.useUserAccessGroup now accessGroup failures = (.error error, state.withGroup accessGroup)) ∨
    ¬ReadFails accessGroup failures ∧
      ((state.TenantFails accessGroup failures ∧ ∃ users, state.useUserAccessGroup now accessGroup failures =
          (.error .tenantIDMismatch, { state.withGroup accessGroup with users := users })) ∨
        ¬state.TenantFails accessGroup failures ∧ ∃ users user,
          (user = none ∧ state.found accessGroup failures = none ∨
            user = some ⟨state.users.length⟩ ∧ state.found accessGroup failures ≠ none) ∧
          ((state.RemovalFails accessGroup failures ∧ ∃ error, state.useUserAccessGroup now accessGroup failures =
              (.error error, { state.withGroup accessGroup with users := users, currentUser := user })) ∨
            ¬state.RemovalFails accessGroup failures ∧
              (state.useUserAccessGroup now accessGroup failures).1 = .ok ())) := by
  have hremove : ∀ updated : AuthState, updated.userAccessGroup = state.userAccessGroup →
      (state.RemovalFails accessGroup failures ∧ ∃ error,
        (if updated.userAccessGroup = none ∧ accessGroup ≠ none then
          match updated.removeAppUser failures with
          | .ok state => (.ok (), { state with userAccessGroup := accessGroup })
          | .error error => (.error error, updated)
        else (.ok (), { updated with userAccessGroup := accessGroup }) :
          Except AuthErrorCode Unit × AuthState) = (.error error, updated)) ∨
      (¬state.RemovalFails accessGroup failures ∧
        (if updated.userAccessGroup = none ∧ accessGroup ≠ none then
          match updated.removeAppUser failures with
          | .ok state => (.ok (), { state with userAccessGroup := accessGroup })
          | .error error => (.error error, updated)
        else (.ok (), { updated with userAccessGroup := accessGroup }) :
          Except AuthErrorCode Unit × AuthState).1 = .ok ()) := by
    intro updated hgroup
    rw [hgroup]
    by_cases hgroups : state.userAccessGroup = none ∧ accessGroup ≠ none
    · rw [if_pos hgroups, removeAppUser]
      cases hfailure : failures.remove with
      | some error => exact .inl ⟨⟨hgroups.1, hgroups.2, by rw [hfailure]; rfl⟩, error, rfl⟩
      | none => exact .inr ⟨fun hfails => absurd hfails.2.2 (by rw [hfailure]; exact Bool.false_ne_true), rfl⟩
    · rw [if_neg hgroups]
      exact .inr ⟨fun hfails => hgroups ⟨hfails.1, hfails.2.1⟩, rfl⟩
  have hrun : state.useUserAccessGroup now accessGroup failures =
      match (state.withGroup accessGroup).getStoredUserWith now accessGroup failures with
      | (.error error, state) => (.error error, state)
      | (.ok user, state) =>
          match state.updateCurrentUser user false false with
          | (.error error, state) => (.error error, state)
          | (.ok (), state) =>
              if state.userAccessGroup = none ∧ accessGroup ≠ none then
                match state.removeAppUser failures with
                | .ok state => (.ok (), { state with userAccessGroup := accessGroup })
                | .error error => (.error error, state)
              else (.ok (), { state with userAccessGroup := accessGroup }) := rfl
  by_cases hread : ReadFails accessGroup failures
  · obtain ⟨hgroup, hfailure⟩ := hread
    obtain ⟨error, herror⟩ := Option.isSome_iff_exists.mp hfailure
    refine .inl ⟨⟨hgroup, hfailure⟩, error, ?_⟩
    rw [hrun, hgroup]
    simp only [getStoredUserWith, herror]
  · refine .inr ⟨hread, ?_⟩
    have hfoundGroup : (state.withGroup accessGroup).found accessGroup failures = state.found accessGroup failures := rfl
    rw [hrun]
    rcases @getStoredUserWith_cases (state.withGroup accessGroup) now accessGroup failures hread with
      ⟨hfound, hstored⟩ | ⟨stored, hfound, hstored⟩
    · rw [hfoundGroup] at hfound
      rw [hstored]
      refine .inr ⟨fun ⟨stored, hsome, _⟩ => ?_, state.users, none, .inl ⟨rfl, hfound⟩, ?_⟩
      · rw [hfound] at hsome
        cases hsome
      · exact hremove { state.withGroup accessGroup with currentUser := none } rfl
    · rw [hfoundGroup] at hfound
      rw [hstored]
      dsimp only
      rw [updateCurrentUser_found]
      by_cases htenant : state.tenantID ≠ stored.tenantID
      · rw [if_pos htenant]
        exact .inl ⟨⟨stored, hfound, htenant⟩, _, rfl⟩
      · rw [if_neg htenant]
        refine .inr ⟨fun ⟨stored', hsome, hfails⟩ => ?_,
          ((state.withGroup accessGroup).makeUser (UserData.decode now stored) .this).2.users, some ⟨state.users.length⟩,
          .inr ⟨rfl, by rw [hfound]; exact nofun⟩, ?_⟩
        · rw [hfound] at hsome
          cases hsome
          exact htenant hfails
        · exact hremove { ((state.withGroup accessGroup).makeUser (UserData.decode now stored) .this).2 with
            currentUser := some ⟨state.users.length⟩ } rfl

/-! ### What stays as it was -/

/-- What a switch that throws should not have changed -/
structure Unchanged (before after : AuthState) : Prop where
  storedUserAccessGroup : after.storedUserAccessGroup = before.storedUserAccessGroup
  userAccessGroup : after.userAccessGroup = before.userAccessGroup
  currentUser : after.currentUser = before.currentUser
  keychain : after.keychain = before.keychain

/-- A switch that throws leaves everything as it was exactly if no call fails, or the group was persisted before and
the current user did not change. -/
theorem unchanged_iff_keepsState (state : AuthState) (now : Date) (accessGroup : Option String)
    (failures : KeychainFailures) (hcurrent : ∀ user, state.currentUser = some user → (state.user user).isSome) :
    ((∃ error, (state.useUserAccessGroup now accessGroup failures).1 = .error error) →
        Unchanged state (state.useUserAccessGroup now accessGroup failures).2) ↔
      state.KeepsState accessGroup failures := by
  have hnew : state.currentUser ≠ some ⟨state.users.length⟩ := by
    intro heq
    have hexists := hcurrent _ heq
    rw [AuthState.user, List.getElem?_eq_none (Nat.le_refl _)] at hexists
    cases hexists
  rw [KeepsState]
  rcases useUserAccessGroup_cases state now accessGroup failures with
    ⟨hread, error, heq⟩ | ⟨hread, ⟨htenant, users, heq⟩ | ⟨htenant, users, user, huser, ⟨hremoval, error, heq⟩ | ⟨hremoval, heq⟩⟩⟩
  · rw [heq]
    constructor
    · intro hunchanged
      exact .inr ⟨(hunchanged ⟨error, rfl⟩).storedUserAccessGroup.symm, .inl hread⟩
    · rintro (hnone | ⟨hgroup, -⟩) -
      · exact absurd hread hnone.1
      · exact ⟨hgroup.symm, rfl, rfl, rfl⟩
  · rw [heq]
    constructor
    · intro hunchanged
      exact .inr ⟨(hunchanged ⟨_, rfl⟩).storedUserAccessGroup.symm, .inr (.inl htenant)⟩
    · rintro (hnone | ⟨hgroup, -⟩) -
      · exact absurd htenant hnone.2.1
      · exact ⟨hgroup.symm, rfl, rfl, rfl⟩
  · rw [heq]
    constructor
    · intro hunchanged
      have hafter := hunchanged ⟨error, rfl⟩
      have hsame : user = state.currentUser := hafter.currentUser
      rcases huser with ⟨hnone, hfound⟩ | ⟨hsome, -⟩
      · exact .inr ⟨hafter.storedUserAccessGroup.symm, .inr (.inr ⟨hsame.symm.trans hnone, hfound⟩)⟩
      · exact absurd (hsame.symm.trans hsome) hnew
    · rintro (hnone | ⟨hgroup, hfails | hfails | ⟨hnobody, hfound⟩⟩) -
      · exact absurd hremoval hnone.2.2
      · exact absurd hfails hread
      · exact absurd hfails htenant
      · rcases huser with ⟨hnone, -⟩ | ⟨-, hsome⟩
        · exact ⟨hgroup.symm, rfl, hnone.trans hnobody.symm, rfl⟩
        · exact absurd hfound hsome
  · refine iff_of_true ?_ (.inl ⟨hread, htenant, hremoval⟩)
    rintro ⟨error, herror⟩
    rw [heq] at herror
    cases herror

/-- An `Auth` without a current user, whose keychain is locked when the user under the key of the app is removed -/
def lockedAtRemoval : AuthState := { users := [], requestConfiguration := { apiKey := "key", appID := "app" } }

theorem unchanged_iff_keepsState_locked :
    ((∃ error, (lockedAtRemoval.useUserAccessGroup 0 (some "group") { remove := some .keychainError }).1 =
          .error error) →
        Unchanged lockedAtRemoval
          (lockedAtRemoval.useUserAccessGroup 0 (some "group") { remove := some .keychainError }).2) ↔
      lockedAtRemoval.KeepsState (some "group") { remove := some .keychainError } :=
  unchanged_iff_keepsState lockedAtRemoval 0 (some "group") { remove := some .keychainError } nofun

/-- A removal that fails leaves the group persisted that was not switched to. -/
theorem removal_fails : ¬∀ (state : AuthState) (now : Date) (accessGroup : Option String) (failures : KeychainFailures),
    (∃ error, (state.useUserAccessGroup now accessGroup failures).1 = .error error) →
      Unchanged state (state.useUserAccessGroup now accessGroup failures).2 := by
  intro hall
  have hunchanged := hall lockedAtRemoval 0 (some "group") { remove := some .keychainError } ⟨.keychainError, rfl⟩
  have hpersisted : (lockedAtRemoval.useUserAccessGroup 0 (some "group") { remove := some .keychainError }).2.storedUserAccessGroup =
      some "group" := rfl
  rw [hunchanged.storedUserAccessGroup] at hpersisted
  cases hpersisted

end AuthState

end FirebaseSwift.Auth
