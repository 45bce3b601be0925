import FirebaseSwift.Auth.UsableTokens

/-! Code that never asks for a token in vain. While others keep the users usable that are, the code of a
usable user reads usable token services only, and so does the code of a sign-in, whose user is made with a
configuration. Neither reaches the trap of a token request. -/

namespace FirebaseSwift.Auth

open AccessPrograms AuthState

variable {β γ : Type} {state : AuthState} {user : UserRef}

/-- A switch of the access group that makes a stored user current. -/
def AuthState.adopts (state : AuthState) : Access → Bool
  | .useUserAccessGroup accessGroup => state.adoptsStoredUser accessGroup
  | _ => false

def performUnlessAdopting (access : Access) (input : Input) (state : AuthState) :
    Option (access.Answer × AuthState) :=
  if state.adopts access = true then none else perform access input state

/-- The code may return or throw, or trap for another reason. -/
def neverTraps (post : β → AuthState → Prop) : Outcome AuthErrorCode β → AuthState → Prop
  | .returned result => post result
  | .threw _ => fun _ => True
  | .trapped message => fun _ => message ≠ SecureTokenService.missingTokens

abbrev Fetches (post : β → AuthState → Prop) (code : Code β) (state : AuthState) : Prop :=
  Ensures performUnlessAdopting Advances Advances (neverTraps post) code state

namespace Fetches

variable {code : Code β}

theorem reaches {post : β → AuthState → Prop} (h : Fetches post code state) :
    Ensures performUnlessAdopting Advances Advances
      (fun outcome later => neverTraps post outcome later ∧ Advances state later) code state :=
  Ensures.reaches Advances.refl Advances.trans id id h

theorem andThen {f : β → Code γ} {middle : β → AuthState → Prop} {post : γ → AuthState → Prop}
    (h : Fetches middle code state)
    (hnext : ∀ result later, Advances state later → middle result later → Fetches post (f result) later) :
    Fetches post (code >>= f) state := by
  refine Ensures.bind Advances.refl (h.reaches.mono ?_)
  rintro (result | error | message) later ⟨hmiddle, hlater⟩
  · exact hnext result later hlater hmiddle
  · trivial
  · exact hmiddle

/-- The user stays usable for the second part. -/
theorem keeping {f : β → Code γ} {post : γ → AuthState → Prop} (h : Fetches (fun _ _ => True) code state)
    (husable : state.IsUsable user) (hnext : ∀ result later, later.IsUsable user → Fetches post (f result) later) :
    Fetches post (code >>= f) state :=
  h.andThen fun result later hlater _ => hnext result later (hlater.usable user husable)

theorem handle {handler : AuthErrorCode → Code β} {post : β → AuthState → Prop} (h : Fetches post code state)
    (hhandler : ∀ error later, Advances state later → Fetches post (handler error) later) :
    Fetches post (tryCatch code handler) state := by
  refine Ensures.handle Advances.refl (h.reaches.mono ?_)
  rintro (result | error | message) later ⟨houtcome, hlater⟩
  · exact houtcome
  · exact hhandler error later hlater
  · exact houtcome

theorem pure {result : β} {post : β → AuthState → Prop} (h : ∀ later, Advances state later → post result later) :
    Fetches post (Pure.pure result) state := h

theorem ite {condition : Prop} [Decidable condition] {code' : Code β} {post : β → AuthState → Prop}
    (h : Fetches post code state) (h' : Fetches post code' state) :
    Fetches post (if condition then code else code') state := by
  split
  · exact h
  · exact h'

theorem throw (error : AuthErrorCode) (post : β → AuthState → Prop) :
    Fetches post (MonadExcept.throw error) state := fun _ _ => trivial

theorem trap {message : String} (h : message ≠ SecureTokenService.missingTokens) (post : β → AuthState → Prop) :
    Fetches post (Program.trap message) state := fun _ _ => h

theorem request (access : Access) {post : access.Answer → AuthState → Prop}
    (h : ∀ later, Advances state later → later.adopts access = false → later.Allows access ∧
      ∀ input answer after, perform access input later = some (answer, after) →
        ∀ last, Advances after last → post answer last) : Fetches post (Program.request access) state := by
  apply Ensures.request
  rintro later hlater input ⟨answer, after⟩ hperformed
  obtain ⟨hadopts, hperform⟩ := Option.ite_none_left_eq_some.mp hperformed
  obtain ⟨hallows, hpost⟩ := h later hlater (eq_false_of_ne_true hadopts)
  exact ⟨perform_advances hperform hallows, hpost input answer after hperform⟩

/-- An access whose answer does not matter. -/
theorem access (access : Access)
    (hallows : ∀ later, Advances state later → later.adopts access = false → later.Allows access) :
    Fetches (fun _ _ => True) (Program.request access) state :=
  request access fun later hlater hadopts => ⟨hallows later hlater hadopts, fun _ _ _ _ _ _ => trivial⟩

theorem orThrow {result : Except AuthErrorCode β} : Fetches (fun _ _ => True) (Code.orThrow result) state := by
  cases result with
  | ok value => exact pure fun _ _ => trivial
  | error error => exact throw error _

theorem post (request : Request) (configuration : AuthRequestConfiguration) :
    Fetches (fun _ _ => True) (Code.post request configuration) state :=
  (access (.post request configuration) fun _ _ _ => trivial).andThen fun _ _ _ _ => orThrow

end Fetches

section TokenServices

variable {self : SecureTokenService}

theorem fetches_date : Fetches (fun _ _ => True) Code.date state := Fetches.access _ fun _ _ _ => trivial

theorem fetches_hasValidAccessTokenUnless (forceRefresh : Bool) :
    Fetches (fun _ _ => True) (self.hasValidAccessTokenUnless forceRefresh) state := by
  cases forceRefresh with
  | true => exact Fetches.pure fun _ _ => trivial
  | false =>
      show Fetches (fun _ _ => True) self.hasValidAccessToken state
      unfold SecureTokenService.hasValidAccessToken
      split
      · exact fetches_date.andThen fun _ _ _ _ => Fetches.pure fun _ _ => trivial
      · exact Fetches.pure fun _ _ => trivial

theorem fetches_isStale (retryIfExpired : Bool) (response : SecureTokenResponse) :
    Fetches (fun _ _ => True) (self.isStale retryIfExpired response) state := by
  unfold SecureTokenService.isStale
  split
  · split
    · exact fetches_date.andThen fun _ _ _ _ => Fetches.pure fun _ _ => trivial
    · exact Fetches.pure fun _ _ => trivial
  · exact Fetches.pure fun _ _ => trivial

/-- The trap is not reached, since there are a refresh token and a configuration. -/
theorem fetches_requestOnce (h : self.IsUsable) : Fetches (fun _ _ => True) self.requestOnce state := by
  obtain ⟨configuration, hconfiguration⟩ := Option.isSome_iff_exists.mp h.1
  obtain ⟨refreshToken, hrefreshToken⟩ := Option.isSome_iff_exists.mp h.2
  unfold SecureTokenService.requestOnce
  rw [hconfiguration, hrefreshToken]
  exact Fetches.post _ _

theorem accept_isUsable (h : self.IsUsable) (response : SecureTokenResponse) :
    (self.accept response).1.IsUsable := by
  unfold SecureTokenService.accept
  extract_lets hasNewAccessToken updated
  have hupdated : updated.IsUsable := by
    dsimp only [updated]
    split_ifs
    · exact h
    · exact h
  split
  · split_ifs
    · exact ⟨hupdated.1, rfl⟩
    · exact hupdated
  · exact hupdated

theorem fetches_fetchTokens (h : self.IsUsable) (forceRefresh : Bool) :
    Fetches (fun result _ => result.1.IsUsable) (self.fetchAccessToken forceRefresh) state := by
  apply (fetches_hasValidAccessTokenUnless forceRefresh).andThen
  intro valid _ _ _
  cases valid with
  | true => exact Fetches.pure fun _ _ => h
  | false =>
      apply (fetches_requestOnce h).andThen
      intro response _ _ _
      apply (fetches_isStale true response).andThen
      intro stale _ _ _
      cases stale with
      | true =>
          exact (fetches_requestOnce h).andThen fun response _ _ _ =>
            Fetches.pure fun _ _ => accept_isUsable h response
      | false => exact Fetches.pure fun _ _ => accept_isUsable h response

end TokenServices

section Users

theorem fetches_userdata (h : state.IsUsable user) :
    Fetches (fun data _ => data.tokenService.IsUsable) user.userdata state := by
  apply Fetches.request (.userdata user)
  intro later hlater _
  refine ⟨trivial, fun input answer after hperform _ _ => ?_⟩
  obtain ⟨data, hdata, hresult⟩ := Option.map_eq_some_iff.mp hperform
  cases hresult
  obtain ⟨data', hdata', husable⟩ := hlater.usable user h
  rw [hdata] at hdata'
  cases hdata'
  exact husable

theorem fetches_assign (h : state.IsUsable user) (update : UserUpdate)
    (hupdate : update.KeepsUsable SecureTokenService.IsUsable) :
    Fetches (fun _ _ => True) (user.assign update) state := by
  apply (fetches_userdata h).andThen
  intro copy later _ hcopy
  exact Fetches.access (.setUserdata user copy update) fun _ _ _ _ => hupdate copy hcopy

theorem fetches_refresh {tokenService : SecureTokenService} (h : tokenService.IsUsable) :
    Fetches (fun _ _ => True) (user.refresh tokenService) state := by
  apply (fetches_fetchTokens h true).andThen
  rintro ⟨refreshed, result⟩ later _ hrefreshed
  have hkeeps : (UserUpdate.refreshedTokens tokenService.refreshToken refreshed).KeepsUsable
      SecureTokenService.IsUsable := by
    intro data hdata
    show (data.tokenService.withRefreshed tokenService.refreshToken refreshed).IsUsable
    unfold SecureTokenService.withRefreshed
    split_ifs
    · exact ⟨hdata.1, hrefreshed.2⟩
    · exact hdata
  apply (Fetches.access (.withUserData user _) fun _ _ _ => hkeeps).andThen
  intro _ _ _ _
  exact Fetches.pure fun _ _ => trivial

theorem fetches_attempt {code : Code β} (h : Fetches (fun _ _ => True) code state) :
    Fetches (fun _ _ => True) (Code.attempt code) state := by
  apply Fetches.handle
  · exact h.andThen fun _ _ _ _ => Fetches.pure fun _ _ => trivial
  · exact fun _ _ _ => Fetches.pure fun _ _ => trivial

theorem fetches_fetchAccessToken (h : state.IsUsable user) (forceRefresh : Bool) :
    Fetches (fun _ _ => True) (user.fetchAccessToken forceRefresh) state := by
  apply (fetches_userdata h).andThen
  intro data _ _ hdata
  apply (fetches_hasValidAccessTokenUnless forceRefresh).andThen
  intro valid _ _ _
  cases valid with
  | true => exact Fetches.pure fun _ _ => trivial
  | false =>
      apply (Fetches.access (.beginRefresh user data.tokenService) fun _ _ _ => trivial).andThen
      rintro ⟨id, started⟩ _ _ _
      have hrun : ∀ {later : AuthState},
          Fetches (fun _ _ => True) (user.runRefresh data.tokenService id started) later := by
        intro later
        cases started with
        | false => exact Fetches.pure fun _ _ => trivial
        | true =>
            apply (fetches_attempt (fetches_refresh hdata)).andThen
            intro result _ _ _
            exact Fetches.access (.finishRefresh user id result) fun _ _ _ => trivial
      apply hrun.andThen
      intro _ _ _ _
      apply (Fetches.access (.refreshValue user id) fun _ _ _ => trivial).andThen
      intro result _ _ _
      apply (Fetches.access (.endRefresh user id) fun _ _ _ => trivial).andThen
      intro _ _ _ _
      exact Fetches.orThrow

theorem isOwn_allows {access : Access} (h : IsOwn user access) (state : AuthState) : state.Allows access := by
  cases access with
  | userRequestConfiguration | isCurrentUser | updateKeychain | date | post => trivial
  | _ => cases h

/-- The code of a usable user's operation. -/
theorem OwnCode.fetches {inHandler : Bool} {code : Code β}
    (hown : OwnCode SecureTokenService.IsUsable user inHandler code) (h : state.IsUsable user) :
    Fetches (fun _ _ => True) code state := by
  induction hown generalizing state with
  | pure result => exact Fetches.pure fun _ _ => trivial
  | throw error => exact Fetches.throw error _
  | trap hmessage => exact Fetches.trap hmessage _
  | bind hown hnext ih ihnext =>
      exact (ih h).andThen fun result later hlater _ => ihnext result (hlater.usable user h)
  | request hown => exact Fetches.access _ fun later _ _ => isOwn_allows hown later
  | assign hupdate => exact fetches_assign h _ hupdate
  | read hnext ih =>
      exact (fetches_userdata h).andThen fun data later hlater hdata => ih data hdata (hlater.usable user h)
  | fetchTokens husable forceRefresh hnext ih =>
      exact (fetches_fetchTokens husable forceRefresh).andThen fun result later hlater hresult =>
        ih result hresult (hlater.usable user h)
  | fetchAccessToken forceRefresh => exact fetches_fetchAccessToken h forceRefresh
  | signOutByForce userID => exact Fetches.access _ fun _ _ _ => trivial
  | handle hown hhandler hnever ih ihhandler =>
      exact (ih h).handle fun error later hlater => ihhandler error (hlater.usable user h)

end Users

end FirebaseSwift.Auth
