import FirebaseSwift.Auth.TokenSessions
import FirebaseSwift.Auth.OwnCode

/-! A token fetch that runs alone. It changes its own user object only, and unless it says that a token is
new, the user's data are as before. -/

namespace FirebaseSwift.Auth

open AccessPrograms

variable {β γ : Type} {state : AuthState}

/-- Only the object of one user has changed, and it still refers to its `Auth`. -/
structure OnlyUser (user : UserRef) (state state' : AuthState) : Prop where
  rest : state' = { state with users := state'.users }
  others : ∀ other, other ≠ user → state'.user other = state.user other
  auth : (state'.user user).map User.auth = (state.user user).map User.auth

namespace OnlyUser

variable {user : UserRef} {state' state'' : AuthState}

theorem refl (user : UserRef) (state : AuthState) : OnlyUser user state state :=
  ⟨rfl, fun _ _ => rfl, rfl⟩

theorem trans (h : OnlyUser user state state') (h' : OnlyUser user state' state'') :
    OnlyUser user state state'' where
  rest := by
    rw [h'.rest, h.rest]
  others other hother := (h'.others other hother).trans (h.others other hother)
  auth := h'.auth.trans h.auth

theorem modifyUser (user : UserRef) {f : User → User} (hauth : ∀ object, (f object).auth = object.auth) :
    OnlyUser user state (state.modifyUser user f) where
  rest := rfl
  others other hother := by
    have hindex : user.index ≠ other.index := fun h => hother (congrArg UserRef.mk h).symm
    exact List.getElem?_modify_ne f state.users hindex
  auth := by
    rw [AuthState.user_modifyUser, Option.map_map]
    apply congrArg (fun f => Option.map f (state.user user))
    funext object
    exact hauth object

end OnlyUser

/-- Code that changes nothing. -/
abbrev Unchanging (post : β → Prop) (code : Code β) (state : AuthState) : Prop :=
  Ensures AuthState.perform Eq Eq (onReturn fun result _ => post result) code state

namespace Unchanging

variable {code : Code β} {post : β → Prop}

theorem andThen {f : β → Code γ} {middle : β → Prop} {post : γ → Prop} (h : Unchanging middle code state)
    (hnext : ∀ result later, middle result → Unchanging post (f result) later) :
    Unchanging post (code >>= f) state :=
  Ensures.andThen (fun _ => rfl) h hnext

theorem pure {result : β} (h : post result) : Unchanging post (Pure.pure result) state := fun _ _ => h

theorem ite {condition : Prop} [Decidable condition] {code' : Code β} (h : Unchanging post code state)
    (h' : Unchanging post code' state) : Unchanging post (if condition then code else code') state := by
  split
  · exact h
  · exact h'

theorem request {access : Access} {post : access.Answer → Prop}
    (h : ∀ input answer after, AuthState.perform access input state = some (answer, after) →
      after = state ∧ post answer) : Unchanging post (Program.request access) state := by
  apply Ensures.request
  rintro later rfl input performed hperformed
  obtain ⟨hafter, hpost⟩ := h input performed.1 performed.2 hperformed
  exact ⟨hafter.symm, fun _ _ => hpost⟩

theorem orThrow (result : Except AuthErrorCode β) : Unchanging (fun _ => True) (Code.orThrow result) state := by
  cases result with
  | ok value => exact pure trivial
  | error error => exact fun _ _ => trivial

/-- Whatever the outcome, the state is as before. -/
theorem ends (h : Unchanging post code state) : Ensures AuthState.perform Eq (fun _ _ => True)
      (fun outcome later => onReturn (fun result _ => post result) outcome later ∧ state = later) code state :=
  (h.reaches (fun _ => rfl) (fun h h' => h.trans h') id id).imp fun _ _ _ _ _ _ => trivial

theorem returns (h : Unchanging post code state) :
    Returns AuthState.perform (fun result later => state = later ∧ post result) code state := by
  refine h.ends.mono ?_
  rintro (result | error | message) later ⟨hpost, hlater⟩
  · exact ⟨hlater, hpost⟩
  · trivial
  · trivial

end Unchanging

theorem unchanging_date : Unchanging (fun _ => True) Code.date state := by
  apply Unchanging.request
  intro input answer after hperform
  cases input with
  | now date =>
      cases hperform
      exact ⟨rfl, trivial⟩
  | _ => cases hperform

theorem unchanging_post (request : Request) (configuration : AuthRequestConfiguration) :
    Unchanging (fun _ => True) (Code.post request configuration) state := by
  have hrequest : Unchanging (fun _ => True) (Program.request (Access.post request configuration)) state := by
    apply Unchanging.request
    intro input answer after hperform
    obtain ⟨response, -, hresult⟩ := Option.map_eq_some_iff.mp hperform
    cases hresult
    exact ⟨rfl, trivial⟩
  exact hrequest.andThen fun answer _ _ => Unchanging.orThrow answer

section TokenServices

variable {self : SecureTokenService}
variable (forceRefresh : Bool)

theorem unchanging_hasValidAccessTokenUnless :
    Unchanging (fun _ => True) (self.hasValidAccessTokenUnless forceRefresh) state := by
  cases forceRefresh with
  | true => exact Unchanging.pure trivial
  | false =>
      show Unchanging (fun _ => True) self.hasValidAccessToken state
      unfold SecureTokenService.hasValidAccessToken
      split
      · exact unchanging_date.andThen fun _ _ _ => Unchanging.pure trivial
      · exact Unchanging.pure trivial

theorem unchanging_isStale (retryIfExpired : Bool) (response : SecureTokenResponse) :
    Unchanging (fun _ => True) (self.isStale retryIfExpired response) state := by
  unfold SecureTokenService.isStale
  split
  · split
    · exact unchanging_date.andThen fun _ _ _ => Unchanging.pure trivial
    · exact Unchanging.pure trivial
  · exact Unchanging.pure trivial

theorem unchanging_requestOnce : Unchanging (fun _ => True) self.requestOnce state := by
  unfold SecureTokenService.requestOnce
  cases self.refreshToken with
  | none => exact fun _ _ => trivial
  | some refreshToken =>
      cases self.requestConfiguration with
      | none => exact fun _ _ => trivial
      | some configuration => exact unchanging_post _ _

/-- The tokens are as before, unless the result says that one is new. -/
def IsSameUnlessNew (self : SecureTokenService) (result : SecureTokenService × String × Bool) : Prop :=
  result.2.2 = false → result.1 = self

theorem isSameUnlessNew_accept (response : SecureTokenResponse) : IsSameUnlessNew self (self.accept response) := by
  intro hnew
  unfold SecureTokenService.accept at hnew ⊢
  extract_lets hasNewAccessToken updated at hnew
  extract_lets
  have hupdated : hasNewAccessToken = false → updated = self := fun h => if_neg (ne_true_of_eq_false h)
  cases hrefreshToken : response.refreshToken with
  | none =>
      rw [hrefreshToken] at hnew
      exact hupdated hnew
  | some newRefreshToken =>
      rw [hrefreshToken] at hnew
      dsimp only at hnew ⊢
      split_ifs at hnew ⊢ with hchanged
      exact hupdated hnew

theorem unchanging_fetchTokens : Unchanging (IsSameUnlessNew self) (self.fetchAccessToken forceRefresh) state := by
  apply (unchanging_hasValidAccessTokenUnless forceRefresh).andThen
  intro valid _ _
  cases valid with
  | true => exact Unchanging.pure fun _ => rfl
  | false =>
      apply unchanging_requestOnce.andThen
      intro response _ _
      apply (unchanging_isStale true response).andThen
      intro stale _ _
      cases stale with
      | true =>
          exact unchanging_requestOnce.andThen fun response _ _ =>
            Unchanging.pure (isSameUnlessNew_accept response)
      | false => exact Unchanging.pure (isSameUnlessNew_accept response)

end TokenServices

section Users

variable {user : UserRef}

theorem unchanging_userdata : Unchanging (fun data => state.data user = some data) user.userdata state := by
  apply Unchanging.request
  intro input answer after hperform
  obtain ⟨data, hdata, hresult⟩ := Option.map_eq_some_iff.mp hperform
  cases hresult
  exact ⟨rfl, hdata⟩

/-- What holds of the result or the error of the code holds of the result of an attempt. -/
theorem returns_attempt {code : Code β} {post : Except AuthErrorCode β → AuthState → Prop}
    (h : Ensures AuthState.perform Eq (fun _ _ => True) (onEnd post) code state) :
    Returns AuthState.perform post (Code.attempt code) state := by
  apply Ensures.handle fun _ => rfl
  refine Ensures.bind (fun _ => rfl) (h.mono ?_)
  rintro (result | error | message) later hpost
  · rintro last rfl
    exact hpost
  · rintro last rfl
    exact hpost
  · trivial

/-- The effect of a fetch. -/
def FetchedFrom (user : UserRef) (state : AuthState) (tokenUpdated : Bool) (later : AuthState) : Prop :=
  OnlyUser user state later ∧ (tokenUpdated = false → later.data user = state.data user)

variable {later : AuthState} {data : UserData}

theorem FetchedFrom.modifyRefresh {tokenUpdated : Bool} (h : FetchedFrom user state tokenUpdated later)
    (f : TokenRefresh → TokenRefresh) : FetchedFrom user state tokenUpdated (later.modifyRefresh user f) :=
  ⟨h.1.trans (OnlyUser.modifyUser user fun _ => rfl),
    fun hsame => (AuthState.data_modifyRefresh later user user f).trans (h.2 hsame)⟩

/-- What the fetch gets from a task. -/
def IsFetchResult (user : UserRef) (state : AuthState) (result : Except AuthErrorCode (String × Bool))
    (later : AuthState) : Prop :=
  OnlyUser user state later ∧
    ∀ value, result = .ok value → value.2 = false → later.data user = state.data user

theorem returns_refresh (hdata : state.data user = some data) :
    Ensures AuthState.perform Eq (fun _ _ => True) (onEnd (IsFetchResult user state))
      (user.refresh data.tokenService) state := by
  apply Ensures.bind fun _ => rfl
  refine (unchanging_fetchTokens true).ends.mono ?_
  rintro (⟨refreshed, token, tokenUpdated⟩ | error | message) later ⟨hsame, rfl⟩
  · apply Ensures.bind fun _ => rfl
    refine fun later hlater input performed hperformed => ⟨trivial, fun last hlast => ?_⟩
    subst hlater hlast
    obtain ⟨object, hobject, hresult⟩ := Option.map_eq_some_iff.mp hperformed
    cases hresult
    rintro last rfl
    refine ⟨OnlyUser.modifyUser user fun _ => rfl, fun value hvalue hnew => ?_⟩
    cases hvalue
    have hrefreshed : refreshed = data.tokenService := hsame hnew
    rw [AuthState.data_updateUser, hdata, Option.map_some, if_pos rfl, hrefreshed]
    have hservice : data.tokenService.withRefreshed data.tokenService.refreshToken data.tokenService =
        data.tokenService := if_pos rfl
    exact congrArg (fun service => some { data with tokenService := service }) hservice
  · exact ⟨OnlyUser.refl user state, fun _ hvalue => nomatch hvalue⟩
  · trivial

theorem IsFetchResult.of_unchanged (h : FetchedFrom user state false later)
    (result : Except AuthErrorCode (String × Bool)) : IsFetchResult user state result later :=
  ⟨h.1, fun _ _ _ => h.2 rfl⟩

theorem value_finish {refresh : TokenRefresh} {id : Nat} {result value : Except AuthErrorCode (String × Bool)}
    (h : (refresh.finish id result).value id = some value) : value = result := by
  obtain ⟨task, htask, hvalue⟩ := Option.bind_eq_some_iff.mp h
  rw [TokenRefresh.task_finish] at htask
  obtain ⟨started, hstarted, rfl⟩ := Option.map_eq_some_iff.mp htask
  rw [if_pos (TokenRefresh.task_id hstarted)] at hvalue
  exact (Option.some.inj hvalue).symm

/-- What the fetch reads after its refresh, or another's, has ended. -/
theorem returns_runRefresh (hdata : state.data user = some data) (h : FetchedFrom user state false later)
    (id : Nat) (started : Bool) : Returns AuthState.perform
      (fun _ last => OnlyUser user state last ∧ ∀ object, last.user user = some object →
        ∀ result, object.tokenRefresh.value id = some result → IsFetchResult user state result last)
      (user.runRefresh data.tokenService id started) later := by
  cases started with
  | false => exact Returns.pure ⟨h.1, fun _ _ result _ => IsFetchResult.of_unchanged h result⟩
  | true =>
      have hlater : later.data user = some data := (h.2 rfl).trans hdata
      apply (returns_attempt (returns_refresh hlater)).andThen
      rintro result refreshed ⟨honly, hsame⟩
      apply Returns.request (a := Access.finishRefresh user id result)
      intro input answer after hperform
      obtain ⟨object, hobject, hresult⟩ := Option.map_eq_some_iff.mp hperform
      cases hresult
      have hfinished : IsFetchResult user state result
          (refreshed.modifyRefresh user fun refresh => refresh.finish id result) := by
        refine ⟨(h.1.trans honly).trans (OnlyUser.modifyUser user fun _ => rfl), fun value hvalue hnew => ?_⟩
        rw [AuthState.data_modifyRefresh, hsame value hvalue hnew]
        exact h.2 rfl
      refine ⟨hfinished.1, fun finished hobject' value hvalue => ?_⟩
      rw [AuthState.modifyRefresh, AuthState.user_modifyUser, hobject] at hobject'
      obtain rfl := Option.some.inj hobject'
      rw [value_finish hvalue]
      exact hfinished

theorem returns_fetchAccessToken (forceRefresh : Bool) :
    Returns AuthState.perform (fun result later => FetchedFrom user state result.2 later)
      (user.fetchAccessToken forceRefresh) state := by
  apply unchanging_userdata.returns.andThen
  rintro data _ ⟨rfl, hdata⟩
  apply (unchanging_hasValidAccessTokenUnless forceRefresh).returns.andThen
  rintro valid _ ⟨rfl, -⟩
  have hsame : FetchedFrom user state false state := ⟨OnlyUser.refl user _, fun _ => rfl⟩
  cases valid with
  | true => exact Returns.pure hsame
  | false =>
      have hbegin : Returns AuthState.perform (fun _ begun => FetchedFrom user state false begun)
          (user.beginRefresh data.tokenService) state := by
        apply Returns.request
        intro input answer after hperform
        obtain ⟨object, -, hresult⟩ := Option.map_eq_some_iff.mp hperform
        cases hresult
        exact hsame.modifyRefresh _
      apply hbegin.andThen
      rintro ⟨id, started⟩ begun hbegun
      apply (returns_runRefresh hdata hbegun id started).andThen
      rintro - finished ⟨-, hfinished⟩
      have hvalue : Returns AuthState.perform (fun result last => IsFetchResult user state result last)
          (user.refreshValue id) finished := by
        apply Returns.request
        intro input answer after hperform
        obtain ⟨object, hobject, hmap⟩ := Option.bind_eq_some_iff.mp hperform
        obtain ⟨result, hresult, hanswer⟩ := Option.map_eq_some_iff.mp hmap
        cases hanswer
        exact hfinished object hobject _ hresult
      apply hvalue.andThen
      rintro result last ⟨honly, hunchanged⟩
      have hend : Returns AuthState.perform (fun _ ended => IsFetchResult user state result ended)
          (user.endRefresh id) last := by
        apply Returns.request
        intro input answer after hperform
        obtain ⟨object, -, hresult⟩ := Option.map_eq_some_iff.mp hperform
        cases hresult
        refine ⟨honly.trans (OnlyUser.modifyUser user fun _ => rfl), fun value hvalue hnew => ?_⟩
        exact (AuthState.data_modifyRefresh last user user _).trans (hunchanged value hvalue hnew)
      apply hend.andThen
      rintro - ended ⟨honly, hunchanged⟩
      cases result with
      | ok value => exact Returns.pure ⟨honly, hunchanged value rfl⟩
      | error error => exact fun _ _ => trivial

end Users

end FirebaseSwift.Auth
