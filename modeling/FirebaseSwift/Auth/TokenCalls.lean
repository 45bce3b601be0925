import FirebaseSwift.Auth.SessionCalls

/-! What the code of the calls ensures while other calls run. A fetch of a token service's own copy stays in
its session. A fetch of the user's token returns a token of a session that was the user's at some time since
the call began, since the credentials are read after that, and a pending refresh is joined only if its
credentials were still the user's then. -/

namespace FirebaseSwift.Auth

open AccessPrograms

variable {S : Type} [DecidableEq S]

/-- The code keeps what the others rely on, and the postcondition holds of what it returns. -/
abbrev Keeps {β : Type} (issuedFor : String → S) (user : UserRef) (post : β → SessionView S → Prop)
    (code : Code β) (view : SessionView S) : Prop :=
  Ensures (SessionView.trackSpared issuedFor user) (SessionView.Later issuedFor user)
    (SessionView.Later issuedFor user) (onReturn post) code view

variable {issuedFor : String → S} {user : UserRef} {β γ : Type} {view : SessionView S}

open SessionView

namespace Keeps

variable {code : Code β} {post : β → SessionView S → Prop} {access : Access}

theorem reaches (h : Keeps issuedFor user post code view) :
    Ensures (SessionView.trackSpared issuedFor user) (Later issuedFor user) (Later issuedFor user)
      (fun outcome later => onReturn post outcome later ∧ Later issuedFor user view later) code view :=
  Ensures.reaches Later.refl Later.trans id id h

theorem andThen {f : β → Code γ} {middle : β → SessionView S → Prop} {post : γ → SessionView S → Prop}
    (h : Keeps issuedFor user middle code view)
    (hnext : ∀ result later, Later issuedFor user view later → middle result later →
      Keeps issuedFor user post (f result) later) : Keeps issuedFor user post (code >>= f) view := by
  refine Ensures.bind Later.refl (h.reaches.mono ?_)
  rintro (result | error | message) later ⟨hmiddle, hlater⟩
  · exact hnext result later hlater hmiddle
  · trivial
  · trivial

theorem mono {post' : β → SessionView S → Prop} (h : Keeps issuedFor user post code view)
    (hpost : ∀ result later, Later issuedFor user view later → post result later → post' result later) :
    Keeps issuedFor user post' code view := by
  refine h.reaches.mono ?_
  rintro (result | error | message) later ⟨houtcome, hlater⟩
  · exact hpost result later hlater houtcome
  · trivial
  · trivial

theorem handle {handler : AuthErrorCode → Code β} (h : Keeps issuedFor user post code view)
    (hhandler : ∀ error later, Later issuedFor user view later →
      Keeps issuedFor user post (handler error) later) : Keeps issuedFor user post (tryCatch code handler) view := by
  refine Ensures.handle Later.refl (h.reaches.mono ?_)
  rintro (result | error | message) later ⟨houtcome, hlater⟩
  · exact houtcome
  · exact hhandler error later hlater
  · trivial

theorem pure {result : β} (h : ∀ later, Later issuedFor user view later → post result later) :
    Keeps issuedFor user post (Pure.pure result) view := h

theorem throw (error : AuthErrorCode) (post : β → SessionView S → Prop) :
    Keeps issuedFor user post (MonadExcept.throw error) view := fun _ _ => trivial

theorem orThrow {result : Except AuthErrorCode β}
    (h : ∀ value later, Later issuedFor user view later → result = .ok value → post value later) :
    Keeps issuedFor user post (Code.orThrow result) view := by
  cases result with
  | ok value => exact fun later hlater => h value later hlater rfl
  | error error => exact throw error post

/-- An access of the call itself. -/
theorem request {post : access.Answer → SessionView S → Prop}
    (h : ∀ later, Later issuedFor user view later → later.spares issuedFor user access → ∀ input answer after,
      isHonest issuedFor access input = true →
      AuthState.perform access input later.state = some (answer, after) →
      Later issuedFor user later (later.next issuedFor user after access answer) ∧
        ∀ last, Later issuedFor user (later.next issuedFor user after access answer) last → post answer last) :
    Keeps issuedFor user post (Program.request access) view := by
  apply Ensures.request
  intro later hlater input performed hperformed
  unfold trackSpared at hperformed
  split_ifs at hperformed with hspares
  · unfold track at hperformed
    split_ifs at hperformed with hhonest
    · obtain ⟨⟨answer, after⟩, hperform, rfl⟩ := Option.map_eq_some_iff.mp hperformed
      exact h later hlater hspares input answer after hhonest hperform
    · cases hperformed
  · cases hperformed

/-- An access that changes nothing. -/
theorem request_of_unchanged {post : access.Answer → SessionView S → Prop}
    (hnext : ∀ (view : SessionView S) answer, view.next issuedFor user view.state access answer = view)
    (h : ∀ later, Later issuedFor user view later → ∀ input answer after, isHonest issuedFor access input = true →
      AuthState.perform access input later.state = some (answer, after) →
      after = later.state ∧ ∀ last, Later issuedFor user later last → post answer last) :
    Keeps issuedFor user post (Program.request access) view := by
  apply request
  intro later hlater _ input answer after hhonest hperform
  obtain ⟨rfl, hpost⟩ := h later hlater input answer after hhonest hperform
  rw [hnext later answer]
  exact ⟨Later.refl later, hpost⟩

end Keeps

section TokenServices

theorem keeps_date : Keeps issuedFor user (fun _ _ => True) Code.date view := by
  apply Keeps.request_of_unchanged
  · exact fun _ _ => rfl
  · intro later _ input answer after _ hperform
    cases input with
    | now date =>
        cases hperform
        exact ⟨rfl, fun _ _ => trivial⟩
    | _ => cases hperform

variable {self : SecureTokenService}

theorem keeps_hasValidAccessToken : Keeps issuedFor user (fun _ _ => True) self.hasValidAccessToken view := by
  unfold SecureTokenService.hasValidAccessToken
  split
  · exact keeps_date.andThen fun _ _ _ _ => Keeps.pure fun _ _ => trivial
  · exact Keeps.pure fun _ _ => trivial

theorem keeps_hasValidAccessTokenUnless (forceRefresh : Bool) :
    Keeps issuedFor user (fun _ _ => True) (self.hasValidAccessTokenUnless forceRefresh) view := by
  cases forceRefresh with
  | true => exact Keeps.pure fun _ _ => trivial
  | false => exact keeps_hasValidAccessToken

theorem keeps_isStale (retryIfExpired : Bool) (response : SecureTokenResponse) :
    Keeps issuedFor user (fun _ _ => True) (self.isStale retryIfExpired response) view := by
  unfold SecureTokenService.isStale
  split
  · split
    · exact keeps_date.andThen fun _ _ _ _ => Keeps.pure fun _ _ => trivial
    · exact Keeps.pure fun _ _ => trivial
  · exact Keeps.pure fun _ _ => trivial

theorem keeps_post (refreshToken : String) (configuration : AuthRequestConfiguration) :
    Keeps issuedFor user (fun response _ => SecureTokenResponse.IsOf issuedFor response refreshToken)
      (Code.post (.secureToken refreshToken) configuration) view := by
  have hrequest : Keeps issuedFor user
      (fun (answer : Except AuthErrorCode SecureTokenResponse) _ => ∀ response, answer = .ok response →
        response.IsOf issuedFor refreshToken)
      (Program.request (Access.post (.secureToken refreshToken) configuration)) view := by
    apply Keeps.request_of_unchanged
    · exact fun _ _ => rfl
    · intro later _ input answer after hhonest hperform
      obtain ⟨response, hresponse, hresult⟩ := Option.map_eq_some_iff.mp hperform
      cases hresult
      refine ⟨rfl, fun _ _ value hvalue => ?_⟩
      subst hvalue
      cases input with
      | tokens response =>
          cases hresponse
          exact of_decide_eq_true hhonest
      | _ => cases hresponse
  exact hrequest.andThen fun answer _ _ hanswer => Keeps.orThrow fun value _ _ hvalue => hanswer value hvalue

theorem keeps_requestOnce : Keeps issuedFor user
    (fun response _ => ∃ refreshToken, self.refreshToken = some refreshToken ∧
      response.IsOf issuedFor refreshToken) self.requestOnce view := by
  unfold SecureTokenService.requestOnce
  cases hrefreshToken : self.refreshToken with
  | none => exact fun _ _ => trivial
  | some refreshToken =>
      cases self.requestConfiguration with
      | none => exact fun _ _ => trivial
      | some configuration =>
          exact (keeps_post refreshToken configuration).mono fun _ _ _ h => ⟨refreshToken, rfl, h⟩

/-- What a fetch for a token service results in: a copy of its session, and a token of it. -/
def IsFetched (issuedFor : String → S) (self : SecureTokenService)
    (result : SecureTokenService × String × Bool) : Prop :=
  result.1.IsOfOneSession issuedFor ∧ result.1.session issuedFor = self.session issuedFor ∧
    IsTokenOf issuedFor result.2.1 (self.session issuedFor)

theorem keeps_requestAccessToken (hself : self.IsOfOneSession issuedFor) (retryIfExpired : Bool) :
    Keeps issuedFor user (fun result _ => IsFetched issuedFor self result)
      (self.requestAccessToken retryIfExpired) view := by
  have haccept : ∀ {later : SessionView S} (response : SecureTokenResponse),
      (∃ refreshToken, self.refreshToken = some refreshToken ∧ response.IsOf issuedFor refreshToken) →
      Keeps issuedFor user (fun result _ => IsFetched issuedFor self result)
        (Pure.pure (self.accept response)) later := by
    rintro later response ⟨refreshToken, hrefreshToken, hresponse⟩
    exact Keeps.pure fun _ _ => SecureTokenService.accept_session hself hrefreshToken hresponse
  apply keeps_requestOnce.andThen
  intro response _ _ hresponse
  apply (keeps_isStale retryIfExpired response).andThen
  intro stale _ _ _
  cases stale with
  | true => exact keeps_requestOnce.andThen fun response _ _ hresponse => haccept response hresponse
  | false => exact haccept response hresponse

theorem keeps_fetch (hself : self.IsOfOneSession issuedFor) (forceRefresh : Bool) :
    Keeps issuedFor user (fun result _ => IsFetched issuedFor self result)
      (self.fetchAccessToken forceRefresh) view := by
  apply (keeps_hasValidAccessTokenUnless forceRefresh).andThen
  intro valid _ _ _
  cases valid with
  | true => exact Keeps.pure fun _ _ => ⟨hself, rfl, hself⟩
  | false => exact keeps_requestAccessToken hself true

end TokenServices

section Seen

omit [DecidableEq S]

variable (issuedFor user) in
/-- What the call knows of the refresh it waits for: its credentials were the user's at some time since the
call began. -/
def IsSeenTask (id : Nat) (view : SessionView S) : Prop :=
  ∃ task, view.state.task user id = some task ∧ view.SeenBy (task.tokenService.session issuedFor)

/-- What a token that a call returns is. -/
def IsSeenToken (issuedFor : String → S) (token : String) (view : SessionView S) : Prop :=
  ∃ session, view.SeenBy session ∧ IsTokenOf issuedFor token session

theorem IsSeenTask.later {id : Nat} {later : SessionView S} (h : IsSeenTask issuedFor user id view)
    (hkept : Kept issuedFor user view) (hlater : Later issuedFor user view later) :
    IsSeenTask issuedFor user id later := by
  obtain ⟨task, htask, hsession⟩ := h
  obtain ⟨task', htask', hservice⟩ := (hlater.kept hkept).2 id task htask
  exact ⟨task', htask', hservice ▸ hlater.seenBy hsession⟩

theorem IsSeenToken.later {token : String} {later : SessionView S} (h : IsSeenToken issuedFor token view)
    (hlater : Later issuedFor user view later) : IsSeenToken issuedFor token later := by
  obtain ⟨session, hsession, htoken⟩ := h
  exact ⟨session, hlater.seenBy hsession, htoken⟩

end Seen

section UserCalls

theorem keeps_read : Keeps issuedFor user (fun _ _ => True) user.userdata view := by
  have hunchanged : ∀ (view : SessionView S) (answer : (Access.userdata user).Answer),
      view.next issuedFor user view.state (.userdata user) answer = view := fun _ _ => rfl
  apply Keeps.request_of_unchanged hunchanged
  intro later _ _ answer after _ hperform
  obtain ⟨_, _, hresult⟩ := Option.map_eq_some_iff.mp hperform
  cases hresult
  exact ⟨rfl, fun _ _ => trivial⟩

/-- The credentials that a call reads are of a session that is the user's then. -/
theorem keeps_userdata (hkept : Kept issuedFor user view) (hsince : view.since < view.seen.length) :
    Keeps issuedFor user
      (fun data later => data.tokenService.IsOfOneSession issuedFor ∧
        later.SeenBy (data.tokenService.session issuedFor)) user.userdata view := by
  have hunchanged : ∀ (view : SessionView S) (answer : (Access.userdata user).Answer),
      view.next issuedFor user view.state (.userdata user) answer = view := fun _ _ => rfl
  apply Keeps.request_of_unchanged hunchanged
  intro later hlater input answer after _ hperform
  obtain ⟨object, hobject, htokens, hseen, -⟩ := ((hlater.kept hkept).1).object
  obtain ⟨data, hdata, hresult⟩ := Option.map_eq_some_iff.mp hperform
  obtain rfl : object.userData = data := by
    rw [AuthState.data, hobject] at hdata
    exact Option.some.inj hdata
  cases hresult
  refine ⟨rfl, fun last hlast => ⟨htokens, hlast.seenBy ?_⟩⟩
  have hlength : later.since < later.seen.length := by
    rw [hlater.since]
    exact Nat.lt_of_lt_of_le hsince hlater.seen.length_le
  rw [SeenBy]
  have hdrop : (later.seen.drop later.since).getLast? = later.seen.getLast? := by
    rw [List.getLast?_drop, if_neg (Nat.not_le.mpr hlength)]
  exact List.mem_of_getLast? (hdrop.trans hseen)

variable {tokenService : SecureTokenService} {id : Nat}

/-- The refreshed tokens are stored only with the credentials that they came for. -/
theorem keeps_withRefreshed {refreshed : SecureTokenService} (hrefreshed : refreshed.IsOfOneSession issuedFor)
    (hsession : refreshed.session issuedFor = tokenService.session issuedFor) :
    Keeps issuedFor user (fun _ _ => True)
      (user.withUserData (.refreshedTokens tokenService.refreshToken refreshed)) view := by
  apply Keeps.request
  intro later _ _ _ answer after _ hperform
  obtain ⟨object, _, hresult⟩ := Option.map_eq_some_iff.mp hperform
  cases hresult
  refine ⟨later_of_modify rfl List.prefix_rfl rfl rfl ?_ ?_, fun _ _ => trivial⟩
  · intro object htokens hlast
    have hservice : (UserUpdate.apply object.userData
        (.refreshedTokens tokenService.refreshToken refreshed)).tokenService =
        object.userData.tokenService.withRefreshed tokenService.refreshToken refreshed := rfl
    rw [hservice]
    unfold SecureTokenService.withRefreshed
    split_ifs with hsame
    · have hobject : refreshed.session issuedFor = object.userData.tokenService.session issuedFor :=
        hsession.trans (congrArg (Option.map issuedFor) hsame).symm
      exact ⟨hrefreshed, hlast.trans (congrArg some hobject.symm)⟩
    · exact ⟨htokens, hlast⟩
  · exact fun object hformed => ⟨hformed, TokenRefresh.Extends.refl _⟩

theorem keeps_refresh (h : tokenService.IsOfOneSession issuedFor) :
    Keeps issuedFor user (fun result _ => IsTokenOf issuedFor result.1 (tokenService.session issuedFor))
      (user.refresh tokenService) view := by
  apply (keeps_fetch h true).andThen
  rintro ⟨refreshed, result⟩ _ _ ⟨hrefreshed, hsession, htoken⟩
  apply (keeps_withRefreshed hrefreshed hsession).andThen
  intro _ _ _ _
  exact Keeps.pure fun _ _ => htoken

theorem keeps_attempt {code : Code β} {post : β → SessionView S → Prop} (h : Keeps issuedFor user post code view)
    (hlater : ∀ result later last, post result later → Later issuedFor user later last → post result last) :
    Keeps issuedFor user (fun result later => ∀ value, result = .ok value → post value later)
      (Code.attempt code) view := by
  apply Keeps.handle
  · apply h.andThen
    intro result later _ hresult
    apply Keeps.pure
    rintro last hlast value hvalue
    cases hvalue
    exact hlater result later last hresult hlast
  · intro error later _
    apply Keeps.pure
    rintro last _ value hvalue
    cases hvalue

theorem keeps_beginRefresh (hkept : Kept issuedFor user view)
    (hseen : view.SeenBy (tokenService.session issuedFor)) : Keeps issuedFor user
      (fun result later => Kept issuedFor user later ∧ IsSeenTask issuedFor user result.1 later ∧
        (result.2 = true → ∀ task, later.state.task user result.1 = some task →
          task.tokenService = tokenService))
      (user.beginRefresh tokenService) view := by
  apply Keeps.request
  intro later hlater hspares input answer after _ hperform
  obtain ⟨object, hobject, hresult⟩ := Option.map_eq_some_iff.mp hperform
  have hanswer : (object.tokenRefresh.begin tokenService).1 = answer := congrArg Prod.fst hresult
  have hafter : later.state.modifyRefresh user (fun refresh => (refresh.begin tokenService).2) = after :=
    congrArg Prod.snd hresult
  subst hanswer hafter
  have hkeptLater := (hlater.kept hkept).1
  have hmove : Later issuedFor user later
      { later with state := later.state.modifyRefresh user fun refresh => (refresh.begin tokenService).2 } := by
    refine later_of_modify rfl List.prefix_rfl rfl rfl (fun _ htokens hlast => ⟨htokens, hlast⟩) ?_
    exact fun object hformed => ⟨hformed.begin tokenService, hformed.extends_begin tokenService⟩
  refine ⟨hmove, fun last hlast => ?_⟩
  obtain ⟨existing, hexisting, -, -, hformed⟩ := hkeptLater.object
  obtain rfl : existing = object := Option.some.inj (hexisting.symm.trans hobject)
  obtain ⟨task, htask, hstarted, hjoined⟩ := hformed.begin_task tokenService
  have hkeptMoved := (hmove.kept hkeptLater).1
  have htaskMoved : AuthState.task
      (later.state.modifyRefresh user fun refresh => (refresh.begin tokenService).2) user
      (existing.tokenRefresh.begin tokenService).1.1 = some task := by
    rw [AuthState.task, AuthState.modifyRefresh, AuthState.user_modifyUser, hobject]
    exact htask
  have hsession : later.SeenBy (task.tokenService.session issuedFor) := by
    cases hcase : (existing.tokenRefresh.begin tokenService).1.2 with
    | true =>
        rw [hstarted hcase]
        exact hlater.seenBy hseen
    | false =>
        obtain ⟨id, hid, hpendingTask⟩ := hjoined hcase
        exact hspares existing hobject id hid task hpendingTask
  have hseenTask : IsSeenTask issuedFor user (existing.tokenRefresh.begin tokenService).1.1
      { later with state := later.state.modifyRefresh user fun refresh => (refresh.begin tokenService).2 } :=
    ⟨task, htaskMoved, hsession⟩
  obtain ⟨hkeptLast, htasks⟩ := hlast.kept hkeptMoved
  refine ⟨hkeptLast, hseenTask.later hkeptMoved hlast, fun hcase task' htask' => ?_⟩
  obtain ⟨task'', htask'', hservice⟩ := htasks _ task htaskMoved
  obtain rfl := Option.some.inj (htask'.symm.trans htask'')
  exact hservice.trans (hstarted hcase)

theorem keeps_finishRefresh {result : Except AuthErrorCode (String × Bool)} {task : RefreshTask}
    (hkept : Kept issuedFor user view) (htask : view.state.task user id = some task)
    (hresult : ∀ token updated, result = .ok (token, updated) →
      IsTokenOf issuedFor token (task.tokenService.session issuedFor)) :
    Keeps issuedFor user (fun _ _ => True) (user.finishRefresh id result) view := by
  apply Keeps.request
  intro later hlater _ _ answer after _ hperform
  obtain ⟨object, hobject, hresultState⟩ := Option.map_eq_some_iff.mp hperform
  cases hresultState
  obtain ⟨task', htask', hservice⟩ := (hlater.kept hkept).2 id task htask
  refine ⟨?_, fun _ _ => trivial⟩
  refine ⟨List.prefix_rfl, rfl, fun hkeptLater => ?_⟩
  obtain ⟨existing, hexisting, htokens, hlast, hformed⟩ := hkeptLater.object
  have htaskExisting : existing.tokenRefresh.task id = some task' := by
    rw [AuthState.task, hexisting] at htask'
    exact htask'
  have huser : (later.state.modifyRefresh user fun refresh => refresh.finish id result).user user =
      some { existing with tokenRefresh := existing.tokenRefresh.finish id result } := by
    rw [AuthState.modifyRefresh, AuthState.user_modifyUser, hexisting]
    rfl
  refine ⟨⟨hkeptLater.signedOut, _, huser, htokens, hlast, hformed.finish ?_⟩, ?_⟩
  · intro found hfound token updated hok
    obtain rfl := Option.some.inj (htaskExisting.symm.trans hfound)
    rw [hservice]
    exact hresult token updated hok
  · intro other found hfound
    rw [AuthState.task, hexisting] at hfound
    obtain ⟨finished, hfinished, hsame⟩ := TokenRefresh.extends_finish id result other found hfound
    exact ⟨finished, Option.bind_eq_some_iff.mpr ⟨_, huser, hfinished⟩, hsame⟩

theorem keeps_refreshValue (hkept : Kept issuedFor user view) (hseen : IsSeenTask issuedFor user id view) :
    Keeps issuedFor user
      (fun result later => ∀ token updated, result = .ok (token, updated) →
        IsSeenToken issuedFor token later) (user.refreshValue id) view := by
  apply Keeps.request
  intro later hlater _ input answer after _ hperform
  obtain ⟨existing, hexisting, hvalue⟩ := Option.bind_eq_some_iff.mp hperform
  obtain ⟨result, hresult, hstate⟩ := Option.map_eq_some_iff.mp hvalue
  have hanswer : result = answer := congrArg Prod.fst hstate
  have hafter : later.state = after := congrArg Prod.snd hstate
  subst hanswer hafter
  have hmove : Later issuedFor user later
      (later.next issuedFor user later.state (.refreshValue user id) result) := by
    cases result with
    | ok value => exact Later.refl later
    | error error => exact later_of_user rfl rfl (fun h => h) (fun _ h => h)
  refine ⟨hmove, fun last hlast token updated hok => ?_⟩
  obtain ⟨task, htask, hsession⟩ := hseen.later hkept hlater
  obtain ⟨object, hobject, -, -, hformed⟩ := (hlater.kept hkept).1.object
  obtain rfl : object = existing := Option.some.inj (hobject.symm.trans hexisting)
  obtain ⟨found, hfound, hfoundResult⟩ := Option.bind_eq_some_iff.mp hresult
  have htask : object.tokenRefresh.task id = some task := by
    rw [AuthState.task, hobject] at htask
    exact htask
  obtain rfl := Option.some.inj (hfound.symm.trans htask)
  have htoken := hformed.results id found hfound token updated (hfoundResult.trans (congrArg some hok))
  exact ⟨_, (hmove.trans hlast).seenBy hsession, htoken⟩

theorem keeps_endRefresh (id : Nat) : Keeps issuedFor user (fun _ _ => True) (user.endRefresh id) view := by
  apply Keeps.request
  intro later _ _ _ answer after _ hperform
  obtain ⟨object, _, hresult⟩ := Option.map_eq_some_iff.mp hperform
  cases hresult
  refine ⟨later_of_modify rfl List.prefix_rfl rfl rfl ?_ ?_, fun _ _ => trivial⟩
  · exact fun _ htokens hlast => ⟨htokens, hlast⟩
  · exact fun object hformed => ⟨hformed.clear id, TokenRefresh.extends_clear id⟩

theorem keeps_runRefresh {started : Bool} (hkept : Kept issuedFor user view)
    (htokens : tokenService.IsOfOneSession issuedFor) (hseen : IsSeenTask issuedFor user id view)
    (hstarted : started = true → ∀ task, view.state.task user id = some task →
      task.tokenService = tokenService) :
    Keeps issuedFor user (fun _ later => Kept issuedFor user later ∧ IsSeenTask issuedFor user id later)
      (user.runRefresh tokenService id started) view := by
  have hafter : ∀ later, Later issuedFor user view later →
      Kept issuedFor user later ∧ IsSeenTask issuedFor user id later := fun later hlater =>
    ⟨(hlater.kept hkept).1, hseen.later hkept hlater⟩
  cases started with
  | false => exact Keeps.pure hafter
  | true =>
      obtain ⟨task, htask, -⟩ := hseen
      have hservice := hstarted rfl task htask
      have hrun : Keeps issuedFor user (fun _ _ => True) (user.runRefresh tokenService id true) view := by
        apply (keeps_attempt (keeps_refresh htokens) fun _ _ _ h _ => h).andThen
        intro result later hlater hresult
        obtain ⟨task', htask', hservice'⟩ := (hlater.kept hkept).2 id task htask
        apply keeps_finishRefresh (hlater.kept hkept).1 htask'
        intro token updated hok
        rw [hservice', hservice]
        exact hresult (token, updated) hok
      exact hrun.mono fun _ later hlater _ => hafter later hlater

/-- A token that is fetched while the user's credentials are replaced is of a session that was the user's
at some time since the call began. -/
theorem keeps_fetchAccessToken (hkept : Kept issuedFor user view) (hsince : view.since < view.seen.length)
    (forceRefresh : Bool) : Keeps issuedFor user (fun result later => IsSeenToken issuedFor result.1 later)
      (user.fetchAccessToken forceRefresh) view := by
  apply (keeps_userdata hkept hsince).andThen
  rintro data later hlater ⟨htokens, hseen⟩
  apply (keeps_hasValidAccessTokenUnless forceRefresh).andThen
  intro valid now hnow _
  cases valid with
  | true => exact Keeps.pure fun last hlast => ⟨_, (hnow.trans hlast).seenBy hseen, htokens⟩
  | false =>
      apply (keeps_beginRefresh ((hlater.trans hnow).kept hkept).1 (hnow.seenBy hseen)).andThen
      rintro ⟨id, started⟩ begun - ⟨hkeptBegun, htask, hstarted⟩
      apply (keeps_runRefresh hkeptBegun htokens htask hstarted).andThen
      rintro _ finished - ⟨hkeptFinished, htask⟩
      apply (keeps_refreshValue hkeptFinished htask).andThen
      intro result _ _ hresult
      apply (keeps_endRefresh id).andThen
      intro _ ended hended _
      apply Keeps.orThrow
      rintro ⟨token, updated⟩ last hlast rfl
      exact (hresult token updated rfl).later (hended.trans hlast)

theorem keeps_updateKeychain : Keeps issuedFor user (fun _ _ => True) user.updateKeychain view := by
  have hrequest : Keeps issuedFor user (fun _ _ => True)
      (Program.request (Access.updateKeychain user)) view := by
    apply Keeps.request
    intro later _ _ _ answer after _ hperform
    obtain ⟨object, _, hresult⟩ := Option.map_eq_some_iff.mp hperform
    have husers := @AuthState.throughAuth_users later.state object (fun state => state.updateKeychain user)
      (AuthState.updateKeychain_users user)
    rw [show later.state.throughAuth object _ = (answer, after) from hresult] at husers
    refine ⟨later_of_user rfl rfl (fun h => h) fun found hfound => ?_, fun _ _ => trivial⟩
    exact AuthState.user_of_prefixed (husers ▸ List.prefix_rfl) hfound
  exact hrequest.andThen fun _ _ _ _ => Keeps.orThrow fun _ _ _ _ => trivial

/-- Where the condition holds, the user is not signed out wrongly. -/
theorem signsOutWrongly_eq_false {userID : String} {object : User} {answer : Except AuthErrorCode Unit}
    {after : AuthState} (hspares : view.spares issuedFor user (.userSignOutByForce user userID))
    (hperform : (view.state.throughAuth object fun state => state.signOutByForce userID) = (answer, after)) :
    view.signsOutWrongly issuedFor user after = false := by
  unfold signsOutWrongly
  rcases hspares with hfailed | ⟨hcurrent, hsession⟩ | hother
  · rw [hfailed]
    rfl
  · rw [hcurrent, hsession]
    simp
  · have hafter : after = view.state := by
      unfold AuthState.throughAuth at hperform
      split_ifs at hperform
      · have hperform : view.state.signOutByForce userID = (answer, after) := hperform
        unfold AuthState.signOutByForce at hperform
        rw [if_neg hother] at hperform
        exact (congrArg Prod.snd hperform).symm
      · exact (congrArg Prod.snd hperform).symm
    rw [hafter]
    simp

theorem keeps_signOutIfTokenIsInvalid (error : AuthErrorCode) :
    Keeps issuedFor user (fun _ _ => True) (user.signOutIfTokenIsInvalid error) view := by
  unfold UserRef.signOutIfTokenIsInvalid
  split
  case isFalse => exact Keeps.pure fun _ _ => trivial
  case isTrue =>
    apply keeps_read.andThen
    intro data _ _ _
    have hsignOut : ∀ {later : SessionView S}, Keeps issuedFor user (fun _ _ => True)
        (Program.request (Access.userSignOutByForce user data.uid)) later := by
      intro start
      apply Keeps.request
      intro later _ hspares _ answer after _ hperform
      obtain ⟨object, _, hresult⟩ := Option.map_eq_some_iff.mp hperform
      have husers := @AuthState.throughAuth_users later.state object
        (fun state => state.signOutByForce data.uid) (AuthState.signOutByForce_users data.uid)
      rw [show later.state.throughAuth object _ = (answer, after) from hresult] at husers
      refine ⟨later_of_user rfl rfl (fun h => ?_) fun found hfound => ?_, fun _ _ => trivial⟩
      · exact Bool.or_eq_false_iff.mpr ⟨h, signsOutWrongly_eq_false hspares hresult⟩
      · exact AuthState.user_of_prefixed (husers ▸ List.prefix_rfl) hfound
    exact hsignOut.andThen fun _ _ _ _ => Keeps.pure fun _ _ => trivial

theorem keeps_internalGetToken (hkept : Kept issuedFor user view) (hsince : view.since < view.seen.length)
    (forceRefresh : Bool) : Keeps issuedFor user (fun token later => IsSeenToken issuedFor token later)
      (user.internalGetToken forceRefresh) view := by
  apply Keeps.handle
  · apply (keeps_fetchAccessToken hkept hsince forceRefresh).andThen
    rintro ⟨token, updated⟩ later - htoken
    have hsave : Keeps issuedFor user (fun _ _ => True)
        (Code.when (updated = true) user.updateKeychain) later := by
      cases updated with
      | true => exact keeps_updateKeychain
      | false => exact Keeps.pure fun _ _ => trivial
    apply hsave.andThen
    intro _ saved hsaved _
    exact Keeps.pure fun last hlast => htoken.later (hsaved.trans hlast)
  · intro error later _
    apply (keeps_signOutIfTokenIsInvalid error).andThen
    intro _ _ _ _
    exact Keeps.throw error _

theorem keeps_setTokenService (htokens : tokenService.IsOfOneSession issuedFor) :
    Keeps issuedFor user (fun _ _ => True) (user.setTokenService tokenService) view := by
  apply (keeps_fetch htokens false).andThen
  rintro ⟨fetched, result⟩ later - ⟨hfetched, -, -⟩
  have hassign : Keeps issuedFor user (fun _ _ => True) (user.assign (.tokenService fetched)) later := by
    apply keeps_read.andThen
    intro copy _ _ _
    apply Keeps.request
    intro later _ _ _ answer after _ hperform
    obtain ⟨object, _, hresult⟩ := Option.map_eq_some_iff.mp hperform
    cases hresult
    have hseen : (if user = user then later.seen ++ [fetched.session issuedFor] else later.seen) =
        later.seen ++ [fetched.session issuedFor] := if_pos rfl
    refine ⟨later_of_modify rfl ?_ rfl rfl ?_ ?_, fun _ _ => trivial⟩
    · change later.seen <+: if user = user then later.seen ++ [fetched.session issuedFor] else later.seen
      rw [hseen]
      exact List.prefix_append _ _
    · intro object _ _
      exact ⟨hfetched, (congrArg List.getLast? hseen).trans List.getLast?_concat⟩
    · exact fun object hformed => ⟨hformed, TokenRefresh.Extends.refl _⟩
  exact hassign.andThen fun _ _ _ _ => keeps_updateKeychain

end UserCalls

end FirebaseSwift.Auth
