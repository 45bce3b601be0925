import FirebaseSwift.Auth.SignIn

/-! The sessions that tokens belong to. The backend issues every access token and every refresh token for
one session, and answers a refresh with tokens of the session of the refresh token. A token service has
the tokens of one session, and so does the result of a refresh. -/

namespace FirebaseSwift.Auth

open AccessPrograms

variable {S : Type}

namespace SecureTokenService

/-- The session of the credentials. -/
def session (issuedFor : String → S) (self : SecureTokenService) : Option S :=
  self.refreshToken.map issuedFor

end SecureTokenService

/-- A token of the session, if it is a token at all. -/
def IsTokenOf (issuedFor : String → S) (token : String) (session : Option S) : Prop :=
  token = "" ∨ some (issuedFor token) = session

namespace SecureTokenService

def IsOfOneSession (issuedFor : String → S) (self : SecureTokenService) : Prop :=
  IsTokenOf issuedFor self.accessToken (self.session issuedFor)

end SecureTokenService

namespace SecureTokenResponse

/-- The tokens are of the session of the refresh token that was sent. -/
def IsOf (issuedFor : String → S) (self : SecureTokenResponse) (refreshToken : String) : Prop :=
  IsTokenOf issuedFor self.accessToken (some (issuedFor refreshToken)) ∧
    ∀ newRefreshToken ∈ self.refreshToken, issuedFor newRefreshToken = issuedFor refreshToken

end SecureTokenResponse

section

variable [DecidableEq S] (issuedFor : String → S)

instance (token : String) (session : Option S) : Decidable (IsTokenOf issuedFor token session) :=
  inferInstanceAs (Decidable (_ ∨ _))

instance (self : SecureTokenService) : Decidable (self.IsOfOneSession issuedFor) :=
  inferInstanceAs (Decidable (IsTokenOf _ _ _))

instance (self : SecureTokenResponse) (refreshToken : String) : Decidable (self.IsOf issuedFor refreshToken) :=
  inferInstanceAs (Decidable (_ ∧ ∀ _ ∈ self.refreshToken, _))

end

namespace SecureTokenService

variable {issuedFor : String → S}

/-- What is accepted from an honest response is of the same session. -/
theorem accept_session {self : SecureTokenService} {response : SecureTokenResponse} {refreshToken : String}
    (hself : self.IsOfOneSession issuedFor) (hrefreshToken : self.refreshToken = some refreshToken)
    (h : response.IsOf issuedFor refreshToken) : (self.accept response).1.IsOfOneSession issuedFor ∧
      (self.accept response).1.session issuedFor = self.session issuedFor ∧
      IsTokenOf issuedFor (self.accept response).2.1 (self.session issuedFor) := by
  have hsession : self.session issuedFor = some (issuedFor refreshToken) :=
    congrArg (Option.map issuedFor) hrefreshToken
  have haccess : IsTokenOf issuedFor response.accessToken (self.session issuedFor) := hsession ▸ h.1
  have hupdated : ∀ refresh : Option String, refresh.map issuedFor = self.session issuedFor →
      ∀ isNew : Bool, IsTokenOf issuedFor
        (if isNew then response.accessToken else self.accessToken) (refresh.map issuedFor) := by
    intro refresh hrefresh isNew
    rw [hrefresh]
    cases isNew with
    | true => exact haccess
    | false => exact hself
  unfold accept
  extract_lets hasNewAccessToken updated
  have hcases : updated.accessToken = (if hasNewAccessToken then response.accessToken else self.accessToken) ∧
      updated.refreshToken = self.refreshToken := by
    cases hnew : hasNewAccessToken <;> simp [updated, hnew]
  have hsame : updated.IsOfOneSession issuedFor ∧ updated.session issuedFor = self.session issuedFor := by
    constructor
    · rw [IsOfOneSession, session, hcases.1]
      exact hupdated _ (congrArg (Option.map issuedFor) hcases.2) _
    · exact congrArg (Option.map issuedFor) hcases.2
  cases hresponse : response.refreshToken with
  | none => exact ⟨hsame.1, hsame.2, haccess⟩
  | some newRefreshToken =>
      have hnew : some (issuedFor newRefreshToken) = self.session issuedFor :=
        (congrArg some (h.2 newRefreshToken hresponse)).trans hsession.symm
      dsimp only
      split_ifs with hdiffers
      · refine ⟨?_, hnew, haccess⟩
        rw [IsOfOneSession, session, hcases.1]
        exact hupdated (some newRefreshToken) hnew _
      · exact ⟨hsame.1, hsame.2, haccess⟩

end SecureTokenService

namespace TokenRefresh

variable {self : TokenRefresh}

@[simp] theorem task_clear (id other : Nat) : (self.clear id).task other = self.task other := by
  unfold clear
  split_ifs <;> rfl

theorem task_finish (id other : Nat) (result : Except AuthErrorCode (String × Bool)) :
    (self.finish id result).task other = (self.task other).map fun task =>
      if task.id = id then { task with result := some result } else task := by
  rw [task, task, finish, List.find?_map]
  have hid : ((fun task : RefreshTask => decide (task.id = other)) ∘ fun task : RefreshTask =>
      if task.id = id then { task with result := some result } else task) =
      fun task => decide (task.id = other) := by
    funext task
    simp only [Function.comp_apply]
    split_ifs <;> rfl
  rw [hid]

theorem task_id {id : Nat} {task : RefreshTask} (h : self.task id = some task) : task.id = id :=
  of_decide_eq_true (@List.find?_some _ (fun task : RefreshTask => decide (task.id = id)) _ _ h)

/-- The tasks have been numbered in order, the pending one is among them, and what a task has for a result
is of the session of the credentials that it refreshed. -/
structure Formed (issuedFor : String → S) (refresh : TokenRefresh) : Prop where
  numbered : ∀ id, refresh.lastID < id → refresh.task id = none
  pending : ∀ id ∈ refresh.pending, (refresh.task id).isSome = true
  results : ∀ id task, refresh.task id = some task → ∀ token updated,
    task.result = some (.ok (token, updated)) →
    IsTokenOf issuedFor token (task.tokenService.session issuedFor)

/-- The tasks so far remain, with the credentials that they refresh. -/
def Extends (self other : TokenRefresh) : Prop :=
  ∀ id task, self.task id = some task →
    ∃ later, other.task id = some later ∧ later.tokenService = task.tokenService

theorem Extends.refl (self : TokenRefresh) : self.Extends self := fun _ task h => ⟨task, h, rfl⟩

theorem Extends.trans {other third : TokenRefresh} (h : self.Extends other) (h' : other.Extends third) :
    self.Extends third := by
  intro id task htask
  obtain ⟨later, hlater, hservice⟩ := h id task htask
  obtain ⟨last, hlast, hsame⟩ := h' id later hlater
  exact ⟨last, hlast, hsame.trans hservice⟩

variable {issuedFor : String → S}

theorem formed_new : Formed issuedFor {} where
  numbered := fun _ _ => rfl
  pending := fun _ h => nomatch h
  results := fun _ _ h => nomatch h

theorem Formed.clear (h : self.Formed issuedFor) (id : Nat) : (self.clear id).Formed issuedFor := by
  refine ⟨?_, ?_, ?_⟩
  · intro other hother
    rw [task_clear]
    apply h.numbered
    unfold TokenRefresh.clear at hother
    split_ifs at hother <;> exact hother
  · intro other hother
    rw [task_clear]
    unfold TokenRefresh.clear at hother
    split_ifs at hother
    · cases hother
    · exact h.pending other hother
  · intro other task htask
    rw [task_clear] at htask
    exact h.results other task htask

theorem extends_clear (id : Nat) : self.Extends (self.clear id) :=
  fun other task htask => ⟨task, (task_clear id other).trans htask, rfl⟩

theorem extends_finish (id : Nat) (result : Except AuthErrorCode (String × Bool)) :
    self.Extends (self.finish id result) := by
  intro other task htask
  rw [task_finish, htask]
  refine ⟨_, rfl, ?_⟩
  beta_reduce
  split_ifs <;> rfl

theorem Formed.finish (h : self.Formed issuedFor) {id : Nat} {result : Except AuthErrorCode (String × Bool)}
    (hresult : ∀ task, self.task id = some task → ∀ token updated, result = .ok (token, updated) →
      IsTokenOf issuedFor token (task.tokenService.session issuedFor)) :
    (self.finish id result).Formed issuedFor := by
  refine ⟨?_, ?_, ?_⟩
  · intro other hother
    rw [task_finish, h.numbered other hother]
    rfl
  · intro other hother
    rw [task_finish, Option.isSome_map]
    exact h.pending other hother
  · intro other task htask token updated htoken
    rw [task_finish] at htask
    obtain ⟨before, hbefore, rfl⟩ := Option.map_eq_some_iff.mp htask
    by_cases hid : before.id = id
    · rw [if_pos hid] at htoken ⊢
      obtain rfl : other = id := (task_id hbefore).symm.trans hid
      exact hresult before hbefore token updated (Option.some.inj htoken)
    · rw [if_neg hid] at htoken ⊢
      exact h.results other before hbefore token updated htoken

section Begin

variable (tokenService : SecureTokenService)

theorem begin_of_pending {id : Nat} (h : self.pending = some id) :
    self.begin tokenService = ((id, false), self) := by
  unfold begin
  rw [h]

theorem task_begin (h : self.pending = none) (other : Nat) : (self.begin tokenService).2.task other =
      if self.lastID + 1 = other then some { id := self.lastID + 1, tokenService := tokenService }
      else self.task other := by
  unfold begin
  rw [h]
  rw [task, List.find?_cons]
  by_cases hother : self.lastID + 1 = other
  · rw [if_pos hother, decide_eq_true hother]
  · rw [if_neg hother, decide_eq_false hother]
    rfl

theorem Formed.begin (h : self.Formed issuedFor) : (self.begin tokenService).2.Formed issuedFor := by
  cases hpending : self.pending with
  | some id =>
      rw [begin_of_pending tokenService hpending]
      exact h
  | none =>
      have hstate : (self.begin tokenService).2.lastID = self.lastID + 1 ∧
          (self.begin tokenService).2.pending = some (self.lastID + 1) := by
        unfold TokenRefresh.begin
        rw [hpending]
        exact ⟨rfl, rfl⟩
      refine ⟨?_, ?_, ?_⟩
      · intro other hother
        rw [hstate.1] at hother
        rw [task_begin tokenService hpending, if_neg (Nat.ne_of_lt hother)]
        exact h.numbered other (Nat.lt_of_succ_lt hother)
      · intro other hother
        rw [hstate.2] at hother
        cases hother
        rw [task_begin tokenService hpending, if_pos rfl]
        rfl
      · intro other task htask token updated htoken
        rw [task_begin tokenService hpending] at htask
        split_ifs at htask
        · cases htask
          cases htoken
        · exact h.results other task htask token updated htoken

theorem Formed.extends_begin (h : self.Formed issuedFor) : self.Extends (self.begin tokenService).2 := by
  cases hpending : self.pending with
  | some id =>
      rw [begin_of_pending tokenService hpending]
      exact Extends.refl self
  | none =>
      intro other task htask
      refine ⟨task, ?_, rfl⟩
      rw [task_begin tokenService hpending, if_neg, htask]
      rintro rfl
      rw [h.numbered _ (Nat.lt_succ_self _)] at htask
      cases htask

/-- The refresh that a call waits for is the one it started, or the pending one. -/
theorem Formed.begin_task (h : self.Formed issuedFor) :
    ∃ task, (self.begin tokenService).2.task (self.begin tokenService).1.1 = some task ∧
      ((self.begin tokenService).1.2 = true → task.tokenService = tokenService) ∧
      ((self.begin tokenService).1.2 = false →
        ∃ id ∈ self.pending, self.task id = some task) := by
  cases hpending : self.pending with
  | some id =>
      rw [begin_of_pending tokenService hpending]
      obtain ⟨task, htask⟩ := Option.isSome_iff_exists.mp (h.pending id hpending)
      exact ⟨task, htask, fun hstarted => absurd hstarted Bool.false_ne_true, fun _ => ⟨id, rfl, htask⟩⟩
  | none =>
      have hid : (self.begin tokenService).1 = (self.lastID + 1, true) := by
        unfold TokenRefresh.begin
        rw [hpending]
      refine ⟨{ id := self.lastID + 1, tokenService := tokenService }, ?_, fun _ => rfl, ?_⟩
      · rw [task_begin tokenService hpending, hid, if_pos rfl]
      · rw [hid]
        exact fun hjoined => absurd hjoined.symm Bool.false_ne_true

end Begin

end TokenRefresh

end FirebaseSwift.Auth
