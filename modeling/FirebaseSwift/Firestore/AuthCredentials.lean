import FirebaseSwift.Library.StepRuns
import Mathlib.Order.Nat
import Mathlib.Tactic.SplitIfs

/-! The Auth credentials of Firestore, `SwiftAuthCredentialsProvider`. A call of `GetToken` remembers how
often the user has changed, takes the flag of a forced refresh and requests a token. If the user has
changed when the request is completed, the call starts again. Calls, completions, user changes and
invalidations come from several threads; each step here is what one of them does under the lock, or one
access of the flag. -/

namespace FirebaseSwift.Firestore

open StepRuns

inductive User where
  | unauthenticated
  | authenticated (uid : String)
deriving DecidableEq, Repr

def userFromUid (uid : String) : User := if uid = "" then .unauthenticated else .authenticated uid

/-- What the completion of `GetToken` is called with. -/
inductive TokenResult where
  | error (message : String)
  | unauthenticated
  | token (token : String) (user : User)
deriving DecidableEq, Repr

/-- The result of a completed request, for the user that is current then. -/
def tokenResult (token error : String) (user : User) : TokenResult :=
  if error ≠ "" then .error error
  else if token = "" then .unauthenticated
  else .token token user

/-- Where a call of `GetToken` is. The number of user changes at the request and at the answer is not kept
in the source. -/
inductive GetTokenCall where
  | called
  | counted (initialTokenCounter : Nat)
  | flagged (initialTokenCounter : Nat) (forceRefresh : Bool)
  | requested (initialTokenCounter : Nat) (forceRefresh : Bool) (requestedAt : Nat)
  | answered (result : TokenResult) (requestedAt answeredAt : Nat)
  | finished
deriving DecidableEq, Repr

/-- A completion was called. -/
structure Delivery where
  call : Nat
  result : TokenResult
  requestedAt : Nat
  answeredAt : Nat
  deliveredAt : Nat
deriving DecidableEq, Repr

/-- The provider, its calls of `GetToken` in order, and a ledger: all users so far, the requests with their
call and whether they force a refresh, and the completions that were called. -/
structure CredentialsProvider where
  isAvailable : Bool
  currentUser : User
  tokenCounter : Nat := 0
  forceRefresh : Bool := false
  calls : List GetTokenCall := []
  users : List User
  requests : List (Nat × Bool) := []
  deliveries : List Delivery := []
deriving DecidableEq, Repr

inductive CredentialsEvent where
  | getToken
  | invalidateToken
  | userChanged (uid : String)
  /-- The call reads the counter. -/
  | count (call : Nat)
  /-- `force_refresh_.exchange(false)` -/
  | takeFlag (call : Nat)
  | requestToken (call : Nat)
  /-- `CompleteAuthTokenRequest`, up to the end of the lock -/
  | complete (call : Nat) (token error : String)
  | deliver (call : Nat)
deriving DecidableEq, Repr

namespace CredentialsEvent

/-- The call that the event is a step of. -/
def call? : CredentialsEvent → Option Nat
  | getToken => none
  | invalidateToken => none
  | userChanged _ => none
  | count call => some call
  | takeFlag call => some call
  | requestToken call => some call
  | complete call _ _ => some call
  | deliver call => some call

end CredentialsEvent

namespace CredentialsProvider

/-- A provider with a source of tokens or without one. -/
def initial (isAvailable : Bool) (initialUid : String) : CredentialsProvider where
  isAvailable := isAvailable
  currentUser := userFromUid initialUid
  users := [userFromUid initialUid]

section

variable (self : CredentialsProvider)

def setCall (call : Nat) (next : GetTokenCall) : CredentialsProvider :=
  { self with calls := self.calls.set call next }

def userChanged (uid : String) : CredentialsProvider :=
  { self with
    currentUser := userFromUid uid
    tokenCounter := self.tokenCounter + 1
    users := self.users ++ [userFromUid uid] }

/-- Without a source the answer follows at once. -/
def takeFlag (call initialTokenCounter : Nat) : CredentialsProvider :=
  let next :=
    if self.isAvailable then .flagged initialTokenCounter self.forceRefresh
    else .answered .unauthenticated self.tokenCounter self.tokenCounter
  { self.setCall call next with forceRefresh := false }

def requestToken (call initialTokenCounter : Nat) (forceRefresh : Bool) : CredentialsProvider :=
  { self.setCall call (.requested initialTokenCounter forceRefresh self.tokenCounter) with
    requests := self.requests ++ [(call, forceRefresh)] }

/-- After a user change the call starts again. -/
def complete (call initialTokenCounter requestedAt : Nat) (token error : String) : CredentialsProvider :=
  if initialTokenCounter ≠ self.tokenCounter then self.setCall call .called
  else
    self.setCall call (.answered (tokenResult token error self.currentUser) requestedAt self.tokenCounter)

def deliver (call : Nat) (result : TokenResult) (requestedAt answeredAt : Nat) : CredentialsProvider :=
  { self.setCall call .finished with
    deliveries := self.deliveries ++ [⟨call, result, requestedAt, answeredAt, self.tokenCounter⟩] }

end

def perform (self : CredentialsProvider) : CredentialsEvent → Option CredentialsProvider
  | .getToken => some { self with calls := self.calls ++ [.called] }
  | .invalidateToken => some { self with forceRefresh := true }
  | .userChanged uid => some (self.userChanged uid)
  | .count call =>
      match self.calls[call]? with
      | some .called => some (self.setCall call (.counted self.tokenCounter))
      | _ => none
  | .takeFlag call =>
      match self.calls[call]? with
      | some (.counted initialTokenCounter) => some (self.takeFlag call initialTokenCounter)
      | _ => none
  | .requestToken call =>
      match self.calls[call]? with
      | some (.flagged initialTokenCounter forceRefresh) =>
          some (self.requestToken call initialTokenCounter forceRefresh)
      | _ => none
  | .complete call token error =>
      match self.calls[call]? with
      | some (.requested initialTokenCounter _ requestedAt) =>
          some (self.complete call initialTokenCounter requestedAt token error)
      | _ => none
  | .deliver call =>
      match self.calls[call]? with
      | some (.answered result requestedAt answeredAt) =>
          some (self.deliver call result requestedAt answeredAt)
      | _ => none

/-! ### One step -/

/-- What is known of a call: it has counted no more user changes than there were, and a token in its answer
goes with the user who was current at the request and has been since. -/
def Formed (self : CredentialsProvider) : GetTokenCall → Prop
  | .called => True
  | .counted initialTokenCounter => initialTokenCounter ≤ self.tokenCounter
  | .flagged initialTokenCounter _ => initialTokenCounter ≤ self.tokenCounter
  | .requested initialTokenCounter _ requestedAt =>
      initialTokenCounter ≤ requestedAt ∧ requestedAt ≤ self.tokenCounter
  | .answered result requestedAt answeredAt => ∀ token user, result = .token token user →
      requestedAt = answeredAt ∧ self.users[answeredAt]? = some user
  | .finished => True

/-- The events that belong to no call. -/
def Background (self self' : CredentialsProvider) : Prop :=
  self' = { self with calls := self.calls ++ [.called] } ∨ self' = { self with forceRefresh := true } ∨
    ∃ uid, self' = self.userChanged uid

/-- A step belongs to no call, or it moves one. -/
theorem perform_cases {self self' : CredentialsProvider} {event : CredentialsEvent}
    (h : self.perform event = some self') : (event.call? = none ∧ Background self self') ∨
    ∃ call phase, event.call? = some call ∧ self.calls[call]? = some phase ∧
      ((phase = .called ∧ self' = self.setCall call (.counted self.tokenCounter)) ∨
      (∃ k, phase = .counted k ∧ self' = self.takeFlag call k) ∨
      (∃ k forceRefresh, phase = .flagged k forceRefresh ∧ self' = self.requestToken call k forceRefresh) ∨
      (∃ k forceRefresh requestedAt token error, phase = .requested k forceRefresh requestedAt ∧
        self' = self.complete call k requestedAt token error) ∨
      ∃ result requestedAt answeredAt, phase = .answered result requestedAt answeredAt ∧
        self' = self.deliver call result requestedAt answeredAt) := by
  cases event with
  | getToken =>
      cases h
      exact Or.inl ⟨rfl, Or.inl rfl⟩
  | invalidateToken =>
      cases h
      exact Or.inl ⟨rfl, Or.inr (Or.inl rfl)⟩
  | userChanged uid =>
      cases h
      exact Or.inl ⟨rfl, Or.inr (Or.inr ⟨uid, rfl⟩)⟩
  | count call =>
      simp only [perform] at h
      split at h
      · rename_i hphase
        exact Or.inr ⟨call, _, rfl, hphase, Or.inl ⟨rfl, (Option.some.inj h).symm⟩⟩
      · cases h
  | takeFlag call =>
      simp only [perform] at h
      split at h
      · rename_i k hphase
        exact Or.inr ⟨call, _, rfl, hphase, Or.inr (Or.inl ⟨k, rfl, (Option.some.inj h).symm⟩)⟩
      · cases h
  | requestToken call =>
      simp only [perform] at h
      split at h
      · rename_i k forceRefresh hphase
        exact Or.inr ⟨call, _, rfl, hphase,
          Or.inr (Or.inr (Or.inl ⟨k, forceRefresh, rfl, (Option.some.inj h).symm⟩))⟩
      · cases h
  | complete call token error =>
      simp only [perform] at h
      split at h
      · rename_i k forceRefresh requestedAt hphase
        exact Or.inr ⟨call, _, rfl, hphase, Or.inr (Or.inr (Or.inr (Or.inl
          ⟨k, forceRefresh, requestedAt, token, error, rfl, (Option.some.inj h).symm⟩)))⟩
      · cases h
  | deliver call =>
      simp only [perform] at h
      split at h
      · rename_i result requestedAt answeredAt hphase
        exact Or.inr ⟨call, _, rfl, hphase, Or.inr (Or.inr (Or.inr (Or.inr
          ⟨result, requestedAt, answeredAt, rfl, (Option.some.inj h).symm⟩)))⟩
      · cases h

/-! ### Users and calls -/

section Steps

variable {self self' : CredentialsProvider}
variable {phase : GetTokenCall} {event : CredentialsEvent}

theorem calls_set_cases {call other : Nat} {next : GetTokenCall}
    (h : (self.calls.set call next)[other]? = some phase) :
    (other = call ∧ phase = next) ∨ (other ≠ call ∧ self.calls[other]? = some phase) := by
  by_cases hother : other = call
  · subst hother
    obtain ⟨hlt, -⟩ := List.getElem?_eq_some_iff.mp h
    rw [List.length_set] at hlt
    rw [List.getElem?_set_self hlt] at h
    exact Or.inl ⟨rfl, (Option.some.inj h).symm⟩
  · rw [List.getElem?_set_ne (Ne.symm hother)] at h
    exact Or.inr ⟨hother, h⟩

/-- The users are counted, and the last one is current. -/
structure UsersCounted (provider : CredentialsProvider) : Prop where
  length_eq : provider.users.length = provider.tokenCounter + 1
  current : provider.users[provider.tokenCounter]? = some provider.currentUser

theorem usersCounted_initial (isAvailable : Bool) (initialUid : String) :
    UsersCounted (initial isAvailable initialUid) := ⟨rfl, rfl⟩

theorem UsersCounted.userChanged (h : UsersCounted self) (uid : String) : UsersCounted (self.userChanged uid) where
  length_eq := by
    show (self.users ++ [userFromUid uid]).length = self.tokenCounter + 1 + 1
    rw [List.length_append, h.length_eq, List.length_singleton]
  current := by
    show (self.users ++ [userFromUid uid])[self.tokenCounter + 1]? = some (userFromUid uid)
    rw [← h.length_eq]
    exact List.getElem?_concat_length

/-- What a step of a call leaves alone. -/
theorem perform_users (h : self.perform event = some self') :
    (self'.users = self.users ∧ self'.tokenCounter = self.tokenCounter ∧
      self'.currentUser = self.currentUser) ∨ ∃ uid, self' = self.userChanged uid := by
  rcases perform_cases h with ⟨-, rfl | rfl | ⟨uid, rfl⟩⟩ | ⟨call, phase, -, -, ⟨-, rfl⟩ | ⟨k, -, rfl⟩ |
    ⟨k, forceRefresh, -, rfl⟩ | ⟨k, forceRefresh, requestedAt, token, error, -, rfl⟩ |
    ⟨result, requestedAt, answeredAt, -, rfl⟩⟩
  · exact Or.inl ⟨rfl, rfl, rfl⟩
  · exact Or.inl ⟨rfl, rfl, rfl⟩
  · exact Or.inr ⟨uid, rfl⟩
  · exact Or.inl ⟨rfl, rfl, rfl⟩
  · exact Or.inl ⟨rfl, rfl, rfl⟩
  · exact Or.inl ⟨rfl, rfl, rfl⟩
  · left
    unfold complete
    split_ifs
    · exact ⟨rfl, rfl, rfl⟩
    · exact ⟨rfl, rfl, rfl⟩
  · exact Or.inl ⟨rfl, rfl, rfl⟩

theorem UsersCounted.perform (h : UsersCounted self) (hperform : self.perform event = some self') :
    UsersCounted self' := by
  rcases perform_users hperform with ⟨husers, hcounter, hcurrent⟩ | ⟨uid, rfl⟩
  · exact ⟨by rw [husers, hcounter]; exact h.length_eq, by rw [husers, hcounter, hcurrent]; exact h.current⟩
  · exact h.userChanged uid

theorem perform_users_prefixed (h : self.perform event = some self') :
    self.tokenCounter ≤ self'.tokenCounter ∧ self.users <+: self'.users := by
  rcases perform_users h with ⟨husers, hcounter, -⟩ | ⟨uid, rfl⟩
  · rw [husers, hcounter]
    exact ⟨le_rfl, List.prefix_rfl⟩
  · exact ⟨Nat.le_succ _, List.prefix_append _ _⟩

theorem getElem?_of_prefix {users users' : List User} {i : Nat} {user : User} (h : users <+: users')
    (huser : users[i]? = some user) : users'[i]? = some user := by
  obtain ⟨hlt, hget⟩ := List.getElem?_eq_some_iff.mp huser
  refine List.getElem?_eq_some_iff.mpr ⟨hlt.trans_le h.length_le, ?_⟩
  rw [← h.getElem hlt, hget]

theorem Formed.mono (h : self.Formed phase) (hcounter : self.tokenCounter ≤ self'.tokenCounter)
    (husers : self.users <+: self'.users) : self'.Formed phase := by
  cases phase with
  | called => trivial
  | counted k => exact le_trans h hcounter
  | flagged k forceRefresh => exact le_trans h hcounter
  | requested k forceRefresh requestedAt => exact ⟨h.1, h.2.trans hcounter⟩
  | answered result requestedAt answeredAt =>
      intro token user hresult
      obtain ⟨hsame, huser⟩ := h token user hresult
      exact ⟨hsame, getElem?_of_prefix husers huser⟩
  | finished => trivial

theorem tokenResult_eq_token {token error token' : String} {user user' : User}
    (h : tokenResult token error user = .token token' user') : user = user' := by
  unfold tokenResult at h
  split_ifs at h
  cases h
  rfl

/-- A request that is answered was made for the user who is still current. -/
theorem formed_answered {k requestedAt : Nat} {token error : String} (husers : UsersCounted self)
    (hrequested : k ≤ requestedAt ∧ requestedAt ≤ self.tokenCounter) (hcounter : k = self.tokenCounter) :
    self.Formed (.answered (tokenResult token error self.currentUser) requestedAt self.tokenCounter) := by
  intro token' user hresult
  refine ⟨le_antisymm hrequested.2 (hcounter ▸ hrequested.1), ?_⟩
  rw [← tokenResult_eq_token hresult]
  exact husers.current

theorem formed_perform (husers : UsersCounted self)
    (h : ∀ (call : Nat) phase, self.calls[call]? = some phase → self.Formed phase)
    (hperform : self.perform event = some self') {call : Nat} (hphase : self'.calls[call]? = some phase) :
    self'.Formed phase := by
  obtain ⟨hcounter, hprefixed⟩ := perform_users_prefixed hperform
  suffices hformed : self.Formed phase from hformed.mono hcounter hprefixed
  rcases perform_cases hperform with ⟨-, rfl | rfl | ⟨uid, rfl⟩⟩ | ⟨other, before, -, hbefore, hmoved⟩
  · rcases List.mem_append.mp (List.mem_of_getElem? hphase) with hmem | hmem
    · obtain ⟨i, hi⟩ := List.mem_iff_getElem?.mp hmem
      exact h i phase hi
    · cases List.mem_singleton.mp hmem
      trivial
  · exact h call phase hphase
  · exact h call phase hphase
  · have hformed := h other before hbefore
    have hnext : ∀ next, self'.calls = self.calls.set other next → self.Formed next →
        self.Formed phase := by
      intro next hcalls hnext
      rw [hcalls] at hphase
      rcases calls_set_cases hphase with ⟨-, rfl⟩ | ⟨-, hsame⟩
      · exact hnext
      · exact h call phase hsame
    rcases hmoved with ⟨rfl, rfl⟩ | ⟨k, rfl, rfl⟩ | ⟨k, forceRefresh, rfl, rfl⟩ |
      ⟨k, forceRefresh, requestedAt, token, error, rfl, rfl⟩ | ⟨result, requestedAt, answeredAt, rfl, rfl⟩
    · exact hnext _ rfl (le_refl self.tokenCounter)
    · refine hnext _ rfl ?_
      split_ifs
      · exact hformed
      · exact fun token user hresult => nomatch hresult
    · exact hnext _ rfl ⟨hformed, le_rfl⟩
    · by_cases hchanged : k ≠ self.tokenCounter
      · rw [complete, if_pos hchanged] at hnext
        exact hnext _ rfl trivial
      · rw [complete, if_neg hchanged] at hnext
        exact hnext _ rfl (formed_answered husers hformed (not_not.mp hchanged))
    · exact hnext _ rfl trivial

end Steps

end CredentialsProvider

end FirebaseSwift.Firestore
