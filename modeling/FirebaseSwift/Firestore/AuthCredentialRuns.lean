import FirebaseSwift.Firestore.AuthCredentials

/-! Runs of the Auth credentials. Each call answers its completion at most once. A token goes with the user
who was current when it was requested and when the request was answered, and no user change came in
between. An invalidation forces the refresh of the next attempt that takes the flag. It does not force the
one that follows when that attempt is dropped after a user change. -/

namespace FirebaseSwift.Firestore

open StepRuns

namespace CredentialsProvider

variable {self self' : CredentialsProvider}

/-! ### Deliveries -/

/-- A delivered token goes with the user at its request and at its answer. -/
def Paired (self : CredentialsProvider) (delivery : Delivery) : Prop :=
  ∀ token user, delivery.result = .token token user →
    delivery.requestedAt = delivery.answeredAt ∧
      self.users[delivery.requestedAt]? = some user ∧ self.users[delivery.answeredAt]? = some user

def deliveredTo (self : CredentialsProvider) (call : Nat) : Nat :=
  self.deliveries.countP (·.call = call)

/-- What every run keeps. -/
structure Accounted (provider : CredentialsProvider) : Prop where
  users : UsersCounted provider
  calls : ∀ (call : Nat) phase, provider.calls[call]? = some phase → provider.Formed phase
  paired : ∀ delivery ∈ provider.deliveries, provider.Paired delivery
  delivered : ∀ call, 0 < provider.deliveredTo call → provider.calls[call]? = some .finished
  once : ∀ call, provider.deliveredTo call ≤ 1

variable (isAvailable : Bool) {event : CredentialsEvent} {initialUid : String}
variable {events : List CredentialsEvent}

theorem accounted_initial (initialUid : String) : Accounted (initial isAvailable initialUid) where
  users := usersCounted_initial isAvailable initialUid
  calls := fun _ _ => nofun
  paired := fun _ => nofun
  delivered := fun _ => nofun
  once := fun _ => Nat.zero_le 1

/-- A step delivers nothing and keeps what is finished, or it delivers to one call and finishes it. -/
theorem perform_deliveries (h : self.perform event = some self') : (self'.deliveries = self.deliveries ∧
      ∀ call : Nat, self.calls[call]? = some .finished → self'.calls[call]? = some .finished) ∨
    ∃ call result requestedAt answeredAt,
      self.calls[call]? = some (.answered result requestedAt answeredAt) ∧
        self' = self.deliver call result requestedAt answeredAt := by
  rcases perform_cases h with ⟨-, rfl | rfl | ⟨uid, rfl⟩⟩ | ⟨other, phase, -, hphase, hmoved⟩
  · refine Or.inl ⟨rfl, fun call hcall => ?_⟩
    obtain ⟨hlt, -⟩ := List.getElem?_eq_some_iff.mp hcall
    exact (List.getElem?_append_left hlt).trans hcall
  · exact Or.inl ⟨rfl, fun _ => id⟩
  · exact Or.inl ⟨rfl, fun _ => id⟩
  · have hother : phase ≠ .finished → ∀ next, self'.calls = self.calls.set other next →
        ∀ call : Nat, self.calls[call]? = some .finished → self'.calls[call]? = some .finished := by
      intro hopen next hcalls call hcall
      have hne : other ≠ call := by
        rintro rfl
        exact hopen (Option.some.inj (hphase.symm.trans hcall))
      rw [hcalls, List.getElem?_set_ne hne, hcall]
    rcases hmoved with ⟨rfl, rfl⟩ | ⟨k, rfl, rfl⟩ | ⟨k, forceRefresh, rfl, rfl⟩ |
      ⟨k, forceRefresh, requestedAt, token, error, rfl, rfl⟩ | ⟨result, requestedAt, answeredAt, rfl, rfl⟩
    · exact Or.inl ⟨rfl, hother nofun _ rfl⟩
    · exact Or.inl ⟨rfl, hother nofun _ rfl⟩
    · exact Or.inl ⟨rfl, hother nofun _ rfl⟩
    · left
      unfold complete at hother ⊢
      split_ifs at hother ⊢
      · exact ⟨rfl, hother nofun _ rfl⟩
      · exact ⟨rfl, hother nofun _ rfl⟩
    · exact Or.inr ⟨other, result, requestedAt, answeredAt, hphase, rfl⟩

theorem Paired.mono {delivery : Delivery} (h : self.Paired delivery) (husers : self.users <+: self'.users) :
    self'.Paired delivery := by
  intro token user hresult
  obtain ⟨hsame, hrequested, hanswered⟩ := h token user hresult
  exact ⟨hsame, getElem?_of_prefix husers hrequested, getElem?_of_prefix husers hanswered⟩

theorem deliveredTo_deliver (call other : Nat) (result : TokenResult) (requestedAt answeredAt : Nat) :
    (self.deliver call result requestedAt answeredAt).deliveredTo other =
      self.deliveredTo other + if call = other then 1 else 0 := by
  unfold deliveredTo deliver
  rw [List.countP_append, List.countP_singleton]
  simp only [decide_eq_true_eq]

theorem Accounted.perform (h : Accounted self) (hperform : self.perform event = some self') : Accounted self' where
  users := h.users.perform hperform
  calls := fun _ _ => formed_perform h.users h.calls hperform
  paired := by
    intro delivery hdelivery
    have husers := (perform_users_prefixed hperform).2
    rcases perform_deliveries hperform with
      ⟨hdeliveries, -⟩ | ⟨call, result, requestedAt, answeredAt, hanswered, rfl⟩
    · rw [hdeliveries] at hdelivery
      exact (h.paired delivery hdelivery).mono husers
    · rcases List.mem_append.mp hdelivery with hold | hnew
      · exact h.paired delivery hold
      · cases List.mem_singleton.mp hnew
        intro token user hresult
        obtain ⟨hsame, huser⟩ := h.calls call _ hanswered token user hresult
        exact ⟨hsame, hsame ▸ huser, huser⟩
  delivered := by
    intro call hcall
    rcases perform_deliveries hperform with
      ⟨hdeliveries, hfinished⟩ | ⟨other, result, requestedAt, answeredAt, hanswered, rfl⟩
    · rw [deliveredTo, hdeliveries] at hcall
      exact hfinished call (h.delivered call hcall)
    · by_cases hother : other = call
      · subst hother
        obtain ⟨hlt, -⟩ := List.getElem?_eq_some_iff.mp hanswered
        exact List.getElem?_set_self hlt
      · rw [deliveredTo_deliver, if_neg hother] at hcall
        exact (List.getElem?_set_ne hother).trans (h.delivered call hcall)
  once := by
    intro call
    rcases perform_deliveries hperform with
      ⟨hdeliveries, -⟩ | ⟨other, result, requestedAt, answeredAt, hanswered, rfl⟩
    · rw [deliveredTo, hdeliveries]
      exact h.once call
    · rw [deliveredTo_deliver]
      split_ifs with hother
      · -- nothing was delivered to a call that is only answered
        subst hother
        have hnone : ¬0 < self.deliveredTo other := fun hpos =>
          nomatch hanswered.symm.trans (h.delivered other hpos)
        omega
      · exact h.once call

theorem accounted_run {isAvailable : Bool}
    (hrun : run perform (initial isAvailable initialUid) events = some self) : Accounted self :=
  have hall : AllSteps perform (fun _ _ => True) (initial isAvailable initialUid) events :=
    allSteps_true (fun _ _ => trivial) _ _
  invariant_run (fun _ _ h _ _ hperform => h.perform hperform) (accounted_initial isAvailable initialUid) hall hrun

/-! ### The flag -/

def flagAfter (flag : Bool) : CredentialsEvent → Bool
  | .invalidateToken => true
  | .takeFlag _ => false
  | _ => flag

/-- The token was invalidated, and no attempt has taken the flag since. -/
def invalidated (events : List CredentialsEvent) : Bool := events.foldl flagAfter false

/-- The call took the flag after the events, and it has done nothing since. -/
def TookFlagAfter (before events : List CredentialsEvent) (call : Nat) : Prop :=
  ∃ others, events = before ++ .takeFlag call :: others ∧ ∀ event ∈ others, event.call? ≠ some call

/-- The flag is what the events say, and an attempt has what the flag was. -/
structure FlagKept (events : List CredentialsEvent) (provider : CredentialsProvider) : Prop where
  flag : provider.forceRefresh = invalidated events
  taken : ∀ (call k : Nat) forceRefresh, provider.calls[call]? = some (.flagged k forceRefresh) →
    ∃ before, TookFlagAfter before events call ∧ forceRefresh = invalidated before

theorem TookFlagAfter.append {before : List CredentialsEvent} {call : Nat}
    (h : TookFlagAfter before events call) (hevent : event.call? ≠ some call) :
    TookFlagAfter before (events ++ [event]) call := by
  obtain ⟨others, rfl, hothers⟩ := h
  refine ⟨others ++ [event], by rw [List.append_assoc, List.cons_append], fun other hother => ?_⟩
  rcases List.mem_append.mp hother with hmem | hmem
  · exact hothers other hmem
  · rwa [List.mem_singleton.mp hmem]

theorem forceRefresh_perform (h : self.perform event = some self') :
    self'.forceRefresh = flagAfter self.forceRefresh event := by
  cases event with
  | getToken => cases h; rfl
  | invalidateToken => cases h; rfl
  | userChanged uid => cases h; rfl
  | count call =>
      simp only [perform] at h
      split at h <;> cases h
      rfl
  | takeFlag call =>
      simp only [perform] at h
      split at h <;> cases h
      rfl
  | requestToken call =>
      simp only [perform] at h
      split at h <;> cases h
      rfl
  | complete call token error =>
      simp only [perform, complete] at h
      split at h
      · split_ifs at h <;> cases h <;> rfl
      · cases h
  | deliver call =>
      simp only [perform] at h
      split at h <;> cases h
      rfl

/-- A call with the flag has just taken it, or it had it and the step belongs to another call. -/
theorem flagged_perform (h : self.perform event = some self') {call k : Nat} {forceRefresh : Bool}
    (hcall : self'.calls[call]? = some (.flagged k forceRefresh)) :
    (event = .takeFlag call ∧ forceRefresh = self.forceRefresh) ∨
      (event.call? ≠ some call ∧ self.calls[call]? = some (.flagged k forceRefresh)) := by
  have hmoved : ∀ other next, event.call? = some other → self'.calls = self.calls.set other next →
      (∀ k forceRefresh, next ≠ .flagged k forceRefresh) →
        event.call? ≠ some call ∧ self.calls[call]? = some (.flagged k forceRefresh) := by
    intro other next hevent hcalls hnext
    rw [hcalls] at hcall
    rcases calls_set_cases hcall with ⟨-, rfl⟩ | ⟨hother, hsame⟩
    · exact absurd rfl (hnext k forceRefresh)
    · exact ⟨fun hsome => hother (Option.some.inj (hsome.symm.trans hevent)), hsame⟩
  cases event with
  | getToken =>
      cases h
      rcases Nat.lt_or_ge call self.calls.length with hlt | hge
      · rw [List.getElem?_append_left hlt] at hcall
        exact Or.inr ⟨by simp [CredentialsEvent.call?], hcall⟩
      · rw [List.getElem?_append_right hge] at hcall
        cases List.mem_singleton.mp (List.mem_of_getElem? hcall)
  | invalidateToken =>
      cases h
      exact Or.inr ⟨by simp [CredentialsEvent.call?], hcall⟩
  | userChanged uid =>
      cases h
      exact Or.inr ⟨by simp [CredentialsEvent.call?], hcall⟩
  | count other =>
      simp only [perform] at h
      split at h <;> cases h
      exact Or.inr (hmoved other _ rfl rfl (by simp))
  | takeFlag other =>
      simp only [perform] at h
      split at h <;> cases h
      rcases calls_set_cases hcall with ⟨rfl, hnext⟩ | ⟨hother, hsame⟩
      · split_ifs at hnext
        cases hnext
        exact Or.inl ⟨rfl, rfl⟩
      · exact Or.inr ⟨fun hsome => hother (Option.some.inj hsome).symm, hsame⟩
  | requestToken other =>
      simp only [perform] at h
      split at h <;> cases h
      exact Or.inr (hmoved other _ rfl rfl (by simp))
  | complete other token error =>
      simp only [perform, complete] at h
      split at h
      · split_ifs at h <;> cases h
        · exact Or.inr (hmoved other _ rfl rfl (by simp))
        · exact Or.inr (hmoved other _ rfl rfl (by simp))
      · cases h
  | deliver other =>
      simp only [perform] at h
      split at h <;> cases h
      exact Or.inr (hmoved other _ rfl rfl (by simp))

theorem flagKept_initial (initialUid : String) : FlagKept [] (initial isAvailable initialUid) where
  flag := rfl
  taken := fun _ _ _ => nofun

theorem FlagKept.perform (h : FlagKept events self) (hperform : self.perform event = some self') :
    FlagKept (events ++ [event]) self' where
  flag := by
    rw [forceRefresh_perform hperform, h.flag, invalidated, invalidated, List.foldl_append]
    rfl
  taken := by
    intro call k forceRefresh hcall
    rcases flagged_perform hperform hcall with ⟨rfl, hflag⟩ | ⟨hother, hsame⟩
    · exact ⟨events, ⟨[], rfl, nofun⟩, hflag.trans h.flag⟩
    · obtain ⟨before, htook, hforced⟩ := h.taken call k forceRefresh hsame
      exact ⟨before, htook.append hother, hforced⟩

theorem flagKept_run {isAvailable : Bool}
    (hrun : run perform (initial isAvailable initialUid) events = some self) : FlagKept events self :=
  history_run (fun _ _ _ h _ hperform => h.perform hperform) (flagKept_initial isAvailable initialUid) hrun

/-- A request is made by a call that took the flag, and it forces a refresh exactly if the token had been
invalidated before that and no other attempt had taken the flag since. -/
def RequestsForced (isAvailable : Bool) (initialUid : String) (events : List CredentialsEvent) : Prop :=
  ∀ before call, before ++ [.requestToken call] <+: events →
    ∀ provider ∈ run perform (initial isAvailable initialUid) (before ++ [.requestToken call]),
      ∃ start, TookFlagAfter start before call ∧
        provider.requests.getLast? = some (call, invalidated start)

theorem requestsForced_run (initialUid : String) (events : List CredentialsEvent) :
    RequestsForced isAvailable initialUid events := by
  rintro before call - provider hprovider
  obtain ⟨self, hself, hlast⟩ := run_append.mp hprovider
  obtain ⟨self', hperform, hdone⟩ := Option.bind_eq_some_iff.mp hlast
  cases hdone
  simp only [perform] at hperform
  split at hperform
  · rename_i k forceRefresh hcall
    cases hperform
    obtain ⟨start, htook, hforced⟩ := (flagKept_run hself).taken call k forceRefresh hcall
    refine ⟨start, htook, ?_⟩
    rw [← hforced]
    exact List.getLast?_concat
  · cases hperform

/-- What holds of every run. The pairing is the one at the answer: the completion is called right after the
lock is released. -/
theorem getToken_run {isAvailable : Bool} {initialUid : String} {events : List CredentialsEvent}
    (hrun : run perform (initial isAvailable initialUid) events = some self) :
    (∀ call, self.deliveredTo call ≤ 1) ∧ (∀ delivery ∈ self.deliveries, self.Paired delivery) ∧
      RequestsForced isAvailable initialUid events :=
  ⟨(accounted_run hrun).once, (accounted_run hrun).paired, requestsForced_run isAvailable initialUid events⟩

/-- A user change drops the forced request of call 0, which starts again. -/
def droppedRefresh : List CredentialsEvent :=
  [.invalidateToken, .getToken, .count 0, .takeFlag 0, .requestToken 0, .userChanged "b",
    .complete 0 "t" "", .count 0, .takeFlag 0, .requestToken 0]

/-- The user changes between the answer and the call of the completion. -/
def lateChange : List CredentialsEvent :=
  [.getToken, .count 0, .takeFlag 0, .requestToken 0, .complete 0 "t" "", .userChanged "b", .deliver 0]

theorem getToken_lateChange : ((run perform (initial true "a") lateChange).get (by decide)).Paired
    ⟨0, .token "t" (.authenticated "a"), 0, 0, 1⟩ :=
  (getToken_run (Option.some_get (by decide)).symm).2.1 _ List.mem_cons_self

/-- A token that is delivered goes with the user at its request and at its delivery, and as long as nothing
is delivered all requests after an invalidation force a refresh. -/
def PairedUntilDelivery (isAvailable : Bool) (initialUid : String) (events : List CredentialsEvent) : Prop :=
  ∀ before, before <+: events → ∀ provider ∈ run perform (initial isAvailable initialUid) before,
    (∀ call, provider.deliveredTo call ≤ 1) ∧
    (∀ delivery ∈ provider.deliveries, ∀ token user, delivery.result = .token token user →
      delivery.requestedAt = delivery.deliveredAt ∧ provider.users[delivery.requestedAt]? = some user ∧
        provider.users[delivery.deliveredAt]? = some user) ∧
    ∀ start call, before = start ++ [.requestToken call] → .invalidateToken ∈ start →
      provider.deliveries = [] → provider.requests.getLast? = some (call, true)

theorem getToken_run_fails :
    ¬PairedUntilDelivery true "a" droppedRefresh ∧ ¬PairedUntilDelivery true "a" lateChange := by
  constructor
  · intro h
    have hlast := (h droppedRefresh List.prefix_rfl _ (Option.some_get (by decide)).symm).2.2
      droppedRefresh.dropLast 0 (by decide) (by decide) (by decide)
    exact absurd hlast (by decide)
  · intro h
    have hpaired := (h lateChange List.prefix_rfl _ (Option.some_get (by decide)).symm).2.1
      ⟨0, .token "t" (.authenticated "a"), 0, 0, 1⟩ (by decide) "t" (.authenticated "a") rfl
    exact absurd hpaired.1 (by decide)

end CredentialsProvider

end FirebaseSwift.Firestore
