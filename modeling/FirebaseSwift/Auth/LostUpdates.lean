import FirebaseSwift.Auth.Operations

/-! Lost updates. An update under the lock changes the data as they are, but an assignment sets the whole
data to a copy that was read before. So no update is lost as long as every assignment, when it sets the
data, makes of its copy what it would make of the data as they are then. Any other assignment puts back
another field. -/

namespace FirebaseSwift.Auth

open AccessPrograms StepRuns

/-- The update that an access makes, and the user it is for. -/
def Access.update : Access → Option (UserRef × UserUpdate)
  | .setUserdata user _ update => some (user, update)
  | .withUserData user update => some (user, update)
  | _ => none

/-- Threads, what the data of each user object were when it was made, and the updates since. -/
structure UpdateHistory where
  threads : Threads
  made : List UserData
  log : List (UserRef × UserUpdate) := []

namespace UpdateHistory

def next (self : UpdateHistory) (event : ThreadEvent) (threads : Threads) : UpdateHistory where
  threads := threads
  made := self.made ++ (threads.state.users.drop self.threads.state.users.length).map User.userData
  log := self.log ++ ((self.threads.nextAccess event).bind Access.update).toList

def step (self : UpdateHistory) (event : ThreadEvent) : Option UpdateHistory :=
  (self.threads.step event).map (self.next event)

/-- User objects and no threads yet. -/
def start (state : AuthState) : UpdateHistory where
  threads := { state := state }
  made := state.users.map User.userData

def updatesOf (self : UpdateHistory) (user : UserRef) : List UserUpdate :=
  self.log.filterMap fun entry => if entry.1 = user then some entry.2 else none

/-- The value of every field is made by the updates of that field alone, one after the other. -/
def NoUpdateLost (self : UpdateHistory) : Prop :=
  ∀ user initial, self.made[user.index]? = some initial → ∀ field, ∃ data,
    self.threads.state.data user = some data ∧
      data.SameAt (initial.applyAll ((self.updatesOf user).filter fun update => update.touches field)) field

/-- If the step is the second access of an assignment, the copy that it updates leads to the same data as
an update of the data as they are. -/
def assignsUpToDate (self : UpdateHistory) (event : ThreadEvent) : Prop :=
  match self.threads.nextAccess event with
  | some (.setUserdata user copy update) =>
      ∀ data ∈ self.threads.state.data user, update.apply copy = update.apply data
  | _ => True

instance (self : UpdateHistory) (event : ThreadEvent) : Decidable (self.assignsUpToDate event) := by
  unfold assignsUpToDate
  split <;> infer_instance

structure Kept (history : UpdateHistory) : Prop where
  made_length : history.made.length = history.threads.state.users.length
  logged : ∀ entry ∈ history.log, entry.1.index < history.threads.state.users.length
  data_eq : ∀ user initial, history.made[user.index]? = some initial →
    history.threads.state.data user = some (initial.applyAll (history.updatesOf user))

theorem kept_start (state : AuthState) : Kept (start state) where
  made_length := List.length_map _
  logged := fun _ hentry => absurd hentry List.not_mem_nil
  data_eq := fun _ _ hinitial => (List.getElem?_map ..).symm.trans hinitial

variable {self : UpdateHistory}

theorem Kept.noUpdateLost (h : self.Kept) : self.NoUpdateLost :=
  fun user initial hinitial field =>
    ⟨_, h.data_eq user initial hinitial, initial.applyAll_sameAt_filter field (self.updatesOf user)⟩

theorem updatesOf_next (event : ThreadEvent) (threads : Threads) (user : UserRef) :
    (self.next event threads).updatesOf user =
      self.updatesOf user ++ (((self.threads.nextAccess event).bind Access.update).toList.filterMap
        fun entry => if entry.1 = user then some entry.2 else none) :=
  List.filterMap_append

variable {event : ThreadEvent} (threads : Threads) {access : Access}

/-- The updates of a user after a step that makes no update of it. -/
theorem updatesOf_next_of_forall {user : UserRef}
    (h : ∀ entry ∈ (self.threads.nextAccess event).bind Access.update, entry.1 ≠ user) :
    (self.next event threads).updatesOf user = self.updatesOf user := by
  rw [updatesOf_next, List.filterMap_eq_nil_iff.mpr, List.append_nil]
  intro entry hentry
  exact if_neg (h entry (Option.mem_toList.mp hentry))

/-- What the next access makes of the data of a user is what the logged update makes of them. -/
theorem effect_eq_applyAll {user : UserRef} {initial : UserData}
    (haccess : self.threads.nextAccess event = some access) (hcondition : self.assignsUpToDate event)
    (hdata : self.threads.state.data user = some (initial.applyAll (self.updatesOf user))) :
    AuthState.effect user (initial.applyAll (self.updatesOf user)) access =
      initial.applyAll ((self.next event threads).updatesOf user) := by
  rw [updatesOf_next, haccess]
  rw [assignsUpToDate, haccess] at hcondition
  cases access with
  | setUserdata object copy update =>
      by_cases hobject : object = user
      · subst hobject
        rw [AuthState.effect, if_pos rfl, hcondition _ hdata]
        simp only [Option.bind_some, Access.update, Option.toList_some, List.filterMap_cons,
          List.filterMap_nil, if_true, UserData.applyAll_append]
      · simp [AuthState.effect, Access.update, hobject]
  | withUserData object update =>
      by_cases hobject : object = user
      · subst hobject
        simp only [AuthState.effect, Option.bind_some, Access.update, Option.toList_some,
          List.filterMap_cons, List.filterMap_nil, if_true, UserData.applyAll_append]
      · simp [AuthState.effect, Access.update, hobject]
  | _ => simp [AuthState.effect, Access.update]

/-- An update is made of a user object that exists. -/
theorem update_index_lt {input : Input} {state state' : AuthState} {answer : access.Answer}
    (h : AuthState.perform access input state = some (answer, state')) {entry : UserRef × UserUpdate}
    (hentry : entry ∈ access.update) : entry.1.index < state.users.length := by
  cases access with
  | setUserdata object copy update =>
      cases hentry
      obtain ⟨existing, hexisting, -⟩ := Option.map_eq_some_iff.mp h
      exact (List.getElem?_eq_some_iff.mp hexisting).1
  | withUserData object update =>
      cases hentry
      obtain ⟨existing, hexisting, -⟩ := Option.map_eq_some_iff.mp h
      exact (List.getElem?_eq_some_iff.mp hexisting).1
  | _ => cases hentry

theorem Kept.step (h : self.Kept) (hcondition : self.assignsUpToDate event) :
    ∀ self' ∈ self.step event, self'.Kept := by
  intro self' hself'
  obtain ⟨threads, hthreads, rfl⟩ := Option.map_eq_some_iff.mp hself'
  have hlength : self.threads.state.users.length ≤ threads.state.users.length := by
    obtain ⟨_, _, _, -, -, _, hperform⟩ | ⟨-, husers⟩ := Threads.step_cases hthreads
    · exact AuthState.perform_length hperform
    · exact Nat.le_of_eq (congrArg List.length husers.symm)
  have hlogged : ∀ entry ∈ (self.threads.nextAccess event).bind Access.update,
      entry.1.index < self.threads.state.users.length := by
    intro entry hentry
    obtain ⟨_, _, access, -, haccess, _, hperform⟩ | ⟨hnone, -⟩ := Threads.step_cases hthreads
    · rw [haccess] at hentry
      exact update_index_lt hperform hentry
    · rw [hnone] at hentry
      cases hentry
  constructor
  case made_length =>
    rw [next, List.length_append, List.length_map, List.length_drop, h.made_length]
    exact Nat.add_sub_cancel' hlength
  case logged =>
    intro entry hentry
    rcases List.mem_append.mp hentry with hold | hnew
    · exact Nat.lt_of_lt_of_le (h.logged entry hold) hlength
    · exact Nat.lt_of_lt_of_le (hlogged entry (Option.mem_toList.mp hnew)) hlength
  case data_eq =>
    intro user initial hinitial
    by_cases hold : user.index < self.made.length
    · have hinitial : self.made[user.index]? = some initial :=
        (List.getElem?_append_left hold).symm.trans hinitial
      have hdata := h.data_eq user initial hinitial
      obtain ⟨_, _, access, -, haccess, _, hperform⟩ | ⟨hnone, husers⟩ := Threads.step_cases hthreads
      · rw [← effect_eq_applyAll threads haccess hcondition hdata]
        exact AuthState.perform_data hperform hdata
      · have hupdates : (self.next event threads).updatesOf user = self.updatesOf user := by
          apply updatesOf_next_of_forall
          intro entry hentry
          rw [hnone] at hentry
          cases hentry
        rw [hupdates]
        exact (AuthState.data_of_users_eq husers user).trans hdata
    · -- A user object that this step made has no updates yet.
      have hnone : (self.next event threads).updatesOf user = [] := by
        rw [updatesOf_next_of_forall]
        · apply List.filterMap_eq_nil_iff.mpr
          intro entry hentry
          apply if_neg
          rintro rfl
          exact hold (h.made_length ▸ h.logged entry hentry)
        · rintro entry hentry rfl
          exact hold (h.made_length ▸ hlogged entry hentry)
      rw [hnone, UserData.applyAll_nil]
      have hmade : (self.made ++
          (threads.state.users.drop self.threads.state.users.length).map User.userData)[user.index]? =
            some initial := hinitial
      rw [List.getElem?_append_right (Nat.le_of_not_lt hold), List.getElem?_map, List.getElem?_drop,
        h.made_length, Nat.add_sub_cancel' (h.made_length ▸ Nat.le_of_not_lt hold)] at hmade
      exact hmade

/-- A step that keeps every field to its updates assigned up to date. -/
theorem Kept.assignsUpToDate (h : self.Kept) {self' : UpdateHistory} (hself' : self' ∈ self.step event)
    (hlaw : self'.NoUpdateLost) : self.assignsUpToDate event := by
  obtain ⟨threads, hthreads, rfl⟩ := Option.map_eq_some_iff.mp hself'
  unfold UpdateHistory.assignsUpToDate
  split
  case h_2 => trivial
  case h_1 user copy update haccess =>
    intro data hdata
    have hindex : user.index < self.made.length := by
      obtain ⟨object, hobject, -⟩ := Option.map_eq_some_iff.mp hdata
      exact h.made_length ▸ (List.getElem?_eq_some_iff.mp hobject).1
    have hinitial : self.made[user.index]? = some self.made[user.index] := List.getElem?_eq_getElem hindex
    have hstored := h.data_eq user _ hinitial
    obtain rfl := Option.some.inj (hdata.symm.trans hstored)
    obtain ⟨_, _, access, -, haccess', _, hperform⟩ | ⟨hnone, -⟩ := Threads.step_cases hthreads
    · obtain rfl := Option.some.inj (haccess.symm.trans haccess')
      have hafter := AuthState.perform_data hperform hstored
      rw [AuthState.effect, if_pos rfl] at hafter
      apply UserData.eq_iff_sameAt.mpr
      intro field
      obtain ⟨data, hdata, hsame⟩ := hlaw user _ ((List.getElem?_append_left hindex).trans hinitial) field
      obtain rfl := Option.some.inj (hafter.symm.trans hdata)
      have hupdates : (self.next event threads).updatesOf user = self.updatesOf user ++ [update] := by
        rw [updatesOf_next, haccess]
        simp [Access.update]
      rw [hupdates] at hsame
      have hall := UserData.applyAll_sameAt_filter self.made[user.index] field
        (self.updatesOf user ++ [update])
      rw [UserData.applyAll_append] at hall
      exact hsame.trans hall.symm
    · rw [hnone] at haccess
      cases haccess

/-- In all states of a run no update is lost exactly if every assignment is up to date when it sets the
data. -/
theorem noUpdateLost_run_iff (state : AuthState) (events : List ThreadEvent)
    (hrun : (run step (start state) events).isSome = true) :
    AllSteps step assignsUpToDate (start state) events ↔
      ∀ before, before <+: events → ∀ self' ∈ run step (start state) before, self'.NoUpdateLost :=
  allSteps_iff_forall_law (fun _ _ h hcondition => h.step hcondition) (fun _ h => h.noUpdateLost)
    (fun _ _ h _ hself' hlaw => h.assignsUpToDate hself' hlaw) (kept_start state) hrun

/-- A user whose tokens are refreshed and whose display name is set at the same time. -/
def refreshAndRename : AuthState where
  users := [{
    userData := .withTokenService
      { requestConfiguration := some { apiKey := "key", appID := "app" }
        accessToken := "access"
        accessTokenExpirationDate := none
        refreshToken := some "refresh" }
    auth := .this }]
  requestConfiguration := { apiKey := "key", appID := "app" }
  currentUser := some ⟨0⟩

/-- The assignment reads the data before the refresh stores its tokens. -/
def renameAround (afterRefresh : List ThreadEvent) : List ThreadEvent :=
  [.start (.user ⟨0⟩ (.internalGetToken true)), .start (.user ⟨0⟩ (.setDisplayName (some "name"))),
    .run 0 .proceed, .run 0 .proceed, .run 1 .proceed,
    .run 0 (.tokens (.ok
      { accessToken := "access2"
        approximateExpirationDate := some 3600
        refreshToken := some "refresh2"
        tokenExpirationDate := none })),
    .run 0 .proceed] ++ afterRefresh

theorem noUpdateLost_run_iff_refreshed :
    AllSteps step assignsUpToDate (start refreshAndRename) (renameAround []) ↔
      ∀ before, before <+: renameAround [] →
        ∀ self' ∈ run step (start refreshAndRename) before, self'.NoUpdateLost :=
  noUpdateLost_run_iff refreshAndRename (renameAround []) (by decide +kernel)

/-- The display name is set after the refresh stored its tokens, and puts back the old ones. -/
theorem noUpdateLost_fails : ∃ self' ∈ run step (start refreshAndRename) (renameAround [.run 1 .proceed]),
    ¬self'.NoUpdateLost := by
  have hrun : (run step (start refreshAndRename) (renameAround [.run 1 .proceed])).map (fun self' =>
      (self'.made[0]?.map fun initial =>
          (initial.applyAll ((self'.updatesOf ⟨0⟩).filter fun update =>
            update.touches .tokenService)).tokenService.refreshToken,
        (self'.threads.state.data ⟨0⟩).map fun data => data.tokenService.refreshToken)) =
      some (some (some "refresh2"), some (some "refresh")) := by
    decide +kernel
  obtain ⟨self', hself', hvalues⟩ := Option.map_eq_some_iff.mp hrun
  obtain ⟨hmade, hstored⟩ := Prod.mk.inj hvalues
  obtain ⟨initial, hinitial, hrefreshed⟩ := Option.map_eq_some_iff.mp hmade
  refine ⟨self', hself', fun h => ?_⟩
  obtain ⟨data, hdata, hsame⟩ := h ⟨0⟩ initial hinitial .tokenService
  rw [hdata] at hstored
  have hold : data.tokenService.refreshToken = some "refresh" := Option.some.inj hstored
  have hnew : data.tokenService.refreshToken = some "refresh2" :=
    (congrArg SecureTokenService.refreshToken hsame).trans hrefreshed
  exact absurd (hold.symm.trans hnew) (by decide)

end UpdateHistory

end FirebaseSwift.Auth
