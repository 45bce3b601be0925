import FirebaseSwift.Database.ConnectionMoves
import FirebaseSwift.Library.StepRuns

/-! The life cycle of connections. As long as no token fetch fails while a connection is held, exactly the
held connection is live, and the client calls itself connecting, authenticating or connected exactly while
it holds one. A fetch that fails then belongs to an attempt that was superseded, and the client forgets the
connection it has. -/

namespace FirebaseSwift.Database

open SortedDictionary StepRuns

variable {K V A : Type} [DatabaseKey K]

namespace FIRRetryHelper

variable {β : Type} {helper : FIRRetryHelper β}

/-- Only the scheduled task still has its block. -/
def OnlyScheduled (helper : FIRRetryHelper β) : Prop :=
  ∀ task block, helper.tasks[task]? = some (some block) → helper.scheduledRetry = some task

theorem tasks_cancel (h : helper.OnlyScheduled) (task : Nat) (block : β) :
    helper.cancel.tasks[task]? ≠ some (some block) := by
  intro htask
  rw [cancel] at htask
  cases hscheduled : helper.scheduledRetry with
  | none =>
      rw [hscheduled] at htask
      rw [h task block htask] at hscheduled
      cases hscheduled
  | some scheduled =>
      rw [hscheduled] at htask
      simp only [List.getElem?_set] at htask
      split_ifs at htask with hsame hlength
      · cases htask
      · rw [h task block htask] at hscheduled
        exact hsame (Option.some.inj hscheduled).symm

theorem OnlyScheduled.cancel (h : helper.OnlyScheduled) : helper.cancel.OnlyScheduled :=
  fun task block htask => absurd htask (tasks_cancel h task block)

theorem OnlyScheduled.retry (h : helper.OnlyScheduled) (block : β) : (helper.retry block).OnlyScheduled := by
  intro task block' htask
  rw [FIRRetryHelper.retry] at htask ⊢
  rw [List.getElem?_append] at htask
  split_ifs at htask with hlength
  · exact absurd htask (tasks_cancel h task block')
  · have hlt : task - helper.cancel.tasks.length < 1 := (List.getElem?_eq_some_iff.mp htask).1
    have heq : task = helper.cancel.tasks.length := by omega
    exact congrArg some heq.symm

/-- Once the task with a block woke up, no block is left. -/
theorem tasks_wake (h : helper.OnlyScheduled) {task : Nat} {woken : β × FIRRetryHelper β}
    (hwake : helper.wake task = some woken) (task' : Nat) (block : β) :
    woken.2.tasks[task']? ≠ some (some block) := by
  intro htask'
  rw [wake, Option.map_eq_some_iff] at hwake
  obtain ⟨woke, hjoin, rfl⟩ := hwake
  have hfound : helper.tasks[task]? = some (some woke) := Option.join_eq_some_iff.mp hjoin
  simp only [List.getElem?_set] at htask'
  split_ifs at htask' with hsame hlength
  · cases htask'
  · have hscheduled := h task woke hfound
    rw [h task' block htask'] at hscheduled
    exact hsame (Option.some.inj hscheduled).symm

end FIRRetryHelper

namespace FPersistentConnection

variable {state state' : FPersistentConnection K V A} {may : Risk → Prop}

/-- Connecting, authenticating or connected. -/
def online (self : FPersistentConnection K V A) : Bool :=
  decide (self.connectionState = .connecting ∨ self.connectionState = .authenticating ∨
    self.connectionState = .connected)

/-- At most one connection is live, it is the held one, and the client is online exactly while it holds a
live connection. -/
structure LifeCycle (state : FPersistentConnection K V A) : Prop where
  one_live : ∀ id id', state.isLive id = true → state.isLive id' = true → id = id'
  held : ∀ id, state.isLive id = true → state.realtime = some id
  online_iff : state.online = true ↔ ∃ id, state.realtime = some id ∧ state.isLive id = true

/-- What the state of the client says about its connections. -/
structure Linked (state : FPersistentConnection K V A) : Prop where
  live_iff : ∀ id, state.isLive id = true ↔ state.realtime = some id
  online_iff : state.online = true ↔ state.realtime ≠ none
  connected : state.connected = true → state.CanSend
  requests : state.requestCBHash ≠ [] → state.CanSend
  scheduled : state.retryHelper.OnlyScheduled
  waiting : ∀ (task : Nat) (block : Bool), state.retryHelper.tasks[task]? = some (some block) →
    state.connectionState = .disconnected
  unconnectedSend : state.unconnectedSend = false

namespace Linked

theorem toHeld (h : state.Linked) : state.Held where
  live := fun id hid => (h.live_iff id).mpr hid
  connected := fun hc => by
    obtain ⟨id, hid, _⟩ := h.connected hc
    rw [hid]
    exact Option.some_ne_none id

theorem lifeCycle (h : state.Linked) : state.LifeCycle where
  one_live := fun id id' hid hid' =>
    Option.some.inj (((h.live_iff id).mp hid).symm.trans ((h.live_iff id').mp hid'))
  held := fun id => (h.live_iff id).mp
  online_iff := by
    rw [h.online_iff, Option.ne_none_iff_exists']
    exact exists_congr fun id => ⟨fun hid => ⟨hid, (h.live_iff id).mpr hid⟩, And.left⟩

theorem offline (h : state.Linked) (hstate : state.online = false) : state.realtime = none := by
  by_contra hne
  rw [h.online_iff.mpr hne] at hstate
  cases hstate

theorem canSend_of_ready (h : state.Linked) (hready : state.Ready) : state.CanSend :=
  hready.elim h.connected id

/-- Where the states of connections, what the client holds and what it calls itself stay. -/
theorem of_stateOf (h : state.Linked) (hconnectionState : state'.connectionState = state.connectionState)
    (hrealtime : state'.realtime = state.realtime) (hstate : ∀ id, state'.stateOf id = state.stateOf id)
    (hretry : state'.retryHelper = state.retryHelper) (hrequests : state'.requestCBHash ≠ [] → state.CanSend)
    (hsend : state'.unconnectedSend = state.unconnectedSend) : state'.Linked := by
  have hcanSend : state'.CanSend ↔ state.CanSend := by
    simp only [CanSend, isConnected_iff, hrealtime, hstate]
  have hlive : ∀ id, state'.isLive id = true ↔ state.isLive id = true := fun id => by
    rw [isLive_iff, isLive_iff, hstate]
  refine ⟨fun id => ?_, ?_, fun hc => ?_, fun hne => hcanSend.mpr (hrequests hne), ?_, ?_, ?_⟩
  · rw [hlive, hrealtime]
    exact h.live_iff id
  · rw [online, hconnectionState, hrealtime]
    exact h.online_iff
  · rw [FPersistentConnection.connected, hconnectionState] at hc
    exact hcanSend.mpr (h.connected hc)
  · rw [hretry]
    exact h.scheduled
  · rw [hretry, hconnectionState]
    exact h.waiting
  · rw [hsend]
    exact h.unconnectedSend

theorem sendAction (h : state.Linked) (hready : state.Ready) (request : ServerRequest K V A)
    (callback : Option (RequestCallback K V)) : (state.sendAction request callback).Linked := by
  obtain ⟨id, hrealtime, hconnected⟩ := h.canSend_of_ready hready
  refine h.of_stateOf (sendAction_connectionState _ _ _) (sendAction_realtime _ _ _)
    (stateOf_sendAction _ _ _) ?_ (fun _ => ⟨id, hrealtime, hconnected⟩) ?_
  · unfold FPersistentConnection.sendAction
    split <;> rfl
  · simp only [FPersistentConnection.sendAction, hrealtime, hconnected, Bool.not_true, Bool.or_false]

theorem sends (h : state.Linked) (hsends : Sends state state') : state'.Linked := by
  induction hsends with
  | refl => exact h
  | keep _ hkeeps _ ih =>
      refine ih.of_stateOf hkeeps.connectionState hkeeps.realtime (fun id => ?_) hkeeps.retryHelper
        (fun hne => ih.requests (hkeeps.requestCBHash ▸ hne)) hkeeps.unconnectedSend
      rw [stateOf, hkeeps.connections]
      rfl
  | action _ hready request callback _ ih => exact ih.sendAction hready request callback
  | @get sent _ hready index ih =>
      rcases sendGet_eq sent index with heq | ⟨gets, request, heq⟩
      · rw [heq]
        exact ih
      · rw [heq]
        have hmarked : Linked { sent with outstandingGets := gets } :=
          ih.of_stateOf rfl rfl (fun _ => rfl) rfl ih.requests rfl
        exact hmarked.sendAction hready _ _

theorem not_waiting (h : state.Linked) (hstate : state.connectionState ≠ .disconnected) (task : Nat)
    (block : Bool) : state.retryHelper.tasks[task]? ≠ some (some block) :=
  fun htask => hstate (h.waiting task block htask)

theorem tryScheduleReconnect (h : state.Linked) (hstate : state.connectionState = .disconnected) :
    state.tryScheduleReconnect.Linked := by
  unfold FPersistentConnection.tryScheduleReconnect
  split_ifs
  · exact ⟨h.live_iff, h.online_iff, h.connected, h.requests, h.scheduled.retry _, fun _ _ _ => hstate,
      h.unconnectedSend⟩
  · exact h

theorem disconnected (h : state.Linked) (hrealtime : state.realtime = none) :
    Linked { state with connectionState := .disconnected } where
  live_iff := h.live_iff
  online_iff := iff_of_false (by simp [online]) fun hne => hne hrealtime
  connected := fun hc => nomatch hc
  requests := h.requests
  scheduled := h.scheduled
  waiting := fun _ _ _ => rfl
  unconnectedSend := h.unconnectedSend

theorem fetch (h : state.Linked) {task : Nat} {forceRefresh : Bool} {retryHelper : FIRRetryHelper Bool}
    (hwake : state.retryHelper.wake task = some (forceRefresh, retryHelper)) :
    (fetchToken { state with retryHelper } forceRefresh).Linked := by
  have hnone := FIRRetryHelper.tasks_wake h.scheduled hwake
  have hstate : state.connectionState = .disconnected := by
    obtain ⟨woke, hjoin, _⟩ := Option.map_eq_some_iff.mp hwake
    exact h.waiting task woke (Option.join_eq_some_iff.mp hjoin)
  have hrealtime : state.realtime = none := h.offline (by rw [online, hstate]; rfl)
  refine ⟨h.live_iff, iff_of_false (by simp [online, fetchToken]) fun hne => hne hrealtime,
    fun hc => (nomatch hc), h.requests, fun task block htask => absurd htask (hnone task block),
    fun task block htask => absurd htask (hnone task block), h.unconnectedSend⟩

theorem opens (h : state.Linked) (token : Option String) (result : ConnectResult)
    (hstate : state.connectionState = .gettingToken) : (state.openNetworkConnection token result).Linked := by
  have hrealtime : state.realtime = none := h.offline (by rw [online, hstate]; rfl)
  have hrequests : state.requestCBHash = [] := by
    by_contra hne
    obtain ⟨id, hid, _⟩ := h.requests hne
    rw [hrealtime] at hid
    cases hid
  have hnone := h.not_waiting (by rw [hstate]; decide)
  refine ⟨fun id => ?_, iff_of_true rfl (Option.some_ne_none _), fun hc => (by cases hc),
    fun hne => absurd hrequests hne, h.scheduled, fun task block htask => absurd htask (hnone task block),
    h.unconnectedSend⟩
  by_cases hid : id = state.connections.length
  · rw [hid]
    exact iff_of_true (by simp [isLive, openNetworkConnection]) rfl
  · refine iff_of_false ?_ fun heq => hid (Option.some.inj heq).symm
    have hold : ¬ state.isLive id = true := by
      rw [h.live_iff, hrealtime]
      exact (Option.some_ne_none id).symm
    rw [isLive, openNetworkConnection, List.getElem?_append]
    split_ifs with hlt
    · exact hold
    · rw [List.getElem?_eq_none (by simp only [List.length_singleton]; omega)]
      exact Bool.false_ne_true

theorem ready (h : state.Linked) {id : Nat} (hrealtime : state.realtime = some id)
    (hstate : state.stateOf id = some .connecting) : Linked
      { state with
        connections := state.connections.modify id fun connection =>
          { connection with state := .connected } } := by
  obtain ⟨connection, hconnection, _⟩ := Option.map_eq_some_iff.mp hstate
  have hcanSend := canSend_connected hrealtime hconnection
  refine ⟨fun id' => ?_, h.online_iff, fun _ => hcanSend, fun _ => hcanSend, h.scheduled, h.waiting,
    h.unconnectedSend⟩
  by_cases hid : id = id'
  · subst hid
    refine iff_of_true ?_ hrealtime
    rw [isLive, List.getElem?_modify_eq, hconnection]
    rfl
  · rw [isLive, List.getElem?_modify]
    simp only [hid, if_false, id_map']
    exact h.live_iff id'

theorem becomes (h : state.Linked) {connectionState : ConnectionState}
    (hstate : connectionState = .authenticating ∨ connectionState = .connected)
    (hrealtime : state.realtime ≠ none) (hready : state.requestCBHash ≠ [] ∨ state.CanSend) :
    Linked { state with connectionState } := by
  have hcanSend : state.CanSend := hready.elim h.requests id
  have honline : online { state with connectionState } = true := by
    rcases hstate with rfl | rfl <;> rfl
  have hnone := h.not_waiting fun hdisconnected => by
    have hon := h.online_iff.mpr hrealtime
    rw [online, hdisconnected] at hon
    cases hon
  exact ⟨h.live_iff, iff_of_true honline hrealtime, fun _ => hcanSend, h.requests, h.scheduled,
    fun task block htask => absurd htask (hnone task block), h.unconnectedSend⟩

theorem closeConnection (h : state.Linked) {id : Nat} (hrealtime : state.realtime = some id)
    (reason : FDisconnectReason) : (state.closeConnection id reason).Linked := by
  have hlive := (h.live_iff id).mpr hrealtime
  have hconnections := closeConnection_connections hlive reason
  have hnone := closeConnection_realtime hlive reason
  have hstate : (state.closeConnection id reason).connectionState = .disconnected := by
    rw [closeConnection_of_live hlive, onDisconnect_connectionState]
  refine ⟨fun id' => ?_, ?_, fun hc => ?_, fun hne => ?_, ?_, fun _ _ _ => hstate, ?_⟩
  · rw [isLive_of_closed hconnections, hnone]
    refine iff_of_false ?_ nofun
    split_ifs with hid
    · exact not_false
    · rw [h.live_iff, hrealtime]
      exact fun heq => hid (Option.some.inj heq)
  · exact iff_of_false (by rw [online, hstate]; exact Bool.false_ne_true) fun hne => hne hnone
  · rw [connected_eq_false hstate] at hc
    cases hc
  · rw [closeConnection_of_live hlive, onDisconnect_requestCBHash] at hne
    exact absurd rfl hne
  · rw [closeConnection_of_live hlive]
    rcases onDisconnect_retryHelper { state with
        connections := state.connections.modify id fun connection => connection.close reason } with
      hretry | ⟨forceRefresh, hretry⟩
    · rw [hretry]
      exact h.scheduled
    · rw [hretry]
      exact h.scheduled.retry forceRefresh
  · rw [closeConnection_of_live hlive, onDisconnect_unconnectedSend]
    exact h.unconnectedSend

/-- All moves keep the link, except that a connection that is held is forgotten. -/
theorem move (h : state.Linked) (hmay : ¬ may .failsHeld) (hmove : Move may state state') : state'.Linked := by
  cases hmove with
  | sends hsends => exact h.sends hsends
  | schedule hstate => exact h.tryScheduleReconnect hstate
  | cancelRetry =>
      exact ⟨h.live_iff, h.online_iff, h.connected, h.requests, h.scheduled.cancel,
        fun task block htask => absurd htask (FIRRetryHelper.tasks_cancel h.scheduled task block),
        h.unconnectedSend⟩
  | disconnected hfails => exact h.disconnected (by_contra fun hne => hmay (hfails hne))
  | fetch task forceRefresh retryHelper hwake => exact h.fetch hwake
  | opens token result hstate => exact h.opens token result hstate
  | ready id hrealtime hstate => exact h.ready hrealtime hstate
  | becomes connectionState hstate hrealtime hready => exact h.becomes hstate hrealtime hready
  | forget number =>
      refine h.of_stateOf rfl rfl (fun _ => rfl) rfl (fun hne => h.requests fun hnil => hne ?_) rfl
      simp only [hnil, remove_nil]
  | close id reason hrealtime => exact h.closeConnection hrealtime reason
  | webSocket id update => exact h.of_stateOf rfl rfl (stateOf_modify _ rfl fun _ => rfl) rfl h.requests rfl
  | conn id => exact h.of_stateOf rfl rfl (stateOf_modify _ rfl fun _ => rfl) rfl h.requests rfl
  | addGet => exact h.of_stateOf rfl rfl (fun _ => rfl) rfl h.requests rfl
  | resumeGet => exact h.of_stateOf rfl rfl (fun _ => rfl) rfl h.requests rfl
  | forgetGet => exact h.of_stateOf rfl rfl (fun _ => rfl) rfl h.requests rfl

theorem moves (h : state.Linked) (hmay : ¬ may .failsHeld) (hmoves : Moves may state state') : state'.Linked := by
  induction hmoves with
  | refl => exact h
  | tail _ hmove ih => exact ih.move hmay hmove

theorem empty : Linked ({} : FPersistentConnection K V A) where
  live_iff := fun id => iff_of_false (by simp [isLive]) nofun
  online_iff := iff_of_false (by simp [online]) fun hne => hne rfl
  connected := fun hc => nomatch hc
  requests := fun hne => absurd rfl hne
  scheduled := fun task block htask => by simp at htask
  waiting := fun _ _ _ => rfl
  unconnectedSend := rfl

end Linked

section Runs

variable [DatabaseValue V]
variable (wire : WireFormat K A) {event : Event K V A}

theorem Linked.handle (h : state.Linked) (hevent : state.failsWhileHeld event = false) :
    (state.handle wire event).Linked :=
  h.moves (fun hfails => by rw [risks, hevent] at hfails; cases hfails) (moves_handle wire h.toHeld event)

theorem run_isSome (state : FPersistentConnection K V A) (events : List (Event K V A)) :
    (run (step wire) state events).isSome = true := by
  induction events generalizing state with
  | nil => rfl
  | cons event events ih => exact ih (state.handle wire event)

/-- Where a token fetch fails while a connection is held, the client is offline with a live connection. -/
theorem not_lifeCycle_of_failsWhileHeld (h : state.Held) (hevent : state.failsWhileHeld event = true) :
    ¬ (state.handle wire event).LifeCycle := by
  cases event with
  | tokenFailed attempt =>
      obtain ⟨hfetching, hheld⟩ := Bool.and_eq_true_iff.mp hevent
      obtain ⟨id, hid⟩ := Option.isSome_iff_exists.mp hheld
      have hfailed : state.handle wire (.tokenFailed attempt) = state.tokenFailed attempt := if_pos hfetching
      obtain ⟨hstate, hrealtime, hconnections⟩ :=
        tryScheduleReconnect_fields { state.endFetch attempt with connectionState := .disconnected }
      rw [hfailed]
      intro hcycle
      have honline : (state.tokenFailed attempt).online = true := by
        refine hcycle.online_iff.mpr ⟨id, hrealtime.trans hid, ?_⟩
        rw [isLive, tokenFailed, hconnections]
        exact h.live id hid
      rw [online, tokenFailed, hstate] at honline
      cases honline
  | _ => cases hevent

/-- The life cycle is kept in all states of a run exactly if no token fetch fails while a connection is
held. -/
theorem lifeCycle_run_iff (wire : WireFormat K A) (events : List (Event K V A)) :
    AllSteps (step wire) (fun state event => state.failsWhileHeld event = false) {} events ↔
      ∀ before, before <+: events → ∀ state ∈ run (step wire) {} before, state.LifeCycle := by
  refine allSteps_iff_forall_law (fun state event h hevent state' hstate' => ?_)
    (fun _ => Linked.lifeCycle) (fun state event h state' hstate' hcycle => ?_) Linked.empty ?_
  · cases hstate'
    exact h.handle wire hevent
  · cases hstate'
    by_contra hfails
    exact not_lifeCycle_of_failsWhileHeld wire h.toHeld (Bool.eq_true_of_not_eq_false hfails) hcycle
  · exact run_isSome wire {} events

/-- A wire format in which a single letter stands for the handshake. -/
def handshakeFormat : WireFormat String Unit where
  decode := fun text => if text = ['h'] then some (.control (.hello 0 "session")) else none
  urlHasHost := fun _ => true

/-- The client is interrupted and resumed while the first attempt waits for its token. The second attempt
connects, and then the first one fails. -/
def lateFailureRun : List (Event String Int Unit) :=
  [.resumeForReason "waiting_for_open", .retryTask 0, .interruptForReason "repo_interrupt",
    .resumeForReason "repo_interrupt", .retryTask 1, .tokenFetched 2 none .connected, .tokenFailed 1]

theorem lifeCycle_fails_lateFailure :
    ¬∀ (wire : WireFormat String Unit) (events : List (Event String Int Unit))
      (state : FPersistentConnection String Int Unit),
      run (step wire) {} events = some state → state.LifeCycle := by
  intro hall
  have hbad : (run (step handshakeFormat) {} lateFailureRun).any (fun state =>
      decide (state.realtime = some 0) && state.isLive 0 && !state.online) = true := by decide
  obtain ⟨state, hrun, hstate⟩ := (Option.any_eq_true _ _).mp hbad
  obtain ⟨⟨hrealtime, hlive⟩, hoffline⟩ : (state.realtime = some 0 ∧ state.isLive 0 = true) ∧
      state.online = false := by simpa using hstate
  have honline := (hall _ lateFailureRun state hrun).online_iff.mpr ⟨0, hrealtime, hlive⟩
  rw [hoffline] at honline
  cases honline

end Runs

end FPersistentConnection

end FirebaseSwift.Database
