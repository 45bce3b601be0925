import Mathlib.Logic.Relation
import FirebaseSwift.Database.ConnectionRequests

/-! What an event can do to the persistent connection, as a sequence of small moves. Some moves are risks:
they are made only by certain events in certain states, which are named here. Every connection that is
held stays live through all of them. -/

namespace FirebaseSwift.Database

open SortedDictionary

variable {K V A : Type} [DatabaseKey K]

/-! ### Risks -/

/-- Moves that only some events make. -/
inductive Risk
  | failsHeld
  | drops
  | forgetsGet
  | webSocket
  deriving DecidableEq

/-- A response decides whether the server accepts a token. -/
def RequestCallback.answersToken : RequestCallback K V → Bool
  | .auth _ => true
  | .appCheck => true
  | _ => false

namespace FPersistentConnection

/-- A message makes the client close the connection it comes from. -/
def messageDrops (self : FPersistentConnection K V A) : ServerMessage (DataMessage K A) → Bool
  | .control (.shutdown _) => true
  | .control (.reset _) => true
  | .data (.push (.authRevoked _ _)) => true
  | .data (.response number body) =>
      (get number self.requestCBHash).any RequestCallback.answersToken &&
        decide (body.bind Response.status ≠ some "ok")
  | _ => false

theorem rejected_of_messageDrops {self : FPersistentConnection K V A} {number : Nat} {body : Option (Response A)}
    (h : self.messageDrops (.data (.response number body)) = true) :
    ∃ callback, get number self.requestCBHash = some callback ∧ callback.answersToken = true ∧
      body.bind Response.status ≠ some "ok" := by
  obtain ⟨hcallback, hstatus⟩ := Bool.and_eq_true_iff.mp h
  obtain ⟨callback, hfound, hanswers⟩ := (Option.any_eq_true _ _).mp hcallback
  exact ⟨callback, hfound, hanswers, of_decide_eq_true hstatus⟩

/-- A message is the answer to an outstanding get, without a status. -/
def messageForgetsGet (self : FPersistentConnection K V A) : ServerMessage (DataMessage K A) → Bool
  | .data (.response number body) =>
      match get number self.requestCBHash with
      | some (.get index) => (get index self.outstandingGets).isSome && (body.bind Response.status).isNone
      | _ => false
  | _ => false

/-- The job at a position that the web socket of the held connection has. -/
def heldJob (self : FPersistentConnection K V A) (id position : Nat) :
    Option (WebSocketJob × FWebSocketConnection) :=
  if self.realtime = some id then
    (self.connections[id]?).bind fun connection => connection.webSocket.takeJob position
  else
    none

/-- What the connection is told by a job. -/
def jobMessage (wire : WireFormat K A) :
    WebSocketJob × FWebSocketConnection → Option (ServerMessage (DataMessage K A))
  | (.onMessage message, webSocket) => (webSocket.handleIncomingFrame message).2.bind wire.decode
  | _ => none

/-- A job makes the client close the held connection. -/
def jobDrops (wire : WireFormat K A) (self : FPersistentConnection K V A) (id position : Nat) : Bool :=
  (self.heldJob id position).any fun job =>
    (decide (job.1 = .onClose) && !job.2.isClosed) || (jobMessage wire job).any self.messageDrops

/-- The held connection is closed, or another takes its place. -/
def dropsConnection (wire : WireFormat K A) (self : FPersistentConnection K V A) : Event K V A → Bool
  | .interruptForReason _ => self.realtime.isSome
  | .tokenFetched attempt _ _ =>
      self.isFetching attempt &&
        decide (attempt = self.currentFetchTokenAttempt ∧ self.connectionState = .gettingToken) &&
        self.realtime.isSome
  | .connection id (.job position) => self.jobDrops wire id position
  | _ => false

/-- An outstanding get is answered without a status. -/
def forgetsGet (wire : WireFormat K A) (self : FPersistentConnection K V A) : Event K V A → Bool
  | .connection id (.job position) =>
      ((self.heldJob id position).bind (jobMessage wire)).any self.messageForgetsGet
  | _ => false

/-- A token fetch fails while a connection is held. -/
def failsWhileHeld (self : FPersistentConnection K V A) : Event K V A → Bool
  | .tokenFailed attempt => self.isFetching attempt && self.realtime.isSome
  | _ => false

/-- Something happens to one of the connections. -/
def Event.ofConnection : Event K V A → Bool
  | .connection _ _ => true
  | _ => false

/-- The risks of an event. -/
def risks (wire : WireFormat K A) (self : FPersistentConnection K V A) (event : Event K V A) : Risk → Prop
  | .failsHeld => self.failsWhileHeld event = true
  | .drops => self.dropsConnection wire event = true
  | .forgetsGet => self.forgetsGet wire event = true
  | .webSocket => event.ofConnection = true

variable {state state' state'' : FPersistentConnection K V A} {may : Risk → Prop}

/-! ### Moves -/

inductive Move (may : Risk → Prop) (s : FPersistentConnection K V A) : FPersistentConnection K V A → Prop
  | sends {s' : FPersistentConnection K V A} (h : Sends s s') : Move may s s'
  | schedule (hstate : s.connectionState = .disconnected) : Move may s s.tryScheduleReconnect
  | cancelRetry : Move may s { s with retryHelper := s.retryHelper.cancel }
  | disconnected (hmay : s.realtime ≠ none → may .failsHeld) :
      Move may s { s with connectionState := .disconnected }
  | fetch (task : Nat) (forceRefresh : Bool) (retryHelper : FIRRetryHelper Bool)
      (hwake : s.retryHelper.wake task = some (forceRefresh, retryHelper)) :
      Move may s (fetchToken { s with retryHelper } forceRefresh)
  | opens (token : Option String) (result : ConnectResult) (hstate : s.connectionState = .gettingToken)
      (hmay : s.realtime ≠ none → may .drops) : Move may s (s.openNetworkConnection token result)
  | ready (id : Nat) (hrealtime : s.realtime = some id) (hstate : s.stateOf id = some .connecting) :
      Move may s
        { s with connections := s.connections.modify id fun connection => { connection with state := .connected } }
  | becomes (connectionState : ConnectionState)
      (hstate : connectionState = .authenticating ∨ connectionState = .connected)
      (hrealtime : s.realtime ≠ none) (hready : s.requestCBHash ≠ [] ∨ s.CanSend) :
      Move may s { s with connectionState }
  | forget (number : Nat)
      (hget : ∀ index, get number s.requestCBHash = some (.get index) → get index s.outstandingGets = none) :
      Move may s { s with requestCBHash := remove number s.requestCBHash }
  | close (id : Nat) (reason : FDisconnectReason) (hrealtime : s.realtime = some id)
      (hlive : s.isLive id = true) (hmay : may .drops) : Move may s (s.closeConnection id reason)
  | webSocket (id : Nat) (update : FWebSocketConnection → FWebSocketConnection) (hmay : may .webSocket) :
      Move may s (s.updateWebSocket id update)
  | conn (id : Nat) (hmay : may .webSocket) :
      Move may s
        { s with connections := s.connections.modify id fun connection => { connection with conn := false } }
  | addGet (path : FPath K) (params : A) :
      Move may s
        { s with
          getCounter := s.getCounter + 1
          outstandingGets := set (· < ·) s.getCounter { path, params, sent := false } s.outstandingGets }
  | resumeGet (index : Nat) (result : FOutstandingGetResultData A)
      (hget : get index s.outstandingGets ≠ none) :
      Move may s (output { s with outstandingGets := remove index s.outstandingGets } (.get index result))
  | forgetGet (index : Nat) (hmay : may .forgetsGet) :
      Move may s { s with outstandingGets := remove index s.outstandingGets }

/-- Any number of moves. -/
abbrev Moves (may : Risk → Prop) : FPersistentConnection K V A → FPersistentConnection K V A → Prop :=
  Relation.ReflTransGen (Move may)

theorem moves_sends (h : Sends state state') : Moves may state state' := .single (.sends h)

/-! ### Held connections -/

/-- The held connection is live, and there is one where the client thinks that it has connected. -/
structure Held (state : FPersistentConnection K V A) : Prop where
  live : ∀ id, state.realtime = some id → state.isLive id = true
  connected : state.connected = true → state.realtime ≠ none

theorem Held.of_stateOf (h : state.Held) (hrealtime : state'.realtime = state.realtime)
    (hstate : ∀ id, state'.stateOf id = state.stateOf id)
    (hconnected : state'.connected = true → state.realtime ≠ none) : state'.Held where
  live := fun id hid => by
    rw [isLive_iff, hstate id, ← isLive_iff]
    exact h.live id (hrealtime ▸ hid)
  connected := fun hc => hrealtime ▸ hconnected hc

variable {id : Nat}

theorem closeConnection_of_live (hlive : state.isLive id = true) (reason : FDisconnectReason) :
    state.closeConnection id reason =
      onDisconnect { state with connections := state.connections.modify id fun connection => connection.close reason } := by
  rw [closeConnection, if_pos hlive]

theorem closeConnection_of_not_live (hlive : state.isLive id = false) (reason : FDisconnectReason) :
    state.closeConnection id reason = state := by
  rw [closeConnection, hlive, if_neg Bool.false_ne_true]

theorem onDisconnect_connectionState (state : FPersistentConnection K V A) :
    state.onDisconnect.connectionState = .disconnected := by
  simp only [onDisconnect, output, tryScheduleReconnect]
  split_ifs <;> rfl

theorem onDisconnect_realtime (state : FPersistentConnection K V A) : state.onDisconnect.realtime = none := by
  simp only [onDisconnect, output, tryScheduleReconnect]
  split_ifs <;> rfl

theorem onDisconnect_connections (state : FPersistentConnection K V A) :
    state.onDisconnect.connections = state.connections := by
  simp only [onDisconnect, output, tryScheduleReconnect]
  split_ifs <;> rfl

theorem onDisconnect_requestCBHash (state : FPersistentConnection K V A) :
    state.onDisconnect.requestCBHash = [] := by
  simp only [onDisconnect, output, tryScheduleReconnect]
  split_ifs <;> rfl

theorem onDisconnect_unconnectedSend (state : FPersistentConnection K V A) :
    state.onDisconnect.unconnectedSend = state.unconnectedSend := by
  simp only [onDisconnect, output, tryScheduleReconnect]
  split_ifs <;> rfl

theorem onDisconnect_retryHelper (state : FPersistentConnection K V A) :
    state.onDisconnect.retryHelper = state.retryHelper ∨
      ∃ forceRefresh, state.onDisconnect.retryHelper = state.retryHelper.retry forceRefresh := by
  simp only [onDisconnect, output, tryScheduleReconnect]
  split_ifs
  · exact Or.inr ⟨_, rfl⟩
  · exact Or.inl rfl

theorem onDisconnect_outputs (state : FPersistentConnection K V A) : ∃ cancelled : List (Nat × FOutstandingPut K A),
      state.onDisconnect.outputs = state.outputs ++ (cancelled.map (fun entry =>
        .put entry.1 "disconnect" (some "Client was disconnected while running a transaction")) ++
          [.onDisconnect]) := by
  refine ⟨state.outstandingPuts.filter fun entry => entry.2.hash.isSome && entry.2.sent, ?_⟩
  unfold onDisconnect
  extract_lets dropped cleared scheduled
  have hscheduled : scheduled.outputs = cleared.outputs := by
    dsimp only [scheduled, tryScheduleReconnect]
    split_ifs <;> rfl
  exact (congrArg (· ++ [.onDisconnect]) hscheduled).trans (List.append_assoc _ _ _)

theorem keepsGets_onDisconnect (state : FPersistentConnection K V A) : state.KeepsGets state.onDisconnect := by
  obtain ⟨cancelled, houtputs⟩ := state.onDisconnect_outputs
  refine ⟨?_, ?_, resumptions_append houtputs fun index output houtput => ?_⟩
  · simp only [onDisconnect, output, tryScheduleReconnect]
    split_ifs <;> rfl
  · simp only [onDisconnect, output, tryScheduleReconnect]
    split_ifs <;> rfl
  · rcases List.mem_append.mp houtput with houtput | houtput
    · obtain ⟨entry, _, rfl⟩ := List.mem_map.mp houtput
      rfl
    · rw [List.mem_singleton.mp houtput]
      rfl

theorem closeConnection_realtime (hlive : state.isLive id = true) (reason : FDisconnectReason) :
    (state.closeConnection id reason).realtime = none := by
  rw [closeConnection_of_live hlive, onDisconnect_realtime]

theorem closeConnection_connections (hlive : state.isLive id = true) (reason : FDisconnectReason) :
    (state.closeConnection id reason).connections =
      state.connections.modify id fun connection => connection.close reason := by
  rw [closeConnection_of_live hlive, onDisconnect_connections]

/-- A closed connection is not live. -/
theorem isLive_of_closed {id' : Nat} {reason : FDisconnectReason}
    (h : state'.connections = state.connections.modify id fun connection => connection.close reason) :
    state'.isLive id' = if id = id' then false else state.isLive id' := by
  rw [isLive, isLive, h, List.getElem?_modify]
  split_ifs with hid
  · cases state.connections[id']? <;> rfl
  · cases state.connections[id']? <;> rfl

theorem closeRealtime_eq (hrealtime : state.realtime = some id) :
    state.closeRealtime = state.closeConnection id .other := by
  unfold closeRealtime
  rw [hrealtime]

theorem sends_noRealtime (hrealtime : state.realtime = none) : Sends state { state with realtime := none } :=
  .of_keeps ⟨rfl, hrealtime.symm, rfl, rfl, rfl, rfl, rfl⟩ ⟨rfl, rfl, fun _ => rfl⟩

theorem connected_eq_false (h : state.connectionState = .disconnected) : state.connected = false := by
  rw [connected, h]
  rfl

/-- Where nothing is held and the client knows it. -/
theorem held_of_none (hrealtime : state.realtime = none) (hstate : state.connectionState = .disconnected) :
    state.Held where
  live := fun id hid => by rw [hrealtime] at hid; cases hid
  connected := fun hc => by rw [connected_eq_false hstate] at hc; cases hc

theorem held_closeConnection (hlive : state.isLive id = true) (reason : FDisconnectReason) :
    (state.closeConnection id reason).Held := by
  rw [closeConnection_of_live hlive]
  exact held_of_none (onDisconnect_realtime _) (onDisconnect_connectionState _)

theorem tryScheduleReconnect_fields (state : FPersistentConnection K V A) :
    state.tryScheduleReconnect.connectionState = state.connectionState ∧
      state.tryScheduleReconnect.realtime = state.realtime ∧
      state.tryScheduleReconnect.connections = state.connections := by
  unfold tryScheduleReconnect
  split_ifs <;> exact ⟨rfl, rfl, rfl⟩

/-- Once the held connection is connected, requests can be sent on it. -/
theorem canSend_connected (hrealtime : state.realtime = some id)
    {connection : FConnection (ServerRequest K V A)} (hconnection : state.connections[id]? = some connection) :
    CanSend
      { state with
        connections := state.connections.modify id fun connection =>
          { connection with state := .connected } } := by
  refine ⟨id, hrealtime, ?_⟩
  rw [isConnected_iff, stateOf, List.getElem?_modify_eq, hconnection]
  rfl

theorem Held.move (h : state.Held) (hmove : Move may state state') : state'.Held := by
  cases hmove with
  | sends hsends =>
      refine h.of_stateOf hsends.realtime hsends.stateOf fun hc => h.connected ?_
      rw [← hsends.connected, hc]
  | schedule hstate =>
      obtain ⟨hsame, hrealtime, hconnections⟩ := state.tryScheduleReconnect_fields
      refine h.of_stateOf hrealtime (fun id => by rw [stateOf, hconnections]; rfl) fun hc => ?_
      rw [connected_eq_false (hsame.trans hstate)] at hc
      cases hc
  | cancelRetry => exact h.of_stateOf rfl (fun _ => rfl) h.connected
  | disconnected =>
      refine h.of_stateOf rfl (fun _ => rfl) fun hc => ?_
      rw [connected_eq_false rfl] at hc
      cases hc
  | fetch =>
      refine h.of_stateOf rfl (fun _ => rfl) fun hc => ?_
      cases hc
  | opens token result =>
      refine ⟨fun id hid => ?_, fun _ => Option.some_ne_none _⟩
      cases hid
      simp [isLive, openNetworkConnection]
  | ready id hrealtime hstate =>
      refine ⟨fun id' hid => ?_, h.connected⟩
      rw [hrealtime] at hid
      cases hid
      rw [isLive_iff, stateOf, List.getElem?_modify_eq]
      have hlive := isLive_iff.mp (h.live id hrealtime)
      rw [stateOf] at hlive
      cases hfound : state.connections[id]? with
      | none =>
          rw [hfound] at hlive
          obtain ⟨_, ⟨⟩, _⟩ := hlive
      | some connection => exact ⟨_, rfl, by simp⟩
  | becomes connectionState hstate hrealtime => exact h.of_stateOf rfl (fun _ => rfl) fun _ => hrealtime
  | forget number => exact h.of_stateOf rfl (fun _ => rfl) h.connected
  | close id reason _ hlive => exact held_closeConnection hlive reason
  | webSocket id update => exact h.of_stateOf rfl (stateOf_modify _ rfl fun _ => rfl) h.connected
  | conn id => exact h.of_stateOf rfl (stateOf_modify _ rfl fun _ => rfl) h.connected
  | addGet => exact h.of_stateOf rfl (fun _ => rfl) h.connected
  | resumeGet => exact h.of_stateOf rfl (fun _ => rfl) h.connected
  | forgetGet => exact h.of_stateOf rfl (fun _ => rfl) h.connected

theorem Held.moves (h : state.Held) (hmoves : Moves may state state') : state'.Held := by
  induction hmoves with
  | refl => exact h
  | tail _ hmove ih => exact ih.move hmove

theorem held_updateWebSocket (h : state.Held) (id : Nat) (update : FWebSocketConnection → FWebSocketConnection) :
    (state.updateWebSocket id update).Held :=
  h.of_stateOf rfl (stateOf_updateWebSocket state id update) h.connected

/-! ### What the functions do -/

theorem rejectToken_eq (hrealtime : state.realtime = some id) : state.rejectToken =
      closeConnection { state with authToken := none, forceTokenRefreshes := true } id .other :=
  closeRealtime_eq hrealtime

theorem moves_rejectToken (hheld : state.Held) (hrealtime : state.realtime = some id) (hmay : may .drops) :
    Moves may state state.rejectToken := by
  have hsends : Sends state { state with authToken := none, forceTokenRefreshes := true } :=
    .of_keeps ⟨rfl, rfl, rfl, rfl, rfl, rfl, rfl⟩ ⟨rfl, rfl, fun _ => rfl⟩
  rw [rejectToken_eq hrealtime]
  exact (moves_sends hsends).tail (.close id .other hrealtime (hheld.live id hrealtime) hmay)

theorem rejectToken_realtime (hheld : state.Held) (hrealtime : state.realtime = some id) :
    state.rejectToken.realtime = none := by
  have hlive : isLive { state with authToken := none, forceTokenRefreshes := true } id = true :=
    hheld.live id hrealtime
  rw [rejectToken_eq hrealtime, closeConnection_realtime hlive]

theorem moves_interruptForReason (hheld : state.Held) (reason : String)
    (hmay : state.realtime ≠ none → may .drops) : Moves may state (state.interruptForReason reason) := by
  unfold interruptForReason
  extract_lets interrupted closed
  have hinterrupted : Sends state interrupted :=
    .of_keeps ⟨rfl, rfl, rfl, rfl, rfl, rfl, rfl⟩ ⟨rfl, rfl, fun _ => rfl⟩
  have hheld' := hheld.moves (moves_sends hinterrupted : Moves may state interrupted)
  split
  · rename_i id hrealtime
    have hlive := hheld'.live id hrealtime
    have hdrops : may .drops := hmay (hinterrupted.realtime ▸ hrealtime ▸ Option.some_ne_none id)
    have hclosed : closed = interrupted.closeConnection id .other := closeRealtime_eq hrealtime
    have hmoves : Moves may state closed :=
      hclosed ▸ (moves_sends hinterrupted).tail (.close id .other hrealtime hlive hdrops)
    exact hmoves.tail (.sends (sends_noRealtime (hclosed ▸ closeConnection_realtime hlive _)))
  · rename_i hrealtime
    exact ((moves_sends hinterrupted).tail .cancelRetry).tail (.disconnected fun hne => absurd hrealtime hne)

theorem interruptForReason_connections (hrealtime : state.realtime = some id) (hlive : state.isLive id = true)
    (reason : String) : (state.interruptForReason reason).connections =
      state.connections.modify id fun connection => connection.close .other := by
  unfold interruptForReason
  extract_lets interrupted closed
  have hrealtime' : interrupted.realtime = some id := hrealtime
  have hlive' : interrupted.isLive id = true := hlive
  have hclosed : closed = interrupted.closeConnection id .other := closeRealtime_eq hrealtime'
  split
  · exact (congrArg connections hclosed).trans (closeConnection_connections hlive' _)
  · rename_i hnone
    rw [hrealtime'] at hnone
    cases hnone

theorem isLive_onKill (hrealtime : state.realtime = some id) (hlive : state.isLive id = true) :
    state.onKill.isLive id = false := by
  rw [onKill, isLive_of_closed (interruptForReason_connections hrealtime hlive _), if_pos rfl]

theorem moves_resumeForReason (reason : String) : Moves may state (state.resumeForReason reason) := by
  have hsends : Sends state
      { state with interruptReasons := state.interruptReasons.filter (· ≠ reason) } :=
    .of_keeps ⟨rfl, rfl, rfl, rfl, rfl, rfl, rfl⟩ ⟨rfl, rfl, fun _ => rfl⟩
  unfold resumeForReason
  extract_lets resumed
  split_ifs with hresumed
  · exact (moves_sends hsends).tail (.schedule hresumed.2)
  · exact moves_sends hsends

theorem moves_enteringForeground : Moves may state state.enteringForeground := by
  unfold enteringForeground
  split_ifs with hstate
  · exact .single (.schedule hstate)
  · exact .refl

theorem moves_retryTask (task : Nat) : Moves may state (state.retryTask task) := by
  unfold retryTask
  cases hwake : state.retryHelper.wake task with
  | none => exact .refl
  | some woken => exact .single (.fetch task woken.1 woken.2 hwake)

theorem moves_tokenFetched (attempt : Nat) (token : Option String) (result : ConnectResult)
    (hmay : attempt = state.currentFetchTokenAttempt ∧ state.connectionState = .gettingToken →
      state.realtime ≠ none → may .drops) : Moves may state (state.tokenFetched attempt token result) := by
  unfold tokenFetched
  split_ifs with hattempt
  · exact (moves_sends (sends_endFetch attempt)).tail (.opens token result hattempt.2 (hmay hattempt))
  · exact moves_sends (sends_endFetch attempt)

theorem moves_tokenFailed (attempt : Nat) (hmay : state.realtime ≠ none → may .failsHeld) :
    Moves may state (state.tokenFailed attempt) :=
  ((moves_sends (sends_endFetch attempt)).tail (.disconnected hmay)).tail (.schedule rfl)

theorem moves_getTimedOut (index : Nat) : Moves may state (state.getTimedOut index) := by
  unfold getTimedOut
  split_ifs with htimer
  · extract_lets waited
    have hwaited : Sends state waited := .of_keeps ⟨rfl, rfl, rfl, rfl, rfl, rfl, rfl⟩ ⟨rfl, rfl, fun _ => rfl⟩
    cases hfound : get index waited.outstandingGets with
    | none => exact moves_sends hwaited
    | some found =>
        dsimp only
        split_ifs
        · exact moves_sends hwaited
        · exact (moves_sends hwaited).tail (.resumeGet index _ (by rw [hfound]; exact Option.some_ne_none _))
  · exact .refl

/-- The get is resumed before its callback is forgotten. -/
theorem moves_onGetResponse {number index : Nat} (hcallback : get number state.requestCBHash = some (.get index))
    (body : Option (Response A))
    (hmay : get index state.outstandingGets ≠ none → body.bind Response.status = none → may .forgetsGet) :
    Moves may state
      (onGetResponse { state with requestCBHash := remove number state.requestCBHash } index body) := by
  have hgone : ∀ index', get number state.requestCBHash = some (.get index') →
      get index' (remove index state.outstandingGets) = none := by
    intro index' heq
    cases hcallback.symm.trans heq
    exact get_remove_self index state.outstandingGets
  unfold onGetResponse
  extract_lets removed resultData
  cases hfound : get index state.outstandingGets with
  | none =>
      refine .single (.forget number fun index' heq => ?_)
      cases hcallback.symm.trans heq
      exact hfound
  | some found =>
      have hget : get index state.outstandingGets ≠ none := hfound ▸ Option.some_ne_none found
      cases hstatus : body.bind Response.status with
      | none => exact (Relation.ReflTransGen.single (.forgetGet index (hmay hget hstatus))).tail (.forget number hgone)
      | some status =>
          dsimp only
          split_ifs
          · exact (Relation.ReflTransGen.single (.resumeGet index _ hget)).tail (.forget number hgone)
          · exact (Relation.ReflTransGen.single (.resumeGet index _ hget)).tail (.forget number hgone)

theorem moves_restoreAuth (hrealtime : state.realtime ≠ none) (hready : state.CanSend) :
    Moves may state state.restoreAuth := by
  unfold restoreAuth
  split_ifs
  · exact (Relation.ReflTransGen.single (.becomes .connected (Or.inr rfl) hrealtime (Or.inr hready))).tail
      (.sends (sends_restoreState (Or.inl rfl)))
  · exact (Relation.ReflTransGen.single (.becomes .authenticating (Or.inl rfl) hrealtime (Or.inr hready))).tail
      (.sends (sends_sendAuthAndRestoreStateAfterComplete (Or.inl rfl) true))

theorem moves_onReady (hready : state.CanSend) (timestamp : Int) : Moves may state (state.onReady timestamp) := by
  unfold onReady
  extract_lets informed stats informed'
  have hinformed : Sends state informed := sends_output fun _ => rfl
  have hinformed' : Sends state informed' := by
    dsimp only [informed']
    split_ifs
    · exact (hinformed.action (hinformed.ready_iff.mpr (Or.inr hready)) _ _ fun _ => by rintro ⟨⟩).keep
        ⟨rfl, rfl, rfl, rfl, rfl, rfl, rfl⟩ ⟨rfl, rfl, fun _ => rfl⟩
    · exact hinformed
  have hready' := hinformed'.canSend_iff.mpr hready
  obtain ⟨id, hrealtime, _⟩ := hready'
  have hrestored : Moves may state informed'.restoreAuth :=
    (moves_sends hinformed').trans
      (moves_restoreAuth (by rw [hrealtime]; exact Option.some_ne_none _) (hinformed'.canSend_iff.mpr hready))
  exact hrestored.tail (.sends (sends_output fun _ => rfl))

theorem moves_onDataPush (hheld : state.Held) (hrealtime : state.realtime = some id) (push : ServerPush K A)
    (hmay : state.messageDrops (.data (.push push)) = true → may .drops) :
    Moves may state (state.onDataPush push) := by
  unfold onDataPush
  cases push with
  | dataUpdate isMerge path data tagId =>
      dsimp only
      split
      · split
        · exact .refl
        · exact moves_sends (sends_output fun _ => rfl)
      · exact .refl
  | rangeMerge path ranges tagId =>
      cases path with
      | none => exact .refl
      | some path => exact moves_sends (sends_output fun _ => rfl)
  | authRevoked status reason => exact moves_rejectToken hheld hrealtime (hmay rfl)
  | listenCancelled path =>
      cases path with
      | none => exact .refl
      | some path => exact moves_sends (sends_onListenRevoked path)
  | securityDebug message => exact .refl
  | unsupported => exact .refl

/-- The rest of an authentication response, once the client has come to be connected. -/
theorem moves_onAuthResponse (hheld : state'.Held) (hrealtime : state'.realtime = some id)
    (hmoves : Moves may state { state' with connectionState := .connected }) (restore : Bool)
    (body : Option (Response A)) (hmay : body.bind Response.status ≠ some "ok" → may .drops) :
    Moves may state (state'.onAuthResponse restore body) := by
  unfold onAuthResponse
  extract_lets answered rejected
  split_ifs with hok hrestore
  · exact hmoves.tail (.sends (sends_restoreState (Or.inl rfl)))
  · exact hmoves
  · have hanswered : answered.Held :=
      ⟨hheld.live, fun _ => hrealtime ▸ Option.some_ne_none id⟩
    exact (hmoves.trans (moves_rejectToken hanswered hrealtime (hmay hok))).tail
      (.sends (sends_noRealtime (rejectToken_realtime hanswered hrealtime)))

theorem moves_onWebSocketDisconnect (hheld : state.Held) (hrealtime : state.realtime = some id)
    (hdrops : may .drops) (hmay : may .webSocket) : Moves may state (state.onWebSocketDisconnect id) := by
  have hconn : Moves may state
      { state with
        connections := state.connections.modify id fun connection => { connection with conn := false } } :=
    .single (.conn id hmay)
  exact hconn.tail (.close id .other hrealtime ((hheld.moves hconn).live id hrealtime) hdrops)

section Messages

variable [DatabaseValue V]
variable {id : Nat} (wire : WireFormat K A) {job : WebSocketJob × FWebSocketConnection}

theorem moves_onResponse (hheld : state.Held) (hrealtime : state.realtime = some id) (number : Nat)
    (body : Option (Response A)) (hdrops : state.messageDrops (.data (.response number body)) = true → may .drops)
    (hforgets : state.messageForgetsGet (.data (.response number body)) = true → may .forgetsGet) :
    Moves may state (state.onDataMessage (.response number body)) := by
  unfold onDataMessage
  dsimp only
  cases hcallback : get number state.requestCBHash with
  | none => exact .refl
  | some callback =>
      have hne : state.realtime ≠ none := hrealtime ▸ Option.some_ne_none id
      have hforget : (∀ index, callback ≠ .get index) →
          Moves may state { state with requestCBHash := remove number state.requestCBHash } := fun hother =>
        .single (.forget number fun index heq => absurd (Option.some.inj (hcallback.symm.trans heq)) (hother index))
      have hheld' : Held { state with requestCBHash := remove number state.requestCBHash } :=
        hheld.of_stateOf rfl (fun _ => rfl) hheld.connected
      cases callback with
      | auth restore =>
          have hrequests : state.requestCBHash ≠ [] := by
            intro hnil
            rw [hnil] at hcallback
            cases hcallback
          have hanswered := (Relation.ReflTransGen.single
            (Move.becomes .connected (Or.inr rfl) hne (Or.inl hrequests) : Move may state _)).tail
            (.forget number fun index heq => by cases hcallback.symm.trans heq)
          refine moves_onAuthResponse hheld' hrealtime hanswered restore body fun hok => hdrops ?_
          simp [messageDrops, hcallback, RequestCallback.answersToken, hok]
      | onDisconnect number => exact (hforget (by simp)).tail (.sends (sends_onDisconnectResponse number body))
      | put index => exact (hforget (by simp)).tail (.sends (sends_onPutResponse index body))
      | get index =>
          refine moves_onGetResponse hcallback body fun hget hstatus => hforgets ?_
          simp only [messageForgetsGet, hcallback, hstatus, Option.isNone_none, Bool.and_true]
          exact Option.isSome_iff_ne_none.mpr hget
      | listen listenSpec => exact (hforget (by simp)).tail (.sends (sends_onListenResponse listenSpec body))
      | unlisten => exact hforget (by simp)
      | stats => exact hforget (by simp)
      | appCheck =>
          simp only [runCallback, onAppCheckResponse]
          split_ifs with hok
          · exact hforget (by simp)
          · refine (hforget (by simp)).trans (moves_rejectToken hheld' hrealtime (hdrops ?_))
            simp [messageDrops, hcallback, RequestCallback.answersToken, hok]

theorem moves_onDataMessage (hheld : state.Held) (hrealtime : state.realtime = some id)
    (message : DataMessage K A) (hdrops : state.messageDrops (.data message) = true → may .drops)
    (hforgets : state.messageForgetsGet (.data message) = true → may .forgetsGet) :
    Moves may state (state.onDataMessage message) := by
  cases message with
  | response number body => exact moves_onResponse hheld hrealtime number body hdrops hforgets
  | error text => exact .refl
  | push push => exact moves_onDataPush hheld hrealtime push hdrops
  | other => exact .refl

theorem moves_onMessage (hheld : state.Held) (hrealtime : state.realtime = some id)
    (message : ServerMessage (DataMessage K A)) (hdrops : state.messageDrops message = true → may .drops)
    (hforgets : state.messageForgetsGet message = true → may .forgetsGet) :
    Moves may state (state.onMessage wire id message) := by
  have hlive := hheld.live id hrealtime
  unfold onMessage
  split
  · exact moves_onDataMessage hheld hrealtime _ hdrops hforgets
  · -- the connection is closed before the shutdown closes it again
    have hkilled : Moves may state state.onKill := moves_interruptForReason hheld _ fun _ => hdrops rfl
    rw [closeConnection_of_not_live (isLive_onKill hrealtime hlive)]
    exact hkilled
  · split_ifs
    · exact .single (.close id .serverReset hrealtime hlive (hdrops rfl))
    · exact .single (.close id .other hrealtime hlive (hdrops rfl))
  · split
    · exact .refl
    · rename_i connection hconnection
      split_ifs with hconnecting
      · have hstate : state.stateOf id = some .connecting := by
          rw [stateOf, hconnection, Option.map_some, hconnecting]
        exact (Relation.ReflTransGen.single (.ready id hrealtime hstate)).trans
          (moves_onReady (canSend_connected hrealtime hconnection) _)
      · exact .refl
  · exact .refl
  · exact .refl

/-! ### Events -/

theorem moves_runJob (hheld : state.Held) (id : Nat) (webSocket : FWebSocketConnection) (job : WebSocketJob)
    (hmay : may .webSocket)
    (hdrops : state.realtime = some id → (decide (job = .onClose) && !webSocket.isClosed) = true → may .drops)
    (hmessage : state.realtime = some id → ∀ message ∈ jobMessage wire (job, webSocket),
      (state.messageDrops message = true → may .drops) ∧
        (state.messageForgetsGet message = true → may .forgetsGet)) :
    Moves may state (state.runJob wire id webSocket job) := by
  unfold runJob
  cases job with
  | onOpen => exact .single (.webSocket id _ hmay)
  | onMessage message =>
      dsimp only
      have hhandled : Moves may state
          (state.updateWebSocket id fun _ => (webSocket.handleIncomingFrame message).1) :=
        .single (.webSocket id _ hmay)
      split
      · rename_i message' hdecoded
        split_ifs with hrealtime
        · obtain ⟨hmessageDrops, hmessageForgets⟩ := hmessage hrealtime message' hdecoded
          exact hhandled.trans
            (moves_onMessage wire (hheld.moves hhandled) hrealtime message' hmessageDrops hmessageForgets)
        · exact hhandled
      · exact hhandled
  | onClose =>
      extract_lets closed told
      have hclosed : Moves may state closed := .single (.webSocket id _ hmay)
      have htold : Moves may state told := by
        dsimp only [told]
        split_ifs with hrealtime
        · exact hclosed.trans (moves_onWebSocketDisconnect (hheld.moves hclosed) hrealtime.2
            (hdrops hrealtime.2 (by simpa using hrealtime.1)) hmay)
        · exact hclosed
      exact htold.tail (.webSocket id _ hmay)

theorem moves_connectionEvent (hheld : state.Held) (id : Nat) (event : ConnectionEvent) :
    Moves (state.risks wire (.connection id event)) state (state.connectionEvent wire id event) := by
  unfold connectionEvent
  split
  · exact .refl
  · rename_i connection hconnection
    split
    · exact .single (.webSocket id _ rfl)
    · rename_i position
      split
      · exact .refl
      · rename_i job webSocket htaken
        have htake : Moves (state.risks wire (.connection id (.job position))) state
            (state.updateWebSocket id fun _ => webSocket) := .single (.webSocket id _ rfl)
        have hheldJob : state.realtime = some id → state.heldJob id position = some (job, webSocket) := by
          intro hrealtime
          rw [heldJob, if_pos hrealtime, hconnection]
          exact htaken
        refine htake.trans (moves_runJob wire (hheld.moves htake) id webSocket job rfl ?_ ?_)
        · intro hrealtime hcloses
          simp only [risks, dropsConnection, jobDrops, hheldJob hrealtime, Option.any_some, hcloses, Bool.true_or]
        · intro hrealtime message hdecoded
          refine ⟨fun hdrops => ?_, fun hforgets => ?_⟩
          · simp only [risks, dropsConnection, jobDrops, hheldJob hrealtime, Option.any_some,
              Option.mem_def.mp hdecoded]
            rw [Bool.or_eq_true]
            exact Or.inr hdrops
          · simp only [risks, forgetsGet, hheldJob hrealtime, Option.bind_some, Option.mem_def.mp hdecoded,
              Option.any_some]
            exact hforgets
    · split_ifs
      · exact .single (.webSocket id _ rfl)
      · exact .refl

/-- The job of the held connection is run on what remains of its web socket connection. -/
theorem handle_heldJob {position : Nat} (hjob : state.heldJob id position = some job) : state.realtime = some id ∧
      state.handle wire (.connection id (.job position)) =
        (state.updateWebSocket id fun _ => job.2).runJob wire id job.2 job.1 := by
  rw [heldJob] at hjob
  split_ifs at hjob with hrealtime
  obtain ⟨connection, hconnection, htaken⟩ := Option.bind_eq_some_iff.mp hjob
  refine ⟨hrealtime, ?_⟩
  simp only [handle, connectionEvent, hconnection, htaken]

/-- What a job leads to that brings a message to the held connection. -/
theorem handle_jobMessage {position : Nat} (hjob : state.heldJob id position = some job)
    {message : ServerMessage (DataMessage K A)} (hmessage : jobMessage wire job = some message) :
    ∃ webSocket, state.handle wire (.connection id (.job position)) =
      (state.updateWebSocket id fun _ => webSocket).onMessage wire id message := by
  obtain ⟨hrealtime, hhandle⟩ := handle_heldJob wire hjob
  obtain ⟨job, webSocket⟩ := job
  cases job with
  | onMessage text =>
      rw [jobMessage] at hmessage
      refine ⟨(webSocket.handleIncomingFrame text).1, hhandle.trans ?_⟩
      have hrealtime' : (state.updateWebSocket id fun _ => webSocket).realtime = some id := hrealtime
      simp only [runJob, hmessage, if_pos hrealtime']
      congr 1
      simp only [updateWebSocket, List.modify_modify_eq]
      rfl
  | _ => cases hmessage

/-- An event makes only moves that it may make. -/
theorem moves_handle (hheld : state.Held) (event : Event K V A) :
    Moves (state.risks wire event) state (state.handle wire event) := by
  cases event with
  | listen query tagId => exact moves_sends (sends_listen query tagId)
  | unlisten query tagId => exact moves_sends (sends_unlisten query tagId)
  | putData path data hash => exact moves_sends (sends_putInternal _)
  | mergeData path data => exact moves_sends (sends_putInternal _)
  | onDisconnectData action path data => exact moves_sends (sends_onDisconnectData action path data)
  | getDataAtPath path params =>
      exact (Relation.ReflTransGen.single (.addGet path params)).tail (.sends (sends_getDataAtPath path params))
  | getTimedOut index => exact moves_getTimedOut index
  | refreshAuthToken token => exact moves_sends (sends_refreshAuthToken token)
  | refreshAppCheckToken token => exact moves_sends (sends_refreshAppCheckToken token)
  | purgeOutstandingWrites acknowledging cancelling =>
      exact moves_sends (sends_purgeOutstandingWrites acknowledging cancelling)
  | interruptForReason reason =>
      exact moves_interruptForReason hheld reason fun hne => Option.isSome_iff_ne_none.mpr hne
  | resumeForReason reason => exact moves_resumeForReason reason
  | enteringForeground => exact moves_enteringForeground
  | retryTask task => exact moves_retryTask task
  | tokenFetched attempt token result =>
      simp only [handle]
      split_ifs with hfetching
      · refine moves_tokenFetched attempt token result fun hlatest hne => ?_
        simp only [risks, dropsConnection, hfetching, decide_eq_true hlatest, Bool.and_self, Bool.true_and]
        exact Option.isSome_iff_ne_none.mpr hne
      · exact .refl
  | tokenFailed attempt =>
      simp only [handle]
      split_ifs with hfetching
      · refine moves_tokenFailed attempt fun hne => ?_
        simp only [risks, failsWhileHeld, hfetching, Bool.true_and]
        exact Option.isSome_iff_ne_none.mpr hne
      · exact .refl
  | connection id event => exact moves_connectionEvent wire hheld id event

theorem Held.handle (h : state.Held) (event : Event K V A) : (state.handle wire event).Held :=
  h.moves (moves_handle wire h event)

end Messages

end FPersistentConnection

end FirebaseSwift.Database
