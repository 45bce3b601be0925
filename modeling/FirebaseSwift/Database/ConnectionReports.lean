import FirebaseSwift.Database.ConnectionLifeCycle

/-! How the end of a connection is reported. The delegate hears of it when the client closes the connection
and when a close frame or an unknown frame arrives; a web socket that never opens, and a channel that
closes otherwise, are reported to nobody. In a run in which no connection ends like that while it is not
yet closed, each end is reported exactly once, and requests are only given to connected connections. -/

namespace FirebaseSwift.Database

open SortedDictionary StepRuns

variable {K V A : Type} [DatabaseKey K]

/-! ### One connection -/

/-- The channel closes, and the handler passes nothing on. -/
def ChannelEvent.closesSilently (channel : Channel) : ChannelEvent → Bool
  | .upgradeRefused => decide (channel = .http)
  | .channelInactive => decide (channel = .http ∨ channel = .webSocket)
  | _ => false

/-- The web socket has ended, or is about to. -/
def FWebSocketConnection.Ended (webSocket : FWebSocketConnection) : Prop :=
  webSocket.timedOut = true ∨ webSocket.channel = .closed ∨ webSocket.closeRequested = true

variable (webSocket : FWebSocketConnection)

theorem FWebSocketConnection.appendFrame_eq (message : List Char) :
    ∃ totalFrames frame, (webSocket.appendFrame message).1 = { webSocket with totalFrames, frame } := by
  simp only [appendFrame]
  split_ifs <;> exact ⟨_, _, rfl⟩

/-- A frame changes only what is received so far. -/
theorem FWebSocketConnection.handleIncomingFrame_eq (message : List Char) :
    ∃ totalFrames frame, (webSocket.handleIncomingFrame message).1 = { webSocket with totalFrames, frame } := by
  by_cases hbuffering : webSocket.buffering = true
  · rw [handleIncomingFrame, if_pos hbuffering]
    exact webSocket.appendFrame_eq message
  · rw [handleIncomingFrame, if_neg hbuffering]
    by_cases hcount : message.length ≤ 4 ∧ 0 < (parseInt message).getD 0
    · rw [extractFrameCount, if_pos hcount]
      exact ⟨_, _, rfl⟩
    · rw [extractFrameCount, if_neg hcount]
      obtain ⟨totalFrames, frame, hframe⟩ := (webSocket.handleNewFrameCount 1).appendFrame_eq message
      exact ⟨totalFrames, frame, hframe⟩

namespace FConnection

variable {R : Type} {connection connection' : FConnection R}

/-- A connection that is closed, or will be by a job that waits. -/
def endsReported (self : FConnection R) : Bool :=
  decide (self.state = .disconnected) || decide (WebSocketJob.onClose ∈ self.webSocket.jobs)

/-- The delegate has been told exactly if the connection is closed, and what ends the web socket closes
the connection. -/
structure Reported (connection : FConnection R) : Prop where
  told : connection.state = .disconnected → connection.disconnects.length = 1
  untold : connection.state ≠ .disconnected → connection.disconnects = []
  isClosed : connection.webSocket.isClosed = true → connection.state = .disconnected
  ended : connection.webSocket.Ended → connection.endsReported = true

theorem endsReported_of_disconnected (h : connection.state = .disconnected) : connection.endsReported = true := by
  rw [endsReported, decide_eq_true h, Bool.true_or]

theorem reported_of_disconnected (hstate : connection.state = .disconnected)
    (hdisconnects : connection.disconnects.length = 1) : connection.Reported :=
  ⟨fun _ => hdisconnects, fun hne => absurd hstate hne, fun _ => hstate,
    fun _ => endsReported_of_disconnected hstate⟩

theorem Reported.close (h : connection.Reported) (hlive : connection.state ≠ .disconnected)
    (reason : FDisconnectReason) : (connection.close reason).Reported := by
  refine reported_of_disconnected rfl ?_
  rw [FConnection.close]
  dsimp only
  rw [h.untold hlive]
  rfl

/-- Where the web socket and what was told stay. -/
theorem Reported.of_same (h : connection.Reported)
    (hstate : connection'.state = .disconnected ↔ connection.state = .disconnected)
    (hwebSocket : connection'.webSocket = connection.webSocket)
    (hdisconnects : connection'.disconnects = connection.disconnects) : connection'.Reported := by
  obtain ⟨told, untold, isClosed, ended⟩ := h
  have hends : connection'.endsReported = connection.endsReported := by
    simp only [endsReported, hstate, hwebSocket]
  constructor <;> simpa only [ne_eq, hstate, hwebSocket, hdisconnects, hends]

/-- Where only the web socket changes. -/
theorem Reported.of_webSocket (h : connection.Reported) (webSocket : FWebSocketConnection)
    (hisClosed : webSocket.isClosed = connection.webSocket.isClosed)
    (hended : webSocket.Ended → ({ connection with webSocket } : FConnection R).endsReported = true) :
    ({ connection with webSocket } : FConnection R).Reported :=
  ⟨h.told, h.untold, fun hclosed => h.isClosed (hisClosed ▸ hclosed), hended⟩

theorem reported_opened (result : ConnectResult) : ({ webSocket := .opened result } : FConnection R).Reported := by
  refine ⟨nofun, fun _ => rfl, nofun, fun hended => ?_⟩
  rcases hended with htimedOut | hclosed | hrequested
  · cases htimedOut
  · cases result <;> cases hclosed
  · cases hrequested

variable {webSocket : FWebSocketConnection}

/-- A job that waits longer, or one more, reports the end as before. -/
theorem endsReported_of_subset (h : connection.endsReported = true)
    (hjobs : .onClose ∈ connection.webSocket.jobs → .onClose ∈ webSocket.jobs) :
    ({ connection with webSocket } : FConnection R).endsReported = true := by
  rw [endsReported, Bool.or_eq_true, decide_eq_true_eq, decide_eq_true_eq] at h ⊢
  exact h.imp_right hjobs

theorem endsReported_of_onClose (hjobs : .onClose ∈ webSocket.jobs) :
    ({ connection with webSocket } : FConnection R).endsReported = true := by
  rw [endsReported, decide_eq_true hjobs, Bool.or_true]

/-- The channel's handlers, where the channel does not close silently. -/
theorem Reported.handle (h : connection.Reported) (event : ChannelEvent)
    (hevent : event.closesSilently connection.webSocket.channel = true → connection.endsReported = true) :
    ({ connection with webSocket := connection.webSocket.handle event } : FConnection R).Reported := by
  refine h.of_webSocket _ ?_ fun hended => ?_
  · cases event <;> simp only [FWebSocketConnection.handle] <;> split_ifs <;> rfl
  · cases event with
    | handlerAdded =>
        simp only [FWebSocketConnection.handle] at hended ⊢
        split_ifs at hended ⊢ with hhttp
        · refine endsReported_of_subset (h.ended ?_) fun hjob => List.mem_append_left _ hjob
          exact hended.imp_right (Or.imp_left fun hclosed => nomatch hclosed)
        · exact h.ended hended
    | upgradeRefused =>
        simp only [FWebSocketConnection.handle] at hended ⊢
        split_ifs at hended ⊢ with hhttp
        · exact endsReported_of_subset (hevent (decide_eq_true hhttp)) fun hjob => hjob
        · exact h.ended hended
    | text message =>
        simp only [FWebSocketConnection.handle] at hended ⊢
        split_ifs at hended ⊢
        · exact endsReported_of_subset (h.ended hended) fun hjob => List.mem_append_left _ hjob
        · exact h.ended hended
    | connectionClose =>
        simp only [FWebSocketConnection.handle] at hended ⊢
        split_ifs at hended ⊢
        · exact endsReported_of_onClose (List.mem_append_right _ (List.mem_singleton_self _))
        · exact h.ended hended
    | unknownOpcode =>
        simp only [FWebSocketConnection.handle] at hended ⊢
        split_ifs at hended ⊢
        · exact endsReported_of_onClose (List.mem_append_right _ (List.mem_singleton_self _))
        · exact h.ended hended
    | channelInactive =>
        simp only [FWebSocketConnection.handle] at hended ⊢
        split_ifs at hended ⊢ with hopen
        · exact endsReported_of_subset (hevent (decide_eq_true hopen)) fun hjob => hjob
        · exact h.ended hended
    | executeClose =>
        simp only [FWebSocketConnection.handle] at hended ⊢
        split_ifs at hended ⊢ with hrequested
        · exact endsReported_of_subset (h.ended (Or.inr (Or.inr hrequested.1))) fun hjob => hjob
        · exact h.ended hended

/-- The connect timeout, where a web socket that never opened is reported otherwise. -/
theorem Reported.connectTimeout (h : connection.Reported)
    (htimeout : connection.webSocket.everConnected = false → connection.endsReported = true) : ({ connection with
      webSocket := FWebSocketConnection.closeIfNeverConnected
        { connection.webSocket with connectTimeout := false } } : FConnection R).Reported := by
  unfold FWebSocketConnection.closeIfNeverConnected FWebSocketConnection.closeClient
  split_ifs with hconnected hcontext
  · exact h.of_webSocket _ rfl fun hended => endsReported_of_subset (h.ended hended) fun hjob => hjob
  all_goals
    have hends := htimeout (Bool.eq_false_of_not_eq_true hconnected)
    exact h.of_webSocket _ rfl fun _ => endsReported_of_subset hends fun hjob => hjob

/-- A job that does not tell of the end is taken. -/
theorem Reported.takeJob (h : connection.Reported) {position : Nat} {job : WebSocketJob}
    (htaken : connection.webSocket.takeJob position = some (job, webSocket)) (hjob : job ≠ .onClose) :
    ({ connection with webSocket } : FConnection R).Reported := by
  rw [FWebSocketConnection.takeJob, Option.map_eq_some_iff] at htaken
  obtain ⟨taken, hfound, heq⟩ := htaken
  cases heq
  refine h.of_webSocket _ rfl fun hended => endsReported_of_subset (h.ended hended) fun hmem => ?_
  obtain ⟨position', hlt, hposition'⟩ := List.getElem_of_mem hmem
  refine List.mem_eraseIdx_iff_getElem?.mpr ⟨position', ?_, ?_⟩
  · rintro rfl
    rw [List.getElem?_eq_getElem hlt, hposition'] at hfound
    exact hjob (Option.some.inj hfound).symm
  · rw [List.getElem?_eq_getElem hlt, hposition']

end FConnection

namespace FPersistentConnection

variable {state state' : FPersistentConnection K V A} {may : Risk → Prop}

/-! ### All connections -/

/-- Every connection made so far is reported. -/
def AllReported (state : FPersistentConnection K V A) : Prop :=
  ∀ (id : Nat) (connection : FConnection (ServerRequest K V A)),
    state.connections[id]? = some connection → connection.Reported

theorem AllReported.of_connections (h : state.AllReported) (hconnections : state'.connections = state.connections) :
    state'.AllReported := fun id connection hfound => h id connection (hconnections ▸ hfound)

variable {id : Nat} {update : FConnection (ServerRequest K V A) → FConnection (ServerRequest K V A)}

theorem allReported_modify (hconnections : state'.connections = state.connections.modify id update)
    (hother : ∀ (id' : Nat) (connection : FConnection (ServerRequest K V A)), id' ≠ id →
      state.connections[id']? = some connection → connection.Reported)
    (hid : ∀ connection, state.connections[id]? = some connection → (update connection).Reported) :
    state'.AllReported := by
  intro id' connection hfound
  rw [hconnections, List.getElem?_modify, Option.map_eq_map, Option.map_eq_some_iff] at hfound
  obtain ⟨connection', hfound', rfl⟩ := hfound
  split_ifs with heq
  · exact hid connection' (heq ▸ hfound')
  · exact hother id' connection' (Ne.symm heq) hfound'

theorem AllReported.modify (h : state.AllReported)
    (hconnections : state'.connections = state.connections.modify id update)
    (hid : ∀ connection, state.connections[id]? = some connection → (update connection).Reported) :
    state'.AllReported :=
  allReported_modify hconnections (fun id' connection _ hfound => h id' connection hfound) hid

theorem AllReported.sendAction (h : state.AllReported) (request : ServerRequest K V A)
    (callback : Option (RequestCallback K V)) : (state.sendAction request callback).AllReported := by
  unfold FPersistentConnection.sendAction
  split
  · exact h
  · rename_i id hrealtime
    exact h.modify rfl fun connection hfound => (h id connection hfound).of_same Iff.rfl rfl rfl

theorem AllReported.sends (h : state.AllReported) (hsends : Sends state state') : state'.AllReported := by
  induction hsends with
  | refl => exact h
  | keep _ hkeeps _ ih => exact ih.of_connections hkeeps.connections
  | action _ _ request callback _ ih => exact ih.sendAction request callback
  | @get sent _ _ index ih =>
      rcases sendGet_eq sent index with heq | ⟨gets, request, heq⟩
      · rw [heq]
        exact ih
      · rw [heq]
        have hmarked : AllReported { sent with outstandingGets := gets } := ih
        exact hmarked.sendAction _ _

theorem AllReported.closeConnection (h : state.AllReported) (hlive : state.isLive id = true)
    (reason : FDisconnectReason) : (state.closeConnection id reason).AllReported := by
  refine h.modify (closeConnection_connections hlive reason) fun connection hfound => ?_
  rw [isLive, hfound] at hlive
  exact (h id connection hfound).close (of_decide_eq_true hlive) reason

/-- Moves other than those of a web socket keep all connections reported. -/
theorem AllReported.move (h : state.AllReported) (hmay : ¬ may .webSocket) (hmove : Move may state state') :
    state'.AllReported := by
  cases hmove with
  | sends hsends => exact h.sends hsends
  | schedule => exact h.of_connections state.tryScheduleReconnect_fields.2.2
  | cancelRetry => exact h
  | disconnected => exact h
  | fetch => exact h
  | opens token result =>
      intro id connection hfound
      rw [openNetworkConnection, List.getElem?_append] at hfound
      split_ifs at hfound
      · exact h id connection hfound
      · have hmem := List.mem_of_getElem? hfound
        rw [List.mem_singleton.mp hmem]
        exact FConnection.reported_opened result
  | ready id hrealtime hstate =>
      refine h.modify rfl fun connection hfound => (h id connection hfound).of_same ?_ rfl rfl
      rw [stateOf, hfound, Option.map_some] at hstate
      rw [Option.some.inj hstate]
      exact iff_of_false (by simp) (by simp)
  | becomes => exact h
  | forget => exact h
  | close id reason _ hlive => exact h.closeConnection hlive reason
  | webSocket id update hrisk => exact absurd hrisk hmay
  | conn id hrisk => exact absurd hrisk hmay
  | addGet => exact h
  | resumeGet => exact h
  | forgetGet => exact h

theorem AllReported.moves (h : state.AllReported) (hmay : ¬ may .webSocket) (hmoves : Moves may state state') :
    state'.AllReported := by
  induction hmoves with
  | refl => exact h
  | tail _ hmove ih => exact ih.move hmay hmove

theorem onWebSocketDisconnect_connections (hlive : state.isLive id = true) :
    (state.onWebSocketDisconnect id).connections =
      state.connections.modify id fun connection => FConnection.close { connection with conn := false } .other := by
  have hlive' : isLive
      { state with
        connections := state.connections.modify id fun connection => { connection with conn := false } } id =
      true :=
    (isLive_of_stateOf (stateOf_modify (fun connection => { connection with conn := false }) rfl
      (fun _ => rfl) id)).trans hlive
  unfold onWebSocketDisconnect
  rw [closeConnection_connections hlive' .other]
  exact List.modify_modify_eq _ _ _ _

/-- Everything but the web sockets may change. -/
def notWebSocket : Risk → Prop := (· ≠ .webSocket)

/-- Once the connect timeout found a web socket that never opened, or the channel has closed, and no job
waits, the delegate was told exactly once. It is never told twice, and no request goes to a connection
that is not connected. -/
structure Reports (state : FPersistentConnection K V A) : Prop where
  once : ∀ connection ∈ state.connections, connection.disconnects.length ≤ 1
  ended : ∀ connection ∈ state.connections,
    connection.webSocket.timedOut = true ∨ connection.webSocket.channel = .closed →
    connection.webSocket.jobs = [] → connection.disconnects.length = 1
  unconnectedSend : state.unconnectedSend = false

theorem AllReported.reports (h : state.AllReported) (hlinked : state.Linked) : state.Reports := by
  refine ⟨fun connection hmem => ?_, fun connection hmem hended hjobs => ?_, hlinked.unconnectedSend⟩
  · obtain ⟨id, hlt, hfound⟩ := List.getElem_of_mem hmem
    have hreported := h id connection (List.getElem?_eq_some_iff.mpr ⟨hlt, hfound⟩)
    by_cases hstate : connection.state = .disconnected
    · exact (hreported.told hstate).le
    · rw [hreported.untold hstate]
      exact Nat.zero_le 1
  · obtain ⟨id, hlt, hfound⟩ := List.getElem_of_mem hmem
    have hreported := h id connection (List.getElem?_eq_some_iff.mpr ⟨hlt, hfound⟩)
    have hends := hreported.ended (hended.imp_right Or.inl)
    rw [FConnection.endsReported, hjobs] at hends
    exact hreported.told (by simpa using hends)

section Runs

variable [DatabaseValue V]
variable (wire : WireFormat K A) {id : Nat} {webSocket : FWebSocketConnection}

/-- The job that tells of the end closes a connection that is not yet closed. -/
theorem AllReported.onClose (h : state.AllReported) (hlinked : state.Linked)
    {connection : FConnection (ServerRequest K V A)} (hconnection : state.connections[id]? = some connection)
    {position : Nat} (htaken : connection.webSocket.takeJob position = some (.onClose, webSocket)) :
    ((state.updateWebSocket id fun _ => webSocket).runJob wire id webSocket .onClose).AllReported := by
  have hreported := h id connection hconnection
  have hisClosed : webSocket.isClosed = connection.webSocket.isClosed := by
    rw [FWebSocketConnection.takeJob, Option.map_eq_some_iff] at htaken
    obtain ⟨_, _, heq⟩ := htaken
    cases heq
    rfl
  have hheld : state.realtime = some id ↔ connection.state ≠ .disconnected := by
    rw [← hlinked.live_iff, isLive, hconnection]
    exact decide_eq_true_iff
  by_cases hstate : connection.state = .disconnected
  · have hnot : ¬ ((!webSocket.isClosed) = true ∧ state.realtime = some id) := fun hboth =>
      hheld.mp hboth.2 hstate
    have hrun : (state.updateWebSocket id fun _ => webSocket).runJob wire id webSocket .onClose =
        ((state.updateWebSocket id fun _ => webSocket).updateWebSocket id
          fun webSocket => { webSocket with isClosed := true }).updateWebSocket id
            fun webSocket => { webSocket with client := false } := by
      simp only [runJob]
      exact congrArg (updateWebSocket · id _) (if_neg hnot)
    rw [hrun]
    simp only [updateWebSocket, List.modify_modify_eq]
    refine h.modify rfl fun connection' hfound => ?_
    cases hconnection.symm.trans hfound
    exact FConnection.reported_of_disconnected hstate (hreported.told hstate)
  · have hrealtime := hheld.mpr hstate
    have hopen : webSocket.isClosed = false := by
      rw [hisClosed]
      exact Bool.eq_false_of_not_eq_true fun hclosed => hstate (hreported.isClosed hclosed)
    have htold : (!webSocket.isClosed) = true ∧ state.realtime = some id := ⟨by rw [hopen]; rfl, hrealtime⟩
    have hrun : (state.updateWebSocket id fun _ => webSocket).runJob wire id webSocket .onClose =
        (((state.updateWebSocket id fun _ => webSocket).updateWebSocket id
          fun webSocket => { webSocket with isClosed := true }).onWebSocketDisconnect id).updateWebSocket id
            fun webSocket => { webSocket with client := false } := by
      simp only [runJob]
      exact congrArg (updateWebSocket · id _) (if_pos htold)
    rw [hrun]
    have hlive : ((state.updateWebSocket id fun _ => webSocket).updateWebSocket id
        fun webSocket => { webSocket with isClosed := true }).isLive id = true := by
      rw [isLive_of_stateOf (stateOf_updateWebSocket _ _ _ _), isLive_of_stateOf (stateOf_updateWebSocket _ _ _ _)]
      exact (hlinked.live_iff id).mpr hrealtime
    have hconnections := congrArg (fun connections => connections.modify id
      fun connection => { connection with webSocket := { connection.webSocket with client := false } })
        (onWebSocketDisconnect_connections hlive)
    have hmodified := hconnections.trans ((List.modify_modify_eq _ _ _ _).trans
      ((List.modify_modify_eq _ _ _ _).trans (List.modify_modify_eq _ _ _ _)))
    refine h.modify hmodified fun connection' hfound => ?_
    cases hconnection.symm.trans hfound
    refine FConnection.reported_of_disconnected rfl ?_
    simp only [Function.comp, FConnection.close, hreported.untold hstate]
    rfl

theorem AllReported.job (h : state.AllReported) (hlinked : state.Linked)
    {connection : FConnection (ServerRequest K V A)} (hconnection : state.connections[id]? = some connection)
    {position : Nat} {job : WebSocketJob} (htaken : connection.webSocket.takeJob position = some (job, webSocket)) :
    ((state.updateWebSocket id fun _ => webSocket).runJob wire id webSocket job).AllReported := by
  have hreported := h id connection hconnection
  cases job with
  | onOpen =>
      have htook := hreported.takeJob htaken (by simp)
      refine h.modify (List.modify_modify_eq _ _ _ _) fun connection' hfound => ?_
      cases hconnection.symm.trans hfound
      exact htook.of_webSocket { webSocket with everConnected := true } rfl htook.ended
  | onMessage message =>
      have htook := hreported.takeJob htaken (by simp)
      obtain ⟨totalFrames, frame, hreceived⟩ := webSocket.handleIncomingFrame_eq message
      have hhandled : ((state.updateWebSocket id fun _ => webSocket).updateWebSocket id
          fun _ => (webSocket.handleIncomingFrame message).1).AllReported := by
        refine h.modify (List.modify_modify_eq _ _ _ _) fun connection' hfound => ?_
        cases hconnection.symm.trans hfound
        simp only [Function.comp, hreceived]
        exact htook.of_webSocket { webSocket with totalFrames, frame } rfl htook.ended
      simp only [runJob]
      split
      · rename_i message' _
        split_ifs with hrealtime
        · have hheld := held_updateWebSocket (held_updateWebSocket hlinked.toHeld id fun _ => webSocket) id
            fun _ => (webSocket.handleIncomingFrame message).1
          have hmoves : Moves notWebSocket _ _ := moves_onMessage wire hheld hrealtime message'
            (by simp [notWebSocket]) (by simp [notWebSocket])
          exact hhandled.moves (fun hne => hne rfl) hmoves
        · exact hhandled
      · exact hhandled
  | onClose => exact h.onClose wire hlinked hconnection htaken

/-- A connection that is not closed ends, and nothing waits to tell of it. -/
def endsUnreported (self : FPersistentConnection K V A) : Event K V A → Bool
  | .connection id .connectTimeout => (self.connections[id]?).any fun connection =>
      connection.webSocket.connectTimeout && !connection.webSocket.everConnected && !connection.endsReported
  | .connection id (.channel event) => (self.connections[id]?).any fun connection =>
      event.closesSilently connection.webSocket.channel && !connection.endsReported
  | _ => false

/-- No token fetch fails while a connection is held, and no connection ends unreported. -/
def reportsEnds (self : FPersistentConnection K V A) (event : Event K V A) : Bool :=
  !self.failsWhileHeld event && !self.endsUnreported event

theorem AllReported.connectionEvent (h : state.AllReported) (hlinked : state.Linked) {event : ConnectionEvent}
    (hreports : state.endsUnreported (.connection id event) = false) :
    (state.connectionEvent wire id event).AllReported := by
  unfold FPersistentConnection.connectionEvent
  split
  · exact h
  · rename_i connection hconnection
    have hreported := h id connection hconnection
    cases event with
    | channel event =>
        rw [endsUnreported, hconnection, Option.any_some] at hreports
        refine h.modify rfl fun connection' hfound => ?_
        cases hconnection.symm.trans hfound
        refine hreported.handle event fun hcloses => ?_
        rw [hcloses, Bool.true_and] at hreports
        simpa using hreports
    | job position =>
        dsimp only
        split
        · exact h
        · rename_i job webSocket htaken
          exact h.job wire hlinked hconnection htaken
    | connectTimeout =>
        rw [endsUnreported, hconnection, Option.any_some] at hreports
        dsimp only
        split_ifs with htimer
        · refine h.modify rfl fun connection' hfound => ?_
          cases hconnection.symm.trans hfound
          refine hreported.connectTimeout fun hconnected => ?_
          rw [htimer, hconnected] at hreports
          simpa using hreports
        · exact h

theorem AllReported.handle (h : state.AllReported) (hlinked : state.Linked) {event : Event K V A}
    (hreports : state.endsUnreported event = false) : (state.handle wire event).AllReported := by
  cases hevent : Event.ofConnection event with
  | false =>
      refine h.moves (fun hrisk => ?_) (moves_handle wire hlinked.toHeld event)
      rw [risks, hevent] at hrisk
      cases hrisk
  | true =>
      cases event with
      | connection id event => exact h.connectionEvent wire hlinked hreports
      | _ => cases hevent

/-- In a run in which no connection ends unreported, and no token fetch fails while a connection is held,
every end is reported once. -/
theorem reports_run (wire : WireFormat K A) {events : List (Event K V A)} {state : FPersistentConnection K V A}
    (hall : AllSteps (step wire) (fun state event => state.reportsEnds event = true) {} events)
    (hrun : run (step wire) {} events = some state) : state.Reports := by
  have hstep : ∀ (state : FPersistentConnection K V A) (event : Event K V A),
      (state.Linked ∧ state.AllReported) → state.reportsEnds event = true →
        ∀ state' ∈ step wire state event, state'.Linked ∧ state'.AllReported := by
    rintro state event ⟨hlinked, hreported⟩ hreports state' hstate'
    cases hstate'
    obtain ⟨hheld, hends⟩ := Bool.and_eq_true_iff.mp hreports
    exact ⟨hlinked.handle wire (by simpa using hheld), hreported.handle wire hlinked (by simpa using hends)⟩
  have hempty : AllReported ({} : FPersistentConnection K V A) := fun _ _ hfound => by simp at hfound
  obtain ⟨hlinked, hreported⟩ := invariant_run hstep ⟨Linked.empty, hempty⟩ hall hrun
  exact hreported.reports hlinked

/-- The web socket opens, the connect timeout passes, and the server closes. -/
def closeFrameRun : List (Event String Int Unit) :=
  [.resumeForReason "waiting_for_open", .retryTask 0, .tokenFetched 1 none .connected,
    .connection 0 (.channel .handlerAdded), .connection 0 (.job 0), .connection 0 .connectTimeout,
    .connection 0 (.channel .connectionClose), .connection 0 (.job 0)]

theorem reports_run_closeFrame :
    Reports ((run (step handshakeFormat) {} closeFrameRun).get (by decide)) :=
  reports_run handshakeFormat (by decide) (Option.some_get _).symm

/-- The server refuses to connect, and the connect timeout passes. -/
def refusedRun : List (Event String Int Unit) :=
  [.resumeForReason "waiting_for_open", .retryTask 0, .tokenFetched 1 none .refused, .connection 0 .connectTimeout]

theorem reports_fails_refused :
    ¬∀ (wire : WireFormat String Unit) (events : List (Event String Int Unit))
      (state : FPersistentConnection String Int Unit),
      run (step wire) {} events = some state → state.Reports := by
  intro hall
  have hbad : (run (step handshakeFormat) {} refusedRun).any (fun state => state.connections.any fun connection =>
      connection.webSocket.timedOut && decide (connection.webSocket.jobs = []) &&
        decide (connection.disconnects = [])) = true := by decide
  obtain ⟨state, hrun, hstate⟩ := (Option.any_eq_true _ _).mp hbad
  obtain ⟨connection, hmem, hconnection⟩ := List.any_eq_true.mp hstate
  obtain ⟨hended, huntold⟩ := Bool.and_eq_true_iff.mp hconnection
  obtain ⟨htimedOut, hjobs⟩ := Bool.and_eq_true_iff.mp hended
  have htold := (hall _ refusedRun state hrun).ended connection hmem (Or.inl htimedOut) (of_decide_eq_true hjobs)
  rw [of_decide_eq_true huntold] at htold
  cases htold

end Runs

end FPersistentConnection

end FirebaseSwift.Database
