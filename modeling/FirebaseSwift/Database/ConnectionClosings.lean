import FirebaseSwift.Database.ConnectionLifeCycle

/-! What closes the held connection: an interruption, the end of its web socket, and some messages. In each case the
connection is closed once, and before that and after it nothing happens to the puts and the gets. -/

namespace FirebaseSwift.Database

open SortedDictionary

variable {K V A : Type} [DatabaseKey K]

namespace FPersistentConnection

variable {state state' state'' before : FPersistentConnection K V A}

/-- The puts, the gets and the outputs stay as they are, and no other response is awaited. -/
structure KeepsBooks (state state' : FPersistentConnection K V A) : Prop where
  putCounter : state'.putCounter = state.putCounter
  outstandingPuts : state'.outstandingPuts = state.outstandingPuts
  putsToAck : state'.putsToAck = state.putsToAck
  unackedListensCount : state'.unackedListensCount = state.unackedListensCount
  outstandingGets : state'.outstandingGets = state.outstandingGets
  getCounter : state'.getCounter = state.getCounter
  outputs : state'.outputs = state.outputs
  awaited : state'.requestCBHash.Sublist state.requestCBHash

theorem KeepsBooks.trans (h : KeepsBooks state state') (h' : KeepsBooks state' state'') : KeepsBooks state state'' :=
  ⟨h'.putCounter.trans h.putCounter, h'.outstandingPuts.trans h.outstandingPuts, h'.putsToAck.trans h.putsToAck,
    h'.unackedListensCount.trans h.unackedListensCount, h'.outstandingGets.trans h.outstandingGets,
    h'.getCounter.trans h.getCounter, h'.outputs.trans h.outputs, h'.awaited.trans h.awaited⟩

theorem keepsBooks_updateWebSocket (state : FPersistentConnection K V A) (id : Nat)
    (update : FWebSocketConnection → FWebSocketConnection) : KeepsBooks state (state.updateWebSocket id update) :=
  ⟨rfl, rfl, rfl, rfl, rfl, rfl, rfl, .refl _⟩

theorem keepsBooks_forget (state : FPersistentConnection K V A) (number : Nat) (connectionState : ConnectionState) :
    KeepsBooks state { state with requestCBHash := remove number state.requestCBHash, connectionState } :=
  ⟨rfl, rfl, rfl, rfl, rfl, rfl, rfl, List.filter_sublist⟩

/-- The held connection is closed, and nothing else happens to the puts and the gets. -/
def ClosesHeld (state state' : FPersistentConnection K V A) : Prop :=
  ∃ dropped, KeepsBooks state dropped ∧ KeepsBooks dropped.onDisconnect state' ∧ state'.realtime = none

theorem ClosesHeld.of_keeps (h : ClosesHeld state state') (hkeeps : KeepsBooks before state) :
    ClosesHeld before state' := by
  obtain ⟨dropped, hdropped, hrest⟩ := h
  exact ⟨dropped, hkeeps.trans hdropped, hrest⟩

theorem ClosesHeld.keeps (h : ClosesHeld state state') (hkeeps : KeepsBooks state' state'')
    (hrealtime : state'.realtime = none → state''.realtime = none) : ClosesHeld state state'' := by
  obtain ⟨dropped, hdropped, hclosed, hnone⟩ := h
  exact ⟨dropped, hdropped, hclosed.trans hkeeps, hrealtime hnone⟩

variable {id : Nat}

theorem closesHeld_closeConnection (hlive : state.isLive id = true) (reason : FDisconnectReason) :
    ClosesHeld state (state.closeConnection id reason) := by
  rw [closeConnection_of_live hlive]
  exact ⟨{ state with connections := state.connections.modify id fun connection => connection.close reason },
    ⟨rfl, rfl, rfl, rfl, rfl, rfl, rfl, .refl _⟩, ⟨rfl, rfl, rfl, rfl, rfl, rfl, rfl, .refl _⟩,
    onDisconnect_realtime _⟩

theorem closesHeld_rejectToken (hheld : state.Held) (hrealtime : state.realtime = some id) :
    ClosesHeld state state.rejectToken := by
  have hlive : isLive { state with authToken := none, forceTokenRefreshes := true } id = true :=
    hheld.live id hrealtime
  rw [rejectToken_eq hrealtime]
  exact (closesHeld_closeConnection hlive .other).of_keeps ⟨rfl, rfl, rfl, rfl, rfl, rfl, rfl, .refl _⟩

theorem closesHeld_interruptForReason (hheld : state.Held) (hrealtime : state.realtime = some id)
    (reason : String) : ClosesHeld state (state.interruptForReason reason) := by
  unfold interruptForReason
  extract_lets interrupted closed
  have hinterrupted : KeepsBooks state interrupted := ⟨rfl, rfl, rfl, rfl, rfl, rfl, rfl, .refl _⟩
  have hlive : interrupted.isLive id = true := hheld.live id hrealtime
  have hrealtime' : interrupted.realtime = some id := hrealtime
  have hclosed : closed = interrupted.closeConnection id .other := closeRealtime_eq hrealtime'
  have hcloses : ClosesHeld interrupted closed := hclosed ▸ closesHeld_closeConnection hlive .other
  have hnone : KeepsBooks closed { closed with realtime := none } := ⟨rfl, rfl, rfl, rfl, rfl, rfl, rfl, .refl _⟩
  split
  · exact (hcloses.keeps hnone fun _ => rfl).of_keeps hinterrupted
  · rename_i hnone
    rw [hrealtime'] at hnone
    cases hnone

theorem closesHeld_onWebSocketDisconnect (hheld : state.Held) (hrealtime : state.realtime = some id) :
    ClosesHeld state (state.onWebSocketDisconnect id) := by
  have hmoves : Moves (fun _ => True) state
      { state with
        connections := state.connections.modify id fun connection => { connection with conn := false } } :=
    .single (.conn id trivial)
  exact (closesHeld_closeConnection ((hheld.moves hmoves).live id hrealtime) .other).of_keeps
    ⟨rfl, rfl, rfl, rfl, rfl, rfl, rfl, .refl _⟩

section Messages

variable [DatabaseValue V]
variable (wire : WireFormat K A) {id : Nat}

/-- The job that tells that the web socket has closed. -/
theorem closesHeld_onClose (hheld : state.Held) (hrealtime : state.realtime = some id)
    {webSocket : FWebSocketConnection} (hopen : webSocket.isClosed = false) :
    ClosesHeld state (state.runJob wire id webSocket .onClose) := by
  have hclosed := held_updateWebSocket hheld id fun webSocket => { webSocket with isClosed := true }
  have hcloses := closesHeld_onWebSocketDisconnect hclosed hrealtime
  have htold : (!webSocket.isClosed) = true ∧ state.realtime = some id := ⟨by rw [hopen]; rfl, hrealtime⟩
  simp only [runJob, if_pos htold]
  exact (hcloses.keeps (keepsBooks_updateWebSocket _ id _) fun h => h).of_keeps (keepsBooks_updateWebSocket state id _)

theorem closesHeld_onResponse (hheld : state.Held) (hrealtime : state.realtime = some id) {number : Nat}
    {body : Option (Response A)} (hdrops : state.messageDrops (.data (.response number body)) = true) :
    ClosesHeld state (state.onDataMessage (.response number body)) := by
  obtain ⟨callback, hfound, hanswers, hrejected⟩ := rejected_of_messageDrops hdrops
  have hne : state.realtime ≠ none := hrealtime ▸ Option.some_ne_none id
  simp only [onDataMessage, hfound]
  cases callback with
  | auth restore =>
      have hheld' : Held
          { state with requestCBHash := remove number state.requestCBHash, connectionState := .connected } :=
        hheld.of_stateOf rfl (fun _ => rfl) fun _ => hne
      simp only [runCallback, onAuthResponse, hrejected, if_false]
      refine ClosesHeld.of_keeps ?_ (keepsBooks_forget state number .connected)
      exact (closesHeld_rejectToken hheld' hrealtime).keeps ⟨rfl, rfl, rfl, rfl, rfl, rfl, rfl, .refl _⟩ fun _ => rfl
  | appCheck =>
      have hheld' : Held { state with requestCBHash := remove number state.requestCBHash } :=
        hheld.of_stateOf rfl (fun _ => rfl) hheld.connected
      simp only [runCallback, onAppCheckResponse, hrejected, if_false]
      exact (closesHeld_rejectToken hheld' hrealtime).of_keeps (keepsBooks_forget state number state.connectionState)
  | _ => cases hanswers

theorem closesHeld_onMessage (hheld : state.Held) (hrealtime : state.realtime = some id)
    {message : ServerMessage (DataMessage K A)} (hdrops : state.messageDrops message = true) :
    ClosesHeld state (state.onMessage wire id message) := by
  have hlive := hheld.live id hrealtime
  cases message with
  | data message =>
      cases message with
      | response number body => exact closesHeld_onResponse hheld hrealtime hdrops
      | push push =>
          cases push with
          | authRevoked status reason => exact closesHeld_rejectToken hheld hrealtime
          | _ => cases hdrops
      | _ => cases hdrops
  | control message =>
      cases message with
      | shutdown reason =>
          simp only [onMessage]
          rw [closeConnection_of_not_live (isLive_onKill hrealtime hlive)]
          exact closesHeld_interruptForReason hheld hrealtime _
      | reset host =>
          simp only [onMessage]
          split_ifs <;> exact closesHeld_closeConnection hlive _
      | _ => cases hdrops
  | unrecognized => cases hdrops

theorem closesHeld_job (hheld : state.Held) {position : Nat} (hdrops : state.jobDrops wire id position = true) :
    ClosesHeld state (state.handle wire (.connection id (.job position))) := by
  obtain ⟨job, hjob, hcloses⟩ := (Option.any_eq_true _ _).mp hdrops
  obtain ⟨hrealtime, hhandle⟩ := handle_heldJob wire hjob
  rcases Bool.or_eq_true_iff.mp hcloses with hclose | hmessage
  · obtain ⟨honClose, hopen⟩ := Bool.and_eq_true_iff.mp hclose
    rw [hhandle, of_decide_eq_true honClose]
    exact (closesHeld_onClose wire (held_updateWebSocket hheld id fun _ => job.2) hrealtime
      (by simpa using hopen)).of_keeps (keepsBooks_updateWebSocket state id _)
  · obtain ⟨message, hdecoded, hdrops⟩ := (Option.any_eq_true _ _).mp hmessage
    obtain ⟨webSocket, hhandled⟩ := handle_jobMessage wire hjob hdecoded
    rw [hhandled]
    exact (closesHeld_onMessage wire (held_updateWebSocket hheld id fun _ => webSocket) hrealtime
      hdrops).of_keeps (keepsBooks_updateWebSocket state id _)

end Messages

end FPersistentConnection

end FirebaseSwift.Database
