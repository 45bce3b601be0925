import FirebaseSwift.Database.ConnectionClosings

/-! What happens to puts. Most of what the client does leaves them as they are and counts at least as many
listens as there are more to await; a connection that closes cancels the puts of transactions that were
sent, and counts anew. -/

namespace FirebaseSwift.Database

open SortedDictionary StepRuns

variable {K V A : Type} [DatabaseKey K]

/-! ### What is told -/

/-- What the completion of a put is told: the status and the reason of an error. -/
abbrev PutAnswer := String × Option String

def Output.calledPut : Output K A → Option (Nat × PutAnswer)
  | .put index status errorReason => some (index, status, errorReason)
  | _ => none

def RequestCallback.isListen : RequestCallback K V → Bool
  | .listen _ => true
  | _ => false

namespace FPersistentConnection

/-- The completions of puts that were called, in order. -/
def calledPuts (self : FPersistentConnection K V A) : List (Nat × PutAnswer) :=
  self.outputs.filterMap Output.calledPut

/-- The answers that are held back. -/
def heldAnswers (self : FPersistentConnection K V A) : List (Nat × PutAnswer) :=
  self.putsToAck.map fun put => (put.index, put.status, put.errorReason)

/-- What the outstanding puts are told when they are purged. -/
def cancelledPuts (self : FPersistentConnection K V A) : List (Nat × PutAnswer) :=
  self.outstandingPuts.map fun entry => (entry.1, "write_canceled", none)

/-- How many responses to listens are awaited. -/
def awaitedListens (self : FPersistentConnection K V A) : Nat :=
  self.requestCBHash.countP fun entry => entry.2.isListen

/-- The put that a message answers, and how. -/
def messageAnswersPut (self : FPersistentConnection K V A) :
    ServerMessage (DataMessage K A) → Option (Nat × PutAnswer)
  | .data (.response number body) =>
      match get number self.requestCBHash with
      | some (.put index) =>
          (get index self.outstandingPuts).map fun _ =>
            (index, (body.bind Response.status).getD "failed", (body.bind Response.data).bind ResponseData.asString)
      | _ => none
  | _ => none

/-- The put that an event answers, and how. -/
def answersPut (wire : WireFormat K A) (self : FPersistentConnection K V A) :
    Event K V A → Option (Nat × PutAnswer)
  | .connection id (.job position) =>
      ((self.heldJob id position).bind (jobMessage wire)).bind self.messageAnswersPut
  | _ => none

/-- The held connection is closed. -/
def closesConnection (wire : WireFormat K A) (self : FPersistentConnection K V A) : Event K V A → Bool
  | .interruptForReason _ => self.realtime.isSome
  | .connection id (.job position) => self.jobDrops wire id position
  | _ => false

/-- No completion puts more while outstanding puts are cancelled. -/
def Event.cancelsQuietly : Event K V A → Bool
  | .purgeOutstandingWrites _ cancelling => cancelling.isEmpty
  | _ => true

/-- A connection only closes where no answer is held back, and cancelled puts put nothing. -/
def sparesPuts (wire : WireFormat K A) (self : FPersistentConnection K V A) (event : Event K V A) : Bool :=
  (!self.closesConnection wire event || self.putsToAck.isEmpty) && event.cancelsQuietly

end FPersistentConnection

namespace FPersistentConnection

variable {state state' state'' : FPersistentConnection K V A}

/-! ### What keeps the puts -/

/-- The puts are the same, and at least as many listens are counted as there are more to await. -/
structure KeepsPuts (state state' : FPersistentConnection K V A) : Prop where
  putCounter : state'.putCounter = state.putCounter
  outstanding : ∀ index, get index state'.outstandingPuts = none ↔ get index state.outstandingPuts = none
  sorted : Sorted (· < ·) state.outstandingPuts → Sorted (· < ·) state'.outstandingPuts
  putsToAck : state'.putsToAck = state.putsToAck
  called : state'.calledPuts = state.calledPuts
  grows : state.unackedListensCount ≤ state'.unackedListensCount
  gap : state.unackedListensCount - state.awaitedListens ≤ state'.unackedListensCount - state'.awaitedListens

namespace KeepsPuts

theorem refl (state : FPersistentConnection K V A) : KeepsPuts state state :=
  ⟨rfl, fun _ => Iff.rfl, id, rfl, rfl, le_refl _, le_refl _⟩

theorem trans (h : KeepsPuts state state') (h' : KeepsPuts state' state'') : KeepsPuts state state'' :=
  ⟨h'.putCounter.trans h.putCounter, fun index => (h'.outstanding index).trans (h.outstanding index),
    fun hsorted => h'.sorted (h.sorted hsorted), h'.putsToAck.trans h.putsToAck, h'.called.trans h.called,
    h.grows.trans h'.grows, h.gap.trans h'.gap⟩

/-- What changes neither puts nor callbacks, and calls the completion of no put. -/
theorem of_outputs {outputs : List (Output K A)} (hputCounter : state'.putCounter = state.putCounter)
    (houtstanding : state'.outstandingPuts = state.outstandingPuts) (hputsToAck : state'.putsToAck = state.putsToAck)
    (houtputs : state'.outputs = state.outputs ++ outputs) (hnone : ∀ output ∈ outputs, output.calledPut = none)
    (hcount : state'.unackedListensCount = state.unackedListensCount)
    (hrequests : state'.requestCBHash = state.requestCBHash) : KeepsPuts state state' := by
  refine ⟨hputCounter, fun index => by rw [houtstanding], fun hsorted => houtstanding ▸ hsorted, hputsToAck, ?_,
    hcount.ge, ?_⟩
  · rw [calledPuts, calledPuts, houtputs, List.filterMap_append, List.filterMap_eq_nil_iff.mpr hnone,
      List.append_nil]
  · rw [hcount, awaitedListens, awaitedListens, hrequests]

/-- What changes neither puts, callbacks nor outputs. -/
theorem of_same (hputCounter : state'.putCounter = state.putCounter)
    (houtstanding : state'.outstandingPuts = state.outstandingPuts) (hputsToAck : state'.putsToAck = state.putsToAck)
    (houtputs : state'.outputs = state.outputs) (hcount : state'.unackedListensCount = state.unackedListensCount)
    (hrequests : state'.requestCBHash = state.requestCBHash) : KeepsPuts state state' :=
  of_outputs hputCounter houtstanding hputsToAck
    (show state'.outputs = state.outputs ++ [] from houtputs.trans (List.append_nil _).symm) nofun hcount hrequests

end KeepsPuts

theorem keepsPuts_output {output : Output K A} (hnone : output.calledPut = none) :
    KeepsPuts state (state.output output) :=
  .of_outputs rfl rfl rfl rfl (fun _ houtput => List.mem_singleton.mp houtput ▸ hnone) rfl rfl

/-- A request may add one response to await. -/
theorem awaitedListens_sendAction (state : FPersistentConnection K V A) (request : ServerRequest K V A)
    (callback : Option (RequestCallback K V)) : (state.sendAction request callback).awaitedListens ≤
      state.awaitedListens + if callback.any RequestCallback.isListen then 1 else 0 := by
  unfold sendAction
  split
  · exact Nat.le_add_right _ _
  · cases callback with
    | none => exact Nat.le_add_right _ _
    | some callback => exact countP_set_le (· < ·) (fun entry => entry.2.isListen) state.requestNumber callback _

theorem sendAction_puts (state : FPersistentConnection K V A) (request : ServerRequest K V A)
    (callback : Option (RequestCallback K V)) : (state.sendAction request callback).putCounter = state.putCounter ∧
      (state.sendAction request callback).outstandingPuts = state.outstandingPuts ∧
      (state.sendAction request callback).putsToAck = state.putsToAck ∧
      (state.sendAction request callback).outputs = state.outputs ∧
      (state.sendAction request callback).unackedListensCount = state.unackedListensCount := by
  unfold sendAction
  split <;> exact ⟨rfl, rfl, rfl, rfl, rfl⟩

theorem keepsPuts_sendAction (state : FPersistentConnection K V A) (request : ServerRequest K V A)
    (callback : Option (RequestCallback K V)) (hcallback : callback.any RequestCallback.isListen = false) :
    KeepsPuts state (state.sendAction request callback) := by
  obtain ⟨hcounter, houtstanding, hputsToAck, houtputs, hcount⟩ := sendAction_puts state request callback
  have hawaited := awaitedListens_sendAction state request callback
  rw [hcallback] at hawaited
  refine ⟨hcounter, fun index => by rw [houtstanding], fun hsorted => houtstanding ▸ hsorted, hputsToAck,
    congrArg (List.filterMap Output.calledPut) houtputs, hcount.ge, ?_⟩
  rw [hcount]
  simp only [Bool.false_eq_true, if_false, Nat.add_zero] at hawaited
  omega

/-- The listen that may be awaited more is counted. -/
theorem keepsPuts_sendListen (state : FPersistentConnection K V A) (listenSpec : FOutstandingQuery K V) :
    KeepsPuts state (state.sendListen listenSpec) := by
  unfold sendListen
  extract_lets sent
  obtain ⟨hcounter, houtstanding, hputsToAck, houtputs, hcount⟩ :=
    sendAction_puts state (.listen listenSpec.query listenSpec.tagId) (some (.listen listenSpec))
  have hawaited :=
    awaitedListens_sendAction state (.listen listenSpec.query listenSpec.tagId) (some (.listen listenSpec))
  change sent.unackedListensCount = state.unackedListensCount at hcount
  change sent.awaitedListens ≤ state.awaitedListens + 1 at hawaited
  refine ⟨hcounter, fun index => ?_, fun hsorted => ?_, hputsToAck,
    congrArg (List.filterMap Output.calledPut) houtputs, ?_, ?_⟩
  · change get index sent.outstandingPuts = none ↔ _
    rw [houtstanding]
  · change Sorted (· < ·) sent.outstandingPuts
    rw [houtstanding]
    exact hsorted
  · change state.unackedListensCount ≤ sent.unackedListensCount + 1
    omega
  · change state.unackedListensCount - state.awaitedListens ≤ sent.unackedListensCount + 1 - (sent.awaitedListens : Int)
    omega

/-- A put is marked as sent, and stays outstanding. -/
theorem keepsPuts_sendPut (state : FPersistentConnection K V A) (index : Nat) :
    KeepsPuts state (state.sendPut index) := by
  rw [sendPut]
  cases hfound : get index state.outstandingPuts with
  | none => exact .refl state
  | some put =>
      have hmarked : KeepsPuts state
          { state with outstandingPuts := set (· < ·) index { put with sent := true } state.outstandingPuts } := by
        refine ⟨rfl, fun index' => ?_, fun hsorted => hsorted.set _ _ _, rfl, rfl, le_refl _, le_refl _⟩
        dsimp only
        rw [get_set]
        split_ifs with heq
        · rw [heq, hfound]
          exact iff_of_false id (Option.some_ne_none _)
        · exact Iff.rfl
      exact hmarked.trans (keepsPuts_sendAction _ _ _ rfl)

theorem keepsPuts_sendGet (state : FPersistentConnection K V A) (index : Nat) :
    KeepsPuts state (state.sendGet index) := by
  rcases sendGet_eq state index with heq | ⟨gets, request, heq⟩
  · rw [heq]
    exact .refl state
  · rw [heq]
    have hgets : KeepsPuts state { state with outstandingGets := gets } := .of_same rfl rfl rfl rfl rfl rfl
    exact hgets.trans (keepsPuts_sendAction _ _ _ rfl)

theorem keepsPuts_sendOnDisconnectAction (state : FPersistentConnection K V A) (tuple : OnDisconnectTuple K A) :
    KeepsPuts state (state.sendOnDisconnectAction tuple) :=
  keepsPuts_sendAction _ _ _ rfl

theorem keepsPuts_foldl {α : Type} {send : FPersistentConnection K V A → α → FPersistentConnection K V A}
    (hsend : ∀ state a, KeepsPuts state (send state a)) (state : FPersistentConnection K V A) (l : List α) :
    KeepsPuts state (l.foldl send state) := by
  induction l generalizing state with
  | nil => exact .refl state
  | cons a l ih => exact (hsend state a).trans (ih (send state a))

theorem keepsPuts_restoreState (state : FPersistentConnection K V A) : KeepsPuts state state.restoreState := by
  unfold restoreState
  extract_lets listened putted gotten queued
  have hlistened : KeepsPuts state listened := keepsPuts_foldl keepsPuts_sendListen state _
  have hputted : KeepsPuts listened putted := keepsPuts_foldl keepsPuts_sendPut listened _
  have hgotten : KeepsPuts putted gotten := keepsPuts_foldl keepsPuts_sendGet putted _
  have hqueued : KeepsPuts gotten queued := keepsPuts_foldl keepsPuts_sendOnDisconnectAction gotten _
  have hcleared : KeepsPuts queued { queued with onDisconnectQueue := [] } := .of_same rfl rfl rfl rfl rfl rfl
  exact hlistened.trans (hputted.trans (hgotten.trans (hqueued.trans hcleared)))

theorem keepsPuts_sendAuthAndRestoreStateAfterComplete (state : FPersistentConnection K V A) (restore : Bool) :
    KeepsPuts state (state.sendAuthAndRestoreStateAfterComplete restore) := by
  unfold sendAuthAndRestoreStateAfterComplete
  split
  · exact .refl state
  · exact keepsPuts_sendAction _ _ _ rfl

theorem keepsPuts_connectionState (state : FPersistentConnection K V A) (connectionState : ConnectionState) :
    KeepsPuts state { state with connectionState } :=
  .of_same rfl rfl rfl rfl rfl rfl

theorem keepsPuts_restoreAuth (state : FPersistentConnection K V A) : KeepsPuts state state.restoreAuth := by
  unfold restoreAuth
  split_ifs
  · exact (keepsPuts_connectionState state _).trans (keepsPuts_restoreState _)
  · exact (keepsPuts_connectionState state _).trans (keepsPuts_sendAuthAndRestoreStateAfterComplete _ _)

theorem keepsPuts_tryScheduleReconnect (state : FPersistentConnection K V A) :
    KeepsPuts state state.tryScheduleReconnect := by
  unfold tryScheduleReconnect
  split_ifs
  · exact .of_same rfl rfl rfl rfl rfl rfl
  · exact .refl state

theorem keepsPuts_resumeForReason (state : FPersistentConnection K V A) (reason : String) :
    KeepsPuts state (state.resumeForReason reason) := by
  unfold resumeForReason
  extract_lets resumed
  have hresumed : KeepsPuts state resumed := .of_same rfl rfl rfl rfl rfl rfl
  split_ifs
  · exact hresumed.trans (keepsPuts_tryScheduleReconnect resumed)
  · exact hresumed

theorem keepsPuts_enteringForeground (state : FPersistentConnection K V A) :
    KeepsPuts state state.enteringForeground := by
  unfold enteringForeground
  split_ifs
  · exact keepsPuts_tryScheduleReconnect state
  · exact .refl state

theorem keepsPuts_retryTask (state : FPersistentConnection K V A) (task : Nat) :
    KeepsPuts state (state.retryTask task) := by
  unfold retryTask
  split
  · exact .refl state
  · exact .of_same rfl rfl rfl rfl rfl rfl

theorem keepsPuts_tokenFetched (state : FPersistentConnection K V A) (attempt : Nat) (token : Option String)
    (result : ConnectResult) : KeepsPuts state (state.tokenFetched attempt token result) := by
  unfold tokenFetched
  split_ifs <;> exact .of_same rfl rfl rfl rfl rfl rfl

theorem keepsPuts_tokenFailed (state : FPersistentConnection K V A) (attempt : Nat) :
    KeepsPuts state (state.tokenFailed attempt) := by
  have hended : KeepsPuts state { state.endFetch attempt with connectionState := .disconnected } :=
    .of_same rfl rfl rfl rfl rfl rfl
  exact hended.trans (keepsPuts_tryScheduleReconnect _)

theorem keepsPuts_onDisconnectData (state : FPersistentConnection K V A) (action : OnDisconnectAction)
    (path : FPath K) (data : Option A) : KeepsPuts state (state.onDisconnectData action path data) := by
  unfold onDisconnectData
  extract_lets tuple next
  have hnext : KeepsPuts state next := .of_same rfl rfl rfl rfl rfl rfl
  split_ifs
  · exact hnext.trans (keepsPuts_sendOnDisconnectAction next tuple)
  · exact .of_same rfl rfl rfl rfl rfl rfl

theorem keepsPuts_getDataAtPath (state : FPersistentConnection K V A) (path : FPath K) (params : A) :
    KeepsPuts state (state.getDataAtPath path params) := by
  unfold getDataAtPath
  extract_lets index added
  have hadded : KeepsPuts state added := .of_same rfl rfl rfl rfl rfl rfl
  split_ifs
  · exact .of_same rfl rfl rfl rfl rfl rfl
  · exact hadded.trans (keepsPuts_sendGet added index)
  · exact hadded

theorem keepsPuts_getTimedOut (state : FPersistentConnection K V A) (index : Nat) :
    KeepsPuts state (state.getTimedOut index) := by
  unfold getTimedOut
  split_ifs
  · extract_lets waited
    have hwaited : KeepsPuts state waited := .of_same rfl rfl rfl rfl rfl rfl
    split
    · exact hwaited
    · split_ifs
      · exact hwaited
      · exact .of_outputs rfl rfl rfl rfl (fun _ houtput => List.mem_singleton.mp houtput ▸ rfl) rfl rfl
  · exact .refl state

theorem keepsPuts_refreshAuthToken (state : FPersistentConnection K V A) (token : Option String) :
    KeepsPuts state (state.refreshAuthToken token) := by
  unfold refreshAuthToken
  extract_lets refreshed
  have hrefreshed : KeepsPuts state refreshed := .of_same rfl rfl rfl rfl rfl rfl
  split_ifs
  · exact hrefreshed.trans (keepsPuts_sendAction _ _ _ rfl)
  · exact hrefreshed.trans (keepsPuts_sendAuthAndRestoreStateAfterComplete _ _)
  · exact hrefreshed

theorem keepsPuts_refreshAppCheckToken (state : FPersistentConnection K V A) (token : String) :
    KeepsPuts state (state.refreshAppCheckToken token) := by
  unfold refreshAppCheckToken
  split_ifs
  · exact .refl state
  · exact .refl state
  · exact keepsPuts_sendAction _ _ _ rfl

theorem keepsPuts_updateWebSocket (state : FPersistentConnection K V A) (id : Nat)
    (update : FWebSocketConnection → FWebSocketConnection) : KeepsPuts state (state.updateWebSocket id update) :=
  .of_same rfl rfl rfl rfl rfl rfl

/-- A callback that is forgotten may be one that was awaited. -/
theorem keepsPuts_forget (state : FPersistentConnection K V A) (number : Nat) :
    KeepsPuts state { state with requestCBHash := remove number state.requestCBHash } := by
  refine ⟨rfl, fun _ => Iff.rfl, id, rfl, rfl, le_refl _, ?_⟩
  have hawaited : awaitedListens { state with requestCBHash := remove number state.requestCBHash } ≤
      state.awaitedListens := List.filter_sublist.countP_le
  dsimp only
  omega

theorem keepsPuts_onGetResponse (state : FPersistentConnection K V A) (index : Nat) (body : Option (Response A)) :
    KeepsPuts state (state.onGetResponse index body) := by
  unfold onGetResponse
  split
  · exact .refl state
  · extract_lets removed resultData
    have hremoved : KeepsPuts state removed := .of_same rfl rfl rfl rfl rfl rfl
    split
    · exact hremoved
    · split_ifs <;> exact hremoved.trans (keepsPuts_output rfl)

theorem keepsPuts_onDisconnectResponse (state : FPersistentConnection K V A) (number : Nat)
    (body : Option (Response A)) : KeepsPuts state (state.onDisconnectResponse number body) := by
  unfold onDisconnectResponse
  split
  · exact keepsPuts_output rfl
  · exact .refl state

theorem keepsPuts_onListenRevoked (state : FPersistentConnection K V A) (path : FPath K) :
    KeepsPuts state (state.onListenRevoked path) := by
  refine .of_outputs rfl rfl rfl rfl (fun output houtput => ?_) rfl rfl
  obtain ⟨listenSpec, _, rfl⟩ := List.mem_map.mp houtput
  rfl

theorem keepsPuts_onReady (state : FPersistentConnection K V A) (timestamp : Int) :
    KeepsPuts state (state.onReady timestamp) := by
  unfold onReady
  extract_lets informed sent informed'
  have hinformed : KeepsPuts state informed := keepsPuts_output rfl
  have hinformed' : KeepsPuts informed informed' := by
    dsimp only [informed', sent]
    split_ifs
    · have hsent : KeepsPuts informed informed.sendConnectStats := keepsPuts_sendAction _ _ _ rfl
      exact hsent.trans (.of_same rfl rfl rfl rfl rfl rfl)
    · exact .refl informed
  exact hinformed.trans (hinformed'.trans ((keepsPuts_restoreAuth informed').trans (keepsPuts_output rfl)))

section Listens

variable [DatabaseValue V]

theorem keepsPuts_listen (state : FPersistentConnection K V A) (query : FQuerySpec K V) (tagId : Option Nat) :
    KeepsPuts state (state.listen query tagId) := by
  unfold listen
  extract_lets outstanding removed added
  have hadded : KeepsPuts state added := .of_same rfl rfl rfl rfl rfl rfl
  split_ifs
  · exact hadded.trans (keepsPuts_sendListen added outstanding)
  · exact hadded

theorem keepsPuts_unlisten (state : FPersistentConnection K V A) (query : FQuerySpec K V) (tagId : Option Nat) :
    KeepsPuts state (state.unlisten query tagId) := by
  unfold unlisten
  extract_lets removed
  have hremoved : KeepsPuts state removed := .of_same rfl rfl rfl rfl rfl rfl
  split_ifs
  · exact hremoved.trans (keepsPuts_sendAction _ _ _ rfl)
  · exact hremoved

end Listens

/-! ### Closing -/

/-- The held connection goes, and with it what was awaited on it. -/
def Closes (state state' : FPersistentConnection K V A) : Prop :=
  ∃ dropped, KeepsPuts state dropped ∧ KeepsPuts dropped.onDisconnect state' ∧ state'.unackedListensCount = 0

theorem onDisconnect_unackedListensCount (state : FPersistentConnection K V A) :
    state.onDisconnect.unackedListensCount = 0 := by
  simp only [onDisconnect, output, tryScheduleReconnect]
  split_ifs <;> rfl

/-- The answers that are held back stay where they are. -/
theorem onDisconnect_putsToAck (state : FPersistentConnection K V A) :
    state.onDisconnect.putsToAck = state.putsToAck := by
  simp only [onDisconnect, output, tryScheduleReconnect]
  split_ifs <;> rfl

theorem Closes.putsToAck (h : Closes state state') : state'.putsToAck = state.putsToAck := by
  obtain ⟨dropped, hdropped, hclosed, _⟩ := h
  exact hclosed.putsToAck.trans (dropped.onDisconnect_putsToAck.trans hdropped.putsToAck)

theorem Closes.unackedListensCount (h : Closes state state') : state'.unackedListensCount = 0 := by
  obtain ⟨_, _, _, hzero⟩ := h
  exact hzero

theorem KeepsBooks.keepsPuts (h : KeepsBooks state state') : KeepsPuts state state' := by
  refine ⟨h.putCounter, fun index => by rw [h.outstandingPuts], fun hsorted => h.outstandingPuts ▸ hsorted,
    h.putsToAck, by rw [calledPuts, calledPuts, h.outputs], h.unackedListensCount.ge, ?_⟩
  have hawaited : state'.awaitedListens ≤ state.awaitedListens := h.awaited.countP_le
  have hcount := h.unackedListensCount
  omega

theorem ClosesHeld.closes (h : ClosesHeld state state') : Closes state state' := by
  obtain ⟨dropped, hdropped, hclosed, -⟩ := h
  exact ⟨dropped, hdropped.keepsPuts, hclosed.keepsPuts,
    hclosed.unackedListensCount.trans (onDisconnect_unackedListensCount _)⟩

/-- Nothing is held that an interruption could close. -/
theorem keepsPuts_interruptForReason (hrealtime : state.realtime = none) (reason : String) :
    KeepsPuts state (state.interruptForReason reason) := by
  unfold interruptForReason
  extract_lets interrupted closed
  have hrealtime' : interrupted.realtime = none := hrealtime
  split
  · rename_i id hsome
    rw [hrealtime'] at hsome
    cases hsome
  · exact .of_same rfl rfl rfl rfl rfl rfl

theorem closes_handle [DatabaseValue V] (wire : WireFormat K A) (hheld : state.Held) {event : Event K V A}
    (hcloses : state.closesConnection wire event = true) : Closes state (state.handle wire event) := by
  cases event with
  | interruptForReason reason =>
      obtain ⟨id, hrealtime⟩ := Option.isSome_iff_exists.mp hcloses
      exact (closesHeld_interruptForReason hheld hrealtime reason).closes
  | connection id event =>
      cases event with
      | job position => exact (closesHeld_job wire hheld hcloses).closes
      | _ => cases hcloses
  | _ => cases hcloses

end FPersistentConnection

end FirebaseSwift.Database
