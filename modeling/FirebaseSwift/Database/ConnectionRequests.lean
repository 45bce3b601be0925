import FirebaseSwift.Database.PersistentConnection

/-! What the client sends. Its calls, and most responses, change the bookkeeping of what is outstanding and
give requests to the held connection. Neither the state of any connection nor which one is held changes
by that, and gets change only where a get is sent. -/

namespace FirebaseSwift.Database

open SortedDictionary

variable {K V A : Type} [DatabaseKey K]

/-- The get with a number is resumed. -/
def Output.resumes (index : Nat) : Output K A → Bool
  | .get index' _ => decide (index' = index)
  | _ => false

namespace FPersistentConnection

variable {state state' state'' : FPersistentConnection K V A}

/-! ### What is sent -/

/-- Nothing that concerns connections has changed. -/
structure Keeps (state state' : FPersistentConnection K V A) : Prop where
  connectionState : state'.connectionState = state.connectionState
  realtime : state'.realtime = state.realtime
  connections : state'.connections = state.connections
  requestNumber : state'.requestNumber = state.requestNumber
  requestCBHash : state'.requestCBHash = state.requestCBHash
  retryHelper : state'.retryHelper = state.retryHelper
  unconnectedSend : state'.unconnectedSend = state.unconnectedSend

/-- How often the get with a number was resumed. -/
def resumptions (state : FPersistentConnection K V A) (index : Nat) : Nat :=
  state.outputs.countP (Output.resumes index)

/-- Nothing that concerns gets has changed. -/
structure KeepsGets (state state' : FPersistentConnection K V A) : Prop where
  outstandingGets : state'.outstandingGets = state.outstandingGets
  getCounter : state'.getCounter = state.getCounter
  resumptions : ∀ index, state'.resumptions index = state.resumptions index

/-- Outputs that resume no get keep the gets. -/
theorem resumptions_append {outputs : List (Output K A)} (h : state'.outputs = state.outputs ++ outputs)
    (hnone : ∀ index, ∀ output ∈ outputs, output.resumes index = false) (index : Nat) :
    state'.resumptions index = state.resumptions index := by
  have hzero : outputs.countP (Output.resumes index) = 0 :=
    List.countP_eq_zero.mpr fun output houtput => by rw [hnone index output houtput]; exact Bool.false_ne_true
  rw [resumptions, resumptions, h, List.countP_append, hzero, Nat.add_zero]

/-- The state of a connection. -/
def stateOf (state : FPersistentConnection K V A) (id : Nat) : Option FConnectionState :=
  (state.connections[id]?).map FConnection.state

variable {id : Nat}

theorem isLive_iff : state.isLive id = true ↔ ∃ s ∈ state.stateOf id, s ≠ .disconnected := by
  rw [isLive, stateOf]
  cases state.connections[id]? <;> simp

theorem isConnected_iff : state.isConnected id = true ↔ state.stateOf id = some .connected := by
  rw [isConnected, stateOf]
  cases state.connections[id]? <;> simp

/-- The held connection has become ready. -/
def CanSend (state : FPersistentConnection K V A) : Prop :=
  ∃ id, state.realtime = some id ∧ state.isConnected id = true

/-- Requests are only made in such states. -/
def Ready (state : FPersistentConnection K V A) : Prop := state.connected = true ∨ state.CanSend

/-- Requests are sent, and the bookkeeping of the client changes. -/
inductive Sends (s : FPersistentConnection K V A) : FPersistentConnection K V A → Prop
  | refl : Sends s s
  | keep {s' s'' : FPersistentConnection K V A} (h : Sends s s') (hkeeps : s'.Keeps s'')
      (hgets : s'.KeepsGets s'') : Sends s s''
  | action {s' : FPersistentConnection K V A} (h : Sends s s') (hready : s'.Ready)
      (request : ServerRequest K V A) (callback : Option (RequestCallback K V))
      (hcallback : ∀ index, callback ≠ some (.get index)) : Sends s (s'.sendAction request callback)
  | get {s' : FPersistentConnection K V A} (h : Sends s s') (hready : s'.Ready) (index : Nat) :
      Sends s (s'.sendGet index)

theorem sendAction_connectionState (state : FPersistentConnection K V A) (request : ServerRequest K V A)
    (callback : Option (RequestCallback K V)) :
    (state.sendAction request callback).connectionState = state.connectionState := by
  unfold sendAction
  split <;> rfl

theorem sendAction_realtime (state : FPersistentConnection K V A) (request : ServerRequest K V A)
    (callback : Option (RequestCallback K V)) : (state.sendAction request callback).realtime = state.realtime := by
  unfold sendAction
  split <;> rfl

theorem stateOf_modify (update : FConnection (ServerRequest K V A) → FConnection (ServerRequest K V A))
    (h : state'.connections = state.connections.modify id update)
    (hupdate : ∀ connection, (update connection).state = connection.state) (id' : Nat) :
    state'.stateOf id' = state.stateOf id' := by
  rw [stateOf, stateOf, h, List.getElem?_modify]
  cases state.connections[id']? with
  | none => rfl
  | some connection =>
      by_cases hid : id = id'
      · simp [hid, hupdate]
      · simp [hid]

theorem stateOf_updateWebSocket (state : FPersistentConnection K V A) (id : Nat)
    (update : FWebSocketConnection → FWebSocketConnection) (id' : Nat) :
    (state.updateWebSocket id update).stateOf id' = state.stateOf id' :=
  stateOf_modify (fun connection => { connection with webSocket := update connection.webSocket }) rfl
    (fun _ => rfl) id'

theorem isLive_of_stateOf (h : state'.stateOf id = state.stateOf id) : state'.isLive id = state.isLive id := by
  rw [Bool.eq_iff_iff, isLive_iff, isLive_iff, h]

theorem stateOf_sendAction (state : FPersistentConnection K V A) (request : ServerRequest K V A)
    (callback : Option (RequestCallback K V)) (id : Nat) :
    (state.sendAction request callback).stateOf id = state.stateOf id := by
  unfold sendAction
  split
  · rfl
  · exact stateOf_modify (fun connection => connection.sendRequest state.requestNumber request) rfl (fun _ => rfl) id

theorem sendGet_eq (state : FPersistentConnection K V A) (index : Nat) :
    state.sendGet index = state ∨ ∃ gets request,
      state.sendGet index = sendAction { state with outstandingGets := gets } request (some (.get index)) := by
  rw [sendGet]
  cases get index state.outstandingGets with
  | none => exact Or.inl rfl
  | some found =>
      dsimp only
      split_ifs
      · exact Or.inl rfl
      · exact Or.inr ⟨_, _, rfl⟩

namespace Sends

theorem trans (h : Sends state state') (h' : Sends state' state'') : Sends state state'' := by
  induction h' with
  | refl => exact h
  | keep _ hkeeps hgets ih => exact ih.keep hkeeps hgets
  | action _ hready request callback hcallback ih => exact ih.action hready request callback hcallback
  | get _ hready index ih => exact ih.get hready index

theorem connectionState (h : Sends state state') : state'.connectionState = state.connectionState := by
  induction h with
  | refl => rfl
  | keep _ hkeeps _ ih => exact hkeeps.connectionState.trans ih
  | action _ _ request callback _ ih => exact (sendAction_connectionState _ request callback).trans ih
  | @get state' _ _ index ih =>
      rcases sendGet_eq state' index with heq | ⟨gets, request, heq⟩
      · rw [heq, ih]
      · rw [heq, sendAction_connectionState, ih]

theorem realtime (h : Sends state state') : state'.realtime = state.realtime := by
  induction h with
  | refl => rfl
  | keep _ hkeeps _ ih => exact hkeeps.realtime.trans ih
  | action _ _ request callback _ ih => exact (sendAction_realtime _ request callback).trans ih
  | @get state' _ _ index ih =>
      rcases sendGet_eq state' index with heq | ⟨gets, request, heq⟩
      · rw [heq, ih]
      · rw [heq, sendAction_realtime, ih]

theorem stateOf (h : Sends state state') (id : Nat) : state'.stateOf id = state.stateOf id := by
  induction h with
  | refl => rfl
  | keep _ hkeeps _ ih => rw [FPersistentConnection.stateOf, hkeeps.connections]; exact ih
  | action _ _ request callback _ ih => exact (stateOf_sendAction _ request callback id).trans ih
  | @get state' _ _ index ih =>
      rcases sendGet_eq state' index with heq | ⟨gets, request, heq⟩
      · rw [heq, ih]
      · rw [heq, stateOf_sendAction]
        exact ih

theorem canSend_iff (h : Sends state state') : state'.CanSend ↔ state.CanSend := by
  simp only [CanSend, isConnected_iff, h.realtime, h.stateOf]

theorem connected (h : Sends state state') : state'.connected = state.connected := by
  rw [FPersistentConnection.connected, h.connectionState]
  rfl

theorem ready_iff (h : Sends state state') : state'.Ready ↔ state.Ready := by
  rw [Ready, h.connected, h.canSend_iff]
  rfl

theorem of_keeps (hkeeps : state.Keeps state') (hgets : state.KeepsGets state') : Sends state state' :=
  Sends.refl.keep hkeeps hgets

end Sends

theorem sends_sendAction (hready : state.Ready) (request : ServerRequest K V A)
    (callback : Option (RequestCallback K V)) (hcallback : ∀ index, callback ≠ some (.get index)) :
    Sends state (state.sendAction request callback) :=
  Sends.refl.action hready request callback hcallback

theorem sends_sendListen (hready : state.Ready) (listenSpec : FOutstandingQuery K V) :
    Sends state (state.sendListen listenSpec) :=
  (sends_sendAction hready _ _ fun _ => by rintro ⟨⟩).keep ⟨rfl, rfl, rfl, rfl, rfl, rfl, rfl⟩ ⟨rfl, rfl, fun _ => rfl⟩

theorem sends_sendOnDisconnectAction (hready : state.Ready) (tuple : OnDisconnectTuple K A) :
    Sends state (state.sendOnDisconnectAction tuple) :=
  sends_sendAction hready _ _ fun _ => by rintro ⟨⟩

theorem sends_sendPut (hready : state.Ready) (index : Nat) : Sends state (state.sendPut index) := by
  rw [sendPut]
  cases get index state.outstandingPuts with
  | none => exact .refl
  | some put =>
      have hmarked : Sends state
          { state with outstandingPuts := set (· < ·) index { put with sent := true } state.outstandingPuts } :=
        .of_keeps ⟨rfl, rfl, rfl, rfl, rfl, rfl, rfl⟩ ⟨rfl, rfl, fun _ => rfl⟩
      exact hmarked.action (hmarked.ready_iff.mpr hready) _ _ fun _ => by rintro ⟨⟩

theorem sends_foldl {α : Type} {send : FPersistentConnection K V A → α → FPersistentConnection K V A}
    (hsend : ∀ {state}, state.Ready → ∀ a, Sends state (send state a)) (hready : state.Ready) (l : List α) :
    Sends state (l.foldl send state) := by
  induction l generalizing state with
  | nil => exact .refl
  | cons a l ih => exact (hsend hready a).trans (ih ((hsend hready a).ready_iff.mpr hready))

theorem sends_restoreState (hready : state.Ready) : Sends state state.restoreState := by
  unfold restoreState
  extract_lets listened putted gotten queued
  have hlistened : Sends state listened := sends_foldl sends_sendListen hready _
  have hputted : Sends listened putted := sends_foldl sends_sendPut (hlistened.ready_iff.mpr hready) _
  have hgotten : Sends listened gotten :=
    hputted.trans (sends_foldl (fun hready index => Sends.refl.get hready index)
      ((hlistened.trans hputted).ready_iff.mpr hready) _)
  have hqueued : Sends listened queued :=
    hgotten.trans (sends_foldl sends_sendOnDisconnectAction ((hlistened.trans hgotten).ready_iff.mpr hready) _)
  exact (hlistened.trans hqueued).keep ⟨rfl, rfl, rfl, rfl, rfl, rfl, rfl⟩ ⟨rfl, rfl, fun _ => rfl⟩

/-! ### What only sends -/

/-- Outputs that resume no get, with changes of the bookkeeping. -/
theorem sends_of_outputs {outputs : List (Output K A)} (hkeeps : state.Keeps state')
    (hgets : state'.outstandingGets = state.outstandingGets) (hcounter : state'.getCounter = state.getCounter)
    (houtputs : state'.outputs = state.outputs ++ outputs)
    (hnone : ∀ index, ∀ output ∈ outputs, output.resumes index = false) : Sends state state' :=
  .of_keeps hkeeps ⟨hgets, hcounter, resumptions_append houtputs hnone⟩

theorem sends_output {output : Output K A} (hnone : ∀ index, output.resumes index = false) :
    Sends state (state.output output) :=
  sends_of_outputs ⟨rfl, rfl, rfl, rfl, rfl, rfl, rfl⟩ rfl rfl rfl fun index _ houtput =>
    List.mem_singleton.mp houtput ▸ hnone index

theorem sends_endFetch (attempt : Nat) : Sends state (state.endFetch attempt) :=
  .of_keeps ⟨rfl, rfl, rfl, rfl, rfl, rfl, rfl⟩ ⟨rfl, rfl, fun _ => rfl⟩

theorem ready_of_connected (h : state.connected = true) : state.Ready := Or.inl h

theorem ready_of_canSendWrites (h : state.canSendWrites = true) : state.Ready :=
  Or.inl (decide_eq_true (Or.inr (of_decide_eq_true h)))

theorem ready_of_canSendReads (h : state.canSendReads = true) : state.Ready :=
  ready_of_canSendWrites h

theorem sends_putInternal (put : FOutstandingPut K A) : Sends state (state.putInternal put) := by
  have hadded : Sends state
      { state with
        putCounter := state.putCounter + 1
        outstandingPuts := set (· < ·) state.putCounter put state.outstandingPuts } :=
    .of_keeps ⟨rfl, rfl, rfl, rfl, rfl, rfl, rfl⟩ ⟨rfl, rfl, fun _ => rfl⟩
  unfold putInternal
  extract_lets index added
  split_ifs with hwrites
  · exact hadded.trans (sends_sendPut (ready_of_canSendWrites hwrites) _)
  · exact hadded

theorem sends_foldl_putInternal (puts : List (FOutstandingPut K A)) :
    Sends state (puts.foldl putInternal state) := by
  induction puts generalizing state with
  | nil => exact .refl
  | cons put puts ih => exact (sends_putInternal put).trans ih

theorem sends_onDisconnectData (action : OnDisconnectAction) (path : FPath K) (data : Option A) :
    Sends state (state.onDisconnectData action path data) := by
  have hnext : Sends state { state with onDisconnectCounter := state.onDisconnectCounter + 1 } :=
    .of_keeps ⟨rfl, rfl, rfl, rfl, rfl, rfl, rfl⟩ ⟨rfl, rfl, fun _ => rfl⟩
  unfold onDisconnectData
  extract_lets tuple next
  split_ifs with hwrites
  · exact hnext.trans (sends_sendOnDisconnectAction (ready_of_canSendWrites hwrites) tuple)
  · exact hnext.keep ⟨rfl, rfl, rfl, rfl, rfl, rfl, rfl⟩ ⟨rfl, rfl, fun _ => rfl⟩

theorem sends_sendAuthAndRestoreStateAfterComplete (hready : state.Ready) (restore : Bool) :
    Sends state (state.sendAuthAndRestoreStateAfterComplete restore) := by
  unfold sendAuthAndRestoreStateAfterComplete
  split
  · exact .refl
  · exact sends_sendAction hready _ _ fun _ => by rintro ⟨⟩

theorem sends_refreshAuthToken (token : Option String) : Sends state (state.refreshAuthToken token) := by
  have hrefreshed : Sends state { state with authToken := token } :=
    .of_keeps ⟨rfl, rfl, rfl, rfl, rfl, rfl, rfl⟩ ⟨rfl, rfl, fun _ => rfl⟩
  unfold refreshAuthToken
  extract_lets refreshed
  split_ifs with hconnected
  · exact hrefreshed.trans (sends_sendAction (ready_of_connected hconnected) _ _ fun _ => by rintro ⟨⟩)
  · exact hrefreshed.trans (sends_sendAuthAndRestoreStateAfterComplete (ready_of_connected hconnected) _)
  · exact hrefreshed

theorem sends_refreshAppCheckToken (token : String) : Sends state (state.refreshAppCheckToken token) := by
  unfold refreshAppCheckToken
  split_ifs with hconnected htoken
  · exact .refl
  · exact .refl
  · refine sends_sendAction (ready_of_connected ?_) _ _ fun _ => by rintro ⟨⟩
    simpa using hconnected

theorem sends_ackPuts : Sends state state.ackPuts :=
  sends_of_outputs ⟨rfl, rfl, rfl, rfl, rfl, rfl, rfl⟩ rfl rfl rfl fun _ _ houtput => by
    obtain ⟨put, _, rfl⟩ := List.mem_map.mp houtput
    rfl

theorem sends_purgeOutstandingWrites (acknowledging cancelling : List (FOutstandingPut K A)) :
    Sends state (state.purgeOutstandingWrites acknowledging cancelling) := by
  unfold purgeOutstandingWrites
  extract_lets acked cancelled cancelled'
  have hacked : Sends state acked := sends_ackPuts.trans (sends_foldl_putInternal acknowledging)
  have hcancelled : Sends acked cancelled :=
    sends_of_outputs ⟨rfl, rfl, rfl, rfl, rfl, rfl, rfl⟩ rfl rfl rfl fun _ _ houtput => by
      obtain ⟨entry, _, rfl⟩ := List.mem_map.mp houtput
      rfl
  have hcancelled' : Sends cancelled cancelled' := sends_foldl_putInternal cancelling
  refine hacked.trans (hcancelled.trans (hcancelled'.trans ?_))
  refine sends_of_outputs ⟨rfl, rfl, rfl, rfl, rfl, rfl, rfl⟩ rfl rfl rfl fun _ _ houtput => ?_
  obtain ⟨tuple, _, rfl⟩ := List.mem_map.mp houtput
  rfl

theorem sends_getDataAtPath (path : FPath K) (params : A) : Sends
      { state with
        getCounter := state.getCounter + 1
        outstandingGets := set (· < ·) state.getCounter { path, params, sent := false } state.outstandingGets }
      (state.getDataAtPath path params) := by
  unfold getDataAtPath
  extract_lets index added
  split_ifs with hconnected hreads
  · exact .of_keeps ⟨rfl, rfl, rfl, rfl, rfl, rfl, rfl⟩ ⟨rfl, rfl, fun _ => rfl⟩
  · exact Sends.refl.get (ready_of_canSendReads hreads) _
  · exact .refl

theorem sends_onPutResponse (index : Nat) (body : Option (Response A)) :
    Sends state (state.onPutResponse index body) := by
  unfold onPutResponse
  split
  · exact .refl
  · have hremoved : Sends state { state with outstandingPuts := remove index state.outstandingPuts } :=
      .of_keeps ⟨rfl, rfl, rfl, rfl, rfl, rfl, rfl⟩ ⟨rfl, rfl, fun _ => rfl⟩
    extract_lets removed status errorReason
    split_ifs
    · exact hremoved.trans (sends_output fun _ => rfl)
    · exact hremoved.keep ⟨rfl, rfl, rfl, rfl, rfl, rfl, rfl⟩ ⟨rfl, rfl, fun _ => rfl⟩

theorem sends_onDisconnectResponse (number : Nat) (body : Option (Response A)) :
    Sends state (state.onDisconnectResponse number body) := by
  unfold onDisconnectResponse
  split
  · exact sends_output fun _ => rfl
  · exact .refl

theorem sends_onListenRevoked (path : FPath K) : Sends state (state.onListenRevoked path) :=
  sends_of_outputs ⟨rfl, rfl, rfl, rfl, rfl, rfl, rfl⟩ rfl rfl rfl fun _ _ houtput => by
    obtain ⟨listenSpec, _, rfl⟩ := List.mem_map.mp houtput
    rfl

/-! ### Listens -/

section Listens

variable [DatabaseValue V]
variable (query : FQuerySpec K V)

theorem sends_removeListen : Sends state (state.removeListen query) :=
  .of_keeps ⟨rfl, rfl, rfl, rfl, rfl, rfl, rfl⟩ ⟨rfl, rfl, fun _ => rfl⟩

theorem sends_listen (tagId : Option Nat) : Sends state (state.listen query tagId) := by
  unfold listen
  extract_lets outstanding removed added
  have hadded : Sends state added :=
    (sends_removeListen query).keep ⟨rfl, rfl, rfl, rfl, rfl, rfl, rfl⟩ ⟨rfl, rfl, fun _ => rfl⟩
  split_ifs with hconnected
  · exact hadded.trans (sends_sendListen (ready_of_connected hconnected) outstanding)
  · exact hadded

theorem sends_unlisten (tagId : Option Nat) : Sends state (state.unlisten query tagId) := by
  unfold unlisten
  extract_lets removed
  have hremoved : Sends state removed := sends_removeListen query
  split_ifs with hconnected
  · exact hremoved.trans (sends_sendAction (ready_of_connected hconnected.2) _ _ fun _ => by rintro ⟨⟩)
  · exact hremoved

theorem sends_onListenResponse (listenSpec : FOutstandingQuery K V) (body : Option (Response A)) :
    Sends state (state.onListenResponse listenSpec body) := by
  unfold onListenResponse
  extract_lets answered counted
  have hanswered : Sends state answered := by
    dsimp only [answered]
    split
    · split_ifs
      · exact (sends_removeListen _).trans (sends_output fun _ => rfl)
      · exact sends_output fun _ => rfl
      · exact .refl
    · exact .refl
  have hcounted : Sends state counted :=
    hanswered.keep ⟨rfl, rfl, rfl, rfl, rfl, rfl, rfl⟩ ⟨rfl, rfl, fun _ => rfl⟩
  split_ifs
  · exact hcounted.trans sends_ackPuts
  · exact hcounted

end Listens

end FPersistentConnection

end FirebaseSwift.Database
