import Mathlib.Order.Defs.LinearOrder
import FirebaseSwift.Database.ConnectionClosings

/-! Gets across connections. A get that waits is either unsent, or the response to it is awaited on the
connection that is held. This holds in all states of a run exactly if no connection goes while a get that
was sent is unanswered, and every answer to an outstanding get has a status: a sent get is not sent again,
and an answer without a status drops the get. No get is ever resumed twice. -/

namespace FirebaseSwift.Database

open SortedDictionary StepRuns

variable {K V A : Type} [DatabaseKey K]

namespace FPersistentConnection

variable {state state' : FPersistentConnection K V A} {may : Risk → Prop}

/-- The response to a get is awaited on the held connection. -/
def Registered (state : FPersistentConnection K V A) (index : Nat) : Prop :=
  ∃ number id connection request, get number state.requestCBHash = some (.get index) ∧
    state.realtime = some id ∧ state.connections[id]? = some connection ∧
    (number, request) ∈ connection.requests

/-- An outstanding get is unsent, or the response to it is awaited. -/
def Attended (state : FPersistentConnection K V A) (index : Nat) : Prop :=
  ∃ found, get index state.outstandingGets = some found ∧ (found.sent = true → state.Registered index)

/-- Every get is resumed at most once, and attended until then. -/
structure GetsAttended (state : FPersistentConnection K V A) : Prop where
  resumed_once : ∀ index, state.resumptions index ≤ 1
  attended : ∀ index, 1 ≤ index → index < state.getCounter → state.resumptions index = 0 → state.Attended index

/-- The numbers of gets and requests. -/
structure GetsFormed (state : FPersistentConnection K V A) : Prop where
  sorted : Sorted (· < ·) state.outstandingGets
  outstanding : ∀ index found, get index state.outstandingGets = some found →
    1 ≤ index ∧ index < state.getCounter ∧ state.resumptions index = 0
  resumed_once : ∀ index, state.resumptions index ≤ 1
  unissued : ∀ index, state.getCounter ≤ index → state.resumptions index = 0
  counter : 1 ≤ state.getCounter
  requests : ∀ number callback, get number state.requestCBHash = some callback → number < state.requestNumber

theorem GetsFormed.of_keepsGets (h : state.GetsFormed) (hgets : state.KeepsGets state')
    (hrequests : ∀ number callback, get number state'.requestCBHash = some callback →
      number < state'.requestNumber) : state'.GetsFormed := by
  obtain ⟨houtstanding, hcounter, hresumptions⟩ := hgets
  refine ⟨?_, fun index found hfound => ?_, fun index => ?_, fun index hindex => ?_, ?_, hrequests⟩
  · rw [houtstanding]
    exact h.sorted
  · rw [hcounter, hresumptions]
    exact h.outstanding index found (houtstanding ▸ hfound)
  · rw [hresumptions]
    exact h.resumed_once index
  · rw [hresumptions]
    exact h.unissued index (hcounter ▸ hindex)
  · rw [hcounter]
    exact h.counter

theorem sendAction_keepsGets (state : FPersistentConnection K V A) (request : ServerRequest K V A)
    (callback : Option (RequestCallback K V)) : state.KeepsGets (state.sendAction request callback) := by
  unfold sendAction
  split <;> exact ⟨rfl, rfl, fun _ => rfl⟩

theorem GetsFormed.sendAction (h : state.GetsFormed) (request : ServerRequest K V A)
    (callback : Option (RequestCallback K V)) : (state.sendAction request callback).GetsFormed := by
  refine h.of_keepsGets (sendAction_keepsGets state request callback) fun number callback' hcallback => ?_
  unfold FPersistentConnection.sendAction at hcallback ⊢
  split at hcallback
  · exact h.requests number callback' hcallback
  · cases callback with
    | none => exact (h.requests number callback' hcallback).trans (Nat.lt_succ_self _)
    | some callback =>
        dsimp only at hcallback ⊢
        rw [get_set] at hcallback
        split_ifs at hcallback with hnumber
        · exact hnumber ▸ Nat.lt_succ_self _
        · exact (h.requests number callback' hcallback).trans (Nat.lt_succ_self _)

variable {index : Nat} {found : FOutstandingGet K A}

/-- A get is marked as sent. -/
theorem GetsFormed.mark (h : state.GetsFormed) (hfound : get index state.outstandingGets = some found) : GetsFormed
      { state with outstandingGets := set (· < ·) index { found with sent := true } state.outstandingGets } := by
  refine ⟨h.sorted.set _ _ _, fun index' found' hfound' => ?_, h.resumed_once, h.unissued, h.counter, h.requests⟩
  dsimp only at hfound'
  rw [get_set] at hfound'
  split_ifs at hfound' with hindex
  · exact hindex ▸ h.outstanding index found hfound
  · exact h.outstanding index' found' hfound'

theorem GetsFormed.sendGet (h : state.GetsFormed) (index : Nat) : (state.sendGet index).GetsFormed := by
  unfold FPersistentConnection.sendGet
  cases hfound : get index state.outstandingGets with
  | none => exact h
  | some found =>
      dsimp only
      split_ifs
      · exact h
      · exact (h.mark hfound).sendAction _ _

theorem GetsFormed.sends (h : state.GetsFormed) (hsends : Sends state state') : state'.GetsFormed := by
  induction hsends with
  | refl => exact h
  | keep _ hkeeps hgets ih =>
      refine ih.of_keepsGets hgets fun number callback hcallback => ?_
      rw [hkeeps.requestNumber]
      exact ih.requests number callback (hkeeps.requestCBHash ▸ hcallback)
  | action _ _ request callback _ ih => exact ih.sendAction request callback
  | get _ _ index ih => exact ih.sendGet index

theorem resumptions_output (state : FPersistentConnection K V A) (output : Output K A) (index : Nat) :
    (state.output output).resumptions index = state.resumptions index + if output.resumes index then 1 else 0 := by
  rw [resumptions, FPersistentConnection.output, List.countP_append, List.countP_singleton]
  rfl

/-- A get that is resumed is outstanding no longer. -/
theorem GetsFormed.resumeGet (h : state.GetsFormed) (hget : get index state.outstandingGets ≠ none)
    (result : FOutstandingGetResultData A) :
    (output { state with outstandingGets := remove index state.outstandingGets } (.get index result)).GetsFormed := by
  obtain ⟨found, hfound⟩ := Option.ne_none_iff_exists'.mp hget
  obtain ⟨_, hissued, hzero⟩ := h.outstanding index found hfound
  have hresumptions : ∀ index',
      (output { state with outstandingGets := remove index state.outstandingGets }
        (.get index result)).resumptions index' = state.resumptions index' + if index = index' then 1 else 0 := by
    intro index'
    rw [resumptions_output]
    simp only [Output.resumes, decide_eq_true_eq]
    rfl
  refine ⟨h.sorted.remove index, fun index' found' hfound' => ?_, fun index' => ?_, fun index' hindex => ?_,
    h.counter, h.requests⟩
  · have hne : index' ≠ index := by
      rintro rfl
      rw [FPersistentConnection.output] at hfound'
      dsimp only at hfound'
      rw [get_remove_self] at hfound'
      cases hfound'
    rw [hresumptions, if_neg (Ne.symm hne), Nat.add_zero]
    refine h.outstanding index' found' ?_
    rw [← get_remove_of_ne hne]
    exact hfound'
  · rw [hresumptions]
    split_ifs with hindex
    · rw [← hindex, hzero]
    · exact h.resumed_once index'
  · have hne : index ≠ index' := by
      rintro rfl
      exact absurd hissued (Nat.not_lt.mpr hindex)
    rw [hresumptions, if_neg hne]
    exact h.unissued index' hindex

theorem GetsFormed.addGet (h : state.GetsFormed) (path : FPath K) (params : A) : GetsFormed
      { state with
        getCounter := state.getCounter + 1
        outstandingGets := set (· < ·) state.getCounter { path, params, sent := false } state.outstandingGets } := by
  refine ⟨h.sorted.set _ _ _, fun index found hfound => ?_, h.resumed_once,
    fun index hindex => h.unissued index (Nat.le_of_succ_le hindex), h.counter.trans (Nat.le_succ _), h.requests⟩
  dsimp only at hfound ⊢
  rw [get_set] at hfound
  split_ifs at hfound with hindex
  · exact ⟨hindex ▸ h.counter, hindex ▸ Nat.lt_succ_self _, h.unissued index hindex.ge⟩
  · obtain ⟨hpos, hlt, hzero⟩ := h.outstanding index found hfound
    exact ⟨hpos, hlt.trans (Nat.lt_succ_self _), hzero⟩

theorem GetsFormed.forgetGet (h : state.GetsFormed) (index : Nat) :
    GetsFormed { state with outstandingGets := remove index state.outstandingGets } := by
  refine ⟨h.sorted.remove index, fun index' found hfound => ?_, h.resumed_once, h.unissued, h.counter, h.requests⟩
  dsimp only at hfound
  rw [get_remove] at hfound
  split_ifs at hfound
  exact h.outstanding index' found hfound

variable {id : Nat}

theorem closeConnection_keepsGets (hlive : state.isLive id = true) (reason : FDisconnectReason) :
    state.KeepsGets (state.closeConnection id reason) := by
  rw [closeConnection_of_live hlive]
  obtain ⟨houtstanding, hcounter, hresumptions⟩ := keepsGets_onDisconnect
    { state with connections := state.connections.modify id fun connection => connection.close reason }
  exact ⟨houtstanding, hcounter, hresumptions⟩

theorem GetsFormed.closeConnection (h : state.GetsFormed) (hlive : state.isLive id = true)
    (reason : FDisconnectReason) : (state.closeConnection id reason).GetsFormed := by
  refine h.of_keepsGets (closeConnection_keepsGets hlive reason) fun number callback hcallback => ?_
  rw [closeConnection_of_live hlive, onDisconnect_requestCBHash] at hcallback
  cases hcallback

theorem GetsFormed.move (h : state.GetsFormed) (hmove : Move may state state') : state'.GetsFormed := by
  cases hmove with
  | sends hsends => exact h.sends hsends
  | schedule =>
      unfold tryScheduleReconnect
      split_ifs
      · exact h.of_keepsGets ⟨rfl, rfl, fun _ => rfl⟩ h.requests
      · exact h
  | cancelRetry => exact h.of_keepsGets ⟨rfl, rfl, fun _ => rfl⟩ h.requests
  | disconnected => exact h.of_keepsGets ⟨rfl, rfl, fun _ => rfl⟩ h.requests
  | fetch => exact h.of_keepsGets ⟨rfl, rfl, fun _ => rfl⟩ h.requests
  | opens => exact h.of_keepsGets ⟨rfl, rfl, fun _ => rfl⟩ h.requests
  | ready => exact h.of_keepsGets ⟨rfl, rfl, fun _ => rfl⟩ h.requests
  | becomes => exact h.of_keepsGets ⟨rfl, rfl, fun _ => rfl⟩ h.requests
  | forget number =>
      refine h.of_keepsGets ⟨rfl, rfl, fun _ => rfl⟩ fun number' callback hcallback => ?_
      dsimp only at hcallback
      rw [get_remove] at hcallback
      split_ifs at hcallback
      exact h.requests number' callback hcallback
  | close id reason _ hlive => exact h.closeConnection hlive reason
  | webSocket => exact h.of_keepsGets ⟨rfl, rfl, fun _ => rfl⟩ h.requests
  | conn => exact h.of_keepsGets ⟨rfl, rfl, fun _ => rfl⟩ h.requests
  | addGet path params => exact h.addGet path params
  | resumeGet index result hget => exact h.resumeGet hget result
  | forgetGet index => exact h.forgetGet index

theorem GetsFormed.moves (h : state.GetsFormed) (hmoves : Moves may state state') : state'.GetsFormed := by
  induction hmoves with
  | refl => exact h
  | tail _ hmove ih => exact ih.move hmove

theorem GetsFormed.empty : GetsFormed ({} : FPersistentConnection K V A) where
  sorted := sorted_nil _
  outstanding := nofun
  resumed_once := fun _ => Nat.zero_le 1
  unissued := fun _ _ => rfl
  counter := Nat.le_refl 1
  requests := nofun

/-! ### Attended gets -/

/-- Every get that was issued and not resumed is attended. -/
def AllAttended (state : FPersistentConnection K V A) : Prop :=
  ∀ index, 1 ≤ index → index < state.getCounter → state.resumptions index = 0 → state.Attended index

theorem Registered.modify (update : FConnection (ServerRequest K V A) → FConnection (ServerRequest K V A))
    (hupdate : ∀ connection, connection.requests ⊆ (update connection).requests)
    (hconnections : state'.connections = state.connections.modify id update)
    (hrealtime : state'.realtime = state.realtime)
    (hrequests : ∀ number, get number state.requestCBHash = some (.get index) →
      get number state'.requestCBHash = some (.get index)) (h : state.Registered index) :
    state'.Registered index := by
  obtain ⟨number, id', connection, request, hcallback, hid, hconnection, hrequest⟩ := h
  refine ⟨number, id', if id = id' then update connection else connection, request, hrequests number hcallback,
    hrealtime.trans hid, ?_, ?_⟩
  · rw [hconnections, List.getElem?_modify, hconnection]
    split_ifs <;> rfl
  · split_ifs
    · exact hupdate connection hrequest
    · exact hrequest

theorem Registered.sendAction (h : state.Registered index) (hformed : state.GetsFormed)
    (request : ServerRequest K V A) (callback : Option (RequestCallback K V)) :
    (state.sendAction request callback).Registered index := by
  have hrealtime := sendAction_realtime state request callback
  unfold FPersistentConnection.sendAction at hrealtime ⊢
  split
  · exact h
  · refine h.modify (fun connection => connection.sendRequest state.requestNumber request)
      (fun _ => List.subset_append_left _ _) rfl rfl fun number hcallback => ?_
    cases callback with
    | none => exact hcallback
    | some callback =>
        dsimp only
        rw [get_set_of_ne _ (hformed.requests number _ hcallback).ne]
        exact hcallback

/-- A get that is sent is awaited. -/
theorem registered_sendAction (hrealtime : state.realtime = some id) (hlive : state.isLive id = true)
    (request : ServerRequest K V A) : (state.sendAction request (some (.get index))).Registered index := by
  obtain ⟨connection, hconnection, _⟩ := (Option.any_eq_true _ _).mp hlive
  unfold FPersistentConnection.sendAction
  simp only [hrealtime]
  refine ⟨state.requestNumber, id, connection.sendRequest state.requestNumber request, request,
    get_set_self _ _ _ _, rfl, ?_, List.mem_append_right _ (List.mem_singleton_self _)⟩
  rw [List.getElem?_modify_eq, hconnection]
  rfl

theorem AllAttended.sendAction (h : state.AllAttended) (hformed : state.GetsFormed)
    (request : ServerRequest K V A) (callback : Option (RequestCallback K V)) :
    (state.sendAction request callback).AllAttended := by
  obtain ⟨houtstanding, hcounter, hresumptions⟩ := sendAction_keepsGets state request callback
  intro index hpos hlt hzero
  rw [hcounter] at hlt
  rw [hresumptions] at hzero
  obtain ⟨found, hfound, hsent⟩ := h index hpos hlt hzero
  exact ⟨found, houtstanding ▸ hfound, fun hs => (hsent hs).sendAction hformed request callback⟩

theorem AllAttended.sendGet (h : state.AllAttended) (hformed : state.GetsFormed) (hheld : state.Held)
    (hready : state.Ready) (index : Nat) : (state.sendGet index).AllAttended := by
  have hrealtime : state.realtime ≠ none := by
    rcases hready with hconnected | ⟨id, hid, _⟩
    · exact hheld.connected hconnected
    · exact hid ▸ Option.some_ne_none id
  obtain ⟨id, hid⟩ := Option.ne_none_iff_exists'.mp hrealtime
  unfold FPersistentConnection.sendGet
  cases hfound : get index state.outstandingGets with
  | none => exact h
  | some found =>
      dsimp only
      split_ifs
      · exact h
      · have hmarked := hformed.mark hfound
        generalize hstate :
          { state with outstandingGets := set (· < ·) index { found with sent := true } state.outstandingGets } =
            marked at hmarked ⊢
        have hregistered : ∀ index', state.Registered index' → marked.Registered index' := hstate ▸ fun _ h => h
        have hmarkedId : marked.realtime = some id := by
          rw [← hstate]
          exact hid
        have hlive : marked.isLive id = true := by
          rw [← hstate]
          exact hheld.live id hid
        have hgets : marked.outstandingGets =
            set (· < ·) index { found with sent := true } state.outstandingGets := hstate ▸ rfl
        obtain ⟨houtstanding, hcounter, hresumptions⟩ :=
          sendAction_keepsGets marked (.get found.path found.params) (some (.get index))
        intro index' hpos hlt hzero
        have hlt' : index' < state.getCounter := by
          rw [hcounter, ← hstate] at hlt
          exact hlt
        have hzero' : state.resumptions index' = 0 := by
          rw [hresumptions, ← hstate] at hzero
          exact hzero
        by_cases hindex : index' = index
        · refine ⟨{ found with sent := true }, ?_, fun _ => ?_⟩
          · rw [houtstanding, hgets, hindex, get_set_self]
          · rw [hindex]
            exact registered_sendAction hmarkedId hlive _
        · obtain ⟨found', hfound', hsent⟩ := h index' hpos hlt' hzero'
          refine ⟨found', ?_, fun hs => (hregistered index' (hsent hs)).sendAction hmarked _ _⟩
          rw [houtstanding, hgets, get_set_of_ne _ hindex]
          exact hfound'

theorem AllAttended.sends (h : state.AllAttended) (hformed : state.GetsFormed) (hheld : state.Held)
    (hsends : Sends state state') : state'.AllAttended := by
  induction hsends with
  | refl => exact h
  | keep _ hkeeps hgets ih =>
      intro index hpos hlt hzero
      rw [hgets.getCounter] at hlt
      rw [hgets.resumptions] at hzero
      obtain ⟨found, hfound, hsent⟩ := ih index hpos hlt hzero
      refine ⟨found, hgets.outstandingGets ▸ hfound, fun hs => ?_⟩
      obtain ⟨number, id, connection, request, hcallback, hid, hconnection, hrequest⟩ := hsent hs
      exact ⟨number, id, connection, request, hkeeps.requestCBHash ▸ hcallback, hkeeps.realtime ▸ hid,
        hkeeps.connections ▸ hconnection, hrequest⟩
  | action hsends _ request callback _ ih => exact ih.sendAction (hformed.sends hsends) request callback
  | get hsends hready index ih =>
      exact ih.sendGet (hformed.sends hsends) (hheld.moves (moves_sends hsends : Moves (fun _ => True) _ _)) hready index

theorem AllAttended.modify (h : state.AllAttended) (id : Nat)
    (update : FConnection (ServerRequest K V A) → FConnection (ServerRequest K V A))
    (hupdate : ∀ connection, (update connection).requests = connection.requests) :
    AllAttended { state with connections := state.connections.modify id update } := by
  intro index hpos hlt hzero
  obtain ⟨found, hfound, hsent⟩ := h index hpos hlt hzero
  exact ⟨found, hfound, fun hs => (hsent hs).modify update
    (fun connection => (hupdate connection).symm ▸ List.Subset.refl _) rfl rfl fun _ hcallback => hcallback⟩

/-- Moves keep gets attended as long as the connection stays and gets are answered with a status. -/
theorem AllAttended.move (h : state.AllAttended) (hformed : state.GetsFormed) (hheld : state.Held)
    (hdrops : ¬ may .drops) (hforgets : ¬ may .forgetsGet) (hmove : Move may state state') : state'.AllAttended := by
  cases hmove with
  | sends hsends => exact h.sends hformed hheld hsends
  | schedule =>
      unfold tryScheduleReconnect
      split_ifs <;> exact h
  | cancelRetry => exact h
  | disconnected => exact h
  | fetch => exact h
  | opens token result hstate hmay =>
      intro index hpos hlt hzero
      obtain ⟨found, hfound, hsent⟩ := h index hpos hlt hzero
      refine ⟨found, hfound, fun hs => ?_⟩
      obtain ⟨_, id, _, _, _, hid, _⟩ := hsent hs
      exact absurd (hmay (hid ▸ Option.some_ne_none id)) hdrops
  | ready id => exact h.modify id _ fun _ => rfl
  | becomes => exact h
  | forget number hget =>
      intro index hpos hlt hzero
      obtain ⟨found, hfound, hsent⟩ := h index hpos hlt hzero
      refine ⟨found, hfound, fun hs => ?_⟩
      obtain ⟨number', id, connection, request, hcallback, hid, hconnection, hrequest⟩ := hsent hs
      refine ⟨number', id, connection, request, ?_, hid, hconnection, hrequest⟩
      have hne : number' ≠ number := by
        rintro rfl
        rw [hget index hcallback] at hfound
        cases hfound
      dsimp only
      rw [get_remove_of_ne hne]
      exact hcallback
  | close id reason _ _ hmay => exact absurd hmay hdrops
  | webSocket id update => exact h.modify id _ fun _ => rfl
  | conn id => exact h.modify id _ fun _ => rfl
  | addGet path params =>
      intro index hpos hlt hzero
      by_cases hindex : index = state.getCounter
      · refine ⟨{ path, params, sent := false }, ?_, nofun⟩
        dsimp only
        rw [hindex, get_set_self]
      · obtain ⟨found, hfound, hsent⟩ := h index hpos (by dsimp only at hlt; omega) hzero
        refine ⟨found, ?_, hsent⟩
        dsimp only
        rw [get_set_of_ne _ hindex]
        exact hfound
  | resumeGet index result hget =>
      intro index' hpos hlt hzero
      rw [resumptions_output] at hzero
      obtain ⟨hzero', hother⟩ := Nat.add_eq_zero_iff.mp hzero
      have hne : index' ≠ index := by
        rintro rfl
        simp [Output.resumes] at hother
      obtain ⟨found, hfound, hsent⟩ := h index' hpos hlt hzero'
      refine ⟨found, ?_, hsent⟩
      rw [output]
      dsimp only
      rw [get_remove_of_ne hne]
      exact hfound
  | forgetGet index hmay => exact absurd hmay hforgets

theorem AllAttended.moves (h : state.AllAttended) (hformed : state.GetsFormed) (hheld : state.Held)
    (hdrops : ¬ may .drops) (hforgets : ¬ may .forgetsGet) (hmoves : Moves may state state') :
    state'.AllAttended := by
  induction hmoves with
  | refl => exact h
  | tail hmoves hmove ih => exact ih.move (hformed.moves hmoves) (hheld.moves hmoves) hdrops hforgets hmove

/-! ### Lost connections -/

/-- The gets stay as they are, and no response is awaited any more. -/
structure Lost (state state' : FPersistentConnection K V A) : Prop where
  gets : state.KeepsGets state'
  unregistered : ∀ index, ¬ state'.Registered index

theorem unregistered_of_none (hrealtime : state.realtime = none) (index : Nat) : ¬ state.Registered index := by
  rintro ⟨_, id, _, _, _, hid, _⟩
  rw [hrealtime] at hid
  cases hid

theorem KeepsBooks.keepsGets (h : KeepsBooks state state') : state.KeepsGets state' :=
  ⟨h.outstandingGets, h.getCounter, fun index => by rw [resumptions, resumptions, h.outputs]⟩

theorem ClosesHeld.lost (h : ClosesHeld state state') : state.Lost state' := by
  obtain ⟨dropped, hdropped, hclosed, hnone⟩ := h
  obtain ⟨hbefore, hcounter, hresumptions⟩ := hdropped.keepsGets
  obtain ⟨hgets, hgetCounter, hresumed⟩ := keepsGets_onDisconnect dropped
  obtain ⟨hafter, hcounter', hresumptions'⟩ := hclosed.keepsGets
  exact ⟨⟨hafter.trans (hgets.trans hbefore), hcounter'.trans (hgetCounter.trans hcounter),
    fun index => (hresumptions' index).trans ((hresumed index).trans (hresumptions index))⟩, unregistered_of_none hnone⟩

theorem lost_openNetworkConnection (state : FPersistentConnection K V A) (token : Option String)
    (result : ConnectResult) : state.Lost (state.openNetworkConnection token result) where
  gets := ⟨rfl, rfl, fun _ => rfl⟩
  unregistered := by
    rintro index ⟨_, id, connection, _, _, hid, hconnection, hrequest⟩
    cases hid
    rw [openNetworkConnection, List.getElem?_concat_length] at hconnection
    cases hconnection
    cases hrequest

/-! ### Runs -/

/-- No get that was sent waits for its answer. -/
def noSentGet (self : FPersistentConnection K V A) : Bool := self.outstandingGets.all fun entry => !entry.2.sent

/-- A connection only goes where no sent get waits, and no get is answered without a status. -/
def sparesGets (wire : WireFormat K A) (self : FPersistentConnection K V A) (event : Event K V A) : Bool :=
  (!self.dropsConnection wire event || self.noSentGet) && !self.forgetsGet wire event

theorem GetsFormed.sent_of_not_noSentGet (h : state.GetsFormed) (hsent : state.noSentGet = false) :
    ∃ index found, get index state.outstandingGets = some found ∧ found.sent = true := by
  rw [noSentGet, List.all_eq_false] at hsent
  obtain ⟨⟨index, found⟩, hmem, hfound⟩ := hsent
  exact ⟨index, found, get_of_mem_of_nodup h.sorted.nodup_keys hmem, by simpa using hfound⟩

theorem unsent_of_noSentGet (hnone : state.noSentGet = true)
    (hfound : get index state.outstandingGets = some found) : found.sent = false := by
  have hall := List.all_eq_true.mp hnone _ (mem_of_get hfound)
  simpa using hall

/-- What a run keeps under the condition. -/
structure GetsKept (state : FPersistentConnection K V A) : Prop where
  held : state.Held
  formed : state.GetsFormed
  attended : state.AllAttended

theorem GetsKept.getsAttended (h : state.GetsKept) : state.GetsAttended := ⟨h.formed.resumed_once, h.attended⟩

section Runs

variable [DatabaseValue V]
variable (wire : WireFormat K A) {event : Event K V A}

theorem lost_handle (hheld : state.Held) (hdrops : state.dropsConnection wire event = true) :
    state.Lost (state.handle wire event) := by
  cases event with
  | interruptForReason reason =>
      obtain ⟨id, hrealtime⟩ := Option.isSome_iff_exists.mp hdrops
      exact (closesHeld_interruptForReason hheld hrealtime reason).lost
  | tokenFetched attempt token result =>
      obtain ⟨hlatest, _⟩ := Bool.and_eq_true_iff.mp hdrops
      obtain ⟨hfetching, hattempt⟩ := Bool.and_eq_true_iff.mp hlatest
      simp only [handle, if_pos hfetching, tokenFetched, if_pos (of_decide_eq_true hattempt)]
      have hlost := lost_openNetworkConnection state token result
      exact ⟨⟨hlost.gets.1, hlost.gets.2, hlost.gets.3⟩, hlost.unregistered⟩
  | connection id event =>
      cases event with
      | job position => exact (closesHeld_job wire hheld hdrops).lost
      | _ => cases hdrops
  | _ => cases hdrops

/-- An answer without a status drops the get and resumes nobody. -/
theorem forgotten_handle (hformed : state.GetsFormed) (hforgets : state.forgetsGet wire event = true) :
    ¬ (state.handle wire event).AllAttended := by
  cases event with
  | connection id event =>
      cases event with
      | job position =>
          obtain ⟨message, hbind, hforgets⟩ := (Option.any_eq_true _ _).mp hforgets
          obtain ⟨job, hjob, hdecoded⟩ := Option.bind_eq_some_iff.mp hbind
          obtain ⟨webSocket, hhandled⟩ := handle_jobMessage wire hjob hdecoded
          rw [hhandled]
          cases message with
          | data message =>
              cases message with
              | response number body =>
                  simp only [messageForgetsGet] at hforgets
                  cases hcallback : get number state.requestCBHash with
                  | none =>
                      rw [hcallback] at hforgets
                      cases hforgets
                  | some callback =>
                      rw [hcallback] at hforgets
                      cases callback with
                      | get index =>
                          obtain ⟨hget, hstatus⟩ := Bool.and_eq_true_iff.mp hforgets
                          obtain ⟨found, hfound⟩ := Option.isSome_iff_exists.mp hget
                          obtain ⟨hpos, hlt, hzero⟩ := hformed.outstanding index found hfound
                          intro hall
                          have hcallback' : get number
                              (state.updateWebSocket id fun _ => webSocket).requestCBHash = some (.get index) :=
                            hcallback
                          have hfound' : get index
                              (state.updateWebSocket id fun _ => webSocket).outstandingGets = some found := hfound
                          simp only [onMessage, onDataMessage, hcallback', runCallback, onGetResponse, hfound',
                            Option.isNone_iff_eq_none.mp hstatus] at hall
                          obtain ⟨_, hgone, _⟩ := hall index hpos hlt hzero
                          dsimp only at hgone
                          rw [get_remove_self] at hgone
                          cases hgone
                      | _ => cases hforgets
              | _ => cases hforgets
          | _ => cases hforgets
      | _ => cases hforgets
  | _ => cases hforgets

theorem GetsKept.handle (h : state.GetsKept) (hspares : state.sparesGets wire event = true) :
    (state.handle wire event).GetsKept := by
  obtain ⟨hdrops, hforgets⟩ := Bool.and_eq_true_iff.mp hspares
  have hmoves := moves_handle wire h.held event
  refine ⟨h.held.handle wire event, h.formed.moves hmoves, ?_⟩
  cases hdropping : state.dropsConnection wire event with
  | false =>
      refine h.attended.moves h.formed h.held (fun hrisk => ?_) (fun hrisk => ?_) hmoves
      · rw [risks, hdropping] at hrisk
        cases hrisk
      · rw [risks] at hrisk
        rw [hrisk] at hforgets
        cases hforgets
  | true =>
      rw [hdropping] at hdrops
      obtain ⟨houtstanding, hcounter, hresumptions⟩ := (lost_handle wire h.held hdropping).gets
      intro index hpos hlt hzero
      rw [hcounter] at hlt
      rw [hresumptions] at hzero
      obtain ⟨found, hfound, _⟩ := h.attended index hpos hlt hzero
      refine ⟨found, houtstanding ▸ hfound, fun hs => ?_⟩
      rw [unsent_of_noSentGet hdrops hfound] at hs
      cases hs

theorem GetsKept.sparesGets_of_handle (h : state.GetsKept) (hattended : (state.handle wire event).GetsAttended) :
    state.sparesGets wire event = true := by
  by_contra hspares
  have hnot : (!state.dropsConnection wire event || state.noSentGet) = false ∨
      (!state.forgetsGet wire event) = false := by
    rw [← Bool.and_eq_false_iff]
    exact Bool.eq_false_of_not_eq_true hspares
  rcases hnot with hdrops | hforgets
  · obtain ⟨hdropping, hsent⟩ := Bool.or_eq_false_iff.mp hdrops
    have hlost := lost_handle wire h.held (by simpa using hdropping : state.dropsConnection wire event = true)
    obtain ⟨index, found, hfound, hsent⟩ := h.formed.sent_of_not_noSentGet hsent
    obtain ⟨hpos, hlt, hzero⟩ := h.formed.outstanding index found hfound
    obtain ⟨houtstanding, hcounter, hresumptions⟩ := hlost.gets
    obtain ⟨found', hfound', hregistered⟩ := hattended.attended index hpos (hcounter ▸ hlt)
      ((hresumptions index).trans hzero)
    rw [houtstanding, hfound] at hfound'
    cases hfound'
    exact hlost.unregistered index (hregistered hsent)
  · exact forgotten_handle wire h.formed (by simpa using hforgets) hattended.attended

/-- In all states of a run every get that waits is attended, and no get is resumed twice, exactly if no
connection goes while a sent get waits and no get is answered without a status. -/
theorem getsAttended_run_iff (wire : WireFormat K A) (events : List (Event K V A)) :
    AllSteps (step wire) (fun state event => state.sparesGets wire event = true) {} events ↔
      ∀ before, before <+: events → ∀ state ∈ run (step wire) {} before, state.GetsAttended := by
  have hempty : GetsKept ({} : FPersistentConnection K V A) :=
    ⟨Linked.empty.toHeld, GetsFormed.empty, fun _ _ hlt => by dsimp only at hlt; omega⟩
  refine allSteps_iff_forall_law (fun state event h hspares state' hstate' => ?_)
    (fun _ => GetsKept.getsAttended) (fun state event h state' hstate' hattended => ?_) hempty
    (run_isSome wire {} events)
  · cases hstate'
    exact h.handle wire hspares
  · cases hstate'
    exact h.sparesGets_of_handle wire hattended

/-- The client connects, sends a get, and loses the connection before the answer. -/
def lostGetRun : List (Event String Int Unit) :=
  [.resumeForReason "waiting_for_open", .retryTask 0, .tokenFetched 1 none .connected,
    .connection 0 (.channel .handlerAdded), .connection 0 (.job 0), .connection 0 (.channel (.text ['h'])),
    .connection 0 (.job 0), .getDataAtPath ["a"] (), .connection 0 (.channel .connectionClose),
    .connection 0 (.job 0)]

theorem getsAttended_fails_lostGet :
    ¬∀ (wire : WireFormat String Unit) (events : List (Event String Int Unit))
      (state : FPersistentConnection String Int Unit),
      run (step wire) {} events = some state → state.GetsAttended := by
  intro hall
  have hbad : (run (step handshakeFormat) {} lostGetRun).any (fun state =>
      (get 1 state.outstandingGets).any (fun found => found.sent) && decide (state.realtime = none) &&
        decide (1 < state.getCounter ∧ state.resumptions 1 = 0)) = true := by decide
  obtain ⟨state, hrun, hstate⟩ := (Option.any_eq_true _ _).mp hbad
  obtain ⟨hsentNone, hwaits⟩ := Bool.and_eq_true_iff.mp hstate
  obtain ⟨hsent, hnone⟩ := Bool.and_eq_true_iff.mp hsentNone
  obtain ⟨hissued, hzero⟩ := of_decide_eq_true hwaits
  obtain ⟨found, hfound, hregistered⟩ := (hall _ lostGetRun state hrun).attended 1 (Nat.le_refl 1) hissued hzero
  rw [hfound] at hsent
  exact unregistered_of_none (of_decide_eq_true hnone) 1 (hregistered hsent)

end Runs

end FPersistentConnection

end FirebaseSwift.Database
