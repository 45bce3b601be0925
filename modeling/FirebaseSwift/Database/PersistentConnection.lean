import FirebaseSwift.Database.Connection
import FirebaseSwift.Database.View

/-! The persistent connection of a repo: what the client wants from the server, across connections that
come and go. Every connection ever made is kept, in the order they were made; the one that `realtime`
names is the only one that is still held, so only its callbacks reach their delegate. Completions and
calls of the delegate are recorded in the order they are made. What a completion does in turn is a call
of its own, except for puts made while outstanding writes are purged. Delays are left out: a scheduled
attempt may run at any time. -/

namespace FirebaseSwift.Database

open SortedDictionary

/-! ### Requests and responses -/

/-- A value of a message, as far as it is looked at. -/
inductive ResponseData (A : Type)
  | string (text : String)
  | null
  | emptyDictionary
  | other (value : A)

namespace ResponseData

variable {A : Type}

def asString : ResponseData A → Option String
  | string text => some text
  | _ => none

def isNull : ResponseData A → Bool
  | null => true
  | _ => false

end ResponseData

/-- The body of a response. -/
structure Response (A : Type) where
  status : Option String
  data : Option (ResponseData A)

inductive PutAction
  | put
  | merge
  deriving DecidableEq

inductive OnDisconnectAction
  | put
  | merge
  | cancel
  deriving DecidableEq

/-- The requests with their bodies. The hashes of a listen are left out. -/
inductive ServerRequest (K V A : Type) [DatabaseKey K]
  | auth (credential : String)
  | unauth
  | put (action : PutAction) (path : FPath K) (data : A) (hash : Option String)
  | get (path : FPath K) (params : A)
  | listen (query : FQuerySpec K V) (tagId : Option Nat)
  | unlisten (query : FQuerySpec K V) (tagId : Option Nat)
  | onDisconnect (action : OnDisconnectAction) (path : FPath K) (data : Option A)
  | stats
  | appCheck (token : String)

/-- What the server pushes. -/
inductive ServerPush (K A : Type) [DatabaseKey K]
  | dataUpdate (isMerge : Bool) (path : Option (FPath K)) (data : Option (ResponseData A)) (tagId : Option Nat)
  | rangeMerge (path : Option (FPath K)) (ranges : List A) (tagId : Option Nat)
  | authRevoked (status reason : Option String)
  | listenCancelled (path : Option (FPath K))
  | securityDebug (message : Option String)
  | unsupported

inductive DataMessage (K A : Type) [DatabaseKey K]
  | response (number : Nat) (body : Option (Response A))
  | error (text : String)
  | push (push : ServerPush K A)
  | other

/-- How messages are read: the JSON of a text, and whether a URL of a host has one. -/
structure WireFormat (K A : Type) [DatabaseKey K] where
  decode : List Char → Option (ServerMessage (DataMessage K A))
  urlHasHost : List Char → Bool

/-! ### Outstanding requests -/

/-- An outstanding listen. Each is an object of its own, with its own number. -/
structure FOutstandingQuery (K V : Type) [DatabaseKey K] where
  number : Nat
  query : FQuerySpec K V
  tagId : Option Nat

structure FOutstandingPut (K A : Type) [DatabaseKey K] where
  action : PutAction
  path : FPath K
  data : A
  hash : Option String
  sent : Bool

structure FOutstandingGet (K A : Type) [DatabaseKey K] where
  path : FPath K
  params : A
  sent : Bool

structure OnDisconnectTuple (K A : Type) [DatabaseKey K] where
  number : Nat
  path : FPath K
  action : OnDisconnectAction
  data : Option A

structure PutToAck where
  index : Nat
  status : String
  errorReason : Option String

structure FOutstandingGetResultData (A : Type) where
  status : String
  data : Option (ResponseData A)
  errorReason : Option String

/-- The completions and the calls of the delegate. -/
inductive Output (K A : Type) [DatabaseKey K]
  | get (index : Nat) (result : FOutstandingGetResultData A)
  | put (index : Nat) (status : String) (errorReason : Option String)
  | listen (number : Nat) (status : String)
  | onDisconnectRequest (number : Nat) (status : String) (errorReason : Option String)
  | onDataUpdate (path : FPath K) (message : ResponseData A) (isMerge : Bool) (tagId : Option Nat)
  | onRangeMerge (ranges : List A) (path : FPath K) (tagId : Option Nat)
  | onConnect
  | onDisconnect
  | onServerInfoUpdate (timestamp : Int)

/-- What is done with the response to a request. -/
inductive RequestCallback (K V : Type) [DatabaseKey K]
  | auth (restoreStateAfterComplete : Bool)
  | onDisconnect (number : Nat)
  | put (index : Nat)
  | get (index : Nat)
  | listen (listenSpec : FOutstandingQuery K V)
  | unlisten
  | stats
  | appCheck

/-! ### Scheduled attempts -/

/-- The tasks of scheduled blocks in the order they were made. A block that was cancelled or has run is
gone. -/
structure FIRRetryHelper (β : Type) where
  scheduledRetry : Option Nat := none
  tasks : List (Option β) := []

namespace FIRRetryHelper

variable {β : Type}

def cancel (self : FIRRetryHelper β) : FIRRetryHelper β :=
  match self.scheduledRetry with
  | some task => { scheduledRetry := none, tasks := self.tasks.set task none }
  | none => self

def retry (self : FIRRetryHelper β) (block : β) : FIRRetryHelper β where
  scheduledRetry := some self.cancel.tasks.length
  tasks := self.cancel.tasks ++ [some block]

/-- A task wakes up. There is a block unless it was cancelled. -/
def wake (self : FIRRetryHelper β) (task : Nat) : Option (β × FIRRetryHelper β) :=
  (self.tasks[task]?).join.map fun block =>
    (block, { scheduledRetry := none, tasks := self.tasks.set task none })

end FIRRetryHelper

/-! ### The state -/

inductive ConnectionState
  | disconnected
  | gettingToken
  | connecting
  | authenticating
  | connected
  deriving DecidableEq

/-- The persistent connection, with the connections made so far, the token fetches and the timeouts of
gets under way, and what it has told others. -/
structure FPersistentConnection (K V A : Type) [DatabaseKey K] where
  connectionState : ConnectionState := .disconnected
  firstConnection : Bool := true
  realtime : Option Nat := none
  connections : List (FConnection (ServerRequest K V A)) := []
  listens : List (FOutstandingQuery K V) := []
  listenCounter : Nat := 1
  outstandingPuts : List (Nat × FOutstandingPut K A) := []
  outstandingGets : List (Nat × FOutstandingGet K A) := []
  getTimeouts : List Nat := []
  onDisconnectQueue : List (OnDisconnectTuple K A) := []
  onDisconnectCounter : Nat := 1
  putCounter : Nat := 1
  getCounter : Nat := 1
  requestNumber : Nat := 1
  requestCBHash : List (Nat × RequestCallback K V) := []
  unackedListensCount : Int := 0
  putsToAck : List PutToAck := []
  interruptReasons : List String := []
  retryHelper : FIRRetryHelper Bool := {}
  authToken : Option String := none
  forceTokenRefreshes : Bool := false
  currentFetchTokenAttempt : Nat := 0
  fetches : List (Nat × Bool) := []
  unconnectedSend : Bool := false
  outputs : List (Output K A) := []

variable {K V A : Type} [DatabaseKey K]

namespace FPersistentConnection

def output (self : FPersistentConnection K V A) (output : Output K A) : FPersistentConnection K V A :=
  { self with outputs := self.outputs ++ [output] }

/-- Authenticating or connected. -/
def connected (self : FPersistentConnection K V A) : Bool :=
  decide (self.connectionState = .authenticating ∨ self.connectionState = .connected)

def canSendWrites (self : FPersistentConnection K V A) : Bool :=
  decide (self.connectionState = .connected)

def canSendReads (self : FPersistentConnection K V A) : Bool :=
  decide (self.connectionState = .connected)

def shouldReconnect (self : FPersistentConnection K V A) : Bool := self.interruptReasons.isEmpty

/-- A connection that has not been closed. -/
def isLive (self : FPersistentConnection K V A) (id : Nat) : Bool :=
  (self.connections[id]?).any fun connection => decide (connection.state ≠ .disconnected)

def isConnected (self : FPersistentConnection K V A) (id : Nat) : Bool :=
  (self.connections[id]?).any fun connection => decide (connection.state = .connected)

/-! ### Sending -/

/-- Send a request, and keep what is to be done with the response. A connection that is not connected
would stop the program there. -/
def sendAction (self : FPersistentConnection K V A) (request : ServerRequest K V A)
    (callback : Option (RequestCallback K V)) : FPersistentConnection K V A :=
  match self.realtime with
  | none => self
  | some id =>
      { self with
        requestNumber := self.requestNumber + 1
        unconnectedSend := self.unconnectedSend || !self.isConnected id
        connections := self.connections.modify id fun connection =>
          connection.sendRequest self.requestNumber request
        requestCBHash :=
          match callback with
          | none => self.requestCBHash
          | some callback => set (· < ·) self.requestNumber callback self.requestCBHash }

def sendAuthAndRestoreStateAfterComplete (self : FPersistentConnection K V A) (restore : Bool) :
    FPersistentConnection K V A :=
  match self.authToken with
  | none => self
  | some authToken => self.sendAction (.auth authToken) (some (.auth restore))

def sendUnauth (self : FPersistentConnection K V A) : FPersistentConnection K V A :=
  self.sendAction .unauth none

def sendListen (self : FPersistentConnection K V A) (listenSpec : FOutstandingQuery K V) :
    FPersistentConnection K V A :=
  let sent := self.sendAction (.listen listenSpec.query listenSpec.tagId) (some (.listen listenSpec))
  { sent with unackedListensCount := sent.unackedListensCount + 1 }

def sendUnlisten (self : FPersistentConnection K V A) (query : FQuerySpec K V) (tagId : Option Nat) :
    FPersistentConnection K V A :=
  self.sendAction (.unlisten query tagId) (some .unlisten)

def sendOnDisconnectAction (self : FPersistentConnection K V A) (tuple : OnDisconnectTuple K A) :
    FPersistentConnection K V A :=
  self.sendAction (.onDisconnect tuple.action tuple.path tuple.data) (some (.onDisconnect tuple.number))

def sendPut (self : FPersistentConnection K V A) (index : Nat) : FPersistentConnection K V A :=
  match get index self.outstandingPuts with
  | none => self
  | some put =>
      sendAction { self with outstandingPuts := set (· < ·) index { put with sent := true } self.outstandingPuts }
        (.put put.action put.path put.data put.hash) (some (.put index))

def sendGet (self : FPersistentConnection K V A) (index : Nat) : FPersistentConnection K V A :=
  match get index self.outstandingGets with
  | none => self
  | some found =>
      if found.sent then self
      else
        sendAction
          { self with outstandingGets := set (· < ·) index { found with sent := true } self.outstandingGets }
          (.get found.path found.params) (some (.get index))

/-- The first connection sends statistics, which hold at least the version of the library. -/
def sendConnectStats (self : FPersistentConnection K V A) : FPersistentConnection K V A :=
  self.sendAction .stats (some .stats)

def sendAppCheckToken (self : FPersistentConnection K V A) (token : String) : FPersistentConnection K V A :=
  self.sendAction (.appCheck token) (some .appCheck)

/-- Send again what the server has to know on a new connection. -/
def restoreState (self : FPersistentConnection K V A) : FPersistentConnection K V A :=
  let restored := self.listens.foldl sendListen self
  let restored := (restored.outstandingPuts.map Prod.fst).foldl sendPut restored
  let restored := (restored.outstandingGets.map Prod.fst).foldl sendGet restored
  let restored := restored.onDisconnectQueue.foldl sendOnDisconnectAction restored
  { restored with onDisconnectQueue := [] }

def restoreAuth (self : FPersistentConnection K V A) : FPersistentConnection K V A :=
  if self.authToken = none then restoreState { self with connectionState := .connected }
  else sendAuthAndRestoreStateAfterComplete { self with connectionState := .authenticating } true

/-! ### Connecting and disconnecting -/

def tryScheduleReconnect (self : FPersistentConnection K V A) : FPersistentConnection K V A :=
  if self.shouldReconnect then
    { self with
      forceTokenRefreshes := false
      retryHelper := self.retryHelper.retry self.forceTokenRefreshes }
  else
    self

/-- The puts of transactions that were sent are told that the client was disconnected. -/
def cancelSentTransactions (self : FPersistentConnection K V A) : FPersistentConnection K V A :=
  let cancelled := self.outstandingPuts.filter fun entry => entry.2.hash.isSome && entry.2.sent
  { self with
    outputs := self.outputs ++ cancelled.map fun entry =>
      .put entry.1 "disconnect" (some "Client was disconnected while running a transaction")
    outstandingPuts := self.outstandingPuts.filter fun entry => !(entry.2.hash.isSome && entry.2.sent) }

def onDisconnect (self : FPersistentConnection K V A) : FPersistentConnection K V A :=
  let dropped := cancelSentTransactions { self with connectionState := .disconnected, realtime := none }
  let dropped := { dropped with requestCBHash := [], unackedListensCount := 0 }
  let dropped := if dropped.shouldReconnect then dropped.tryScheduleReconnect else dropped
  dropped.output .onDisconnect

/-- Close a connection that is not yet closed. -/
def closeConnection (self : FPersistentConnection K V A) (id : Nat) (reason : FDisconnectReason) :
    FPersistentConnection K V A :=
  if self.isLive id then
    onDisconnect { self with connections := self.connections.modify id fun connection => connection.close reason }
  else
    self

def closeRealtime (self : FPersistentConnection K V A) : FPersistentConnection K V A :=
  match self.realtime with
  | none => self
  | some id => self.closeConnection id .other

def interruptForReason (self : FPersistentConnection K V A) (reason : String) : FPersistentConnection K V A :=
  let interrupted := { self with interruptReasons := reason :: self.interruptReasons.filter (· ≠ reason) }
  match interrupted.realtime with
  | some _ => { interrupted.closeRealtime with realtime := none }
  | none =>
      { interrupted with retryHelper := interrupted.retryHelper.cancel, connectionState := .disconnected }

def resumeForReason (self : FPersistentConnection K V A) (reason : String) : FPersistentConnection K V A :=
  let resumed := { self with interruptReasons := self.interruptReasons.filter (· ≠ reason) }
  if resumed.shouldReconnect ∧ resumed.connectionState = .disconnected then resumed.tryScheduleReconnect
  else resumed

def enteringForeground (self : FPersistentConnection K V A) : FPersistentConnection K V A :=
  if self.connectionState = .disconnected then self.tryScheduleReconnect else self

/-- The block of a scheduled attempt starts to fetch a token. -/
def fetchToken (self : FPersistentConnection K V A) (forceRefresh : Bool) : FPersistentConnection K V A :=
  { self with
    connectionState := .gettingToken
    currentFetchTokenAttempt := self.currentFetchTokenAttempt + 1
    fetches := self.fetches ++ [(self.currentFetchTokenAttempt + 1, forceRefresh)] }

/-- The task of a scheduled attempt wakes up. -/
def retryTask (self : FPersistentConnection K V A) (task : Nat) : FPersistentConnection K V A :=
  match self.retryHelper.wake task with
  | none => self
  | some (forceRefresh, retryHelper) => fetchToken { self with retryHelper } forceRefresh

def openNetworkConnection (self : FPersistentConnection K V A) (token : Option String)
    (result : ConnectResult) : FPersistentConnection K V A :=
  { self with
    authToken := token
    connectionState := .connecting
    connections := self.connections ++ [{ webSocket := .opened result }]
    realtime := some self.connections.length }

def endFetch (self : FPersistentConnection K V A) (attempt : Nat) : FPersistentConnection K V A :=
  { self with fetches := self.fetches.filter fun fetch => fetch.1 ≠ attempt }

def isFetching (self : FPersistentConnection K V A) (attempt : Nat) : Bool :=
  self.fetches.any fun fetch => fetch.1 = attempt

/-- A token came for an attempt. Only that of the latest attempt is used, and only while it is waited for. -/
def tokenFetched (self : FPersistentConnection K V A) (attempt : Nat) (token : Option String)
    (result : ConnectResult) : FPersistentConnection K V A :=
  if attempt = self.currentFetchTokenAttempt ∧ self.connectionState = .gettingToken then
    (self.endFetch attempt).openNetworkConnection token result
  else
    self.endFetch attempt

/-- An attempt got no token. Whether it is the latest is not looked at. -/
def tokenFailed (self : FPersistentConnection K V A) (attempt : Nat) : FPersistentConnection K V A :=
  tryScheduleReconnect { self.endFetch attempt with connectionState := .disconnected }

/-! ### Calls of the client -/

section Listens

variable [DatabaseValue V]

def findListen (self : FPersistentConnection K V A) (query : FQuerySpec K V) : Option (FOutstandingQuery K V) :=
  self.listens.find? fun listenSpec => listenSpec.query = query

def removeListen (self : FPersistentConnection K V A) (query : FQuerySpec K V) : FPersistentConnection K V A :=
  { self with listens := self.listens.filter fun listenSpec => listenSpec.query ≠ query }

def listen (self : FPersistentConnection K V A) (query : FQuerySpec K V) (tagId : Option Nat) :
    FPersistentConnection K V A :=
  let outstanding := { number := self.listenCounter, query := query, tagId := tagId }
  let added :=
    { self.removeListen query with
      listens := (self.removeListen query).listens ++ [outstanding]
      listenCounter := self.listenCounter + 1 }
  if added.connected then added.sendListen outstanding else added

def unlisten (self : FPersistentConnection K V A) (query : FQuerySpec K V) (tagId : Option Nat) :
    FPersistentConnection K V A :=
  let removed := self.removeListen query
  if (self.findListen query).isSome ∧ removed.connected then removed.sendUnlisten query tagId else removed

end Listens

def putInternal (self : FPersistentConnection K V A) (put : FOutstandingPut K A) :
    FPersistentConnection K V A :=
  let index := self.putCounter
  let added :=
    { self with
      putCounter := index + 1
      outstandingPuts := set (· < ·) index put self.outstandingPuts }
  if added.canSendWrites then added.sendPut index else added

def putData (self : FPersistentConnection K V A) (path : FPath K) (data : A) (hash : Option String) :
    FPersistentConnection K V A :=
  self.putInternal { action := .put, path, data, hash, sent := false }

def mergeData (self : FPersistentConnection K V A) (path : FPath K) (data : A) :
    FPersistentConnection K V A :=
  self.putInternal { action := .merge, path, data, hash := none, sent := false }

/-- Requests for the time the client disconnects: put, merge and cancel. -/
def onDisconnectData (self : FPersistentConnection K V A) (action : OnDisconnectAction) (path : FPath K)
    (data : Option A) : FPersistentConnection K V A :=
  let tuple := { number := self.onDisconnectCounter, path := path, action := action, data := data }
  let next := { self with onDisconnectCounter := self.onDisconnectCounter + 1 }
  if next.canSendWrites then next.sendOnDisconnectAction tuple
  else { next with onDisconnectQueue := next.onDisconnectQueue ++ [tuple] }

/-- A get waits for a connection only so long. -/
def getDataAtPath (self : FPersistentConnection K V A) (path : FPath K) (params : A) :
    FPersistentConnection K V A :=
  let index := self.getCounter
  let added :=
    { self with
      getCounter := index + 1
      outstandingGets := set (· < ·) index { path, params, sent := false } self.outstandingGets }
  if !added.connected then { added with getTimeouts := added.getTimeouts ++ [index] }
  else if added.canSendReads then added.sendGet index
  else added

def getTimedOut (self : FPersistentConnection K V A) (index : Nat) : FPersistentConnection K V A :=
  if index ∈ self.getTimeouts then
    let waited := { self with getTimeouts := self.getTimeouts.filter (· ≠ index) }
    match get index waited.outstandingGets with
    | none => waited
    | some found =>
        if found.sent then waited
        else
          output { waited with outstandingGets := remove index waited.outstandingGets }
            (.get index { status := "failed", data := none, errorReason := some "Client is offline." })
  else
    self

def refreshAuthToken (self : FPersistentConnection K V A) (token : Option String) :
    FPersistentConnection K V A :=
  let refreshed := { self with authToken := token }
  if refreshed.connected then
    if token = none then refreshed.sendUnauth else refreshed.sendAuthAndRestoreStateAfterComplete false
  else
    refreshed

def refreshAppCheckToken (self : FPersistentConnection K V A) (token : String) : FPersistentConnection K V A :=
  if !self.connected then self
  else if token.isEmpty then self
  else self.sendAppCheckToken token

def ackPuts (self : FPersistentConnection K V A) : FPersistentConnection K V A :=
  { self with
    outputs := self.outputs ++ self.putsToAck.map fun put => .put put.index put.status put.errorReason
    putsToAck := [] }

/-- Cancel the outstanding writes. The completions may put more, as puts are acknowledged and as they are
cancelled; the latter are dropped with the others. -/
def purgeOutstandingWrites (self : FPersistentConnection K V A)
    (acknowledging cancelling : List (FOutstandingPut K A)) : FPersistentConnection K V A :=
  let acked := acknowledging.foldl putInternal self.ackPuts
  let cancelled :=
    { acked with
      outputs := acked.outputs ++ acked.outstandingPuts.map fun entry => .put entry.1 "write_canceled" none }
  let cancelled := cancelling.foldl putInternal cancelled
  { cancelled with
    outputs := cancelled.outputs ++ cancelled.onDisconnectQueue.map fun tuple =>
      .onDisconnectRequest tuple.number "write_canceled" none
    outstandingPuts := []
    onDisconnectQueue := [] }

/-! ### What messages and events of a connection lead to -/

/-- A response that is not ok makes the client forget its token and close the connection. -/
def rejectToken (self : FPersistentConnection K V A) : FPersistentConnection K V A :=
  closeRealtime { self with authToken := none, forceTokenRefreshes := true }

def onAuthResponse (self : FPersistentConnection K V A) (restore : Bool) (body : Option (Response A)) :
    FPersistentConnection K V A :=
  let answered := { self with connectionState := .connected }
  if body.bind Response.status = some "ok" then
    if restore then answered.restoreState else answered
  else
    { answered.rejectToken with realtime := none }

def onPutResponse (self : FPersistentConnection K V A) (index : Nat) (body : Option (Response A)) :
    FPersistentConnection K V A :=
  match get index self.outstandingPuts with
  | none => self
  | some _ =>
      let removed := { self with outstandingPuts := remove index self.outstandingPuts }
      let status := (body.bind Response.status).getD "failed"
      let errorReason := (body.bind Response.data).bind ResponseData.asString
      if self.unackedListensCount = 0 then removed.output (.put index status errorReason)
      else { removed with putsToAck := removed.putsToAck ++ [PutToAck.mk index status errorReason] }

def onGetResponse (self : FPersistentConnection K V A) (index : Nat) (body : Option (Response A)) :
    FPersistentConnection K V A :=
  match get index self.outstandingGets with
  | none => self
  | some _ =>
      let removed := { self with outstandingGets := remove index self.outstandingGets }
      let resultData := (body.bind Response.data).filter fun data => !data.isNull
      match body.bind Response.status with
      | none => removed
      | some status =>
          if status = "ok" then
            removed.output (.get index { status, data := resultData, errorReason := none })
          else
            removed.output
              (.get index { status, data := none, errorReason := resultData.bind ResponseData.asString })

/-- Only a response with a status and a reason is passed on. -/
def onDisconnectResponse (self : FPersistentConnection K V A) (number : Nat) (body : Option (Response A)) :
    FPersistentConnection K V A :=
  match body.bind Response.status, (body.bind Response.data).bind ResponseData.asString with
  | some status, some errorReason => self.output (.onDisconnectRequest number status (some errorReason))
  | _, _ => self

def onAppCheckResponse (self : FPersistentConnection K V A) (body : Option (Response A)) :
    FPersistentConnection K V A :=
  if body.bind Response.status = some "ok" then self else self.rejectToken

/-- The listens at a path are removed, and told so. -/
def onListenRevoked (self : FPersistentConnection K V A) (path : FPath K) : FPersistentConnection K V A :=
  let removed := self.listens.filter fun listenSpec => listenSpec.query.path = path
  { self with
    listens := self.listens.filter fun listenSpec => listenSpec.query.path ≠ path
    outputs := self.outputs ++ removed.map fun listenSpec => .listen listenSpec.number "permission_denied" }

def onDataPush (self : FPersistentConnection K V A) (push : ServerPush K A) : FPersistentConnection K V A :=
  match push with
  | .dataUpdate isMerge path data tagId =>
      match path, data with
      | some path, some data =>
          match data, isMerge with
          | .emptyDictionary, true => self
          | _, _ => self.output (.onDataUpdate path data isMerge tagId)
      | _, _ => self
  | .rangeMerge path ranges tagId =>
      match path with
      | none => self
      | some path => self.output (.onRangeMerge ranges path tagId)
  | .authRevoked _ _ => self.rejectToken
  | .listenCancelled path =>
      match path with
      | none => self
      | some path => self.onListenRevoked path
  | .securityDebug _ => self
  | .unsupported => self

def onReady (self : FPersistentConnection K V A) (timestamp : Int) : FPersistentConnection K V A :=
  let informed := self.output (.onServerInfoUpdate timestamp)
  let informed :=
    if informed.firstConnection then { informed.sendConnectStats with firstConnection := false } else informed
  informed.restoreAuth.output .onConnect

def onKill (self : FPersistentConnection K V A) : FPersistentConnection K V A :=
  self.interruptForReason "server_kill"

def updateWebSocket (self : FPersistentConnection K V A) (id : Nat)
    (update : FWebSocketConnection → FWebSocketConnection) : FPersistentConnection K V A :=
  { self with
    connections := self.connections.modify id fun connection =>
      { connection with webSocket := update connection.webSocket } }

/-- The web socket of a connection that is held has closed. -/
def onWebSocketDisconnect (self : FPersistentConnection K V A) (id : Nat) : FPersistentConnection K V A :=
  closeConnection
    { self with connections := self.connections.modify id fun connection => { connection with conn := false } }
    id .other

/-- What happens to one connection. -/
inductive ConnectionEvent
  | channel (event : ChannelEvent)
  | job (position : Nat)
  | connectTimeout
  deriving DecidableEq

/-! ### Messages and jobs -/

variable [DatabaseValue V]

def onListenResponse (self : FPersistentConnection K V A) (listenSpec : FOutstandingQuery K V)
    (body : Option (Response A)) : FPersistentConnection K V A :=
  let answered :=
    match self.findListen listenSpec.query, body.bind Response.status with
    | some current, some status =>
        if current.number = listenSpec.number then
          let kept := if status ≠ "ok" then self.removeListen listenSpec.query else self
          kept.output (.listen listenSpec.number status)
        else self
    | _, _ => self
  let answered := { answered with unackedListensCount := answered.unackedListensCount - 1 }
  if answered.unackedListensCount = 0 then answered.ackPuts else answered

def runCallback (self : FPersistentConnection K V A) (callback : RequestCallback K V)
    (body : Option (Response A)) : FPersistentConnection K V A :=
  match callback with
  | .auth restore => self.onAuthResponse restore body
  | .onDisconnect number => self.onDisconnectResponse number body
  | .put index => self.onPutResponse index body
  | .get index => self.onGetResponse index body
  | .listen listenSpec => self.onListenResponse listenSpec body
  | .unlisten => self
  | .stats => self
  | .appCheck => self.onAppCheckResponse body

def onDataMessage (self : FPersistentConnection K V A) (message : DataMessage K A) :
    FPersistentConnection K V A :=
  match message with
  | .response number body =>
      match get number self.requestCBHash with
      | none => self
      | some callback =>
          runCallback { self with requestCBHash := remove number self.requestCBHash } callback body
  | .error _ => self
  | .push push => self.onDataPush push
  | .other => self

/-- A message for a connection that is held. -/
def onMessage (wire : WireFormat K A) (self : FPersistentConnection K V A) (id : Nat)
    (message : ServerMessage (DataMessage K A)) : FPersistentConnection K V A :=
  match message with
  | .data message => self.onDataMessage message
  | .control (.shutdown _) => self.onKill.closeConnection id .other
  | .control (.reset host) =>
      if isValidHost wire.urlHasHost host then self.closeConnection id .serverReset
      else self.closeConnection id .other
  | .control (.hello timestamp _) =>
      match self.connections[id]? with
      | none => self
      | some connection =>
          if connection.state = .connecting then
            let ready := self.connections.modify id fun connection => { connection with state := .connected }
            onReady { self with connections := ready } timestamp
          else
            self
  | .control .unknown => self
  | .unrecognized => self

/-- Run a job of a web socket connection. -/
def runJob (wire : WireFormat K A) (self : FPersistentConnection K V A) (id : Nat)
    (webSocket : FWebSocketConnection) (job : WebSocketJob) : FPersistentConnection K V A :=
  match job with
  | .onOpen => self.updateWebSocket id fun webSocket => { webSocket with everConnected := true }
  | .onMessage message =>
      let (received, text) := webSocket.handleIncomingFrame message
      let handled := self.updateWebSocket id fun _ => received
      match text.bind wire.decode with
      | some message => if self.realtime = some id then handled.onMessage wire id message else handled
      | none => handled
  | .onClose =>
      let closed := self.updateWebSocket id fun webSocket => { webSocket with isClosed := true }
      let told := if !webSocket.isClosed ∧ self.realtime = some id then closed.onWebSocketDisconnect id else closed
      told.updateWebSocket id fun webSocket => { webSocket with client := false }

def connectionEvent (wire : WireFormat K A) (self : FPersistentConnection K V A) (id : Nat)
    (event : ConnectionEvent) : FPersistentConnection K V A :=
  match self.connections[id]? with
  | none => self
  | some connection =>
      match event with
      | .channel event => self.updateWebSocket id fun webSocket => webSocket.handle event
      | .job position =>
          match connection.webSocket.takeJob position with
          | none => self
          | some (job, webSocket) => (self.updateWebSocket id fun _ => webSocket).runJob wire id webSocket job
      | .connectTimeout =>
          if connection.webSocket.connectTimeout then
            self.updateWebSocket id fun webSocket =>
              FWebSocketConnection.closeIfNeverConnected { webSocket with connectTimeout := false }
          else
            self

/-! ### Runs -/

/-- The calls, the timers and what comes from outside. -/
inductive Event (K V A : Type) [DatabaseKey K]
  | listen (query : FQuerySpec K V) (tagId : Option Nat)
  | unlisten (query : FQuerySpec K V) (tagId : Option Nat)
  | putData (path : FPath K) (data : A) (hash : Option String)
  | mergeData (path : FPath K) (data : A)
  | onDisconnectData (action : OnDisconnectAction) (path : FPath K) (data : Option A)
  | getDataAtPath (path : FPath K) (params : A)
  | getTimedOut (index : Nat)
  | refreshAuthToken (token : Option String)
  | refreshAppCheckToken (token : String)
  | purgeOutstandingWrites (acknowledging cancelling : List (FOutstandingPut K A))
  | interruptForReason (reason : String)
  | resumeForReason (reason : String)
  | enteringForeground
  | retryTask (task : Nat)
  | tokenFetched (attempt : Nat) (token : Option String) (result : ConnectResult)
  | tokenFailed (attempt : Nat)
  | connection (id : Nat) (event : ConnectionEvent)

/-- One event. A token fetch that is not under way has no result. -/
def handle (wire : WireFormat K A) (self : FPersistentConnection K V A) (event : Event K V A) :
    FPersistentConnection K V A :=
  match event with
  | .listen query tagId => self.listen query tagId
  | .unlisten query tagId => self.unlisten query tagId
  | .putData path data hash => self.putData path data hash
  | .mergeData path data => self.mergeData path data
  | .onDisconnectData action path data => self.onDisconnectData action path data
  | .getDataAtPath path params => self.getDataAtPath path params
  | .getTimedOut index => self.getTimedOut index
  | .refreshAuthToken token => self.refreshAuthToken token
  | .refreshAppCheckToken token => self.refreshAppCheckToken token
  | .purgeOutstandingWrites acknowledging cancelling => self.purgeOutstandingWrites acknowledging cancelling
  | .interruptForReason reason => self.interruptForReason reason
  | .resumeForReason reason => self.resumeForReason reason
  | .enteringForeground => self.enteringForeground
  | .retryTask task => self.retryTask task
  | .tokenFetched attempt token result =>
      if self.isFetching attempt then self.tokenFetched attempt token result else self
  | .tokenFailed attempt => if self.isFetching attempt then self.tokenFailed attempt else self
  | .connection id event => self.connectionEvent wire id event

/-- One event as a step of a run. No event is refused. -/
def step (wire : WireFormat K A) (self : FPersistentConnection K V A) (event : Event K V A) :
    Option (FPersistentConnection K V A) :=
  some (self.handle wire event)

end FPersistentConnection

end FirebaseSwift.Database
