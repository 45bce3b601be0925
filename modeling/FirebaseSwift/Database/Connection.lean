import Mathlib.Data.List.Basic

/-! One connection to the server in its layers: the channel and the handler in its pipeline, the web socket
connection that the handler tells with jobs on the database actor, and the connection above it that its
owner sees. The keep-alive only sends frames and is left out. The handler holds the web socket connection
weakly; the jobs of one that nobody holds any more are kept here, and reach nobody. -/

namespace FirebaseSwift.Database

/-! ### The web socket connection -/

/-- How far the channel has come. -/
inductive Channel
  | unconnected
  | http
  | webSocket
  | closed
  deriving DecidableEq

/-- What the handler passes on to the database actor. -/
inductive WebSocketJob
  | onOpen
  | onMessage (message : List Char)
  | onClose
  deriving DecidableEq

structure FWebSocketConnection where
  totalFrames : Int := 0
  frame : Option (List Char) := none
  everConnected : Bool := false
  isClosed : Bool := false
  client : Bool
  channel : Channel
  context : Bool := false
  closeRequested : Bool := false
  jobs : List WebSocketJob := []
  connectTimeout : Bool := true
  timedOut : Bool := false
  deriving DecidableEq

/-- What comes of opening the web socket: a URL that does not parse gives no client. -/
inductive ConnectResult
  | invalidURL
  | refused
  | connected
  deriving DecidableEq

/-- The number that a string of ASCII digits stands for. -/
def decimalValue (digits : List Char) : Option Nat :=
  if digits ≠ [] ∧ digits.all Char.isDigit = true then
    some (digits.foldl (fun value digit => 10 * value + (digit.toNat - '0'.toNat)) 0)
  else
    none

/-- An integer in decimal notation with an optional sign. -/
def parseInt : List Char → Option Int
  | '-' :: digits => (decimalValue digits).map fun value => -(value : Int)
  | '+' :: digits => (decimalValue digits).map fun value => (value : Int)
  | digits => (decimalValue digits).map fun value => (value : Int)

namespace FWebSocketConnection

/-- A web socket connection that has just been opened. The error of a refused connect is dropped. -/
def opened (result : ConnectResult) : FWebSocketConnection where
  client := decide (result ≠ .invalidURL)
  channel := if result = .connected then .http else .unconnected

/-- The client can only close a channel whose context the handler knows. -/
def closeClient (self : FWebSocketConnection) : FWebSocketConnection :=
  if self.client ∧ self.context then { self with closeRequested := true } else self

def closeIfNeverConnected (self : FWebSocketConnection) : FWebSocketConnection :=
  if self.everConnected then self else closeClient { self with timedOut := true }

def close (self : FWebSocketConnection) : FWebSocketConnection :=
  closeClient { self with isClosed := true }

def buffering (self : FWebSocketConnection) : Bool := self.frame.isSome

/-- The text of a message whose last frame came is given to the delegate. -/
def appendFrame (self : FWebSocketConnection) (message : List Char) :
    FWebSocketConnection × Option (List Char) :=
  let combined := self.frame.getD [] ++ message
  let totalFrames := self.totalFrames - 1
  if totalFrames = 0 then ({ self with totalFrames, frame := none }, some combined)
  else ({ self with totalFrames, frame := some combined }, none)

def handleNewFrameCount (self : FWebSocketConnection) (count : Int) : FWebSocketConnection :=
  { self with totalFrames := count, frame := some [] }

def extractFrameCount (self : FWebSocketConnection) (message : List Char) :
    FWebSocketConnection × Option (List Char) :=
  let frameCount := (parseInt message).getD 0
  if message.length ≤ 4 ∧ 0 < frameCount then (self.handleNewFrameCount frameCount, none)
  else (self.handleNewFrameCount 1, some message)

def handleIncomingFrame (self : FWebSocketConnection) (message : List Char) :
    FWebSocketConnection × Option (List Char) :=
  if self.buffering then self.appendFrame message
  else
    match self.extractFrameCount message with
    | (counted, some remaining) => counted.appendFrame remaining
    | (counted, none) => (counted, none)

end FWebSocketConnection

/-! ### The channel -/

/-- What happens to a channel, and the closing that the client has put on its event loop. -/
inductive ChannelEvent
  | handlerAdded
  | upgradeRefused
  | text (message : List Char)
  | connectionClose
  | unknownOpcode
  | channelInactive
  | executeClose
  deriving DecidableEq

namespace FWebSocketConnection

def addJob (self : FWebSocketConnection) (job : WebSocketJob) : FWebSocketConnection :=
  { self with jobs := self.jobs ++ [job] }

/-- The job at a position, taken from those that wait. They need not run in their order. -/
def takeJob (self : FWebSocketConnection) (position : Nat) : Option (WebSocketJob × FWebSocketConnection) :=
  (self.jobs[position]?).map fun job => (job, { self with jobs := self.jobs.eraseIdx position })

/-- The handlers of the channel's events. Neither handler passes on that the channel has closed. -/
def handle (self : FWebSocketConnection) : ChannelEvent → FWebSocketConnection
  | .handlerAdded =>
      if self.channel = .http then addJob { self with channel := .webSocket, context := true } .onOpen
      else self
  | .upgradeRefused => if self.channel = .http then { self with channel := .closed } else self
  | .text message => if self.channel = .webSocket then self.addJob (.onMessage message) else self
  | .connectionClose =>
      if self.channel = .webSocket then addJob { self with channel := .closed } .onClose else self
  | .unknownOpcode => if self.channel = .webSocket then self.addJob .onClose else self
  | .channelInactive =>
      if self.channel = .http ∨ self.channel = .webSocket then { self with channel := .closed } else self
  | .executeClose =>
      if self.closeRequested ∧ self.channel = .webSocket then { self with channel := .closed } else self

end FWebSocketConnection

/-! ### The connection -/

inductive FConnectionState
  | connecting
  | connected
  | disconnected
  deriving DecidableEq

inductive FDisconnectReason
  | serverReset
  | other
  deriving DecidableEq

/-- A connection with the requests it was given and the reasons it told its delegate. -/
structure FConnection (R : Type) where
  state : FConnectionState := .connecting
  conn : Bool := true
  webSocket : FWebSocketConnection
  requests : List (Nat × R) := []
  disconnects : List FDisconnectReason := []

namespace FConnection

variable {R : Type}

/-- The part of closing before the delegate is told. -/
def closeWebSocket (self : FConnection R) : FConnection R :=
  { self with
    state := .disconnected
    webSocket := if self.conn then self.webSocket.close else self.webSocket
    conn := false }

/-- Close a connection that is not yet closed, and tell the delegate. -/
def close (self : FConnection R) (reason : FDisconnectReason) : FConnection R :=
  { self.closeWebSocket with disconnects := self.disconnects ++ [reason] }

def sendRequest (self : FConnection R) (number : Nat) (request : R) : FConnection R :=
  { self with requests := self.requests ++ [(number, request)] }

end FConnection

/-- A control message of the server. -/
inductive ControlMessage
  | shutdown (reason : String)
  | reset (host : List Char)
  | hello (timestamp : Int) (sessionID : String)
  | unknown
  deriving DecidableEq

/-- A message of the server, as the connection reads it. -/
inductive ServerMessage (D : Type)
  | data (message : D)
  | control (message : ControlMessage)
  | unrecognized

/-- A host that the server may name: a name of letters, digits, dots and hyphens, and a port. Whether a
URL can be made of it is for the URL type to say. -/
def isValidHost (urlHasHost : List Char → Bool) (host : List Char) : Bool :=
  let reversed := host.reverse
  let port := (reversed.takeWhile (· ≠ ':')).reverse
  let hasPort := decide (':' ∈ host)
  let name := if hasPort then (reversed.drop (port.length + 1)).reverse else host
  (!hasPort || (decide (1 ≤ port.length ∧ port.length ≤ 5) && port.all Char.isDigit)) &&
    decide (1 ≤ name.length ∧ name.length ≤ 253) &&
    name.all (fun char => char.isAlphanum || char = '.' || char = '-') && urlHasHost host

end FirebaseSwift.Database
