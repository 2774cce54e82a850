import VeloChain.Sdk.Connection

/-! The session of a player in the SDK, over its WebSocket client.
Its calls wait for answers of the RPC server and for the socket; between any two of their steps
the application can call again, and sockets open and close.
-/

namespace VeloChain

/-- Player session state. -/
inductive SessionState
  | disconnected
  | connecting
  | connected
  | playing
  | reconnecting
  deriving DecidableEq

/-- Session event types. A connection that was lost has the reason of the server. -/
inductive SessionEvent (P : Type)
  | connected (sessionId : Option String)
  | disconnected (reason : Option String)
  | playerSpawned (player : P)
  | playerUpdated (player : P)
  | error (message : String)
  | stateChanged (before after : SessionState)

/-- What a call in progress is waiting for: `connect` for the session id, the socket (if its
promise is not settled at once) and the player; `disconnect` for the answer of the server.
-/
inductive CallStage
  | authenticating
  | openingSocket (socket : Option Nat)
  | fetchingPlayer
  | leaving
  deriving DecidableEq

/-- The session; the heartbeat intervals that are running; and the calls in progress. -/
structure PlayerSession (P : Type) where
  ws : WsRuntime
  sessionId : Option String
  state : SessionState
  playerInfo : Option P
  heartbeatInterval : Option Nat
  intervals : List Nat
  created : Nat
  calls : List CallStage

namespace PlayerSession

variable {P : Type}

def new : PlayerSession P :=
  { ws := .new
    sessionId := none
    state := .disconnected
    playerInfo := none
    heartbeatInterval := none
    intervals := []
    created := 0
    calls := [] }

def setState (newState : SessionState) (session : PlayerSession P)
    : List (SessionEvent P) × PlayerSession P :=
  if session.state ≠ newState then
    ([.stateChanged session.state newState], { session with state := newState })
  else ([], session)

def stopHeartbeat (session : PlayerSession P) : PlayerSession P :=
  match session.heartbeatInterval with
  | some interval =>
      { session with
        intervals := session.intervals.erase interval
        heartbeatInterval := none }
  | none => session

def startHeartbeat (session : PlayerSession P) : PlayerSession P :=
  let session := session.stopHeartbeat
  { session with
    heartbeatInterval := some session.created
    intervals := session.intervals ++ [session.created]
    created := session.created + 1 }

/-- The handlers that the session sets on its WebSocket client. -/
def onNotice (notice : WsNotice) (session : PlayerSession P)
    : List (SessionEvent P) × PlayerSession P :=
  match notice with
  | .opened | .call _ | .renewed | .scheduled _ => ([], session)
  | .closed =>
      if session.state = .playing ∨ session.state = .connected then
        let (events, session) := session.setState .reconnecting
        (events ++ [.disconnected none], session)
      else ([], session)
  | .error => ([.error "WebSocket error"], session)
  | .reconnect _ => session.setState .reconnecting

def onNotices (notices : List WsNotice) (session : PlayerSession P)
    : List (SessionEvent P) × PlayerSession P :=
  notices.foldl
    (fun before notice =>
      let (events, session) := before.2.onNotice notice
      (before.1 ++ events, session))
    ([], session)

/-- A handler of the session does not call back into the client and does not throw. -/
def handler : HandlerCall := { calls := [], throws := false }

/-- The session has one handler for each kind of event on its client, and nobody else has one. -/
def handled : WsTurn → WsTurn
  | .socketOpens i _ => .socketOpens i [handler]
  | .socketCloses i ending =>
      .socketCloses i
        { failed := ending.failed
          onError := [handler]
          afterError := []
          onClose := [handler]
          onReconnect := [handler] }
  | turn => turn

/-- Something happens to the client: a socket opens or closes, a timer fires, the application
subscribes. It is connected and disconnected only by the session.
-/
def wsTurn (config : WsConfig) (turn : WsTurn) (session : PlayerSession P)
    : List (SessionEvent P) × PlayerSession P :=
  match turn with
  | .call .connect | .call .disconnect => ([], session)
  | turn =>
      let ws := { session.ws with notices := [] }.step config (handled turn)
      { session with ws }.onNotices ws.notices

/-- Connect to the game world, up to the request for a session. -/
def connect (session : PlayerSession P) : List (SessionEvent P) × PlayerSession P :=
  if session.state = .connected ∨ session.state = .playing then ([], session)
  else
    let (events, session) := session.setState .connecting
    (events, { session with calls := session.calls ++ [.authenticating] })

/-- A session id, or a failure. With an id, the client is connected. -/
def connectPlayerReturns (config : WsConfig) (k : Nat) (answer : Except String String)
    (session : PlayerSession P)
    : List (SessionEvent P) × PlayerSession P :=
  if session.calls[k]? = some .authenticating then
    match answer with
    | .ok sessionId =>
        let socket :=
          if session.ws.state ≠ .opened ∧ config.validUrl then some session.ws.sockets.length
          else none
        ([],
          { session with
            sessionId := some sessionId
            ws := session.ws.connect config
            calls := session.calls.set k (.openingSocket socket) })
    | .error message =>
        let (events, session) := session.setState .disconnected
        (events ++ [.error message], { session with calls := session.calls.eraseIdx k })
  else ([], session)

/-- Whether a promise that a call waits for is settled. -/
def settled (socket : Option Nat) (ws : WsRuntime) : Bool :=
  match socket with
  | none => true
  | some i => ws.sockets[i]?.map WsSocket.promise != some .pending

/-- The socket is open or has failed; either way the session goes on. -/
def socketReturns (k : Nat) (session : PlayerSession P)
    : List (SessionEvent P) × PlayerSession P :=
  match session.calls[k]? with
  | some (.openingSocket socket) =>
      if settled socket session.ws then
        let session := session.startHeartbeat
        ([], { session with calls := session.calls.set k .fetchingPlayer })
      else ([], session)
  | _ => ([], session)

/-- The initial player state; none if the player is not spawned or cannot be read. -/
def refreshPlayerInfo (info : Option P) (session : PlayerSession P)
    : List (SessionEvent P) × PlayerSession P :=
  match info with
  | none => ([], session)
  | some player =>
      let event : SessionEvent P :=
        if session.playerInfo.isNone then .playerSpawned player else .playerUpdated player
      ([event], { session with playerInfo := some player })

/-- The end of `connect`. -/
def getPlayerReturns (k : Nat) (info : Option P) (session : PlayerSession P)
    : List (SessionEvent P) × PlayerSession P :=
  if session.calls[k]? = some .fetchingPlayer then
    let (refreshed, session) := session.refreshPlayerInfo info
    let (changed, session) := session.setState .connected
    (refreshed ++ changed ++ [.connected session.sessionId],
      { session with calls := session.calls.eraseIdx k })
  else ([], session)

/-- The end of `disconnect`. -/
def leave (config : WsConfig) (session : PlayerSession P)
    : List (SessionEvent P) × PlayerSession P :=
  let session :=
    { session with
      ws := session.ws.disconnect config
      sessionId := none
      playerInfo := none }
  let (events, session) := session.setState .disconnected
  (events ++ [.disconnected (some "Client requested disconnect")], session)

/-- Disconnect from the game world; without a session id there is nobody to tell. -/
def disconnect (config : WsConfig) (session : PlayerSession P)
    : List (SessionEvent P) × PlayerSession P :=
  if session.state = .disconnected then ([], session)
  else
    let session := session.stopHeartbeat
    if session.sessionId.any (· != "") then
      ([], { session with calls := session.calls ++ [.leaving] })
    else session.leave config

/-- The server has answered to the leaving, or could not. -/
def disconnectPlayerReturns (config : WsConfig) (k : Nat) (session : PlayerSession P)
    : List (SessionEvent P) × PlayerSession P :=
  if session.calls[k]? = some .leaving then
    { session with calls := session.calls.eraseIdx k }.leave config
  else ([], session)

end PlayerSession

/-- The calls of the application, the answers that the `k`th call in progress waits for, and
what happens to the WebSocket client.
-/
inductive SessionTurn (P : Type)
  | connect
  | disconnect
  | connectPlayerReturns (k : Nat) (answer : Except String String)
  | socketReturns (k : Nat)
  | getPlayerReturns (k : Nat) (info : Option P)
  | disconnectPlayerReturns (k : Nat)
  | wsTurn (turn : WsTurn)

namespace PlayerSession

variable {P : Type}

def step (config : WsConfig) (session : PlayerSession P)
    : SessionTurn P → List (SessionEvent P) × PlayerSession P
  | .connect => session.connect
  | .disconnect => session.disconnect config
  | .connectPlayerReturns k answer => session.connectPlayerReturns config k answer
  | .socketReturns k => session.socketReturns k
  | .getPlayerReturns k info => session.getPlayerReturns k info
  | .disconnectPlayerReturns k => session.disconnectPlayerReturns config k
  | .wsTurn turn => session.wsTurn config turn

/-- The events of some turns, and the session after them. -/
def steps (config : WsConfig) (turns : List (SessionTurn P))
    (before : List (SessionEvent P) × PlayerSession P)
    : List (SessionEvent P) × PlayerSession P :=
  turns.foldl
    (fun before turn =>
      let (events, session) := before.2.step config turn
      (before.1 ++ events, session))
    before

def run (config : WsConfig) (turns : List (SessionTurn P))
    : List (SessionEvent P) × PlayerSession P :=
  steps config turns ([], new)

end PlayerSession

end VeloChain
