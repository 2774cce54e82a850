import VeloChain.Sdk.WebSocket

/-! The WebSocket client of the SDK with its sockets and its timers.
The application connects, disconnects and subscribes; a socket opens, fails and closes when it
will, and then the handlers of the application are called, which may call back into the client
and may throw. After a loss the client connects again by itself, ever later, a limited number of
times.
-/

namespace VeloChain

/-- The stages of a WebSocket. -/
inductive ReadyState
  | connecting
  | opened
  | closing
  | closed
  deriving DecidableEq

/-- What has become of a call that was answered with a promise. -/
inductive CallPromise
  | pending
  | resolved
  | rejected
  deriving DecidableEq

/-- A promise is settled once. -/
def CallPromise.settle (outcome : CallPromise) : CallPromise → CallPromise
  | .pending => outcome
  | settled => settled

/-- A WebSocket, the promise of the `connect` that made it, and the streams that the server has
opened for it.
-/
structure WsSocket where
  readyState : ReadyState
  promise : CallPromise
  streams : List EventStream

namespace WsSocket

/-- A new socket. -/
def new : WsSocket := { readyState := .connecting, promise := .pending, streams := [] }

/-- `close()` starts the closing handshake, or gives up a socket that is not open yet. -/
def close (socket : WsSocket) : WsSocket :=
  match socket.readyState with
  | .connecting | .opened => { socket with readyState := .closing }
  | .closing | .closed => socket

def settle (outcome : CallPromise) (socket : WsSocket) : WsSocket :=
  { socket with promise := outcome.settle socket.promise }

end WsSocket

/-- WebSocket connection state. -/
inductive WsState
  | connecting
  | opened
  | closing
  | closed
  | reconnecting
  deriving DecidableEq

/-- What the client reads of its configuration. A socket cannot even be made for an invalid
URL.
-/
structure WsConfig where
  validUrl : Bool
  autoReconnect : Bool
  maxReconnectAttempts : Nat
  reconnectDelay : Nat

/-- `DEFAULT_CONFIG`, with the URL of a node on the same machine. -/
def WsConfig.defaultConfig : WsConfig :=
  { validUrl := true, autoReconnect := true, maxReconnectAttempts := 5, reconnectDelay := 1000 }

/-- The calls that the application makes of the client. -/
inductive WsCall
  | connect
  | disconnect
  | subscribe (kind : SdkSubscription)
  | unsubscribe (id : String)
  deriving DecidableEq

/-- What a handler of the application does when it is called: it calls the client, and in the
end it may throw.
-/
structure HandlerCall where
  calls : List WsCall
  throws : Bool
  deriving DecidableEq

/-- What goes on around the end of a socket: whether it has failed, what the handlers do, and
what the application calls between the error and the close event, when `connect` is rejected.
-/
structure SocketEnd where
  failed : Bool
  onError : List HandlerCall
  afterError : List WsCall
  onClose : List HandlerCall
  onReconnect : List HandlerCall
  deriving DecidableEq

/-- The course of the client: the calls of the application; the events of its sockets, before
their handlers are called, and the renewal of the subscriptions after them; the reconnects with
the delays of their timers, and the attempts that the handlers of a reconnect are told.
-/
inductive WsNotice
  | call (call : WsCall)
  | opened
  | renewed
  | closed
  | error
  | scheduled (delay : Nat)
  | reconnect (attempt : Nat)
  deriving DecidableEq

/-- The client; the sockets that it has made, the oldest first, of which `ws` is the current
one; the timers that wait; the number of exceptions of sending; and what has happened.
-/
structure WsRuntime where
  client : WsClient
  state : WsState
  reconnectAttempts : Nat
  ws : Option Nat
  sockets : List WsSocket
  timers : List Nat
  exceptions : Nat
  notices : List WsNotice

namespace WsRuntime

def new : WsRuntime :=
  { client := { requestId := 0, subscriptions := [] }
    state := .closed
    reconnectAttempts := 0
    ws := none
    sockets := []
    timers := []
    exceptions := 0
    notices := [] }

/-- Note what happens. -/
def tell (notice : WsNotice) (runtime : WsRuntime) : WsRuntime :=
  { runtime with notices := runtime.notices ++ [notice] }

/-- What happens to one of the sockets. -/
def onSocket (i : Nat) (change : WsSocket → WsSocket) (runtime : WsRuntime) : WsRuntime :=
  { runtime with sockets := runtime.sockets.modify i change }

-----------------------------------------------------------------------------------------
-- The calls of the application
-----------------------------------------------------------------------------------------

/-- Connect to the WebSocket server. -/
def connect (config : WsConfig) (runtime : WsRuntime) : WsRuntime :=
  if runtime.state = .opened then runtime
  else if config.validUrl then
    { runtime with
      state := .connecting
      ws := some runtime.sockets.length
      sockets := runtime.sockets ++ [.new] }
  else { runtime with state := .closed }

/-- Disconnect from the WebSocket server. -/
def disconnect (config : WsConfig) (runtime : WsRuntime) : WsRuntime :=
  let reconnectAttempts :=
    if config.autoReconnect then config.maxReconnectAttempts else runtime.reconnectAttempts
  let sockets :=
    match runtime.ws with
    | some i => runtime.sockets.modify i WsSocket.close
    | none => runtime.sockets
  { runtime with
    reconnectAttempts
    sockets
    ws := none
    client := { runtime.client with subscriptions := [] }
    state := .closed }

/-- Send a subscription request over the current socket; whether no exception is thrown. A
socket that is still connecting throws, one that closes drops what is sent.
-/
def sendSubscriptionRequest (method params : String) (runtime : WsRuntime)
    : Bool × WsRuntime :=
  match runtime.ws with
  | none => (true, runtime)
  | some i =>
      if runtime.state ≠ .opened then (true, runtime)
      else
        let arguments := if method == "eth_subscribe" then [params] else []
        let client := { runtime.client with requestId := runtime.client.requestId + 1 }
        let runtime := { runtime with client }
        match runtime.sockets[i]?.map WsSocket.readyState with
        | some .connecting => (false, { runtime with exceptions := runtime.exceptions + 1 })
        | some .opened =>
            (true,
              runtime.onSocket i (fun socket =>
                { socket with
                  streams :=
                    socket.streams ++ (EventStream.ofRequest method arguments).toList }))
        | _ => (true, runtime)

def subscribe (kind : SdkSubscription) (runtime : WsRuntime) : WsRuntime :=
  let requestId := runtime.client.requestId + 1
  let id := kind.subKey ++ "_" ++ toString requestId
  let subscriptions := setEntry id kind runtime.client.subscriptions
  let runtime := { runtime with client := { requestId, subscriptions } }
  (runtime.sendSubscriptionRequest kind.method kind.subKey).2

def unsubscribe (id : String) (runtime : WsRuntime) : WsRuntime :=
  { runtime with
    client :=
      { runtime.client with
        subscriptions := runtime.client.subscriptions.filter (fun entry => entry.1 != id) } }

/-- A call of the application, in a turn of its own or from a handler. -/
def act (config : WsConfig) (call : WsCall) (runtime : WsRuntime) : WsRuntime :=
  let runtime := runtime.tell (.call call)
  match call with
  | .connect => runtime.connect config
  | .disconnect => runtime.disconnect config
  | .subscribe kind => runtime.subscribe kind
  | .unsubscribe id => runtime.unsubscribe id

def acts (config : WsConfig) (calls : List WsCall) (runtime : WsRuntime) : WsRuntime :=
  calls.foldl (fun runtime call => runtime.act config call) runtime

/-- Call handlers in turn, each with what the client tells it then; one that throws ends it.
Whether none throws.
-/
def forEach (config : WsConfig) (told : WsRuntime → WsRuntime)
    : List HandlerCall → WsRuntime → Bool × WsRuntime
  | [], runtime => (true, runtime)
  | handler :: rest, runtime =>
      let runtime := (told runtime).acts config handler.calls
      if handler.throws then (false, runtime) else forEach config told rest runtime

-----------------------------------------------------------------------------------------
-- The events of the sockets
-----------------------------------------------------------------------------------------

/-- Renew subscriptions, in turn; an exception ends it. -/
def resubscribe : List (String × SdkSubscription) → WsRuntime → Bool × WsRuntime
  | [], runtime => (true, runtime)
  | entry :: rest, runtime =>
      let eventType := String.ofList (entry.1.toList.takeWhile (· != '_'))
      match WsConnection.methodMap eventType with
      | none => resubscribe rest runtime
      | some method =>
          match runtime.sendSubscriptionRequest method eventType with
          | (true, runtime) => resubscribe rest runtime
          | (false, runtime) => (false, runtime)

def resubscribeAll (runtime : WsRuntime) : Bool × WsRuntime :=
  resubscribe runtime.client.subscriptions (runtime.tell .renewed)

/-- Announce the next attempt to connect and set its timer. Each handler is told the attempts
as they are when it is called; one that throws leaves the client without the timer.
-/
def scheduleReconnect (config : WsConfig) (onReconnect : List HandlerCall)
    (runtime : WsRuntime) : WsRuntime :=
  let reconnectAttempts := runtime.reconnectAttempts + 1
  let runtime := { runtime with reconnectAttempts, state := .reconnecting }
  let delay := config.reconnectDelay * 2 ^ (reconnectAttempts - 1)
  match (runtime.tell (.scheduled delay)).forEach config
      (fun runtime => runtime.tell (.reconnect runtime.reconnectAttempts)) onReconnect with
  | (false, runtime) => runtime
  | (true, runtime) => { runtime with timers := runtime.timers ++ [delay] }

/-- The handlers of a socket, as `connect` sets them. -/
def onopen (config : WsConfig) (i : Nat) (onOpen : List HandlerCall) (runtime : WsRuntime)
    : WsRuntime :=
  let runtime := { runtime with state := .opened, reconnectAttempts := 0 }.tell .opened
  match runtime.forEach config id onOpen with
  -- an exception leaves the promise of the call pending, and no subscription is renewed
  | (false, runtime) => runtime
  | (true, runtime) =>
      match runtime.resubscribeAll with
      | (true, runtime) => runtime.onSocket i (.settle .resolved)
      | (false, runtime) => runtime

def onclose (config : WsConfig) (onClose onReconnect : List HandlerCall) (runtime : WsRuntime)
    : WsRuntime :=
  let runtime := { runtime with state := .closed }.tell .closed
  match runtime.forEach config id onClose with
  | (false, runtime) => runtime
  | (true, runtime) =>
      -- the handlers may have connected or disconnected; only the attempts are looked at
      if config.autoReconnect ∧ runtime.reconnectAttempts < config.maxReconnectAttempts then
        runtime.scheduleReconnect config onReconnect
      else runtime

def onerror (config : WsConfig) (i : Nat) (onError : List HandlerCall) (runtime : WsRuntime)
    : WsRuntime :=
  match (runtime.tell .error).forEach config id onError with
  | (false, runtime) => runtime
  | (true, runtime) =>
      if runtime.state = .connecting then runtime.onSocket i (.settle .rejected) else runtime

/-- A socket that was connecting has opened. -/
def socketOpens (config : WsConfig) (i : Nat) (onOpen : List HandlerCall) (runtime : WsRuntime)
    : WsRuntime :=
  match runtime.sockets[i]?.map WsSocket.readyState with
  | some .connecting =>
      (runtime.onSocket i (fun socket => { socket with readyState := .opened })).onopen config i
        onOpen
  | _ => runtime

/-- A socket is closed: at the end of a handshake, or because it has failed, which it tells
first. One that never opened has failed.
-/
def socketCloses (config : WsConfig) (i : Nat) (ending : SocketEnd) (runtime : WsRuntime)
    : WsRuntime :=
  let close (socket : WsSocket) : WsSocket := { socket with readyState := .closed, streams := [] }
  match runtime.sockets[i]?.map WsSocket.readyState with
  | none | some .closed => runtime
  | some readyState =>
      let runtime := runtime.onSocket i close
      if ending.failed ∨ readyState = .connecting then
        ((runtime.onerror config i ending.onError).acts config ending.afterError).onclose config
          ending.onClose ending.onReconnect
      else runtime.onclose config ending.onClose ending.onReconnect

/-- A timer runs out. -/
def timerFires (config : WsConfig) (i : Nat) (runtime : WsRuntime) : WsRuntime :=
  if i < runtime.timers.length then
    let runtime := { runtime with timers := runtime.timers.eraseIdx i }
    if runtime.state = .reconnecting then runtime.connect config else runtime
  else runtime

end WsRuntime

/-- The calls of the application, and what happens around the client, with what the handlers do
then.
-/
inductive WsTurn
  | call (call : WsCall)
  | socketOpens (i : Nat) (onOpen : List HandlerCall)
  | socketCloses (i : Nat) (ending : SocketEnd)
  | timerFires (i : Nat)
  deriving DecidableEq

/-- The calls that handlers make in a turn, if it comes to that, or that come between the events
of a socket.
-/
def WsTurn.inner : WsTurn → List WsCall
  | .call _ | .timerFires _ => []
  | .socketOpens _ onOpen => onOpen.flatMap HandlerCall.calls
  | .socketCloses _ ending =>
      ending.onError.flatMap HandlerCall.calls ++ ending.afterError
        ++ ending.onClose.flatMap HandlerCall.calls
        ++ ending.onReconnect.flatMap HandlerCall.calls

namespace WsRuntime

def step (config : WsConfig) (runtime : WsRuntime) : WsTurn → WsRuntime
  | .call call => runtime.act config call
  | .socketOpens i onOpen => runtime.socketOpens config i onOpen
  | .socketCloses i ending => runtime.socketCloses config i ending
  | .timerFires i => runtime.timerFires config i

def steps (config : WsConfig) (turns : List WsTurn) (runtime : WsRuntime) : WsRuntime :=
  turns.foldl (step config) runtime

def run (config : WsConfig) (turns : List WsTurn) : WsRuntime := steps config turns new

end WsRuntime

end VeloChain
