import VeloChain.Rpc.Subscriptions

/-! The WebSocket client of the SDK, next to the streams that the server has opened for it.
The client keeps its handlers under ids of its own, which begin with the key of the subscription;
a notification goes to every handler whose id begins with the tag of the event.
-/

namespace VeloChain

/-- What the SDK offers to subscribe to. -/
inductive SdkSubscription
  | newBlocks
  | gameTicks
  | pendingTxs
  | playerState
  | chatMessages
  | entityUpdates
  | ethNewHeads
  | ethNewPendingTransactions
  deriving DecidableEq

namespace SdkSubscription

/-- The method of the subscription request. -/
def method : SdkSubscription → String
  | .newBlocks => "velochain_subscribeNewBlocks"
  | .gameTicks => "velochain_subscribeGameTicks"
  | .pendingTxs => "velochain_subscribePendingTxs"
  | .playerState => "velochain_subscribePlayerState"
  | .chatMessages => "velochain_subscribeChatMessages"
  | .entityUpdates => "velochain_subscribeEntityUpdates"
  | .ethNewHeads | .ethNewPendingTransactions => "eth_subscribe"

def subKey : SdkSubscription → String
  | .newBlocks => "newBlock"
  | .gameTicks => "gameTick"
  | .pendingTxs => "pendingTx"
  | .playerState => "playerState"
  | .chatMessages => "chatMessage"
  | .entityUpdates => "entityUpdate"
  | .ethNewHeads => "newHeads"
  | .ethNewPendingTransactions => "newPendingTransactions"

end SdkSubscription

/-- The handlers of a client, in the order in which they were subscribed. A handler is named by
what it is subscribed to.
-/
structure WsClient where
  requestId : Nat
  subscriptions : List (String × SdkSubscription)

/-- A client, and the streams of its connection. -/
structure WsConnection where
  client : WsClient
  streams : List EventStream

/-- A JavaScript map takes a new key at its end, and keeps the place of a known one. -/
def setEntry {V : Type} (key : String) (value : V) (entries : List (String × V))
    : List (String × V) :=
  if entries.any (fun entry => entry.1 == key) then
    entries.map (fun entry => if entry.1 == key then (key, value) else entry)
  else entries ++ [(key, value)]

namespace WsConnection

/-- An open connection without subscriptions. -/
def connected : WsConnection := { client := { requestId := 0, subscriptions := [] }, streams := [] }

/-- Send a subscription request; the server opens its stream. -/
def sendSubscriptionRequest (method params : String) (connection : WsConnection)
    : WsConnection :=
  let arguments := if method == "eth_subscribe" then [params] else []
  { client := { connection.client with requestId := connection.client.requestId + 1 }
    streams := connection.streams ++ (EventStream.ofRequest method arguments).toList }

def subscribe (kind : SdkSubscription) (connection : WsConnection) : WsConnection :=
  let requestId := connection.client.requestId + 1
  let id := kind.subKey ++ "_" ++ toString requestId
  let subscriptions := setEntry id kind connection.client.subscriptions
  { connection with client := { requestId, subscriptions } }.sendSubscriptionRequest kind.method
    kind.subKey

/-- Unsubscribing takes the handler out; the server is not told. -/
def unsubscribe (id : String) (connection : WsConnection) : WsConnection :=
  { connection with
    client :=
      { connection.client with
        subscriptions := connection.client.subscriptions.filter (fun entry => entry.1 != id) } }

/-- The methods that subscriptions are renewed with. -/
def methodMap (eventType : String) : Option String :=
  match eventType with
  | "newBlock" => some "velochain_subscribeNewBlocks"
  | "gameTick" => some "velochain_subscribeGameTicks"
  | "pendingTx" => some "velochain_subscribePendingTxs"
  | "playerState" => some "velochain_subscribePlayerState"
  | "chatMessage" => some "velochain_subscribeChatMessages"
  | "entityUpdate" => some "velochain_subscribeEntityUpdates"
  | _ => none

/-- Re-create the subscriptions on a new connection. -/
def resubscribeAll (connection : WsConnection) : WsConnection :=
  connection.client.subscriptions.foldl (fun connection entry =>
      let eventType := String.ofList (entry.1.toList.takeWhile (· != '_'))
      match methodMap eventType with
      | some method => connection.sendSubscriptionRequest method eventType
      | none => connection)
    connection

/-- The connection is lost, with its streams, and opened again. -/
def reconnect (connection : WsConnection) : WsConnection :=
  { connection with streams := [] }.resubscribeAll

end WsConnection

/-- The calls on a connected client, and a connection that is lost and opened again. -/
inductive WsOp
  | subscribe (kind : SdkSubscription)
  | unsubscribe (id : String)
  | reconnect

namespace WsConnection

def step (connection : WsConnection) : WsOp → WsConnection
  | .subscribe kind => connection.subscribe kind
  | .unsubscribe id => connection.unsubscribe id
  | .reconnect => connection.reconnect

def run (ops : List WsOp) : WsConnection := ops.foldl step connected

end WsConnection

namespace WsClient

variable {F : Type}

/-- Whether a notification with an event is for a subscription. -/
def matchesEvent (subId : String) (event : Rpc.GameEvent F) : Bool :=
  event.type.toList.isPrefixOf subId.toList
  || ("newBlock".toList.isPrefixOf subId.toList && event.type == "newBlock")

/-- The subscriptions whose handlers are called for an event. -/
def dispatchEvent (event : Rpc.GameEvent F) (client : WsClient) : List String :=
  (client.subscriptions.filter (fun entry => matchesEvent entry.1 event)).map Prod.fst

/-- The calls of handlers for the notifications that arrive, with the place of their events. The
handlers may throw, which is caught, but none of them subscribes or unsubscribes meanwhile.
-/
def deliveries (arrived : List (Rpc.GameEvent F × Nat)) (client : WsClient) : List (String × Nat) :=
  arrived.flatMap (fun entry =>
    (client.dispatchEvent entry.1).map (fun subId => (subId, entry.2)))

end WsClient

end VeloChain
