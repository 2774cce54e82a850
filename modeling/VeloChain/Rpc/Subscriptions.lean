import VeloChain.Primitives.Types

/-! The subscription endpoints of the RPC server.
Every accepted request opens a stream of its own, which forwards the events of one kind.
-/

namespace VeloChain

/-- Events that can be broadcast to subscribers. -/
inductive Rpc.GameEvent (F : Type)
  | newBlock (number : UInt64) (hash : String) (txCount : Nat) (timestamp : UInt64)
  | gameTick (tick : UInt64) (entityCount playerCount : Nat) (stateRoot : String)
  | pendingTransaction (hash : String)
  | playerState (address : String) (position : F × F × F) (health : F) (isAlive : Bool)
  | chatMessage (sender message : String) (tick : UInt64)
  | entityUpdate (entityId : UInt64) (entityType : String) (position : F × F × F)
    (health : Option F) (removed : Bool)

variable {F : Type}

/-- The tag of an event, which its encoding has in `type`. -/
def Rpc.GameEvent.type : Rpc.GameEvent F → String
  | .newBlock _ _ _ _ => "newBlock"
  | .gameTick _ _ _ _ => "gameTick"
  | .pendingTransaction _ => "pendingTransaction"
  | .playerState _ _ _ _ => "playerState"
  | .chatMessage _ _ _ => "chatMessage"
  | .entityUpdate _ _ _ _ _ => "entityUpdate"

/-- The streams that a request can open. -/
inductive EventStream
  | newBlocks
  | gameTicks
  | pendingTxs
  | playerState
  | chatMessages
  | entityUpdates
  | eth (kind : String)
  deriving DecidableEq

namespace EventStream

/-- The stream that a subscription request opens. -/
def ofRequest (method : String) (params : List String) : Option EventStream :=
  match method, params with
  | "velochain_subscribeNewBlocks", _ => some .newBlocks
  | "velochain_subscribeGameTicks", _ => some .gameTicks
  | "velochain_subscribePendingTxs", _ => some .pendingTxs
  | "velochain_subscribePlayerState", _ => some .playerState
  | "velochain_subscribeChatMessages", _ => some .chatMessages
  | "velochain_subscribeEntityUpdates", _ => some .entityUpdates
  | "eth_subscribe", kind :: _ => some (.eth kind)
  | _, _ => none

/-- Whether a stream sends an event to its subscriber. -/
def forwards : EventStream → Rpc.GameEvent F → Bool
  | .newBlocks, .newBlock _ _ _ _ => true
  | .gameTicks, .gameTick _ _ _ _ => true
  | .pendingTxs, .pendingTransaction _ => true
  | .playerState, .playerState _ _ _ _ => true
  | .chatMessages, .chatMessage _ _ _ => true
  | .entityUpdates, .entityUpdate _ _ _ _ _ => true
  | .eth kind, .newBlock _ _ _ _ => kind == "newHeads"
  | .eth kind, .pendingTransaction _ => kind == "newPendingTransactions"
  | _, _ => false

end EventStream

/-- The notifications of one connection for a sequence of events: each stream sends those that it
forwards. An event is known by its place in the sequence.
-/
def notifications (streams : List EventStream) (events : List (Rpc.GameEvent F))
    : List (Rpc.GameEvent F × Nat) :=
  events.zipIdx.flatMap (fun entry =>
    (streams.filter (fun stream => stream.forwards entry.1)).map (fun _ => entry))

end VeloChain
