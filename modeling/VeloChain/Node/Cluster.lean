import VeloChain.Lib.Gossip
import VeloChain.Node.NetworkHandler
import VeloChain.Node.Running

/-! Nodes that run side by side and gossip.
Validators produce blocks and announce them; every node imports what reaches it, asks for blocks
that it misses and answers such questions. Transactions come in over the RPC of a node. A message
can be lost, repeated and overtaken. The event loop of the network service stands between a node
and the gossip topics: several kinds of messages become no event, they are dropped.
-/

namespace VeloChain

-----------------------------------------------------------------------------------------
-- The network service
-----------------------------------------------------------------------------------------

/-- Network messages exchanged between peers. -/
inductive NetworkMessage
  | newBlock (block : Block)
  | newTransaction (tx : SignedTransaction)
  | getBlock (number : UInt64)
  | blockResponse (block : Option Block)
  | getHead
  | headResponse (number : UInt64) (hash : B256) (gameTick : UInt64)
  | getHeaders (startBlock maxHeaders : UInt64)
  | headersResponse (headers : List BlockHeader)
  | getBodies (hashes : List B256)
  | bodiesResponse (bodies : List BlockBody)
  | status (chainId bestBlock : UInt64) (bestHash genesisHash : B256)
  | ping (value : UInt64)
  | pong (value : UInt64)
  deriving DecidableEq

/-- Commands that can be sent to the network event loop. -/
inductive ServiceCommand
  | broadcastBlock (block : Block)
  | broadcastTransaction (tx : SignedTransaction)
  | publishSyncRequest (message : NetworkMessage)
  | requestBlock (number : UInt64)
  | sendBlockResponse (block : Block)
  | dial (address : String)
  | shutdown

/-- The message that is published for a command. -/
def ServiceCommand.message : ServiceCommand → Option NetworkMessage
  | .broadcastBlock block => some (.newBlock block)
  | .broadcastTransaction tx => some (.newTransaction tx)
  | .publishSyncRequest message => some message
  | .requestBlock number => some (.getBlock number)
  | .sendBlockResponse block => some (.blockResponse (some block))
  | .dial _ => none
  | .shutdown => none

/-- The command behind a call of `request_block` or `send_block_response`. -/
def NetworkCommand.toService : NetworkCommand → ServiceCommand
  | .requestBlock number => .requestBlock (UInt64.ofNat number)
  | .sendBlockResponse block => .sendBlockResponse block

/-- What the handling of a message depends on beside the message: the order in which a block
application walks over hash maps, and the peer that a status is attributed to, which is drawn
at random.
-/
structure Reception (F : Type) where
  order : BlockOrder F
  peerId : String

/-- The event that a message from a gossip topic becomes. -/
def NetworkMessage.event {F : Type} (how : Reception F) : NetworkMessage → Option (NetworkEvent F)
  | .newBlock block => some (.blockReceived block how.order)
  | .newTransaction tx => some (.transactionReceived tx)
  | .headersResponse headers => some (.headersReceived headers)
  | .bodiesResponse bodies => some (.bodiesReceived bodies)
  | .getBlock number => some (.blockRequested number)
  | .blockResponse (some block) => some (.blockResponseReceived block how.order)
  | .status _ bestBlock _ _ => some (.peerStatus how.peerId bestBlock)
  | _ => none

-----------------------------------------------------------------------------------------
-- Nodes side by side
-----------------------------------------------------------------------------------------

/-- What the nodes have in common, and which of them run a block producer. -/
structure Cluster (F ι : Type) where
  host : Host F
  messages : Codec NetworkMessage
  validator : ι → Bool

/-- What a node does by itself: produce a block, take a transaction or read an account for its
RPC, or start anew over its database.
-/
inductive NodeAction (F : Type)
  | produce (now : UInt64) (senders : IterationOrder Address SenderQueue)
      (order : BlockOrder F)
  | addTransaction (tx : SignedTransaction)
  | readAccount (address : Address)
  | restart

/-- A turn of a node of the cluster. -/
abbrev ClusterTurn (F ι : Type) := Gossip.Turn ι (NodeAction F) (Reception F)

/-- The nodes and what they have published. -/
abbrev ClusterNet (F ι : Type) := Gossip.Net ι (NetworkHandler F) NetworkMessage

namespace Cluster

variable {F ι : Type} [F32 F] (cluster : Cluster F ι)

/-- An action of a node. A block that was produced is announced; the failure to produce one is
only logged.
-/
def act (i : ι) (action : NodeAction F) (node : NetworkHandler F)
    : List NetworkMessage × NetworkHandler F :=
  match action with
  | .produce now senders order =>
      if cluster.validator i then
        match node.chain.produceBlock cluster.host now senders order with
        | (.ok block, chain) =>
            ((ServiceCommand.broadcastBlock block).message.toList, { node with chain })
        | (.error _, chain) => ([], { node with chain })
      else ([], node)
  | .addTransaction tx =>
      ([], { node with chain := node.chain.step cluster.host (.addTransaction tx) })
  | .readAccount address =>
      ([], { node with chain := node.chain.step cluster.host (.readAccount address) })
  | .restart => ([], .new (node.chain.restart cluster.host))

/-- A message that reaches a node. One that cannot be decoded is ignored. -/
def receive (_ : ι) (how : Reception F) (message : NetworkMessage) (node : NetworkHandler F)
    : List NetworkMessage × NetworkHandler F :=
  match cluster.messages.decode (cluster.messages.encode message) with
  | .error _ => ([], node)
  | .ok received =>
      match received.event how with
      | none => ([], node)
      | some event =>
          let (commands, node) := node.onEvent cluster.host event
          (commands.filterMap (fun command => command.toService.message), node)

/-- The nodes as parties of a gossip network. -/
def protocol : Gossip.Protocol ι (NetworkHandler F) (NodeAction F) (Reception F) NetworkMessage :=
  { act := cluster.act, receive := cluster.receive }

variable [DecidableEq ι]

/-- Every node has written the genesis block into an empty database and joins the network. -/
def launch (genesis : BlockHeader) (start : ι → Chain F) : ClusterNet F ι :=
  { parties := fun i => .new ((start i).initGenesis cluster.host genesis), published := [] }

/-- The cluster after a list of turns. -/
def run (genesis : BlockHeader) (start : ι → Chain F) (turns : List (ClusterTurn F ι))
    : ClusterNet F ι :=
  cluster.protocol.run turns (cluster.launch genesis start)

end Cluster

/-- The block that a message announces. -/
def NetworkMessage.announced : NetworkMessage → Option Block
  | .newBlock block => some block
  | _ => none

/-- The genesis block and all blocks that were announced. -/
def ClusterNet.blocks {F ι : Type} (genesis : BlockHeader) (net : ClusterNet F ι) : List Block :=
  Block.new genesis [] :: net.published.filterMap NetworkMessage.announced

/-- The transactions that were handed to a node over its RPC. -/
def submitted {F ι : Type} [DecidableEq ι] (i : ι) (turns : List (ClusterTurn F ι))
    : List SignedTransaction :=
  turns.filterMap (fun turn =>
    match turn with
    | .act j (.addTransaction tx) => if j = i then some tx else none
    | _ => none)

end VeloChain
