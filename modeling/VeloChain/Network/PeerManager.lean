import VeloChain.Lib.CallTrace
import VeloChain.Lib.MapLoops

/-! Peer scoring and connection management: reputation by behaviour, connection limits,
eviction and bans. Additions and subtractions of 64-bit values are checked; a call in which one
overflows does not return.
-/

namespace VeloChain

/-- Peer reputation score. -/
abbrev Score := Int

def initialScore : Score := 100

/-- At or below it a peer is disconnected. -/
def disconnectThreshold : Score := -50

/-- At or below it a peer is banned. -/
def banThreshold : Score := -200

def maxScore : Score := 500

/-- Reasons for scoring adjustments. -/
inductive ScoreEvent
  | validBlock
  | validHeaders
  | validBodies
  | pongReceived
  | invalidBlock
  | invalidHeaders
  | timeout
  | duplicateData
  | unsolicitedData
  | wrongChainId
  | decay
  deriving DecidableEq

/-- The score adjustment for an event. -/
def ScoreEvent.scoreDelta : ScoreEvent → Score
  | .validBlock => 10
  | .validHeaders => 5
  | .validBodies => 5
  | .pongReceived => 1
  | .invalidBlock => -50
  | .invalidHeaders => -30
  | .timeout => -10
  | .duplicateData => -5
  | .unsolicitedData => -3
  | .wrongChainId => -100
  | .decay => 0

/-- Connection direction. -/
inductive Direction
  | outbound
  | inbound
  deriving DecidableEq

/-- Information about a connected peer. -/
structure PeerInfo where
  peerId : String
  score : Score
  direction : Direction
  bestBlock : UInt64
  chainId : UInt64
  connectedTick : Nat
  lastActivityTick : Nat
  goodMessages : Nat
  badMessages : Nat
  disconnectPending : Bool
  deriving DecidableEq

/-- Peer manager configuration. -/
structure PeerManagerConfig where
  maxPeers : Nat
  maxInbound : Nat
  maxOutbound : Nat
  idleTimeoutTicks : Nat
  decayIntervalTicks : Nat
  decayAmount : Score
  chainId : UInt64
  deriving DecidableEq

/-- Manages peer connections, scoring, and eviction. -/
structure PeerManager where
  peers : FinMap String PeerInfo
  /-- Banned peers with the tick at which the ban ends; zero is never. -/
  banned : FinMap String Nat
  config : PeerManagerConfig
  currentTick : Nat
  lastDecayTick : Nat

/-- The orders in which the connected peers are walked. -/
abbrev PeerOrder := IterationOrder String PeerInfo

-----------------------------------------------------------------------------------------
-- Checked arithmetic
-----------------------------------------------------------------------------------------

/-- A sum of 64-bit counters. -/
def checkedWord (n : Nat) : Option Nat := if n < 2 ^ 64 then some n else none

/-- A difference of 64-bit counters. -/
def checkedSub (a b : Nat) : Option Nat := if b ≤ a then some (a - b) else none

/-- A sum or difference of scores. -/
def checkedScore (n : Int) : Option Score :=
  if -(2 ^ 63) ≤ n ∧ n < 2 ^ 63 then some n else none

-----------------------------------------------------------------------------------------
-- Single peers
-----------------------------------------------------------------------------------------

namespace PeerInfo

/-- A peer that has just connected. -/
def connected (peerId : String) (direction : Direction) (now : Nat) : PeerInfo :=
  { peerId
    score := initialScore
    direction
    bestBlock := 0
    chainId := 0
    connectedTick := now
    lastActivityTick := now
    goodMessages := 0
    badMessages := 0
    disconnectPending := false }

/-- Adjust the score of a peer and count the message. -/
def adjust (event : ScoreEvent) (now : Nat) (peer : PeerInfo) : Option PeerInfo := do
  let delta := event.scoreDelta
  let sum ← checkedScore (peer.score + delta)
  let peer := { peer with score := max (-maxScore) (min sum maxScore), lastActivityTick := now }
  if delta > 0 then
    let goodMessages ← checkedWord (peer.goodMessages + 1)
    some { peer with goodMessages }
  else if delta < 0 then
    let badMessages ← checkedWord (peer.badMessages + 1)
    some { peer with badMessages }
  else some peer

/-- Move the score of a peer toward the initial one. -/
def decay (amount : Score) (peer : PeerInfo) : Option PeerInfo :=
  if peer.score > initialScore then
    (checkedScore (peer.score - amount)).map (fun score =>
      { peer with score := max score initialScore })
  else if peer.score < initialScore then
    (checkedScore (peer.score + amount)).map (fun score =>
      { peer with score := min score initialScore })
  else some peer

/-- Whether a peer is marked for disconnection or idle. -/
def outdated (now idleTimeout : Nat) (peer : PeerInfo) : Option Bool :=
  if peer.disconnectPending then some true
  else (checkedSub now peer.lastActivityTick).map (fun idle => decide (idle > idleTimeout))

end PeerInfo

-----------------------------------------------------------------------------------------
-- The manager
-----------------------------------------------------------------------------------------

namespace PeerManager

/-- Create a new peer manager. -/
def new (config : PeerManagerConfig) : PeerManager :=
  { peers := ∅
    banned := ∅
    config
    currentTick := 0
    lastDecayTick := 0 }

/-- The number of connected peers. -/
def peerCount (manager : PeerManager) : Nat := manager.peers.keys.card

/-- The number of peers connected in one direction. -/
def directionCount (direction : Direction) (manager : PeerManager) : Nat :=
  manager.peers.count (fun peer => peer.direction = direction)

/-- The number of inbound peers. -/
def inboundCount (manager : PeerManager) : Nat := manager.directionCount .inbound

/-- The number of outbound peers. -/
def outboundCount (manager : PeerManager) : Nat := manager.directionCount .outbound

/-- Whether a peer is banned. -/
def isBanned (peerId : String) (manager : PeerManager) : Bool :=
  match manager.banned.lookup peerId with
  | none => false
  | some expiry => expiry = 0 || manager.currentTick < expiry

/-- The connected peers in the order of a walk. -/
def walk (order : PeerOrder) (manager : PeerManager) : List PeerInfo :=
  (order.keys manager.peers).filterMap manager.peers.lookup

/-- Evict the worst-scoring peer, the first of them in the walk; whether there was one. -/
def evictWorstPeer (order : PeerOrder) (manager : PeerManager) : Bool × PeerManager :=
  match (manager.walk order).minOn? PeerInfo.score with
  | none => (false, manager)
  | some worst => (true, { manager with peers := manager.peers.erase worst.peerId })

/-- Make room for one more peer when the capacity is reached; whether there is room. -/
def makeRoom (order : PeerOrder) (manager : PeerManager) : Bool × PeerManager :=
  if manager.peerCount ≥ manager.config.maxPeers then manager.evictWorstPeer order
  else (true, manager)

/-- Register a new peer connection; false when it is rejected. -/
def onPeerConnected (order : PeerOrder) (peerId : String) (direction : Direction)
    (manager : PeerManager) : Bool × PeerManager :=
  if manager.isBanned peerId then (false, manager)
  else
    let (room, manager) := manager.makeRoom order
    if !room then (false, manager)
    else
      let full : Bool :=
        match direction with
        | .inbound => manager.inboundCount ≥ manager.config.maxInbound
        | .outbound => manager.outboundCount ≥ manager.config.maxOutbound
      if full then (false, manager)
      else
        (true,
          { manager with
            peers :=
              manager.peers.insert peerId
                (.connected peerId direction manager.currentTick) })

/-- Handle peer disconnection. -/
def onPeerDisconnected (peerId : String) (manager : PeerManager) : PeerManager :=
  { manager with peers := manager.peers.erase peerId }

/-- Record a scoring event for a peer. -/
def recordEvent (peerId : String) (event : ScoreEvent) (manager : PeerManager)
    : Option PeerManager :=
  match manager.peers.lookup peerId with
  | none => some manager
  | some peer =>
      (peer.adjust event manager.currentTick).map (fun peer =>
        if peer.score ≤ banThreshold then
          { manager with
            peers := manager.peers.insert peerId { peer with disconnectPending := true }
            banned := manager.banned.insert peerId 0 }
        else if peer.score ≤ disconnectThreshold then
          { manager with
            peers := manager.peers.insert peerId { peer with disconnectPending := true } }
        else { manager with peers := manager.peers.insert peerId peer })

/-- Update a peer's status information. -/
def updatePeerStatus (peerId : String) (bestBlock chainId : UInt64) (manager : PeerManager)
    : Option PeerManager :=
  match manager.peers.lookup peerId with
  | none => some manager
  | some peer =>
      let manager :=
        { manager with
          peers :=
            manager.peers.insert peerId
              { peer with bestBlock, chainId, lastActivityTick := manager.currentTick } }
      if chainId ≠ 0 ∧ chainId ≠ manager.config.chainId then
        manager.recordEvent peerId .wrongChainId
      else some manager

/-- The peers that should be disconnected: marked ones and idle ones. -/
def peersToDisconnect (order : PeerOrder) (manager : PeerManager) : Option (List String) :=
  (tryFilter (PeerInfo.outdated manager.currentTick manager.config.idleTimeoutTicks)
    (manager.walk order)).map (List.map PeerInfo.peerId)

/-- Decay scores when it is time. -/
def decayScores (order : PeerOrder) (manager : PeerManager) : Option PeerManager := do
  let waited ← checkedSub manager.currentTick manager.lastDecayTick
  if waited ≥ manager.config.decayIntervalTicks then
    let peers ←
      FinMap.tryModifyAll (PeerInfo.decay manager.config.decayAmount)
        (order.keys manager.peers) manager.peers
    some { manager with peers, lastDecayTick := manager.currentTick }
  else some manager

/-- Tick: decay scores and clean up expired bans. -/
def tick (order : PeerOrder) (manager : PeerManager) : Option PeerManager := do
  let currentTick ← checkedWord (manager.currentTick + 1)
  let manager ← decayScores order { manager with currentTick }
  some
    { manager with
      banned :=
        manager.banned.filterValues (fun expiry => expiry = 0 || manager.currentTick < expiry) }

end PeerManager

/-- The operations of the peer manager. -/
inductive PeerOp
  | onPeerConnected (order : PeerOrder) (peerId : String) (direction : Direction)
  | onPeerDisconnected (peerId : String)
  | recordEvent (peerId : String) (event : ScoreEvent)
  | updatePeerStatus (peerId : String) (bestBlock chainId : UInt64)
  | tick (order : PeerOrder)

namespace PeerManager

/-- Whether a connection was accepted, or nothing to say. -/
abbrev Reply := Option Bool

/-- One call; none when it does not return. -/
def call : PeerOp → PeerManager → Option (Reply × PeerManager)
  | .onPeerConnected order peerId direction, manager =>
      let (accepted, manager) := manager.onPeerConnected order peerId direction
      some (some accepted, manager)
  | .onPeerDisconnected peerId, manager => some (none, manager.onPeerDisconnected peerId)
  | .recordEvent peerId event, manager =>
      (manager.recordEvent peerId event).map (fun manager => (none, manager))
  | .updatePeerStatus peerId bestBlock chainId, manager =>
      (manager.updatePeerStatus peerId bestBlock chainId).map (fun manager => (none, manager))
  | .tick order, manager => (manager.tick order).map (fun manager => (none, manager))

end PeerManager

end VeloChain
