import VeloChain.Lib.NumberMap
import VeloChain.Primitives.Types

/-! Block synchronization: download headers, then bodies, verify the chain, release it for
import. Block numbers and lengths are naturals here; where the result of an addition or a
multiplication leaves the range of 64 bits, it wraps around.
-/

namespace VeloChain

/-- A 64-bit result, which wraps around. -/
def word (n : Nat) : Nat := n % 2 ^ 64

/-- State of the sync engine. -/
inductive SyncState
  | synced
  | downloadingHeaders
  | downloadingBodies
  | verifying
  | stalled
  deriving DecidableEq

/-- The best known chain from peers. -/
structure SyncTarget where
  bestBlock : Nat
  bestHash : B256
  peerId : String
  deriving DecidableEq

/-- A pending header request. -/
structure HeaderRequest where
  start : Nat
  count : Nat
  peerId : String
  createdTick : Nat
  retries : Nat
  deriving DecidableEq

/-- A pending body request. -/
structure BodyRequest where
  hashes : List B256
  peerId : String
  createdTick : Nat
  retries : Nat
  deriving DecidableEq

/-- A downloaded header. -/
structure SyncedHeader where
  number : Nat
  hash : B256
  parentHash : B256
  bodyDownloaded : Bool
  verified : Bool
  deriving DecidableEq

inductive SyncError
  | noPeers
  | brokenChain (atBlock : Nat)
  | timeout (requestId : Nat)
  | maxRetries (requestId : Nat)
  deriving DecidableEq

/-- Result of a sync operation. -/
inductive SyncResult
  | headersQueued (count : Nat)
  | bodiesMatched (count : Nat)
  | rangeVerified (first last : Nat)
  | error (e : SyncError)
  deriving DecidableEq

/-- Configuration for the sync engine. With pieces of size zero, the first poll for bodies would
panic.
-/
structure SyncConfig where
  headersPerRequest : Nat
  bodiesPerRequest : Nat
  requestTimeoutTicks : Nat
  maxRetries : Nat
  maxHeaderRequests : Nat
  maxBodyRequests : Nat
  bodiesPerRequest_pos : 0 < bodiesPerRequest
  deriving DecidableEq

def SyncConfig.default : SyncConfig :=
  { headersPerRequest := 256
    bodiesPerRequest := 64
    requestTimeoutTicks := 30
    maxRetries := 3
    maxHeaderRequests := 4
    maxBodyRequests := 8
    bodiesPerRequest_pos := by decide }

/-- The block sync engine. -/
structure SyncEngine where
  state : SyncState
  localHead : Nat
  target : Option SyncTarget
  headers : FinMap Nat SyncedHeader
  headerRequests : FinMap Nat HeaderRequest
  bodyRequests : FinMap Nat BodyRequest
  nextRequestId : Nat
  currentTick : Nat
  config : SyncConfig
  importReady : List Nat
  bannedPeers : List String

/-- The orders in which the pending requests are walked. -/
structure RequestOrder where
  headers : IterationOrder Nat HeaderRequest
  bodies : IterationOrder Nat BodyRequest

/-- A header as a peer sends it: number, hash and parent hash. -/
abbrev ReceivedHeader := Nat × B256 × B256

namespace SyncEngine

/-- Create a new sync engine. -/
def new (localHead : Nat) (config : SyncConfig) : SyncEngine :=
  { state := .synced
    localHead
    target := none
    headers := ∅
    headerRequests := ∅
    bodyRequests := ∅
    nextRequestId := 1
    currentTick := 0
    config
    importReady := []
    bannedPeers := [] }

/-- Drain blocks ready for import. -/
def drainImportReady (engine : SyncEngine) : List Nat × SyncEngine :=
  (engine.importReady, { engine with importReady := [] })

/-- Ban a peer for sending bad data. -/
def banPeer (peerId : String) (engine : SyncEngine) : SyncEngine :=
  { engine with bannedPeers := peerId :: engine.bannedPeers }

/-- Update the sync target from a peer's status message. -/
def onPeerStatus (peerId : String) (bestBlock : Nat) (bestHash : B256) (engine : SyncEngine)
    : SyncEngine :=
  if bestBlock ≤ engine.localHead then engine
  else if engine.target.all (fun target => bestBlock > target.bestBlock) then
    { engine with
      target := some { bestBlock, bestHash, peerId }
      state := if engine.state = .synced then .downloadingHeaders else engine.state }
  else engine

/-- Update the local head after importing blocks. -/
def updateLocalHead (newHead : Nat) (engine : SyncEngine) : SyncEngine :=
  let engine :=
    { engine with
      localHead := newHead
      headers := engine.headers.eraseAll (engine.headers.numbers.filter (· ≤ newHead)) }
  match engine.target with
  | none => engine
  | some target =>
      if newHead ≥ target.bestBlock then { engine with state := .synced, target := none }
      else engine

-----------------------------------------------------------------------------------------
-- Headers
-----------------------------------------------------------------------------------------

/-- Where the highest pending header request ends. -/
def highestRequested (engine : SyncEngine) : Nat :=
  (engine.headerRequests.values.map (fun request => word (request.start + request.count))).foldl
    max 0

/-- Issue header requests one after another, up to the target. -/
def issueHeaderRequests (target : SyncTarget)
    : Nat → Nat → SyncEngine → List (Nat × Nat × Nat × Option String) × SyncEngine
  | 0, _, engine => ([], engine)
  | more + 1, start, engine =>
      if start > target.bestBlock then ([], engine)
      else
        let count :=
          min engine.config.headersPerRequest (word (target.bestBlock - start + 1))
        let requestId := engine.nextRequestId
        let engine :=
          { engine with
            nextRequestId := requestId + 1
            headerRequests :=
              engine.headerRequests.insert requestId
                { start, count, peerId := target.peerId, createdTick := engine.currentTick
                  retries := 0 } }
        let (requests, engine) :=
          issueHeaderRequests target more (word (start + count)) engine
        ((requestId, start, count, some target.peerId) :: requests, engine)

/-- Generate header download requests for the next batch. The first one starts with the highest
header that is already there.
-/
def pollHeaderRequests (engine : SyncEngine)
    : List (Nat × Nat × Nat × Option String) × SyncEngine :=
  if engine.state ≠ .downloadingHeaders then ([], engine)
  else
    match engine.target with
    | none => ([], engine)
    | some target =>
        let maxNew := engine.config.maxHeaderRequests - engine.headerRequests.keys.card
        let start :=
          max (max engine.highestRequested engine.headers.highest) (word (engine.localHead + 1))
        issueHeaderRequests target maxNew start engine

/-- Store a received header unless there is one of its number. -/
def storeHeader (headers : FinMap Nat SyncedHeader) (received : ReceivedHeader)
    : FinMap Nat SyncedHeader :=
  let (number, hash, parentHash) := received
  if number ∈ headers then headers
  else
    headers.insert number
      { number, hash, parentHash, bodyDownloaded := false, verified := false }

/-- Process received headers from a peer. -/
def onHeadersReceived (headers : List ReceivedHeader) (engine : SyncEngine)
    : SyncResult × SyncEngine :=
  match headers with
  | [] => (.headersQueued 0, engine)
  | first :: _ =>
      let engine :=
        { engine with
          headerRequests :=
            engine.headerRequests.retain (fun request => request.start ≠ first.1)
          headers := headers.foldl storeHeader engine.headers }
      let state :=
        match engine.target with
        | none => engine.state
        | some target =>
            if engine.headers.highest ≥ target.bestBlock
                ∧ engine.headerRequests.keys.card = 0 then
              .downloadingBodies
            else engine.state
      (.headersQueued headers.length, { engine with state })

-----------------------------------------------------------------------------------------
-- Bodies
-----------------------------------------------------------------------------------------

/-- Cut a list into pieces of one size, the last one possibly shorter; at most `fuel` pieces. -/
def chunks {α : Type} (size : Nat) : Nat → List α → List (List α)
  | _, [] => []
  | 0, _ => []
  | fuel + 1, items => items.take size :: chunks size fuel (items.drop size)

/-- The hashes of the headers without a body, lowest number first. -/
def pendingBodies (engine : SyncEngine) : List B256 :=
  (engine.headers.values.filter (fun header => !header.bodyDownloaded)).map SyncedHeader.hash

/-- Issue one body request. -/
def issueBodyRequest (issued : List (Nat × List B256 × Option String) × SyncEngine)
    (hashes : List B256) : List (Nat × List B256 × Option String) × SyncEngine :=
  let (requests, engine) := issued
  let requestId := engine.nextRequestId
  let peer := engine.target.map SyncTarget.peerId
  (requests ++ [(requestId, hashes, peer)],
    { engine with
      nextRequestId := requestId + 1
      bodyRequests :=
        engine.bodyRequests.insert requestId
          { hashes, peerId := peer.getD "", createdTick := engine.currentTick, retries := 0 } })

/-- Generate body download requests. -/
def pollBodyRequests (engine : SyncEngine)
    : List (Nat × List B256 × Option String) × SyncEngine :=
  if engine.state ≠ .downloadingBodies then ([], engine)
  else
    let maxNew := engine.config.maxBodyRequests - engine.bodyRequests.keys.card
    let pending := engine.pendingBodies.take (word (maxNew * engine.config.bodiesPerRequest))
    (chunks engine.config.bodiesPerRequest pending.length pending).foldl issueBodyRequest
      ([], engine)

/-- The lowest number whose header has the given hash and no body yet. -/
def awaiting (headers : FinMap Nat SyncedHeader) (hash : B256) : Option Nat :=
  headers.numbers.find? (fun number =>
    (headers.lookup number).any (fun header => header.hash = hash ∧ !header.bodyDownloaded))

/-- Count a body for the header that awaits it. -/
def matchBody (matched : Nat × FinMap Nat SyncedHeader) (hash : B256)
    : Nat × FinMap Nat SyncedHeader :=
  match awaiting matched.2 hash with
  | none => matched
  | some number =>
      (matched.1 + 1,
        matched.2.modify number (fun header => { header with bodyDownloaded := true }))

/-- Process received bodies for a set of block hashes. -/
def onBodiesReceived (hashes : List B256) (engine : SyncEngine) : SyncResult × SyncEngine :=
  let (matched, headers) := hashes.foldl matchBody (0, engine.headers)
  let bodyRequests :=
    engine.bodyRequests.retain (fun request => !request.hashes.all (· ∈ hashes))
  let state :=
    if headers.values.all SyncedHeader.bodyDownloaded ∧ bodyRequests.keys.card = 0
        ∧ headers.keys.card ≠ 0 then
      .verifying
    else engine.state
  (.bodiesMatched matched, { engine with headers, bodyRequests, state })

-----------------------------------------------------------------------------------------
-- Verification
-----------------------------------------------------------------------------------------

/-- Check neighbours for consecutive numbers and matching hashes; the block where the chain
breaks.
-/
def brokenAt (headers : FinMap Nat SyncedHeader) : List Nat → Option Nat
  | a :: b :: rest =>
      if b ≠ a + 1 then some b
      else if (headers.lookup b).map SyncedHeader.parentHash
          ≠ (headers.lookup a).map SyncedHeader.hash then some b
      else brokenAt headers (b :: rest)
  | _ => none

/-- Verify the header chain continuity and mark blocks for import. -/
def verifyChain (engine : SyncEngine) : SyncResult × SyncEngine :=
  let numbers := engine.headers.numbers
  match numbers with
  | [] => (.error .noPeers, engine)
  | first :: rest =>
      match brokenAt engine.headers numbers with
      | some atBlock => (.error (.brokenChain atBlock), engine)
      | none =>
          (.rangeVerified first (rest.getLastD first),
            { engine with
              headers :=
                engine.headers.modifyAll numbers (fun header => { header with verified := true })
              importReady := engine.importReady ++ numbers
              state := .synced })

-----------------------------------------------------------------------------------------
-- Timeouts
-----------------------------------------------------------------------------------------

/-- Take one timed-out request off the pending ones and put it back under a new id, unless it
has been tried often enough.
-/
def retryRequest {R : Type} (again : R → Option R)
    (progress : FinMap Nat R × Nat × List SyncResult) (id : Nat)
    : FinMap Nat R × Nat × List SyncResult :=
  let (requests, nextRequestId, results) := progress
  match requests.lookup id with
  | none => progress
  | some request =>
      match again request with
      | none => (requests.erase id, nextRequestId, results ++ [.error (.maxRetries id)])
      | some request =>
          ((requests.erase id).insert nextRequestId request, nextRequestId + 1,
            results ++ [.error (.timeout id)])

/-- The ids of the requests that wait for too long, in the order of the walk. -/
def timedOut {R : Type} (order : IterationOrder Nat R) (expired : R → Bool)
    (requests : FinMap Nat R) : List Nat :=
  (order.keys requests).filter (fun id => (requests.lookup id).any expired)

/-- Tick the sync engine: handle timeouts and retries. -/
def tick (order : RequestOrder) (engine : SyncEngine) : List SyncResult × SyncEngine :=
  let now := engine.currentTick + 1
  let timeout := engine.config.requestTimeoutTicks
  let maxRetries := engine.config.maxRetries
  let (headerRequests, nextRequestId, results) :=
    (timedOut order.headers (fun request => now - request.createdTick > timeout)
      engine.headerRequests).foldl
      (retryRequest (fun request =>
        if request.retries + 1 > maxRetries then none
        else some { request with retries := request.retries + 1, createdTick := now }))
      (engine.headerRequests, engine.nextRequestId, [])
  let (bodyRequests, nextRequestId, results) :=
    (timedOut order.bodies (fun request => now - request.createdTick > timeout)
      engine.bodyRequests).foldl
      (retryRequest (fun request =>
        if request.retries + 1 > maxRetries then none
        else some { request with retries := request.retries + 1, createdTick := now }))
      (engine.bodyRequests, nextRequestId, results)
  let state :=
    if engine.state ≠ .synced ∧ headerRequests.keys.card = 0 ∧ bodyRequests.keys.card = 0
        ∧ engine.headers.keys.card = 0 ∧ engine.target.isSome then
      .stalled
    else engine.state
  (results, { engine with currentTick := now, headerRequests, bodyRequests, nextRequestId, state })

end SyncEngine

end VeloChain
