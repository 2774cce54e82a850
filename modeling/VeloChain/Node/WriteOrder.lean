import VeloChain.GameEngine.Resting
import VeloChain.Node.Finalize
import VeloChain.Node.Run
import VeloChain.Storage.WriteLog

/-! The single writes of a block application, and what a restarted node makes of them.
Game state, accounts and block come first, then the latest block number, then the receipts.
A node that restarts follows the latest block number to its header.
-/

namespace VeloChain.Chain

variable {F : Type} (host : Host F)

-----------------------------------------------------------------------------------------
-- The writes in their order
-----------------------------------------------------------------------------------------

/-- The writes of receipts with the hash of their block. -/
def receiptPuts (blockHash : B256) (receipts : List TransactionReceipt) : List Put :=
  receipts.map (fun receipt =>
    { cf := .receipts
      key := hashSlice receipt.txHash
      value := host.receiptJson { receipt with blockHash } })

/-- The writes before the latest block number: game state, accounts and block. -/
def pendingPuts (order : BlockOrder F) (block : Block) (execution : Execution)
    (gameWorld : GameWorld F) : List Put :=
  { cf := .gameState
    key := "world".toUTF8.toList
    value := gameWorld.serializeState host.ecs order.persist }
  :: (WorldState.accountPuts host.account execution.state.dirtyAccounts
        (order.dirtyAccounts.keys execution.state.dirtyAccounts)
      ++ Database.blockPuts host.crypto host.blocks block)

/-- The writes of the last part of a block application. -/
def finalizePuts (order : BlockOrder F) (block : Block) (execution : Execution)
    (gameWorld : GameWorld F) : List Put :=
  pendingPuts host order block execution gameWorld
  ++ Database.latestPut block.number
    :: receiptPuts host (block.hash host.crypto) execution.receipts

/-- The kinds of writes before the latest block number. -/
inductive PendingPut (order : BlockOrder F) (block : Block) (execution : Execution)
    (gameWorld : GameWorld F) : Put → Prop
  | world
    : PendingPut order block execution gameWorld
        { cf := .gameState
          key := "world".toUTF8.toList
          value := gameWorld.serializeState host.ecs order.persist }
  | account {address : Address} {account : Account}
      (dirty : execution.state.dirtyAccounts.lookup address = some account)
    : PendingPut order block execution gameWorld
        { cf := .gameState
          key := addressSlice address
          value := host.account.encode account }
  | header
    : PendingPut order block execution gameWorld
        { cf := .headers
          key := hashSlice (block.hash host.crypto)
          value := host.blocks.header.encode block.header }
  | number
    : PendingPut order block execution gameWorld
        { cf := .blockNumberToHash
          key := Database.numberKey block.number
          value := hashSlice (block.hash host.crypto) }
  | content {put : Put} (cf : put.cf = .bodies ∨ put.cf = .transactions)
    : PendingPut order block execution gameWorld put

theorem pendingPut_of_mem {order : BlockOrder F} {block : Block} {execution : Execution}
    {gameWorld : GameWorld F} {put : Put}
    (member : put ∈ pendingPuts host order block execution gameWorld)
    : PendingPut host order block execution gameWorld put := by
  simp only [pendingPuts, Database.blockPuts, Database.headerPuts, List.mem_cons,
    List.mem_append, List.not_mem_nil, or_false] at member
  rcases member with rfl | account | (rfl | rfl) | rfl | index
  · exact .world
  · obtain ⟨address, _, account, dirty, rfl⟩ :=
      (WorldState.mem_accountPuts host.account).mp account
    exact .account dirty
  · exact .header
  · exact .number
  · exact .content (Or.inl rfl)
  · exact .content (Or.inr (Database.cf_transactionPuts host.blocks index))

theorem replay_receiptPuts (blockHash : B256) (receipts : List TransactionReceipt)
    (db : Database)
    : db.replay (receiptPuts host blockHash receipts)
      = storeReceipts host blockHash receipts db := by
  rw [Database.replay, CommitPoint.replay, receiptPuts, List.foldl_map]
  rfl

/-- The database before the latest block number is written. -/
theorem replay_pendingPuts (order : BlockOrder F) (block : Block) (execution : Execution)
    (gameWorld : GameWorld F) (chain : Chain F)
    : chain.db.replay (pendingPuts host order block execution gameWorld)
      = (execution.state.commit host.account (chain.worldStored host order gameWorld)
          host.crypto.keccak256 order.dirtyAccounts).2.2.putBlock host.crypto host.blocks
            block := by
  rw [pendingPuts, Database.replay, CommitPoint.replay_cons, CommitPoint.replay_append]
  exact (congrArg _ (WorldState.replay_accountPuts host.account _ _ _)).trans
    (Database.replay_blockPuts host.crypto host.blocks block _)

/-- The last part of a block application is the log of its writes. -/
theorem db_finalize (order : BlockOrder F) (block : Block) (execution : Execution)
    (gameWorld : GameWorld F) (chain : Chain F)
    : (chain.finalize host order block execution gameWorld).db
      = chain.db.replay (finalizePuts host order block execution gameWorld) := by
  have pending := replay_pendingPuts host order block execution gameWorld chain
  rw [finalizePuts, Database.replay, CommitPoint.replay_append, CommitPoint.replay_cons]
  exact (replay_receiptPuts host _ _ _).symm.trans (congrArg _ (congrArg _ pending.symm))

-----------------------------------------------------------------------------------------
-- What a restarted node finds
-----------------------------------------------------------------------------------------

/-- What the restore path gives: accounts, game state, head, latest block number and stored
receipts.
-/
structure Recovered (F : Type) where
  accounts : AccountView StateError
  gameWorld : GameWorld F
  head : Option BlockHeader
  latestBlockNumber : Except StorageError (Option UInt64)
  receipts : B256 → Option Bytes

/-- The database leads from its latest block number to a header. -/
structure HeadStored (db : Database) (head : BlockHeader) (latest : UInt64) : Prop where
  number : db.getLatestBlockNumber = .ok (some latest)
  indexed : db.getBlockHashByNumber latest = .ok (some (head.hash host.crypto))
  stored : db.getHeader host.blocks (head.hash host.crypto) = .ok (some head)

/-- The header that the latest block number leads to. -/
def storedHead (db : Database) : Option BlockHeader :=
  match db.getLatestBlockNumber with
  | .ok (some number) =>
      match db.getBlockHashByNumber number with
      | .ok (some hash) =>
          match db.getHeader host.blocks hash with
          | .ok found => found
          | .error _ => none
      | _ => none
  | _ => none

theorem HeadStored.storedHead {host : Host F} {db : Database} {head : BlockHeader}
    {latest : UInt64} (stored : HeadStored host db head latest)
    : storedHead host db = some head := by
  simp only [Chain.storedHead, stored.number, stored.indexed, stored.stored]

/-- Restoring the head follows the latest block number. -/
theorem head_restoreHead {chain : Chain F} (fresh : chain.head = none)
    : (chain.restoreHead host).2.head = storedHead host chain.db := by
  unfold restoreHead storedHead
  rcases chain.db.getLatestBlockNumber with _ | _ | number
  · exact fresh
  · exact fresh
  · rcases found : chain.db.getBlockHashByNumber number with _ | _ | hash
    · simpa only [found] using fresh
    · simpa only [found] using fresh
    · rcases stored : chain.db.getHeader host.blocks hash with _ | _ | header
      · simpa only [found, stored] using fresh
      · simpa only [found, stored] using fresh
      · simp only [found, stored]

section Recovery

variable [F32 F]

/-- What a node finds that stops with the given database and restarts. -/
def recovered (chain : Chain F) (db : Database) : Recovered F :=
  let restarted := { chain with db }.restart host
  { accounts := restarted.accounts host
    gameWorld := restarted.gameWorld
    head := restarted.head
    latestBlockNumber := restarted.db.getLatestBlockNumber
    receipts := restarted.db.getReceipt }

variable {host}

/-- A restart reads accounts, game state, latest block number and receipts off the database. -/
theorem recovered_eq (chain : Chain F) (db : Database)
    : recovered host chain db
      = { accounts := WorldState.committedView host.account db
          gameWorld := restoredWorld host db chain.gameWorld.seed
          head := storedHead host db
          latestBlockNumber := db.getLatestBlockNumber
          receipts := db.getReceipt } := by
  have restored : ({ chain with db }.restart host).head = storedHead host db :=
    head_restoreHead host rfl
  obtain ⟨head, frame⟩ := @restart_frame F _ host { chain with db }
  simp only [recovered, restored]
  rw [frame]
  rfl

@[simp]
theorem recovered_accounts (chain : Chain F) (db : Database)
    : (recovered host chain db).accounts = WorldState.committedView host.account db := by
  rw [recovered_eq]

@[simp]
theorem recovered_gameWorld (chain : Chain F) (db : Database)
    : (recovered host chain db).gameWorld = restoredWorld host db chain.gameWorld.seed := by
  rw [recovered_eq]

@[simp]
theorem recovered_head (chain : Chain F) (db : Database)
    : (recovered host chain db).head = storedHead host db := by
  rw [recovered_eq]

@[simp]
theorem recovered_latestBlockNumber (chain : Chain F) (db : Database)
    : (recovered host chain db).latestBlockNumber = db.getLatestBlockNumber := by
  rw [recovered_eq]

@[simp]
theorem recovered_receipts (chain : Chain F) (db : Database)
    : (recovered host chain db).receipts = db.getReceipt := by
  rw [recovered_eq]

/-- A restart finds the header that the latest block number leads to. -/
theorem HeadStored.head_restart {chain : Chain F} {head : BlockHeader} {latest : UInt64}
    (stored : HeadStored host chain.db head latest)
    : (chain.restart host).head = some head :=
  (head_restoreHead host rfl).trans stored.storedHead

theorem restoredWorld_congr {left right : Database}
    (same
      : left.getGameState "world".toUTF8.toList = right.getGameState "world".toUTF8.toList)
    (seed : UInt64)
    : restoredWorld host left seed = restoredWorld host right seed := by
  simp only [restoredWorld, same]

/-- A restored world keeps the seed it was asked for, and knows what its spawn points spawn. -/
theorem restoredWorld_spec (db : Database) (seed : UInt64)
    : (restoredWorld host db seed).seed = seed
      ∧ (restoredWorld host db seed).spawnManager.Known := by
  have known := @SpawnManager.known_generateSpawnPoints F _ host.crypto.keccak256 seed
  have fresh : (GameWorld.new host.crypto.keccak256 seed : GameWorld F).spawnManager.Known :=
    known.tickSpawns
  unfold restoredWorld
  split
  next => exact ⟨rfl, fresh⟩
  next data _ =>
    unfold GameWorld.fromState
    split
    next world read =>
      split at read
      next => cases read
      next =>
        obtain rfl := Except.ok.inj read
        exact ⟨rfl, known⟩
    next => exact ⟨rfl, fresh⟩

/-- A world is restored from data that is read, with all spawns still to come. -/
theorem restoredWorld_of_decode {db : Database} {data : Bytes} {stored : EcsWorld F}
    (found : db.getGameState "world".toUTF8.toList = some data)
    (reads : host.ecs.decode data = .ok stored) (seed : UInt64)
    : restoredWorld host db seed
      = { ecs := stored
          currentTick := 0
          seed
          spawnManager := SpawnManager.new.generateSpawnPoints host.crypto.keccak256 seed
          eventManager := .new } := by
  simp only [restoredWorld, found, GameWorld.fromState, reads]

/-- Any other data is passed over for a new world. -/
theorem restoredWorld_cases (db : Database) (seed : UInt64)
    : (∃ data stored,
        db.getGameState "world".toUTF8.toList = some data ∧ host.ecs.decode data = .ok stored)
      ∨ (restoredWorld host db seed).spawnManager.Settled := by
  have settled
      : (GameWorld.new host.crypto.keccak256 seed : GameWorld F).spawnManager.Settled :=
    SpawnManager.settled_tickSpawns_generateSpawnPoints host.crypto.keccak256 seed
  unfold restoredWorld
  cases db.getGameState "world".toUTF8.toList with
  | none => exact Or.inr settled
  | some data =>
      cases read : host.ecs.decode data with
      | error e => simpa only [GameWorld.fromState, read] using Or.inr settled
      | ok stored => exact Or.inl ⟨data, stored, rfl, read⟩

end Recovery

end VeloChain.Chain
