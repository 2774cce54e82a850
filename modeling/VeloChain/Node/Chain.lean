import VeloChain.Consensus.Poa
import VeloChain.Evm.Executor
import VeloChain.GameEngine.World
import VeloChain.TxPool.Pool

/-! The canonical chain: genesis, block application and the head.
`applyBlock` changes the world state, the game world, the database and the pool one after
another and leaves at the first error without undoing anything. `Accepted` lists what a
successful application computed on its way.
-/

namespace VeloChain

inductive NodeError
  | storage (e : StorageError)
  | state (e : StateError)
  | consensus (e : ConsensusError)
  | gameEngine (e : GameEngineError)
  | txPool (e : TxPoolError)
  | notInitialized
  | internal (message : String)
  deriving DecidableEq

/-- A log entry within a transaction receipt. -/
structure ReceiptLog where
  address : Address
  topics : List B256
  data : Bytes
  deriving DecidableEq

/-- A transaction receipt recording the outcome of a transaction. -/
structure TransactionReceipt where
  txHash : B256
  blockNumber : UInt64
  blockHash : B256
  index : UInt32
  success : Bool
  gasUsed : UInt64
  cumulativeGasUsed : UInt64
  contractAddress : Option Address
  logs : List ReceiptLog
  deriving DecidableEq

/-- The functions of other libraries that the node runs on. -/
structure Host (F : Type) where
  crypto : Crypto
  blocks : BlockCodecs
  account : Codec Account
  ecs : EcsCodec F
  receiptJson : TransactionReceipt → Bytes
  revm : Revm

/-- The orders in which one block application walks over hash maps. -/
structure BlockOrder (F : Type) where
  tick : TickOrder F
  persist : EntityOrder F
  evmAccounts : IterationOrder Address DbAccount
  dirtyAccounts : IterationOrder Address Account

theorem BlockOrder.nonempty {F : Type} : Nonempty (BlockOrder F) := by
  obtain ⟨entities⟩ := IterationOrder.nonempty EntityId (List (Component F))
  obtain ⟨evmAccounts⟩ := IterationOrder.nonempty Address DbAccount
  obtain ⟨dirtyAccounts⟩ := IterationOrder.nonempty Address Account
  exact ⟨⟨.uniform entities, entities, evmAccounts, dirtyAccounts⟩⟩

/-- The blockchain state and chain management. -/
structure Chain (F : Type) where
  db : Database
  state : WorldState
  gameWorld : GameWorld F
  txpool : TransactionPool
  consensus : PoaConsensus
  evm : EvmExecutor
  head : Option BlockHeader
  chainId : UInt64

/-- The fixed gas amount of a game action. -/
def gameActionGas : UInt64 := 21000

/-- The transactions of a block by kind. Game actions keep only the sender and the action. -/
structure Partition where
  evmTxs : List SignedTransaction
  gameActions : List (String × GameAction)
  totalGasUsed : UInt64

/-- What the transaction passes of a block work on. -/
structure Execution where
  evm : EvmExecutor
  state : WorldState
  cumulativeGas : UInt64
  receipts : List TransactionReceipt

-----------------------------------------------------------------------------------------
-- The partition of a block
-----------------------------------------------------------------------------------------

namespace Partition

variable (crypto : Crypto)

/-- Sort one transaction into the partition. -/
def addTx (tx : SignedTransaction) (parts : Partition) : Except NodeError Unit × Partition :=
  if tx.isGameAction then
    match tx.gameAction with
    | none => (.ok (), parts)
    | some action =>
        match tx.sender crypto with
        | .error e => (.error (.internal s!"Failed to recover sender: {e}"), parts)
        | .ok sender =>
            (.ok (),
              { parts with
                gameActions := parts.gameActions ++ [(debugAddress sender, action)]
                totalGasUsed := parts.totalGasUsed + gameActionGas })
  else (.ok (), { parts with evmTxs := parts.evmTxs ++ [tx] })

def ofBlock (block : Block) : Except NodeError Unit × Partition :=
  Loop.run (addTx crypto) block.body.transactions
    { evmTxs := [], gameActions := [], totalGasUsed := 0 }

end Partition

-----------------------------------------------------------------------------------------
-- The two passes over the transactions
-----------------------------------------------------------------------------------------

namespace Execution

variable {F : Type} (host : Host F) (db : Database) (block : Block)

/-- Append a receipt for a transaction; the block hash is filled in later. -/
def pushReceipt (tx : SignedTransaction) (success : Bool) (gasUsed : UInt64)
    (contractAddress : Option Address) (logs : List ReceiptLog) (execution : Execution)
    : Execution :=
  { execution with
    receipts :=
      execution.receipts ++
        [ { txHash := tx.hash
            blockNumber := block.number
            blockHash := 0
            index := UInt32.ofNat execution.receipts.length
            success
            gasUsed
            cumulativeGasUsed := execution.cumulativeGas
            contractAddress
            logs } ] }

/-- Load one account into the EVM. -/
def load (address : Address) (execution : Execution) : Execution :=
  let (evm, state) := execution.evm.loadAccount host.account db address execution.state
  { execution with evm, state }

/-- Load the sender and the recipient of a transaction into the EVM. -/
def loadTx (tx : SignedTransaction) (execution : Execution) : Execution :=
  let execution :=
    match tx.sender host.crypto with
    | .ok sender => execution.load host db sender
    | .error _ => execution
  match tx.transaction.to with
  | some recipient => execution.load host db recipient
  | none => execution

/-- Charge the sender of an executed transaction. A missing gas price counts as one. -/
def gasCost (tx : Transaction) (outcome : ExecutionOutcome) : U256 :=
  BitVec.ofNat 256 outcome.gasUsed.toNat * (tx.gasPrice.getD 1).setWidth 256

/-- Run one EVM transaction: nonce check, execution, bookkeeping and receipt. The results of
the bookkeeping are only logged.
-/
def executeEvmTx (tx : SignedTransaction) (execution : Execution)
    : Except NodeError Unit × Execution :=
  match tx.sender host.crypto with
  | .error e => (.error (.internal s!"Sender recovery: {e}"), execution)
  | .ok sender =>
      match execution.state.getNonce host.account db sender with
      | (.error e, state) => (.error (.internal s!"Nonce read: {e}"), { execution with state })
      | (.ok expectedNonce, state) =>
          -- a stale transaction is passed over with a failed receipt, not refused
          if tx.transaction.nonce ≠ expectedNonce then
            (.ok (), { execution with state }.pushReceipt block tx false 0 none [])
          else
            match execution.evm.executeTx host.crypto host.revm tx with
            | (.ok outcome, evm) =>
                let state :=
                  (state.subBalance host.account db sender (gasCost tx.transaction outcome)).2
                let state := (state.incrementNonce host.account db sender).2
                (.ok (),
                  { execution with
                    evm
                    state
                    cumulativeGas := execution.cumulativeGas + outcome.gasUsed }.pushReceipt
                      block tx outcome.success outcome.gasUsed outcome.contractAddress
                      (outcome.logs.map (fun (log : Log) =>
                        { address := log.address, topics := log.topics, data := log.data })))
            -- a rejected or halted transaction is counted all the same, and pays for nothing
            | (.error _, evm) =>
                let state := (state.incrementNonce host.account db sender).2
                (.ok (), { execution with evm, state }.pushReceipt block tx false 0 none [])

/-- Write the EVM accounts back; a failure is only logged. -/
def flush (order : IterationOrder Address DbAccount) (execution : Execution) : Execution :=
  { execution with
    state :=
      (execution.evm.flushToState host.account db order execution.state).2 }

/-- Nonce check, nonce increment, gas deduction and receipt of one game action. -/
def processGameTx (tx : SignedTransaction) (execution : Execution)
    : Except NodeError Unit × Execution :=
  if tx.isGameAction then
    match tx.sender host.crypto with
    | .error e => (.error (.internal s!"Sender recovery: {e}"), execution)
    | .ok sender =>
        match execution.state.getNonce host.account db sender with
        | (.error e, state) => (.error (.internal s!"Nonce read: {e}"), { execution with state })
        | (.ok expectedNonce, state) =>
            -- only the bookkeeping asks for the nonce; the tick gets the payload in any case
            let nonceOk := tx.transaction.nonce == expectedNonce
            let state :=
              if nonceOk then
                let state := (state.incrementNonce host.account db sender).2
                (state.subBalance host.account db sender
                  (BitVec.ofNat 256 gameActionGas.toNat)).2
              else state
            (.ok (),
              { execution with
                state
                cumulativeGas := execution.cumulativeGas + gameActionGas }.pushReceipt
                  block tx nonceOk gameActionGas none [])
  else (.ok (), execution)

/-- A clean EVM with the accounts the transactions name, before the first of them runs. -/
def start (evmTxs : List SignedTransaction) (gasUsed : UInt64) (evm : EvmExecutor)
    (state : WorldState) : Execution :=
  evmTxs.foldl (fun execution tx => execution.loadTx host db tx)
    { evm := evm.reset, state, cumulativeGas := gasUsed, receipts := [] }

/-- The EVM pass over a block. -/
def runEvm (evmTxs : List SignedTransaction) (execution : Execution)
    : Except NodeError Unit × Execution :=
  Loop.run (executeEvmTx host db block) evmTxs execution

/-- The game pass over a block. -/
def runGame (execution : Execution) : Except NodeError Unit × Execution :=
  Loop.run (processGameTx host db block) block.body.transactions execution

end Execution

namespace Chain

variable {F : Type} [F32 F] (host : Host F)

-----------------------------------------------------------------------------------------
-- Operations of the chain
-----------------------------------------------------------------------------------------

/-- Create a new chain instance. -/
def new (db : Database) (state : WorldState) (gameWorld : GameWorld F)
    (txpool : TransactionPool) (consensus : PoaConsensus) (chainId : UInt64) : Chain F :=
  { db
    state
    gameWorld
    txpool
    consensus
    evm := .new chainId
    head := none
    chainId }

/-- Initialize the chain with the genesis block. -/
def initGenesis (genesisHeader : BlockHeader) (chain : Chain F) : Chain F :=
  let genesisBlock := Block.new genesisHeader []
  { chain with
    db := (chain.db.putBlock host.crypto host.blocks genesisBlock).putLatestBlockNumber 0
    head := some genesisHeader }

/-- Restore the chain head from the database (call on node startup). The head stays as it is
when the latest number, its hash or the header is missing.
-/
def restoreHead (chain : Chain F) : Except NodeError Unit × Chain F :=
  match chain.db.getLatestBlockNumber with
  | .error e => (.error (.storage e), chain)
  | .ok none => (.ok (), chain)
  | .ok (some number) =>
      match chain.db.getBlockHashByNumber number with
      | .error e => (.error (.storage e), chain)
      | .ok none => (.ok (), chain)
      | .ok (some hash) =>
          match chain.db.getHeader host.blocks hash with
          | .error e => (.error (.storage e), chain)
          | .ok none => (.ok (), chain)
          | .ok (some header) => (.ok (), { chain with head := some header })

/-- Get the current block number. -/
def blockNumber (chain : Chain F) : UInt64 := (chain.head.map BlockHeader.number).getD 0

/-- Store transaction receipts with the hash of their block. -/
def storeReceipts (blockHash : B256) (receipts : List TransactionReceipt) (db : Database)
    : Database :=
  receipts.foldl (fun db receipt =>
    db.putReceipt receipt.txHash (host.receiptJson { receipt with blockHash })) db

/-- The last part of a block application, which cannot fail: persist the game world, commit
the accounts, store block and receipts, clean the pool and set the head.
-/
def finalize (order : BlockOrder F) (block : Block) (execution : Execution)
    (gameWorld : GameWorld F) (chain : Chain F) : Chain F :=
  let db := chain.db.putGameState "world".toUTF8.toList
    (gameWorld.serializeState host.ecs order.persist)
  let (_, state, db) :=
    execution.state.commit host.account db host.crypto.keccak256 order.dirtyAccounts
  let db := db.putBlock host.crypto host.blocks block
  let db := db.putLatestBlockNumber block.number
  let db := storeReceipts host (block.hash host.crypto) execution.receipts db
  { chain with
    db
    state
    gameWorld
    txpool :=
      chain.txpool.removeIncluded host.crypto
        (block.body.transactions.map SignedTransaction.hash)
    evm := execution.evm
    head := some block.header }

/-- Process and apply a new block. -/
def applyBlock (order : BlockOrder F) (block : Block) (chain : Chain F)
    : Except NodeError Unit × Chain F :=
  match chain.head with
  | none => (.error .notInitialized, chain)
  | some parent =>
      match chain.consensus.verifyBlock host.crypto block parent with
      | .error e => (.error (.consensus e), chain)
      | .ok () =>
          match Partition.ofBlock host.crypto block with
          | (.error e, _) => (.error e, chain)
          | (.ok (), parts) =>
              -- from here on an error leaves behind what the passes have changed so far
              match Execution.runEvm host chain.db block parts.evmTxs
                  (Execution.start host chain.db parts.evmTxs parts.totalGasUsed chain.evm
                    chain.state) with
              | (.error e, x) => (.error e, { chain with evm := x.evm, state := x.state })
              | (.ok (), executed) =>
                  match (executed.flush host chain.db order.evmAccounts).runGame host chain.db
                      block with
                  | (.error e, x) => (.error e, { chain with evm := x.evm, state := x.state })
                  | (.ok (), x) =>
                      match chain.gameWorld.tick host.crypto host.ecs order.tick
                          parts.gameActions with
                      | (.error e, gameWorld) =>
                          (.error (.gameEngine e),
                            { chain with evm := x.evm, state := x.state, gameWorld })
                      | (.ok _, gameWorld) =>
                          (.ok (), chain.finalize host order block x gameWorld)

/-- Forcefully set the chain head to a specific block header. -/
def setHead (header : BlockHeader) (chain : Chain F) : Chain F :=
  { chain with db := chain.db.putLatestBlockNumber header.number, head := some header }

/-- Get a block by hash. -/
def getBlockByHash (hash : B256) (chain : Chain F) : Except NodeError (Option Block) :=
  match chain.db.getHeader host.blocks hash with
  | .error e => .error (.storage e)
  | .ok none => .ok none
  | .ok (some header) =>
      match chain.db.getBody host.blocks hash with
      | .error e => .error (.storage e)
      | .ok none => .ok none
      | .ok (some body) => .ok (some { header, body })

/-- Get a block by number. -/
def getBlockByNumber (number : UInt64) (chain : Chain F) : Except NodeError (Option Block) :=
  match chain.db.getBlockHashByNumber number with
  | .error e => .error (.storage e)
  | .ok none => .ok none
  | .ok (some hash) => chain.getBlockByHash host hash

-----------------------------------------------------------------------------------------
-- Inversion of block application
-----------------------------------------------------------------------------------------

/-- What a successful block application computed: the parent, the partition, and the states
after the EVM pass, the game pass and the tick.
-/
structure Accepted (order : BlockOrder F) (block : Block) (chain : Chain F) where
  parent : BlockHeader
  parts : Partition
  executed : Execution
  processed : Execution
  root : B256
  world : GameWorld F
  head : chain.head = some parent
  verified : chain.consensus.verifyBlock host.crypto block parent = .ok ()
  partitioned : Partition.ofBlock host.crypto block = (.ok (), parts)
  executes
    : Execution.runEvm host chain.db block parts.evmTxs
        (Execution.start host chain.db parts.evmTxs parts.totalGasUsed chain.evm chain.state)
      = (.ok (), executed)
  processes
    : (executed.flush host chain.db order.evmAccounts).runGame host chain.db block
      = (.ok (), processed)
  ticks
    : chain.gameWorld.tick host.crypto host.ecs order.tick parts.gameActions
      = (.ok root, world)

/-- The chain after a successful application. -/
def Accepted.result {host : Host F} {order : BlockOrder F} {block : Block} {chain : Chain F}
    (accepted : Accepted host order block chain) : Chain F :=
  chain.finalize host order block accepted.processed accepted.world

variable {host}

/-- A block is applied exactly when every pass over it succeeds. -/
theorem applyBlock_ok_iff {order : BlockOrder F} {block : Block} {chain next : Chain F}
    : chain.applyBlock host order block = (.ok (), next)
      ↔ ∃ accepted : Accepted host order block chain, next = accepted.result := by
  constructor
  · intro h
    unfold applyBlock at h
    cases head : chain.head with
    | none => simp [head] at h
    | some parent =>
        simp only [head] at h
        cases verified : chain.consensus.verifyBlock host.crypto block parent with
        | error e => simp [verified] at h
        | ok =>
            simp only [verified] at h
            rcases partitioned : Partition.ofBlock host.crypto block with ⟨_ | _, parts⟩
            · simp [partitioned] at h
            · simp only [partitioned] at h
              rcases executes : Execution.runEvm host chain.db block parts.evmTxs
                  (Execution.start host chain.db parts.evmTxs parts.totalGasUsed chain.evm
                    chain.state) with ⟨_ | _, executed⟩
              · simp [executes] at h
              · simp only [executes] at h
                rcases processes
                    : (executed.flush host chain.db order.evmAccounts).runGame host chain.db
                        block with ⟨_ | _, processed⟩
                · simp [processes] at h
                · simp only [processes] at h
                  rcases ticks
                      : chain.gameWorld.tick host.crypto host.ecs order.tick
                          parts.gameActions with ⟨_ | root, world⟩
                  · simp [ticks] at h
                  · simp only [ticks, Prod.mk.injEq, true_and] at h
                    exact ⟨⟨parent, parts, executed, processed, root, world, head, verified,
                      partitioned, executes, processes, ticks⟩, h.symm⟩
  · rintro ⟨accepted, result⟩
    rw [result]
    simp only [applyBlock, accepted.head, accepted.verified, accepted.partitioned,
      accepted.executes, accepted.processes, accepted.ticks, Accepted.result]

/-- A failed application leaves database, pool, consensus and head as they are. -/
theorem applyBlock_error {order : BlockOrder F} {block : Block} {chain stop : Chain F}
    {e : NodeError} (h : chain.applyBlock host order block = (.error e, stop))
    : ∃ evm state gameWorld, stop = { chain with evm, state, gameWorld } := by
  unfold applyBlock at h
  repeat'
    split at h
  all_goals
    simp only [Prod.mk.injEq, reduceCtorEq, false_and] at h
  all_goals
    obtain ⟨_, rfl⟩ := h
    exact ⟨_, _, _, rfl⟩

omit [F32 F] in
/-- Restoring the head changes only the head. -/
theorem restoreHead_frame (chain : Chain F)
    : ∃ head, (chain.restoreHead host).2 = { chain with head } := by
  unfold restoreHead
  split
  next => exact ⟨chain.head, rfl⟩
  next => exact ⟨chain.head, rfl⟩
  next =>
    split
    next => exact ⟨chain.head, rfl⟩
    next => exact ⟨chain.head, rfl⟩
    next =>
      split
      next => exact ⟨chain.head, rfl⟩
      next => exact ⟨chain.head, rfl⟩
      next header _ => exact ⟨some header, rfl⟩

end Chain

end VeloChain
