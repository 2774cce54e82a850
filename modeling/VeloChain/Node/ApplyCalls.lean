import VeloChain.Lib.Interleaving
import VeloChain.Node.Lockstep

/-! Block applications that run at the same time.
An application takes its locks piecewise: between two of its steps other applications may run.
The head that it verified against can be outdated when it writes.
-/

namespace VeloChain

variable {F : Type} [F32 F]

/-- Where an application stands: before its next step, or returned. -/
inductive ApplyStage
  | readHead
  | verify (parent : BlockHeader)
  | evmPhase (parent : BlockHeader) (parts : Partition)
  | gameTick (parts : Partition) (receipts : List TransactionReceipt)
  | commit (receipts : List TransactionReceipt)
  | setHead
  | returned (result : Except NodeError Unit)

/-- The call that applies a block, with the order in which it walks over hash maps. -/
structure ApplyCall (F : Type) where
  block : Block
  order : BlockOrder F
  stage : ApplyStage

/-- The block of a call as an entry of a run. -/
def ApplyCall.entry (call : ApplyCall F) : Block × BlockOrder F := (call.block, call.order)

/-- The call is between its first write and its last one. -/
def ApplyStage.Writing : ApplyStage → Prop
  | .gameTick _ _ | .commit _ | .setHead => True
  | _ => False

instance : DecidablePred ApplyStage.Writing
  | .gameTick _ _ | .commit _ | .setHead => inferInstanceAs (Decidable True)
  | .readHead | .verify _ | .evmPhase _ _ | .returned _ => inferInstanceAs (Decidable False)

/-- The call has returned without an error. -/
def ApplyStage.Succeeded (stage : ApplyStage) : Prop := stage = .returned (.ok ())

instance : DecidablePred ApplyStage.Succeeded
  | .returned (.ok ()) => .isTrue rfl
  | .returned (.error _) => .isFalse (by simp [ApplyStage.Succeeded])
  | .readHead | .verify _ | .evmPhase _ _ | .gameTick _ _ | .commit _ | .setHead =>
      .isFalse (by simp [ApplyStage.Succeeded])

theorem ApplyStage.Writing.not_succeeded {stage : ApplyStage} (writing : stage.Writing)
    : ¬ stage.Succeeded := by
  rintro rfl
  exact writing

namespace Chain

variable (host : Host F)

/-- The transactions of a block on accounts and EVM: the EVM pass, the flush, and then nonces
and gas of the game actions.
-/
def executeTxs (order : BlockOrder F) (block : Block) (parts : Partition) (chain : Chain F)
    : Except NodeError (List TransactionReceipt) × Chain F :=
  match Execution.runEvm host chain.db block parts.evmTxs
      (Execution.start host chain.db parts.evmTxs parts.totalGasUsed chain.evm chain.state) with
  | (.error e, x) => (.error e, { chain with evm := x.evm, state := x.state })
  | (.ok (), executed) =>
      match (executed.flush host chain.db order.evmAccounts).runGame host chain.db block with
      | (.error e, x) => (.error e, { chain with evm := x.evm, state := x.state })
      | (.ok (), x) => (.ok x.receipts, { chain with evm := x.evm, state := x.state })

/-- Persist the game world, commit the accounts, store block and receipts and clean the pool. -/
def commitBlock (order : BlockOrder F) (block : Block) (receipts : List TransactionReceipt)
    (chain : Chain F) : Chain F :=
  let db := chain.db.putGameState "world".toUTF8.toList
    (chain.gameWorld.serializeState host.ecs order.persist)
  let (_, state, db) :=
    chain.state.commit host.account db host.crypto.keccak256 order.dirtyAccounts
  let db := db.putBlock host.crypto host.blocks block
  let db := db.putLatestBlockNumber block.number
  let db := storeReceipts host (block.hash host.crypto) receipts db
  { chain with
    db
    state
    txpool :=
      chain.txpool.removeIncluded host.crypto
        (block.body.transactions.map SignedTransaction.hash) }

end Chain

namespace ApplyCall

variable (host : Host F)

/-- The next step of a call, on the chain that all calls share. -/
def nextStage (block : Block) (order : BlockOrder F) (chain : Chain F)
    : ApplyStage → ApplyStage × Chain F
  | .readHead =>
      match chain.head with
      | none => (.returned (.error .notInitialized), chain)
      | some parent => (.verify parent, chain)
  | .verify parent =>
      match chain.consensus.verifyBlock host.crypto block parent with
      | .error e => (.returned (.error (.consensus e)), chain)
      | .ok () =>
          match Partition.ofBlock host.crypto block with
          | (.error e, _) => (.returned (.error e), chain)
          | (.ok (), parts) => (.evmPhase parent parts, chain)
  -- whether the parent is still the head is not looked at again
  | .evmPhase _ parts =>
      match chain.executeTxs host order block parts with
      | (.error e, chain) => (.returned (.error e), chain)
      | (.ok receipts, chain) => (.gameTick parts receipts, chain)
  | .gameTick parts receipts =>
      match chain.gameWorld.tick host.crypto host.ecs order.tick parts.gameActions with
      | (.error e, gameWorld) => (.returned (.error (.gameEngine e)), { chain with gameWorld })
      | (.ok _, gameWorld) => (.commit receipts, { chain with gameWorld })
  | .commit receipts => (.setHead, chain.commitBlock host order block receipts)
  | .setHead => (.returned (.ok ()), { chain with head := some block.header })
  | .returned result => (.returned result, chain)

/-- The next step of a call. -/
def act (call : ApplyCall F) (chain : Chain F) : ApplyCall F × Chain F :=
  let (stage, chain) := nextStage host call.block call.order chain call.stage
  ({ call with stage }, chain)

/-- A number of steps of one call with no other call in between. -/
def alone : Nat → ApplyCall F → Chain F → ApplyCall F × Chain F
  | 0, call, chain => (call, chain)
  | steps + 1, call, chain =>
      let (call, chain) := call.act host chain
      alone steps call chain

/-- A call that is left alone is the block application of the sequential chain. -/
theorem alone_eq (block : Block) (order : BlockOrder F) (chain : Chain F)
    : alone host 6 { block, order, stage := .readHead } chain
      = ({ block, order, stage := .returned (chain.applyBlock host order block).1 },
          (chain.applyBlock host order block).2) := by
  unfold Chain.applyBlock
  cases head : chain.head with
  | none => simp only [alone, act, nextStage, head]
  | some parent =>
      cases verified : chain.consensus.verifyBlock host.crypto block parent with
      | error e => simp only [alone, act, nextStage, head, verified]
      | ok =>
          rcases partitioned : Partition.ofBlock host.crypto block with ⟨_ | _, parts⟩
          · simp only [alone, act, nextStage, head, verified, partitioned]
          · rcases executes : Execution.runEvm host chain.db block parts.evmTxs
                (Execution.start host chain.db parts.evmTxs parts.totalGasUsed chain.evm
                  chain.state) with ⟨_ | _, executed⟩
            · simp only [alone, act, nextStage, head, verified, partitioned, Chain.executeTxs,
                executes]
            · rcases processes
                  : (executed.flush host chain.db order.evmAccounts).runGame host chain.db
                      block with ⟨_ | _, x⟩
              · simp only [alone, act, nextStage, head, verified, partitioned,
                  Chain.executeTxs, executes, processes]
              · rcases ticks
                    : chain.gameWorld.tick host.crypto host.ecs order.tick
                        parts.gameActions with ⟨_ | _, world⟩
                · simp only [alone, act, nextStage, head, verified, partitioned,
                    Chain.executeTxs, executes, processes, ticks]
                · simp only [alone, act, nextStage, head, verified, partitioned,
                    Chain.executeTxs, executes, processes, ticks]
                  rfl

end ApplyCall

end VeloChain
