import VeloChain.Node.Chain

/-! Block production: prepare a header, select pending transactions up to the gas limit,
seal the block and apply it to the own chain.
-/

namespace VeloChain

namespace Chain

variable {F : Type} [F32 F] (host : Host F)

/-- The gas a transaction counts for in the selection. -/
def selectionGas (tx : SignedTransaction) : UInt64 :=
  if tx.isGameAction then gameActionGas else tx.transaction.gasLimit

/-- The leading transactions that fit the gas limit, and the gas they count for. -/
def selectTxs (gasLimit : UInt64) : UInt64 → List SignedTransaction
    → List SignedTransaction × UInt64
  | gasUsed, [] => ([], gasUsed)
  | gasUsed, tx :: rest =>
      if gasUsed + selectionGas tx > gasLimit then ([], gasUsed)
      else
        let (selected, total) := selectTxs gasLimit (gasUsed + selectionGas tx) rest
        (tx :: selected, total)

/-- The transactions a producer takes from its pool for one block. -/
def selectedTxs (senders : IterationOrder Address SenderQueue) (pool : TransactionPool)
    : List SignedTransaction × UInt64 :=
  selectTxs defaultBlockGasLimit 0 (pool.getPending senders 1000)

/-- The unsealed block over a prepared header: transactions, their root and their gas. -/
def assembleBlock (header : BlockHeader) (selected : List SignedTransaction) (gasUsed : UInt64)
    : Block :=
  let block := Block.new header selected
  { block with
    header :=
      { header with transactionsRoot := block.computeTransactionsRoot host.crypto, gasUsed } }

/-- Produce a single block. -/
def produceBlock (now : UInt64) (senders : IterationOrder Address SenderQueue)
    (order : BlockOrder F) (chain : Chain F) : Except NodeError Block × Chain F :=
  match chain.head with
  | none => (.error .notInitialized, chain)
  | some parent =>
      match chain.consensus.prepareHeader host.crypto now parent with
      | (.error e, consensus) => (.error (.consensus e), { chain with consensus })
      | (.ok header, consensus) =>
          let chain := { chain with consensus }
          let (selected, gasUsed) :=
            selectTxs header.gasLimit 0 (chain.txpool.getPending senders 1000)
          let block := assembleBlock host header selected gasUsed
          match chain.consensus.sealBlock host.crypto block with
          | .error e => (.error (.consensus e), chain)
          | .ok sealed =>
              match chain.applyBlock host order sealed with
              | (.error e, chain) => (.error e, chain)
              | (.ok (), chain) => (.ok sealed, chain)

/-- The selection breaks off at the first transaction that does not fit. -/
theorem prefix_selectTxs (gasLimit gasUsed : UInt64) (txs : List SignedTransaction)
    : (selectTxs gasLimit gasUsed txs).1 <+: txs := by
  induction txs generalizing gasUsed with
  | nil => exact List.prefix_rfl
  | cons head rest ih =>
      unfold selectTxs
      split
      next => exact List.nil_prefix
      next => exact List.cons_prefix_cons.mpr ⟨rfl, ih _⟩

theorem selectTxs_subset {gasLimit gasUsed : UInt64} {txs : List SignedTransaction}
    {tx : SignedTransaction} (member : tx ∈ (selectTxs gasLimit gasUsed txs).1)
    : tx ∈ txs :=
  (prefix_selectTxs gasLimit gasUsed txs).subset member

end Chain

end VeloChain
