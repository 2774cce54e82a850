import VeloChain.Node.Acceptance

/-! An accepted block, seen from the ledger.
Where the accounts can be read, the accounts after a block are those of the ledger after its
three parts: the EVM pass, the flush and the game pass. No order of a walk matters.
-/

namespace VeloChain

open AccountView

namespace Ledger

variable {F : Type} (host : Host F) (chainId : UInt64)

/-- The ledger after the EVM pass of a block. -/
def runEvm (block : Block) (view : AccountView StateError) : Ledger :=
  (Loop.run (evmTx host chainId) block.evmTxs (start host block.evmTxs view)).2

/-- The ledger after a block: EVM pass, flush, game pass. -/
def runBlock (block : Block) (view : AccountView StateError) : Ledger :=
  (Loop.run (countTx host) block.gameTxs (runEvm host chainId block view).flush).2

end Ledger

namespace Chain

variable {F : Type} [F32 F] {host : Host F} {order : BlockOrder F} {block : Block}
  {chain : Chain F}

/-- The ledgers an accepted block goes through: after the EVM pass, and after both passes. -/
structure Accepted.Ledgers (accepted : Accepted host order block chain) : Prop where
  executed
    : accepted.executed.ledger host chain.db
      = Ledger.runEvm host chain.evm.chainId block (chain.accounts host)
  evmSucceeds
    : (Loop.run (Ledger.evmTx host chain.evm.chainId) block.evmTxs
        (.start host block.evmTxs (chain.accounts host))).1
      = .ok ()
  processed
    : accepted.processed.ledger host chain.db
      = Ledger.runBlock host chain.evm.chainId block (chain.accounts host)
  gameSucceeds
    : (Loop.run (Ledger.countTx host) block.gameTxs
        (Ledger.runEvm host chain.evm.chainId block (chain.accounts host)).flush).1
      = .ok ()

omit [F32 F] in
theorem sameReadable_runEvm (chainId : UInt64) (view : AccountView StateError)
    : SameReadable view (Ledger.runEvm host chainId block view).view := by
  have kept := ((Ledger.transact_countsNonce host chainId).run host block.evmTxs
    (.start host block.evmTxs view)).2
  rw [Ledger.start_view] at kept
  exact kept

/-- With readable accounts, an accepted block goes through the ledgers of its passes. -/
theorem Accepted.ledgers (accepted : Accepted host order block chain)
    (readable : (chain.accounts host).Readable)
    : accepted.Ledgers := by
  obtain ⟨evmTxs, _⟩ := Partition.ofBlock_parts accepted.partitioned
  obtain ⟨evmResult, evmLedger⟩ := @Execution.runEvm_start F host chain.db block
    accepted.parts.totalGasUsed chain.evm chain.state
  have executes := accepted.executes
  rw [evmTxs] at executes
  rw [executes] at evmResult evmLedger
  have flushed := Execution.flush_refines host chain.db order.evmAccounts accepted.executed (by
    intro address _
    have same := @sameReadable_runEvm F host block chain.evm.chainId (chain.accounts host)
    have seen := congrArg Ledger.view evmLedger
    change accepted.executed.state.view host.account chain.db = _ at seen
    rw [seen]
    exact (same address).mpr (readable address))
  obtain ⟨gameResult, gameLedger⟩ := Execution.runGame_refines host chain.db block
    (accepted.executed.flush host chain.db order.evmAccounts)
  rw [accepted.processes, Ledger.run_gameTx, flushed, evmLedger] at gameResult gameLedger
  exact ⟨evmLedger, evmResult.symm, gameLedger, gameResult.symm⟩

/-- With readable accounts, the accounts after an accepted block are those of the ledger. -/
theorem Accepted.accounts_result (accepted : Accepted host order block chain)
    (sound : host.account.RoundTrips) (readable : (chain.accounts host).Readable)
    : accepted.result.accounts host
      = (Ledger.runBlock host chain.evm.chainId block (chain.accounts host)).view := by
  rw [Accepted.result, accounts_finalize order block _ _ _ sound]
  exact congrArg Ledger.view (accepted.ledgers readable).processed

end Chain

end VeloChain
