import VeloChain.Node.Passes

/-! The receipts of a block.
Every transaction is handled by one of the two passes and gets one receipt there, under the
hash it carries.
-/

namespace VeloChain

namespace Execution

variable {F : Type} {host : Host F} {db : Database} {block : Block} {tx : SignedTransaction}
  {before after : Execution}

/-- A receipt for a transaction of the block is appended. -/
def Pushes (block : Block) (tx : SignedTransaction) (before after : Execution) : Prop :=
  ∃ receipt,
    after.receipts = before.receipts ++ [receipt]
    ∧ receipt.txHash = tx.hash
    ∧ receipt.blockNumber = block.number

/-- A turn of the EVM pass that goes through has read the nonce of the sender. Its receipt is
that of the outcome where the nonce counts and there is an outcome, else one of failure.
-/
theorem executeEvmTx_cases (call : executeEvmTx host db block tx before = (.ok (), after))
    : ∃ sender nonce receipt,
        tx.sender host.crypto = .ok sender
        ∧ (before.ledger host db).view.nonce sender = .ok nonce
        ∧ after.receipts = before.receipts ++ [receipt]
        ∧ receipt.txHash = tx.hash
        ∧ receipt.blockNumber = block.number
        ∧ (tx.transaction.nonce ≠ nonce ∧ receipt.success = false
          ∨ tx.transaction.nonce = nonce
            ∧ (∃ e, (before.evm.executeTx host.crypto host.revm tx).1 = .error e)
            ∧ receipt.success = false
          ∨ tx.transaction.nonce = nonce
            ∧ ∃ outcome,
                (before.evm.executeTx host.crypto host.revm tx).1 = .ok outcome
                ∧ receipt.success = outcome.success
                ∧ receipt.gasUsed = outcome.gasUsed) := by
  unfold executeEvmTx at call
  cases recovered : tx.sender host.crypto with
  | error e => simp [recovered] at call
  | ok sender =>
      rcases read : before.state.getNonce host.account db sender with ⟨_ | nonce, state⟩
      · simp [recovered, read] at call
      · have value := (getNonce_ledger host db read).1
        simp only [recovered, read] at call
        split at call
        next stale =>
          obtain ⟨_, rfl⟩ := Prod.mk.inj call
          exact ⟨sender, nonce, _, rfl, value, rfl, rfl, rfl, Or.inl ⟨stale, rfl⟩⟩
        next counted =>
          have counted := not_not.mp counted
          rcases runs : before.evm.executeTx host.crypto host.revm tx with ⟨e | outcome, evm⟩
          · simp only [runs] at call
            obtain ⟨_, rfl⟩ := Prod.mk.inj call
            exact ⟨sender, nonce, _, rfl, value, rfl, rfl, rfl,
              Or.inr (Or.inl ⟨counted, ⟨e, rfl⟩, rfl⟩)⟩
          · simp only [runs] at call
            obtain ⟨_, rfl⟩ := Prod.mk.inj call
            exact ⟨sender, nonce, _, rfl, value, rfl, rfl, rfl,
              Or.inr (Or.inr ⟨counted, outcome, rfl, rfl, rfl⟩)⟩

/-- A turn of the game pass that goes through has read the nonce of the sender, too. The receipt
is one of success where it counts.
-/
theorem processGameTx_cases (isGame : tx.isGameAction = true)
    (call : processGameTx host db block tx before = (.ok (), after))
    : ∃ sender nonce receipt,
        tx.sender host.crypto = .ok sender
        ∧ (before.ledger host db).view.nonce sender = .ok nonce
        ∧ after.receipts = before.receipts ++ [receipt]
        ∧ receipt.txHash = tx.hash
        ∧ receipt.blockNumber = block.number
        ∧ (receipt.success = true ↔ tx.transaction.nonce = nonce) := by
  unfold processGameTx at call
  rw [if_pos isGame] at call
  cases recovered : tx.sender host.crypto with
  | error e => simp [recovered] at call
  | ok sender =>
      rcases read : before.state.getNonce host.account db sender with ⟨_ | nonce, state⟩
      · simp [recovered, read] at call
      · have value := (getNonce_ledger host db read).1
        simp only [recovered, read] at call
        obtain ⟨_, rfl⟩ := Prod.mk.inj call
        exact ⟨sender, nonce, _, rfl, value, rfl, rfl, rfl, beq_iff_eq⟩

/-- A turn of the EVM pass gives its transaction a receipt. -/
theorem executeEvmTx_pushes (call : executeEvmTx host db block tx before = (.ok (), after))
    : Pushes block tx before after := by
  obtain ⟨_, _, receipt, _, _, appended, key, number, _⟩ := executeEvmTx_cases call
  exact ⟨receipt, appended, key, number⟩

/-- A turn of the game pass gives a game action a receipt. -/
theorem processGameTx_pushes (call : processGameTx host db block tx before = (.ok (), after))
    : if tx.isGameAction then Pushes block tx before after
      else after.receipts = before.receipts := by
  split
  next isGame =>
    obtain ⟨_, _, receipt, _, _, appended, key, number, _⟩ := processGameTx_cases isGame call
    exact ⟨receipt, appended, key, number⟩
  next notGame =>
    rw [processGameTx, if_neg notGame] at call
    rw [(Prod.mk.inj call).2]

/-- Loading accounts writes no receipt. -/
theorem start_receipts (evmTxs : List SignedTransaction) (gasUsed : UInt64) (evm : EvmExecutor)
    (state : WorldState)
    : (start host db evmTxs gasUsed evm state).receipts = [] := by
  unfold start
  suffices loads
      : ∀ (x : Execution),
          (evmTxs.foldl (fun execution tx => execution.loadTx host db tx) x).receipts
            = x.receipts from loads _
  induction evmTxs with
  | nil => exact fun _ => rfl
  | cons tx rest ih =>
      intro x
      rw [List.foldl_cons, ih]
      unfold loadTx
      cases tx.sender host.crypto <;> cases tx.transaction.to <;> rfl

end Execution

namespace Chain

variable {F : Type} [F32 F] {host : Host F} {order : BlockOrder F} {block : Block}
  {chain : Chain F}

/-- The receipts of an applied block are those of its EVM transactions and those of its game
actions, each with the hash of its transaction and the number of the block.
-/
theorem Accepted.receipts_entries (accepted : Accepted host order block chain)
    : accepted.processed.receipts.map (fun receipt => (receipt.txHash, receipt.blockNumber))
      = (block.evmTxs ++ block.gameTxs).map (fun tx => (tx.hash, block.number)) := by
  let entries := fun (x : Execution) =>
    x.receipts.map (fun receipt => (receipt.txHash, receipt.blockNumber))
  have appends {before after : Execution} {tx : SignedTransaction}
      (pushed : Execution.Pushes block tx before after)
      : entries after = entries before ++ [(tx.hash, block.number)] := by
    obtain ⟨receipt, appended, key, number⟩ := pushed
    simp only [entries, appended, List.map_append, List.map_singleton, key, number]
  have first := Loop.run_log entries (fun (tx : SignedTransaction) => [(tx.hash, block.number)])
    accepted.evmEnd_eq.1
    (fun _ _ _ _ call => appends (Execution.executeEvmTx_pushes call))
  have second := Loop.run_log entries
    (fun (tx : SignedTransaction) => if tx.isGameAction then [(tx.hash, block.number)] else [])
    accepted.processes (by
      intro tx _ before after call
      have pushed := Execution.processGameTx_pushes call
      split at pushed
      next isGame =>
        rw [if_pos isGame]
        exact appends pushed
      next notGame =>
        simp only [entries, notGame, pushed]
        exact (List.append_nil _).symm)
  have none : (chain.evmStart host block).receipts = [] := Execution.start_receipts _ _ _ _
  have flushed
      : entries (accepted.executed.flush host chain.db order.evmAccounts)
        = entries accepted.executed := rfl
  simp only [flushed, first] at second
  simp only [entries, none, List.map_nil, List.nil_append] at second
  rw [second, List.map_append, Block.gameTxs]
  congr 1
  · exact List.map_eq_flatMap.symm
  · induction block.body.transactions with
    | nil => rfl
    | cons tx rest ih =>
        rw [List.flatMap_cons, ih, List.filter_cons]
        split <;> rfl

/-- The receipts of an applied block are those of its EVM transactions and those of its game
actions, each under the hash of its transaction.
-/
theorem Accepted.receipts_txHash (accepted : Accepted host order block chain)
    : accepted.processed.receipts.map TransactionReceipt.txHash
      = (block.evmTxs ++ block.gameTxs).map SignedTransaction.hash := by
  have keys := congrArg (List.map Prod.fst) accepted.receipts_entries
  rwa [List.map_map, List.map_map] at keys

/-- The receipts of an applied block carry its number. -/
theorem Accepted.receipts_blockNumber (accepted : Accepted host order block chain)
    {receipt : TransactionReceipt} (member : receipt ∈ accepted.processed.receipts)
    : receipt.blockNumber = block.number := by
  have entry
      : (receipt.txHash, receipt.blockNumber)
        ∈ (block.evmTxs ++ block.gameTxs).map (fun tx => (tx.hash, block.number)) := by
    rw [← accepted.receipts_entries]
    exact List.mem_map.mpr ⟨receipt, member, rfl⟩
  obtain ⟨tx, _, same⟩ := List.mem_map.mp entry
  exact (Prod.mk.inj same).2.symm

end Chain

end VeloChain
