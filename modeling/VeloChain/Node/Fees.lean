import VeloChain.Evm.GasLaws
import VeloChain.Node.NonceOrder
import VeloChain.Node.SingleEffect

/-! The fees of the transactions of a block.
What the interpreter takes from the sender of an EVM transaction stays after the flush, in the
place of what the world state takes. The fee of a game action is taken as far as the balance
allows, and the action goes through in any case.
-/

namespace VeloChain

open AccountView

namespace AccountView

variable {ε : Type} {view : AccountView ε} {address : Address}

/-- The balance of an address, zero where it cannot be read. -/
def balanceAt (view : AccountView ε) (address : Address) : U256 :=
  (((view.accountOrDefault address).map Account.balance).toOption).getD 0

theorem balanceAt_eq {account : Account} (read : view.accountOrDefault address = .ok account)
    : view.balanceAt address = account.balance := by
  simp only [balanceAt, read, Except.map, Except.toOption, Option.getD_some]

theorem balanceAt_congr {left right : AccountView ε}
    (same : left.accountOrDefault = right.accountOrDefault)
    : left.balanceAt = right.balanceAt := by
  funext address
  rw [balanceAt, same, balanceAt]

end AccountView

-----------------------------------------------------------------------------------------
-- Balances in one turn
-----------------------------------------------------------------------------------------

namespace Ledger

variable {F : Type} {host : Host F} {evmTxs : List SignedTransaction}
  {start : AccountView StateError} {final : CacheDb} {ledger : Ledger} {sender : Address}

/-- A counted action takes its gas from the sender, or leaves the balance if it is too low. -/
theorem balanceAt_countAction (readable : ledger.view.ReadableAt sender)
    : ((ledger.countAction sender).view.balanceAt sender).toNat
      = if (ledger.view.balanceAt sender).toNat < gameActionGas.toNat then
          (ledger.view.balanceAt sender).toNat
        else (ledger.view.balanceAt sender).toNat - gameActionGas.toNat := by
  obtain ⟨account, read⟩ := readableAt_iff.mp readable
  have counted
      : (ledger.countAction sender).view.accountOrDefault sender
        = .ok (((Account.pay (BitVec.ofNat 256 gameActionGas.toNat)
            { account with nonce := account.nonce + 1 })).getD
              { account with nonce := account.nonce + 1 }) := by
    unfold countAction
    simp only [accountOrDefault_modify_self, read, Except.map, Account.bumpNonce,
      Option.getD_some]
  have amount : (BitVec.ofNat 256 gameActionGas.toNat).toNat = gameActionGas.toNat := by
    decide
  rw [balanceAt_eq read, balanceAt_eq counted, Account.pay]
  simp only [BitVec.lt_def, amount]
  split
  next => rfl
  next covered =>
    rw [Option.getD_some]
    simp only
    rw [BitVec.toNat_sub_of_le, amount]
    rw [BitVec.le_def, amount]
    exact Nat.not_lt.mp covered

/-- The sender of an EVM transaction settles with its balance in the EVM database. -/
theorem balanceAt_settled_sender (underway : Underway host evmTxs start ledger)
    (readable : start.Readable) {tx : SignedTransaction} (member : tx ∈ evmTxs)
    (recovered : tx.sender host.crypto = .ok sender) (later : sender ∈ final.accounts)
    : (settled start final ledger).balanceAt sender = (ledger.db.infoOf sender).balance := by
  by_cases before : sender ∈ ledger.db.accounts
  · obtain ⟨account, read⟩ := readableAt_iff.mp (readable sender)
    have settles := settled_of_mem start final before
    rw [read] at settles
    exact balanceAt_eq settles
  · have unknown : start sender = .ok none := by
      obtain ⟨found, read⟩ := readable sender
      cases found with
      | none => exact read
      | some account =>
          exact absurd read
            (underway.loaded sender ⟨tx, member, Or.inl recovered⟩ before account)
    have settles
        : (settled start final ledger).accountOrDefault sender = .ok Account.default := by
      rw [accountOrDefault, settled_of_later start before later, unknown]
      rfl
    rw [balanceAt_eq settles, CacheDb.infoOf_of_notMem before]
    rfl

end Ledger

-----------------------------------------------------------------------------------------
-- Receipts of success
-----------------------------------------------------------------------------------------

namespace Execution

variable {F : Type} {host : Host F} {db : Database} {block : Block} {tx : SignedTransaction}
  {before after : Execution}

/-- The receipt of a turn of the EVM pass: of success for a transaction that is due and executes
successfully, with the gas of its outcome.
-/
theorem receipt_of_executeEvmTx
    (call : executeEvmTx host db block tx before = (.ok (), after))
    : ∃ receipt,
        after.receipts = before.receipts ++ [receipt]
        ∧ (receipt.success = true →
            ∃ sender outcome,
              Due host.crypto (before.ledger host db).view tx sender
              ∧ (before.evm.executeTx host.crypto host.revm tx).1 = .ok outcome
              ∧ receipt.gasUsed = outcome.gasUsed)
        ∧ ∀ sender outcome, Due host.crypto (before.ledger host db).view tx sender →
            (before.evm.executeTx host.crypto host.revm tx).1 = .ok outcome →
              receipt.success = outcome.success := by
  obtain ⟨sender, nonce, receipt, recovered, value, appended, _, _, outcomes⟩ :=
    executeEvmTx_cases call
  refine ⟨receipt, appended, ?_⟩
  rcases outcomes with ⟨stale, failed⟩ | ⟨counted, ⟨e, refused⟩, failed⟩
    | ⟨counted, outcome, executed, success, gas⟩
  · refine ⟨by simp [failed], fun other outcome due => ?_⟩
    obtain rfl := Except.ok.inj (recovered.symm.trans due.recovered)
    exact absurd (Except.ok.inj (due.nonce.symm.trans value)) stale
  · refine ⟨by simp [failed], fun other outcome _ executed => ?_⟩
    rw [refused] at executed
    exact nomatch executed
  · have due : Due host.crypto (before.ledger host db).view tx sender :=
      ⟨recovered, by rw [value, counted]⟩
    refine ⟨fun _ => ⟨sender, outcome, due, executed, gas⟩, fun _ outcome' _ same => ?_⟩
    rw [success, Except.ok.inj (executed.symm.trans same)]

/-- The receipt of a game action: of success exactly if the action is due. -/
theorem receipt_of_processGameTx (isGame : tx.isGameAction = true)
    (call : processGameTx host db block tx before = (.ok (), after))
    : ∃ receipt,
        after.receipts = before.receipts ++ [receipt]
        ∧ (receipt.success = true
          ↔ ∃ sender, Due host.crypto (before.ledger host db).view tx sender) := by
  obtain ⟨sender, nonce, receipt, recovered, value, appended, _, _, success⟩ :=
    processGameTx_cases isGame call
  refine ⟨receipt, appended, success.trans ⟨fun counted => ?_, ?_⟩⟩
  · exact ⟨sender, recovered, by rw [value, counted]⟩
  · rintro ⟨other, due⟩
    obtain rfl := Except.ok.inj (recovered.symm.trans due.recovered)
    exact Except.ok.inj (due.nonce.symm.trans value)

end Execution

namespace Chain

variable {F : Type} [F32 F]

-----------------------------------------------------------------------------------------
-- Paid fees
-----------------------------------------------------------------------------------------

section Definitions

variable (host : Host F) (moved : UInt64 → TxEnv → CacheDb → Int) (order : BlockOrder F)
  (block : Block) (chain : Chain F)

/-- What the gas of a receipt costs. A missing gas price counts as one. -/
def receiptCost (tx : Transaction) (receipt : TransactionReceipt) : Int :=
  receipt.gasUsed.toNat * (tx.gasPrice.getD 1).toNat

/-- A receipt of success for an EVM transaction is paid for: in the accounts as they settle at
the end of the pass, the turn takes the cost of the gas from the sender, once.
-/
def EvmFeePaid (turn : Loop.Turn SignedTransaction Execution) : Prop :=
  ∀ receipt, turn.after.receipts = turn.before.receipts ++ [receipt] →
    receipt.success = true →
      ∃ sender,
        turn.item.sender host.crypto = .ok sender
        ∧ (((chain.settledAt host block turn.after).balanceAt sender).toNat : Int)
          = ((chain.settledAt host block turn.before).balanceAt sender).toNat
            + moved chain.evm.chainId (EvmExecutor.txEnv sender turn.item.transaction)
                turn.before.evm.db
            - receiptCost turn.item.transaction receipt

/-- The sender of the transaction of the turn has less than the gas of a game action. -/
def CannotPay (turn : Loop.Turn SignedTransaction Execution) (sender : Address) : Prop :=
  turn.item.sender host.crypto = .ok sender
  ∧ ((turn.before.ledger host chain.db).view.balanceAt sender).toNat < gameActionGas.toNat

/-- A receipt of success for a game action is paid for, and an action that cannot be paid for
gets a receipt of failure and leaves the entities.
-/
structure GameFeePaid
    (turns
      : Loop.Turn SignedTransaction Execution
        × Loop.Turn SignedTransaction (Nat × EcsWorld F))
    : Prop where
  paid
    : ∀ receipt, turns.1.after.receipts = turns.1.before.receipts ++ [receipt] →
        receipt.success = true →
          ∃ sender,
            turns.1.item.sender host.crypto = .ok sender
            ∧ ((turns.1.before.ledger host chain.db).view.balanceAt sender).toNat
              = ((turns.1.after.ledger host chain.db).view.balanceAt sender).toNat
                + gameActionGas.toNat
  unaffordable
    : ∀ sender, chain.CannotPay host turns.1 sender →
        (∀ receipt, turns.1.after.receipts = turns.1.before.receipts ++ [receipt] →
          receipt.success = false)
        ∧ turns.2.after.2 = turns.2.before.2

/-- What a turn of the EVM pass adds to the balance of an address, as it settles. -/
def evmChange (address : Address) (turn : Loop.Turn SignedTransaction Execution) : Int :=
  ((chain.settledAt host block turn.after).balanceAt address).toNat
    - ((chain.settledAt host block turn.before).balanceAt address).toNat

/-- What a turn of the game pass adds to the balance of an address. -/
def gameChange (address : Address) (turn : Loop.Turn SignedTransaction Execution) : Int :=
  ((turn.after.ledger host chain.db).view.balanceAt address).toNat
    - ((turn.before.ledger host chain.db).view.balanceAt address).toNat

/-- All fees of a block are paid. The balances after the block are those before it and what the
turns add, so that what one of them takes is taken once.
-/
structure FeesPaid (next : Chain F) : Prop where
  total
    : ∀ address,
        (((next.accounts host).balanceAt address).toNat : Int)
          = ((chain.accounts host).balanceAt address).toNat
            + ((chain.evmTurns host block).map (chain.evmChange host block address)).sum
            + ((chain.gameTurns host order block).map (chain.gameChange host address)).sum
  evm : ∀ turn ∈ chain.evmTurns host block, chain.EvmFeePaid host moved block turn
  game
    : ∀ turns ∈ chain.gameTurnPairs host order block, turns.1.item.isGameAction = true →
        chain.GameFeePaid host turns

/-- No EVM transaction without a gas price executes successfully, and a game action that cannot
be paid for is stale, with a payload that finds nothing to change.
-/
structure FeesCovered : Prop where
  priced
    : ∀ turn ∈ chain.evmTurns host block, chain.PassesNonceCheck host turn →
        Executes host turn → turn.item.transaction.gasPrice ≠ none
  affordable
    : ∀ turns ∈ chain.gameTurnPairs host order block, turns.1.item.isGameAction = true →
        ∀ sender, chain.CannotPay host turns.1 sender →
          Stale host.crypto (turns.1.before.ledger host chain.db).view turns.1.item
          ∧ ∀ payload, Partition.payload host.crypto turns.1.item = some payload →
              GameWorld.Inert (order.tick.action turns.2.before.1) (debugAddress payload.sender)
                turns.2.before.2 payload.action

end Definitions

variable {host : Host F} {moved : UInt64 → TxEnv → CacheDb → Int} {order : BlockOrder F}
  {block : Block} {chain : Chain F}

/-- The environment keeps the gas price; no price is a price of zero. -/
theorem toNat_gasPrice_txEnv (sender : Address) (tx : Transaction)
    : (EvmExecutor.txEnv sender tx).gasPrice.toNat = (tx.gasPrice.getD 0).toNat := by
  unfold EvmExecutor.txEnv
  simp only
  rw [BitVec.toNat_setWidth, Nat.mod_eq_of_lt]
  exact Nat.lt_of_lt_of_le (BitVec.isLt _) (by decide)

section Accepted

variable (accepted : Accepted host order block chain)

include accepted

/-- An applied block has senders that can be recovered. -/
theorem Accepted.senders_recovered
    : ∀ tx ∈ block.body.transactions, ∃ sender, tx.sender host.crypto = .ok sender := by
  intro tx member
  obtain ⟨_, readable, _⟩ :=
    applyBlock_accepts_iff.mp ⟨_, applyBlock_ok_iff.mpr ⟨accepted, rfl⟩⟩
  obtain ⟨sender, recovered, _⟩ := readable tx member
  exact ⟨sender, recovered⟩

/-- A transaction with an outcome settles its sender with what the execution has moved, less
the gas at the price of the environment.
-/
theorem Accepted.balanceAt_executed (laws : host.revm.NonceLaws)
    (charges : host.revm.ChargesGas moved) (readable : (chain.accounts host).Readable)
    {turn : Loop.Turn SignedTransaction Execution} (member : turn ∈ chain.evmTurns host block)
    {sender : Address} {outcome : ExecutionOutcome}
    (due : Due host.crypto (turn.before.ledger host chain.db).view turn.item sender)
    (executed : (turn.before.evm.executeTx host.crypto host.revm turn.item).1 = .ok outcome)
    : 0 < outcome.gasUsed.toNat
      ∧ (((chain.settledAt host block turn.after).balanceAt sender).toNat : Int)
        = ((chain.settledAt host block turn.before).balanceAt sender).toNat
          + moved chain.evm.chainId (EvmExecutor.txEnv sender turn.item.transaction)
              turn.before.evm.db
          - outcome.gasUsed.toNat * (turn.item.transaction.gasPrice.getD 0).toNat := by
  obtain ⟨_, sameId, ledgers⟩ := Chain.evmTurns_ledgers accepted.senders_recovered readable
  obtain ⟨listed, call⟩ := accepted.evmTurn member
  have inLedgers := List.mem_map_of_mem (f := Loop.Turn.map (Execution.ledger host chain.db)) member
  rw [ledgers] at inLedgers
  obtain ⟨underway, within⟩ := accepted.turn_within laws inLedgers
  have after
      : turn.after.ledger host chain.db
        = (turn.before.ledger host chain.db).transact host chain.evm.chainId sender
            turn.item.transaction :=
    congrArg Prod.snd (call.symm.trans (Ledger.guarded_of_due due))
  have isEvm := block.isGameAction_of_mem_evmTxs listed
  obtain ⟨result, run, reported⟩ :=
    Execution.exists_result_of_executeTx host isEvm due.recovered executed
  rw [sameId turn member] at run
  have gas := EvmExecutor.outcome_gasUsed reported
  have entered := (laws.accepted _ _ _ _ run).2.1
  have pays := charges.pays _ _ _ _ run
  have db
      : (turn.after.ledger host chain.db).db
        = (host.revm.transactCommit chain.evm.chainId
            (EvmExecutor.txEnv sender turn.item.transaction) turn.before.evm.db).2 := by
    rw [after]
    rfl
  change sender ∈ _ at entered
  rw [← db] at entered pays
  have later := within sender entered
  have beforeBalance :=
    @Ledger.balanceAt_settled_sender F host block.evmTxs (chain.accounts host)
      (chain.evmEnd host block).evm.db (turn.before.ledger host chain.db) sender underway
      readable turn.item listed due.recovered later
  have afterUnderway
      : Ledger.Underway host block.evmTxs (chain.accounts host)
          (turn.after.ledger host chain.db) := by
    have kept
        : Ledger.Underway host block.evmTxs (chain.accounts host)
            ((turn.before.ledger host chain.db).evmTx host chain.evm.chainId turn.item).2 :=
      underway.evmTx laws turn.item
    rwa [call] at kept
  have afterBalance :=
    @Ledger.balanceAt_settled_sender F host block.evmTxs (chain.accounts host)
      (chain.evmEnd host block).evm.db (turn.after.ledger host chain.db) sender afterUnderway
      readable turn.item listed due.recovered later
  rw [toNat_gasPrice_txEnv] at pays
  refine ⟨?_, ?_⟩
  · rw [gas]
    exact charges.uses _ _ _ _ run
  · unfold settledAt
    rw [afterBalance, beforeBalance, gas]
    exact pays

/-- The fee of an EVM transaction is paid exactly when it has a price or no success. -/
theorem Accepted.evmFeePaid_iff (laws : host.revm.NonceLaws)
    (charges : host.revm.ChargesGas moved) (readable : (chain.accounts host).Readable)
    {turn : Loop.Turn SignedTransaction Execution} (member : turn ∈ chain.evmTurns host block)
    : chain.EvmFeePaid host moved block turn
      ↔ (chain.PassesNonceCheck host turn → Executes host turn →
          turn.item.transaction.gasPrice ≠ none) := by
  have call
      : Execution.executeEvmTx host chain.db block turn.item turn.before
        = (.ok (), turn.after) := by
    have runs := accepted.evmEnd_eq.1
    rw [← accepted.evmTxs] at runs
    exact (Loop.turns_ok runs member).2
  obtain ⟨receipt, pushed, succeeded, reports⟩ := Execution.receipt_of_executeEvmTx call
  have only {other : TransactionReceipt}
      (appended : turn.after.receipts = turn.before.receipts ++ [other])
      : other = receipt := by
    rw [pushed, List.append_cancel_left_eq, List.cons.injEq] at appended
    exact appended.1.symm
  constructor
  · rintro paid ⟨sender, due⟩ ⟨outcome, executed, success⟩ unpriced
    have isSuccess := (reports sender outcome due executed).trans success
    obtain ⟨sender', recovered, balance⟩ := paid receipt pushed isSuccess
    obtain rfl := Except.ok.inj (due.recovered.symm.trans recovered)
    obtain ⟨_, outcome', _, executed', sameGas⟩ := succeeded isSuccess
    obtain rfl := Except.ok.inj (executed.symm.trans executed')
    obtain ⟨gas, charged⟩ := accepted.balanceAt_executed laws charges readable member due executed
    -- the interpreter takes nothing, the receipt counts the gas
    rw [charged, receiptCost, sameGas, unpriced] at balance
    simp only [Option.getD_none] at balance
    have one : ((1 : U128).toNat : Int) = 1 := by decide
    have zero : ((0 : U128).toNat : Int) = 0 := by decide
    rw [one, zero] at balance
    omega
  · intro priced other appended success
    rw [only appended] at success ⊢
    obtain ⟨sender, outcome, due, executed, sameGas⟩ := succeeded success
    have hasPrice :=
      priced ⟨sender, due⟩ ⟨outcome, executed, (reports sender outcome due executed) ▸ success⟩
    obtain ⟨_, charged⟩ := accepted.balanceAt_executed laws charges readable member due executed
    obtain ⟨price, isPrice⟩ := Option.ne_none_iff_exists'.mp hasPrice
    refine ⟨sender, due.recovered, ?_⟩
    rw [charged, receiptCost, sameGas, isPrice, Option.getD_some, Option.getD_some]

/-- The fee of a game action is paid exactly when the sender can pay, or the action is stale
and its payload inert.
-/
theorem Accepted.gameFeePaid_iff
    {turns
      : Loop.Turn SignedTransaction Execution
        × Loop.Turn SignedTransaction (Nat × EcsWorld F)}
    (member : turns ∈ chain.gameTurnPairs host order block)
    (isGame : turns.1.item.isGameAction = true)
    : chain.GameFeePaid host turns
      ↔ ∀ sender, chain.CannotPay host turns.1 sender →
          Stale host.crypto (turns.1.before.ledger host chain.db).view turns.1.item
          ∧ ∀ payload, Partition.payload host.crypto turns.1.item = some payload →
              GameWorld.Inert (order.tick.action turns.2.before.1) (debugAddress payload.sender)
                turns.2.before.2 payload.action := by
  have inGame : turns.1 ∈ chain.gameTurns host order block := (List.of_mem_zip member).1
  have inTick : turns.2 ∈ chain.actTurns host order block := (List.of_mem_zip member).2
  obtain ⟨gameItems, actItems⟩ := accepted.turns_items
  have sameItem := Loop.item_eq_of_mem_zip (gameItems.trans actItems.symm) turns member
  obtain ⟨call, counts⟩ := accepted.gameTurn inGame
  obtain ⟨receipt, pushed, succeeds⟩ := Execution.receipt_of_processGameTx isGame call
  have only {other : TransactionReceipt}
      (appended : turns.1.after.receipts = turns.1.before.receipts ++ [other])
      : other = receipt := by
    rw [pushed, List.append_cancel_left_eq, List.cons.injEq] at appended
    exact appended.1.symm
  have inert := accepted.actTurn_unchanged_iff inTick
  rw [← sameItem] at inert
  rw [Ledger.gameTx, if_pos isGame] at counts
  constructor
  · intro feePaid sender cannotPay
    obtain ⟨failed, unchanged⟩ := feePaid.unaffordable sender cannotPay
    exact ⟨Execution.stale_of_failed call isGame pushed (failed receipt pushed),
      inert.mp unchanged⟩
  · intro covered
    constructor
    · intro other appended success
      rw [only appended] at success
      obtain ⟨sender, due⟩ := succeeds.mp success
      refine ⟨sender, due.recovered, ?_⟩
      have after
          : turns.1.after.ledger host chain.db
            = (turns.1.before.ledger host chain.db).countAction sender :=
        congrArg Prod.snd (counts.symm.trans (Ledger.guarded_of_due due))
      rw [after, Ledger.balanceAt_countAction (readableAt_iff_nonce.mpr ⟨_, due.nonce⟩)]
      split
      next short =>
        exact absurd (covered sender ⟨due.recovered, short⟩).1 due.not_stale
      next enough => omega
    · intro sender cannotPay
      obtain ⟨stale, found⟩ := covered sender cannotPay
      refine ⟨fun other appended => ?_, inert.mpr found⟩
      rw [only appended, ← Bool.not_eq_true]
      intro success
      obtain ⟨_, due⟩ := succeeds.mp success
      exact due.not_stale stale

/-- The balances after an applied block are the balances before it and the changes of all turns
of the two passes.
-/
theorem Accepted.balance_result (laws : host.revm.NonceLaws) (sound : host.account.RoundTrips)
    (readable : (chain.accounts host).Readable) (address : Address)
    : (((accepted.result.accounts host).balanceAt address).toNat : Int)
      = ((chain.accounts host).balanceAt address).toNat
        + ((chain.evmTurns host block).map (chain.evmChange host block address)).sum
        + ((chain.gameTurns host order block).map (chain.gameChange host address)).sum := by
  have evm := Loop.turns_telescope
    (fun x => ((chain.settledAt host block x).balanceAt address).toNat) accepted.evmEnd_eq.1
  rw [← accepted.evmTxs, ← accepted.evmEnd_eq.2] at evm
  have game := Loop.turns_telescope
    (fun x => (((x.ledger host chain.db).view.balanceAt address).toNat : Int)) accepted.game_ok
  have begins
      : (chain.settledAt host block (chain.evmStart host block)).balanceAt
        = (chain.accounts host).balanceAt := by
    apply balanceAt_congr
    unfold settledAt
    rw [accepted.evmStart_ledger.1]
    exact Ledger.settled_start _ _ _
  have between
      : (chain.settledAt host block (chain.evmEnd host block)).balanceAt
        = ((chain.gameStart host order block).ledger host chain.db).view.balanceAt := by
    apply balanceAt_congr
    rw [accepted.gameStart_ledger readable]
    exact Ledger.settled_end (accepted.underway_end laws).sameCode
  rw [begins, between] at evm
  rw [evm] at game
  have ends : accepted.result.accounts host = (accepted.processed.ledger host chain.db).view :=
    accounts_finalize order block _ _ _ sound
  rw [ends]
  exact game

end Accepted

/-- The fees of an applied block are paid exactly when they are covered. -/
theorem feesPaid_iff (laws : host.revm.NonceLaws) (charges : host.revm.ChargesGas moved)
    (sound : host.account.RoundTrips) (readable : (chain.accounts host).Readable)
    {next : Chain F} (applied : chain.applyBlock host order block = (.ok (), next))
    : chain.FeesPaid host moved order block next ↔ chain.FeesCovered host order block := by
  obtain ⟨accepted, rfl⟩ := applyBlock_ok_iff.mp applied
  constructor
  · intro paid
    exact
      ⟨fun turn member =>
          (accepted.evmFeePaid_iff laws charges readable member).mp (paid.evm turn member),
        fun turns member isGame =>
          (accepted.gameFeePaid_iff member isGame).mp (paid.game turns member isGame)⟩
  · intro covered
    exact
      ⟨accepted.balance_result laws sound readable,
        fun turn member =>
          (accepted.evmFeePaid_iff laws charges readable member).mpr
            (covered.priced turn member),
        fun turns member isGame =>
          (accepted.gameFeePaid_iff member isGame).mpr
            (covered.affordable turns member isGame)⟩

/-- The chain after the wallet has sent a transfer and a move. -/
def afterTransferFirst : Chain Milli :=
  (walletChain.applyBlock (.reference []) (.ascending Milli) transferFirst).2

theorem feesPaid_iff_transferFirst
    : walletChain.FeesPaid (.reference []) Revm.valueMoved (.ascending Milli) transferFirst
          afterTransferFirst
      ↔ walletChain.FeesCovered (.reference []) (.ascending Milli) transferFirst :=
  feesPaid_iff Revm.transfers_nonceLaws Revm.transfers_chargesGas
    Account.wordCodec_roundTrips readable_walletChain (Loop.eq_of_ok (by decide +kernel))

/-- A move of an account that has nothing. -/
def pennilessMove : Block :=
  Block.following (.genesis 0) [.action 9 1 0 (.move 1000 0 0)]

/-- The account without a balance moves all the same. -/
theorem feesPaid_fails_on_pennilessMove
    : ¬ ∀ (host : Host Milli) (moved : UInt64 → TxEnv → CacheDb → Int)
          (order : BlockOrder Milli) (block : Block) (chain next : Chain Milli),
        host.revm.NonceLaws
        → host.revm.ChargesGas moved
        → host.account.RoundTrips
        → (chain.accounts host).Readable
        → chain.applyBlock host order block = (.ok (), next)
        → chain.FeesPaid host moved order block next := by
  intro claimed
  have paid := claimed (.reference []) Revm.valueMoved (.ascending Milli) pennilessMove
    pennilessChain _ Revm.transfers_nonceLaws Revm.transfers_chargesGas
    Account.wordCodec_roundTrips
    (AccountsReadable.accounts (Account.wordCodec_readable _))
    (Loop.eq_of_ok (by decide +kernel))
  have acts
      : ∃ turns ∈ pennilessChain.gameTurnPairs (.reference []) (.ascending Milli) pennilessMove,
          turns.1.item.isGameAction = true
          ∧ turns.1.item.sender (Host.reference []).crypto = .ok 9
          ∧ ((turns.1.before.ledger (.reference []) pennilessChain.db).view.balanceAt 9).toNat
            < gameActionGas.toNat
          ∧ turns.2.after.2.getComponents 1 ≠ turns.2.before.2.getComponents 1 := by
    decide +kernel
  obtain ⟨turns, member, isGame, isSender, short, acted⟩ := acts
  obtain ⟨_, unchanged⟩ := (paid.game turns member isGame).unaffordable 9 ⟨isSender, short⟩
  exact acted (congrArg (·.getComponents 1) unchanged)

end Chain

end VeloChain
